import FiberScheduler.Fiber.Pool

/-!
# Scripted fibers

Fibers that answer whoever switches to them with twice the data and the number of
times they got control. A request can ask the first fiber entered to do one thing
more before it answers.
-/

namespace FiberScheduler.Fiber

inductive Request where
  | releaseSelf
  /-- Switches to another fiber through the pool. -/
  | hop (fiber : Nat) (data : UInt64)
  /-- A hop with nothing to hand over; it fails and the fiber goes on. -/
  | blankHop
  | panic (message : String)
  | leave
  /-- A request that makes no sense; the fiber ends when it comes to it. -/
  | malformed
  deriving DecidableEq, Repr

inductive Answer where
  | done
  | returned (data : UInt64)
  | fault (fault : Fault)

/-- Fibers are named by the slots that lead to them, if any does. -/
inductive Report where
  | entered (fiber source : Option Nat) (data : UInt64) (times : Nat)
  | answered (fiber : Option Nat) (answer : Answer)

/-- The state of a scripted fiber: how often it got control, what it was called when it
last did, whom it owes an answer, and whether it waits for the end of a hop. -/
structure Actor where
  resumed : Nat
  calledAs : Option Nat
  received : Transfer
  hopping : Bool

def Actor.new : Actor :=
  ⟨0, none, ⟨.invalid, 0⟩, false⟩

structure World where
  mode : Mode
  pool : FiberPool
  request : Option Request

abbrev ScriptMachine : Type := Machine Actor World

variable {α : Type}

def onPool (x : Act Report FiberPool α) : Act Report (Actor × World) α :=
  Act.zoom (·.2.pool) (fun (actor, world) pool => (actor, { world with pool })) x

def reply : Act Report (Actor × World) Move := do
  let (actor, _) ← Act.get
  return .switch actor.received.source (actor.received.data * 2 + actor.resumed.toUInt64)

def turn : Turn Report Actor World := fun site wake => do
  let (actor, world) ← Act.get
  match wake with
  | .joined _ => reply
  | .switched transfer =>
    if actor.hopping then
      Act.modify fun (actor, world) => ({ actor with hopping := false }, world)
      Act.report (.answered actor.calledAs (.returned transfer.data))
      reply
    else
      let here := world.pool.holder (.context site.self)
      let resumed := actor.resumed + 1
      Act.modify fun (actor, world) =>
        ({ actor with resumed, calledAs := here, received := transfer }, { world with request := none })
      Act.report (.entered here (world.pool.holder transfer.source) transfer.data resumed)
      match world.request with
      | none => reply
      | some (.panic message) => Act.fail (.raised message)
      | some .leave => return .leave
      | some .malformed => Act.fail .malformed
      | some .blankHop =>
        Act.report (.answered here (.fault .malformed))
        reply
      | some .releaseSelf =>
        match here with
        | none => reply
        | some fiber =>
          let released ← (onPool (FiberPool.release world.mode (.context site.self) fiber)).attempt
          let answer := match released with
            | .ok () => .done
            | .error fault => .fault fault
          Act.report (.answered here answer)
          reply
      | some (.hop fiber data) =>
        match ← (onPool (FiberPool.entry world.mode fiber)).attempt with
        | .error fault =>
          Act.report (.answered here (.fault fault))
          reply
        | .ok context =>
          Act.modify fun (actor, world) => ({ actor with hopping := true }, world)
          return .switch context data

def ScriptMachine.new (mode : Mode) (host : Host) (config : Config) :
    Act Report Unit (Except Refusal ScriptMachine) := do
  match ← FiberPool.new mode host config with
  | .error refusal => return .error refusal
  | .ok pool =>
    let m : ScriptMachine := Machine.new ⟨mode, pool, none⟩
    return .ok { m with records := Array.replicate pool.capacity ⟨false, false, .new⟩ }

namespace ScriptMachine

def withPool (x : Act Report FiberPool α) : Act Report ScriptMachine α :=
  Act.zoom (·.world.pool) (fun m pool => { m with world := { m.world with pool } }) x

def fuel : Nat := 64

def switch (fiber : Nat) (data : UInt64) (request : Option Request) :
    Act Report ScriptMachine (UInt64 × Option Nat) := do
  let context ← withPool (FiberPool.entry (← Act.get).world.mode fiber)
  Act.modify fun m => { m with world := { m.world with request } }
  let result ← Machine.switch turn fuel 0 context data
  Act.modify fun m => { m with world := { m.world with request := none } }
  match result with
  | some (.ok transfer) => return (transfer.data, (← Act.get).world.pool.holder transfer.source)
  | some (.error fault) => Act.fail fault
  | none => Act.fail .invalidTarget

def redirect (fiber : Nat) (source : Option Nat) : Act Report ScriptMachine Unit :=
  withPool do
    if let some source := source then discard <| FiberPool.slot source
    FiberPool.update fiber ((source.map .context).getD .invalid)

/-- Gives every fiber its own context back and destroys the pool. A fiber that never came
back from a hop keeps the pool alive. -/
def close : Act Report ScriptMachine Unit := do
  if (← Act.get).records.any (·.body.hopping) then return
  withPool (Act.modify fun pool =>
    { pool with slots := pool.slots.mapIdx fun fiber slot => { slot with context := .context fiber } })
  withPool FiberPool.drop

end ScriptMachine

end FiberScheduler.Fiber
