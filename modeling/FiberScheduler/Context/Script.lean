import FiberScheduler.Context.Machine
import FiberScheduler.Context.Region

/-!
# Scripted contexts

Callbacks given as lists of instructions. A scripted context reports every time it
gets control, follows its instructions up to the next switch, and once they are
used up sends whatever it receives home.
-/

namespace FiberScheduler.Context

inductive Target where
  | context (index : Nat)
  /-- Whoever switched here last. -/
  | source
  /-- The root that the innermost unfinished loop belongs to. -/
  | home
  /-- The root of the first thread. -/
  | root
  | self
  | invalid
  deriving DecidableEq, Repr

def Target.ofName? : String → Option Target
  | "from" => some .source
  | "home" => some .home
  | "root" => some .root
  | "self" => some .self
  | "invalid" => some .invalid
  | _ => none

inductive Payload where
  | data (data : UInt64)
  /-- The data received last, plus this. -/
  | add (amount : UInt64)
  deriving DecidableEq, Repr

inductive Instruction where
  | switch (target : Target) (payload : Payload)
  | thread (target : Target) (payload : Payload)
  | panic (message : String)
  | leave
  | destroySelf
  /-- An instruction that makes no sense; the context ends when it comes to it. -/
  | malformed
  deriving DecidableEq, Repr

inductive Report where
  | resumed (context : Nat) (transfer : Transfer) (times : Nat)
  | joined (context : Nat) (result : Except Fault Transfer)

structure Actor where
  program : List Instruction
  resumed : Nat
  received : Transfer

namespace Actor

def new (program : List Instruction) : Actor :=
  ⟨program, 0, ⟨.invalid, 0⟩⟩

end Actor

/-- The contexts that were asked for, by the place in the request; a region that was
refused leaves an invalid handle. -/
structure Cast where
  handles : Array Handle

def Cast.find? (cast : Cast) (place : Nat) : Option Handle :=
  (cast.handles[place]?).filter Handle.isValid

def Cast.resolve (cast : Cast) (site : Site) (source : Handle) : Target → Except Fault Handle
  | .context place =>
    match cast.find? place with
    | some handle => .ok handle
    | none => .error .malformed
  | .source => .ok source
  | .home => .ok (.root site.thread)
  | .root => .ok (.root 0)
  | .self => .ok (.context site.self)
  | .invalid => .ok .invalid

def Cast.resolveOutside (cast : Cast) : Target → Except Fault Handle
  | .context place =>
    match cast.find? place with
    | some handle => .ok handle
    | none => .error .malformed
  | .home | .root | .self => .ok (.root 0)
  | .source | .invalid => .ok .invalid

def Payload.value (received : UInt64) : Payload → UInt64
  | .data d => d
  | .add amount => received + amount

def turn : Turn Report Actor Cast := fun site wake => do
  match wake with
  | .switched transfer =>
    let (actor, cast) ← Act.get
    let actor := { actor with resumed := actor.resumed + 1, received := transfer }
    Act.modify fun _ => (actor, cast)
    Act.report (.resumed site.self transfer actor.resumed)
  | .joined result => Act.report (.joined site.self result)
  let (actor, cast) ← Act.get
  let resolve target := Act.lift (cast.resolve site actor.received.source target)
  match actor.program with
  | [] => return .switch (.root site.thread) actor.received.data
  | instruction :: program =>
    Act.modify fun _ => ({ actor with program }, cast)
    match instruction with
    | .switch target payload => return .switch (← resolve target) (payload.value actor.received.data)
    | .thread target payload => return .thread (← resolve target) (payload.value actor.received.data)
    | .panic message => Act.fail (.raised message)
    | .leave => return .leave
    | .destroySelf => Act.fail .destroyedWhileRunning
    | .malformed => Act.fail .malformed

abbrev ScriptMachine : Type := Machine Actor Cast

structure Plan where
  size : Nat
  offset : Nat
  program : List Instruction
  deriving Repr

def regionBase : Nat := 0x400000000000

/-- Where the region of a plan begins. Nothing is allocated for an empty one, which has
the lowest address. -/
def Plan.start (plan : Plan) : Nat :=
  if plan.size = 0 ∧ plan.offset = 0 then 1 else regionBase + plan.offset

namespace ScriptMachine

def add (mode : Mode) (plan : Plan) : Act Report ScriptMachine Unit := do
  let handle ← match ← Stack.carve mode plan.start plan.size with
    | none => pure .invalid
    | some _ => Machine.create (.new plan.program)
  Act.modify fun m => { m with world := ⟨m.world.handles.push handle⟩ }

def build (mode : Mode) (plans : List Plan) : Act Report ScriptMachine Unit :=
  plans.forM (add mode)

def destroy (place : Nat) : Act Report ScriptMachine Unit := do
  Machine.destroy (((← Act.get).world.handles[place]?).getD .invalid)
  Act.modify fun m => { m with world := ⟨m.world.handles.setIfInBounds place .invalid⟩ }

def fuel (m : ScriptMachine) : Nat :=
  4 * (m.records.foldl (fun n r => n + r.body.program.length) 0 + 2)

def switch (root : Nat) (target : Handle) (data : UInt64) : Act Report ScriptMachine Transfer := do
  let fuel := (← Act.get).fuel
  match ← Machine.switch turn fuel root target data with
  | some (.ok transfer) => return transfer
  | some (.error fault) => Act.fail fault
  | none => Act.fail .invalidTarget

end ScriptMachine

end FiberScheduler.Context
