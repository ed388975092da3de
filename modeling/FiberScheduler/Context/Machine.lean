import FiberScheduler.Act

/-!
# The context machine

Contexts are suspended stacks; control moves between them by symmetric switches.
Each thread runs a loop on its root: it resumes one context at a time, and a
context that switches away hands the request back to that loop, which then looks
for the target. The loop ends when a context switches to the root, or in a fault.

A context may start a thread and join it, so threads nest: only the innermost one
makes progress.
-/

namespace FiberScheduler

inductive Handle where
  | invalid
  /-- The root of a thread. -/
  | root (thread : Nat)
  | context (index : Nat)
  deriving DecidableEq, Repr

namespace Handle

def isValid : Handle → Bool
  | .invalid => false
  | _ => true

end Handle

/-- What whoever gets control learns: who switched away, and the data passed. -/
structure Transfer where
  source : Handle
  data : UInt64
  deriving DecidableEq, Repr

inductive Wake where
  | switched (transfer : Transfer)
  /-- The thread it started has ended with this result. -/
  | joined (result : Except Fault Transfer)

/-- How a turn of a context ends. -/
inductive Move where
  | switch (target : Handle) (data : UInt64)
  /-- A new thread makes a switch, and the context waits for its end. -/
  | thread (target : Handle) (data : UInt64)
  /-- The callback returns. -/
  | leave
  deriving DecidableEq, Repr

/-- What a running context sees of its surroundings. -/
structure Site where
  self : Nat
  /-- The thread it runs on. -/
  thread : Nat
  deriving DecidableEq, Repr

structure ContextRecord (τ : Type) where
  running : Bool
  /-- Whether the callback has returned or panicked. -/
  ended : Bool
  body : τ

inductive Phase where
  | seeking (target : Handle) (transfer : Transfer)
  | inside (context : Nat) (wake : Wake)
  | joining (context : Nat)

structure Thread where
  root : Nat
  phase : Phase

structure Locals where
  /-- The running flag of its root. -/
  rootRunning : Bool
  /-- The context that it runs; none of them while it is on its native stack. -/
  running : Handle
  deriving DecidableEq, Repr

def Locals.new : Locals :=
  ⟨true, .invalid⟩

/-- The contexts, the threads with the innermost in front, what each thread keeps for
itself, and what the callbacks share. -/
structure Machine (τ ω : Type) where
  records : Array (ContextRecord τ)
  threads : List Thread
  locals : Nat → Locals
  world : ω

/-- One turn of a callback: from the moment it gets control to its next move. A
fault of a turn is a panic on the context's stack. -/
abbrev Turn (ρ τ ω : Type) : Type :=
  Site → Wake → Act ρ (τ × ω) Move

namespace Machine

variable {ρ τ ω : Type}

def new (world : ω) : Machine τ ω :=
  ⟨#[], [], fun _ => .new, world⟩

def create (body : τ) : Act ρ (Machine τ ω) Handle := do
  let index := (← Act.get).records.size
  Act.modify fun m => { m with records := m.records.push ⟨false, false, body⟩ }
  return .context index

def setPhase (phase : Phase) : Act ρ (Machine τ ω) Unit :=
  Act.modify fun m =>
    match m.threads with
    | [] => m
    | thread :: rest => { m with threads := { thread with phase } :: rest }

def modifyRecord (index : Nat) (f : ContextRecord τ → ContextRecord τ) : Act ρ (Machine τ ω) Unit :=
  Act.modify fun m => { m with records := m.records.modify index f }

/-! ## Running flags -/

def inContext (m : Machine τ ω) (thread : Nat) : Bool :=
  (m.locals thread).running.isValid

def current (m : Machine τ ω) (thread : Nat) : Handle :=
  if m.inContext thread then (m.locals thread).running else .root thread

def flag? (m : Machine τ ω) : Handle → Option Bool
  | .invalid => none
  | .root thread => some (m.locals thread).rootRunning
  | .context index => (m.records[index]?).map (·.running)

def modifyLocals (m : Machine τ ω) (thread : Nat) (f : Locals → Locals) : Machine τ ω :=
  { m with locals := fun k => if k = thread then f (m.locals k) else m.locals k }

def setFlag (m : Machine τ ω) (flag : Bool) : Handle → Machine τ ω
  | .invalid => m
  | .root thread => m.modifyLocals thread fun l => { l with rootRunning := flag }
  | .context index => { m with records := m.records.modify index fun r => { r with running := flag } }

def enter (thread : Nat) (handle : Handle) : Act ρ (Machine τ ω) Unit := do
  match (← Act.get).flag? handle with
  | none => Act.fail .invalidTarget
  | some running =>
    -- The mark is set in any case; the test is on what it was before.
    Act.modify (·.setFlag true handle)
    if running then Act.fail .alreadyRunning
    Act.modify (·.modifyLocals thread fun l => { l with running := handle })

def leave (thread : Nat) (handle : Handle) : Act ρ (Machine τ ω) Unit := do
  Act.modify (·.modifyLocals thread fun l => { l with running := .invalid })
  Act.modify (·.setFlag false handle)

/-! ## The loop of a thread -/

/-- Ends the innermost thread. The context that joins it goes on; without one, the
result is the answer. -/
def finish (result : Except Fault Transfer) : Act ρ (Machine τ ω) (Option (Except Fault Transfer)) := do
  match (← Act.get).threads with
  | _ :: { root, phase := .joining context } :: rest =>
    Act.modify fun m => { m with threads := ⟨root, .inside context (.joined result)⟩ :: rest }
    return none
  | _ =>
    Act.modify fun m => { m with threads := [] }
    return some result

def resumable? (m : Machine τ ω) : Handle → Except Fault Nat
  | .context index => if (m.records[index]?).any (·.ended) then .error .alreadyEnded else .ok index
  | _ => .error .foreignRoot

def visit (root : Nat) (target : Handle) (transfer : Transfer) :
    Act ρ (Machine τ ω) (Option (Except Fault Transfer)) := do
  match ← (enter root target).attempt with
  | .error fault => finish (.error fault)
  | .ok () =>
    match (← Act.get).resumable? target with
    | .ok index =>
      setPhase (.inside index (.switched transfer))
      return none
    | .error fault =>
      leave root target
      finish (.error fault)

def seek (root : Nat) (target : Handle) (transfer : Transfer) :
    Act ρ (Machine τ ω) (Option (Except Fault Transfer)) :=
  if target = .root root then finish (.ok transfer)
  else if target.isValid then visit root target transfer
  else finish (.error .invalidTarget)

def play (turn : Turn ρ τ ω) (site : Site) (wake : Wake) (body : τ) :
    Act ρ (Machine τ ω) (Except Fault Move) :=
  Act.attempt <| Act.zoom (fun m => (body, m.world))
    (fun m (body, world) =>
      { m with records := m.records.modify site.self fun r => { r with body }, world })
    (turn site wake)

def conclude (root index : Nat) (fault : Fault) : Act ρ (Machine τ ω) (Option (Except Fault Transfer)) := do
  modifyRecord index fun r => { r with ended := true }
  leave root (.context index)
  finish (.error fault)

/-- What follows the move of a context. It is unmarked when it gives control back to the
loop. -/
def follow (root index : Nat) : Except Fault Move → Act ρ (Machine τ ω) (Option (Except Fault Transfer))
  | .ok (.switch target data) => do
    leave root (.context index)
    setPhase (.seeking target ⟨.context index, data⟩)
    return none
  | .ok (.thread target data) => do
    setPhase (.joining index)
    Act.modify fun m =>
      { m.modifyLocals (root + 1) (fun _ => .new) with
        threads := ⟨root + 1, .seeking target ⟨.root (root + 1), data⟩⟩ :: m.threads }
    return none
  | .ok .leave => conclude root index .callbackReturned
  | .error fault => conclude root index fault

def takeTurn (turn : Turn ρ τ ω) (root index : Nat) (wake : Wake) :
    Act ρ (Machine τ ω) (Option (Except Fault Transfer)) := do
  match (← Act.get).records[index]? with
  | none => finish (.error .invalidTarget)
  | some record => follow root index (← play turn ⟨index, root⟩ wake record.body)

def step (turn : Turn ρ τ ω) : Act ρ (Machine τ ω) (Option (Except Fault Transfer)) := do
  match (← Act.get).threads with
  | [] => return none
  | thread :: _ =>
    match thread.phase with
    | .seeking target transfer => seek thread.root target transfer
    | .inside index wake => takeTurn turn thread.root index wake
    | .joining _ => return none

/-- At most `fuel` steps; a loop that has not ended by then has no result. -/
def loop (turn : Turn ρ τ ω) : (fuel : Nat) → Act ρ (Machine τ ω) (Option (Except Fault Transfer))
  | 0 => return none
  | fuel + 1 => do
    match ← step turn with
    | some result => return some result
    | none => loop turn fuel

def launch (root : Nat) (target : Handle) (data : UInt64) : Act ρ (Machine τ ω) Unit :=
  Act.modify fun m => { m with threads := [⟨root, .seeking target ⟨.root root, data⟩⟩] }

def switch (turn : Turn ρ τ ω) (fuel : Nat) (root : Nat) (target : Handle) (data : UInt64) :
    Act ρ (Machine τ ω) (Option (Except Fault Transfer)) := do
  launch root target data
  loop turn fuel

def destroy (handle : Handle) : Act ρ (Machine τ ω) Unit := do
  match (← Act.get).flag? handle with
  | none => pure ()
  | some true => Act.fail .destroyedWhileRunning
  | some false =>
    if let .context index := handle then modifyRecord index fun r => { r with ended := true }

end Machine

end FiberScheduler
