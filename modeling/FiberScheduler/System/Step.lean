import FiberScheduler.System.State

/-!
# Steps of the workers

A worker's step is one action of the body it runs, or one round of its scheduling
loop. A fault outside of a body ends the worker's thread.
-/

namespace FiberScheduler.System

variable {κ μ ρ : Type}

/-! ## Switching fibers -/

/-- Rents a normal fiber for a worker. Without one the whole process ends. -/
def rentFiber : Act ρ (System κ μ ρ) (Option Nat) := do
  match ← onPool (FiberPool.rent (← mode) false) with
  | some fiber => return some fiber
  | none =>
    Act.note (.fibersExhausted false (← Act.get).pool.capacity)
    Act.modify fun s => { s with aborted := true }
    return none

/-- Finishes the switch that led here: the fiber that switched away is parked now, or
free again. -/
def settle (worker fiber previous : Nat) (parking : Bool) : Act ρ (System κ μ ρ) Unit := do
  modifyWorker worker fun w => { w with previous := none }
  onHub (Hub.bump .switches)
  onPool (FiberPool.update previous (.context previous))
  -- Only now that it has left its stack may the fiber be resumed or rented.
  if parking then
    modifyWorker worker fun w => { w with parking := false }
    onPool (FiberPool.finishSuspend previous)
    onHub (Hub.bump .suspensions)
  else onPool (FiberPool.release (← mode) (.context fiber) previous)

def switchTo (worker previous next : Nat) (parking : Bool) : Act ρ (System κ μ ρ) Unit := do
  modifyWorker worker fun w => { w with previous := some previous, parking, current := some next }
  discard <| onPool (FiberPool.entry (← mode) next)
  settle worker next previous parking

def park (worker fiber group : Nat) : Act ρ (System κ μ ρ) Unit := do
  -- Rented before the fiber is on the list: where there is none, nobody is stranded.
  match ← rentFiber with
  | none => pure ()
  | some next =>
    match (← Act.get).workers[worker]? with
    | none => pure ()
    | some w =>
      onHub (Hub.park group fiber w.priority w.affinity)
      onPool (FiberPool.beginSuspend fiber)
      switchTo worker fiber next true

/-! ## Bodies -/

def beginRun (body : κ → Program κ μ ρ Unit) (fiber job : Nat) : Act ρ (System κ μ ρ) Unit := do
  match ← onHub (Hub.startBody job) with
  | some code => setRun fiber (some ⟨job, [], body code⟩)
  | none => setRun fiber (some ⟨job, [], .done ()⟩)

def endRun (worker fiber : Nat) (run : Run κ μ ρ) (panic : Option Fault) : Act ρ (System κ μ ρ) Unit := do
  setRun fiber none
  onHub (Hub.endRun (workerName worker) run.job run.held panic)

def stepRun (worker fiber : Nat) (run : Run κ μ ρ) : Act ρ (System κ μ ρ) Unit := do
  match run.rest with
  | .done () => endRun worker fiber run none
  | .panic fault => endRun worker fiber run (some fault)
  | .wait group next =>
    match ← (access run.held group).attempt with
    | .error fault => setRun fiber (some { run with rest := .panic fault })
    | .ok state =>
      if state.isSignaled then setRun fiber (some { run with rest := next })
      else park worker fiber group
  | .call c next =>
    match ← (perform (some worker) run.held c).attempt with
    | .ok answer => setRun fiber (some ⟨run.job, c.settle answer run.held, next answer⟩)
    | .error fault => setRun fiber (some { run with rest := .panic fault })

/-! ## The scheduling loop -/

def start (worker : Nat) : Act ρ (System κ μ ρ) Unit := do
  if let some fiber ← rentFiber then
    modifyWorker worker fun w => { w with stage := .running, current := some fiber, previous := none }

def leave (worker fiber : Nat) : Act ρ (System κ μ ρ) Unit := do
  modifyWorker worker fun w => { w with stage := .left, current := none }
  onPool (FiberPool.update fiber (.context fiber))
  onPool (FiberPool.release (← mode) (.root worker) fiber)

/-- Starts a fetched job here, or on an extended fiber if it needs one. Without a free
one the job goes back to its queue. -/
def dispatch (body : κ → Program κ μ ρ Unit) (worker fiber job : Nat) (p : Priority) (a : Affinity) :
    Act ρ (System κ μ ρ) Unit := do
  modifyWorker worker fun w => { w with priority := p, affinity := a }
  let s ← Act.get
  if !s.hub.needsExtended job || s.pool.isExtended fiber then beginRun body fiber job
  else
    match ← onPool (FiberPool.rent (← mode) true) with
    | none => onHub (Hub.requeue job p a)
    | some extended =>
      modifyWorker worker fun w => { w with handoff := some job }
      switchTo worker fiber extended false

/-- Goes on with a fiber whose wait is over. It stays queued as long as it has not
switched out. -/
def resume (worker fiber : Nat) (ready : Ready) (lanes : Lanes) : Act ρ (System κ μ ρ) Unit := do
  if ← onPool (FiberPool.takeSuspended ready.fiber) then
    onHub (Act.modify fun h => { h with lanes })
    modifyWorker worker fun w => { w with priority := ready.priority, affinity := ready.affinity }
    switchTo worker fiber ready.fiber false

def schedule (body : κ → Program κ μ ρ Unit) (worker fiber : Nat) (w : Worker) :
    Act ρ (System κ μ ρ) Unit := do
  -- A job that was handed over goes before all that is queued.
  match w.handoff with
  | some job =>
    modifyWorker worker fun w => { w with handoff := none }
    beginRun body fiber job
  | none =>
    let hub := (← Act.get).hub
    match hub.lanes.take (hub.crew.sources worker) with
    | some (.fiber ready, lanes) => resume worker fiber ready lanes
    | some (.job job p a, lanes) =>
      onHub (Act.modify fun h => { h with lanes })
      dispatch body worker fiber job p a
    | none => if hub.shouldExit then leave worker fiber

def tryStep (body : κ → Program κ μ ρ Unit) (worker : Nat) : Act ρ (System κ μ ρ) Unit := do
  let s ← Act.get
  match s.workers[worker]? with
  | none => pure ()
  | some w =>
    match w.stage, w.current with
    | .starting, _ => start worker
    | .running, some fiber =>
      match s.run? fiber with
      | some run => stepRun worker fiber run
      | none => schedule body worker fiber w
    | _, _ => pure ()

def step (body : κ → Program κ μ ρ Unit) (worker : Nat) : Act ρ (System κ μ ρ) Unit := do
  if !(← Act.get).aborted then
    -- What a body throws is caught with its run; anything else ends the thread.
    if let .error _ ← (tryStep body worker).attempt then
      modifyWorker worker fun w => { w with stage := .dead }

end FiberScheduler.System
