import FiberScheduler.Fiber.Pool
import FiberScheduler.Scheduler
import FiberScheduler.System.Program

/-!
# The state of a job system

Every worker runs one fiber at a time. A fiber either runs the scheduling loop, or
holds on its stack the unfinished run of one job, which may be parked.
-/

namespace FiberScheduler

/-- An unfinished run of a job: the handles it owns and what is left of its body. -/
structure Run (κ μ ρ : Type) where
  job : Nat
  held : List Nat
  rest : Program κ μ ρ Unit

inductive Stage where
  | starting
  | running
  /-- The thread has ended. -/
  | left
  /-- The thread has panicked. -/
  | dead
  deriving DecidableEq, Repr

structure Worker where
  stage : Stage
  current : Option Nat
  /-- The fiber that switched away last and has not been cleaned up. -/
  previous : Option Nat
  /-- Whether that fiber has parked. -/
  parking : Bool
  /-- The priority and affinity of the work at hand. -/
  priority : Priority
  affinity : Affinity
  /-- A job passed on to an extended fiber. -/
  handoff : Option Nat
  deriving DecidableEq, Repr

def Worker.new : Worker :=
  ⟨.starting, none, none, false, .normal, .any, none⟩

structure System (κ μ ρ : Type) where
  hub : Hub κ
  pool : FiberPool
  /-- The run on the stack of each fiber. -/
  runs : Array (Option (Run κ μ ρ))
  workers : Array Worker
  /-- What all bodies share. -/
  memory : μ
  /-- The handles that no run owns: those in the memory and those outside. -/
  kept : List Nat
  /-- Whether the process was ended because no fiber was free. -/
  aborted : Bool

namespace System

variable {κ μ ρ α : Type}

def new {σ : Type} (mode : Mode) (host : Host) (config : Config) (memory : μ) :
    Act ρ σ (Except Refusal (System κ μ ρ)) := do
  match config.validate with
  | .error refusal => return .error refusal
  | .ok () =>
    let hub ← Act.lift (Hub.new mode config)
    match ← FiberPool.new mode host config with
    | .error refusal => return .error refusal
    | .ok pool =>
      return .ok {
        hub, pool, memory
        kept := []
        runs := Array.replicate pool.capacity none
        workers := Array.replicate config.workerCount.toNat .new
        aborted := false }

def run? (s : System κ μ ρ) (fiber : Nat) : Option (Run κ μ ρ) :=
  (s.runs[fiber]?).join

def stageOf (s : System κ μ ρ) (worker : Nat) : Option Stage :=
  (s.workers[worker]?).map (·.stage)

def runOn? (s : System κ μ ρ) (worker : Nat) : Option (Run κ μ ρ) := do
  let w ← s.workers[worker]?
  let fiber ← w.current
  s.run? fiber

def dead (s : System κ μ ρ) : List Nat :=
  (List.range s.workers.size).filter fun worker => s.stageOf worker == some .dead

def workerName (worker : Nat) : String :=
  s!"Worker {worker}"

def lastWords? (s : System κ μ ρ) : Option String :=
  if s.aborted then
    some ("fiber pool exhausted (" ++ toString s.pool.capacity ++ " fibers); raise `fiber_count`")
  else none

/-! ## Acts on parts of a system -/

def onHub (x : Act ρ (Hub κ) α) : Act ρ (System κ μ ρ) α :=
  Act.zoom (·.hub) (fun s hub => { s with hub }) x

def onPool (x : Act ρ FiberPool α) : Act ρ (System κ μ ρ) α :=
  Act.zoom (·.pool) (fun s pool => { s with pool }) x

def mode : Act ρ (System κ μ ρ) Mode :=
  return (← Act.get).hub.mode

def modifyWorker (worker : Nat) (f : Worker → Worker) : Act ρ (System κ μ ρ) Unit :=
  Act.modify fun s => { s with workers := s.workers.modify worker f }

def setRun (fiber : Nat) (run : Option (Run κ μ ρ)) : Act ρ (System κ μ ρ) Unit :=
  Act.modify fun s => { s with runs := s.runs.setIfInBounds fiber run }

/-! ## Calls -/

/-- Where a worker's work runs; nowhere outside of the workers. -/
def placeOf (s : System κ μ ρ) (worker : Option Nat) : Option Place := do
  let index ← worker
  let w ← s.workers[index]?
  let fiber ← w.current
  return ⟨index, s.pool.name fiber, w.priority, w.affinity, s.pool.isExtended fiber⟩

def modifyKept (f : List Nat → List Nat) : Act ρ (System κ μ ρ) Unit :=
  Act.modify fun s => { s with kept := f s.kept }

def answer (worker : Option Nat) : (c : Call κ μ ρ) → Act ρ (System κ μ ρ) c.Answer
  | .newGroup => onHub Hub.newGroup
  | .cloneGroup group => onHub (Hub.cloneGroup group)
  | .dropGroup group => onHub (Hub.dropGroup group)
  | .giveGroup group => modifyKept (group :: ·)
  | .takeGroup group => modifyKept (·.erase group)
  | .add group n => onHub (Hub.addGroup group n)
  | .count group => onHub do return (← Hub.group group).count
  | .schedule job group priority affinity =>
    onHub (Hub.scheduler.schedule job group priority affinity)
  | .addJob job priority affinity => onHub (Hub.scheduler.addJob job priority affinity)
  | .isScheduled job => return (← Act.get).hub.isScheduled job
  | .spawn code group priority affinity => onHub (Hub.scheduler.spawn code group priority affinity)
  | .place => return (← Act.get).placeOf worker
  | .counters => return (← Act.get).hub.counters
  | .report report => Act.report report
  | .access f => do
    let s ← Act.get
    Act.modify fun s => { s with memory := f s.memory }
    return s.memory

def perform (worker : Option Nat) (held : List Nat) (c : Call κ μ ρ) :
    Act ρ (System κ μ ρ) c.Answer := do
  if c.permits held (← Act.get).kept then answer worker c else Act.fail .malformed

/-- A call from outside of the workers. The handles it leaves with its caller are kept. -/
def ask (c : Call κ μ ρ) : Act ρ (System κ μ ρ) c.Answer := do
  let result ← perform none (← Act.get).kept c
  modifyKept (c.settle result)
  return result

def dropKept (group : Nat) : Act ρ (System κ μ ρ) Unit := do
  modifyKept (·.erase group)
  onHub (Hub.dropGroup group)

def access (held : List Nat) (group : Nat) : Act ρ (System κ μ ρ) Group :=
  if held.contains group then onHub (Hub.group group) else Act.fail .malformed

def dropHeld (held : List Nat) : Act ρ (System κ μ ρ) Unit :=
  onHub (Hub.dropGroups held)

/-- Runs a program outside of the workers. It has no value where it would have to
wait; the handles it still owns are given up. -/
def execute : Program κ μ ρ α → (held : List Nat) → Act ρ (System κ μ ρ) (Option α)
  | .done value, held => do
    dropHeld held
    return some value
  | .panic fault, held => do
    dropHeld held
    Act.fail fault
  | .wait group next, held => do
    if (← onHub (Hub.group group)).isSignaled then execute next held
    else
      dropHeld held
      return none
  | .call c next, held => do
    match ← (perform none held c).attempt with
    | .ok answer => execute (next answer) (c.settle answer held)
    | .error fault =>
      dropHeld held
      Act.fail fault

end System

end FiberScheduler
