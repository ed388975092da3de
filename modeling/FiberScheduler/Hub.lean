import FiberScheduler.BlockPool
import FiberScheduler.Config
import FiberScheduler.Counters
import FiberScheduler.Job
import FiberScheduler.Lanes
import FiberScheduler.WaitGroup

/-!
# The hub

The state that all parts of a job system share: the queued work, the wait groups
and the links of the fibers parked on them, the jobs, and the counters. It outlives
the workers, so handles to it keep working after a stop.
-/

namespace FiberScheduler

structure Hub (κ : Type) where
  mode : Mode
  crew : Crew
  /-- Whether the system has fibers with an extended stack. -/
  extendedFibers : Bool
  lanes : Lanes
  groups : BlockPool Group
  /-- One link for each fiber. -/
  links : Array Link
  jobs : Array (Job κ)
  stopping : Bool
  /-- Jobs accepted and not yet finished. -/
  active : UInt64
  counters : Counters

namespace Hub

variable {ρ κ α : Type}

/-- The size and the alignment of the queues of one worker in memory. -/
def laneBytes : Nat := 1536

def laneAlignment : Nat := 128

def checkLanes (workers : Nat) : Except Fault Unit :=
  if workers * laneBytes ≤ wordSize 63 - laneAlignment then .ok () else .error .capacityOverflow

def new (mode : Mode) (config : Config) : Except Fault (Hub κ) := do
  let fibers ← mode.word .add 32 (config.fiberCount.toNat + config.extendedFiberCount.toNat)
  let workers := config.workerCount.toNat
  checkLanes workers
  let groups ← BlockPool.new config.blockCount.toNat
  return {
    mode
    crew := ⟨workers, workers - config.backgroundWorkerCount.toNat⟩
    extendedFibers := 0 < config.extendedFiberCount
    lanes := .empty workers
    groups
    links := Array.replicate fibers .empty
    jobs := #[]
    stopping := false
    active := 0
    counters := .zero }

def bump (counter : Counter) : Act ρ (Hub κ) Unit :=
  Act.modify fun h => { h with counters := h.counters.bump counter }

def checkWorker (worker : Nat) : Act ρ (Hub κ) Unit := do
  let size := (← Act.get).crew.size
  if worker < size then pure () else Act.fail (.outOfBounds size worker)

/-! ## Wait groups -/

def onGroups (x : Act ρ (BlockPool Group) α) : Act ρ (Hub κ) α :=
  Act.zoom (·.groups) (fun h groups => { h with groups }) x

def group (g : Nat) : Act ρ (Hub κ) Group :=
  onGroups (BlockPool.get g)

def modifyGroup (g : Nat) (f : Group → Group) : Act ρ (Hub κ) Unit :=
  onGroups (BlockPool.modify g f)

def newGroup : Act ρ (Hub κ) (Except Refusal Nat) := do
  match ← onGroups (BlockPool.allocate Group.new) with
  | some g => return .ok g
  | none =>
    let capacity := (← Act.get).groups.capacity
    Act.note (.blocksExhausted capacity)
    return .error (.blocksExhausted capacity)

def cloneGroup (g : Nat) : Act ρ (Hub κ) Unit := do
  discard <| group g
  modifyGroup g fun s => { s with handles := s.handles + 1 }

/-- Gives up a handle; the last one frees the block. -/
def dropGroup (g : Nat) : Act ρ (Hub κ) Unit := do
  let s ← group g
  modifyGroup g fun s => { s with handles := s.handles - 1 }
  if s.handles = 1 then
    discard <| onGroups (BlockPool.release (← Act.get).mode g)

def dropGroups (gs : List Nat) : Act ρ (Hub κ) Unit :=
  gs.forM dropGroup

def makeReady (fiber : Nat) : Act ρ (Hub κ) Unit := do
  let h ← Act.get
  match h.links[fiber]? with
  | none => Act.fail (.outOfBounds h.links.size fiber)
  | some link =>
    let lanes ← Act.lift <|
      h.lanes.pushReady ⟨fiber, .ofIndex link.priority, .decode link.affinity⟩
    Act.modify fun h => { h with lanes }

def chain (links : Array Link) : (bound : Nat) → (head : Option Nat) → List Nat
  | 0, _ | _, none => []
  | bound + 1, some fiber =>
    fiber :: match links[fiber]? with
      | some link => chain links bound link.next
      | none => []

def waiters (h : Hub κ) (s : Group) : List Nat :=
  chain h.links h.links.size s.head

def wake (g : Nat) : Act ρ (Hub κ) Unit := do
  let s ← group g
  -- The list is emptied first, since a fiber that is queued may park again at once.
  modifyGroup g fun s => { s with head := none }
  ((← Act.get).waiters s).forM makeReady

/-- Takes `n` units off the count and wakes the waiters when none is left. Taking
more than there are is a programming error and changes nothing. -/
def releaseGroup (g : Nat) (n : Int32) : Act ρ (Hub κ) Unit := do
  let s ← group g
  if s.count < n then
    Act.blame (← Act.get).mode (.overSignaled s.count.toInt n.toInt)
      (.overSignaled s.count.toInt n.toInt)
  else
    modifyGroup g fun s => { s with count := s.count - n }
    if s.count = n then wake g

def signal (g : Nat) : Act ρ (Hub κ) Unit :=
  releaseGroup g 1

def addGroup (g : Nat) (n : Int32) : Act ρ (Hub κ) Unit := do
  if 0 < n then
    discard <| group g
    modifyGroup g fun s => { s with count := s.count + n }
  else if n < 0 then releaseGroup g (Group.units n)

def park (g fiber : Nat) (p : Priority) (a : Affinity) : Act ρ (Hub κ) Unit := do
  let s ← group g
  Act.modify fun h => { h with links := h.links.setIfInBounds fiber (.make s.head p a) }
  modifyGroup g fun s => { s with head := some fiber }

/-- Signals a group and gives up the handle, whatever the signal did. -/
def signalAndDrop (g : Nat) : Act ρ (Hub κ) Unit := do
  let result ← (signal g).attempt
  dropGroup g
  Act.lift result

/-! ## Jobs -/

/-- How many jobs there can be: a record takes memory, and of that a process gets at
most half of the address space. -/
def recordLimit : Nat := wordSize 63

def addRecord (job : Job κ) : Act ρ (Hub κ) Nat := do
  let id := (← Act.get).jobs.size
  if id + 1 < recordLimit then
    Act.modify fun h => { h with jobs := h.jobs.push job }
    return id
  else Act.fail .capacityOverflow

def dropRecord : Act ρ (Hub κ) Unit :=
  Act.modify fun h => { h with jobs := h.jobs.pop }

def modifyJob (job : Nat) (f : Job κ → Job κ) : Act ρ (Hub κ) Unit :=
  Act.modify fun h => { h with jobs := h.jobs.modify job f }

def isScheduled (h : Hub κ) (job : Nat) : Bool :=
  (h.jobs[job]?).any (·.scheduled)

def needsExtended (h : Hub κ) (job : Nat) : Bool :=
  (h.jobs[job]?).any (·.extended)

/-- Claims a job for one run. Claiming one that is still pending is a programming
error. -/
def claim (job : Nat) : Act ρ (Hub κ) (Except Refusal Unit) := do
  let h ← Act.get
  match h.jobs[job]? with
  | none => Act.fail (.outOfBounds h.jobs.size job)
  | some record =>
    if record.scheduled then
      Act.blame h.mode .jobStillPending .alreadyScheduled
      return .error .alreadyScheduled
    modifyJob job fun j => { j with scheduled := true }
    return .ok ()

def track (job g : Nat) : Act ρ (Hub κ) Unit := do
  addGroup g 1
  cloneGroup g
  let old := ((← Act.get).jobs[job]?).bind (·.completion)
  modifyJob job fun j => { j with completion := some g }
  -- What was in the slot is overwritten, so its handle goes.
  if let some old := old then dropGroup old

def complete (job : Nat) : Act ρ (Hub κ) (Option Nat) := do
  let g := ((← Act.get).jobs[job]?).bind (·.completion)
  modifyJob job fun j => { j with completion := none, scheduled := false }
  return g

def startBody (job : Nat) : Act ρ (Hub κ) (Option κ) := do
  let body := ((← Act.get).jobs[job]?).bind fun j => if j.spent then none else some j.code
  modifyJob job fun j => { j with started := true }
  return body

/-! ## Queues -/

def checkAffinity (h : Hub κ) (a : Affinity) : Except Refusal Unit :=
  if h.crew.serves a then .ok () else .error (.unknownAffinity a)

def requeue (job : Nat) (p : Priority) (a : Affinity) : Act ρ (Hub κ) Unit := do
  let lanes ← Act.lift ((← Act.get).lanes.pushJob job p a)
  Act.modify fun h => { h with lanes }

/-- Accepts a claimed job, unless nobody could run it or the system has drained. -/
def push (job : Nat) (p : Priority) (a : Affinity) : Act ρ (Hub κ) (Except Refusal Unit) := do
  let h ← Act.get
  match h.checkAffinity a with
  | .error refusal => return .error refusal
  | .ok () =>
    if h.needsExtended job && !h.extendedFibers then return .error .extendedStackUnavailable
    if h.active = 0 ∧ h.stopping then return .error .stopped
    Act.modify fun h => { h with active := h.active + 1 }
    bump .submitted
    requeue job p a
    return .ok ()

def pushReady (ready : Ready) : Act ρ (Hub κ) Unit := do
  let lanes ← Act.lift ((← Act.get).lanes.pushReady ready)
  Act.modify fun h => { h with lanes }

def fetch (worker : Nat) : Act ρ (Hub κ) (Option Work) := do
  checkWorker worker
  let h ← Act.get
  match h.lanes.take (h.crew.sources worker) with
  | none => return none
  | some (work, lanes) =>
    Act.modify fun h => { h with lanes }
    return some work

def hasWork (h : Hub κ) (worker : Nat) : Bool :=
  h.lanes.hasWork (h.crew.sources worker)

/-! ## Stopping -/

def jobFinished : Act ρ (Hub κ) Unit :=
  Act.modify fun h => { h with active := h.active - 1 }

/-- Ends a run that was on a worker: the handles its body still owned are given up, the
run is counted, its panic is noted, its group is signaled. -/
def endRun (worker : String) (job : Nat) (held : List Nat) (panic : Option Fault) :
    Act ρ (Hub κ) Unit := do
  dropGroups held
  bump .executed
  if let some fault := panic then
    bump .panicked
    Act.note (.jobPanicked worker fault.message)
  if let some g ← complete job then signalAndDrop g
  -- Not reached if the signal fails: the slot of the run is lost then.
  jobFinished

def beginStop : Act ρ (Hub κ) Unit :=
  Act.modify fun h => { h with stopping := true }

/-- Workers leave once the system is stopping and every accepted job has finished. -/
def shouldExit (h : Hub κ) : Bool :=
  h.stopping && h.active == 0

end Hub

end FiberScheduler
