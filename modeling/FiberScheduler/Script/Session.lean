import FiberScheduler.Script.Body
import FiberScheduler.System.Lifecycle

/-!
# Sessions

A session drives a job system one worker at a time. Every worker is held by a gate,
a job with an empty body that the supervisor does not let finish; a worker that is
let go runs until its next gate finds nothing left to do.
-/

namespace FiberScheduler.Script

abbrev Scripted : Type := System Code Notebook Report

inductive Standing where
  /-- It can be stopped. -/
  | owned
  /-- It is left alone for ever, but its workers can still be let go. -/
  | abandoned
  | stopped
  deriving DecidableEq, Repr

structure Session where
  system : Scripted
  specs : Array Spec
  config : Config
  standing : Standing
  /-- The handles of the threads that wait for a group. -/
  waiting : List Nat

inductive Step where
  | request (request : Request)
  /-- A request made to the system itself and not to a handle. -/
  | owned (request : Request)
  | go (worker : Nat) (wait : Option Name)
  | wait (name : Name)
  | beginStop
  | info
  | stop
  | drop
  deriving Repr

inductive Answer where
  | reply (reply : Reply)
  | went (idle : Bool) (waited : Option Bool)
  | notHeld
  | wouldBlock
  | stopped
  | stopping
  | info (workers : Nat) (config : Config) (description : String)
  | abandoned (pending : Nat)

namespace Session

variable {α : Type}

def onSystem (x : Act Report Scripted α) : Act Report Session α :=
  Act.zoom (·.system) (fun s system => { s with system }) x

def body (s : Session) : Code → Body Unit :=
  Script.body s.specs s.system.workers.size

/-! ## Gates -/

def modifyNotebook (f : Notebook → Notebook) : Act Report Scripted Unit :=
  Act.modify fun s => { s with memory := f s.memory }

def submitGate (a : Affinity) : Act Report Scripted Unit := do
  discard <| System.onHub (Hub.scheduler.spawn .gate none .low a)
  modifyNotebook fun n => { n with gatesSubmitted := n.gatesSubmitted + 1 }

def openGate : Act Report Scripted Unit :=
  modifyNotebook fun n => { n with gatesExecuted := n.gatesExecuted + 1 }

def isHeld (s : Scripted) (worker : Nat) : Bool :=
  (s.runOn? worker).any fun run =>
    (s.hub.jobs[run.job]?).any (·.code == .gate)

/-- Steps a worker until it is held or its thread has ended. -/
def untilHeld (body : Code → Body Unit) (worker : Nat) :
    (fuel : Nat) → Scripted → Array (Entry Report) → Scripted × Array (Entry Report)
  | 0, s, log => (s, log)
  | fuel + 1, s, log =>
    if s.aborted || isHeld s worker || s.stageOf worker == some .dead then (s, log)
    else
      let stepped := System.step body worker s
      untilHeld body worker fuel stepped.state (log.appendList stepped.log)

def patience : Nat := 10000000

def runToGate (worker : Nat) : Act Report Session Nat := fun s =>
  let body := s.body
  -- The step that leaves the gate comes first.
  let first := System.step body worker s.system
  let (system, log) := untilHeld body worker patience first.state first.log.toArray
  ⟨.ok log.size, { s with system }, log.toList⟩

/-- How many quiet runs mean that the worker only moves work around. -/
def quietLimit : Nat := 3

/-- Lets a held worker go, from gate to gate, as long as it has work and gets
something done. A run is quiet that left no entry; the `first` one never is. -/
def go (worker : Nat) : (fuel : Nat) → (first : Bool) → (quiet : Nat) → Act Report Session Bool
  | 0, _, _ => return true
  | fuel + 1, first, quiet => do
    onSystem (submitGate .any)
    onSystem openGate
    let entries ← runToGate worker
    let system := (← Act.get).system
    if system.stageOf worker == some .dead then return false
    if system.aborted then return true
    let quiet := if first || entries != 0 then 0 else quiet + 1
    if system.hub.hasWork worker && quiet < quietLimit then go worker fuel false quiet
    else return true

/-! ## Steps -/

def ask (request : Request) : Act Report Session Answer := do
  match ← onSystem (System.execute (Script.answer request) []) with
  | some reply => return .reply reply
  | none => return .wouldBlock

def pending (s : Session) : Nat :=
  let counters := s.system.hub.counters.without s.system.memory.gatesSubmitted
    s.system.memory.gatesExecuted
  (counters.submitted - counters.executed).toNat

def isOwned (s : Session) : Bool :=
  s.standing == .owned

/-- Stops the system, unless that would never end. -/
def stop : Act Report Session (Except Nat (Except Refusal Unit)) := do
  let s ← Act.get
  let dead := s.system.dead
  if dead.isEmpty && 0 < s.pending || !dead.isEmpty && 1 < s.system.workers.size then
    Act.modify fun s => { s with standing := .abandoned }
    return .error s.pending
  else
    Act.modify fun s => { s with standing := .stopped }
    if dead.isEmpty then s.system.workers.toList.forM fun _ => onSystem openGate
    match ← onSystem (System.stop s.body (System.inTurn s.system.workers.size) patience) with
    | some answer => return .ok answer
    | none =>
      Act.modify fun s => { s with standing := .abandoned }
      return .error (← Act.get).pending

def describe (config : Config) : String :=
  "JobSystem \x7b config: " ++ config.describe ++ ", running: true, .. \x7d"

/-! ## Waiting threads -/

def isSignaled (group : Nat) : Act Report Session Bool :=
  return (← onSystem (System.onHub (Hub.group group))).isSignaled

def dropGroup (group : Nat) : Act Report Session Unit :=
  onSystem (System.dropKept group)

def awaken : Act Report Session Unit := do
  (← Act.get).waiting.forM fun group => do
    if ← isSignaled group then
      dropGroup group
      Act.modify fun s => { s with waiting := s.waiting.erase group }

def borrow (name : Name) : Act Report Session (Except Reply Nat) := do
  let handOver : Body (Except Reply Nat) := do
    let borrowed ← Script.borrow name
    if let .ok group := borrowed then Program.ask (.giveGroup group)
    return borrowed
  return (← onSystem (System.execute handOver [])).getD (.error .noGroup)

def canGo (s : Session) (worker : Nat) : Bool :=
  s.standing != .stopped && s.system.dead.isEmpty && worker < s.system.workers.size

def release (worker : Nat) : Act Report Session Answer := do
  if !(← Act.get).canGo worker then return .notHeld
  awaken
  return .went (← go worker patience true 0) none

/-- Lets a held worker go while a thread waits for a group. The thread keeps its handle
for as long as the group is not signaled. -/
def releaseFor (worker : Nat) (name : Name) : Act Report Session Answer := do
  match ← borrow name with
  | .error reply => return .reply reply
  | .ok group =>
    let early ← isSignaled group
    match ← release worker with
    | .went idle _ =>
      let signaled ← isSignaled group
      if early || signaled then dropGroup group
      else Act.modify fun s => { s with waiting := group :: s.waiting }
      return .went idle (some signaled)
    | other =>
      dropGroup group
      return other

def step : Step → Act Report Session Answer
  | .request request => ask request
  | .owned request => do
    if (← Act.get).isOwned then ask request else return .stopped
  | .wait name => do
    match ← ask (.about name .count) with
    | .reply (.count count) => return if count == 0 then .reply (.count count) else .wouldBlock
    | other => return other
  | .beginStop => do
    onSystem (System.onHub Hub.beginStop)
    return .stopping
  | .info => do
    let s ← Act.get
    if !s.isOwned then return .stopped
    return .info s.system.workers.size s.config (describe s.config)
  | .go worker none => release worker
  | .go worker (some name) => releaseFor worker name
  | .stop => do
    if !(← Act.get).isOwned then return .stopped
    match ← stop with
    | .error pending => return .abandoned pending
    | .ok result => return .reply (Script.ofResult result)
  | .drop => do
    if !(← Act.get).isOwned then return .stopped
    match ← stop with
    | .error pending => return .abandoned pending
    | .ok (.ok ()) => return .reply .ok
    | .ok (.error _) =>
      Act.note .shutdownFailed
      return .reply .ok

def start (mode : Mode) (host : Host) (config : Config) (specs : Array Spec) :
    Act Report Unit (Except Refusal Session) := fun _ =>
  match System.new mode host config Notebook.new () with
  | ⟨.error fault, _, log⟩ => ⟨.error fault, (), log⟩
  | ⟨.ok (.error refusal), _, log⟩ => ⟨.ok (.error refusal), (), log⟩
  | ⟨.ok (.ok system), _, log⟩ =>
    let hold : Act Report Session Unit := do
      specs.toList.zipIdx.forM fun (spec, index) =>
        discard <| onSystem (System.onHub (Hub.addRecord (.new (.job index) spec.extended false)))
      (List.range system.workers.size).forM fun worker => do
        onSystem (submitGate (.worker worker))
        discard <| runToGate worker
    match hold ⟨system, specs, config, .owned, []⟩ with
    | ⟨.error fault, _, log'⟩ => ⟨.error fault, (), log ++ log'⟩
    | ⟨.ok (), session, log'⟩ => ⟨.ok (.ok session), (), log ++ log'⟩

end Session

end FiberScheduler.Script
