import FiberScheduler.Script.Action

/-!
# Script bodies

The meaning of actions as programs. An action that uses a named group holds a handle
of its own meanwhile, so the group outlives a change of the directory. A name is read
while the directory is locked; where it is none the lock is never given back, and
whoever needs the directory from then on panics.
-/

namespace FiberScheduler.Script

abbrev Body : Type → Type := Program Code Notebook Report

open Program (ask await)

def readName (name : Name) : Body (Option (String × Directory)) := do
  let notebook ← ask (.access id)
  if notebook.poisoned then Program.panic .poisonedLock
  else
    match name with
    | some name => return some (name, notebook.directory)
    | none => do
      discard <| ask (.access fun n => { n with poisoned := true })
      return none

def keep (name : Name) (group : Nat) : Body Reply := do
  match ← readName name with
  | none => do
    ask (.dropGroup group)
    return .malformed
  | some (name, directory) => do
    ask (.giveGroup group)
    discard <| ask (.access fun n => { n with directory := n.directory.insert name group })
    if let some old := directory.find? name then
      ask (.takeGroup old)
      ask (.dropGroup old)
    return .ok

def erase (name : Name) : Body Reply := do
  match ← readName name with
  | none => return .malformed
  | some (name, directory) => do
    discard <| ask (.access fun n => { n with directory := n.directory.erase name })
    match directory.find? name with
    | none => return .had false
    | some group => do
      ask (.takeGroup group)
      ask (.dropGroup group)
      return .had true

def borrow (name : Name) : Body (Except Reply Nat) := do
  match ← readName name with
  | none => return .error .malformed
  | some (name, directory) =>
    match directory.find? name with
    | none => return .error .noGroup
    | some group => do
      ask (.cloneGroup group)
      return .ok group

def withGroup (name : Name) (use : Nat → Body Reply) : Body Reply := do
  match ← borrow name with
  | .error reply => return reply
  | .ok group => do
    let reply ← use group
    ask (.dropGroup group)
    return reply

def countOf (group : Nat) : Body Reply :=
  return .count (← ask (.count group))

def ofResult : Except Refusal Unit → Reply
  | .ok () => .ok
  | .error refusal => .refused refusal

def keepResult (name : Name) : Except Refusal Nat → Body Reply
  | .error refusal => return .refused refusal
  | .ok group => keep name group

def answerAbout (group : Nat) : GroupRequest → Body Reply
  | .add n => do
    ask (.add group n)
    countOf group
  | .signal => do
    ask (.add group (-1))
    countOf group
  | .count => countOf group
  | .zero => do
    let count ← ask (.count group)
    if 0 < count then ask (.add group (-count))
    countOf group
  | .schedule job p a => return ofResult (← ask (.schedule job (some group) p a))
  | .runIn job p => return ofResult (← ask (.spawn (.job job) (some group) p .any))
  | .malformed => return .malformed

def answer : Request → Body Reply
  | .group name => do keepResult name (← ask .newGroup)
  | .dropGroup name => erase name
  | .about name request => withGroup name fun group => answerAbout group request
  | .schedule job p a => return ofResult (← ask (.schedule job none p a))
  | .addJob job p a => return ofResult (← ask (.addJob job p a))
  | .isScheduled job => return .scheduled (← ask (.isScheduled job))
  | .run job p a name => do keepResult name (← Program.run (.job job) p a)
  | .runMultiple jobs p name => do keepResult name (← Program.runMultiple (jobs.map .job) p)
  | .affinity => return .affinity ((← ask .place).map fun place => .worker place.worker)
  | .foreignAffinity => return .affinity none
  | .foreignRun => return .count 0
  | .counters => do
    let notebook ← ask (.access id)
    return .counters ((← ask .counters).without notebook.gatesSubmitted notebook.gatesExecuted)
  | .describe => return .text "JobSystemHandle \x7b .. \x7d"
  | .malformed => return .malformed

def waitFor (name : Name) : Body Reply :=
  withGroup name fun group => do
    await group
    countOf group

/-- Waits for one group after the other, each looked up when its turn comes. -/
def waitForEach : List Name → Body Reply
  | [] => return .ok
  | name :: names => do
    match ← waitFor name with
    | .count _ => waitForEach names
    | other => return other

abbrev Locals : Type := List Int64

def Locals.zero : Locals :=
  List.replicate 16 0

/-- Runs the actions of a job from the one at `index` on, each reported with its
reply. -/
def play (job : String) (workers : Nat) : (index : Nat) → Locals → List Action → Body Unit
  | _, _, [] => ask (.report (.ended job))
  | index, locals, action :: actions => do
    let (reply, locals) ← show Body (Reply × Locals) from do
      match action with
      | .request request => return (← answer request, locals)
      | .wait name => return (← waitFor name, locals)
      | .waitForEach names => return (← waitForEach names, locals)
      | .panic fault => Program.panic fault
      | .local slot amount =>
        match locals[slot]? with
        | none => Program.panic (.outOfBounds locals.length slot)
        | some value => return (.value (value + amount), locals.set slot (value + amount))
      | .who =>
        match ← ask .place with
        | none => return (.malformed, locals)
        | some place => return (.place place (workers = 1), locals)
    ask (.report (.reply job index reply))
    play job workers (index + 1) locals actions

def body (specs : Array Spec) (workers : Nat) : Code → Body Unit
  | .gate => return ()
  | .job index =>
    match specs[index]? with
    | none => return ()
    | some spec => play spec.name workers 0 .zero spec.body

end FiberScheduler.Script
