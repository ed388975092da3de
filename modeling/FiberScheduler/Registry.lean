import FiberScheduler.Directory
import FiberScheduler.Inbox

/-!
# Registries

Jobs and wait groups kept by name, with an inbox as the scheduler of the jobs. A name
that is given again means the new thing, and the old handle is given up after that.
-/

namespace FiberScheduler

structure Registry (κ : Type) where
  inbox : Inbox κ
  groups : Directory
  jobs : Directory

namespace Registry

variable {κ α : Type}

def new (hub : Hub κ) : Registry κ :=
  ⟨⟨hub, [], none⟩, [], []⟩

def onInbox (x : Act (InboxReport κ) (Inbox κ) α) : Act (InboxReport κ) (Registry κ) α :=
  Act.zoom (·.inbox) (fun r inbox => { r with inbox }) x

def onHub (x : Act (InboxReport κ) (Hub κ) α) : Act (InboxReport κ) (Registry κ) α :=
  onInbox (Inbox.onHub x)

def keep (name : String) (group : Nat) : Act (InboxReport κ) (Registry κ) Unit := do
  let old := (← Act.get).groups.find? name
  Act.modify fun r => { r with groups := r.groups.insert name group }
  if let some old := old then onHub (Hub.dropGroup old)

/-- Makes a group and keeps it under a name. Without a name it is given up at once, but
room for it has to be there all the same. -/
def newGroup (name : Option String) :
    Act (InboxReport κ) (Registry κ) (Except Refusal (Option Nat)) := do
  match ← onHub Hub.newGroup with
  | .error refusal => return .error refusal
  | .ok group =>
    match name with
    | none =>
      onHub (Hub.dropGroup group)
      return .ok none
    | some name =>
      keep name group
      return .ok (some group)

def cloneGroup (group : Nat) (name : String) : Act (InboxReport κ) (Registry κ) Unit := do
  onHub (Hub.cloneGroup group)
  keep name group

def dropGroup (name : String) : Act (InboxReport κ) (Registry κ) Bool := do
  match (← Act.get).groups.find? name with
  | none => return false
  | some group =>
    Act.modify fun r => { r with groups := r.groups.erase name }
    onHub (Hub.dropGroup group)
    return true

def newJob (name : String) (job : Job κ) : Act (InboxReport κ) (Registry κ) Nat := do
  let job ← onHub (Hub.addRecord job)
  Act.modify fun r => { r with jobs := r.jobs.insert name job }
  return job

/-- From now on the inbox refuses every job for this reason, or takes every job. -/
def refuseWith (refusal : Option Refusal) : Act (InboxReport κ) (Registry κ) Unit :=
  onInbox (Act.modify fun i => { i with refusal })

end Registry

end FiberScheduler
