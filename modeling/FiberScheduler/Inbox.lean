import FiberScheduler.Scheduler

/-!
# Inboxes

A scheduler that keeps what it is given and runs nothing, or refuses everything.
-/

namespace FiberScheduler

structure Parcel where
  job : Nat
  priority : Priority
  affinity : Affinity
  deriving DecidableEq, Repr

structure Inbox (κ : Type) where
  hub : Hub κ
  parcels : List Parcel
  /-- What every job is refused with, if jobs are refused. -/
  refusal : Option Refusal

inductive InboxReport (κ : Type) where
  | ran (code : κ)
  /-- A job was refused while it looked like this. -/
  | refused (description : String) (scheduled : Bool)

namespace Inbox

variable {κ α : Type}

def onHub (x : Act (InboxReport κ) (Hub κ) α) : Act (InboxReport κ) (Inbox κ) α :=
  Act.zoom (·.hub) (fun i hub => { i with hub }) x

def describe (i : Inbox κ) (job : Nat) : String :=
  match i.hub.jobs[job]? with
  | some record => record.describe
  | none => ""

def enqueue (job : Nat) (p : Priority) (a : Affinity) :
    Act (InboxReport κ) (Inbox κ) (Except Refusal Unit) := do
  let i ← Act.get
  match i.refusal with
  | some refusal =>
    Act.report (.refused s!"ScheduledJob({i.describe job})" (i.hub.isScheduled job))
    return .error refusal
  | none =>
    Act.modify fun i => { i with parcels := i.parcels ++ [⟨job, p, a⟩] }
    return .ok ()

def scheduler : Scheduler (InboxReport κ) κ (Inbox κ) where
  hub := (·.hub)
  withHub := fun i hub => { i with hub }
  enqueue := enqueue

def work (job : Nat) : Act (InboxReport κ) (Inbox κ) Unit := do
  if let some code ← onHub (Hub.startBody job) then Act.report (.ran code)

def deliver : Act (InboxReport κ) (Inbox κ) (Option (Parcel × Bool)) := do
  match (← Act.get).parcels with
  | [] => return none
  | parcel :: parcels =>
    Act.modify fun i => { i with parcels }
    work parcel.job
    let group ← onHub (Hub.complete parcel.job)
    if let some group := group then onHub (Hub.signalAndDrop group)
    return some (parcel, group.isSome)

end Inbox

end FiberScheduler
