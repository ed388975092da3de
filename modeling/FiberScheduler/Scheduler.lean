import FiberScheduler.Hub

/-!
# Schedulers

Anything that takes claimed jobs. Submitting a job claims it, lets its group count
the run, and offers it to the scheduler; a refusal undoes all of that.
-/

namespace FiberScheduler

structure Scheduler (ρ κ σ : Type) where
  hub : σ → Hub κ
  withHub : σ → Hub κ → σ
  /-- Takes a claimed job or refuses it. -/
  enqueue : (job : Nat) → Priority → Affinity → Act ρ σ (Except Refusal Unit)

namespace Scheduler

variable {ρ κ σ α : Type}

def onHub (S : Scheduler ρ κ σ) (x : Act ρ (Hub κ) α) : Act ρ σ α :=
  Act.zoom S.hub S.withHub x

def addJob (S : Scheduler ρ κ σ) (job : Nat) (p : Priority) (a : Affinity) :
    Act ρ σ (Except Refusal Unit) := do
  match ← S.onHub (Hub.claim job) with
  | .error refusal => return .error refusal
  | .ok () =>
    match ← S.enqueue job p a with
    | .ok () => return .ok ()
    | .error refusal =>
      if let some g ← S.onHub (Hub.complete job) then S.onHub (Hub.dropGroup g)
      return .error refusal

def schedule (S : Scheduler ρ κ σ) (job : Nat) (group : Option Nat) (p : Priority) (a : Affinity) :
    Act ρ σ (Except Refusal Unit) := do
  match ← S.onHub (Hub.claim job) with
  | .error refusal => return .error refusal
  | .ok () =>
    if let some g := group then S.onHub (Hub.track job g)
    match ← S.enqueue job p a with
    | .ok () => return .ok ()
    | .error refusal =>
      -- The claim and the unit are taken back as if the run had ended.
      if let some g ← S.onHub (Hub.complete job) then S.onHub (Hub.signalAndDrop g)
      return .error refusal

def spawn (S : Scheduler ρ κ σ) (code : κ) (group : Option Nat) (p : Priority) (a : Affinity) :
    Act ρ σ (Except Refusal Unit) := do
  let job ← S.onHub (Hub.addRecord (.new code false true))
  match ← S.schedule job group p a with
  | .ok () => return .ok ()
  | .error refusal =>
    S.onHub Hub.dropRecord
    return .error refusal

end Scheduler

def Hub.scheduler {ρ κ : Type} : Scheduler ρ κ (Hub κ) where
  hub := id
  withHub := fun _ h => h
  enqueue := Hub.push

end FiberScheduler
