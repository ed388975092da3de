import FiberScheduler.Hub

/-!
# Dispensers

A hub without workers, whose queued work is fetched by hand. A fetched job runs at
once; the one that ran last can be put back where it came from.
-/

namespace FiberScheduler

structure Dispenser (κ : Type) where
  hub : Hub κ
  /-- The job that ran last, with its queue. -/
  held : Option (Nat × Priority × Affinity)

namespace Dispenser

variable {κ α : Type}

def onHub (x : Act κ (Hub κ) α) : Act κ (Dispenser κ) α :=
  Act.zoom (·.hub) (fun d hub => { d with hub }) x

def push (code : κ) (extended : Bool) (p : Priority) (a : Affinity) :
    Act κ (Dispenser κ) (Except Refusal Unit) :=
  onHub do
    let job ← Hub.addRecord (.new code extended false)
    Hub.push job p a

def fetch (worker : Nat) : Act κ (Dispenser κ) (Option Work) := do
  let work ← onHub (Hub.fetch worker)
  if let some (.job job p a) := work then
    if let some code ← onHub (Hub.startBody job) then Act.report code
    Act.modify fun d => { d with held := some (job, p, a) }
  return work

def putBack : Act κ (Dispenser κ) Bool := do
  match (← Act.get).held with
  | none => return false
  | some (job, p, a) =>
    Act.modify fun d => { d with held := none }
    onHub (Hub.requeue job p a)
    return true

end Dispenser

end FiberScheduler
