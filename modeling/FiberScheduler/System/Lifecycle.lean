import FiberScheduler.System.Step

/-!
# Running and stopping

A run of a system is a row of moves: steps of its workers in any order, calls from
outside at any time, and the beginning of a stop. A stopped system is joined once each
thread of its workers has ended; then it reports the threads that panicked and the
fibers that nobody gave back.
-/

namespace FiberScheduler.System

inductive Move (κ μ ρ : Type) where
  | work (worker : Nat)
  | call (c : Call κ μ ρ)
  /-- Makes a record for a job, to be submitted later. -/
  | record (code : κ) (extended oneShot : Bool)
  | stop

variable {κ μ ρ : Type}

/-- What a call from outside is answered is left to who made it. -/
def follow (body : κ → Program κ μ ρ Unit) : Move κ μ ρ → Act ρ (System κ μ ρ) Unit
  | .work worker => step body worker
  | .call c => discard (ask c)
  | .record code extended oneShot => discard (onHub (Hub.addRecord (.new code extended oneShot)))
  | .stop => onHub Hub.beginStop

def inTurn (workers : Nat) (n : Nat) : Move κ μ ρ :=
  .work (n % workers)

/-- Whether no worker can take another step. -/
def isOver (s : System κ μ ρ) : Bool :=
  s.aborted || s.workers.all fun w => w.stage == .left || w.stage == .dead

def drive (body : κ → Program κ μ ρ Unit) (plan : Nat → Move κ μ ρ) :
    (fuel next : Nat) → System κ μ ρ → Array (Entry ρ) → System κ μ ρ × Array (Entry ρ)
  | 0, _, s, log => (s, log)
  | fuel + 1, next, s, log =>
    if s.isOver then (s, log)
    else
      let moved := follow body (plan next) s
      drive body plan fuel (next + 1) moved.state (log.appendList moved.log)

/-- Follows a plan until each worker has ended, and tells whether that was reached. It is
not where the fuel ends before, or the process does. -/
def runOut (body : κ → Program κ μ ρ Unit) (plan : Nat → Move κ μ ρ) (fuel : Nat) :
    Act ρ (System κ μ ρ) Bool := fun s =>
  let (s, log) := drive body plan fuel 0 s #[]
  ⟨.ok (s.isOver && !s.aborted), s, log.toList⟩

def close : Act ρ (System κ μ ρ) (Except Refusal Unit) := do
  let s ← Act.get
  s.dead.forM fun worker => Act.note (.workerPanicked worker)
  if s.dead.isEmpty && s.pool.freeCount != s.pool.capacity then
    Act.note (.fibersStillRented s.pool.freeCount s.pool.capacity)
  onPool FiberPool.drop
  if s.dead.isEmpty then return .ok () else return .error (.workersPanicked s.dead.length)

/-- Stops a system: it takes no work from outside any more, finishes what it has, and
joins its workers, while everything goes on by a plan. A stop that does not come to join
all workers, as far as the fuel goes, gives no answer. -/
def stop (body : κ → Program κ μ ρ Unit) (plan : Nat → Move κ μ ρ) (fuel : Nat) :
    Act ρ (System κ μ ρ) (Option (Except Refusal Unit)) := do
  onHub Hub.beginStop
  if ← runOut body plan fuel then some <$> close else return none

end FiberScheduler.System
