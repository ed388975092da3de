import FiberScheduler.Affinity

/-!
# Crews

The workers of a system by index: the first ones form the foreground pool, the
rest the background pool.
-/

namespace FiberScheduler

structure Crew where
  size : Nat
  /-- Workers below this index form the foreground pool. -/
  foreground : Nat
  deriving DecidableEq, Repr

namespace Crew

def poolOf (crew : Crew) (worker : Nat) : Affinity :=
  if worker < crew.foreground then .foreground else .background

def canRun (crew : Crew) (worker : Nat) : Affinity → Bool
  | .any => true
  | .worker index => index == worker
  | pool => crew.poolOf worker == pool

def serves (crew : Crew) (affinity : Affinity) : Bool :=
  (List.range crew.size).any (crew.canRun · affinity)

/-- The affinities whose queues a worker looks into, in that order: its own, its
pool's, the shared one. -/
def sources (crew : Crew) (worker : Nat) : List Affinity :=
  [.worker worker, crew.poolOf worker, .any]

section
variable {crew : Crew} {worker : Nat} {affinity : Affinity}

theorem poolOf_eq_or (crew : Crew) (worker : Nat) :
    crew.poolOf worker = .foreground ∨ crew.poolOf worker = .background := by
  unfold poolOf
  split <;> simp

theorem mem_sources_iff : affinity ∈ crew.sources worker ↔ crew.canRun worker affinity = true := by
  rcases poolOf_eq_or crew worker with h | h <;> cases affinity <;>
    simp [sources, canRun, h]

theorem serves_iff :
    crew.serves affinity = true ↔ ∃ worker, worker < crew.size ∧ affinity ∈ crew.sources worker := by
  simp [serves, mem_sources_iff]

end

end Crew

end FiberScheduler
