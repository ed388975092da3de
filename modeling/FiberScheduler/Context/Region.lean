import FiberScheduler.Act
import FiberScheduler.Config

/-!
# Context regions

A context lives in a region of memory that its creator owns: a record at the upper
end, and below it the stack, both aligned. A region that wraps the address space or
leaves too little for the stack is refused.
-/

namespace FiberScheduler

/-- The parts of a region. The stack grows down from `base` to `limit`. -/
structure Stack where
  record : Nat
  base : Nat
  limit : Nat
  deriving DecidableEq, Repr

namespace Stack

def alignment : Nat := 16

def recordSize : Nat := 56

def alignDown (address : Nat) : Nat :=
  address / alignment * alignment

variable {ρ σ : Type}

def refuse (size : Nat) : Act ρ σ (Option Stack) := do
  Act.note (.stackTooSmall size)
  return none

def carve (mode : Mode) (start size : Nat) : Act ρ σ (Option Stack) := do
  let stop := start + size
  if wordSize 64 ≤ stop ∨ stop < recordSize then return none
  let record := alignDown (stop - recordSize)
  let base := alignDown record
  -- Unlike the sums before, this one is not checked.
  let padded ← Act.lift (mode.word .add 64 (start + alignment))
  let limit := alignDown (← Act.lift (mode.difference 64 padded 1))
  if record < start ∨ base ≤ limit then refuse size
  else
    let room ← Act.lift (mode.difference 64 base limit)
    if room < minStackSize then refuse size
    else if limit = 0 then return none
    else return some ⟨record, base, limit⟩

end Stack

end FiberScheduler
