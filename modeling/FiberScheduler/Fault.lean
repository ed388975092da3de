import FiberScheduler.HandleText
import FiberScheduler.Word

/-!
# Faults

A programming error ends the computation that makes it with a fault. What counts
as one depends on the mode: a strict system stops at it, a lenient one records it
and goes on, and its word arithmetic wraps instead of overflowing.
-/

namespace FiberScheduler

inductive Mode where
  | strict
  | lenient
  deriving DecidableEq, Repr

inductive Arith where
  | add
  | subtract
  | multiply
  deriving DecidableEq, Repr

def Arith.name : Arith → String
  | .add => "add"
  | .subtract => "subtract"
  | .multiply => "multiply"

inductive Fault where
  | overflow (op : Arith)
  | outOfBounds (size index : Nat)
  | zeroCapacity
  /-- More memory was asked for than there are addresses. -/
  | capacityOverflow
  | blockNotAllocated (index : Nat)
  | blockFreedTwice (index : Nat)
  | overSignaled (count release : Int)
  | alreadyScheduled
  | invalidTarget
  | alreadyRunning
  /-- The target is the root of another thread. -/
  | foreignRoot
  | alreadyEnded
  | callbackReturned
  | destroyedWhileRunning
  /-- A stack would be opened up past the end of the mapping. -/
  | outsideArena
  | fiberNotRented
  | fiberRunning (name : String)
  | fiberReturnedTwice (name : String)
  /-- A body raised this text. -/
  | raised (text : String)
  /-- A body raised something that has no text. -/
  | untold
  /-- A refusal that nobody was prepared for. -/
  | unhandled (description : String)
  /-- A lock was left by somebody who failed while holding it. -/
  | poisonedLock
  /-- A script asked for something that makes no sense. -/
  | malformed
  deriving DecidableEq, Repr

def Fault.message : Fault → String
  | .overflow op => s!"attempt to {op.name} with overflow"
  | .outOfBounds size index => s!"index out of bounds: the len is {size} but the index is {index}"
  | .zeroCapacity => "capacity must be non-zero"
  | .capacityOverflow => "capacity overflow"
  | .blockNotAllocated index => s!"block {index} is not allocated"
  | .blockFreedTwice index => s!"small block {index} freed twice"
  | .overSignaled count release =>
    s!"wait group signaled more times than it was added (count {count}, release {release})"
  | .alreadyScheduled => "job is already scheduled"
  | .invalidTarget => "switch to an invalid context"
  | .alreadyRunning => "context ContextHandle(_) is already running"
  | .foreignRoot => "context ContextHandle(_) belongs to another thread"
  | .alreadyEnded => "attempt to resume a completed coroutine"
  | .callbackReturned => "context ContextHandle(_) returned from its entry callback"
  | .destroyedWhileRunning => "destroying a running context"
  | .outsideArena => "assertion failed: offset + len <= self.len"
  | .fiberNotRented => "switch into a fiber that is not rented"
  | .fiberRunning name => s!"fiber {name} returned while it is running"
  | .fiberReturnedTwice name => s!"fiber {name} returned twice"
  | .raised text => String.ofList (hideHandles text.toList)
  | .untold => "<non-string panic payload>"
  | .unhandled description => s!"called `Result::unwrap()` on an `Err` value: {description}"
  | .poisonedLock => "called `Result::unwrap()` on an `Err` value: PoisonError \x7b .. \x7d"
  | .malformed => "malformed request"

/-! ## Word arithmetic -/

namespace Mode

/-- The value of an unsigned word of the given width: exact where it fits. -/
def word (mode : Mode) (op : Arith) (width exact : Nat) : Except Fault Nat :=
  if exact < wordSize width then .ok exact
  else match mode with
    | .strict => .error (.overflow op)
    | .lenient => .ok (exact % wordSize width)

def difference (mode : Mode) (width a b : Nat) : Except Fault Nat :=
  if b ≤ a then .ok (a - b)
  else match mode with
    | .strict => .error (.overflow .subtract)
    | .lenient => .ok (a + wordSize width - b)

def signed (mode : Mode) (op : Arith) (exact : Int) : Except Fault Int :=
  if -(wordSize 63 : Int) ≤ exact ∧ exact < wordSize 63 then .ok exact
  else match mode with
    | .strict => .error (.overflow op)
    | .lenient => .ok (exact.bmod (wordSize 64))

theorem word_of_lt {mode : Mode} {op : Arith} {width exact : Nat} (h : exact < wordSize width) :
    mode.word op width exact = .ok exact := by
  simp [word, h]

theorem eq_of_word {mode : Mode} {op : Arith} {width exact value : Nat}
    (h : mode.word op width exact = .ok value) (hlt : exact < wordSize width) : value = exact := by
  rw [word_of_lt hlt] at h
  exact (Except.ok.inj h).symm

theorem word_lenient (op : Arith) (width exact : Nat) :
    ∃ value, Mode.lenient.word op width exact = .ok value := by
  unfold word
  split <;> exact ⟨_, rfl⟩

theorem difference_lenient (width a b : Nat) : ∃ value, Mode.lenient.difference width a b = .ok value := by
  unfold difference
  split <;> exact ⟨_, rfl⟩

theorem word_strict_eq_ok_iff {op : Arith} {width exact value : Nat} :
    Mode.strict.word op width exact = .ok value ↔ exact < wordSize width ∧ value = exact := by
  unfold word
  split
  · rename_i h
    simp [h, eq_comm]
  · rename_i h
    simp [h]

end Mode

end FiberScheduler
