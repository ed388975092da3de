import FiberScheduler.Affinity
import FiberScheduler.Priority

/-!
# Wait groups

The state of a countdown latch: its count, the number of its handles, and the
fiber that parked on it last. Every parked fiber has a link to the one that parked
before it, with the priority and affinity it waits under.
-/

namespace FiberScheduler

structure Group where
  count : Int32
  handles : UInt32
  /-- The fiber that parked last. -/
  head : Option Nat
  deriving DecidableEq, Repr

namespace Group

def new : Group := ⟨0, 1, none⟩

def units (n : Int32) : Int32 :=
  if n = Int32.minValue then Int32.maxValue else -n

def isSignaled (g : Group) : Bool :=
  g.count == 0

def describe (index : Nat) (g : Group) : String :=
  s!"WaitGroup \x7b index: {index}, count: {g.count.toInt} \x7d"

end Group

structure Link where
  next : Option Nat
  priority : Nat
  affinity : Nat
  deriving DecidableEq, Repr

namespace Link

def empty : Link := ⟨none, 0, 0⟩

def make (next : Option Nat) (priority : Priority) (affinity : Affinity) : Link :=
  ⟨next, priority.index, affinity.encode⟩

end Link

end FiberScheduler
