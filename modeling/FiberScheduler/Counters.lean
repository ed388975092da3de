import FiberScheduler.Fault

/-!
# Counters

Running totals of a job system. They are words that wrap; the number of pending
jobs is a checked difference of two of them.
-/

namespace FiberScheduler

structure Counters where
  /-- Jobs accepted. -/
  submitted : UInt64
  /-- Jobs whose body has ended. -/
  executed : UInt64
  /-- Jobs whose body ended in a panic. -/
  panicked : UInt64
  /-- Switches from one fiber to another. -/
  switches : UInt64
  /-- Fibers parked on a wait group. -/
  suspensions : UInt64
  deriving DecidableEq, Repr

inductive Counter where
  | submitted
  | executed
  | panicked
  | switches
  | suspensions
  deriving DecidableEq, Repr

namespace Counter

def all : List Counter :=
  [.submitted, .executed, .panicked, .switches, .suspensions]

def name : Counter → String
  | .submitted => "submitted"
  | .executed => "executed"
  | .panicked => "panicked"
  | .switches => "switches"
  | .suspensions => "suspensions"

def ofName? (name : String) : Option Counter :=
  all.find? (·.name == name)

end Counter

namespace Counters

def zero : Counters := ⟨0, 0, 0, 0, 0⟩

def add (c : Counters) (which : Counter) (n : UInt64) : Counters :=
  match which with
  | .submitted => { c with submitted := c.submitted + n }
  | .executed => { c with executed := c.executed + n }
  | .panicked => { c with panicked := c.panicked + n }
  | .switches => { c with switches := c.switches + n }
  | .suspensions => { c with suspensions := c.suspensions + n }

def value (c : Counters) : Counter → UInt64
  | .submitted => c.submitted
  | .executed => c.executed
  | .panicked => c.panicked
  | .switches => c.switches
  | .suspensions => c.suspensions

def bump (c : Counters) (which : Counter) : Counters :=
  c.add which 1

/-- Accepted jobs whose body has not ended, as the difference of two signed words. -/
def pending (c : Counters) (mode : Mode) : Except Fault Int :=
  mode.signed .subtract (c.submitted.toInt64.toInt - c.executed.toInt64.toInt)

def without (c : Counters) (submitted executed : UInt64) : Counters :=
  { c with submitted := c.submitted - submitted, executed := c.executed - executed }

end Counters

structure Snapshot where
  counters : Counters
  elapsed : Float

namespace Snapshot

def jobsPerSecond (s : Snapshot) : Float :=
  if s.elapsed > 0.0 then s.counters.executed.toFloat / s.elapsed else 0.0

/-- Snapshots are equal where all their numbers are, so one with an undefined time
equals none. -/
instance : BEq Snapshot where
  beq s t := decide (s.counters = t.counters) && s.elapsed == t.elapsed

end Snapshot

end FiberScheduler
