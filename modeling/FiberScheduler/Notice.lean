/-!
# Notices

What a system tells its operator: the lines at the levels WARN and ERROR, each
with a fixed message and the named values that belong to it.
-/

namespace FiberScheduler

inductive Level where
  | warn
  | error
  deriving DecidableEq, Repr

def Level.name : Level → String
  | .warn => "WARN"
  | .error => "ERROR"

inductive Notice where
  | blocksExhausted (capacity : Nat)
  | blockFreedTwice (index : Nat)
  | overSignaled (count release : Int)
  | jobStillPending
  | jobPanicked (worker message : String)
  | stackTooSmall (size : Nat)
  | mappingFailed (size : Nat)
  | commitFailed (offset size : Nat)
  | fiberRunning (fiber : String)
  | fiberReturnedTwice (fiber : String)
  | fiberStillRented (fiber : String)
  | fibersExhausted (extended : Bool) (capacity : Nat)
  | fibersStillRented (free capacity : Nat)
  | workerPanicked (worker : Nat)
  | shutdownFailed
  deriving DecidableEq, Repr

namespace Notice

def level : Notice → Level
  | .blocksExhausted _ | .stackTooSmall _ => .warn
  | _ => .error

def message : Notice → String
  | .blocksExhausted _ => "wait group pool exhausted"
  | .blockFreedTwice _ => "small block freed twice"
  | .overSignaled _ _ => "wait group signaled more times than it was added"
  | .jobStillPending => "job scheduled while a previous run is still pending"
  | .jobPanicked _ _ => "job panicked"
  | .stackTooSmall _ => "stack too small for a context"
  | .mappingFailed _ => "failed to map fiber stacks"
  | .commitFailed _ _ => "failed to commit fiber stack"
  | .fiberRunning _ => "returning the running fiber"
  | .fiberReturnedTwice _ => "fiber returned twice"
  | .fiberStillRented _ => "fiber still rented when the pool was destroyed"
  | .fibersExhausted _ _ => "fiber pool exhausted, raise `fiber_count`"
  | .fibersStillRented _ _ => "fibers still rented after all workers exited"
  | .workerPanicked _ => "worker thread panicked"
  | .shutdownFailed => "job system shut down with errors"

def fields : Notice → List (String × String)
  | .blocksExhausted capacity => [("capacity", toString capacity)]
  | .blockFreedTwice index => [("index", toString index)]
  | .overSignaled count release => [("count", toString count), ("release", toString release)]
  | .jobStillPending | .shutdownFailed => []
  | .jobPanicked worker message => [("worker", worker), ("message", message)]
  | .stackTooSmall size => [("stack_byte_size", toString size)]
  | .mappingFailed size => [("len", toString size)]
  | .commitFailed offset size => [("offset", toString offset), ("len", toString size)]
  | .fiberRunning fiber | .fiberReturnedTwice fiber | .fiberStillRented fiber => [("fiber", fiber)]
  | .fibersExhausted extended capacity =>
    [("extended", toString extended), ("capacity", toString capacity)]
  | .fibersStillRented free capacity => [("free", toString free), ("capacity", toString capacity)]
  | .workerPanicked worker => [("worker", toString worker)]

end Notice

end FiberScheduler
