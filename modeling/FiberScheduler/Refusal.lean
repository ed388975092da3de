import FiberScheduler.Affinity

/-!
# Refusals

A refusal is an answer, not a fault: the request was understood and could not be
met, and the caller decides what follows.
-/

namespace FiberScheduler

inductive Problem where
  | noWorkers
  | noForegroundWorker (background workers : Nat)
  | tooFewFibers (fibers workers : Nat)
  | tooManyFibers
  | stackTooSmall (size least : Nat)
  | extendedStackTooSmall (extended normal : Nat)
  | noBlocks
  | arenaOverflow
  | fiberStackTooSmall (size : Nat)
  /-- A reason given by whoever refuses. -/
  | other (text : String)
  deriving DecidableEq, Repr

def Problem.message : Problem → String
  | .noWorkers => "worker_count must be at least 1"
  | .noForegroundWorker background workers =>
    s!"background_worker_count ({background}) must leave at least one foreground worker out of {workers}"
  | .tooFewFibers fibers workers => s!"fiber_count ({fibers}) must exceed worker_count ({workers})"
  | .tooManyFibers => "too many fibers"
  | .stackTooSmall size least => s!"stack_byte_size ({size}) must be at least {least}"
  | .extendedStackTooSmall extended normal =>
    s!"extended_stack_byte_size ({extended}) must be at least stack_byte_size ({normal})"
  | .noBlocks => "small_block_count must be at least 1"
  | .arenaOverflow => "fiber stack arena size overflows"
  | .fiberStackTooSmall size => s!"stack size {size} is too small for a fiber"
  | .other text => text

inductive Refusal where
  | invalidConfig (problem : Problem)
  | stackAllocation (size : Nat)
  | blocksExhausted (capacity : Nat)
  | alreadyScheduled
  | unknownAffinity (affinity : Affinity)
  | extendedStackUnavailable
  | stopped
  | threadSpawn (cause : String)
  | workersPanicked (count : Nat)
  deriving DecidableEq, Repr

namespace Refusal

def kind : Refusal → String
  | .invalidConfig _ => "InvalidConfig"
  | .stackAllocation _ => "StackAllocation"
  | .blocksExhausted _ => "SmallBlockPoolExhausted"
  | .alreadyScheduled => "AlreadyScheduled"
  | .unknownAffinity _ => "UnknownAffinity"
  | .extendedStackUnavailable => "ExtendedStackUnavailable"
  | .stopped => "Stopped"
  | .threadSpawn _ => "ThreadSpawn"
  | .workersPanicked _ => "WorkerPanicked"

def message : Refusal → String
  | .invalidConfig problem => s!"invalid job system configuration: {problem.message}"
  | .stackAllocation size => s!"failed to allocate {size} bytes of fiber stack memory"
  | .blocksExhausted capacity => s!"small block pool exhausted ({capacity} blocks in use)"
  | .alreadyScheduled => "job is already scheduled"
  | .unknownAffinity affinity => s!"no worker can run jobs with affinity {affinity.describe}"
  | .extendedStackUnavailable => "job needs an extended stack but extended_fiber_count is 0"
  | .stopped => "job system is stopped"
  | .threadSpawn cause => s!"failed to spawn worker thread: {cause}"
  | .workersPanicked count => s!"{count} worker thread(s) panicked"

def describe (refusal : Refusal) : String :=
  match refusal with
  | .invalidConfig problem => s!"{refusal.kind}(\"{problem.message}\")"
  | .stackAllocation size => s!"{refusal.kind} \x7b size: {size} \x7d"
  | .blocksExhausted capacity => s!"{refusal.kind} \x7b capacity: {capacity} \x7d"
  | .unknownAffinity affinity => s!"{refusal.kind}({affinity.describe})"
  | .threadSpawn cause => s!"{refusal.kind}({cause})"
  | .workersPanicked count => s!"{refusal.kind}({count})"
  | .alreadyScheduled | .extendedStackUnavailable | .stopped => refusal.kind

def source : Refusal → Option String
  | .threadSpawn cause => some cause
  | _ => none

end Refusal

end FiberScheduler
