import FiberScheduler.Pinning
import FiberScheduler.Refusal

/-!
# Configuration

The sizes a job system is built with, and the checks they must pass first.
-/

namespace FiberScheduler

def minStackSize : Nat := 16 * 1024

structure Config where
  workerCount : UInt64
  /-- How many of the workers form the background pool. -/
  backgroundWorkerCount : UInt64
  /-- Fibers with a normal stack. -/
  fiberCount : UInt32
  /-- Fibers with an extended stack. -/
  extendedFiberCount : UInt32
  stackSize : UInt64
  extendedStackSize : UInt64
  /-- How many wait groups may be alive at once. -/
  blockCount : UInt32
  pinning : Pinning
  deriving DecidableEq, Repr

namespace Config

def withWorkers (workerCount : UInt64) : Config where
  workerCount := workerCount
  backgroundWorkerCount := 0
  fiberCount := 128
  extendedFiberCount := 32
  stackSize := 256 * 1024
  extendedStackSize := 1024 * 1024
  blockCount := 4096
  pinning := .none

def problem? (c : Config) : Option Problem :=
  let workers := c.workerCount.toNat
  let background := c.backgroundWorkerCount.toNat
  let fibers := c.fiberCount.toNat
  let stack := c.stackSize.toNat
  let extendedStack := c.extendedStackSize.toNat
  if workers = 0 then some .noWorkers
  else if workers ≤ background then some (.noForegroundWorker background workers)
  else if fibers ≤ workers then some (.tooFewFibers fibers workers)
  else if wordSize 32 ≤ fibers + c.extendedFiberCount.toNat then some .tooManyFibers
  else if stack < minStackSize * 2 then some (.stackTooSmall stack (minStackSize * 2))
  else if 0 < c.extendedFiberCount.toNat ∧ extendedStack < stack then
    some (.extendedStackTooSmall extendedStack stack)
  else if c.blockCount.toNat = 0 then some .noBlocks
  else none

def validate (c : Config) : Except Refusal Unit :=
  match c.problem? with
  | some problem => .error (.invalidConfig problem)
  | none => .ok ()

def sizes (c : Config) : List (String × Nat) :=
  [("worker_count", c.workerCount.toNat),
   ("background_worker_count", c.backgroundWorkerCount.toNat),
   ("fiber_count", c.fiberCount.toNat),
   ("extended_fiber_count", c.extendedFiberCount.toNat),
   ("stack_byte_size", c.stackSize.toNat),
   ("extended_stack_byte_size", c.extendedStackSize.toNat),
   ("small_block_count", c.blockCount.toNat)]

def describe (c : Config) : String :=
  let fields := c.sizes.map (fun (name, size) => s!"{name}: {size}") ++ [s!"pinning: {c.pinning.name}"]
  "JobSystemConfig \x7b " ++ ", ".intercalate fields ++ " \x7d"

end Config

end FiberScheduler
