import FiberScheduler.Config
import FiberScheduler.Context.Region

/-!
# The stack arena

All fiber stacks lie in one mapping, the normal tier first. Each stack has a whole
number of pages and sits directly above a guard page that is never opened up.
-/

namespace FiberScheduler

/-- What an operating system grants: the size of its pages, where a mapping of a size
begins, if it is made at all, whether a range of a mapping of a length can be opened up,
and how often. -/
structure Host where
  /-- What it answers when it is asked for the size of a page: a signed word. -/
  pageReport : Int
  pageReport_lt : pageReport < wordSize 63
  map : (size : Nat) → Option Nat
  commits : (offset size mapped : Nat) → Bool
  /-- How many stacks can be opened up. Each splits the mapping around it, and a
  process has fewer than 2^31 mappings. -/
  stackCount : Nat
  stackCount_le : stackCount ≤ wordSize 31

namespace Host

/-- A host with 47 bits of address space. The program is loaded two thirds of the way
up, so a mapping fits below it or not at all. -/
def standard : Host where
  pageReport := 4096
  pageReport_lt := by decide
  map size := if size < 0x555555544000 then some 0x10000 else none
  commits offset size mapped := size == 0 || offset + size ≤ mapped
  stackCount := wordSize 30
  stackCount_le := by decide

/-- The size of a page: what the host reports if that is a power of two. -/
def pageSize (host : Host) : Nat :=
  let size := host.pageReport.toNat
  if wordSize size.log2 = size then size else 4096

def wholePages (host : Host) (size : Nat) : Nat :=
  (size + (host.pageSize - 1)) / host.pageSize * host.pageSize

end Host

namespace Mode

def roundToPage (mode : Mode) (host : Host) (size : Nat) : Except Fault Nat :=
  mode.word .multiply 64 (host.wholePages size)

end Mode

/-! ## The mapping -/

structure Extent where
  offset : Nat
  size : Nat
  deriving DecidableEq, Repr

/-- A mapping that nothing can use but the rows that were opened up, in their order. -/
structure StackArena where
  start : Nat
  size : Nat
  opened : Array Extent
  deriving DecidableEq, Repr

namespace StackArena

variable {ρ σ : Type}

def check (mode : Mode) (arena : StackArena) (offset size : Nat) : Except Fault Unit :=
  match mode with
  | .lenient => .ok ()
  | .strict => do
    let stop ← mode.word .add 64 (offset + size)
    if arena.size < stop then .error .outsideArena else .ok ()

def commit (mode : Mode) (host : Host) (arena : StackArena) (offset size : Nat) :
    Act ρ σ (Except Refusal StackArena) := do
  Act.lift (arena.check mode offset size)
  if arena.opened.size < host.stackCount && host.commits offset size arena.size then
    return .ok { arena with opened := arena.opened.push ⟨offset, size⟩ }
  else
    Act.note (.commitFailed offset size)
    return .error (.stackAllocation size)

end StackArena

/-! ## The plan -/

structure Arena where
  normalSize : Nat
  extendedSize : Nat
  normal : Nat
  extended : Nat
  total : Nat
  deriving DecidableEq, Repr

namespace Arena

def word? (n : Nat) : Option Nat :=
  if n < wordSize 64 then some n else none

/-- Plans the arena of a configuration; nothing is planned where its length is zero
or does not fit in a word. -/
def plan (mode : Mode) (host : Host) (config : Config) : Except Fault (Option Arena) := do
  let normalSize ← mode.roundToPage host config.stackSize.toNat
  let extendedSize ← mode.roundToPage host config.extendedStackSize.toNat
  let normal := config.fiberCount.toNat
  let extended := config.extendedFiberCount.toNat
  let normalStride ← mode.word .add 64 (host.pageSize + normalSize)
  let extendedStride ← mode.word .add 64 (host.pageSize + extendedSize)
  return do
    let normalTotal ← word? (normal * normalStride)
    let extendedTotal ← word? (extended * extendedStride)
    let total ← word? (normalTotal + extendedTotal)
    if total = 0 then none
    else some { normalSize, extendedSize, normal, extended, total }

def stackSize (arena : Arena) (fiber : Nat) : Nat :=
  if fiber < arena.normal then arena.normalSize else arena.extendedSize

end Arena

def fiberName (normal fiber : Nat) : String :=
  if fiber < normal then s!"Fiber {fiber}" else s!"Fiber Big {fiber - normal}"

end FiberScheduler
