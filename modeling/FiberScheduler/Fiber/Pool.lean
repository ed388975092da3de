import FiberScheduler.Context.Machine
import FiberScheduler.Fiber.Arena

/-!
# Fiber pools

A fixed number of fibers in two tiers: the normal ones by index, then the extended
ones. Renting searches a tier from an offset that a counter scatters, so renters
that come one after the other start at different places.
-/

namespace FiberScheduler

structure Slot where
  free : Bool
  /-- Whether a parked fiber has switched out and may be resumed. -/
  suspended : Bool
  /-- Where the fiber is resumed. -/
  context : Handle
  deriving DecidableEq, Repr

structure FiberPool where
  slots : Array Slot
  /-- Fibers below this index have a normal stack. -/
  normal : Nat
  extended : Nat
  /-- How many rents were tried. -/
  seed : UInt32
  /-- The mapping that the stacks lie in. -/
  arena : StackArena

namespace FiberPool

variable {ρ : Type}

/-! ## Construction -/

def format {σ : Type} (mode : Mode) (host : Host) (plan : Arena) :
    (remaining fiber offset : Nat) → StackArena → Array Slot →
    Act ρ σ (Except Refusal (StackArena × Array Slot))
  | 0, _, _, arena, slots => return .ok (arena, slots)
  | remaining + 1, fiber, offset, arena, slots => do
    let size := plan.stackSize fiber
    let stack ← Act.lift (mode.word .add 64 (offset + host.pageSize))
    match ← arena.commit mode host stack size with
    | .error refusal => return .error refusal
    | .ok arena =>
      match ← Stack.carve mode (arena.start + stack) size with
      | none => return .error (.invalidConfig (.fiberStackTooSmall size))
      | some _ =>
        let next ← Act.lift (mode.word .add 64 (stack + size))
        format mode host plan remaining (fiber + 1) next arena (slots.push ⟨true, false, .context fiber⟩)

def new {σ : Type} (mode : Mode) (host : Host) (config : Config) : Act ρ σ (Except Refusal FiberPool) := do
  match ← Act.lift (Arena.plan mode host config) with
  | none => return .error (.invalidConfig .arenaOverflow)
  | some plan =>
    match host.map plan.total with
    | none =>
      Act.note (.mappingFailed plan.total)
      return .error (.stackAllocation plan.total)
    | some 0 => return .error (.stackAllocation plan.total)
    | some start =>
      let count ← Act.lift (mode.word .add 32 (plan.normal + plan.extended))
      match ← format mode host plan count 0 0 ⟨start, plan.total, #[]⟩ #[] with
      | .error refusal => return .error refusal
      | .ok (arena, slots) => return .ok ⟨slots, plan.normal, plan.extended, 0, arena⟩

/-! ## Views -/

def capacity (pool : FiberPool) : Nat :=
  pool.slots.size

def name (pool : FiberPool) (fiber : Nat) : String :=
  fiberName pool.normal fiber

def isExtended (pool : FiberPool) (fiber : Nat) : Bool :=
  pool.normal ≤ fiber

def isFree (pool : FiberPool) (fiber : Nat) : Bool :=
  (pool.slots[fiber]?).any (·.free)

def freeCount (pool : FiberPool) : Nat :=
  pool.slots.foldl (fun n slot => if slot.free then n + 1 else n) 0

def holder (pool : FiberPool) (context : Handle) : Option Nat :=
  pool.slots.findIdx? (·.context == context)

/-! ## Operations -/

def slot (fiber : Nat) : Act ρ FiberPool Slot := do
  let pool ← Act.get
  match pool.slots[fiber]? with
  | some slot => return slot
  | none => Act.fail (.outOfBounds pool.capacity fiber)

def modifySlot (fiber : Nat) (f : Slot → Slot) : Act ρ FiberPool Unit := do
  discard <| slot fiber
  Act.modify fun pool => { pool with slots := pool.slots.modify fiber f }

/-- Where the search for the `seed`-th rent of a tier begins. -/
def startingOffset (seed : UInt32) (count : Nat) : Nat :=
  (seed * 0x9E3779B9).toNat % count

def search (mode : Mode) (pool : FiberPool) (base count offset : Nat) :
    (remaining step : Nat) → Except Fault (Option Nat)
  | 0, _ => .ok none
  | remaining + 1, step => do
    let place ← mode.word .add 32 (offset + step)
    let fiber ← mode.word .add 32 (base + place % count)
    match pool.slots[fiber]? with
    | none => .error (.outOfBounds pool.capacity fiber)
    | some slot =>
      if slot.free then .ok (some fiber)
      else search mode pool base count offset remaining (step + 1)

def rentAttempts : Nat := 16

def scan (mode : Mode) (pool : FiberPool) (base count offset : Nat) :
    (attempts : Nat) → Except Fault (Option Nat)
  | 0 => .ok none
  -- Only where others rent and release meanwhile does another round find more.
  | attempts + 1 =>
    match search mode pool base count offset count 0 with
    | .ok none => scan mode pool base count offset attempts
    | result => result

def rent (mode : Mode) (extended : Bool) : Act ρ FiberPool (Option Nat) := do
  let pool ← Act.get
  let (base, count) := if extended then (pool.normal, pool.extended) else (0, pool.normal)
  if count = 0 then return none
  Act.modify fun pool => { pool with seed := pool.seed + 1 }
  -- The seed moves on whether or not a fiber is found.
  match ← Act.lift (scan mode pool base count (startingOffset pool.seed count) rentAttempts) with
  | none => return none
  | some fiber =>
    modifySlot fiber fun slot => { slot with free := false }
    return some fiber

/-- Gives a fiber back. Giving back the fiber that runs, or a free one, is a
programming error. -/
def release (mode : Mode) (running : Handle) (fiber : Nat) : Act ρ FiberPool Unit := do
  let s ← slot fiber
  let name := (← Act.get).name fiber
  if running = s.context then Act.blame mode (.fiberRunning name) (.fiberRunning name)
  else if s.free then Act.blame mode (.fiberReturnedTwice name) (.fiberReturnedTwice name)
  else modifySlot fiber fun slot => { slot with free := true }

def update (fiber : Nat) (context : Handle) : Act ρ FiberPool Unit :=
  modifySlot fiber fun slot => { slot with context }

/-- The context a switch to a fiber leads to. A strict pool only switches to rented
fibers. -/
def entry (mode : Mode) (fiber : Nat) : Act ρ FiberPool Handle := do
  let s ← slot fiber
  if mode = .strict ∧ s.free then Act.fail .fiberNotRented
  else return s.context

def beginSuspend (fiber : Nat) : Act ρ FiberPool Unit :=
  modifySlot fiber fun slot => { slot with suspended := false }

def finishSuspend (fiber : Nat) : Act ρ FiberPool Unit :=
  modifySlot fiber fun slot => { slot with suspended := true }

def takeSuspended (fiber : Nat) : Act ρ FiberPool Bool := do
  let s ← slot fiber
  if s.suspended then modifySlot fiber fun slot => { slot with suspended := false }
  return s.suspended

/-- Destroys a pool: a fiber that is still rented is only reported. -/
def drop : Act ρ FiberPool Unit := do
  let pool ← Act.get
  (List.range pool.capacity).forM fun fiber =>
    if pool.isFree fiber then pure () else Act.note (.fiberStillRented (pool.name fiber))

end FiberPool

end FiberScheduler
