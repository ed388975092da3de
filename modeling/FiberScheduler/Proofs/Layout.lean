import FiberScheduler.Proofs.Fresh
import FiberScheduler.Proofs.Regions

/-!
# The layout of the stacks

The length of the arena is planned in closed form, and the stacks are placed in it one
after the other. The two agree in every mode: where a size wraps, the stacks of its tier
are too small or do not fit into the mapping, and where an offset would wrap, the stack
before it was turned down.
-/

namespace FiberScheduler

/-! ## Pages -/

namespace Host

theorem exists_pageSize (host : Host) : ∃ bits ≤ 62, host.pageSize = wordSize bits := by
  unfold pageSize
  dsimp only
  split
  · rename_i hpower
    have hreport := host.pageReport_lt
    refine ⟨host.pageReport.toNat.log2, ?_, hpower.symm⟩
    have hlt : host.pageReport.toNat < wordSize 63 := by
      rw [wordSize_63] at hreport ⊢
      omega
    have hbits : host.pageReport.toNat.log2 < 63 := by
      by_cases h0 : host.pageReport.toNat = 0
      · rw [h0]
        decide
      · exact (Nat.log2_lt h0).mpr hlt
    omega
  · exact ⟨12, by decide, rfl⟩

theorem pageSize_pos (host : Host) : 0 < host.pageSize := by
  obtain ⟨bits, -, hpage⟩ := host.exists_pageSize
  rw [hpage]
  exact wordSize_pos bits

theorem pageSize_le (host : Host) : host.pageSize ≤ wordSize 62 := by
  obtain ⟨bits, hbits, hpage⟩ := host.exists_pageSize
  rw [hpage]
  exact Nat.pow_le_pow_right (by decide) hbits

theorem pageSize_dvd_wordSize (host : Host) : host.pageSize ∣ wordSize 64 := by
  obtain ⟨bits, hbits, hpage⟩ := host.exists_pageSize
  rw [hpage]
  exact Nat.pow_dvd_pow 2 (by omega)

theorem pageSize_dvd_wholePages (host : Host) (size : Nat) : host.pageSize ∣ host.wholePages size :=
  Nat.dvd_mul_left _ _

theorem le_wholePages (host : Host) (size : Nat) : size ≤ host.wholePages size := by
  have hpos := host.pageSize_pos
  have hlt : size + (host.pageSize - 1) < host.wholePages size + host.pageSize := Nat.lt_div_mul_add hpos
  omega

theorem wholePages_lt (host : Host) (size : Nat) : host.wholePages size < size + host.pageSize := by
  have hpos := host.pageSize_pos
  have hle : host.wholePages size ≤ size + (host.pageSize - 1) := Nat.div_mul_le_self _ _
  omega

theorem wholePages_le_wordSize (host : Host) {size : Nat} (hsize : size < wordSize 64) :
    host.wholePages size ≤ wordSize 64 := by
  have hlt := host.wholePages_lt size
  exact Nat.le_of_lt_add_of_dvd (by omega) (host.pageSize_dvd_wholePages size) host.pageSize_dvd_wordSize

end Host

/-- The size of a stack is rounded up to whole pages, or wraps and is zero. -/
theorem Mode.roundToPage_cases {mode : Mode} {host : Host} {size rounded : Nat}
    (h : mode.roundToPage host size = .ok rounded) (hsize : size < wordSize 64) :
      rounded = host.wholePages size ∨ rounded = 0 := by
  by_cases hfit : host.wholePages size < wordSize 64
  · exact Or.inl (Mode.eq_of_word h hfit)
  have hedge : host.wholePages size = wordSize 64 :=
    Nat.le_antisymm (host.wholePages_le_wordSize hsize) (Nat.le_of_not_lt hfit)
  unfold roundToPage at h
  rw [hedge] at h
  cases mode with
  | strict => cases h
  | lenient => exact Or.inr (Except.ok.inj h).symm

/-! ## The plan -/

def Config.stackSizeOf (config : Config) (fiber : Nat) : Nat :=
  if fiber < config.fiberCount.toNat then config.stackSize.toNat else config.extendedStackSize.toNat

namespace Arena

variable {plan : Arena} {page i j : Nat}

/-- Where the guard page of a fiber begins, if no fiber before it is left out. -/
def frontier (plan : Arena) (page : Nat) : (fiber : Nat) → Nat
  | 0 => 0
  | fiber + 1 => plan.frontier page fiber + page + plan.stackSize fiber

theorem frontier_succ (plan : Arena) (page fiber : Nat) :
    plan.frontier page (fiber + 1) = plan.frontier page fiber + page + plan.stackSize fiber := rfl

def row (plan : Arena) (page fiber : Nat) : Extent :=
  ⟨plan.frontier page fiber + page, plan.stackSize fiber⟩

theorem frontier_mono (h : i ≤ j) : plan.frontier page i ≤ plan.frontier page j := by
  induction h with
  | refl => exact Nat.le_refl _
  | @step j _ ih =>
    rw [frontier_succ]
    omega

theorem frontier_normal (h : i ≤ plan.normal) : plan.frontier page i = i * (page + plan.normalSize) := by
  induction i with
  | zero => exact (Nat.zero_mul _).symm
  | succ i ih =>
    have hsize : plan.stackSize i = plan.normalSize := if_pos h
    rw [frontier_succ, ih (by omega), hsize, Nat.succ_mul]
    omega

theorem frontier_extended (i : Nat) :
    plan.frontier page (plan.normal + i) = plan.normal * (page + plan.normalSize) + i *
      (page + plan.extendedSize) := by
  induction i with
  | zero => rw [Nat.add_zero, frontier_normal (Nat.le_refl _), Nat.zero_mul, Nat.add_zero]
  | succ i ih =>
    have hsize : plan.stackSize (plan.normal + i) = plan.extendedSize := if_neg (by omega)
    rw [← Nat.add_assoc, frontier_succ, ih, hsize, Nat.succ_mul]
    omega

structure Planned (host : Host) (config : Config) (plan : Arena) : Prop where
  normal : plan.normal = config.fiberCount.toNat
  extended : plan.extended = config.extendedFiberCount.toNat
  size : ∀ fiber, plan.stackSize fiber = host.wholePages (config.stackSizeOf fiber) ∨ plan.stackSize fiber = 0
  /-- The length is exact where the strides are. -/
  total : ∃ normalStride extendedStride,
    plan.total = plan.normal * normalStride + plan.extended * extendedStride ∧
    (host.pageSize + plan.normalSize < wordSize 64 → normalStride = host.pageSize + plan.normalSize) ∧
    (host.pageSize + plan.extendedSize < wordSize 64 → extendedStride = host.pageSize + plan.extendedSize)
  fits : plan.total < wordSize 64
  positive : 0 < plan.total

theorem word?_eq_some_iff {n m : Nat} : word? n = some m ↔ n < wordSize 64 ∧ n = m := by
  unfold word?
  split
  · rename_i hlt
    simp only [Option.some.injEq, hlt, true_and]
  · rename_i hlarge
    simp only [hlarge, false_and, reduceCtorEq]

theorem planned_of_plan {mode : Mode} {host : Host} {config : Config}
    (h : Arena.plan mode host config = .ok (some plan)) :
    plan.Planned host config := by
  obtain ⟨normalSize, hnormalSize, h⟩ := bind_eq_ok h
  obtain ⟨extendedSize, hextendedSize, h⟩ := bind_eq_ok h
  obtain ⟨normalStride, hnormalStride, h⟩ := bind_eq_ok h
  obtain ⟨extendedStride, hextendedStride, h⟩ := bind_eq_ok h
  obtain ⟨normalTotal, hnormalTotal, h⟩ := Option.bind_eq_some_iff.mp (Except.ok.inj h)
  obtain ⟨extendedTotal, hextendedTotal, h⟩ := Option.bind_eq_some_iff.mp h
  obtain ⟨total, htotal, h⟩ := Option.bind_eq_some_iff.mp h
  obtain ⟨-, rfl⟩ := word?_eq_some_iff.mp hnormalTotal
  obtain ⟨-, rfl⟩ := word?_eq_some_iff.mp hextendedTotal
  obtain ⟨hlt, rfl⟩ := word?_eq_some_iff.mp htotal
  split at h
  · cases h
  · rename_i hpositive
    cases h
    refine ⟨rfl, rfl, fun fiber => ?_,
      ⟨normalStride, extendedStride, rfl, Mode.eq_of_word hnormalStride, Mode.eq_of_word hextendedStride⟩,
      hlt, Nat.pos_of_ne_zero hpositive⟩
    unfold stackSize Config.stackSizeOf
    split
    · exact Mode.roundToPage_cases hnormalSize (toNat_lt_wordSize_64 _)
    · exact Mode.roundToPage_cases hextendedSize (toNat_lt_wordSize_64 _)

/-- The length of a tier is exact where it fits in a word: the stride did not wrap, or there are
no stacks. -/
theorem mul_stride {count stride exact : Nat} (hstride : exact < wordSize 64 → stride = exact)
    (hfits : count * exact < wordSize 64) :
    count * exact = count * stride := by
  rcases Nat.eq_zero_or_pos count with h0 | hpos
  · rw [h0, Nat.zero_mul, Nat.zero_mul]
  · have hle : exact ≤ count * exact := Nat.le_mul_of_pos_left _ hpos
    rw [hstride (Nat.lt_of_le_of_lt hle hfits)]

section
variable {host : Host} {config : Config} (hplan : plan.Planned host config)
include hplan

theorem Planned.page_dvd_stackSize (fiber : Nat) : host.pageSize ∣ plan.stackSize fiber := by
  rcases hplan.size fiber with h | h
  · rw [h]
    exact host.pageSize_dvd_wholePages _
  · rw [h]
    exact Nat.dvd_zero _

theorem Planned.page_dvd_frontier (fiber : Nat) : host.pageSize ∣ plan.frontier host.pageSize fiber := by
  induction fiber with
  | zero => exact Nat.dvd_zero _
  | succ fiber ih => exact Nat.dvd_add (Nat.dvd_add ih (Nat.dvd_refl _)) (hplan.page_dvd_stackSize fiber)

theorem Planned.le_stackSize {fiber : Nat} (hpos : 0 < plan.stackSize fiber) :
    config.stackSizeOf fiber ≤ plan.stackSize fiber := by
  rcases hplan.size fiber with h | h
  · rw [h]
    exact host.le_wholePages _
  · omega

/-- The stacks fill the arena if all of them lie in it. -/
theorem Planned.frontier_eq_total
    (hinside : plan.frontier host.pageSize (plan.normal + plan.extended) ≤ plan.total) :
    plan.frontier host.pageSize (plan.normal + plan.extended) = plan.total := by
  obtain ⟨normalStride, extendedStride, htotal, hnormal, hextended⟩ := hplan.total
  have hfits := hplan.fits
  rw [frontier_extended] at hinside ⊢
  rw [htotal, mul_stride hnormal (by omega), mul_stride hextended (by omega)]

end

end Arena

/-! ## Placing the stacks -/

open Act

variable {ρ σ : Type} {mode : Mode} {host : Host} {config : Config} {plan : Arena}

structure StackArena.Placed (host : Host) (plan : Arena) (arena : StackArena) : Prop where
  row : ∀ fiber < arena.opened.size, arena.opened[fiber]? = some (plan.row host.pageSize fiber)
  nonempty : ∀ fiber < arena.opened.size, 0 < plan.stackSize fiber
  inside : plan.frontier host.pageSize arena.opened.size ≤ arena.size
  /-- The address past the last stack is a word. -/
  reach : 0 < arena.opened.size → arena.start + plan.frontier host.pageSize arena.opened.size < wordSize 64

namespace StackArena

variable {arena : StackArena}

theorem Placed.push (h : arena.Placed host plan) (hnonempty : 0 < plan.stackSize arena.opened.size)
    (hinside : plan.frontier host.pageSize (arena.opened.size + 1) ≤ arena.size)
    (hreach : arena.start + plan.frontier host.pageSize (arena.opened.size + 1) < wordSize 64) :
    Placed host plan
      { arena with opened := arena.opened.push (plan.row host.pageSize arena.opened.size) } := by
  refine ⟨?_, ?_, ?_, ?_⟩
  · intro fiber hfiber
    rw [Array.size_push] at hfiber
    rw [Array.getElem?_push]
    by_cases hlast : fiber = arena.opened.size
    · rw [if_pos hlast, hlast]
    · rw [if_neg hlast]
      exact h.row fiber (by omega)
  · intro fiber hfiber
    rw [Array.size_push] at hfiber
    by_cases hlast : fiber = arena.opened.size
    · rw [hlast]
      exact hnonempty
    · exact h.nonempty fiber (by omega)
  · rw [Array.size_push]
    exact hinside
  · rw [Array.size_push]
    exact fun _ => hreach

theorem Placed.page_fits (h : arena.Placed host plan) (hstart : 0 < arena.start)
    (haligned : host.pageSize ∣ arena.start) :
    plan.frontier host.pageSize arena.opened.size + host.pageSize < wordSize 64 := by
  have hpage := host.pageSize_le
  have h62 : wordSize 62 = 4611686018427387904 := rfl
  have h64 : wordSize 64 = 18446744073709551616 := rfl
  rcases Nat.eq_zero_or_pos arena.opened.size with h0 | hpos
  · rw [h0]
    show 0 + host.pageSize < wordSize 64
    omega
  · -- The mapping begins a page or more above zero, and so far above the frontier the addresses end.
    have hreach := h.reach hpos
    have hle : host.pageSize ≤ arena.start := Nat.le_of_dvd hstart haligned
    omega

end StackArena

section
variable (hinside : ∀ offset size mapped, host.commits offset size mapped = true → size = 0 ∨
  offset + size ≤ mapped)
include hinside

/-- Each stack is placed on the frontier, whatever wraps. -/
theorem FiberPool.placed_format :
    ∀ {remaining : Nat} {arena : StackArena} {slots : Array Slot}, arena.Placed host plan →
    0 < arena.start → host.pageSize ∣ arena.start → ∀ x : σ,
    (FiberPool.format mode host plan remaining arena.opened.size
      (plan.frontier host.pageSize arena.opened.size) arena slots :
      Act ρ σ _).Yields x fun r => ∀ arena' slots', r = .ok (arena', slots') →
        arena'.Placed host plan ∧ arena'.start = arena.start ∧ arena'.size = arena.size ∧
          arena'.opened.size = arena.opened.size + remaining
  | 0, arena, _, h, _, _, x => yields_pure fun _ _ hr => by cases hr; exact ⟨h, rfl, rfl, rfl⟩
  | remaining + 1, arena, slots, h, hstart, haligned, x => by
    refine (yields_lift _).bind fun stack y hstack => ?_
    obtain rfl := Mode.eq_of_word hstack (h.page_fits hstart haligned)
    refine (FiberPool.yields_commit arena _ _ y).bind fun committed z hcommit => ?_
    cases committed with
    | error refusal => exact yields_pure fun _ _ hr => by cases hr
    | ok arena₁ =>
      obtain ⟨⟨-, hgranted⟩, rfl⟩ := hcommit arena₁ rfl
      refine (Stack.yields_carve z).bind fun carved u hcarved => ?_
      cases carved with
      | none => exact yields_pure fun _ _ hr => by cases hr
      | some _ =>
        obtain ⟨hcarved, hnonempty⟩ := hcarved rfl
        have hreach :
            arena.start + (plan.frontier host.pageSize arena.opened.size + host.pageSize) +
              plan.stackSize arena.opened.size < wordSize 64 := hcarved
        have hnext := plan.frontier_succ host.pageSize arena.opened.size
        -- A stack that was carved is not empty, so what the host granted lies in the mapping.
        have hin : plan.frontier host.pageSize (arena.opened.size + 1) ≤ arena.size := by
          have hcases := hinside _ _ _ hgranted
          omega
        let arena₁ : StackArena :=
          { arena with opened := arena.opened.push (plan.row host.pageSize arena.opened.size) }
        have hsize₁ : arena₁.opened.size = arena.opened.size + 1 := Array.size_push _
        have hplaced : arena₁.Placed host plan := h.push hnonempty hin (by omega)
        refine (yields_lift _).bind fun next v hword => ?_
        obtain rfl := Mode.eq_of_word hword (by omega)
        have hrest :
            (FiberPool.format mode host plan remaining arena₁.opened.size
            (plan.frontier host.pageSize arena₁.opened.size) arena₁
            (slots.push ⟨true, false, .context arena.opened.size⟩) :
              Act ρ σ _).Yields v _ := placed_format hplaced hstart haligned v
        rw [hsize₁] at hrest
        refine hrest.mono fun r _ hr made hmade arena' slots' hresult => ?_
        obtain ⟨hplaced', hstart', hsize', hopened'⟩ := hr made hmade arena' slots' hresult
        exact ⟨hplaced', hstart', hsize', by omega⟩

end

/-! ## The finished arena -/

/-- A finished arena: which stack belongs to which fiber, and where it lies. -/
structure StackArena.LaidOut (host : Host) (config : Config) (arena : StackArena) : Prop where
  mapped : host.map arena.size = some arena.start
  count : arena.opened.size = config.fiberCount.toNat + config.extendedFiberCount.toNat
  aligned : ∀ (fiber : Nat) (stack : Extent), arena.opened[fiber]? = some stack →
    host.pageSize ∣ arena.start + stack.offset ∧ host.pageSize ∣ stack.size
  /-- A stack has at least the size of its tier. -/
  large : ∀ (fiber : Nat) (stack : Extent), arena.opened[fiber]? = some stack →
    config.stackSizeOf fiber ≤ stack.size
  inside : ∀ (fiber : Nat) (stack : Extent), arena.opened[fiber]? = some stack →
    stack.offset + stack.size ≤ arena.size
  /-- The stacks lie one above the other, so those of the normal tier come first. -/
  apart : ∀ (i j : Nat) (a b : Extent), i < j → arena.opened[i]? = some a → arena.opened[j]? = some b →
    a.offset + a.size ≤ b.offset
  /-- The page below a stack is in the arena, and no stack reaches into it. -/
  guarded : ∀ (fiber : Nat) (stack : Extent), arena.opened[fiber]? = some stack →
    host.pageSize ≤ stack.offset ∧
    ∀ (other : Nat) (row : Extent), arena.opened[other]? = some row →
      row.offset + row.size ≤ stack.offset - host.pageSize ∨ stack.offset ≤ row.offset
  last : ∃ stack : Extent, arena.opened.back? = some stack ∧ stack.offset + stack.size = arena.size

section
variable {arena : StackArena} (h : arena.Placed host plan)
include h

theorem StackArena.Placed.eq_of_getElem? {fiber : Nat} {stack : Extent}
    (hx : arena.opened[fiber]? = some stack) :
    fiber < arena.opened.size ∧ stack.offset = plan.frontier host.pageSize fiber + host.pageSize ∧
      stack.size = plan.stackSize fiber := by
  have hlt : fiber < arena.opened.size := (Array.getElem?_eq_some_iff.mp hx).1
  rw [h.row fiber hlt] at hx
  cases hx
  exact ⟨hlt, rfl, rfl⟩

theorem StackArena.Placed.laidOut (hplan : plan.Planned host config)
    (hmapped : host.map arena.size = some arena.start) (haligned : host.pageSize ∣ arena.start)
    (htotal : arena.size = plan.total) (hopened : arena.opened.size = plan.normal + plan.extended) :
    arena.LaidOut host config where
  mapped := hmapped
  count := by rw [hopened, hplan.normal, hplan.extended]
  aligned := by
    intro fiber stack hx
    obtain ⟨-, hoffset, hsize⟩ := h.eq_of_getElem? hx
    rw [hoffset, hsize]
    exact ⟨Nat.dvd_add haligned (Nat.dvd_add (hplan.page_dvd_frontier fiber) (Nat.dvd_refl _)),
      hplan.page_dvd_stackSize fiber⟩
  large := by
    intro fiber stack hx
    obtain ⟨hlt, -, hsize⟩ := h.eq_of_getElem? hx
    rw [hsize]
    exact hplan.le_stackSize (h.nonempty fiber hlt)
  inside := by
    intro fiber stack hx
    obtain ⟨hlt, hoffset, hsize⟩ := h.eq_of_getElem? hx
    rw [hoffset, hsize]
    exact Nat.le_trans (Arena.frontier_mono hlt) h.inside
  apart := by
    intro i j a b hij ha hb
    obtain ⟨-, hoffset, hsize⟩ := h.eq_of_getElem? ha
    obtain ⟨-, hoffset', -⟩ := h.eq_of_getElem? hb
    have hmono : plan.frontier host.pageSize (i + 1) ≤ plan.frontier host.pageSize j :=
      Arena.frontier_mono hij
    have hstep := plan.frontier_succ host.pageSize i
    omega
  guarded := by
    intro fiber stack hx
    obtain ⟨-, hoffset, -⟩ := h.eq_of_getElem? hx
    refine ⟨by omega, ?_⟩
    intro other row hrow
    obtain ⟨-, hoffset', hsize'⟩ := h.eq_of_getElem? hrow
    by_cases hlt : other < fiber
    · have hmono : plan.frontier host.pageSize (other + 1) ≤ plan.frontier host.pageSize fiber :=
        Arena.frontier_mono hlt
      have hstep := plan.frontier_succ host.pageSize other
      exact Or.inl (by omega)
    · have hmono : plan.frontier host.pageSize fiber ≤ plan.frontier host.pageSize other :=
        Arena.frontier_mono (Nat.le_of_not_lt hlt)
      exact Or.inr (by omega)
  last := by
    have hend : plan.frontier host.pageSize (plan.normal + plan.extended) = plan.total :=
      hplan.frontier_eq_total (by rw [← hopened, ← htotal]; exact h.inside)
    have hpositive := hplan.positive
    have hsome : 0 < arena.opened.size := by
      refine Nat.pos_of_ne_zero fun h0 => ?_
      rw [← hopened, h0] at hend
      have : plan.frontier host.pageSize 0 = 0 := rfl
      omega
    have hlast := h.row (arena.opened.size - 1) (by omega)
    have hstep := plan.frontier_succ host.pageSize (arena.opened.size - 1)
    rw [Nat.sub_add_cancel hsome, hopened, hend, ← hopened] at hstep
    refine ⟨_, Array.back?_eq_getElem?.trans hlast, ?_⟩
    rw [htotal]
    exact hstep.symm

end

/-- Every pool that is built has its stacks laid out as planned, in any mode and on any host that
maps whole pages and opens up nothing but what lies in the mapping. -/
theorem FiberPool.stacks_laid_out {pool : FiberPool} {x : σ}
    (haligned : ∀ size start, host.map size = some start → host.pageSize ∣ start)
    (hinside : ∀ offset size mapped, host.commits offset size mapped = true → size = 0 ∨
      offset + size ≤ mapped)
    (hcounts : config.fiberCount.toNat + config.extendedFiberCount.toNat < wordSize 32)
    (hnew : ((new mode host config : Act ρ σ (Except Refusal FiberPool)) x).result = .ok (.ok pool)) :
    pool.slots.size = pool.arena.opened.size ∧ pool.arena.LaidOut host config := by
  obtain ⟨-, hnormal, hextended, hslots⟩ := yields_new (ρ := ρ) x _ hnew pool rfl
  obtain ⟨plan, start, count, arena, slots, y, hplan, hmapped, hcount, hformat, rfl⟩ :=
    yields_formatted (ρ := ρ) x _ hnew pool rfl
  have hplanned : plan.Planned host config := Arena.planned_of_plan hplan
  have hsum : plan.normal + plan.extended < wordSize 32 := by rwa [hplanned.normal, hplanned.extended]
  obtain rfl := Mode.eq_of_word hcount hsum
  have hempty : StackArena.Placed host plan ⟨start + 1, plan.total, #[]⟩ :=
    ⟨fun _ hlt => absurd hlt (Nat.not_lt_zero _), fun _ hlt => absurd hlt (Nat.not_lt_zero _), Nat.zero_le _,
      fun hlt => absurd hlt (Nat.lt_irrefl 0)⟩
  obtain ⟨hplaced, hstart, hsize, hopened⟩ :=
    placed_format hinside hempty (Nat.succ_pos start) (haligned _ _ hmapped) y _ hformat arena slots rfl
  have hopened' : arena.opened.size = plan.normal + plan.extended := hopened.trans (Nat.zero_add _)
  have hmapped' : host.map arena.size = some arena.start := by
    rw [hsize, hstart]
    exact hmapped
  refine ⟨?_, hplaced.laidOut hplanned hmapped' (haligned _ _ hmapped') hsize hopened'⟩
  show slots.size = arena.opened.size
  rw [hopened']
  exact Mode.eq_of_word hslots hsum

theorem FiberPool.small_stacks_laid_out :
    smallConfig.fiberCount.toNat + smallConfig.extendedFiberCount.toNat = 4 ∧
    small.slots.size = small.arena.opened.size ∧ small.arena.LaidOut .standard smallConfig := by
  have hpage : Host.standard.pageSize = 4096 := by decide
  refine ⟨by decide, stacks_laid_out ?_ ?_ (by decide) new_small⟩
  · intro size start hmap
    rw [hpage]
    simp only [Host.standard] at hmap
    split at hmap
    · rw [← Option.some.inj hmap]
      decide
    · cases hmap
  · intro offset size mapped hcommits
    simpa [Host.standard] using hcommits

end FiberScheduler
