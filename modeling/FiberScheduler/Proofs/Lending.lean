import FiberScheduler.Proofs.Fresh

/-!
# Lending fibers

A pool and the fibers that were handed out and not taken back, over any sequence of
rents and returns. Who holds a fiber can be read off the slots, a rent hands out the
first fiber of its tier that nobody holds, in cyclic order from where its search
begins, and a return that is refused changes nothing.
-/

namespace FiberScheduler.FiberPool

open Act

variable {ρ σ : Type} {mode : Mode} {pool pool' : FiberPool}

inductive Dealing where
  | rent (extended : Bool)
  /-- Returns a fiber while some context runs. -/
  | release (running : Handle) (fiber : Nat)

structure Lending where
  pool : FiberPool
  lent : List Nat

theorem Tiered.of_alike (h : pool.Tiered) (ha : pool.Alike pool') : pool'.Tiered where
  size := by rw [ha.size, ha.normal, ha.extended]; exact h.size
  normal := by rw [ha.normal]; exact h.normal
  extended := by rw [ha.extended]; exact h.extended

theorem Tiered.lt_capacity {extended : Bool} {fiber : Nat} (h : pool.Tiered)
    (hfiber : pool.InTier extended fiber) :
    fiber < pool.capacity := by
  have hsize : pool.capacity = pool.normal + pool.extended := h.size
  cases extended <;> simp only [InTier, Bool.false_eq_true, if_true, if_false] at hfiber <;> omega

namespace Lending

/-- One dealing. A fiber is taken back where the pool has nothing to complain about. -/
def deal (mode : Mode) (l : Lending) : Dealing → Lending
  | .rent extended =>
    match (FiberPool.rent mode extended : Act Empty FiberPool (Option Nat)) l.pool with
    | ⟨.ok (some fiber), pool, _⟩ => ⟨pool, fiber :: l.lent⟩
    | ⟨_, pool, _⟩ => ⟨pool, l.lent⟩
  | .release running fiber =>
    match (FiberPool.release mode running fiber : Act Empty FiberPool Unit) l.pool with
    | ⟨.ok _, pool, []⟩ => ⟨pool, l.lent.erase fiber⟩
    | ⟨_, pool, _⟩ => ⟨pool, l.lent⟩

def deals (mode : Mode) (l : Lending) (dealings : List Dealing) : Lending :=
  dealings.foldl (deal mode) l

structure Kept (start : FiberPool) (l : Lending) : Prop where
  alike : start.Alike l.pool
  once : l.lent.Nodup
  lent : ∀ fiber, fiber ∈ l.lent ↔ fiber < l.pool.capacity ∧ l.pool.isFree fiber = false

section
variable {start : FiberPool} {l : Lending} {fiber : Nat} {slot : Slot} (h : Kept start l)
include h

theorem Kept.mem_iff (hx : l.pool.slots[fiber]? = some slot) : fiber ∈ l.lent ↔ slot.free = false := by
  have hlt : fiber < l.pool.capacity := (Array.getElem?_eq_some_iff.mp hx).1
  rw [h.lent, isFree_of_slot hx]
  simp [hlt]

theorem Kept.not_mem_of_isFree (hfree : l.pool.isFree fiber = true) : fiber ∉ l.lent := by
  rw [h.lent, hfree]
  simp

theorem Kept.release_cases (hx : l.pool.slots[fiber]? = some slot) (running : Handle) :
    if running = slot.context ∨ fiber ∉ l.lent then
      ∃ notice fault, (release mode running fiber : Act ρ FiberPool Unit) l.pool =
        ⟨if mode = .strict then .error fault else .ok (), l.pool, [.notice notice]⟩
    else (release mode running fiber : Act ρ FiberPool Unit) l.pool =
      ⟨.ok (), l.pool.setSlot fiber { slot with free := true }, []⟩ := by
  have hmem := h.mem_iff hx
  rw [release_apply hx]
  by_cases hrun : running = slot.context
  · rw [if_pos hrun, if_pos (Or.inl hrun)]
    exact ⟨_, _, blame_apply _ mode _ _⟩
  by_cases hfree : slot.free = true
  · have hnot : fiber ∉ l.lent := by
      rw [hmem, hfree]
      simp
    rw [if_neg hrun, if_pos hfree, if_pos (Or.inr hnot)]
    exact ⟨_, _, blame_apply _ mode _ _⟩
  · have hheld : fiber ∈ l.lent := hmem.mpr (Bool.eq_false_iff.mpr hfree)
    rw [if_neg hrun, if_neg hfree, if_neg (not_or.mpr ⟨hrun, not_not_intro hheld⟩)]

/-! ## One dealing -/

theorem Kept.seeded (seed : UInt32) : Kept start ⟨l.pool.seeded seed, l.lent⟩ :=
  ⟨⟨h.alike.size, h.alike.normal, h.alike.extended, h.alike.context⟩, h.once, h.lent⟩

theorem Kept.rented (hx : l.pool.slots[fiber]? = some slot) (hfree : slot.free = true) :
    Kept start ⟨l.pool.setSlot fiber { slot with free := false }, fiber :: l.lent⟩ := by
  have hlt : fiber < l.pool.capacity := (Array.getElem?_eq_some_iff.mp hx).1
  have hcapacity : (l.pool.setSlot fiber { slot with free := false }).capacity = l.pool.capacity :=
    Array.size_setIfInBounds
  have hnot : fiber ∉ l.lent := by
    rw [h.mem_iff hx, hfree]
    simp
  refine ⟨h.alike.setSlot hx rfl, List.nodup_cons.mpr ⟨hnot, h.once⟩, ?_⟩
  intro k
  rw [List.mem_cons, hcapacity, isFree_setSlot hx, h.lent]
  by_cases hk : fiber = k
  · subst hk
    simp [hlt]
  · simp [hk, Ne.symm hk]

theorem Kept.returned (hx : l.pool.slots[fiber]? = some slot) :
    Kept start ⟨l.pool.setSlot fiber { slot with free := true }, l.lent.erase fiber⟩ := by
  have hcapacity : (l.pool.setSlot fiber { slot with free := true }).capacity = l.pool.capacity :=
    Array.size_setIfInBounds
  refine ⟨h.alike.setSlot hx rfl, h.once.erase fiber, ?_⟩
  intro k
  rw [h.once.mem_erase_iff, hcapacity, isFree_setSlot hx, h.lent]
  by_cases hk : fiber = k
  · subst hk
    simp
  · simp [hk, Ne.symm hk]

theorem Kept.deal (hstart : start.Tiered) (mode : Mode) (d : Dealing) : Kept start (l.deal mode d) := by
  cases d with
  | rent extended =>
    simp only [Lending.deal, rent_apply mode (hstart.of_alike h.alike) extended]
    cases hfind : (l.pool.order extended).find? l.pool.isFree with
    | none => exact h.seeded _
    | some fiber =>
      obtain ⟨slot, hx, hfree⟩ := slot_of_isFree (List.find?_some hfind)
      have hx' : (l.pool.tried extended).slots[fiber]? = some slot := hx
      simp only [handOut_of_slot hx']
      exact (h.seeded _).rented hx' hfree
  | release running fiber =>
    cases hx : l.pool.slots[fiber]? with
    | none =>
      simp only [Lending.deal, release_missing mode running hx]
      exact h
    | some slot =>
      simp only [Lending.deal, release_apply hx mode running]
      by_cases hrun : running = slot.context
      · rw [if_pos hrun]
        cases mode <;> exact h
      by_cases hfree : slot.free = true
      · rw [if_neg hrun, if_pos hfree]
        cases mode <;> exact h
      · rw [if_neg hrun, if_neg hfree]
        exact h.returned hx

end

theorem Kept.deals {start : FiberPool} (hstart : start.Tiered) (mode : Mode) (dealings : List Dealing) :
    ∀ {l : Lending}, Kept start l → Kept start (l.deals mode dealings) := by
  induction dealings with
  | nil => exact fun h => h
  | cons d dealings ih => exact fun h => ih (h.deal hstart mode d)

end Lending

/-! ## Pools that were built -/

section
variable {host : Host} {config : Config} {x : σ}
  (hnew : ((new mode host config : Act ρ σ (Except Refusal FiberPool)) x).result = .ok (.ok pool))
include hnew

/-- A strict mode builds no pool whose fibers a word cannot count. -/
theorem size_of_new (hcounts : mode = .lenient →
    config.fiberCount.toNat + config.extendedFiberCount.toNat < wordSize 32) :
    pool.slots.size = pool.normal + pool.extended := by
  obtain ⟨-, hnormal, hextended, hsize⟩ := yields_new (ρ := ρ) x _ hnew pool rfl
  cases mode with
  | strict => exact (Mode.word_strict_eq_ok_iff.mp hsize).2
  | lenient =>
    rw [Mode.word_of_lt (by rw [hnormal, hextended]; exact hcounts rfl)] at hsize
    exact (Except.ok.inj hsize).symm

theorem kept_of_new (seed : UInt32) : Lending.Kept pool ⟨pool.seeded seed, []⟩ := by
  obtain ⟨hformatted, -⟩ := yields_new (ρ := ρ) x _ hnew pool rfl
  refine ⟨⟨rfl, rfl, rfl, fun _ => rfl⟩, List.nodup_nil, ?_⟩
  intro fiber
  simp only [List.not_mem_nil, false_iff, not_and, Bool.not_eq_false]
  intro hlt
  have hx : (pool.seeded seed).slots[fiber]? = some ⟨true, false, .context fiber⟩ := hformatted.slot fiber hlt
  exact isFree_of_slot hx

/-- Over all rents and returns from a new pool, with any seed: the fibers that are not free
are those that were handed out and not taken back. A rent hands out the first of its tier that
nobody holds, in cyclic order from the place the seed leads to, and none if all are held. A
return is refused exactly where the fiber runs or nobody holds it. -/
theorem rents_first_of_tier (hcounts : mode = .lenient →
    config.fiberCount.toNat + config.extendedFiberCount.toNat < wordSize 32)
    (hnormal : config.fiberCount.toNat ≤ wordSize 31)
    (hextended : config.extendedFiberCount.toNat ≤ wordSize 31) (seed : UInt32) (dealings : List Dealing) :
    let l := Lending.deals mode ⟨pool.seeded seed, []⟩ dealings
    l.pool.normal = config.fiberCount.toNat ∧ l.pool.extended = config.extendedFiberCount.toNat ∧
      l.lent.Nodup ∧ (∀ fiber, fiber ∈ l.lent ↔ fiber < l.pool.capacity ∧ l.pool.isFree fiber = false) ∧
      (∀ extended, let answer := (l.pool.order extended).find? l.pool.isFree
        (rent mode extended : Act ρ FiberPool (Option Nat)) l.pool =
          ⟨.ok answer, (l.pool.tried extended).handOut answer, []⟩ ∧
          (∀ fiber, answer = some fiber → l.pool.InTier extended fiber ∧ fiber ∉ l.lent) ∧
          (answer = none ↔ ∀ fiber, l.pool.InTier extended fiber → fiber ∈ l.lent)) ∧
      ∀ running fiber slot, l.pool.slots[fiber]? = some slot →
        if running = slot.context ∨ fiber ∉ l.lent then
          ∃ notice fault, (release mode running fiber : Act ρ FiberPool Unit) l.pool =
            ⟨if mode = .strict then .error fault else .ok (), l.pool, [.notice notice]⟩
        else (release mode running fiber : Act ρ FiberPool Unit) l.pool =
          ⟨.ok (), l.pool.setSlot fiber { slot with free := true }, []⟩ := by
  intro l
  obtain ⟨-, hn, he, -⟩ := yields_new (ρ := ρ) x _ hnew pool rfl
  have htiered :
      pool.Tiered := ⟨size_of_new hnew hcounts, by rw [hn]; exact hnormal, by rw [he]; exact hextended⟩
  have hkept : Lending.Kept pool l := (kept_of_new hnew seed).deals htiered mode dealings
  have htiered' : l.pool.Tiered := htiered.of_alike hkept.alike
  refine ⟨hkept.alike.normal.trans hn, hkept.alike.extended.trans he, hkept.once, hkept.lent, ?_, ?_⟩
  · intro extended answer
    refine ⟨rent_apply mode htiered' extended, ?_, ?_⟩
    · intro fiber hanswer
      exact ⟨mem_order_iff.mp (List.mem_of_find?_eq_some hanswer),
        hkept.not_mem_of_isFree (List.find?_some hanswer)⟩
    -- Nothing is found exactly if all of the tier is lent.
    · rw [List.find?_eq_none]
      constructor
      · intro hall fiber hfiber
        have hbusy := hall fiber (mem_order_iff.mpr hfiber)
        exact (hkept.lent fiber).mpr ⟨htiered'.lt_capacity hfiber, Bool.eq_false_iff.mpr hbusy⟩
      · intro hall fiber hfiber hfree
        exact hkept.not_mem_of_isFree hfree (hall fiber (mem_order_iff.mp hfiber))
  · intro running fiber slot hx
    exact hkept.release_cases hx running

end

/-! ## Pools to lend from -/

def dealings : List Dealing :=
  [.rent false, .rent true, .rent false, .rent false, .release (.context 1) 1]

def spent : Lending :=
  Lending.deals .lenient ⟨small.seeded 0xFFFFFFFF, []⟩ dealings

theorem spent_pool_turns_down :
    smallConfig.fiberCount.toNat = 3 ∧ smallConfig.extendedFiberCount.toNat = 1 ∧ spent.lent = [2, 0, 3, 1] ∧
      (rent .lenient false : Act Unit FiberPool (Option Nat)) spent.pool =
        ⟨.ok none, spent.pool.seeded 4, []⟩ := by
  obtain ⟨hnormal, -, -, -, hrent, -⟩ :=
    @rents_first_of_tier Unit Unit .lenient small .standard smallConfig () new_small (by decide) (by decide)
      (by decide) 0xFFFFFFFF dealings
  obtain ⟨hanswer, -, hnone⟩ := hrent false
  have hlent : spent.lent = [2, 0, 3, 1] := by decide +kernel
  have hall : ∀ fiber, spent.pool.InTier false fiber → fiber ∈ spent.lent := by
    intro fiber hfiber
    have hlt : fiber < 3 := Nat.lt_of_lt_of_eq hfiber hnormal
    rw [hlent]
    match fiber, hlt with
    | 0, _ | 1, _ | 2, _ => decide
  have hsize : spent.pool.tierSize false = 3 := hnormal
  have hseed : spent.pool.seed = 3 := by decide +kernel
  have htried : spent.pool.tried false = spent.pool.seeded 4 := by
    unfold tried
    rw [hsize, if_neg (by decide), hseed]
    rfl
  refine ⟨by decide, by decide, hlent, hanswer.trans ?_⟩
  rw [hnone.mpr hall, ← htried]
  rfl

def fullConfig : Config where
  workerCount := 1
  backgroundWorkerCount := 0
  fiberCount := 2147483648
  extendedFiberCount := 2147483648
  stackSize := 0
  extendedStackSize := 0
  blockCount := 2
  pinning := .none

/-- The number of fibers wraps to zero: the pool has none of the fibers that its tiers should
have. -/
theorem full_pool_has_no_fibers :
    ∃ pool, ((new .lenient .standard fullConfig : Act Unit Unit _) ()).result = .ok (.ok pool) ∧
    pool.normal = wordSize 31 ∧ pool.extended = wordSize 31 ∧
    (rent .lenient false : Act Unit FiberPool (Option Nat)) pool =
      ⟨.error (.outOfBounds 0 0), pool.seeded 1, []⟩ :=
  ⟨⟨#[], wordSize 31, wordSize 31, 0, ⟨0x10000, wordSize 44, #[]⟩⟩, by rfl, rfl, rfl, by rfl⟩

end FiberScheduler.FiberPool
