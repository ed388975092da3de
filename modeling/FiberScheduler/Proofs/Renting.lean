import FiberScheduler.Fiber.Pool
import FiberScheduler.Proofs.Acts
import FiberScheduler.Proofs.Gather

/-!
# Renting fibers

The search for a free fiber visits every place of its tier, so it finds one where
there is one. What the operations of a pool do to its slots.
-/

namespace FiberScheduler.FiberPool

open Act

variable {ρ : Type} {pool : FiberPool} {mode : Mode} {fiber : Nat} {slot : Slot}

def InTier (pool : FiberPool) (extended : Bool) (fiber : Nat) : Prop :=
  if extended then pool.normal ≤ fiber ∧ fiber < pool.normal + pool.extended else fiber < pool.normal

structure Sized (pool : FiberPool) : Prop where
  size : pool.slots.size = pool.normal + pool.extended
  bound : pool.slots.size ≤ wordSize 31

structure Tiered (pool : FiberPool) : Prop where
  size : pool.slots.size = pool.normal + pool.extended
  normal : pool.normal ≤ wordSize 31
  extended : pool.extended ≤ wordSize 31

theorem Sized.tiered (h : pool.Sized) : pool.Tiered := by
  have hsize := h.size
  have hbound := h.bound
  exact ⟨hsize, by omega, by omega⟩

/-! ## Searching a tier -/

/-- The places of a tier in cyclic order from an offset. -/
def ring (base count offset : Nat) : List Nat :=
  (List.range' base count).drop offset ++ (List.range' base count).take offset

theorem ring_perm (base count offset : Nat) : (ring base count offset).Perm (List.range' base count) := by
  unfold ring
  exact List.perm_append_comm.trans (List.Perm.of_eq (List.take_append_drop _ _))

theorem mem_ring_iff {base count offset fiber : Nat} :
    fiber ∈ ring base count offset ↔ base ≤ fiber ∧ fiber < base + count := by
  rw [(ring_perm base count offset).mem_iff, List.mem_range'_1]

section
variable {base count offset : Nat} (hoffset : offset < count)
include hoffset

/-- The place a search looks at in each of its steps. -/
theorem map_range_eq_ring : (List.range' 0 count).map
    (fun step => base + (offset + step) % count) = ring base count offset := by
  refine List.ext_getElem (by simp [ring]; omega) fun step hstep _ => ?_
  simp only [List.length_map, List.length_range'] at hstep
  simp only [List.getElem_map, List.getElem_range', Nat.zero_add, Nat.one_mul, ring, List.getElem_append,
    List.length_drop, List.length_range', List.getElem_drop, List.getElem_take]
  split
  · rw [Nat.mod_eq_of_lt (by omega)]
  · rw [Nat.mod_eq_sub_mod (by omega), Nat.mod_eq_of_lt (by omega)]
    omega

variable (hslots : base + count ≤ pool.slots.size) (hcount : count ≤ wordSize 31)
  (hsize : pool.slots.size ≤ wordSize 32)
include hslots hcount hsize

theorem search_eq_find (mode : Mode) : ∀ {remaining step : Nat}, step + remaining = count →
    search mode pool base count offset remaining step =
      .ok (((List.range' step remaining).map fun step => base + (offset + step) % count).find? pool.isFree)
  | 0, step, hstep => rfl
  | remaining + 1, step, hstep => by
    have h31 : wordSize 31 = 2147483648 := rfl
    have hmod : (offset + step) % count < count := Nat.mod_lt _ (Nat.zero_lt_of_lt hoffset)
    have hplace : mode.word .add 32 (offset + step) = .ok (offset + step) :=
      Mode.word_of_lt (by rw [wordSize_32]; omega)
    have hfiber : mode.word .add 32 (base + (offset + step) % count) = .ok (base + (offset + step) % count) :=
      Mode.word_of_lt (by omega)
    obtain ⟨slot, hget⟩ : ∃ slot, pool.slots[base + (offset + step) % count]? = some slot :=
      ⟨_, Array.getElem?_eq_getElem (by omega)⟩
    have hunfold : search mode pool base count offset (remaining + 1) step =
        if slot.free = true then .ok (some (base + (offset + step) % count))
        else search mode pool base count offset remaining (step + 1) := by
      simp only [search, hplace, bind, Except.bind, hfiber, hget]
    have hisFree : pool.isFree (base + (offset + step) % count) = slot.free := by rw [isFree, hget]; rfl
    rw [hunfold, List.range'_succ, List.map_cons, List.find?_cons, hisFree]
    cases slot.free with
    | true => rfl
    | false => exact search_eq_find mode (by omega)

end

/-- A pool that nobody else uses is searched again in vain. -/
theorem scan_eq_search (mode : Mode) (pool : FiberPool) (base count offset attempts : Nat) :
    scan mode pool base count offset (attempts + 1) = search mode pool base count offset count 0 := by
  induction attempts with
  | zero =>
    rw [scan]
    rcases search mode pool base count offset count 0 with fault | _ | fiber <;> rfl
  | succ attempts ih =>
    rw [scan]
    rcases h : search mode pool base count offset count 0 with fault | _ | fiber
    · rfl
    · exact ih.trans h
    · rfl

/-! ## Operations -/

def setSlot (pool : FiberPool) (fiber : Nat) (slot : Slot) : FiberPool :=
  { pool with slots := pool.slots.setIfInBounds fiber slot }

def seeded (pool : FiberPool) (seed : UInt32) : FiberPool :=
  { pool with seed }

theorem setSlot_setSlot (pool : FiberPool) (fiber : Nat) (a b : Slot) :
    (pool.setSlot fiber a).setSlot fiber b = pool.setSlot fiber b := by
  simp [setSlot]

theorem slot_of_isFree (h : pool.isFree fiber = true) :
    ∃ slot, pool.slots[fiber]? = some slot ∧ slot.free = true := by
  unfold isFree at h
  cases hx : pool.slots[fiber]? with
  | none => rw [hx] at h; cases h
  | some slot => exact ⟨slot, rfl, by rw [hx] at h; exact h⟩

theorem release_missing (mode : Mode) (running : Handle) (hx : pool.slots[fiber]? = none) :
    (release mode running fiber : Act ρ FiberPool Unit) pool =
      ⟨.error (.outOfBounds pool.capacity fiber), pool, []⟩ := by
  have hslot :
      (FiberPool.slot fiber : Act ρ FiberPool Slot) pool =
      ⟨.error (.outOfBounds pool.capacity fiber), pool, []⟩ := by
    unfold FiberPool.slot
    rw [get_bind]
    simp only [hx]
    rfl
  exact bind_of_error pool hslot

theorem isFree_of_slot (hx : pool.slots[fiber]? = some slot) : pool.isFree fiber = slot.free := by
  rw [isFree, hx]; rfl

section
variable (hx : pool.slots[fiber]? = some slot)
include hx

theorem getElem?_setSlot (new : Slot) (k : Nat) :
    (pool.setSlot fiber new).slots[k]? = if fiber = k then some new else pool.slots[k]? :=
  getElem?_set new hx k

theorem isFree_setSlot (new : Slot) (k : Nat) :
    (pool.setSlot fiber new).isFree k = if fiber = k then new.free else pool.isFree k := by
  rw [isFree, getElem?_setSlot hx]
  split <;> rfl

theorem slot_apply : (FiberPool.slot fiber : Act ρ FiberPool Slot) pool = ⟨.ok slot, pool, []⟩ := by
  unfold FiberPool.slot
  rw [get_bind]
  simp only [hx]
  rfl

theorem modifySlot_apply (f : Slot → Slot) :
    (modifySlot fiber f : Act ρ FiberPool Unit) pool = ⟨.ok (), pool.setSlot fiber (f slot), []⟩ := by
  have hread : (discard (FiberPool.slot fiber) : Act ρ FiberPool Unit) pool = ⟨.ok (), pool, []⟩ :=
    bind_quiet (fun _ => pure ()) (slot_apply hx)
  unfold modifySlot
  rw [bind_quiet _ hread, modify_apply, modify_eq_set f hx]
  rfl

theorem ends_slot (Q : Except Fault Slot → FiberPool → Prop) :
    (FiberPool.slot fiber : Act ρ FiberPool Slot).Ends pool Q ↔
    Q (.ok slot) pool :=
  ends_of_eq (slot_apply hx)

theorem ends_modifySlot (f : Slot → Slot) (Q : Except Fault Unit → FiberPool → Prop) :
    (modifySlot fiber f : Act ρ FiberPool Unit).Ends pool Q ↔ Q (.ok ()) (pool.setSlot fiber (f slot)) :=
  ends_of_eq (modifySlot_apply hx f)

theorem gives_update (context : Handle) :
    (update fiber context : Act ρ FiberPool Unit).Gives pool () (pool.setSlot fiber { slot with context }) :=
  (ends_modifySlot hx _ _).mpr ⟨rfl, rfl⟩

theorem gives_beginSuspend :
    (beginSuspend fiber : Act ρ FiberPool Unit).Gives pool ()
    (pool.setSlot fiber { slot with suspended := false }) :=
  (ends_modifySlot hx _ _).mpr ⟨rfl, rfl⟩

theorem gives_finishSuspend :
    (finishSuspend fiber : Act ρ FiberPool Unit).Gives pool ()
    (pool.setSlot fiber { slot with suspended := true }) :=
  (ends_modifySlot hx _ _).mpr ⟨rfl, rfl⟩

theorem gives_takeSuspended (hs : slot.suspended = true) :
    (takeSuspended fiber : Act ρ FiberPool Bool).Gives pool true
    (pool.setSlot fiber { slot with suspended := false }) := by
  unfold Gives
  simp only [takeSuspended, ends_bind, ends_slot hx, after_ok, hs, if_true, ends_modifySlot hx, ends_pure,
    and_self]

theorem gives_entry (mode : Mode) (hfree : slot.free = false) :
    (entry mode fiber : Act ρ FiberPool Handle).Gives pool slot.context pool := by
  unfold Gives
  simp only [entry, ends_bind, ends_slot hx, after_ok, hfree, Bool.false_eq_true, and_false, if_false,
    ends_pure, and_self]

/-- A return is refused where the fiber runs or is free, and frees the fiber otherwise. -/
theorem release_apply (mode : Mode) (running : Handle) :
    (release mode running fiber : Act ρ FiberPool Unit) pool =
    if running = slot.context then blame mode (.fiberRunning (pool.name fiber))
      (.fiberRunning (pool.name fiber)) pool
    else if slot.free then blame mode (.fiberReturnedTwice (pool.name fiber))
      (.fiberReturnedTwice (pool.name fiber)) pool
    else ⟨.ok (), pool.setSlot fiber { slot with free := true }, []⟩ := by
  unfold release
  rw [bind_quiet _ (slot_apply hx), get_bind]
  by_cases hrun : running = slot.context
  · simp only [hrun, if_true]
  · by_cases hfree : slot.free = true
    · simp only [hrun, hfree, if_false, if_true]
    · simp only [hrun, hfree, if_false]
      exact modifySlot_apply hx _

theorem gives_release (mode : Mode) {running : Handle} (hrun : running ≠ slot.context)
    (hfree : slot.free = false) :
    (release mode running fiber : Act ρ FiberPool Unit).Gives pool ()
    (pool.setSlot fiber { slot with free := true }) := by
  unfold Gives
  rw [ends_of_eq ((release_apply hx mode running).trans
    (by rw [if_neg hrun, if_neg (by rw [hfree]; exact Bool.false_ne_true)]))]
  exact ⟨rfl, rfl⟩

end

/-! ## Renting -/

def tierSize (pool : FiberPool) (extended : Bool) : Nat :=
  if extended then pool.extended else pool.normal

/-- The fibers of a tier in the order in which the next rent looks at them. -/
def order (pool : FiberPool) (extended : Bool) : List Nat :=
  ring (if extended then pool.normal else 0) (pool.tierSize extended)
    (startingOffset pool.seed (pool.tierSize extended))

def tried (pool : FiberPool) (extended : Bool) : FiberPool :=
  pool.seeded (if pool.tierSize extended = 0 then pool.seed else pool.seed + 1)

def handOut (pool : FiberPool) : Option Nat → FiberPool
  | none => pool
  | some fiber => { pool with slots := pool.slots.modify fiber fun slot => { slot with free := false } }

theorem mem_order_iff {extended : Bool} : fiber ∈ pool.order extended ↔ pool.InTier extended fiber := by
  cases extended <;> simp [order, mem_ring_iff, InTier, tierSize]

theorem handOut_of_slot (hx : pool.slots[fiber]? = some slot) :
    pool.handOut (some fiber) = pool.setSlot fiber { slot with free := false } := by
  rw [setSlot, ← modify_eq_set (fun slot => { slot with free := false }) hx]
  rfl

theorem rent_tier_apply {base count : Nat} (mode : Mode) (hslots : base + count ≤ pool.slots.size)
    (hcount : count ≤ wordSize 31) (hsize : pool.slots.size ≤ wordSize 32) : (if count = 0 then pure none
      else do
        Act.modify fun pool => { pool with seed := pool.seed + 1 }
        match ← Act.lift (scan mode pool base count (startingOffset pool.seed count) rentAttempts) with
        | none => return none
        | some fiber =>
          modifySlot fiber fun slot => { slot with free := false }
          return some fiber : Act ρ FiberPool (Option Nat)) pool =
      ⟨.ok ((ring base count (startingOffset pool.seed count)).find? pool.isFree),
        (pool.seeded (if count = 0 then pool.seed else pool.seed + 1)).handOut
          ((ring base count (startingOffset pool.seed count)).find? pool.isFree), []⟩ := by
  by_cases h0 : count = 0
  · subst h0
    have hring : ring base 0 (startingOffset pool.seed 0) = [] := by simp [ring]
    rw [if_pos rfl, if_pos rfl, hring]
    rfl
  rw [if_neg h0, if_neg h0, modify_bind]
  have hoffset : startingOffset pool.seed count < count := Nat.mod_lt _ (Nat.pos_of_ne_zero h0)
  have hscan : scan mode pool base count (startingOffset pool.seed count) rentAttempts =
      .ok ((ring base count (startingOffset pool.seed count)).find? pool.isFree) := by
    rw [rentAttempts, scan_eq_search, search_eq_find hoffset hslots hcount hsize mode (Nat.zero_add count),
      map_range_eq_ring hoffset]
  rw [lift_bind _ _ hscan]
  cases hfind : (ring base count (startingOffset pool.seed count)).find? pool.isFree with
  | none => rfl
  | some fiber =>
    obtain ⟨slot, hx, -⟩ := slot_of_isFree (List.find?_some hfind)
    have hx' : (pool.seeded (pool.seed + 1)).slots[fiber]? = some slot := hx
    rw [handOut_of_slot hx']
    exact bind_quiet _ (modifySlot_apply hx' _)

/-- A rent hands out the first free fiber of its tier in the order of its search. -/
theorem rent_apply (mode : Mode) (hpool : pool.Tiered) (extended : Bool) :
    (rent mode extended : Act ρ FiberPool (Option Nat)) pool =
      ⟨.ok ((pool.order extended).find? pool.isFree),
        (pool.tried extended).handOut ((pool.order extended).find? pool.isFree), []⟩ := by
  have h31 : wordSize 31 = 2147483648 := rfl
  have h32 : wordSize 32 = 4294967296 := rfl
  have hsize := hpool.size
  have hnormal := hpool.normal
  have hextended := hpool.extended
  cases extended with
  | true => exact rent_tier_apply mode (by omega) hextended (by omega)
  | false => exact rent_tier_apply mode (by omega) hnormal (by omega)

inductive Rented (pool : FiberPool) (extended : Bool) : Except Fault (Option Nat) → FiberPool → Prop
  | found {fiber : Nat} {slot : Slot} (htier : pool.InTier extended fiber)
      (hx : pool.slots[fiber]? = some slot) (hfree : slot.free = true) (seed : UInt32) :
      Rented pool extended (.ok (some fiber)) ((pool.seeded seed).setSlot fiber { slot with free := false })
  | exhausted (hall : ∀ fiber, pool.InTier extended fiber → pool.isFree fiber = false) (seed : UInt32) :
      Rented pool extended (.ok none) (pool.seeded seed)

theorem ends_rent (mode : Mode) (hsized : pool.Sized) (extended : Bool) :
    (rent mode extended : Act ρ FiberPool (Option Nat)).Ends pool (Rented pool extended) := by
  rw [ends_of_eq (rent_apply mode hsized.tiered extended)]
  cases hfind : (pool.order extended).find? pool.isFree with
  | some fiber =>
    obtain ⟨slot, hx, hfree⟩ := slot_of_isFree (List.find?_some hfind)
    rw [handOut_of_slot (show (pool.tried extended).slots[fiber]? = some slot from hx)]
    exact .found (mem_order_iff.mp (List.mem_of_find?_eq_some hfind)) hx hfree _
  | none =>
    refine .exhausted (fun fiber hfiber => ?_) _
    have hnot := List.find?_eq_none.mp hfind fiber (mem_order_iff.mpr hfiber)
    simpa using hnot

end FiberScheduler.FiberPool
