import FiberScheduler.BlockPool
import FiberScheduler.Proofs.Acts
import FiberScheduler.Proofs.Gather

/-!
# Cells of a pool

A pool read through its flags is an array of cells: the cell of a block that is handed
out holds the value, any other is empty. A use of the pool writes one cell or none. Flags
and blocks of a sound pool stay in step, and its free cells are empty.
-/

namespace FiberScheduler.BlockPool

open Act

variable {ρ α : Type} {pool : BlockPool α} {g k n : Nat} {o : Option α} {a : α} {free : List Nat}
  {mode : Mode}

def cells (pool : BlockPool α) : Array (Option α) :=
  Array.zipWith (fun block live => if live then block else none) pool.blocks pool.live

def store (pool : BlockPool α) (g : Nat) (o : Option α) (free : List Nat) : BlockPool α :=
  ⟨pool.blocks.setIfInBounds g o, pool.live.setIfInBounds g o.isSome, free⟩

theorem getElem?_cells (pool : BlockPool α) (g : Nat) : pool.cells[g]? =
    match pool.blocks[g]?, pool.live[g]? with
    | some block, some live => some (if live then block else none)
    | _, _ => none := by
  rw [cells, Array.getElem?_zipWith]
  rcases pool.blocks[g]? with _ | o <;> rcases pool.live[g]? with _ | l <;> rfl

theorem get?_eq_join (pool : BlockPool α) (g : Nat) : pool.get? g = (pool.cells[g]?).join := by
  rw [getElem?_cells, get?]
  rcases pool.blocks[g]? with _ | o <;> rcases pool.live[g]? with _ | _ | _ <;> simp

theorem get?_eq_some_iff : pool.get? g = some a ↔ pool.cells[g]? = some (some a) := by
  rw [get?_eq_join]
  rcases pool.cells[g]? with _ | _ | b <;> simp

theorem get?_eq_some : pool.get? g = some a ↔
    pool.live[g]? = some true ∧ pool.blocks[g]? = some (some a) := by
  unfold get?
  split
  · rename_i hl
    rcases hb : pool.blocks[g]? with _ | _ | b <;> simp [hl]
  · rename_i hl
    simp [hl]

theorem lt_size_of_get? (h : pool.get? g = some a) : g < pool.cells.size :=
  (Array.getElem?_eq_some_iff.mp (get?_eq_some_iff.mp h)).1

theorem cells_store (pool : BlockPool α) (g : Nat) (o : Option α) (free : List Nat) :
    (pool.store g o free).cells = pool.cells.setIfInBounds g o := by
  have hone : (if o.isSome then o else none) = o := by cases o <;> rfl
  have hsize : pool.cells.size = min pool.blocks.size pool.live.size := Array.size_zipWith
  refine Array.ext_getElem? fun k => ?_
  rw [getElem?_cells, Array.getElem?_setIfInBounds, getElem?_cells, hsize]
  unfold store
  rw [Array.getElem?_setIfInBounds, Array.getElem?_setIfInBounds]
  by_cases hk : g = k
  · subst hk
    by_cases hb : g < pool.blocks.size <;> by_cases hl : g < pool.live.size <;>
      simp [hb, hl, hone, Nat.lt_min]
  · simp [hk]

theorem get?_store (hg : g < pool.cells.size) :
    (pool.store g o free).get? k = if g = k then o else pool.get? k := by
  rw [get?_eq_join, cells_store, Array.getElem?_setIfInBounds, get?_eq_join]
  by_cases hk : g = k
  · subst hk; simp [hg]
  · simp [hk]

theorem store_store (pool : BlockPool α) (g : Nat) (o o' : Option α) (free free' : List Nat) :
    (pool.store g o free).store g o' free' = pool.store g o' free' := by
  simp [store]

@[simp] theorem capacity_store (pool : BlockPool α) (g : Nat) (o : Option α) (free : List Nat) :
    (pool.store g o free).capacity = pool.capacity :=
  Array.size_setIfInBounds

theorem store_self (h : pool.get? g = some a) : pool.store g (some a) pool.free = pool := by
  obtain ⟨hl, hb⟩ := get?_eq_some.mp h
  rw [store, set_self hb, Option.isSome_some, set_self hl]

/-! ## Uses -/

theorem allocate_full (hf : pool.free = []) :
    (allocate a : Act ρ (BlockPool α) (Option Nat)) pool = ⟨.ok none, pool, []⟩ := by
  simp only [allocate, get_bind, hf]
  rfl

theorem allocate_apply (hf : pool.free = g :: free) :
    (allocate a : Act ρ (BlockPool α) (Option Nat)) pool =
      ⟨.ok (some g), pool.store g (some a) free, []⟩ := by
  simp only [allocate, get_bind, hf]
  rfl

theorem get_live (h : pool.get? g = some a) : (get g : Act ρ (BlockPool α) α) pool = ⟨.ok a, pool, []⟩ := by
  obtain ⟨hl, hb⟩ := get?_eq_some.mp h
  simp only [BlockPool.get, get_bind, hl, hb]
  rfl

theorem get_dead (h : pool.get? g = none) :
    ∃ fault, (get g : Act ρ (BlockPool α) α) pool = ⟨.error fault, pool, []⟩ := by
  unfold get? at h
  simp only [BlockPool.get, get_bind]
  rcases hl : pool.live[g]? with _ | _ | _
  · exact ⟨_, rfl⟩
  · exact ⟨_, rfl⟩
  · rw [if_pos hl] at h
    rw [h]
    exact ⟨_, rfl⟩

theorem modify_live (f : α → α) (h : pool.get? g = some a) :
    (modify g f : Act ρ (BlockPool α) Unit) pool = ⟨.ok (), pool.store g (some (f a)) pool.free, []⟩ := by
  obtain ⟨hl, hb⟩ := get?_eq_some.mp h
  rw [modify, modify_apply, store, modify_eq_set _ hb, Option.isSome_some, set_self hl]
  rfl

theorem release_live (h : pool.get? g = some a) :
    (release mode g : Act ρ (BlockPool α) (Option α)) pool =
      ⟨.ok (some a), pool.store g none (pool.free ++ [g]), []⟩ := by
  obtain ⟨hl, hb⟩ := get?_eq_some.mp h
  simp only [release, get_bind, hl, hb]
  rfl

/-! ## Sound pools -/

/-- Flags and blocks are in step. The free cells are empty, and each is listed once. -/
structure Sound (pool : BlockPool α) : Prop where
  inStep : pool.live = pool.blocks.map Option.isSome
  empty : ∀ g ∈ pool.free, pool.cells[g]? = some none
  nodup : pool.free.Nodup

section
variable (h : pool.Sound)
include h

theorem Sound.cells_eq : pool.cells = pool.blocks := by
  refine Array.ext_getElem? fun k => ?_
  rw [getElem?_cells, h.inStep, Array.getElem?_map]
  rcases pool.blocks[k]? with _ | _ | a <;> rfl

theorem Sound.size_cells : pool.cells.size = pool.capacity := by
  rw [h.cells_eq]
  rfl

theorem Sound.inStep_store (g : Nat) (o : Option α) (free : List Nat) :
    (pool.store g o free).live = (pool.store g o free).blocks.map Option.isSome := by
  rw [store, h.inStep, Array.map_setIfInBounds]

theorem Sound.store_of_live (hg : pool.get? g = some a) (b : α) :
    (pool.store g (some b) pool.free).Sound := by
  refine ⟨h.inStep_store .., fun k hk => ?_, h.nodup⟩
  have hkg : g ≠ k := by
    rintro rfl
    rw [get?_eq_some_iff, h.empty g hk] at hg
    cases hg
  rw [cells_store, Array.getElem?_setIfInBounds, if_neg hkg]
  exact h.empty k hk

theorem Sound.store_release (hg : pool.get? g = some a) : (pool.store g none (pool.free ++ [g])).Sound := by
  have hgf : g ∉ pool.free := fun hm => by
    rw [get?_eq_some_iff, h.empty g hm] at hg
    cases hg
  refine ⟨h.inStep_store .., fun k hk => ?_, ?_⟩
  · rw [cells_store, Array.getElem?_setIfInBounds]
    by_cases hkg : g = k
    · subst hkg; simp [lt_size_of_get? hg]
    · rw [if_neg hkg]
      rcases List.mem_append.mp hk with hk | hk
      · exact h.empty k hk
      · exact absurd (List.mem_singleton.mp hk).symm hkg
  · exact List.nodup_append.mpr ⟨h.nodup, by simp,
      fun a ha b hb hab => hgf (by rwa [← List.mem_singleton.mp hb, ← hab])⟩

theorem Sound.store_allocate (hf : pool.free = g :: free) (b : α) : (pool.store g (some b) free).Sound := by
  have hn := h.nodup
  rw [hf, List.nodup_cons] at hn
  refine ⟨h.inStep_store .., fun k hk => ?_, hn.2⟩
  have hkg : g ≠ k := fun he => hn.1 (he ▸ hk)
  rw [cells_store, Array.getElem?_setIfInBounds, if_neg hkg]
  exact h.empty k (by rw [hf]; exact List.mem_cons_of_mem _ hk)

theorem Sound.front (hf : pool.free = g :: free) : g < pool.cells.size ∧ pool.get? g = none := by
  have he := h.empty g (by rw [hf]; exact List.mem_cons_self)
  refine ⟨(Array.getElem?_eq_some_iff.mp he).1, ?_⟩
  rw [get?_eq_join, he]
  rfl

theorem Sound.store_empty (hg : pool.cells[g]? = some none) (free : List Nat) :
    pool.store g none free = { pool with free } := by
  rw [h.cells_eq] at hg
  have hl : pool.live[g]? = some false := by
    rw [h.inStep, Array.getElem?_map, hg]
    rfl
  rw [store, set_self hg, Option.isSome_none, set_self hl]

end

/-! ## New pools -/

theorem cells_vacant : (vacant n : BlockPool α).cells = Array.replicate n none := by
  refine Array.ext_getElem? fun k => ?_
  rw [getElem?_cells]
  simp only [vacant, Array.getElem?_replicate]
  by_cases hk : k < n <;> simp [hk]

theorem get?_vacant (g : Nat) : (vacant n : BlockPool α).get? g = none := by
  rw [get?_eq_join, cells_vacant, Array.getElem?_replicate]
  split <;> rfl

theorem sound_vacant : (vacant n : BlockPool α).Sound := by
  refine ⟨?_, fun g hg => ?_, List.nodup_range⟩
  · simp [vacant]
  · rw [cells_vacant, Array.getElem?_replicate, if_pos (List.mem_range.mp hg)]

theorem eq_of_new (h : new n = .ok pool) : pool = vacant n := by
  unfold new at h
  split at h
  · cases h
  · exact (Except.ok.inj h).symm

end FiberScheduler.BlockPool
