import FiberScheduler.Proofs.Blocks
import Mathlib.Data.List.Basic

/-!
# The life of a block pool

A pool is filled and emptied by its owner, who may also free what is not in use or was never
handed out. Beside the pool stands the list of all that was stored in it and dropped from it
so far; what a block holds is read off the last entry about it.
-/

namespace FiberScheduler.BlockPool

open Act

variable {ρ α : Type} {pool : BlockPool α} {g k capacity : Nat} {v : α} {mode : Mode}

def offer (value : α) : Act ρ (BlockPool α) (Except α Nat) := do
  match ← allocate value with
  | some index => pure (.ok index)
  | none => pure (.error value)

def inUse (pool : BlockPool α) : List Nat :=
  (List.range pool.capacity).filter fun g => (pool.get? g).isSome

/-! ## Single uses -/

theorem offer_full (hf : pool.free = []) :
    (offer v : Act ρ (BlockPool α) (Except α Nat)) pool = ⟨.ok (.error v), pool, []⟩ := by
  unfold offer
  rw [bind_quiet _ (allocate_full hf)]
  rfl

theorem offer_apply {free : List Nat} (hf : pool.free = g :: free) :
    (offer v : Act ρ (BlockPool α) (Except α Nat)) pool = ⟨.ok (.ok g), pool.store g (some v) free, []⟩ := by
  unfold offer
  rw [bind_quiet _ (allocate_apply hf)]
  rfl

theorem release_dead (h : pool.Sound) (hn : pool.get? g = none) :
    (release mode g : Act ρ (BlockPool α) (Option α)) pool =
    if g < pool.capacity then
      ⟨if mode = .strict then .error (.blockFreedTwice g) else .ok none, pool, [.notice (.blockFreedTwice g)]⟩
    else ⟨.error (.outOfBounds pool.capacity g), pool, []⟩ := by
  rw [get?_eq_join, h.cells_eq] at hn
  unfold release
  rw [get_bind]
  by_cases hg : g < pool.capacity
  · have hflag : pool.live[g]? = some false := by
      rw [capacity] at hg
      rw [h.inStep, Array.getElem?_map, Array.getElem?_eq_getElem hg]
      rw [Array.getElem?_eq_getElem hg, Option.join_some] at hn
      rw [hn]
      rfl
    rw [if_pos hg, hflag]
    cases mode
    · exact bind_of_error pool (blame_apply pool .strict _ _)
    · exact bind_of_ok pool (blame_apply pool .lenient _ _)
  · have hflag : pool.live[g]? = none := by
      rw [h.inStep, Array.getElem?_map, Array.getElem?_eq_none (Nat.le_of_not_lt hg)]
      rfl
    rw [if_neg hg, hflag]
    apply fail_apply

/-! ## Histories -/

inductive Use (α : Type) where
  | offer (value : α)
  | free (index : Nat)

inductive Event (α : Type) where
  | stored (index : Nat) (value : α)
  | dropped (index : Nat) (value : α)

namespace Event

def index : Event α → Nat
  | stored g _ | dropped g _ => g

def stored? : Event α → Option α
  | stored _ v => some v
  | dropped _ _ => none

def dropped? : Event α → Option α
  | stored _ _ => none
  | dropped _ v => some v

def freed? : Event α → Option Nat
  | stored _ _ => none
  | dropped g _ => some g

end Event

def Use.act (mode : Mode) : Use α → Act ρ (BlockPool α) (Option (Event α))
  | .offer value => do return (← BlockPool.offer value).toOption.map (.stored · value)
  | .free index => do return (← release mode index).map (.dropped index)

structure Life (α : Type) where
  pool : BlockPool α
  events : List (Event α)

/-- A use that ends in a fault leaves no event; the pool goes on as the fault left it. -/
def Life.use (mode : Mode) (l : Life α) (u : Use α) : Life α :=
  let o := (u.act mode : Act Unit (BlockPool α) (Option (Event α))) l.pool
  ⟨o.state, l.events ++ match o.result with | .ok event => event.toList | .error _ => []⟩

def Life.uses (mode : Mode) (l : Life α) (us : List (Use α)) : Life α :=
  us.foldl (Life.use mode) l

def latest (events : List (Event α)) (g : Nat) : Option (Event α) :=
  (events.filter fun e => e.index == g).getLast?

/-- How many blocks became free since `g` last did. A new pool frees its blocks one by one. -/
def age (capacity : Nat) (events : List (Event α)) (g : Nat) : Nat :=
  (List.range capacity ++ events.filterMap Event.freed?).reverse.idxOf g

/-! ## Order of the free blocks -/

theorem pairwise_snoc {order free : List Nat} (h : free.Pairwise fun g k => order.idxOf k < order.idxOf g)
    (hg : g ∉ free) : (free ++ [g]).Pairwise fun i k => (g :: order).idxOf k < (g :: order).idxOf i := by
  have hnext : ∀ k ∈ free, (g :: order).idxOf k = order.idxOf k + 1 := fun k hk => by
    have hgk : (g == k) = false := beq_false_of_ne fun hgk => hg (hgk ▸ hk)
    simp [List.idxOf_cons, hgk]
  refine List.pairwise_append.mpr ⟨?_, List.pairwise_singleton .., ?_⟩
  · refine h.imp_of_mem fun hi hk hlt => ?_
    rw [hnext _ hi, hnext _ hk]
    exact Nat.succ_lt_succ hlt
  · intro i hi k hk
    rw [List.mem_singleton.mp hk, hnext i hi, List.idxOf_cons_self]
    apply Nat.succ_pos

theorem pairwise_range (n : Nat) :
    (List.range n).Pairwise fun g k => (List.range n).reverse.idxOf k < (List.range n).reverse.idxOf g := by
  induction n with
  | zero => apply List.Pairwise.nil
  | succ n ih =>
    rw [List.range_succ, List.reverse_append]
    exact pairwise_snoc ih (by simp)

theorem age_stored (events : List (Event α)) :
    age capacity (events ++ [.stored g v]) = age capacity events := by
  funext k
  simp [age, Event.freed?, List.filterMap_cons]

theorem age_dropped (events : List (Event α)) : age capacity (events ++ [.dropped g v]) =
    fun k => (g :: (List.range capacity ++ events.filterMap Event.freed?).reverse).idxOf k := by
  funext k
  simp [age, Event.freed?]

theorem latest_snoc (events : List (Event α)) (e : Event α) :
    latest (events ++ [e]) g = if e.index = g then some e else latest events g := by
  unfold latest
  by_cases hg : e.index = g
  · simp [List.filter_append, hg]
  · simp [List.filter_append, hg]

/-! ## What uses keep -/

theorem drop_eq_gather (pool : BlockPool α) : pool.drop = gather Option.toList pool.cells := by
  have hcells : pool.cells.toList =
      (pool.blocks.zip pool.live).toList.map fun cell => if cell.2 then cell.1 else none := by
    simp [cells, List.zip, List.map_zipWith]
  rw [gather, hcells, List.flatMap_map, drop, List.filterMap_eq_flatMap_toList]

theorem drop_store {o : Option α} (hg : g < pool.cells.size) (o' : Option α) (free : List Nat)
    (ho : pool.get? g = o) : ((pool.store g o' free).drop ++ o.toList).Perm (pool.drop ++ o'.toList) := by
  have hcell : pool.cells[g]? = some o := by
    simpa [get?_eq_join, hg] using ho
  rw [drop_eq_gather, drop_eq_gather, cells_store]
  exact gather_set_perm Option.toList o' hcell

/-- A pool agrees with its history: each block holds what was last stored in it, the free
blocks stand in the order in which they became free, and what was stored was dropped once or
goes down with the pool. -/
structure Kept (capacity : Nat) (l : Life α) : Prop where
  stocked : l.pool.Stocked
  size : l.pool.capacity = capacity
  holds : ∀ g v, l.pool.get? g = some v ↔ latest l.events g = some (.stored g v)
  inTurn : l.pool.free.Pairwise fun g k => age capacity l.events k < age capacity l.events g
  dropped : (l.events.filterMap Event.stored?).Perm (l.events.filterMap Event.dropped? ++ l.pool.drop)

theorem kept_new (h : new capacity = .ok pool) : Kept capacity ⟨pool, []⟩ := by
  obtain rfl := eq_of_new h
  refine ⟨stocked_vacant capacity, capacity_vacant capacity, fun g v => ?_, ?_, ?_⟩
  · simp [get?_vacant, latest]
  · simpa [age, vacant] using pairwise_range capacity
  · rw [drop_eq_gather, cells_vacant, gather_replicate _ _ rfl]
    apply List.Perm.nil

variable {l : Life α}

theorem use_dead (h : l.pool.Sound) (hn : l.pool.get? g = none) : l.use mode (.free g) = l := by
  have hrelease : (release mode g : Act Unit (BlockPool α) (Option α)) l.pool = _ := release_dead h hn
  by_cases hg : g < l.pool.capacity
  · rw [if_pos hg] at hrelease
    cases mode
    · simp [Life.use, Use.act, bind_of_error _ hrelease]
    · simp [Life.use, Use.act, bind_of_ok _ hrelease]
  · rw [if_neg hg] at hrelease
    simp [Life.use, Use.act, bind_of_error _ hrelease]

/-- What comes of a use: a value goes into the block in front of the free ones, a block in
use gives up its value, or nothing changes. -/
theorem use_cases (h : l.pool.Sound) (mode : Mode) (u : Use α) :
    (∃ g v free, u = .offer v ∧ l.pool.free = g :: free ∧
      l.use mode u = ⟨l.pool.store g (some v) free, l.events ++ [.stored g v]⟩) ∨
    (∃ g v, u = .free g ∧ l.pool.get? g = some v ∧
      l.use mode u = ⟨l.pool.store g none (l.pool.free ++ [g]), l.events ++ [.dropped g v]⟩) ∨
    l.use mode u = l := by
  cases u with
  | offer v =>
    cases hf : l.pool.free with
    | nil =>
      refine .inr (.inr ?_)
      simp [Life.use, Use.act, bind_quiet _ (offer_full hf), Except.toOption]
    | cons g free =>
      refine .inl ⟨g, v, free, rfl, rfl, ?_⟩
      simp [Life.use, Use.act, bind_quiet _ (offer_apply hf), Except.toOption]
  | free g =>
    cases hg : l.pool.get? g with
    | none => exact .inr (.inr (use_dead h hg))
    | some v =>
      refine .inr (.inl ⟨g, v, rfl, hg, ?_⟩)
      simp [Life.use, Use.act, bind_quiet _ (release_live hg)]

section
variable (h : Kept capacity l)
include h

theorem Kept.store {free : List Nat} (hf : l.pool.free = g :: free) (v : α) :
    Kept capacity ⟨l.pool.store g (some v) free, l.events ++ [.stored g v]⟩ := by
  obtain ⟨hlt, hn⟩ := h.stocked.front hf
  refine ⟨h.stocked.store_allocate hf v, (capacity_store ..).trans h.size, fun k w => ?_, ?_, ?_⟩
  · rw [get?_store hlt, latest_snoc]
    by_cases hk : g = k
    · simp [hk, Event.index]
    · simpa [hk, Event.index] using h.holds k w
  · have hturn := h.inTurn
    rw [hf] at hturn
    rw [age_stored]
    exact hturn.of_cons
  · have hperm := drop_store hlt (some v) free hn
    simp only [Option.toList_none, List.append_nil, Option.toList_some] at hperm
    rw [List.filterMap_append, List.filterMap_append]
    simp only [Event.stored?, Event.dropped?, List.filterMap_cons, List.filterMap_nil, List.append_nil]
    calc l.events.filterMap Event.stored? ++ [v]
      _ |>.Perm ((l.events.filterMap Event.dropped? ++ l.pool.drop) ++ [v]) := h.dropped.append_right [v]
      _ |>.Perm (l.events.filterMap Event.dropped? ++ (l.pool.drop ++ [v])) := by rw [List.append_assoc]
      _ |>.Perm (l.events.filterMap Event.dropped? ++ (l.pool.store g (some v) free).drop) :=
        hperm.symm.append_left _

theorem Kept.drop (hg : l.pool.get? g = some v) :
    Kept capacity ⟨l.pool.store g none (l.pool.free ++ [g]), l.events ++ [.dropped g v]⟩ := by
  have hlt := lt_size_of_get? hg
  have hgf : g ∉ l.pool.free := fun hm => by
    rw [h.stocked.mem_free_iff, hg] at hm
    cases hm.2
  refine ⟨h.stocked.store_release hg, (capacity_store ..).trans h.size, fun k w => ?_, ?_, ?_⟩
  · rw [get?_store hlt, latest_snoc]
    by_cases hk : g = k
    · simp [hk, Event.index]
    · simpa [hk, Event.index] using h.holds k w
  · rw [age_dropped]
    exact pairwise_snoc h.inTurn hgf
  · have hperm := drop_store hlt none (l.pool.free ++ [g]) hg
    simp only [Option.toList_none, List.append_nil, Option.toList_some] at hperm
    rw [List.filterMap_append, List.filterMap_append]
    simp only [Event.stored?, Event.dropped?, List.filterMap_cons, List.filterMap_nil, List.append_nil]
    refine h.dropped.trans ?_
    rw [List.append_assoc]
    refine List.Perm.append_left _ (hperm.symm.trans ?_)
    exact List.perm_append_comm

theorem Kept.use (mode : Mode) (u : Use α) : Kept capacity (l.use mode u) := by
  obtain ⟨g, v, free, -, hf, hl⟩ | ⟨g, v, -, hg, hl⟩ | hl := use_cases h.stocked.toSound mode u
  · exact hl ▸ h.store hf v
  · exact hl ▸ h.drop hg
  · rw [hl]
    exact h

theorem Kept.use_keeps {u : Use α} (hg : l.pool.get? g = some v) (hu : u ≠ .free g) :
    (l.use mode u).pool.get? g = some v := by
  obtain ⟨k, w, free, -, hf, hl⟩ | ⟨k, w, rfl, hk, hl⟩ | hl := use_cases h.stocked.toSound mode u
  · obtain ⟨hlt, hn⟩ := h.stocked.front hf
    have hkg : k ≠ g := by
      rintro rfl
      simp [hn] at hg
    rw [hl, get?_store hlt, if_neg hkg]
    exact hg
  · have hkg : k ≠ g := fun he => hu (he ▸ rfl)
    rw [hl, get?_store (lt_size_of_get? hk), if_neg hkg]
    exact hg
  · rw [hl]
    exact hg

end

theorem Kept.uses (h : Kept capacity l) (mode : Mode) (us : List (Use α)) :
    Kept capacity (l.uses mode us) := by
  induction us generalizing l with
  | nil => exact h
  | cons u us ih => exact ih (h.use mode u)

theorem Kept.uses_keep (h : Kept capacity l) {us : List (Use α)} (hg : l.pool.get? g = some v)
    (hus : ∀ u ∈ us, u ≠ .free g) : (l.uses mode us).pool.get? g = some v := by
  induction us generalizing l with
  | nil => exact hg
  | cons u us ih =>
    rw [List.forall_mem_cons] at hus
    exact ih (h.use mode u) (h.use_keeps hg hus.1) hus.2

/-! ## Whole lives -/

theorem Stocked.partition (h : pool.Stocked) : (pool.free ++ pool.inUse).Perm (List.range pool.capacity) := by
  have hfree : ∀ g, g ∈ pool.free ↔ g < pool.capacity ∧ ¬(pool.get? g).isSome := fun g => by
    simp [h.mem_free_iff]
  have hlive : ∀ g, g ∈ pool.inUse ↔ g < pool.capacity ∧ (pool.get? g).isSome := fun g => by
    simp [inUse]
  have hnodup : (pool.free ++ pool.inUse).Nodup := by
    refine List.nodup_append.mpr ⟨h.nodup, List.nodup_range.filter _, fun g hg k hk hgk => ?_⟩
    exact ((hfree g).mp hg).2 (hgk ▸ ((hlive k).mp hk).2)
  refine (List.perm_ext_iff_of_nodup hnodup List.nodup_range).mpr fun g => ?_
  rw [List.mem_append, hfree, hlive, List.mem_range]
  by_cases hg : (pool.get? g).isSome <;> simp [hg]

theorem Stocked.free_eq_nil_iff (h : pool.Stocked) : pool.free = [] ↔ ∀ g < pool.capacity, pool.Live g := by
  simp only [List.eq_nil_iff_forall_not_mem, h.mem_free_iff, Live, Option.isSome_iff_ne_none, not_and, ne_eq]

/-- Throughout the life of a pool, whatever is offered to it and freed, the flags say which blocks
hold a value, and the free blocks and those in use make up the pool, each once. A value is handed
back if and only if every block is in use, and nothing changes; else it goes into the block that
has been free the longest. A block in use holds what was last stored in it, until it is freed. To
free what is not in use is a fault in a strict pool and noted in a lenient one, and changes
nothing; what is outside the pool is a fault of its own. If the pool is dropped then, every value
it accepted has been dropped once, by a free or with the pool. -/
theorem blocks_handed_out_in_turn (hpos : 1 ≤ capacity) (mode : Mode) (us : List (Use α)) :
    ∃ pool, (new capacity : Except Fault (BlockPool α)) = .ok pool ∧ ∀ l, Life.uses mode ⟨pool, []⟩ us = l →
      l.pool.capacity = capacity ∧ l.pool.live = l.pool.blocks.map Option.isSome ∧
      (l.pool.free ++ l.pool.inUse).Perm (List.range capacity) ∧
      (∀ v : α, ∀ o, (offer v : Act ρ (BlockPool α) (Except α Nat)) l.pool = o →
        ((∀ g < capacity, l.pool.Live g) → o = ⟨.ok (.error v), l.pool, []⟩) ∧
        (¬(∀ g < capacity, l.pool.Live g) → ∃ g free, l.pool.free = g :: free ∧ g < capacity ∧
          ¬l.pool.Live g ∧
          (∀ k < capacity, ¬l.pool.Live k → k ≠ g → age capacity l.events k < age capacity l.events g) ∧
          o = ⟨.ok (.ok g), l.pool.store g (some v) free, []⟩)) ∧
      (∀ g, l.pool.Live g → ∃ v, latest l.events g = some (.stored g v) ∧
        (release mode g : Act ρ (BlockPool α) (Option α)) l.pool =
          ⟨.ok (some v), l.pool.store g none (l.pool.free ++ [g]), []⟩ ∧
        ∀ more : List (Use α), (∀ u ∈ more, u ≠ .free g) → ∀ l', l.uses mode more = l' →
          (get g : Act ρ (BlockPool α) α) l'.pool = ⟨.ok v, l'.pool, []⟩) ∧
      (∀ g, ¬l.pool.Live g → (release mode g : Act ρ (BlockPool α) (Option α)) l.pool =
        if g < capacity then
          ⟨if mode = .strict then .error (.blockFreedTwice g) else .ok none, l.pool,
            [.notice (.blockFreedTwice g)]⟩
        else ⟨.error (.outOfBounds capacity g), l.pool, []⟩) ∧
      (l.events.filterMap Event.stored?).Perm (l.events.filterMap Event.dropped? ++ l.pool.drop) := by
  have hnew : (new capacity : Except Fault (BlockPool α)) = .ok (vacant capacity) :=
    if_neg (Nat.ne_of_gt hpos)
  refine ⟨_, hnew, ?_⟩
  rintro l hl
  have h : Kept capacity l := hl ▸ (kept_new hnew).uses mode us
  have hfull := h.stocked.free_eq_nil_iff
  have hparts := h.stocked.partition
  rw [h.size] at hfull hparts
  refine ⟨h.size, h.stocked.inStep, hparts, ?_, ?_, ?_, h.dropped⟩
  · rintro v o rfl
    refine ⟨fun hall => offer_full (hfull.mpr hall), fun hsome => ?_⟩
    cases hf : l.pool.free with
    | nil => exact absurd (hfull.mp hf) hsome
    | cons g free =>
      have hdead : ∀ k, k ∈ g :: free ↔ k < capacity ∧ ¬l.pool.Live k := fun k => by
        rw [← hf, h.stocked.mem_free_iff, h.size, Live, Option.not_isSome_iff_eq_none]
      obtain ⟨hlt, hn⟩ := (hdead g).mp List.mem_cons_self
      refine ⟨g, free, rfl, hlt, hn, fun k hk hkn hkg => ?_, offer_apply hf⟩
      -- The list is in the order in which the blocks became free, the first one in front.
      have hturn := h.inTurn
      rw [hf] at hturn
      exact List.rel_of_pairwise_cons hturn (List.mem_of_ne_of_mem hkg ((hdead k).mpr ⟨hk, hkn⟩))
  · intro g hg
    obtain ⟨v, hv⟩ := Option.isSome_iff_exists.mp hg
    refine ⟨v, (h.holds g v).mp hv, release_live hv, ?_⟩
    rintro more hmore l' rfl
    exact get_live (h.uses_keep hv hmore)
  · intro g hg
    rw [release_dead h.stocked.toSound (Option.not_isSome_iff_eq_none.mp hg), h.size]

/-- A pool of two that is asked for a third block, to free a block twice and to free one it
does not have: the block that was freed first takes the next value. -/
theorem pool_of_two_hands_out_in_turn :
    ∃ pool, (new 2 : Except Fault (BlockPool Nat)) = .ok pool ∧
      ∀ l, Life.uses .lenient ⟨pool, []⟩
        [.offer 7, .offer 8, .offer 9, .free 1, .free 1, .free 0, .free 5, .offer 10] = l →
        l.pool.free = [0] ∧ l.pool.inUse = [1] ∧ ([7, 8, 10] : List Nat).Perm ([8, 7] ++ l.pool.drop) ∧
        (release .lenient 1 : Act Unit (BlockPool Nat) (Option Nat)) l.pool =
          ⟨.ok (some 10), l.pool.store 1 none [0, 1], []⟩ := by
  obtain ⟨pool, hpool, hlife⟩ := blocks_handed_out_in_turn (ρ := Unit) (α := Nat) (by decide : 1 ≤ 2) .lenient
    [.offer 7, .offer 8, .offer 9, .free 1, .free 1, .free 0, .free 5, .offer 10]
  refine ⟨pool, hpool, ?_⟩
  obtain rfl := eq_of_new hpool
  rintro l rfl
  obtain ⟨-, -, -, -, hlive, -, hdropped⟩ := hlife _ rfl
  refine ⟨by decide, by decide, hdropped, ?_⟩
  obtain ⟨v, hv, hrelease, -⟩ := hlive 1 rfl
  injection hv with he
  injection he with _ hv
  exact hv ▸ hrelease

/-- Not every free of what is not in use is noted and passed over in a lenient pool. -/
theorem free_outside_is_a_fault :
    ¬∀ (capacity : Nat) (pool : BlockPool Unit), (new capacity : Except Fault (BlockPool Unit)) = .ok pool →
    ∀ g, ¬pool.Live g → (release .lenient g : Act Unit (BlockPool Unit) (Option Unit)) pool =
      ⟨.ok none, pool, [.notice (.blockFreedTwice g)]⟩ := by
  intro h
  have hfree := h 1 (vacant 1) rfl 1 Bool.false_ne_true
  rw [release_dead sound_vacant rfl, if_neg (by decide)] at hfree
  injection hfree with hresult
  cases hresult

end FiberScheduler.BlockPool
