import FiberScheduler.Proofs.Groups

/-!
# Handles of groups

The handle count of a group against a list of the handles there are. While fewer
handles of a group exist than the count can tell apart, a group is freed by its
last handle, and a group with a parked fiber, which has a handle, is not freed.
-/

namespace FiberScheduler.Hub

open Act

variable {ρ κ : Type} {h h' : Hub κ} {T : List Nat} {g : Nat} {n : Int32}

/-- A list of all handles: of each group in use as many as it counts. -/
structure Books (h : Hub κ) (T : List Nat) : Prop where
  live : ∀ g s, h.groups.get? g = some s → g ∈ T ∧ s.handles = UInt32.ofNat (T.count g)
  dead : ∀ g, h.groups.get? g = none → g ∉ T

namespace Books

theorem perm {T' : List Nat} (hb : Books h T) (hp : T.Perm T') : Books h T' where
  live := fun g s hs => by
    rw [← hp.mem_iff, ← hp.count_eq]
    exact hb.live g s hs
  dead := fun g hg => by
    rw [← hp.mem_iff]
    exact hb.dead g hg

theorem get?_of_mem (hb : Books h T) (hg : g ∈ T) : ∃ s, h.groups.get? g = some s := by
  cases hs : h.groups.get? g with
  | none => exact absurd hg (hb.dead g hs)
  | some s => exact ⟨s, rfl⟩

theorem of_handles (hb : Books h T)
    (hh : ∀ g, (h'.groups.get? g).map (·.handles) = (h.groups.get? g).map (·.handles)) : Books h' T where
  live := fun g s hs => by
    have hg := hh g
    rw [hs] at hg
    obtain ⟨s₀, hs₀, he⟩ := Option.map_eq_some_iff.mp hg.symm
    rw [show s.handles = s₀.handles from he.symm]
    exact hb.live g s₀ hs₀
  dead := fun g hg => by
    have hn := hh g
    rw [hg] at hn
    exact hb.dead g (Option.map_eq_none_iff.mp hn.symm)

end Books

theorem ofNat_succ_sub_one (m : Nat) : UInt32.ofNat (m + 1) - 1 = UInt32.ofNat m := by
  rw [UInt32.ofNat_add]
  exact UInt32.add_sub_cancel _ _

theorem ofNat_succ_eq_one_iff {m : Nat} (hm : m < wordSize 32) : UInt32.ofNat (m + 1) = 1 ↔ m = 0 := by
  rw [← UInt32.toNat_inj, UInt32.toNat_ofNat']
  rw [wordSize_32] at hm
  show (m + 1) % 2 ^ 32 = 1 ↔ m = 0
  omega

theorem books_store {s s' : Group} {T' : List Nat} (hb : Books h T) (hs : h.groups.get? g = some s)
    (hg : g ∈ T') (hs' : s'.handles = UInt32.ofNat (T'.count g)) (hT : ∀ k, k ≠ g → T'.count k = T.count k) :
    Books (h.store g (some s') h.groups.free) T' := by
  have hmem : ∀ k, k ≠ g → (k ∈ T' ↔ k ∈ T) := fun k hk => by
    rw [← List.count_pos_iff, ← List.count_pos_iff, hT k hk]
  refine ⟨fun k t hk => ?_, fun k hk => ?_⟩
  · rw [get?_store (block_of_get? hs)] at hk
    by_cases hgk : g = k
    · subst hgk
      rw [if_pos rfl] at hk
      rw [← Option.some.inj hk]
      exact ⟨hg, hs'⟩
    · rw [if_neg hgk] at hk
      rw [hmem k (Ne.symm hgk), hT k (Ne.symm hgk)]
      exact hb.live k t hk
  · rw [get?_store (block_of_get? hs)] at hk
    by_cases hgk : g = k
    · rw [if_pos hgk] at hk; cases hk
    · rw [if_neg hgk] at hk
      rw [hmem k (Ne.symm hgk)]
      exact hb.dead k hk

section
variable (ht : h.Tidy)
include ht

theorem newGroup_books (hb : Books h T) : (newGroup : Act ρ (Hub κ) (Except Refusal Nat)).Ends h fun r h' =>
    ∃ answer, r = .ok answer ∧ Books h' (answer.toOption.toList ++ T) := by
  rw [ends_newGroup]
  cases hf : h.groups.free with
  | nil => exact ⟨_, rfl, hb⟩
  | cons g free =>
    have hfront := ht.blocks.front hf
    have hgT : g ∉ T := hb.dead g hfront.2
    have hbl := ht.blocks.empty g (by rw [hf]; exact List.mem_cons_self)
    refine ⟨_, rfl, ⟨fun k s hk => ?_, fun k hk => ?_⟩⟩
    · rw [get?_store hbl] at hk
      by_cases hgk : g = k
      · subst hgk
        rw [if_pos rfl] at hk
        rw [← Option.some.inj hk]
        refine ⟨List.mem_cons_self, ?_⟩
        show (1 : UInt32) = UInt32.ofNat ((g :: T).count g)
        rw [List.count_cons_self, List.count_eq_zero.mpr hgT]
        rfl
      · rw [if_neg hgk] at hk
        obtain ⟨hm, hh⟩ := hb.live k s hk
        refine ⟨List.mem_cons_of_mem _ hm, ?_⟩
        show s.handles = UInt32.ofNat ((g :: T).count k)
        rw [List.count_cons_of_ne hgk, hh]
    · rw [get?_store hbl] at hk
      by_cases hgk : g = k
      · rw [if_pos hgk] at hk; cases hk
      · rw [if_neg hgk] at hk
        exact fun hm => hb.dead k hk (List.mem_of_ne_of_mem (Ne.symm hgk) hm)

omit ht in
theorem cloneGroup_books (hb : Books h T) (hg : g ∈ T) :
    (cloneGroup g : Act ρ (Hub κ) Unit).Ends h fun r h' => r = .ok () ∧ Books h' (g :: T) := by
  obtain ⟨s, hs⟩ := hb.get?_of_mem hg
  rw [ends_cloneGroup hs]
  refine ⟨rfl, books_store hb hs List.mem_cons_self ?_ fun k hk => List.count_cons_of_ne (Ne.symm hk)⟩
  rw [List.count_cons_self, UInt32.ofNat_add, (hb.live g s hs).2]
  rfl

omit ht in
theorem dropGroup_booked (hb : Books h (g :: T)) (hfew : T.count g < wordSize 32) :
    (dropGroup g : Act ρ (Hub κ) Unit).Ends h fun r h' => r = .ok () ∧ Books h' T := by
  obtain ⟨s, hs⟩ := hb.get?_of_mem List.mem_cons_self
  have hh := (hb.live g s hs).2
  rw [List.count_cons_self] at hh
  rw [ends_dropGroup hs]
  refine ⟨rfl, ?_⟩
  by_cases h1 : s.handles = 1
  -- The last handle: the block is freed, and no handle of the group is left in `T`.
  · have hgT : g ∉ T := by
      rw [hh, ofNat_succ_eq_one_iff hfew] at h1
      exact List.count_eq_zero.mp h1
    rw [if_pos h1]
    refine ⟨fun k t hk => ?_, fun k hk => ?_⟩
    · rw [get?_store (block_of_get? hs)] at hk
      by_cases hgk : g = k
      · rw [if_pos hgk] at hk; cases hk
      · rw [if_neg hgk] at hk
        obtain ⟨hm, hc⟩ := hb.live k t hk
        rw [List.count_cons_of_ne hgk] at hc
        exact ⟨List.mem_of_ne_of_mem (Ne.symm hgk) hm, hc⟩
    · rw [get?_store (block_of_get? hs)] at hk
      by_cases hgk : g = k
      · rwa [← hgk]
      · rw [if_neg hgk] at hk
        exact fun hm => hb.dead k hk (List.mem_cons_of_mem _ hm)
  · rw [if_neg h1]
    -- Another handle is left, so the group stays; `hfew` keeps the count from wrapping to one.
    have hgT : 0 < T.count g := by
      rcases Nat.eq_zero_or_pos (T.count g) with h0 | h0
      · exact absurd ((hh.trans ((ofNat_succ_eq_one_iff hfew).mpr h0))) h1
      · exact h0
    refine books_store hb hs (List.count_pos_iff.mp hgT) ?_ fun k hk =>
      (List.count_cons_of_ne (Ne.symm hk)).symm
    show s.handles - 1 = _
    rw [hh, ofNat_succ_sub_one]

/-- The last handle frees a group; nobody waits on it then. -/
theorem dropGroup_books (hb : Books h (g :: T)) (hfew : T.count g < wordSize 32)
    (hw : h.waitingOn g ≠ [] → g ∈ T) :
    (dropGroup g : Act ρ (Hub κ) Unit).Ends h fun r h' =>
      r = .ok () ∧ Books h' T ∧ Steady h h' ∧ Whole h h' := by
  obtain ⟨s, hs⟩ := hb.get?_of_mem List.mem_cons_self
  have hwhole : (dropGroup g : Act ρ (Hub κ) Unit).Ends h fun _ h' => Books h' T → Whole h h' := by
    rw [ends_dropGroup hs]
    split
    · refine fun hb' => whole_store (block_of_get? hs) ?_
      have hgT : g ∉ T := hb'.dead g ((get?_store (block_of_get? hs) g).trans (if_pos rfl))
      rw [waitingOn_of_get? hs] at hw
      exact Classical.byContradiction fun hne => hgT (hw (Ne.symm hne))
    · exact fun _ => whole_store (block_of_get? hs) rfl
  exact (((dropGroup_booked hb hfew).and (dropGroup_steady ht g)).and hwhole).mono
    fun r h' ⟨⟨⟨hr, hb'⟩, hst⟩, hwh⟩ => ⟨hr, hb', hst, hwh hb'⟩

theorem dropGroups_books {gs : List Nat} (hb : Books h (gs ++ T))
    (hfew : ∀ g, (gs ++ T).count g ≤ wordSize 32) (hw : ∀ g, h.waitingOn g ≠ [] → g ∈ T) :
    (dropGroups gs : Act ρ (Hub κ) Unit).Ends h fun r h' =>
      r = .ok () ∧ Books h' T ∧ Steady h h' ∧ Whole h h' := by
  induction gs generalizing h with
  | nil => exact ⟨rfl, hb, .refl ht, fun _ => rfl⟩
  | cons g gs ih =>
    refine (ends_bind (dropGroup g) (fun _ => dropGroups gs) _).mpr ?_
    have hfew' : (gs ++ T).count g < wordSize 32 := by
      have := hfew g
      rw [List.cons_append, List.count_cons_self] at this
      omega
    refine (dropGroup_books ht hb hfew' fun hne => List.mem_append_right _ (hw g hne)).mono ?_
    rintro _ h' ⟨rfl, hb', hst, hwh⟩
    rw [after_ok]
    refine (ih hst.tidy hb' (fun k => ?_) fun k hk => hw k fun hn => ?_).mono
      fun r h'' ⟨hr, hb'', hst', hwh'⟩ => ⟨hr, hb'', hst.trans hst', fun x => (hwh' x).trans (hwh x)⟩
    · exact Nat.le_trans (by rw [List.cons_append]; exact List.count_le_count_cons) (hfew k)
    · rcases hst.lists k with hl | hl
      · exact hk hl
      · exact hk (hl.trans hn)

omit ht in
theorem Released.handles {s : Group} {r : Except Fault Unit} (hr : Released h g s n r h')
    (hs : h.groups.get? g = some s) (k : Nat) :
    (h'.groups.get? k).map (·.handles) = (h.groups.get? k).map (·.handles) := by
  have hstore : ∀ (s' : Group), s'.handles = s.handles →
      ((h.store g (some s') h.groups.free).groups.get? k).map (·.handles) = (h.groups.get? k).map
        (·.handles) := by
    intro s' hs'
    rw [get?_store (block_of_get? hs)]
    by_cases hgk : g = k
    · subst hgk
      rw [if_pos rfl, hs]
      exact congrArg some hs'
    · rw [if_neg hgk]
  cases hr with
  | refused | ignored => rfl
  | counted => exact hstore _ rfl
  | woken => exact hstore { s with count := 0, head := none } rfl

theorem releaseGroup_books (hb : Books h T) (hg : g ∈ T) :
    (releaseGroup g n : Act ρ (Hub κ) Unit).Ends h fun _ h' => Books h' T ∧ Steady h h' ∧ Whole h h' := by
  obtain ⟨s, hs⟩ := hb.get?_of_mem hg
  exact (ends_releaseGroup_cases ht hs).mono fun r h' hr => ⟨hb.of_handles (hr.handles hs), hr.steady ht hs⟩

theorem addGroup_books (hb : Books h T) (hg : g ∈ T) :
    (addGroup g n : Act ρ (Hub κ) Unit).Ends h fun _ h' => Books h' T ∧ Steady h h' ∧ Whole h h' := by
  obtain ⟨s, hs⟩ := hb.get?_of_mem hg
  rw [ends_addGroup hs]
  split
  · refine ⟨books_store hb hs hg (hb.live g s hs).2 fun _ _ => rfl, steady_renumber ht hs _ _⟩
  · split
    · exact releaseGroup_books ht hb hg
    · exact ⟨hb, .refl ht, fun _ => rfl⟩

theorem signalAndDrop_books (hb : Books h (g :: T)) (hfew : T.count g < wordSize 32)
    (hw : h.waitingOn g ≠ [] → g ∈ T) :
    (signalAndDrop g : Act ρ (Hub κ) Unit).Ends h fun _ h' => Books h' T ∧ Steady h h' ∧ Whole h h' := by
  simp only [signalAndDrop, ends_bind, ends_attempt, after_ok]
  refine (releaseGroup_books ht hb List.mem_cons_self).mono ?_
  rintro r h' ⟨hb', hst, hwh⟩
  have hw' : h'.waitingOn g ≠ [] → g ∈ T := fun hne => by
    rcases hst.lists g with hl | hl
    · exact absurd hl hne
    · exact hw fun hn => hne (hl.trans hn)
  refine (dropGroup_books hst.tidy hb' hfew hw').mono ?_
  rintro r' h'' ⟨hr', hb'', hst', hwh'⟩
  subst hr'
  exact ⟨hb'', hst.trans hst', fun x => (hwh' x).trans (hwh x)⟩

end

end FiberScheduler.Hub
