import FiberScheduler.Proofs.Acts
import FiberScheduler.Proofs.Waiting

/-!
# Acts on groups

What each act on a group does to the blocks, and what all of them keep.
-/

namespace FiberScheduler.Hub

open Act

variable {ρ κ : Type} {h : Hub κ} {g : Nat} {s : Group} {n : Int32}

theorem store_store (h : Hub κ) (g : Nat) (o o' : Option Group) (free free' : List Nat) :
    (h.store g o free).store g o' free' = h.store g o' free' := by
  simp [store, BlockPool.store]

section
variable (hs : h.groups.get? g = some s)
include hs

theorem store_self : h.store g (some s) h.groups.free = h := by
  rw [store, BlockPool.store_self hs]

theorem block_of_get? : h.groups.cells[g]? = some (some s) :=
  BlockPool.get?_eq_some_iff.mp hs

theorem group_apply : (group g : Act ρ (Hub κ) Group) h = ⟨.ok s, h, []⟩ := by
  simp only [group, onGroups, zoom, BlockPool.get_live hs]

theorem ends_group (Q : Except Fault Group → Hub κ → Prop) :
    (group g : Act ρ (Hub κ) Group).Ends h Q ↔ Q (.ok s) h :=
  ends_of_eq (group_apply hs)

theorem modifyGroup_apply (f : Group → Group) :
    (modifyGroup g f : Act ρ (Hub κ) Unit) h = ⟨.ok (), h.store g (some (f s)) h.groups.free, []⟩ := by
  simp only [modifyGroup, onGroups, zoom, BlockPool.modify_live f hs]
  rfl

theorem ends_modifyGroup (f : Group → Group) (Q : Except Fault Unit → Hub κ → Prop) :
    (modifyGroup g f : Act ρ (Hub κ) Unit).Ends h Q ↔ Q (.ok ()) (h.store g (some (f s)) h.groups.free) :=
  ends_of_eq (modifyGroup_apply hs f)

theorem cloneGroup_apply : (cloneGroup g : Act ρ (Hub κ) Unit) h =
    ⟨.ok (), h.store g (some { s with handles := s.handles + 1 }) h.groups.free, []⟩ := by
  have hgroup : (discard (group g) : Act ρ (Hub κ) Unit) h = ⟨.ok (), h, []⟩ :=
    bind_quiet (fun _ => pure ()) (group_apply hs)
  unfold cloneGroup
  rw [bind_quiet _ hgroup, modifyGroup_apply hs]

theorem ends_cloneGroup (Q : Except Fault Unit → Hub κ → Prop) :
    (cloneGroup g : Act ρ (Hub κ) Unit).Ends h Q ↔
    Q (.ok ()) (h.store g (some { s with handles := s.handles + 1 }) h.groups.free) :=
  ends_of_eq (cloneGroup_apply hs)

theorem dropGroup_apply : (dropGroup g : Act ρ (Hub κ) Unit) h =
    ⟨.ok (), if s.handles = 1 then h.store g none (h.groups.free ++ [g])
      else h.store g (some { s with handles := s.handles - 1 }) h.groups.free, []⟩ := by
  unfold dropGroup
  rw [bind_quiet _ (group_apply hs), bind_quiet _ (modifyGroup_apply hs _)]
  by_cases hlast : s.handles = 1
  · have hless : (h.store g (some { s with handles := s.handles - 1 }) h.groups.free).groups.get? g =
        some { s with handles := s.handles - 1 } := by
      rw [get?_store (block_of_get? hs), if_pos rfl]
    have hrelease : (onGroups (BlockPool.release h.mode g) : Act ρ (Hub κ) (Option Group))
        (h.store g (some { s with handles := s.handles - 1 }) h.groups.free) =
        ⟨.ok (some { s with handles := s.handles - 1 }), h.store g none (h.groups.free ++ [g]), []⟩ := by
      simp only [onGroups, zoom, BlockPool.release_live hless]
      congr 1
      exact store_store h g _ none _ _
    rw [if_pos hlast, if_pos hlast, get_bind]
    exact bind_quiet (fun _ => pure ()) hrelease
  · rw [if_neg hlast, if_neg hlast]
    rfl

theorem ends_dropGroup (Q : Except Fault Unit → Hub κ → Prop) : (dropGroup g : Act ρ (Hub κ) Unit).Ends h Q ↔
    Q (.ok ()) (if s.handles = 1 then h.store g none (h.groups.free ++ [g])
      else h.store g (some { s with handles := s.handles - 1 }) h.groups.free) :=
  ends_of_eq (dropGroup_apply hs)

end

theorem ends_group_dead (hg : h.groups.get? g = none) {Q : Except Fault Group → Hub κ → Prop}
    (hQ : ∀ fault, Q (.error fault) h) : (group g : Act ρ (Hub κ) Group).Ends h Q := by
  obtain ⟨fault, hget⟩ := BlockPool.get_dead (ρ := ρ) hg
  simp only [group, onGroups, ends_zoom]
  exact (ends_of_eq hget).mpr (hQ fault)

section
variable (hg : h.groups.get? g = none) {Q : Except Fault Unit → Hub κ → Prop}
  (hQ : ∀ fault, Q (.error fault) h)
include hg hQ

theorem ends_cloneGroup_dead : (cloneGroup g : Act ρ (Hub κ) Unit).Ends h Q := by
  unfold cloneGroup
  rw [ends_bind, ends_discard]
  exact ends_group_dead hg hQ

theorem ends_dropGroup_dead : (dropGroup g : Act ρ (Hub κ) Unit).Ends h Q := by
  unfold dropGroup
  rw [ends_bind]
  exact ends_group_dead hg hQ

theorem ends_releaseGroup_dead : (releaseGroup g n : Act ρ (Hub κ) Unit).Ends h Q := by
  unfold releaseGroup
  rw [ends_bind]
  exact ends_group_dead hg hQ

end

theorem ends_newGroup (Q : Except Fault (Except Refusal Nat) → Hub κ → Prop) :
    (newGroup : Act ρ (Hub κ) (Except Refusal Nat)).Ends h Q ↔
      match h.groups.free with
      | [] => Q (.ok (.error (.blocksExhausted h.groups.capacity))) h
      | g :: free => Q (.ok (.ok g)) (h.store g (some .new) free) := by
  simp only [newGroup, onGroups, BlockPool.allocate, ends_bind, ends_zoom, ends_get, after_ok]
  cases hf : h.groups.free with
  | nil => rfl
  | cons g free => rfl

theorem ends_releaseGroup (hs : h.groups.get? g = some s) (Q : Except Fault Unit → Hub κ → Prop) :
    (releaseGroup g n : Act ρ (Hub κ) Unit).Ends h Q ↔
      if s.count < n then
        (blame h.mode (.overSignaled s.count.toInt n.toInt) (.overSignaled s.count.toInt n.toInt)
          : Act ρ (Hub κ) Unit).Ends h Q
      else if s.count = n then (wake g : Act ρ (Hub κ) Unit).Ends
        (h.store g (some { s with count := s.count - n }) h.groups.free) Q
      else Q (.ok ()) (h.store g (some { s with count := s.count - n }) h.groups.free) := by
  simp only [releaseGroup, ends_bind, ends_group hs, after_ok, ends_ite, ends_get, ends_modifyGroup hs]
  rfl

theorem ends_addGroup (hs : h.groups.get? g = some s) (Q : Except Fault Unit → Hub κ → Prop) :
    (addGroup g n : Act ρ (Hub κ) Unit).Ends h Q ↔
      if 0 < n then Q (.ok ()) (h.store g (some { s with count := s.count + n }) h.groups.free)
      else if n < 0 then (releaseGroup g (Group.units n) : Act ρ (Hub κ) Unit).Ends h Q
      else Q (.ok ()) h := by
  simp only [addGroup, ends_ite, ends_bind, ends_discard, ends_group hs, after_ok, ends_pure,
    ends_modifyGroup hs]

/-! ## Waking -/

def readyOf (links : Array Link) (fiber : Nat) : Ready :=
  match links[fiber]? with
  | some link => ⟨fiber, .ofIndex link.priority, .decode link.affinity⟩
  | none => ⟨fiber, .normal, .any⟩

@[simp] theorem fiber_readyOf (links : Array Link) (fiber : Nat) : (readyOf links fiber).fiber = fiber := by
  unfold readyOf
  split <;> rfl

theorem map_fiber_readyOf (links : Array Link) (xs : List Nat) :
    (xs.map (readyOf links)).map (·.fiber) = xs := by
  induction xs with
  | nil => rfl
  | cons x xs ih => rw [List.map_cons, List.map_cons, ih, fiber_readyOf]

theorem ends_makeReady {x : Nat} {link : Link} (hx : h.links[x]? = some link)
    (hl : h.lanes.Has (.decode link.affinity)) :
    (makeReady x : Act ρ (Hub κ) Unit).Ends h fun r h' => r = .ok () ∧
      ∃ lanes, h' = { h with lanes } ∧ h.lanes.pushReady (readyOf h.links x) = .ok lanes := by
  have hr : readyOf h.links x = ⟨x, .ofIndex link.priority,
      .decode link.affinity⟩ := by unfold readyOf; rw [hx]
  have ha : h.lanes.Has (readyOf h.links x).affinity := by rw [hr]; exact hl
  have hp := Lanes.pushReady_of_has ha
  simp only [makeReady, ends_bind, ends_get, after_ok, hx, ends_lift]
  rw [← hr, hp]
  exact ⟨rfl, _, rfl, rfl⟩

theorem ends_wakeAll {xs : List Nat}
    (hxs : ∀ x ∈ xs, ∃ link, h.links[x]? = some link ∧ h.lanes.Has (.decode link.affinity)) :
    (xs.forM makeReady : Act ρ (Hub κ) PUnit).Ends h fun r h' => r = .ok () ∧
      ∃ lanes, h' = { h with lanes } ∧ Lanes.Joined h.lanes (xs.map (readyOf h.links)) lanes := by
  induction xs generalizing h with
  | nil => exact ⟨rfl, _, rfl, Lanes.Joined.nil _⟩
  | cons x xs ih =>
    obtain ⟨link, hx, hl⟩ := hxs x List.mem_cons_self
    refine (ends_bind (makeReady x) (fun _ => xs.forM makeReady) _).mpr ?_
    refine (ends_makeReady hx hl).mono ?_
    rintro r h' ⟨hr, lanes, hh', hp⟩
    subst hr hh'
    rw [after_ok]
    have ha : h.lanes.Has (readyOf h.links x).affinity := by unfold readyOf; rw [hx]; exact hl
    have hsize := (Lanes.pushReady_ok ha hp).2.2
    refine (ih (h := { h with lanes }) fun y hy => ?_).mono ?_
    · obtain ⟨link', hy', hl'⟩ := hxs y (List.mem_cons_of_mem x hy)
      exact ⟨link', hy', (Lanes.has_of_size hsize _).mpr hl'⟩
    · rintro r h'' ⟨hr, lanes', hh'', hq⟩
      exact ⟨hr, lanes', hh'', hq.cons ha hp⟩

theorem fibersOf_some (h : Hub κ) (s : Group) : fibersOf h.links (some s) = h.waiters s := rfl

section
variable (ht : h.Tidy) (hs : h.groups.get? g = some s)
include ht hs

theorem links_of_waiters : ∀ x ∈ h.waiters s, ∃ link, h.links[x]? = some link ∧ h.lanes.Has
    (.decode link.affinity) := by
  intro x hx
  have hlt := (ht.linked g s hs).lt_size x hx
  have hlink := Array.getElem?_eq_getElem hlt
  exact ⟨_, hlink, ht.parked x (mem_parked.mpr ⟨g, by rwa [waitingOn_of_get? hs]⟩) _ hlink⟩

theorem ends_wake : (wake g : Act ρ (Hub κ) Unit).Ends h fun r h' => r = .ok () ∧
    ∃ lanes, h' = { h.store g (some { s with head := none }) h.groups.free with lanes } ∧
      Lanes.Joined h.lanes ((h.waiters s).map (readyOf h.links)) lanes := by
  simp only [wake, ends_bind, ends_group hs, after_ok, ends_modifyGroup hs, ends_get]
  have hxs : ∀ x ∈ h.waiters s, ∃ link,
    (h.store g (some { s with head := none }) h.groups.free).links[x]? = some link ∧
      h.lanes.Has (.decode link.affinity) := links_of_waiters ht hs
  exact ends_wakeAll hxs

theorem steady_wake {lanes : Lanes} (hj : Lanes.Joined h.lanes ((h.waiters s).map (readyOf h.links)) lanes) :
    Steady h { h.store g (some { s with head := none }) h.groups.free with lanes } ∧
      Whole h { h.store g (some { s with head := none }) h.groups.free with lanes } := by
  have hb := block_of_get? hs
  obtain ⟨htidy, -⟩ := tidy_store (o := some { s with head := none }) hb ht (ht.blocks.store_of_live hs _)
    fun _ hs' => Or.inl (by rw [← Option.some.inj hs'])
  have hwhole : Whole h { h.store g (some { s with head := none }) h.groups.free with lanes } := fun x => by
    have hp : (h.store g (some { s with head := none }) h.groups.free).parked.count x + _ =
        h.parked.count x + _ :=
      count_parked_store hb x
    have hr := (hj.readied.map (·.fiber)).count_eq x
    rw [List.map_append, List.count_append, map_fiber_readyOf] at hr
    have hn : fibersOf h.links (some { s with head := none }) = [] := chain_none _ _
    rw [hn, fibersOf_some, List.count_nil] at hp
    rw [count_idle, count_idle]
    show (h.store g (some { s with head := none }) h.groups.free).parked.count x +
      (lanes.readied.map (·.fiber)).count x = _
    omega
  refine ⟨⟨rfl, hj.queued, hj.size, ⟨htidy.blocks, htidy.linked, fun x hx link hl => ?_, fun r hr => ?_⟩,
    fun k => ?_, fun x => Nat.le_of_eq (hwhole x)⟩, hwhole⟩
  · exact (Lanes.has_of_size hj.size _).mpr (htidy.parked x hx link hl)
  · refine (Lanes.has_of_size hj.size _).mpr ?_
    rcases List.mem_append.mp (hj.readied.subset hr) with hw | hw
    · obtain ⟨x, hx, rfl⟩ := List.mem_map.mp hw
      obtain ⟨link, hlink, hl⟩ := links_of_waiters ht hs x hx
      unfold readyOf
      rw [hlink]; exact hl
    · exact ht.ready r hw
  · have hw : (h.store g (some { s with head := none }) h.groups.free).waitingOn k = _ := waitingOn_store hb k
    by_cases hgk : g = k
    · rw [if_pos hgk] at hw
      exact Or.inl (hw.trans (chain_none _ _))
    · rw [if_neg hgk] at hw
      exact Or.inr hw

theorem steady_renumber (count : Int32) (handles : UInt32) :
    Steady h (h.store g (some ⟨count, handles, s.head⟩) h.groups.free) ∧
      Whole h (h.store g (some ⟨count, handles, s.head⟩) h.groups.free) :=
  ⟨steady_store (block_of_get? hs) ht (ht.blocks.store_of_live hs _)
    fun _ hs' => Or.inr ⟨s, rfl, by rw [← Option.some.inj hs']⟩, whole_store (block_of_get? hs) rfl⟩

end

/-! ## Releasing -/

inductive Released (h : Hub κ) (g : Nat) (s : Group) (n : Int32) : Except Fault Unit → Hub κ → Prop
  | refused (hn : s.count < n) (hm : h.mode = .strict) :
      Released h g s n (.error (.overSignaled s.count.toInt n.toInt)) h
  | ignored (hn : s.count < n) (hm : h.mode = .lenient) : Released h g s n (.ok ()) h
  | counted (hn : n < s.count) :
      Released h g s n (.ok ()) (h.store g (some { s with count := s.count - n }) h.groups.free)
  | woken (hn : s.count = n) (lanes : Lanes)
      (hj : Lanes.Joined h.lanes ((h.waiters s).map (readyOf h.links)) lanes) :
      Released h g s n (.ok ()) { h.store g
        (some { s with count := 0, head := none }) h.groups.free with lanes }

section
variable (ht : h.Tidy) (hs : h.groups.get? g = some s)
include ht hs

theorem ends_releaseGroup_cases : (releaseGroup g n : Act ρ (Hub κ) Unit).Ends h (Released h g s n) := by
  rw [ends_releaseGroup hs]
  by_cases hlt : s.count < n
  · rw [if_pos hlt, ends_blame]
    cases hm : h.mode with
    | strict => exact .refused hlt hm
    | lenient => exact .ignored hlt hm
  rw [if_neg hlt]
  by_cases heq : s.count = n
  · rw [if_pos heq]
    have hs' : (h.store g (some { s with count := s.count - n }) h.groups.free).groups.get? g =
        some { s with count := s.count - n } := by
      rw [get?_store (block_of_get? hs), if_pos rfl]
    have ht' := (steady_renumber ht hs (s.count - n) s.handles).1.tidy
    refine (ends_wake ht' hs').mono ?_
    rintro r h' ⟨hr, lanes, hh', hj⟩
    rw [store_store] at hh'
    subst hr hh' heq
    rw [Int32.sub_self]
    exact .woken rfl lanes hj
  · rw [if_neg heq]
    refine .counted ?_
    rw [Int32.lt_iff_toInt_lt] at hlt ⊢
    have hne : s.count.toInt ≠ n.toInt := fun he => heq (Int32.toInt_inj.mp he)
    omega

end

theorem releaseGroup_over (hs : h.groups.get? g = some s) (hn : s.count < n) :
    (releaseGroup g n : Act ρ (Hub κ) Unit) h =
    ⟨if h.mode = .strict then .error (.overSignaled s.count.toInt n.toInt) else .ok (), h,
      [.notice (.overSignaled s.count.toInt n.toInt)]⟩ := by
  unfold releaseGroup
  rw [bind_of_ok _ (group_apply hs), if_pos hn, bind_of_ok _ (get_apply h)]
  cases hm : h.mode <;> rfl

theorem Released.steady {r : Except Fault Unit} {h' : Hub κ} (hr : Released h g s n r h') (ht : h.Tidy)
    (hs : h.groups.get? g = some s) : Steady h h' ∧ Whole h h' := by
  cases hr with
  | refused | ignored => exact ⟨.refl ht, fun _ => rfl⟩
  | counted => exact steady_renumber ht hs _ _
  | woken _ lanes hj =>
    obtain ⟨hst, hwh⟩ := steady_renumber ht hs 0 s.handles
    have hs' : (h.store g (some { s with count := 0 }) h.groups.free).groups.get? g =
        some { s with count := 0 } := by
      rw [get?_store (block_of_get? hs), if_pos rfl]
    have hwake := steady_wake hst.tidy hs' hj
    rw [store_store] at hwake
    exact ⟨hst.trans hwake.1, fun x => (hwake.2 x).trans (hwh x)⟩

/-! ## What acts on groups keep -/

section
variable (ht : h.Tidy)
include ht

theorem steady_new {free : List Nat} (hf : h.groups.free = g :: free) :
    Steady h (h.store g (some .new) free) ∧ Whole h (h.store g (some .new) free) := by
  have hb := ht.blocks.empty g (by rw [hf]; exact List.mem_cons_self)
  exact ⟨steady_store hb ht (ht.blocks.store_allocate hf _) fun _ hs =>
    Or.inl (by rw [← Option.some.inj hs]; rfl), whole_store hb (chain_none _ _)⟩

theorem steady_drop (hs : h.groups.get? g = some s) :
    Steady h (if s.handles = 1 then h.store g none (h.groups.free ++ [g])
      else h.store g (some { s with handles := s.handles - 1 }) h.groups.free) := by
  split
  · exact steady_store (block_of_get? hs) ht (ht.blocks.store_release hs) fun _ hn => by cases hn
  · exact (steady_renumber ht hs _ _).1

theorem newGroup_steady : (newGroup : Act ρ (Hub κ) (Except Refusal Nat)).Ends h fun _ h' => Steady h h' ∧
    Whole h h' := by
  rw [ends_newGroup]
  split
  · exact ⟨.refl ht, fun _ => rfl⟩
  · rename_i hf
    exact steady_new ht hf

theorem cloneGroup_steady (g : Nat) :
    (cloneGroup g : Act ρ (Hub κ) Unit).Ends h fun _ h' => Steady h h' ∧ Whole h h' := by
  cases hs : h.groups.get? g with
  | none => exact ends_cloneGroup_dead hs fun _ => ⟨.refl ht, fun _ => rfl⟩
  | some s =>
    rw [ends_cloneGroup hs]
    exact steady_renumber ht hs _ _

theorem dropGroup_steady (g : Nat) : (dropGroup g : Act ρ (Hub κ) Unit).Ends h fun _ h' => Steady h h' := by
  cases hs : h.groups.get? g with
  | none => exact ends_dropGroup_dead hs fun _ => .refl ht
  | some s =>
    rw [ends_dropGroup hs]
    exact steady_drop ht hs

theorem dropGroups_steady (gs : List Nat) :
    (dropGroups gs : Act ρ (Hub κ) Unit).Ends h fun _ h' => Steady h h' :=
  ends_forM (I := Steady h) (.refl ht) fun g _ _ hst =>
    (dropGroup_steady hst.tidy g).mono fun _ _ => hst.trans

theorem releaseGroup_steady (g : Nat) (n : Int32) :
    (releaseGroup g n : Act ρ (Hub κ) Unit).Ends h fun _ h' => Steady h h' ∧ Whole h h' := by
  cases hs : h.groups.get? g with
  | none => exact ends_releaseGroup_dead hs fun _ => ⟨.refl ht, fun _ => rfl⟩
  | some s => exact (ends_releaseGroup_cases ht hs).mono fun _ _ hr => hr.steady ht hs

theorem addGroup_steady (g : Nat) (n : Int32) :
    (addGroup g n : Act ρ (Hub κ) Unit).Ends h fun _ h' => Steady h h' ∧ Whole h h' := by
  have hsame : Steady h h ∧ Whole h h := ⟨.refl ht, fun _ => rfl⟩
  cases hs : h.groups.get? g with
  | none =>
    simp only [addGroup, ends_ite, ends_bind, ends_discard]
    split
    · exact ends_group_dead hs fun _ => hsame
    · split
      · exact ends_releaseGroup_dead hs fun _ => hsame
      · exact hsame
  | some s =>
    rw [ends_addGroup hs]
    split
    · exact steady_renumber ht hs _ _
    · split
      · exact releaseGroup_steady ht g _
      · exact hsame

theorem signalAndDrop_steady (g : Nat) :
    (signalAndDrop g : Act ρ (Hub κ) Unit).Ends h fun _ h' => Steady h h' := by
  simp only [signalAndDrop, ends_bind, ends_attempt, after_ok]
  refine (releaseGroup_steady ht g 1).mono ?_
  rintro r h' ⟨hst, -⟩
  refine (dropGroup_steady hst.tidy g).mono fun r' h'' hst' => ?_
  cases r' with
  | error fault => exact hst.trans hst'
  | ok _ => exact hst.trans hst'

end

end FiberScheduler.Hub
