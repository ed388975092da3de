import FiberScheduler.Proofs.Places
import FiberScheduler.Proofs.Rollback

/-!
# The blocks of groups

Whatever is done to the groups, it is done to one block at a time: a group is made in the
block that has been free the longest, its numbers are changed, a handle is added or given
up, and the last handle empties the block. So the blocks in use and the free ones make up
the pool throughout, and a block is in use exactly as long as its group has a handle.
-/

namespace FiberScheduler

variable {κ μ ρ : Type}

/-! ## Pools -/

inductive Turnover (p : BlockPool Group) : BlockPool Group → Prop
  | refl : Turnover p p
  | made {q : BlockPool Group} {g : Nat} {free : List Nat} (h : Turnover p q) (hf : q.free = g :: free) :
      Turnover p (q.store g (some .new) free)
  | counted {q : BlockPool Group} {g : Nat} {s : Group} (h : Turnover p q) (hs : q.get? g = some s)
      (count : Int32) (head : Option Nat) : Turnover p (q.store g (some ⟨count, s.handles, head⟩) q.free)
  | cloned {q : BlockPool Group} {g : Nat} {s : Group} (h : Turnover p q) (hs : q.get? g = some s) :
      Turnover p (q.store g (some { s with handles := s.handles + 1 }) q.free)
  | dropped {q : BlockPool Group} {g : Nat} {s : Group} (h : Turnover p q) (hs : q.get? g = some s)
      (hmore : s.handles ≠ 1) :
      Turnover p (q.store g (some { s with handles := s.handles - 1 }) q.free)
  | freed {q : BlockPool Group} {g : Nat} {s : Group} (h : Turnover p q) (hs : q.get? g = some s)
      (hlast : s.handles = 1) :
      Turnover p (q.store g none (q.free ++ [g]))

theorem Turnover.trans {p q r : BlockPool Group} (a : Turnover p q) (b : Turnover q r) : Turnover p r := by
  induction b with
  | refl => exact a
  | made _ hf ih => exact ih.made hf
  | counted _ hs count head ih => exact ih.counted hs count head
  | cloned _ hs ih => exact ih.cloned hs
  | dropped _ hs hmore ih => exact ih.dropped hs hmore
  | freed _ hs hlast ih => exact ih.freed hs hlast

namespace BlockPool

variable {α : Type} {pool : BlockPool α} {g k : Nat} {o : Option α} {a : α} {free : List Nat}

structure Stocked (pool : BlockPool α) : Prop extends pool.Sound where
  all : ∀ g < pool.capacity, pool.get? g = none → g ∈ pool.free

theorem Stocked.store_of_live (h : pool.Stocked) (hg : pool.get? g = some a) (b : α) :
    (pool.store g (some b) pool.free).Stocked := by
  refine ⟨h.toSound.store_of_live hg b, fun k hk hn => ?_⟩
  rw [get?_store (lt_size_of_get? hg)] at hn
  split at hn
  · cases hn
  · exact h.all k (by rwa [capacity_store] at hk) hn

theorem Stocked.store_release (h : pool.Stocked) (hg : pool.get? g = some a) :
    (pool.store g none (pool.free ++ [g])).Stocked := by
  refine ⟨h.toSound.store_release hg, fun k hk hn => ?_⟩
  show k ∈ pool.free ++ [g]
  rw [get?_store (lt_size_of_get? hg)] at hn
  split at hn
  · rename_i hgk
    exact List.mem_append_right _ (hgk ▸ List.mem_singleton_self g)
  · exact List.mem_append_left _ (h.all k (by rwa [capacity_store] at hk) hn)

theorem Stocked.store_allocate (h : pool.Stocked) (hf : pool.free = g :: free) (b : α) :
    (pool.store g (some b) free).Stocked := by
  refine ⟨h.toSound.store_allocate hf b, fun k hk hn => ?_⟩
  rw [get?_store (h.front hf).1] at hn
  split at hn
  · cases hn
  · rename_i hgk
    have hm := h.all k (by rwa [capacity_store] at hk) hn
    rw [hf] at hm
    exact List.mem_of_ne_of_mem (Ne.symm hgk) hm

theorem Stocked.mem_free_iff (h : pool.Stocked) : g ∈ pool.free ↔ g < pool.capacity ∧ pool.get? g = none := by
  refine ⟨fun hg => ?_, fun ⟨hlt, hn⟩ => h.all g hlt hn⟩
  have he := h.empty g hg
  refine ⟨h.size_cells ▸ (Array.getElem?_eq_some_iff.mp he).1, ?_⟩
  rw [get?_eq_join, he]
  rfl

@[simp] theorem capacity_vacant (n : Nat) : (vacant n : BlockPool α).capacity = n :=
  Array.size_replicate

theorem stocked_vacant (n : Nat) : (vacant n : BlockPool α).Stocked := by
  refine ⟨sound_vacant, fun g hg _ => List.mem_range.mpr ?_⟩
  rwa [capacity_vacant] at hg

theorem Stocked.length_free (h : pool.Stocked) : pool.free.length + pool.toList.length = pool.capacity := by
  have hfree : pool.free.Perm ((List.range pool.capacity).filter fun g => (pool.get? g).isNone) := by
    refine (List.perm_ext_iff_of_nodup h.nodup (List.nodup_range.filter _)).mpr fun g => ?_
    rw [h.mem_free_iff, List.mem_filter, List.mem_range, Option.isNone_iff_eq_none]
  have hlive : pool.toList.length = (List.range pool.capacity).countP fun g => (pool.get? g).isSome := by
    rw [toList, List.length_filterMap_eq_countP]
  have hempty :
      ((List.range pool.capacity).countP fun g => (pool.get? g).isNone) = (List.range pool.capacity).countP
        fun g => decide ¬(pool.get? g).isSome = true :=
    List.countP_congr fun g _ => by simp
  rw [hfree.length_eq, ← List.countP_eq_length_filter, hempty, hlive, Nat.add_comm]
  exact ((List.range pool.capacity).length_eq_countP_add_countP _).symm.trans List.length_range

end BlockPool

theorem Turnover.stocked {p q : BlockPool Group} (h : Turnover p q) (hp : p.Stocked) :
    q.Stocked ∧ q.capacity = p.capacity := by
  induction h with
  | refl => exact ⟨hp, rfl⟩
  | made _ hf ih => exact ⟨ih.1.store_allocate hf _, (BlockPool.capacity_store ..).trans ih.2⟩
  | counted _ hs | cloned _ hs | dropped _ hs =>
    rename_i ih; exact ⟨ih.1.store_of_live hs _, (BlockPool.capacity_store ..).trans ih.2⟩
  | freed _ hs _ ih => exact ⟨ih.1.store_release hs, (BlockPool.capacity_store ..).trans ih.2⟩

/-! ## Acts on groups -/

namespace Hub

open Act

variable {h h' : Hub κ} {g : Nat} {s : Group} {n : Int32} {job : Nat} {group : Option Nat} {p : Priority}
  {a : Affinity}

theorem turnover_new : (newGroup : Act ρ (Hub κ) (Except Refusal Nat)).Ends h fun _ h' =>
    Turnover h.groups h'.groups := by
  rw [ends_newGroup]
  split
  · exact .refl
  · rename_i hf
    exact .made .refl hf

theorem turnover_clone (h : Hub κ) (g : Nat) :
    (cloneGroup g : Act ρ (Hub κ) Unit).Ends h fun _ h' => Turnover h.groups h'.groups := by
  cases hs : h.groups.get? g with
  | none => exact ends_cloneGroup_dead hs fun _ => .refl
  | some s =>
    rw [ends_cloneGroup hs]
    exact .cloned .refl hs

theorem turnover_drop (h : Hub κ) (g : Nat) :
    (dropGroup g : Act ρ (Hub κ) Unit).Ends h fun _ h' => Turnover h.groups h'.groups := by
  cases hs : h.groups.get? g with
  | none => exact ends_dropGroup_dead hs fun _ => .refl
  | some s =>
    rw [ends_dropGroup hs]
    split
    · exact .freed .refl hs ‹_›
    · exact .dropped .refl hs ‹_›

theorem turnover_drops (h : Hub κ) (gs : List Nat) :
    (dropGroups gs : Act ρ (Hub κ) Unit).Ends h fun _ h' => Turnover h.groups h'.groups :=
  ends_forM (I := fun h' : Hub κ => Turnover h.groups h'.groups) .refl fun g _ h' ht =>
    (turnover_drop h' g).mono fun _ _ hd => ht.trans hd

theorem Released.turnover {r : Except Fault Unit} (hr : Released h g s n r h')
    (hs : h.groups.get? g = some s) :
    Turnover h.groups h'.groups := by
  cases hr with
  | refused | ignored => exact .refl
  | counted => exact .counted .refl hs _ _
  | woken => exact .counted .refl hs _ _

theorem turnover_release (ht : h.Tidy) (g : Nat) (n : Int32) :
    (releaseGroup g n : Act ρ (Hub κ) Unit).Ends h fun _ h' => Turnover h.groups h'.groups := by
  cases hs : h.groups.get? g with
  | none => exact ends_releaseGroup_dead hs fun _ => .refl
  | some s => exact (ends_releaseGroup_cases ht hs).mono fun _ _ hr => hr.turnover hs

theorem turnover_add (ht : h.Tidy) (g : Nat) (n : Int32) :
    (addGroup g n : Act ρ (Hub κ) Unit).Ends h fun _ h' => Turnover h.groups h'.groups := by
  cases hs : h.groups.get? g with
  | none =>
    simp only [addGroup, ends_ite, ends_bind, ends_discard]
    split
    · exact ends_group_dead hs fun _ => .refl
    · split
      · exact ends_releaseGroup_dead hs fun _ => .refl
      · exact .refl
  | some s =>
    rw [ends_addGroup hs]
    split
    · exact .counted .refl hs _ _
    · split
      · exact turnover_release ht g _
      · exact .refl

theorem turnover_withdraw (ht : h.Tidy) (group : Option Nat) :
    (withdraw group : Act ρ (Hub κ) Unit).Ends h fun _ h' => Turnover h.groups h'.groups := by
  cases group with
  | none => exact .refl
  | some g =>
    simp only [withdraw, signalAndDrop, ends_bind, ends_attempt, after_ok]
    refine (turnover_release ht g 1).mono fun r h₁ ht₁ => (turnover_drop h₁ g).mono fun r' h₂ ht₂ => ?_
    cases r' with
    | error fault => exact ht₁.trans ht₂
    | ok _ => exact ht₁.trans ht₂

/-! ## Submissions and ends of runs -/

theorem turnover_enroll (h : Hub κ) (group : Option Nat) : Turnover h.groups (h.enroll group).groups := by
  cases group with
  | none => exact .refl
  | some g =>
    cases hs : h.groups.get? g with
    | none => simp only [enroll, hs]; exact .refl
    | some s =>
      -- one write, for the handle and the unit
      have hcloned : Turnover h.groups _ := .cloned .refl hs
      have hs' : (h.groups.store g (some
          { s with handles := s.handles + 1 }) h.groups.free).get? g = some _ :=
        (BlockPool.get?_store (BlockPool.lt_size_of_get? hs)).trans (if_pos rfl)
      have hboth := hcloned.counted hs' (s.count + 1) s.head
      rw [BlockPool.store_store] at hboth
      simp only [enroll, hs]
      exact hboth

theorem Scheduled.turnover {r : Except Fault (Except Refusal Unit)} (hs : Scheduled ρ h job group p a r h')
    (ht : h.Tidy) :
    Turnover h.groups h'.groups := by
  have henroll := turnover_enroll h group
  cases hs with
  | declined => exact .refl
  | stuck => exact .refl
  | refused => exact henroll.trans (turnover_withdraw (ρ := ρ) (steady_enroll ht group).1.tidy group)
  | accepted => exact henroll

theorem Spawned.turnover {code : κ} {r : Except Fault (Except Refusal Unit)}
    (hs : Spawned ρ h code group p a r h') (ht : h.Tidy) :
    Turnover h.groups h'.groups := by
  have hnew := (calm_push ht (.new code false true)).1
  cases hs with
  | full => exact .refl
  | kept _ _ hs => exact hs.turnover hnew.tidy
  | forgotten _ hs => exact hs.turnover hnew.tidy

theorem turnover_endRun {worker : String} {held : List Nat} {panic : Option Fault} {record : Job κ}
    (ht : h.Tidy) (hrec : h.jobs[job]? = some record) :
    (endRun worker job held panic : Act ρ (Hub κ) Unit).Ends h fun _ h' => Turnover h.groups h'.groups := by
  rw [endRun_eq, ends_bind]
  refine ((turnover_drops h held).and (dropGroups_steady ht held)).mono ?_
  rintro r h₁ ⟨ht₁, hst⟩
  cases r with
  | error fault => exact ht₁
  | ok _ =>
    have hrec₁ : h₁.jobs[job]? = some record := by rw [hst.rest]; exact hrec
    rw [after_ok, ends_finish hrec₁]
    refine (turnover_withdraw ?_ record.completion).mono fun r h₂ ht₂ => ?_
    · exact hst.tidy.of_lanes rfl rfl (fun _ hr => hr) rfl
    · cases r with
      | error fault => exact ht₁.trans ht₂
      | ok _ => exact ht₁.trans ht₂

end Hub

/-! ## Systems -/

namespace System

open Act

variable {σ : Type} {body : κ → Program κ μ ρ Unit} {s s' : System κ μ ρ} {worker : Nat}
  {ds : List (Deed κ μ ρ)}

theorem turnover_answer (hfit : Fit s.hub) (worker : Option Nat) (c : Call κ μ ρ) :
    (answer worker c).Ends s fun _ s' => Turnover s.hub.groups s'.hub.groups := by
  have hhub : ∀ {α : Type} {x : Act ρ (Hub κ) α}, x.Ends s.hub (fun _ h' => Turnover s.hub.groups h'.groups) →
      (onHub x : Act ρ (System κ μ ρ) α).Ends s fun _ s' => Turnover s.hub.groups s'.hub.groups :=
        fun hx => hx
  obtain ⟨ht, hcleared, hserved⟩ := hfit
  cases c with
  | newGroup => exact hhub Hub.turnover_new
  | cloneGroup g => exact hhub (Hub.turnover_clone s.hub g)
  | dropGroup g => exact hhub (Hub.turnover_drop s.hub g)
  | add g n => exact hhub (Hub.turnover_add ht g n)
  | count g =>
    refine hhub ?_
    rw [ends_bind]
    cases hs : s.hub.groups.get? g with
    | none => exact Hub.ends_group_dead hs fun _ => .refl
    | some t => rw [Hub.ends_group hs]; exact .refl
  | schedule job group p a =>
    exact hhub ((Hub.ends_schedule hcleared hserved job group p a).mono fun _ _ hs => hs.turnover ht)
  | addJob job p a =>
    exact hhub ((Hub.ends_addJob hcleared hserved job p a).mono fun _ _ hs => hs.turnover ht)
  | spawn code group p a =>
    exact hhub ((Hub.ends_spawn hcleared hserved code group p a).mono fun _ _ hs => hs.turnover ht)
  | giveGroup | takeGroup | isScheduled | place | counters | report | access => exact .refl

theorem turnover_perform (hfit : Fit s.hub) (worker : Option Nat) (held : List Nat) (c : Call κ μ ρ) :
    (perform worker held c).Ends s fun _ s' => Turnover s.hub.groups s'.hub.groups := by
  exact perform_of_answer .refl fun _ => turnover_answer hfit worker c

theorem turnover_ask (hfit : Fit s.hub) (c : Call κ μ ρ) :
    (ask c).Ends s fun _ s' => Turnover s.hub.groups s'.hub.groups := by
  exact ask_of_perform (fun _ _ _ => id) (turnover_perform hfit none s.kept c)

theorem Turn.turnover (h : s.Sound) (ht : Turn body s worker s' ds) :
    Turnover s.hub.groups s'.hub.groups := by
  cases ht with
  | @went w fiber run run' s₁ queued action hon hjob hcalled hdoes hsource =>
    rcases hsource with ⟨c, next, -, rfl, -⟩ | ⟨rfl, -⟩
    · exact turnover_perform h.fit (some worker) run.held c
    · exact .refl
  | parked _ _ _ hs => exact .counted .refl hs _ _
  | ended hon hover hrec hend => exact (Hub.turnover_endRun h.tidy hrec).pin hend
  | died hon hover hrec hend => exact (Hub.turnover_endRun h.tidy hrec).pin hend
  | _ => exact .refl

theorem turnover_move (body : κ → Program κ μ ρ Unit) (h : s.Sound) (m : Move κ μ ρ) :
    Turnover s.hub.groups (move body s m).hub.groups := by
  cases m with
  | work worker => exact (turn_of_sound h body worker).turnover h
  | call c => exact turnover_ask h.fit c
  | record code extended oneShot =>
    show Turnover s.hub.groups (onHub (Hub.addRecord (.new code extended oneShot)) s).state.hub.groups
    rw [record_rest s code extended oneShot]
    exact .refl
  | stop => exact .refl

/-! ## Runs -/

theorem groups_of_new {hub : Hub κ} {mode : Mode} {config : Config} (h : Hub.new mode config = .ok hub) :
    hub.groups = .vacant config.blockCount.toNat := by
  obtain ⟨fibers, -, h⟩ := bind_eq_ok h
  obtain ⟨-, -, h⟩ := bind_eq_ok h
  obtain ⟨groups, hgroups, h⟩ := bind_eq_ok h
  cases h
  exact BlockPool.eq_of_new hgroups

theorem stocked_play (h : s.Sound) (hs : s.hub.groups.Stocked) (moves : List (Move κ μ ρ)) :
    (play body s moves).hub.groups.Stocked ∧
      (play body s moves).hub.groups.capacity = s.hub.groups.capacity := by
  induction moves generalizing s with
  | nil => exact ⟨hs, rfl⟩
  | cons m moves ih =>
    obtain ⟨hs', hsize⟩ := (turnover_move body h m).stocked hs
    obtain ⟨hrest, hrestSize⟩ := ih (sound_move body h m) hs'
    exact ⟨hrest, hrestSize.trans hsize⟩

section
variable {mode : Mode} {host : Host} {config : Config} {memory : μ} {x : σ} {s₀ : System κ μ ρ}
  (hnew : ((new mode host config memory : Act ρ σ (Except Refusal (System κ μ ρ))) x).result = .ok (.ok s₀))
include hnew

theorem stocked_of_ok : s₀.hub.groups.Stocked ∧ s₀.hub.groups.capacity = config.blockCount.toNat := by
  have hgroups := groups_of_new (hub_of_ok hnew)
  rw [hgroups]
  exact ⟨BlockPool.stocked_vacant _, BlockPool.capacity_vacant _⟩

end

end System

/-! ## Handles and blocks -/

/-- The blocks of groups against a list of all handles there are: the groups in use are
those with a handle, each counts its handles, and the other blocks are free, each once. -/
structure Housed (pool : BlockPool Group) (handles : List Nat) (capacity : Nat) : Prop where
  live : ∀ g, pool.Live g ↔ g ∈ handles
  counts : ∀ g s, pool.get? g = some s → s.handles.toNat = handles.count g
  free : ∀ g, g ∈ pool.free ↔ g < capacity ∧ g ∉ handles
  once : pool.free.Nodup
  room : pool.free.length + pool.toList.length = capacity

namespace Hub

open Act

variable {h : Hub κ} {T : List Nat} {capacity g : Nat}

theorem Books.live_iff (hb : h.Books T) (g : Nat) : h.groups.Live g ↔ g ∈ T := by
  unfold BlockPool.Live
  cases hs : h.groups.get? g with
  | none => exact iff_of_false (by simp) (hb.dead g hs)
  | some s => exact iff_of_true rfl (hb.live g s hs).1

theorem Books.housed (hb : h.Books T) (hs : h.groups.Stocked) (hsize : h.groups.capacity = capacity)
    (hfew : ∀ g, T.count g < wordSize 32) : Housed h.groups T capacity where
  live := hb.live_iff
  counts := fun g s hg => by
    rw [(hb.live g s hg).2, UInt32.toNat_ofNat']
    exact Nat.mod_eq_of_lt (hfew g)
  free := fun g => by
    rw [hs.mem_free_iff, hsize, ← hb.live_iff, BlockPool.Live, Option.not_isSome_iff_eq_none]
  once := hs.nodup
  room := hs.length_free.trans hsize

section
variable (hs : h.groups.Stocked) (hsize : h.groups.capacity = capacity)
include hs hsize

theorem housed_of_books {α : Type} {x : Act ρ (Hub κ) α} {P : Except Fault α → Prop}
    (hx : x.Ends h fun r h' => P r ∧ Books h' T) (hturn : x.Ends h fun _ h' => Turnover h.groups h'.groups)
    (hfew : ∀ g, T.count g < wordSize 32) :
    x.Ends h fun r h' => P r ∧ Housed h'.groups T capacity := by
  refine (hx.and hturn).mono fun r h' ⟨⟨hr, hb'⟩, ht⟩ => ?_
  obtain ⟨hs', hsize'⟩ := ht.stocked hs
  exact ⟨hr, hb'.housed hs' (hsize'.trans hsize) hfew⟩

theorem free_eq_nil_iff : h.groups.free = [] ↔ h.groups.toList.length = capacity := by
  have hroom := hs.length_free
  rw [← List.length_eq_zero_iff]
  omega

end

theorem newGroup_full (hf : h.groups.free = []) : (newGroup : Act ρ (Hub κ) (Except Refusal Nat)) h =
    ⟨.ok (.error (.blocksExhausted h.groups.capacity)), h,
      [.notice (.blocksExhausted h.groups.capacity)]⟩ := by
  have hnone :
      (onGroups (BlockPool.allocate Group.new) : Act ρ (Hub κ) (Option Nat)) h = ⟨.ok none, h, []⟩ := by
    simp only [onGroups, zoom, BlockPool.allocate_full hf]
  unfold newGroup
  rw [bind_quiet _ hnone]
  rfl

theorem newGroup_apply {free : List Nat} (hf : h.groups.free = g :: free) :
    (newGroup : Act ρ (Hub κ) (Except Refusal Nat)) h = ⟨.ok (.ok g), h.store g (some .new) free, []⟩ := by
  have hsome : (onGroups (BlockPool.allocate Group.new) : Act ρ (Hub κ) (Option Nat)) h =
      ⟨.ok (some g), h.store g (some .new) free, []⟩ := by
    simp only [onGroups, zoom, BlockPool.allocate_apply hf]
    rfl
  unfold newGroup
  rw [bind_quiet _ hsome]
  rfl

theorem newGroup_housed (ht : h.Tidy) (hb : h.Books T) (hs : h.groups.Stocked)
    (hsize : h.groups.capacity = capacity) (hfew : ∀ g, T.count g < wordSize 32) {free : List Nat}
    (hf : h.groups.free = g :: free) :
    g ∉ T ∧ (h.store g (some .new) free).groups.get? g = some ⟨0, 1, none⟩ ∧
      (h.store g (some .new) free).waitingOn g = [] ∧
      Housed (h.store g (some .new) free).groups (g :: T) capacity := by
  obtain ⟨hlt, hn⟩ := hs.front hf
  have hblock := hs.empty g (by rw [hf]; exact List.mem_cons_self)
  have hgT : g ∉ T := hb.dead g hn
  refine ⟨hgT, (BlockPool.get?_store hlt).trans (if_pos rfl), ?_, ?_⟩
  · rw [waitingOn_store hblock, if_pos rfl]
    exact chain_none _ _
  · have hbooks := newGroup_books (ρ := Unit) ht hb
    unfold Ends at hbooks
    rw [newGroup_apply hf] at hbooks
    obtain ⟨answer, hanswer, hb'⟩ := hbooks
    obtain rfl : Except.ok g = answer := Except.ok.inj hanswer
    obtain ⟨hs', hsize'⟩ := (Turnover.refl.made hf).stocked hs
    refine hb'.housed hs' (hsize'.trans hsize) fun k => ?_
    show (g :: T).count k < wordSize 32
    by_cases hk : g = k
    · rw [← hk, List.count_cons_self, List.count_eq_zero.mpr hgT]
      decide
    · rw [List.count_cons_of_ne hk]
      exact hfew k

theorem dropGroups_booked {gs : List Nat} (hb : Books h (gs ++ T))
    (hfew : ∀ g, (gs ++ T).count g < wordSize 32) :
    (dropGroups gs : Act ρ (Hub κ) Unit).Ends h fun r h' => r = .ok () ∧ Books h' T := by
  induction gs generalizing h with
  | nil => exact ⟨rfl, hb⟩
  | cons g gs ih =>
    have hless : ∀ k, (gs ++ T).count k < wordSize 32 := fun k =>
      Nat.lt_of_le_of_lt ((List.sublist_cons_self g (gs ++ T)).count_le k) (hfew k)
    refine (ends_bind (dropGroup g) (fun _ => dropGroups gs) _).mpr ?_
    refine (dropGroup_booked hb (hless g)).mono ?_
    rintro _ h' ⟨rfl, hb'⟩
    exact ih hb' hless

end Hub

namespace System

open Act

variable {σ : Type} {body : κ → Program κ μ ρ Unit} {s : System κ μ ρ}

section
variable {mode : Mode} {host : Host} {config : Config} {memory : μ} {x : σ} {s₀ : System κ μ ρ}
  (hnew : ((new mode host config memory : Act ρ σ (Except Refusal (System κ μ ρ))) x).result = .ok (.ok s₀))
  {moves : List (Move κ μ ρ)} (hplay : play body s₀ moves = s)
  (hfew : Along body (fun s _ => FewHandles s) s₀ moves) (hlast : FewHandles s)
include hnew hplay hfew hlast

/-- In every run without 2^32 handles of one group, also after the stop, the groups in use
are those with a handle, each counts its handles, and the other blocks are free. Every move
works on the blocks one by one, and empties one only with the last handle. A group that is
made gets a block nobody has a handle of, with count zero and nobody waiting; where all
blocks are in use it is refused, and nothing changes. Another handle of a group, and fewer
handles of groups, leave the blocks as they should be for the handles there are then. -/
theorem blocks_live_by_handles : Housed s.hub.groups s.handles config.blockCount.toNat ∧
    (∀ m, Turnover s.hub.groups (move body s m).hub.groups) ∧
    (∀ o, (Hub.newGroup : Act ρ (Hub κ) (Except Refusal Nat)) s.hub = o →
      (s.hub.groups.toList.length = config.blockCount.toNat →
        o = ⟨.ok (.error (.blocksExhausted config.blockCount.toNat)), s.hub,
        [.notice (.blocksExhausted config.blockCount.toNat)]⟩) ∧
      (s.hub.groups.toList.length ≠ config.blockCount.toNat → ∃ g free, s.hub.groups.free = g :: free ∧
        g ∉ s.handles ∧
        o = ⟨.ok (.ok g), s.hub.store g (some .new) free, []⟩ ∧ o.state.groups.get? g = some ⟨0, 1, none⟩ ∧
        o.state.waitingOn g = [] ∧ Housed o.state.groups (g :: s.handles) config.blockCount.toNat)) ∧
    (∀ g ∈ s.handles, s.handles.count g + 1 < wordSize 32 →
      ∀ o, (Hub.cloneGroup g : Act ρ (Hub κ) Unit) s.hub = o →
      o.result = .ok () ∧ Housed o.state.groups (g :: s.handles) config.blockCount.toNat) ∧
    (∀ g T, s.handles.Perm (g :: T) → ∀ o, (Hub.dropGroup g : Act ρ (Hub κ) Unit) s.hub = o →
      o.result = .ok () ∧ o.log = [] ∧
        o.state.groups.free = (if g ∈ T then s.hub.groups.free else s.hub.groups.free ++ [g]) ∧
      Housed o.state.groups T config.blockCount.toNat) ∧
    ∀ gs T, s.handles.Perm (gs ++ T) → ∀ o, (Hub.dropGroups gs : Act ρ (Hub κ) Unit) s.hub = o →
      o.result = .ok () ∧ Housed o.state.groups T config.blockCount.toNat := by
  have hplaced := hplay ▸ (new_of_ok hnew).placed_play hfew
  have hbooks := hplaced.ledger.books
  have hstocked : s.hub.groups.Stocked ∧ s.hub.groups.capacity = config.blockCount.toNat := by
    obtain ⟨hs, hsize⟩ := stocked_of_ok hnew
    have hkept : (play body s₀ moves).hub.groups.Stocked ∧ _ := stocked_play (new_of_ok hnew).sound hs moves
    exact hplay ▸ ⟨hkept.1, hkept.2.trans hsize⟩
  obtain ⟨hs, hsize⟩ := hstocked
  have ht := hplaced.sound.tidy
  have hpart : ∀ gs T, s.handles.Perm (gs ++ T) → ∀ g, T.count g < wordSize 32 := by
    intro gs T hp g
    refine Nat.lt_of_le_of_lt ?_ (hlast g)
    rw [hp.count_eq]
    exact (List.sublist_append_right gs T).count_le g
  refine ⟨hbooks.housed hs hsize hlast, turnover_move body hplaced.sound, ?_, ?_, ?_, ?_⟩
  · rintro o rfl
    refine ⟨fun hfull => ?_, fun hroom => ?_⟩
    · rw [Hub.newGroup_full ((Hub.free_eq_nil_iff hs hsize).mpr hfull), hsize]
    · cases hf : s.hub.groups.free with
      | nil => exact absurd ((Hub.free_eq_nil_iff hs hsize).mp hf) hroom
      | cons g free =>
        obtain ⟨hgT, hstate, hnobody, hhoused⟩ := Hub.newGroup_housed ht hbooks hs hsize hlast hf
        rw [Hub.newGroup_apply hf]
        exact ⟨g, free, rfl, hgT, rfl, hstate, hnobody, hhoused⟩
  · rintro g hg hmore o rfl
    refine Hub.housed_of_books hs hsize (Hub.cloneGroup_books hbooks hg)
      (Hub.turnover_clone s.hub g) fun k => ?_
    -- One handle more of this group, and as many of any other.
    by_cases hk : g = k
    · rw [← hk, List.count_cons_self]
      exact hmore
    · rw [List.count_cons_of_ne hk]
      exact hlast k
  · rintro g T hp o rfl
    have hless : ∀ k, T.count k < wordSize 32 := hpart [g] T hp
    have hb := hbooks.perm hp
    obtain ⟨t, hg⟩ := hb.get?_of_mem List.mem_cons_self
    have hlastHandle : t.handles = 1 ↔ g ∉ T := by
      rw [(hb.live g t hg).2, List.count_cons_self, Hub.ofNat_succ_eq_one_iff (hless g), List.count_eq_zero]
    obtain ⟨hr, hhoused⟩ := Hub.housed_of_books (ρ := ρ) hs hsize (Hub.dropGroup_booked hb (hless g))
      (Hub.turnover_drop s.hub g) hless
    refine ⟨hr, ?_, ?_, hhoused⟩
    · rw [Hub.dropGroup_apply hg]
    · rw [Hub.dropGroup_apply hg]
      by_cases hgT : g ∈ T
      · rw [if_pos hgT, if_neg (mt hlastHandle.mp (not_not_intro hgT))]
        rfl
      · rw [if_neg hgT, if_pos (hlastHandle.mpr hgT)]
        rfl
  · rintro gs T hp o rfl
    have hfewParts : ∀ g, (gs ++ T).count g < wordSize 32 := fun g => hp.count_eq g ▸ hlast g
    exact Hub.housed_of_books hs hsize (Hub.dropGroups_booked (hbooks.perm hp) hfewParts)
      (Hub.turnover_drops s.hub gs) (hpart gs T hp)

end

/-- Both blocks are in use again after the stop: no third group is made, and a handle that
is given up frees its block. -/
theorem stopped_system_reuses_blocks :
    let moves : List (Move Bool Unit Unit) := draining ++ [.call .newGroup, .call .newGroup]
    let s := play smallBody small moves
    Along smallBody (fun s _ => FewHandles s) small moves ∧ FewHandles s ∧ s.handles = [0, 1] ∧
      (Hub.newGroup : Act Unit (Hub Bool) (Except Refusal Nat)) s.hub =
        ⟨.ok (.error (.blocksExhausted 2)), s.hub, [.notice (.blocksExhausted 2)]⟩ ∧
      ((Hub.dropGroup 1 : Act Unit (Hub Bool) Unit) s.hub).state.groups.free = [1] := by
  intro moves s
  have hfew : Along smallBody (fun s _ => FewHandles s) small moves := by decide +kernel
  have hlast : FewHandles s := by decide +kernel
  have hhandles : s.handles = [0, 1] := by decide +kernel
  obtain ⟨-, -, hmade, -, hdropped, -⟩ := blocks_live_by_handles new_small (s := s) rfl hfew hlast
  refine ⟨hfew, hlast, hhandles, (hmade _ rfl).1 (by decide +kernel), ?_⟩
  have hdrop := (hdropped 1 [0] (by rw [hhandles]; decide) _ rfl).2.2.1
  rw [hdrop]
  decide +kernel

end System

end FiberScheduler
