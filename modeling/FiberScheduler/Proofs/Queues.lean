import FiberScheduler.Lanes
import FiberScheduler.Proofs.Gather

/-!
# The contents of the lanes

All queued jobs and all queued fibers in one list each. A write to one tier replaces
what that tier contributes; pushing adds one element, taking removes one.
-/

namespace FiberScheduler

variable {α β : Type}

namespace Lane

def collect (f : Tier → List β) (l : Lane) : List β :=
  f l.low ++ f l.normal ++ f l.high

theorem collect_setTier_perm (f : Tier → List β) (l : Lane) (p : Priority) (t : Tier) :
    ((l.setTier p t).collect f ++ f (l.tier p)).Perm (l.collect f ++ f t) := by
  have hswap : ∀ a b c : List β, (a ++ b ++ c).Perm (c ++ b ++ a) := fun a b c => by
    refine List.perm_append_comm.trans ?_
    rw [List.append_assoc]
    exact List.Perm.append_left c List.perm_append_comm
  cases p <;> simp only [collect, setTier, tier, List.append_assoc]
  · have := hswap (f t) (f l.normal ++ f l.high) (f l.low)
    simpa only [List.append_assoc] using this
  · have := List.Perm.append_left (f l.low) (hswap (f t) (f l.high) (f l.normal))
    simpa only [List.append_assoc] using this
  · exact List.Perm.append_left _ (List.Perm.append_left _ List.perm_append_comm)

theorem collect_setTier_of_eq (f : Tier → List β) (l : Lane) (p : Priority) (t : Tier)
    (h : f t = f (l.tier p)) : (l.setTier p t).collect f = l.collect f := by
  cases p <;> simp [collect, setTier, h, tier]

end Lane

namespace Lanes

def collect (f : Tier → List β) (ls : Lanes) : List β :=
  ls.any.collect f ++ ls.foreground.collect f ++ ls.background.collect f ++ gather (Lane.collect f) ls.own

def queued (ls : Lanes) : List Nat :=
  ls.collect (·.jobs)

def readied (ls : Lanes) : List Ready :=
  ls.collect (·.ready)

def Has (ls : Lanes) (a : Affinity) : Prop :=
  ls.check a = .ok ()

theorem has_worker {ls : Lanes} {i : Nat} : ls.Has (.worker i) ↔ i < ls.own.size := by
  unfold Has check
  by_cases h : i < ls.own.size <;> simp [h]

@[simp] theorem size_setTier {ls : Lanes} (a : Affinity) (p : Priority) (t : Tier) :
    (ls.setTier a p t).own.size = ls.own.size := by
  cases a <;> simp [setTier]

@[simp] theorem has_setTier {ls : Lanes} (a : Affinity) (p : Priority) (t : Tier) (b : Affinity) :
    (ls.setTier a p t).Has b ↔ ls.Has b := by
  cases b with
  | worker i => rw [has_worker, has_worker, size_setTier]
  | _ => exact Iff.rfl

theorem has_of_size {ls ls' : Lanes} (h : ls'.own.size = ls.own.size) (a : Affinity) :
    ls'.Has a ↔ ls.Has a := by
  cases a with
  | worker i => rw [has_worker, has_worker, h]
  | _ => exact Iff.rfl

section
variable {ls : Lanes} {a : Affinity} (h : ls.Has a) (p : Priority) (t : Tier)
include h

theorem tier_setTier (b : Affinity) (q : Priority) :
    (ls.setTier a p t).tier b q = if b = a ∧ q = p then t else ls.tier b q := by
  cases a with
  | worker i =>
    have hi := has_worker.mp h
    cases b with
    | worker j =>
      by_cases hij : i = j
      · subst hij
        simp only [tier, lane?, setTier, Array.getElem?_modify, Array.getElem?_eq_getElem hi]
        simp
      · simp [tier, lane?, setTier, hij, Ne.symm hij, Array.getElem?_modify]
    | _ => simp [tier, lane?, setTier]
  | _ => cases b <;> simp [tier, lane?, setTier]

theorem collect_setTier_perm (f : Tier → List β) :
    ((ls.setTier a p t).collect f ++ f (ls.tier a p)).Perm (ls.collect f ++ f t) := by
  -- Exchanging the middle of three parts exchanges the same elements of the whole.
  have hmid : ∀ {x y u v : List β} (b c : List β), (x ++ u).Perm (y ++ v) →
      (b ++ x ++ c ++ u).Perm (b ++ y ++ c ++ v) := by
    intro x y u v b c hxy
    have hflip : ∀ z w : List β, (b ++ z ++ c ++ w).Perm (b ++ c ++ (z ++ w)) := fun z w => by
      simp only [List.append_assoc]
      refine List.Perm.append_left b ?_
      rw [← List.append_assoc, ← List.append_assoc c]
      exact List.Perm.append_right w List.perm_append_comm
    exact (hflip x u).trans ((List.Perm.append_left (b ++ c) hxy).trans (hflip y v).symm)
  cases a with
  | any =>
    have := hmid [] (ls.foreground.collect f ++ ls.background.collect f ++ gather (Lane.collect f) ls.own)
      (ls.any.collect_setTier_perm f p t)
    simpa [collect, setTier, tier, lane?, List.append_assoc] using this
  | foreground =>
    have := hmid (ls.any.collect f) (ls.background.collect f ++ gather (Lane.collect f) ls.own)
      (ls.foreground.collect_setTier_perm f p t)
    simpa [collect, setTier, tier, lane?, List.append_assoc] using this
  | background =>
    have := hmid (ls.any.collect f ++ ls.foreground.collect f) (gather (Lane.collect f) ls.own)
      (ls.background.collect_setTier_perm f p t)
    simpa [collect, setTier, tier, lane?, List.append_assoc] using this
  | worker i =>
    obtain ⟨l, hl⟩ : ∃ l, ls.own[i]? = some l := ⟨_, Array.getElem?_eq_getElem (has_worker.mp h)⟩
    have hset := gather_set_perm (Lane.collect f) (l.setTier p t) hl
    have hlane := l.collect_setTier_perm f p t
    have hown : (gather (Lane.collect f) (ls.own.setIfInBounds i (l.setTier p t)) ++ f (l.tier p)).Perm
        (gather (Lane.collect f) ls.own ++ f t) := by
      refine (List.perm_append_right_iff (l.collect f)).mp ?_
      rw [List.append_assoc]
      refine (List.Perm.append_left _ List.perm_append_comm).trans ?_
      rw [← List.append_assoc]
      refine (List.Perm.append_right _ hset).trans ?_
      rw [List.append_assoc, List.append_assoc]
      exact List.Perm.append_left _ (hlane.trans List.perm_append_comm)
    have := hmid (ls.any.collect f ++ ls.foreground.collect f ++ ls.background.collect f) [] hown
    simpa [collect, setTier, tier, lane?, modify_eq_set _ hl, hl] using this

end

theorem collect_setTier_of_eq (f : Tier → List β) {ls : Lanes} {a : Affinity} {p : Priority} {t : Tier}
    (h : f t = f (ls.tier a p)) : (ls.setTier a p t).collect f = ls.collect f := by
  cases a with
  | worker i =>
    simp only [collect, setTier, tier, lane?] at h ⊢
    cases hl : ls.own[i]? with
    | none => rw [modify_eq_self _ hl]
    | some l =>
      rw [hl] at h
      rw [modify_eq_set _ hl, gather_set_of_eq _ hl (l.collect_setTier_of_eq f p t h)]
  | _ =>
    simp only [tier, lane?] at h
    simp only [collect, setTier, Lane.collect_setTier_of_eq f _ p t h]

theorem has_of_tier_ne {ls : Lanes} {a : Affinity} {p : Priority} (h : ls.tier a p ≠ .empty) : ls.Has a := by
  cases a with
  | worker i =>
    rw [has_worker]
    rcases Nat.lt_or_ge i ls.own.size with hi | hi; exact hi
    exact absurd (by simp [tier, lane?, Array.getElem?_eq_none hi]) h
  | _ => rfl

/-! ## Pushing -/

section
variable {ls ls' : Lanes} {job : Nat} {p : Priority} {a : Affinity} {ready : Ready}

theorem pushJob_of_has (h : ls.Has a) (job : Nat) (p : Priority) :
    ls.pushJob job p a = .ok (ls.setTier a p { ls.tier a p with jobs := (ls.tier a p).jobs ++ [job] }) := by
  unfold pushJob
  rw [show ls.check a = .ok () from h]
  rfl

theorem pushReady_of_has (h : ls.Has ready.affinity) :
    ls.pushReady ready = .ok (ls.setTier ready.affinity ready.priority
      { ls.tier ready.affinity ready.priority with
        ready := (ls.tier ready.affinity ready.priority).ready ++ [ready] }) := by
  unfold pushReady
  rw [show ls.check ready.affinity = .ok () from h]
  rfl

theorem has_of_pushJob (h : ls.pushJob job p a = .ok ls') : ls.Has a := by
  unfold pushJob at h
  cases hc : ls.check a with
  | ok _ => exact hc
  | error fault => rw [hc] at h; cases h

theorem pushJob_ok (h : ls.pushJob job p a = .ok ls') :
    ls'.queued.Perm (job :: ls.queued) ∧ ls'.readied = ls.readied ∧ ls'.own.size = ls.own.size := by
  have ha := has_of_pushJob h
  rw [pushJob_of_has ha] at h
  obtain rfl := Except.ok.inj h
  refine ⟨?_, collect_setTier_of_eq _ rfl, size_setTier _ _ _⟩
  have := collect_setTier_perm ha p ⟨(ls.tier a p).ready, (ls.tier a p).jobs ++ [job]⟩ (·.jobs)
  refine (List.perm_append_right_iff (ls.tier a p).jobs).mp (this.trans ?_)
  rw [← List.append_assoc, List.cons_append]
  exact List.perm_append_comm

theorem pushReady_ok (ha : ls.Has ready.affinity) (h : ls.pushReady ready = .ok ls') :
    ls'.readied.Perm (ready :: ls.readied) ∧ ls'.queued = ls.queued ∧ ls'.own.size = ls.own.size := by
  rw [pushReady_of_has ha] at h
  obtain rfl := Except.ok.inj h
  refine ⟨?_, collect_setTier_of_eq _ rfl, size_setTier _ _ _⟩
  have := collect_setTier_perm ha ready.priority ⟨(ls.tier ready.affinity ready.priority).ready ++ [ready],
    (ls.tier ready.affinity ready.priority).jobs⟩ (·.ready)
  refine (List.perm_append_right_iff (ls.tier ready.affinity ready.priority).ready).mp (this.trans ?_)
  rw [← List.append_assoc, List.cons_append]
  exact List.perm_append_comm

theorem tier_pushReady (ha : ls.Has ready.affinity) (h : ls.pushReady ready = .ok ls') (b : Affinity)
    (q : Priority) :
    ls'.tier b q = { ls.tier b q with
      ready := (ls.tier b q).ready ++ if ready.affinity = b ∧ ready.priority = q then [ready] else [] } := by
  rw [pushReady_of_has ha] at h
  obtain rfl := Except.ok.inj h
  rw [tier_setTier ha]
  by_cases hb : ready.affinity = b ∧ ready.priority = q
  · obtain ⟨rfl, rfl⟩ := hb; simp
  · have : ¬(b = ready.affinity ∧ q = ready.priority) := fun h => hb ⟨h.1.symm, h.2.symm⟩
    simp [hb, this]

end

/-! ## Pushing one after the other -/

structure Joined (ls : Lanes) (rs : List Ready) (ls' : Lanes) : Prop where
  readied : ls'.readied.Perm (rs ++ ls.readied)
  queued : ls'.queued = ls.queued
  size : ls'.own.size = ls.own.size
  tier : ∀ a p, ls'.tier a p =
    { ls.tier a p with ready := (ls.tier a p).ready ++ rs.filter fun r => r.affinity = a ∧ r.priority = p }

theorem Joined.nil (ls : Lanes) : Joined ls [] ls :=
  ⟨.refl _, rfl, rfl, fun a p => by simp⟩

theorem Joined.cons {ls ls' ls'' : Lanes} {r : Ready} {rs : List Ready} (hr : ls.Has r.affinity)
    (h : ls.pushReady r = .ok ls') (hrs : Joined ls' rs ls'') : Joined ls (r :: rs) ls'' := by
  obtain ⟨hready, hqueued, hsize⟩ := pushReady_ok hr h
  refine ⟨?_, hrs.queued.trans hqueued, hrs.size.trans hsize, fun a p => ?_⟩
  · exact hrs.readied.trans ((List.Perm.append_left rs hready).trans List.perm_middle)
  · rw [hrs.tier, tier_pushReady hr h]
    by_cases ha : r.affinity = a ∧ r.priority = p <;> simp [ha]

/-! ## Taking -/

section
variable {ls ls' : Lanes} {sources : List Affinity} {job : Nat} {p : Priority} {a : Affinity} {ready : Ready}

theorem takeReady_ok (h : ls.takeReady p a = some (.fiber ready, ls')) :
    ls.readied.Perm (ready :: ls'.readied) ∧ ls'.queued = ls.queued ∧ ls'.own.size = ls.own.size := by
  unfold takeReady at h
  cases hr : (ls.tier a p).ready with
  | nil => rw [hr] at h; cases h
  | cons r rest =>
    rw [hr] at h
    obtain ⟨rfl, rfl⟩ : r = ready ∧ _ = ls' := by simpa using h
    have ha : ls.Has a := has_of_tier_ne (p := p) fun he => by rw [he] at hr; cases hr
    refine ⟨?_, collect_setTier_of_eq _ rfl, size_setTier _ _ _⟩
    have := collect_setTier_perm ha p ⟨rest, (ls.tier a p).jobs⟩ (·.ready)
    rw [hr] at this
    refine (List.perm_append_right_iff rest).mp (this.symm.trans ?_)
    exact List.perm_middle

theorem takeJob_ok (h : ls.takeJob p a = some (.job job p a, ls')) :
    ls.queued.Perm (job :: ls'.queued) ∧ ls'.readied = ls.readied ∧ ls'.own.size = ls.own.size ∧
      ls.Has a := by
  unfold takeJob at h
  cases hj : (ls.tier a p).jobs with
  | nil => rw [hj] at h; cases h
  | cons j rest =>
    rw [hj] at h
    obtain ⟨rfl, rfl⟩ : j = job ∧ _ = ls' := by simpa using h
    have ha : ls.Has a := has_of_tier_ne (p := p) fun he => by rw [he] at hj; cases hj
    refine ⟨?_, collect_setTier_of_eq _ rfl, size_setTier _ _ _, ha⟩
    have := collect_setTier_perm ha p ⟨(ls.tier a p).ready, rest⟩ (·.jobs)
    rw [hj] at this
    refine (List.perm_append_right_iff rest).mp (this.symm.trans ?_)
    exact List.perm_middle

theorem take_cases {work : Work} (h : ls.take sources = some (work, ls')) :
    ∃ p, ∃ a ∈ sources, ls.takeReady p a = some (work, ls') ∨ ls.takeJob p a = some (work, ls') := by
  unfold take at h
  obtain ⟨p, _, hp⟩ := List.exists_of_findSome?_eq_some h
  rcases Option.or_eq_some_iff.mp hp with hr | ⟨_, hj⟩
  · obtain ⟨a, ha, hw⟩ := List.exists_of_findSome?_eq_some hr
    exact ⟨p, a, ha, Or.inl hw⟩
  · obtain ⟨a, ha, hw⟩ := List.exists_of_findSome?_eq_some hj
    exact ⟨p, a, ha, Or.inr hw⟩

theorem takeReady_work {work : Work} (h : ls.takeReady p a = some (work, ls')) :
    ∃ ready, work = .fiber ready := by
  unfold takeReady at h
  split at h
  · cases h
  · exact ⟨_, (congrArg Prod.fst (Option.some.inj h)).symm⟩

theorem takeJob_work {work : Work} (h : ls.takeJob p a = some (work, ls')) : ∃ job, work = .job job p a := by
  unfold takeJob at h
  split at h
  · cases h
  · exact ⟨_, (congrArg Prod.fst (Option.some.inj h)).symm⟩

theorem take_fiber (h : ls.take sources = some (.fiber ready, ls')) :
    ls.readied.Perm (ready :: ls'.readied) ∧ ls'.queued = ls.queued ∧ ls'.own.size = ls.own.size := by
  obtain ⟨p, a, _, hr | hj⟩ := take_cases h
  · exact takeReady_ok hr
  · obtain ⟨job, hw⟩ := takeJob_work hj
    cases hw

theorem take_job (h : ls.take sources = some (.job job p a, ls')) :
    ls.queued.Perm (job :: ls'.queued) ∧ ls'.readied = ls.readied ∧ ls'.own.size = ls.own.size ∧
      ls.Has a := by
  obtain ⟨q, b, _, hr | hj⟩ := take_cases h
  · obtain ⟨ready, hw⟩ := takeReady_work hr
    cases hw
  · obtain ⟨job', hw⟩ := takeJob_work hj
    cases hw
    exact takeJob_ok hj

end

/-! ## Single elements -/

theorem mem_lane_collect {f : Tier → List β} {l : Lane} {b : β} :
    b ∈ l.collect f ↔ ∃ p, b ∈ f (l.tier p) := by
  unfold Lane.collect
  rw [List.mem_append, List.mem_append]
  constructor
  · rintro ((h | h) | h)
    · exact ⟨.low, h⟩
    · exact ⟨.normal, h⟩
    · exact ⟨.high, h⟩
  · rintro ⟨p, h⟩
    cases p with
    | low => exact Or.inl (Or.inl h)
    | normal => exact Or.inl (Or.inr h)
    | high => exact Or.inr h

theorem exists_tier_of_mem {f : Tier → List β} {ls : Lanes} {b : β} (h : b ∈ ls.collect f) :
    ∃ a p, ls.Has a ∧ b ∈ f (ls.tier a p) := by
  unfold collect at h
  rw [List.mem_append, List.mem_append, List.mem_append] at h
  rcases h with ((h | h) | h) | h
  · obtain ⟨p, hp⟩ := mem_lane_collect.mp h
    exact ⟨.any, p, rfl, hp⟩
  · obtain ⟨p, hp⟩ := mem_lane_collect.mp h
    exact ⟨.foreground, p, rfl, hp⟩
  · obtain ⟨p, hp⟩ := mem_lane_collect.mp h
    exact ⟨.background, p, rfl, hp⟩
  · obtain ⟨i, l, hi, hl⟩ := mem_gather.mp h
    obtain ⟨p, hp⟩ := mem_lane_collect.mp hl
    refine ⟨.worker i, p, has_worker.mpr (Array.getElem?_eq_some_iff.mp hi).1, ?_⟩
    rwa [tier, lane?, hi]

theorem collect_setTier_empty {f : Tier → List β} (hf : f .empty = []) {ls : Lanes} {a : Affinity}
    (ha : ls.Has a) (p : Priority) :
    ((ls.setTier a p .empty).collect f ++ f (ls.tier a p)).Perm (ls.collect f) := by
  have := collect_setTier_perm ha p .empty f
  rwa [hf, List.append_nil] at this

theorem tier_of_not_has {ls : Lanes} {a : Affinity} (ha : ¬ls.Has a) (p : Priority) : ls.tier a p = .empty :=
  Classical.byContradiction fun hne => ha (has_of_tier_ne hne)

theorem collect_once [BEq β] [LawfulBEq β] {f : Tier → List β} (hf : f .empty = []) {ls : Lanes} {x : β}
    (h : (ls.collect f).count x = 1) :
    ∃ a p, (f (ls.tier a p)).count x = 1 ∧ ∀ b q, (b, q) ≠ (a, p) → x ∉ f (ls.tier b q) := by
  obtain ⟨a, p, ha, hx⟩ := exists_tier_of_mem (List.count_pos_iff.mp (by rw [h]; exact Nat.one_pos))
  have hpos := List.count_pos_iff.mpr hx
  have hcount := (collect_setTier_empty hf ha p).count_eq x
  rw [List.count_append, h] at hcount
  have hrest : x ∉ (ls.setTier a p .empty).collect f := List.count_eq_zero.mp (by omega)
  refine ⟨a, p, by omega, fun b q hne hb => hrest ?_⟩
  by_cases hhas : ls.Has b
  · have htier : (ls.setTier a p .empty).tier b q = ls.tier b q := by
      rw [tier_setTier ha, if_neg (fun he => hne (by rw [he.1, he.2]))]
    refine (collect_setTier_empty hf ((has_setTier a p .empty b).mpr hhas) q).subset
      (List.mem_append_right _ ?_)
    rwa [htier]
  · rw [tier_of_not_has hhas, hf] at hb
    cases hb

theorem queued_empty (workers : Nat) : (empty workers).queued = [] := by
  simp [empty, queued, collect, Lane.collect, Lane.empty, Tier.empty, gather_replicate]

theorem readied_empty (workers : Nat) : (empty workers).readied = [] := by
  simp [empty, readied, collect, Lane.collect, Lane.empty, Tier.empty, gather_replicate]

end Lanes

end FiberScheduler
