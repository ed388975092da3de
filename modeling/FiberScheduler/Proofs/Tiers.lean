import FiberScheduler.Proofs.Keeping

/-!
# Queues, tier by tier

What acts on the hub do to the queue of each tier: a job comes to the queue of the
priority and the affinity it was submitted with, and a fiber to that of its link.
-/

namespace FiberScheduler

namespace Lanes

variable {ls ls' : Lanes} {job : Nat} {p : Priority} {a : Affinity}

theorem mem_collect_of_tier {β : Type} {f : Tier → List β} (hf : f .empty = []) {x : β}
    (hx : x ∈ f (ls.tier a p)) :
    x ∈ ls.collect f := by
  by_cases ha : ls.Has a
  · exact (collect_setTier_empty hf ha p).subset (List.mem_append_right _ hx)
  · rw [tier_of_not_has ha, hf] at hx
    cases hx

theorem tier_pushJob (h : ls.pushJob job p a = .ok ls') (b : Affinity) (q : Priority) :
    ls'.tier b q =
      { ls.tier b q with jobs := (ls.tier b q).jobs ++ if a = b ∧ p = q then [job] else [] } := by
  have ha := has_of_pushJob h
  rw [pushJob_of_has ha] at h
  obtain rfl := Except.ok.inj h
  rw [tier_setTier ha]
  by_cases hb : a = b ∧ p = q
  · obtain ⟨rfl, rfl⟩ := hb
    simp
  · have hb' : ¬(b = a ∧ q = p) := fun h => hb ⟨h.1.symm, h.2.symm⟩
    simp [hb, hb']

section
variable {sources : List Affinity} {ready : Ready}

theorem tier_take_job (h : ls.take sources = some (.job job p a, ls')) :
    a ∈ sources ∧ ls.tier a p = { ls'.tier a p with jobs := job :: (ls'.tier a p).jobs } ∧
      ∀ b q, ¬(b = a ∧ q = p) → ls'.tier b q = ls.tier b q := by
  obtain ⟨q, b, hb, hr | hj⟩ := take_cases h
  · obtain ⟨ready, hw⟩ := takeReady_work hr
    cases hw
  · obtain ⟨job', hw⟩ := takeJob_work hj
    cases hw
    unfold takeJob at hj
    cases hjobs : (ls.tier a p).jobs with
    | nil => rw [hjobs] at hj; cases hj
    | cons j rest =>
      rw [hjobs] at hj
      obtain ⟨rfl, rfl⟩ : j = job ∧ _ = ls' := by simpa using hj
      have ha : ls.Has a := has_of_tier_ne (p := p) fun he => by rw [he] at hjobs; cases hjobs
      refine ⟨hb, ?_, fun b q hne => ?_⟩
      · rw [tier_setTier ha, if_pos ⟨rfl, rfl⟩, ← hjobs]
      · rw [tier_setTier ha, if_neg hne]

theorem tier_take_fiber (h : ls.take sources = some (.fiber ready, ls')) :
    ∃ a p, a ∈ sources ∧ ls.tier a p = { ls'.tier a p with ready := ready :: (ls'.tier a p).ready } ∧
      ∀ b q, ¬(b = a ∧ q = p) → ls'.tier b q = ls.tier b q := by
  obtain ⟨p, a, hsource, hr | hj⟩ := take_cases h
  · unfold takeReady at hr
    cases hready : (ls.tier a p).ready with
    | nil => rw [hready] at hr; cases hr
    | cons r rest =>
      rw [hready] at hr
      obtain ⟨rfl, rfl⟩ : r = ready ∧ _ = ls' := by simpa using hr
      have ha : ls.Has a := has_of_tier_ne (p := p) fun he => by rw [he] at hready; cases hready
      refine ⟨a, p, hsource, ?_, fun b q hne => ?_⟩
      · rw [tier_setTier ha, if_pos ⟨rfl, rfl⟩, ← hready]
      · rw [tier_setTier ha, if_neg hne]
  · obtain ⟨job, hw⟩ := takeJob_work hj
    cases hw

theorem mem_of_take_job (h : ls.take sources = some (.job job p a, ls')) : job ∈ (ls.tier a p).jobs ∧
    ∀ b q, (∀ j ∈ (ls'.tier b q).jobs, j ∈ (ls.tier b q).jobs) ∧
      (ls'.tier b q).ready = (ls.tier b q).ready := by
  obtain ⟨-, htier, hothers⟩ := tier_take_job h
  refine ⟨by simp [htier], ?_⟩
  intro b q
  by_cases hbq : b = a ∧ q = p
  · obtain ⟨rfl, rfl⟩ := hbq
    rw [htier]
    exact ⟨fun j hj => List.mem_cons_of_mem job hj, rfl⟩
  · rw [hothers b q hbq]
    exact ⟨fun _ hj => hj, rfl⟩

theorem mem_of_take_fiber (h : ls.take sources = some (.fiber ready, ls')) :
    ∃ a p, a ∈ sources ∧ ready ∈ (ls.tier a p).ready ∧
    ∀ b q, (∀ r ∈ (ls'.tier b q).ready, r ∈ (ls.tier b q).ready) ∧
      (ls'.tier b q).jobs = (ls.tier b q).jobs := by
  obtain ⟨a, p, hsource, htier, hothers⟩ := tier_take_fiber h
  refine ⟨a, p, hsource, by simp [htier], ?_⟩
  intro b q
  by_cases hbq : b = a ∧ q = p
  · obtain ⟨rfl, rfl⟩ := hbq
    rw [htier]
    exact ⟨fun r hr => List.mem_cons_of_mem ready hr, rfl⟩
  · rw [hothers b q hbq]
    exact ⟨fun _ hr => hr, rfl⟩

end

end Lanes

namespace Hub

open Act

variable {ρ κ : Type} {h h' h'' : Hub κ} {g : Nat} {s : Group} {n : Int32} {job : Nat} {record : Job κ}
  {group : Option Nat} {p : Priority} {a : Affinity} {new : Option (Nat × Priority × Affinity)}

/-- How acts on a hub change its queues. No job comes to a queue but a new one, to that
of its terms, and no fiber but one that was parked, to that of its link. -/
structure Lodged (h h' : Hub κ) (new : Option (Nat × Priority × Affinity)) : Prop where
  jobs : ∀ a p, ∀ job ∈ (h'.lanes.tier a p).jobs, job ∈ (h.lanes.tier a p).jobs ∨ new = some (job, p, a)
  ready : ∀ a p, ∀ r ∈ (h'.lanes.tier a p).ready, r ∈ (h.lanes.tier a p).ready ∨
    r.fiber ∈ h.parked ∧ r = readyOf h.links r.fiber ∧ r.affinity = a ∧ r.priority = p

theorem Lodged.of_lanes (hl : h'.lanes = h.lanes) : Lodged h h' none where
  jobs := fun a p job hj => Or.inl (by rwa [hl] at hj)
  ready := fun a p r hr => Or.inl (by rwa [hl] at hr)

theorem Steady.mem_parked (hst : Steady h h') {x : Nat} (hx : x ∈ h'.parked) : x ∈ h.parked := by
  obtain ⟨g, hg⟩ := Hub.mem_parked.mp hx
  rcases hst.lists g with hn | he
  · rw [hn] at hg; cases hg
  · exact Hub.mem_parked.mpr ⟨g, he ▸ hg⟩

/-- Acts on groups come first, then what a submission does. -/
theorem Lodged.trans (hst : Steady h h') (a : Lodged h h' none) (b : Lodged h' h'' new) :
    Lodged h h'' new where
  jobs := fun c p job hj => by
    rcases b.jobs c p job hj with hj | hnew
    · rcases a.jobs c p job hj with hj | hnew
      · exact Or.inl hj
      · cases hnew
    · exact Or.inr hnew
  ready := fun c p r hr => by
    rcases b.ready c p r hr with hr | ⟨hx, he, hterms⟩
    · exact a.ready c p r hr
    · refine Or.inr ⟨hst.mem_parked hx, ?_, hterms⟩
      rw [hst.rest] at he
      exact he

/-! ## Acts on groups -/

theorem Released.lodged {r : Except Fault Unit} (hr : Released h g s n r h') (hs : h.groups.get? g = some s) :
    Lodged h h' none := by
  cases hr with
  | refused | ignored | counted => exact .of_lanes rfl
  | woken _ lanes hj =>
    refine ⟨fun a p job hj' => Or.inl ?_, fun a p r hr => ?_⟩
    · have htier := hj.tier a p
      dsimp only at hj'
      rw [htier] at hj'
      exact hj'
    · have htier := hj.tier a p
      dsimp only at hr
      rw [htier] at hr
      rcases List.mem_append.mp hr with hr | hr
      · exact Or.inl hr
      · obtain ⟨hmem, hterms⟩ := List.mem_filter.mp hr
        obtain ⟨x, hx, rfl⟩ := List.mem_map.mp hmem
        rw [fiber_readyOf]
        refine Or.inr ⟨Hub.mem_parked.mpr ⟨g, by rwa [waitingOn_of_get? hs]⟩, rfl, ?_⟩
        simpa using hterms

theorem newGroup_lodged (h : Hub κ) :
    (newGroup : Act ρ (Hub κ) (Except Refusal Nat)).Ends h fun _ h' => Lodged h h' none := by
  rw [ends_newGroup]
  split <;> exact .of_lanes rfl

theorem cloneGroup_lodged (h : Hub κ) (g : Nat) :
    (cloneGroup g : Act ρ (Hub κ) Unit).Ends h fun _ h' => Lodged h h' none := by
  cases hs : h.groups.get? g with
  | none => exact ends_cloneGroup_dead hs fun _ => .of_lanes rfl
  | some s =>
    rw [ends_cloneGroup hs]
    exact .of_lanes rfl

theorem dropGroup_lodged (h : Hub κ) (g : Nat) :
    (dropGroup g : Act ρ (Hub κ) Unit).Ends h fun _ h' => Lodged h h' none := by
  cases hs : h.groups.get? g with
  | none => exact ends_dropGroup_dead hs fun _ => .of_lanes rfl
  | some s =>
    rw [ends_dropGroup hs]
    split <;> exact .of_lanes rfl

section
variable (ht : h.Tidy)
include ht

theorem releaseGroup_lodged (g : Nat) (n : Int32) :
    (releaseGroup g n : Act ρ (Hub κ) Unit).Ends h fun _ h' => Lodged h h' none := by
  cases hs : h.groups.get? g with
  | none => exact ends_releaseGroup_dead hs fun _ => .of_lanes rfl
  | some s => exact (ends_releaseGroup_cases ht hs).mono fun _ _ hr => hr.lodged hs

theorem addGroup_lodged (g : Nat) (n : Int32) :
    (addGroup g n : Act ρ (Hub κ) Unit).Ends h fun _ h' => Lodged h h' none := by
  cases hs : h.groups.get? g with
  | none =>
    simp only [addGroup, ends_ite, ends_bind, ends_discard]
    split
    · exact ends_group_dead hs fun _ => .of_lanes rfl
    · split
      · exact ends_releaseGroup_dead hs fun _ => .of_lanes rfl
      · exact .of_lanes rfl
  | some s =>
    rw [ends_addGroup hs]
    split
    · exact .of_lanes rfl
    · split
      · exact releaseGroup_lodged ht g _
      · exact .of_lanes rfl

theorem dropGroups_lodged (gs : List Nat) :
    (dropGroups gs : Act ρ (Hub κ) Unit).Ends h fun _ h' => Lodged h h' none := by
  refine Ends.mono (ends_forM (I := fun h' => Steady h h' ∧ Lodged h h' none) ⟨.refl ht, .of_lanes rfl⟩ ?_)
    fun _ _ hl => hl.2
  intro g _ h₁ ⟨hst, hl⟩
  refine ((dropGroup_steady hst.tidy g).and (dropGroup_lodged h₁ g)).mono ?_
  rintro _ h₂ ⟨hst', hl'⟩
  exact ⟨hst.trans hst', hl.trans hst hl'⟩

theorem signalAndDrop_lodged (g : Nat) :
    (signalAndDrop g : Act ρ (Hub κ) Unit).Ends h fun _ h' => Lodged h h' none := by
  simp only [signalAndDrop, ends_bind, ends_attempt, after_ok]
  refine ((releaseGroup_steady ht g 1).and (releaseGroup_lodged ht g 1)).mono ?_
  rintro r h₁ ⟨⟨hst, -⟩, hl⟩
  refine (dropGroup_lodged h₁ g).mono fun r' h₂ hl' => ?_
  cases r' <;> exact hl.trans hst hl'

theorem withdraw_lodged (group : Option Nat) :
    (withdraw group : Act ρ (Hub κ) Unit).Ends h fun _ h' => Lodged h h' none := by
  cases group with
  | none => exact .of_lanes rfl
  | some g => exact signalAndDrop_lodged ht g

end

theorem enroll_lodged (h : Hub κ) (group : Option Nat) : Lodged h (h.enroll group) none :=
  .of_lanes (by rw [enroll_rest])

/-! ## Submissions and ends of runs -/

def struck (job : Nat) (p : Priority) (a : Affinity) :
    Except Fault (Except Refusal Unit) → Option (Nat × Priority × Affinity)
  | .ok (.ok ()) => some (job, p, a)
  | _ => none

theorem struck_eq_none {r : Except Fault (Except Refusal Unit)} (hr : r ≠ .ok (.ok ())) :
    struck job p a r = none := by
  unfold struck
  split
  · exact absurd rfl hr
  · rfl

theorem Scheduled.lodged {r : Except Fault (Except Refusal Unit)} (hs : Scheduled ρ h job group p a r h')
    (ht : h.Tidy) :
    Lodged h h' (struck job p a r) := by
  cases hs with
  | declined hr =>
    rw [struck_eq_none hr]
    exact .of_lanes rfl
  | stuck => exact .of_lanes rfl
  | refused _ _ hr hlive =>
    rw [struck_eq_none hr]
    have hst := (steady_enroll ht group).1
    exact (enroll_lodged h group).trans hst (withdraw_lodged (ρ := ρ) hst.tidy group)
  | @accepted record lanes hrec hfree hlive hopen hlanes =>
    have htier := Lanes.tier_pushJob hlanes
    refine ⟨fun b q j hj => ?_, fun b q r hr => Or.inl ?_⟩
    · have hj : j ∈ (lanes.tier b q).jobs := hj
      rw [htier b q] at hj
      rcases List.mem_append.mp hj with hj | hj
      · exact Or.inl hj
      · by_cases hb : a = b ∧ p = q
        · rw [if_pos hb] at hj
          rw [List.mem_singleton.mp hj, ← hb.1, ← hb.2]
          exact Or.inr rfl
        · rw [if_neg hb] at hj
          cases hj
    · have hr : r ∈ (lanes.tier b q).ready := hr
      rwa [htier b q] at hr

theorem Spawned.lodged {code : κ} {r : Except Fault (Except Refusal Unit)}
    (hs : Spawned ρ h code group p a r h') (ht : h.Tidy) :
    Lodged h h' (struck h.jobs.size p a r) := by
  have hnew := (calm_push ht (.new code false true)).1
  cases hs with
  | full => exact .of_lanes rfl
  | kept _ _ hs => exact ⟨(hs.lodged hnew.tidy).jobs, (hs.lodged hnew.tidy).ready⟩
  | forgotten _ hs => exact ⟨(hs.lodged hnew.tidy).jobs, (hs.lodged hnew.tidy).ready⟩

theorem endRun_lodged {worker : String} {held : List Nat} {panic : Option Fault} (ht : h.Tidy)
    (hrec : h.jobs[job]? = some record) :
    (endRun worker job held panic : Act ρ (Hub κ) Unit).Ends h fun _ h' => Lodged h h' none := by
  rw [endRun_eq, ends_bind]
  refine ((dropGroups_lodged ht held).and (dropGroups_steady ht held)).mono ?_
  rintro r h₁ ⟨hl₁, hst⟩
  cases r with
  | error fault => exact hl₁
  | ok _ =>
    have hrec₁ : h₁.jobs[job]? = some record := by rw [hst.rest]; exact hrec
    rw [after_ok, ends_finish hrec₁]
    let h₂ := ({ h₁ with counters := counted h₁.counters panic } : Hub κ).setJob job (closed record)
    have ht₂ : h₂.Tidy := hst.tidy.of_lanes rfl rfl (fun _ hr => hr) rfl
    refine (withdraw_lodged ht₂ record.completion).mono fun r h₃ hl₃ => ?_
    have hl : Lodged h h₃ none := hl₁.trans hst ⟨hl₃.jobs, hl₃.ready⟩
    cases r with
    | error fault => exact hl
    | ok _ => exact ⟨hl.jobs, hl.ready⟩

end Hub

end FiberScheduler
