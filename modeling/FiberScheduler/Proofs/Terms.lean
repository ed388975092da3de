import FiberScheduler.Proofs.Requests
import FiberScheduler.Proofs.Tiers
import FiberScheduler.Proofs.Wakeups

/-!
# The terms of jobs

A job is submitted with a priority and an affinity. They are kept for the whole run: in the
queues, when the run is passed on, on every worker that goes on with it, and in the links
of the waits in between.
-/

namespace FiberScheduler

variable {κ μ ρ : Type}

/-- The job that a call with this answer got into a queue, with its terms; a fresh one has
the index given. -/
def Call.bargain (fresh : Nat) : (c : Call κ μ ρ) → Except Fault c.Answer → Option (Nat × Priority × Affinity)
  | .schedule job _ p a, r => Hub.struck job p a r
  | .addJob job p a, r => Hub.struck job p a r
  | .spawn _ _ p a, r => Hub.struck fresh p a r
  | _, _ => none

theorem Call.bargain_error (fresh : Nat) (c : Call κ μ ρ) (fault : Fault) :
    c.bargain fresh (.error fault) = none := by
  cases c <;> rfl

theorem Hub.taken_of_struck {job j : Nat} {group : Option Nat} {p q : Priority} {a b : Affinity}
    {r : Except Fault (Except Refusal Unit)} (h : Hub.struck job p a r = some (j, q, b)) :
      Hub.taken job group r = some (j, group) := by
  obtain fault | refusal | ⟨⟩ := r <;> cases h
  rfl

theorem Call.accepted_of_bargain {fresh job : Nat} {c : Call κ μ ρ} {r : Except Fault c.Answer} {p : Priority}
    {a : Affinity} (h : c.bargain fresh r = some (job, p, a)) :
      ∃ group, c.accepted fresh r = some (job, group) := by
  cases c with
  | schedule | addJob | spawn => exact ⟨_, Hub.taken_of_struck h⟩
  | _ => cases h

namespace System

open Act

variable {σ : Type} {body : κ → Program κ μ ρ Unit} {s s' : System κ μ ρ} {worker job : Nat} {w : Worker}
  {ds : List (Deed κ μ ρ)} {ts us : List (Nat × Priority × Affinity)}
  {entry : Option (Nat × Priority × Affinity)}

def bargains (s : System κ μ ρ) (m : Move κ μ ρ) : List (Nat × Priority × Affinity) :=
  ((s.callOf m).bind fun q => q.1.bargain s.hub.jobs.size q.2).toList

def agreed (ts : List (Nat × Priority × Affinity)) (job : Nat) : Option (Priority × Affinity) :=
  ts.reverse.findSome? fun t => if t.1 = job then some t.2 else none

theorem agreed_append (ts us : List (Nat × Priority × Affinity)) (job : Nat) :
    agreed (ts ++ us) job = (agreed us job).or (agreed ts job) := by
  unfold agreed
  rw [List.reverse_append, List.findSome?_append]

theorem agreed_new (p : Priority) (a : Affinity) : agreed (ts ++ [(job, p, a)]) job = some (p, a) := by
  rw [agreed_append]
  simp [agreed]

theorem agreed_other (hne : ∀ p a, entry ≠ some (job, p, a)) :
    agreed (ts ++ entry.toList) job = agreed ts job := by
  rw [agreed_append]
  cases entry with
  | none => rfl
  | some t =>
    have hj : t.1 ≠ job := by
      rintro rfl
      exact hne t.2.1 t.2.2 rfl
    simp [agreed, hj]

/-! ## Calls -/

theorem answer_lodged (hfit : Fit s.hub) (i : Option Nat) (c : Call κ μ ρ) :
    (answer i c).Ends s fun r s' => Hub.Lodged s.hub s'.hub (c.bargain s.hub.jobs.size r) := by
  have hhub : ∀ {α : Type} {x : Act ρ (Hub κ) α} {f : Except Fault α → Option (Nat × Priority × Affinity)},
      x.Ends s.hub (fun r h' => Hub.Lodged s.hub h' (f r)) →
      (onHub x : Act ρ (System κ μ ρ) α).Ends s fun r s' => Hub.Lodged s.hub s'.hub (f r) := fun hx => hx
  obtain ⟨ht, hcleared, hserved⟩ := hfit
  cases c with
  | newGroup => exact hhub (Hub.newGroup_lodged s.hub)
  | cloneGroup g => exact hhub (Hub.cloneGroup_lodged s.hub g)
  | dropGroup g => exact hhub (Hub.dropGroup_lodged s.hub g)
  | add g n => exact hhub (Hub.addGroup_lodged ht g n)
  | count g =>
    refine hhub (f := fun _ => none) ?_
    rw [ends_bind]
    cases hs : s.hub.groups.get? g with
    | none => exact Hub.ends_group_dead hs fun _ => .of_lanes rfl
    | some t => rw [Hub.ends_group hs]; exact .of_lanes rfl
  | schedule job group p a =>
    exact hhub ((Hub.ends_schedule hcleared hserved job group p a).mono fun r h' hs => hs.lodged ht)
  | addJob job p a => exact hhub ((Hub.ends_addJob hcleared hserved job p a).mono fun r h' hs => hs.lodged ht)
  | spawn code group p a =>
    exact hhub ((Hub.ends_spawn hcleared hserved code group p a).mono fun r h' hs => hs.lodged ht)
  | giveGroup | takeGroup | isScheduled | place | counters | report | access => exact .of_lanes rfl

theorem perform_lodged (hfit : Fit s.hub) (i : Option Nat) (held : List Nat) (c : Call κ μ ρ) :
    (perform i held c).Ends s fun r s' => Hub.Lodged s.hub s'.hub (c.bargain s.hub.jobs.size r) := by
  refine perform_of_answer ?_ fun _ => answer_lodged hfit i c
  rw [Call.bargain_error]
  exact .of_lanes rfl

theorem run?_of_set {fiber : Nat} {run : Option (Run κ μ ρ)}
    (hruns : s'.runs = s.runs.setIfInBounds fiber run) (hlt : fiber < s.runs.size) (x : Nat) :
      s'.run? x = if fiber = x then run else s.run? x := by
  rw [← run?_putRun hlt]
  unfold run?
  rw [hruns]
  rfl

theorem lt_runs_of_run? {fiber : Nat} {run : Run κ μ ρ} (hrun : s.run? fiber = some run) :
    fiber < s.runs.size :=
  (Array.getElem?_eq_some_iff.mp (run?_eq_some_iff.mp hrun)).1

/-! ## Where the terms are -/

def AtHand (s : System κ μ ρ) (w : Worker) (job : Nat) : Prop :=
  w.handoff = some job ∨ ∃ fiber run, w.current = some fiber ∧ s.run? fiber = some run ∧ run.job = job

structure Suits (s : System κ μ ρ) (ts : List (Nat × Priority × Affinity)) (i : Nat) (w : Worker)
    (job : Nat) : Prop where
  terms : agreed ts job = some (w.priority, w.affinity)
  able : s.hub.crew.canRun i w.affinity = true

structure Termed (s : System κ μ ρ) (ts : List (Nat × Priority × Affinity)) : Prop where
  jobs : ∀ a p, ∀ job ∈ (s.hub.lanes.tier a p).jobs, agreed ts job = some (p, a)
  ready : ∀ a p, ∀ r ∈ (s.hub.lanes.tier a p).ready, r.affinity = a ∧ r.priority = p ∧
    ∀ run, s.run? r.fiber = some run → agreed ts run.job = some (p, a)
  parked : ∀ x ∈ s.hub.parked, ∀ run, s.run? x = some run →
    ∃ next p a, s.hub.links[x]? = some (.make next p a) ∧ Affinity.decode a.encode = a ∧
      agreed ts run.job = some (p, a)
  hands : ∀ (i : Nat) w job, s.workers[i]? = some w → s.AtHand w job → Suits s ts i w job

theorem readyOf_make {links : Array Link} {x : Nat} {next : Option Nat} {p : Priority} {a : Affinity}
    (hx : links[x]? = some (.make next p a)) (ha : Affinity.decode a.encode = a) :
      Hub.readyOf links x = ⟨x, p, a⟩ := by
  unfold Hub.readyOf
  rw [hx]
  simp only [Link.make, Priority.ofIndex_index, ha]

theorem New.termed (h : New s) : Termed s [] where
  jobs := fun a p job hj => by
    have hq : job ∈ s.hub.lanes.queued := Lanes.mem_collect_of_tier rfl hj
    rw [h.hub.lanes, Lanes.queued_empty] at hq
    cases hq
  ready := fun a p r hr => by
    have hq : r ∈ s.hub.lanes.readied := Lanes.mem_collect_of_tier rfl hr
    rw [h.hub.lanes, Lanes.readied_empty] at hq
    cases hq
  parked := fun x hx => by rw [h.parked] at hx; cases hx
  hands := fun i w job hw hj => by
    rw [h.worker hw] at hj
    rcases hj with hj | ⟨_, _, hj, -⟩ <;> cases hj

/-! ## Pending jobs -/

theorem mem_pending_of_tier {a : Affinity} {p : Priority} (hj : job ∈ (s.hub.lanes.tier a p).jobs) :
    job ∈ s.pending := by
  have hq : job ∈ s.hub.lanes.queued := Lanes.mem_collect_of_tier rfl hj
  exact List.mem_append_left _ (List.mem_append_left _ hq)

theorem mem_pending_of_hand {i : Nat} (hw : s.workers[i]? = some w) (hj : s.AtHand w job) :
    job ∈ s.pending := by
  rcases hj with hj | ⟨fiber, run, hcur, hrun, rfl⟩
  · refine List.mem_append_left _ (List.mem_append_right _ (mem_gather.mpr ⟨i, w, hw, ?_⟩))
    rw [hj]
    exact List.mem_singleton_self _
  · exact mem_pending_of_run hrun

section
variable (h : s.Sound) (hc : Termed s ts)
include h hc

omit h in
/-- Calls and the ends of runs change nothing about the terms of pending jobs, apart from
getting a job into a queue that was not pending. -/
theorem Termed.of_lodged (hl : Hub.Lodged s.hub s'.hub entry)
    (hnew : ∀ job p a, entry = some (job, p, a) → job ∉ s.pending) (hcalm : Hub.Calm s.hub s'.hub)
    (hworkers : ∀ (i : Nat) w', s'.workers[i]? = some w' → ∃ w, s.workers[i]? = some w ∧
    w'.handoff = w.handoff ∧
      w'.current = w.current ∧ w'.priority = w.priority ∧ w'.affinity = w.affinity)
    (hruns : ∀ x run', s'.run? x = some run' → ∃ run, s.run? x = some run ∧ run'.job = run.job) :
      Termed s' (ts ++ entry.toList) := by
  have hold : ∀ job ∈ s.pending, agreed (ts ++ entry.toList) job = agreed ts job := by
    intro job hj
    refine agreed_other ?_
    intro p a hn
    exact hnew job p a hn hj
  have hlinks : s'.hub.links = s.hub.links := by rw [hcalm.rest]
  have hcrew : s'.hub.crew = s.hub.crew := by rw [hcalm.rest]
  refine ⟨?_, ?_, ?_, ?_⟩
  · intro a p job hj
    rcases hl.jobs a p job hj with hj | rfl
    · rw [hold job (mem_pending_of_tier hj)]
      exact hc.jobs a p job hj
    · exact agreed_new p a
  · intro a p r hr
    rcases hl.ready a p r hr with hr | ⟨hx, he, ha, hp⟩
    · obtain ⟨ha, hp, hrun⟩ := hc.ready a p r hr
      refine ⟨ha, hp, ?_⟩
      intro run' hr'
      obtain ⟨run, hr, hjob⟩ := hruns r.fiber run' hr'
      rw [hjob, hold run.job (mem_pending_of_run hr)]
      exact hrun run hr
    · refine ⟨ha, hp, ?_⟩
      intro run' hr'
      obtain ⟨run, hr, hjob⟩ := hruns r.fiber run' hr'
      obtain ⟨next, q, b, hlink, hcode, hterms⟩ := hc.parked r.fiber hx run hr
      rw [readyOf_make hlink hcode] at he
      rw [hjob, hold run.job (mem_pending_of_run hr), hterms, ← ha, ← hp, he]
  · intro x hx run' hr'
    have hx : x ∈ s.hub.parked := by
      obtain ⟨g, hg⟩ := Hub.mem_parked.mp hx
      rcases hcalm.lists g with hn | he
      · rw [hn] at hg; cases hg
      · exact Hub.mem_parked.mpr ⟨g, he ▸ hg⟩
    obtain ⟨run, hr, hjob⟩ := hruns x run' hr'
    rw [hjob, hold run.job (mem_pending_of_run hr), hlinks]
    exact hc.parked x hx run hr
  · intro i w' job hw' hj
    obtain ⟨w, hw, hhand, hcur, hp, ha⟩ := hworkers i w' hw'
    have hj : s.AtHand w job := by
      rcases hj with hj | ⟨x, run', hx, hr', hjob'⟩
      · exact Or.inl (hhand.symm.trans hj)
      · obtain ⟨run, hr, hjob⟩ := hruns x run' hr'
        exact Or.inr ⟨x, run, hcur.symm.trans hx, hr, hjob.symm.trans hjob'⟩
    obtain ⟨hterms, hable⟩ := hc.hands i w job hw hj
    refine ⟨?_, ?_⟩
    · rw [hold job (mem_pending_of_hand hw hj), hp, ha]
      exact hterms
    · rw [hcrew, ha]
      exact hable

omit h in
theorem Termed.of_parts (hlanes : s'.hub.lanes = s.hub.lanes) (hparked : s'.hub.parked = s.hub.parked)
    (hlinks : s'.hub.links = s.hub.links) (hcrew : s'.hub.crew = s.hub.crew)
    (hworkers : s'.workers = s.workers) (hruns : ∀ x, s'.run? x = s.run? x) : Termed s' ts := by
  refine ⟨?_, ?_, ?_, ?_⟩
  · rw [hlanes]
    exact hc.jobs
  · rw [hlanes]
    simp only [hruns]
    exact hc.ready
  · rw [hparked, hlinks]
    simp only [hruns]
    exact hc.parked
  · intro i w job hw hj
    rw [hworkers] at hw
    simp only [AtHand, hruns] at hj
    obtain ⟨hterms, hable⟩ := hc.hands i w job hw hj
    exact ⟨hterms, by rw [hcrew]; exact hable⟩

section
variable (hw : s.workers[worker]? = some w) (v : Worker)
  (hworkers : s'.workers = s.workers.setIfInBounds worker v) (hcrew : s'.hub.crew = s.hub.crew)
  (hruns : ∀ x, w.current ≠ some x → s'.run? x = s.run? x)
  (hnew : ∀ job, s'.AtHand v job → Suits s ts worker v job)
include hw hworkers hcrew hruns hnew

theorem Termed.hands_of_set (i : Nat) (u : Worker) (job : Nat) (hu : s'.workers[i]? = some u)
    (hj : s'.AtHand u job) :
    Suits s' ts i u job := by
  rw [hworkers, getElem?_set _ hw] at hu
  by_cases hi : worker = i
  · rw [if_pos hi] at hu
    obtain rfl := Option.some.inj hu
    obtain ⟨hterms, hable⟩ := hnew job hj
    exact ⟨hterms, by rw [hcrew, ← hi]; exact hable⟩
  · rw [if_neg hi] at hu
    have hj : s.AtHand u job := by
      rcases hj with hj | ⟨x, run, hx, hr, hjob⟩
      · exact Or.inl hj
      · refine Or.inr ⟨x, run, hx, ?_, hjob⟩
        rwa [hruns x fun hc => h.ne_current hw hu hx hi hc] at hr
    obtain ⟨hterms, hable⟩ := hc.hands i u job hu hj
    exact ⟨hterms, by rw [hcrew]; exact hable⟩

theorem Termed.of_turn (hjobs : ∀ a p, ∀ job ∈ (s'.hub.lanes.tier a p).jobs,
    job ∈ (s.hub.lanes.tier a p).jobs)
    (hready : ∀ a p, ∀ r ∈ (s'.hub.lanes.tier a p).ready, r ∈ (s.hub.lanes.tier a p).ready)
    (hparked : s'.hub.parked = s.hub.parked) (hlinks : s'.hub.links = s.hub.links) : Termed s' ts := by
  have hidle : ∀ x ∈ s.hub.idle, s'.run? x = s.run? x := by
    intro x hx
    refine hruns x ?_
    intro hcur
    exact h.ne_of_idle hw hcur hx rfl
  refine ⟨?_, ?_, ?_, hc.hands_of_set h hw v hworkers hcrew hruns hnew⟩
  · intro a p job hj
    exact hc.jobs a p job (hjobs a p job hj)
  · intro a p r hr
    obtain ⟨ha, hp, hrun⟩ := hc.ready a p r (hready a p r hr)
    have hin : r ∈ s.hub.lanes.readied := Lanes.mem_collect_of_tier rfl (hready a p r hr)
    rw [hidle r.fiber (List.mem_append_right _ (List.mem_map_of_mem hin))]
    exact ⟨ha, hp, hrun⟩
  · rw [hparked, hlinks]
    intro x hx
    rw [hidle x (List.mem_append_left _ hx)]
    exact hc.parked x hx

end

end

theorem not_atHand (hhand : w.handoff = none) (hrun : ∀ x, w.current = some x → s.run? x = none) :
    ¬s.AtHand w job := by
  rintro (hj | ⟨x, run, hx, hr, -⟩)
  · rw [hhand] at hj; cases hj
  · rw [hrun x hx] at hr; cases hr

/-! ## Steps -/

theorem bargains_of_callOf {m : Move κ μ ρ} {c : Call κ μ ρ} {r : Except Fault c.Answer}
    (hcall : s.callOf m = some ⟨c, r⟩) :
    bargains s m = (c.bargain s.hub.jobs.size r).toList := by
  simp [bargains, hcall]

theorem bargains_of_none {m : Move κ μ ρ} (hcall : s.callOf m = none) : bargains s m = [] := by
  simp [bargains, hcall]

section
variable (h : s.Sound) (hc : Termed s ts)
include h hc

theorem Termed.asked {m : Move κ μ ρ} {c : Call κ μ ρ} {r : Except Fault c.Answer}
    (hcall : s.callOf m = some ⟨c, r⟩) :
    Termed (move body s m) (ts ++ bargains s m) := by
  have hasked := asked_of_callOf body h hcall
  obtain ⟨i, held, -, hmade⟩ := hasked.made
  obtain ⟨⟨hl, hcalled⟩, hr, hhub⟩ :=
    ((perform_lodged h.fit i held c).and (perform_called h.fit i held c)).and hmade
  have heffect := hcalled.effect
  rw [hr, hhub] at hl heffect
  rw [bargains_of_callOf hcall]
  refine hc.of_lodged hl ?_ heffect.calm ?_ ?_
  · intro job p a hnew hj
    obtain ⟨group, hacc⟩ := Call.accepted_of_bargain hnew
    have hqueues := heffect.queues
    rw [hacc] at hqueues
    cases hqueues with
    | some _ _ _ hfree =>
      obtain ⟨record, hrec, hsched⟩ := h.record hj
      rw [hfree record hrec] at hsched
      cases hsched
  · rw [hasked.workers]
    intro i w hw
    exact ⟨w, hw, rfl, rfl, rfl, rfl⟩
  · intro x run' hr'
    rcases hasked.runs with hruns | ⟨j, v, fiber, run, new, hon, hjob, hruns⟩
    · refine ⟨run', ?_, rfl⟩
      unfold run? at hr' ⊢
      rwa [hruns] at hr'
    · rw [run?_of_set hruns (lt_runs_of_run? hon.run)] at hr'
      by_cases hx : fiber = x
      · rw [if_pos hx] at hr'
        obtain rfl : new = run' := Option.some.inj hr'
        exact ⟨run, hx ▸ hon.run, hjob⟩
      · rw [if_neg hx] at hr'
        exact ⟨run', hr', rfl⟩

omit hc in
theorem Sound.handoff_eq_none (hw : s.workers[worker]? = some w) (hstage : w.stage ≠ .running) :
    w.handoff = none := by
  cases hh : w.handoff with
  | none => rfl
  | some job => exact absurd ((h.worker worker w hw).handoff (by rw [hh]; rfl)).1 hstage

omit h in
theorem Termed.went {fiber : Nat} {run run' : Run κ μ ρ} (htidy : s.hub.Tidy) (hrun : s.run? fiber = some run)
    (hjob : run'.job = run.job) :
    Termed (s.putRun fiber (some run')) ts := by
  have hkept : Termed (s.putRun fiber (some run')) (ts ++ Option.toList none) := hc.of_lodged (.of_lanes rfl)
    (fun _ _ _ hn => by cases hn) (Hub.Steady.refl htidy).calm (fun i w hw => ⟨w, hw, rfl, rfl, rfl, rfl⟩) ?_
  · rwa [Option.toList_none, List.append_nil] at hkept
  · intro x new hx
    rw [run?_putRun (lt_runs_of_run? hrun)] at hx
    by_cases hf : fiber = x
    · rw [if_pos hf] at hx
      obtain rfl := Option.some.inj hx
      exact ⟨run, hf ▸ hrun, hjob⟩
    · rw [if_neg hf] at hx
      exact ⟨new, hx, rfl⟩

theorem Termed.of_end {fiber : Nat} {run : Run κ μ ρ} {record : Job κ} {name : String} {held : List Nat}
    {panic : Option Fault} {r : Except Fault Unit} {hub : Hub κ} (hrun : s.run? fiber = some run)
    (hrec : s.hub.jobs[job]? = some record)
    (hend : (Hub.endRun name job held panic : Act ρ (Hub κ) Unit).Ends s.hub fun r' h => r' = r ∧ h = hub)
    (hhub : s'.hub = hub) (hruns : s'.runs = s.runs.setIfInBounds fiber none)
    (hworkers : ∀ (i : Nat) w', s'.workers[i]? = some w' → ∃ w, s.workers[i]? = some w ∧
    w'.handoff = w.handoff ∧
      w'.current = w.current ∧ w'.priority = w.priority ∧ w'.affinity = w.affinity) : Termed s' ts := by
  subst hhub
  have hkept := hc.of_lodged ((Hub.endRun_lodged h.tidy hrec).pin hend) (fun _ _ _ hn => by cases hn)
    ((Hub.ends_endRun h.tidy hrec).pin hend).calm hworkers ?_
  · rwa [Option.toList_none, List.append_nil] at hkept
  · intro x new hx
    rw [run?_of_set hruns (lt_runs_of_run? hrun)] at hx
    split at hx
    · cases hx
    · exact ⟨new, hx, rfl⟩

omit h hc in
theorem links_withParked {h : Hub κ} {group fiber : Nat} {state : Group} {p : Priority} {a : Affinity}
    (hlt : fiber < h.links.size) (x : Nat) :
    (h.withParked group state fiber p a).links[x]? =
    if fiber = x then some (.make state.head p a) else h.links[x]? :=
  getElem?_set _ (Array.getElem?_eq_getElem hlt) x

theorem Termed.parks {fiber next group : Nat} {run : Run κ μ ρ} {state : Group} {old old' : Slot}
    {pool : FiberPool} (hon : OnRun s worker w fiber run) (hs : s.hub.groups.get? group = some state)
    (hold : s.pool.slots[fiber]? = some old) (hnext : s.run? next = none) :
    Termed (((s.setPool pool).setHub
      (s.hub.withParked group state fiber w.priority w.affinity)).switched worker w fiber old' next
        true) ts := by
  have hterms := hc.hands worker w run.job hon.here (Or.inr ⟨fiber, run, hon.current, hon.run, rfl⟩)
  have hnot : fiber ∉ s.hub.parked :=
    fun hm => (h.of_current hon.here hon.current).2.2 (List.mem_append_left _ hm)
  have hlt : fiber < s.hub.links.size := by rw [h.links]; exact (Array.getElem?_eq_some_iff.mp hold).1
  refine ⟨hc.jobs, hc.ready, ?_, ?_⟩
  · intro x hx new hnew
    show ∃ next p a, (s.hub.withParked group state fiber w.priority w.affinity).links[x]? =
      some (.make next p a) ∧ _
    rw [links_withParked hlt]
    by_cases hf : fiber = x
    · obtain rfl : run = new := Option.some.inj (hon.run.symm.trans (hf ▸ hnew))
      rw [if_pos hf]
      exact ⟨_, _, _, rfl, h.decode_encode hon.here, hterms.terms⟩
    · rw [if_neg hf]
      refine hc.parked x ?_ new hnew
      have hcount := Hub.count_parked_withParked w.priority h.tidy hs hnot hlt (a := w.affinity) x
      have hpos : 0 < (s.hub.withParked group state fiber w.priority w.affinity).parked.count x :=
        List.count_pos_iff.mpr hx
      rw [count_one, if_neg hf] at hcount
      exact List.count_pos_iff.mp (by omega)
  · refine hc.hands_of_set h hon.here _ rfl rfl (fun _ _ => rfl) ?_
    intro job hj
    have hhand := h.no_handoff hon
    exact absurd hj (not_atHand hhand fun x hx => Option.some.inj hx ▸ hnext)

theorem Termed.turn (hcall : s.callOf (.work worker) = none) (ht : Turn body s worker s' ds) :
    Termed s' ts := by
  have hunused : ∀ {fiber slot}, s.pool.slots[fiber]? = some slot → slot.free = true →
      s.run? fiber = none := by
    intro fiber slot hx hfree
    exact h.unused fiber (by rw [FiberPool.isFree_of_slot hx]; exact hfree)
  cases ht with
  | rest => exact hc
  | exhausted => exact hc.of_parts rfl rfl rfl rfl rfl fun _ => rfl
  | @started w fiber slot hw hstage htier hx hfree seed =>
    refine hc.of_turn h hw _ rfl rfl (fun _ _ => rfl) ?_ (fun _ _ _ hj => hj) (fun _ _ _ hr => hr) rfl rfl
    intro job hj
    have hhand := h.handoff_eq_none hw (by rw [hstage]; decide)
    exact absurd hj (not_atHand hhand fun x hx' => Option.some.inj hx' ▸ hunused hx hfree)
  | @went w fiber run run' s'' queued action hon hjob hcalled hdoes hsource =>
    rcases hsource with ⟨c, next, hrest, -⟩ | ⟨rfl, -⟩
    · rw [callOf_work hon hrest] at hcall
      cases hcall
    · exact hc.went h.tidy hon.run hjob
  | parked hon hrest hheld hs hcount htier hx hfree hold => exact hc.parks h hon hs hold (hunused hx hfree)
  | ended hon hover hrec hend =>
    exact hc.of_end h hon.run hrec hend rfl rfl fun i w hw => ⟨w, hw, rfl, rfl, rfl, rfl⟩
  | @died w fiber run record panic fault hub hon hover hrec hend =>
    refine hc.of_end h hon.run hrec hend rfl rfl ?_
    intro i v hv
    have hv : (s.setWorker worker { w with stage := .dead }).workers[i]? = some v := hv
    rw [getElem?_setWorker hon.here] at hv
    by_cases hi : worker = i
    · rw [if_pos hi] at hv
      obtain rfl := Option.some.inj hv
      exact ⟨w, hi ▸ hon.here, rfl, rfl, rfl, rfl⟩
    · rw [if_neg hi] at hv
      exact ⟨v, hv, rfl, rfl, rfl, rfl⟩
  | @began w w' fiber job record lanes hon hrec hway =>
    -- The job comes from a hand-off or from a queue; either way its terms suit the worker,
    -- and the queues keep what they held otherwise.
    have hkept : Suits s ts worker w' job ∧ w'.handoff = none ∧ w'.current = some fiber ∧
        ∀ b q, (∀ j ∈ (lanes.tier b q).jobs, j ∈ (s.hub.lanes.tier b q).jobs) ∧
          (lanes.tier b q).ready = (s.hub.lanes.tier b q).ready := by
      rcases hway with ⟨hhand, rfl, rfl⟩ | ⟨p, a, hno, htake, rfl, -⟩
      · obtain ⟨hterms, hable⟩ := hc.hands worker w job hon.here (Or.inl hhand)
        exact ⟨⟨hterms, hable⟩, rfl, hon.current, fun b q => ⟨fun _ hj => hj, rfl⟩⟩
      · obtain ⟨hin, hrest⟩ := Lanes.mem_of_take_job htake
        exact ⟨⟨hc.jobs a p job hin, Crew.mem_sources_iff.mp (Lanes.tier_take_job htake).1⟩, hno,
          hon.current, hrest⟩
    obtain ⟨hsuits, hhand, hcur, hlanes⟩ := hkept
    have hruns :
        ∀ x, (((s.setHub ({ s.hub with lanes }.setJob job
        { record with started := true })).setWorker worker w').putRun
          fiber (some ⟨job, [], bodyOf body record⟩)).run? x =
            if fiber = x then some ⟨job, [], bodyOf body record⟩ else s.run? x :=
      run?_of_set rfl (lt_runs h hon)
    refine hc.of_turn h hon.here w' rfl rfl ?_ ?_ (fun a p => (hlanes a p).1)
      (fun a p r hr => (hlanes a p).2 ▸ hr) rfl rfl
    · intro x hx
      have hne : fiber ≠ x := fun he => hx (he ▸ hon.current)
      rw [hruns, if_neg hne]
    · rintro job' (hj | ⟨x, run, hx, hr, rfl⟩)
      · rw [hhand] at hj
        cases hj
      · obtain rfl := Option.some.inj (hcur.symm.trans hx)
        rw [hruns, if_pos rfl] at hr
        obtain rfl := Option.some.inj hr
        exact hsuits
  | @passed w fiber next job p a lanes slot old hon hno htake hneeds hnormal htier hx hfree hold seed =>
    obtain ⟨hin, hlanes⟩ := Lanes.mem_of_take_job htake
    refine hc.of_turn h hon.here _ rfl rfl (fun _ _ => rfl) ?_ (fun a p => (hlanes a p).1)
      (fun a p r hr => (hlanes a p).2 ▸ hr) rfl rfl
    rintro job' (hj | ⟨x, run, hx', hr, -⟩)
    · obtain rfl : job = job' := Option.some.inj hj
      exact ⟨hc.jobs a p job hin, Crew.mem_sources_iff.mp (Lanes.tier_take_job htake).1⟩
    · obtain rfl : next = x := Option.some.inj hx'
      cases (hunused hx hfree).symm.trans hr
  | @returned w fiber job p a lanes lanes' hon hno htake hneeds hnormal hall hput seed =>
    obtain ⟨hin, hlanes⟩ := Lanes.mem_of_take_job htake
    refine hc.of_turn h hon.here _ rfl rfl (fun _ _ => rfl) ?_ ?_ ?_ rfl rfl
    · intro job' hj
      exact absurd hj (not_atHand hno fun x hx => Option.some.inj (hon.current.symm.trans hx) ▸ hon.run)
    -- The one entry that is new went back to the queue it was taken from.
    · intro b q j hj
      have hj : j ∈ (lanes'.tier b q).jobs := hj
      rw [Lanes.tier_pushJob hput] at hj
      rcases List.mem_append.mp hj with hj | hj
      · exact (hlanes b q).1 j hj
      · split at hj
        · rename_i heq
          rw [List.mem_singleton.mp hj, ← heq.1, ← heq.2]
          exact hin
        · cases hj
    · intro b q r hr
      have hr : r ∈ (lanes'.tier b q).ready := hr
      rw [Lanes.tier_pushJob hput] at hr
      exact (hlanes b q).2 ▸ hr
  | @resumed w fiber ready lanes slot old hon hno htake hx hold =>
    obtain ⟨a, p, hsource, hin, hlanes⟩ := Lanes.mem_of_take_fiber htake
    obtain ⟨ha, hp, hterms⟩ := hc.ready a p ready hin
    refine hc.of_turn h hon.here _ rfl rfl (fun _ _ => rfl) ?_ (fun b q j hj => (hlanes b q).2 ▸ hj)
      (fun b q => (hlanes b q).1) rfl rfl
    rintro job (hj | ⟨x, run, hx', hr, rfl⟩)
    · cases hno.symm.trans hj
    · obtain rfl : ready.fiber = x := Option.some.inj hx'
      subst ha hp
      exact ⟨hterms run hr, Crew.mem_sources_iff.mp hsource⟩
  | @left w fiber old hon hno hidle hexit hold =>
    refine hc.of_turn h hon.here _ rfl rfl (fun _ _ => rfl) ?_ (fun _ _ _ hj => hj)
      (fun _ _ _ hr => hr) rfl rfl
    intro job hj
    exact absurd hj (not_atHand hno fun x hx => by cases hx)

theorem Termed.step (m : Move κ μ ρ) : Termed (move body s m) (ts ++ bargains s m) := by
  cases hcall : s.callOf m with
  | some q => exact hc.asked h hcall
  | none =>
    rw [bargains_of_none hcall, List.append_nil]
    cases m with
    | work worker => exact hc.turn h hcall (turn_of_sound h body worker)
    | call c => cases hcall
    | stop => exact hc.of_parts rfl rfl rfl rfl rfl fun _ => rfl
    | record code extended oneShot =>
      have hrest := record_rest (ρ := ρ) s code extended oneShot
      have hmove : move body s (.record code extended oneShot) = _ := hrest
      rw [hmove]
      exact hc.of_parts rfl rfl rfl rfl rfl fun _ => rfl

end

/-! ## Whole runs -/

theorem ready_of_wake {h : Hub κ} {group fiber : Nat} {state : Group} {next : Option Nat} {p : Priority}
    {a : Affinity} (ht : h.Tidy) (hs : h.groups.get? group = some state) (hx : fiber ∈ h.waitingOn group)
    (hlink : h.links[fiber]? = some (.make next p a)) (ha : Affinity.decode a.encode = a) :
    (Hub.wake group : Act ρ (Hub κ) Unit).Ends h fun r h' =>
      r = .ok () ∧ ⟨fiber, p, a⟩ ∈ (h'.lanes.tier a p).ready ∧ h'.lanes.Has a := by
  refine (Hub.ends_wake ht hs).mono ?_
  rintro r h' ⟨hr, lanes, rfl, hj⟩
  rw [Hub.waitingOn_of_get? hs] at hx
  obtain ⟨link, hlink', hhas⟩ := Hub.links_of_waiters ht hs fiber hx
  rw [hlink] at hlink'
  obtain rfl := Option.some.inj hlink'
  refine ⟨hr, ?_, ?_⟩
  · show _ ∈ (lanes.tier a p).ready
    rw [hj.tier]
    have hin : ⟨fiber, p, a⟩ ∈ (h.waiters state).map (Hub.readyOf h.links) :=
      List.mem_map.mpr ⟨fiber, hx, readyOf_make hlink ha⟩
    exact List.mem_append_right _ (List.mem_filter.mpr ⟨hin, by simp⟩)
  · refine (Lanes.has_of_size hj.size a).mpr ?_
    rwa [show (Link.make next p a).affinity = a.encode from rfl, ha] at hhas

theorem parks_of_mem_deeds (h : s.Sound) {m : Move κ μ ρ} {fiber group : Nat} {p : Priority} {a : Affinity}
    (hd : .parked fiber group p a ∈ deeds s (move body s m) m) :
      ∃ (worker : Nat) (w : Worker) (run : Run κ μ ρ) (next : Option Nat),
      OnRun s worker w fiber run ∧ w.priority = p ∧ w.affinity = a ∧
        (move body s m).hub.links[fiber]? = some (.make next p a) := by
  have hno : ∀ {queued : Option (Nat × Option Nat)},
      .parked fiber group p a ∉ (acceptances queued : List (Deed κ μ ρ)) := by
    intro queued hd
    cases queued with
    | none => cases hd
    | some q => cases List.mem_singleton.mp hd
  rcases called_move body h m with ⟨worker, rfl⟩ | rfl | ⟨queued, hcalled, hds⟩
  · have ht := turn_of_sound h body worker
    simp only [move] at hd ⊢
    generalize deeds s (step body worker s).state (.work worker) = ds at ht hd
    generalize (step body worker s).state = s' at ht
    cases ht with
    | @parked w fiber' next group' run rest state slot old hon hrest hheld hs hcount htier hx hfree hold =>
      cases List.mem_singleton.mp hd
      have hlt : fiber < s.hub.links.size := by rw [h.links]; exact (Array.getElem?_eq_some_iff.mp hold).1
      have hlink : (s.hub.withParked group state fiber w.priority w.affinity).links[fiber]? = _ :=
        links_withParked hlt fiber
      exact ⟨worker, w, run, state.head, hon, rfl, rfl, hlink.trans (if_pos rfl)⟩
    | went =>
      rcases List.mem_append.mp hd with hd | hd
      · exact absurd hd hno
      · cases List.mem_singleton.mp hd
    | ended | began | resumed => cases List.mem_singleton.mp hd
    | rest | exhausted | started | died | passed | returned | left => cases hd
  · cases hd
  · rw [hds] at hd
    exact absurd hd hno

section
variable {mode : Mode} {host : Host} {config : Config} {memory : μ} {x : σ} {s₀ : System κ μ ρ}
  (hnew : ((new mode host config memory : Act ρ σ (Except Refusal (System κ μ ρ))) x).result = .ok (.ok s₀))
  {moves : List (Move κ μ ρ)} (hplay : play body s₀ moves = s)
include hnew hplay

theorem termed_play : Termed s (trail body bargains s₀ moves) := by
  have hfresh := new_of_ok hnew
  have hkept : (play body s₀ moves).Sound ∧
      Termed (play body s₀ moves) ([] ++ trail body bargains s₀ moves) :=
    trail_induction (P := fun _ _ => True) (I := fun s ts => s.Sound ∧ Termed s ts)
      (fun s ts m _ h => ⟨sound_move body h.1 m, h.2.step h.1 m⟩) (fun _ _ _ _ => trivial)
        ⟨hfresh.sound, hfresh.termed⟩
  rw [← hplay]
  exact hkept.2

/-- The priority and the affinity that a job was accepted with stay with it. Whatever the
workers and the callers do, a worker that runs a job, or has it passed on, may run it and
holds just these terms. Whenever the job parks, its link stores them in their coded forms,
and they can be read back from there as long as it waits; a wake-up of its group queues it
under them, in a queue that exists, and there it stays until a worker resumes it. -/
theorem terms_kept :
    (∀ i w job, s.workers[i]? = some w → s.AtHand w job →
      agreed (trail body bargains s₀ moves) job = some (w.priority, w.affinity) ∧
        s.hub.crew.canRun i w.affinity = true) ∧
    (∀ m fiber group p a, .parked fiber group p a ∈ deeds s (move body s m) m →
      ∃ run next, s.run? fiber = some run ∧
      agreed (trail body bargains s₀ moves) run.job = some (p, a) ∧
      (move body s m).hub.links[fiber]? = some ⟨next, p.index, a.encode⟩) ∧
    (∀ group, ∀ fiber ∈ s.hub.waitingOn group, ∃ run next p a, s.run? fiber = some run ∧
      agreed (trail body bargains s₀ moves) run.job = some (p, a) ∧
        s.hub.links[fiber]? = some ⟨next, p.index, a.encode⟩ ∧
      Priority.ofIndex p.index = p ∧ Affinity.decode a.encode = a ∧
      (Hub.wake group : Act ρ (Hub κ) Unit).Ends s.hub fun r h =>
        r = .ok () ∧ ⟨fiber, p, a⟩ ∈ (h.lanes.tier a p).ready ∧ h.lanes.Has a) ∧
    ∀ a p, ∀ r ∈ (s.hub.lanes.tier a p).ready, ∃ run, s.run? r.fiber = some run ∧ r = ⟨r.fiber, p, a⟩ ∧
      agreed (trail body bargains s₀ moves) run.job = some (p, a) ∧ s.hub.lanes.Has a := by
  have hsound : s.Sound := hplay ▸ sound_play body (new_of_ok hnew).sound moves
  have hterms := termed_play hnew hplay
  refine ⟨?_, ?_, ?_, ?_⟩
  · intro i w job hw hj
    obtain ⟨hagreed, hable⟩ := hterms.hands i w job hw hj
    exact ⟨hagreed, hable⟩
  · intro m fiber group p a hd
    obtain ⟨worker, w, run, next, hon, rfl, rfl, hlink⟩ := parks_of_mem_deeds hsound hd
    have hj : s.AtHand w run.job := Or.inr ⟨fiber, run, hon.current, hon.run, rfl⟩
    exact ⟨run, next, hon.run, (hterms.hands worker w run.job hon.here hj).terms, hlink⟩
  · intro group fiber hx
    have hparked := Hub.mem_parked.mpr ⟨group, hx⟩
    obtain ⟨run, hrun⟩ := Option.isSome_iff_exists.mp
      (hsound.unfinished fiber (List.mem_append_left _ hparked))
    obtain ⟨next, p, a, hlink, hcode, hagreed⟩ := hterms.parked fiber hparked run hrun
    obtain ⟨state, hs⟩ : ∃ state, s.hub.groups.get? group = some state := by
      cases hs : s.hub.groups.get? group with
      | some state => exact ⟨state, rfl⟩
      | none =>
        unfold Hub.waitingOn at hx
        rw [hs] at hx
        cases hx
    exact ⟨run, next, p, a, hrun, hagreed, hlink, Priority.ofIndex_index p, hcode,
      ready_of_wake hsound.tidy hs hx hlink hcode⟩
  · intro a p r hr
    obtain ⟨ha, hp, hagreed⟩ := hterms.ready a p r hr
    have hin : r ∈ s.hub.lanes.readied := Lanes.mem_collect_of_tier rfl hr
    obtain ⟨run, hrun⟩ := Option.isSome_iff_exists.mp
      (hsound.unfinished r.fiber (List.mem_append_right _ (List.mem_map_of_mem hin)))
    subst ha hp
    exact ⟨run, hrun, rfl, hagreed run hrun, hsound.tidy.ready r hin⟩

end

def pinning : List (Move Bool Unit Unit) :=
  [.call .newGroup, .call (.spawn true none .high (.worker 1)), .call (.spawn false (some 0) .low .any),
    .work 1, .work 1, .work 1, .work 1]

theorem pinned_job_wakes_in_place :
    let s := play smallBody small pinning
    s.hub.waitingOn 0 = [0] ∧ agreed (trail smallBody bargains small pinning) 0 = some (.high, .worker 1) ∧
      s.hub.links[0]? = some ⟨none, 2, 4⟩ ∧
      (Hub.wake 0 : Act Unit (Hub Bool) Unit).Ends s.hub fun r h =>
        r = .ok () ∧ ⟨0, .high, .worker 1⟩ ∈ (h.lanes.tier (.worker 1) .high).ready ∧
          h.lanes.Has (.worker 1) := by
  intro s
  have hplay : s = play smallBody small pinning := rfl
  have hlist : s.hub.waitingOn 0 = [0] := by decide +kernel
  have hterms :
      agreed (trail smallBody bargains small pinning) 0 = some (.high, .worker 1) := by decide +kernel
  have hjob : (s.run? 0).map (·.job) = some 0 := by decide +kernel
  obtain ⟨run, next, p, a, hrun, hagreed, hlink, -, -, hwake⟩ :=
    (terms_kept new_small hplay).2.2.1 0 0 (by rw [hlist]; exact List.mem_singleton_self 0)
  rw [hrun] at hjob
  have hjob : run.job = 0 := Option.some.inj hjob
  rw [hjob, hterms] at hagreed
  cases hagreed
  exact ⟨hlist, hterms, by decide +kernel, hwake⟩

end System

end FiberScheduler
