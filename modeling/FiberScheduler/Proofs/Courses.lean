import FiberScheduler.Proofs.Slots

/-!
# The courses of jobs

What a history tells of one job. In a run without deaths every acceptance of a job is
followed by one run of its body, with each of its actions once and in order, and by one
end, whatever workers and fibers the run is on.
-/

namespace FiberScheduler.System

open Act

variable {κ μ ρ : Type} {body : κ → Program κ μ ρ Unit} {s s' : System κ μ ρ} {worker fiber job : Nat}
  {ds es : List (Deed κ μ ρ)} {record record' : Job κ} {run run' : Run κ μ ρ}

/-! ## Courses -/

def Deed.about (job : Nat) : Deed κ μ ρ → Bool
  | .accepted j _ | .began j | .acted j _ | .ended j _ => j == job
  | _ => false

def course (job : Nat) (ds : List (Deed κ μ ρ)) : List (Deed κ μ ρ) :=
  ds.filter (Deed.about job)

theorem course_append (job : Nat) (ds es : List (Deed κ μ ρ)) :
    course job (ds ++ es) = course job ds ++ course job es :=
  List.filter_append ..

section
variable (body : κ → Program κ μ ρ Unit) (record : Job κ)

/-- What the body of a job does when it has run so many times: nothing, if it may run only once. -/
def bodyAfter (n : Nat) : Program κ μ ρ Unit :=
  if record.oneShot = true ∧ 0 < n then .done () else body record.code

/-- Rounds of a job, each from its acceptance to its end. -/
inductive Rounds (job : Nat) : Nat → List (Deed κ μ ρ) → Prop
  | none : Rounds job 0 []
  | round {n : Nat} {ds : List (Deed κ μ ρ)} {group : Option Nat} {as : List (Action κ μ ρ)}
      {rest : Program κ μ ρ Unit} (h : Rounds job n ds) (hdoes : (bodyAfter body record n).Does as rest)
      (hover : rest.Over) :
      Rounds job (n + 1) (ds ++ (.accepted job group :: .began job :: as.map (.acted job) ++
        [.ended job group]))

/-- The course of a job up to now, by where the job is. -/
inductive Course (s : System κ μ ρ) (job : Nat) (c : List (Deed κ μ ρ)) : Prop
  | idle {n : Nat} (hrounds : Rounds body record job n c) (hstarted : record.started = decide (0 < n))
      (hno : job ∉ s.pending)
  | queued {n : Nat} {before : List (Deed κ μ ρ)} (hrounds : Rounds body record job n before)
      (hstarted : record.started = decide (0 < n)) (hin : job ∈ s.unbegun)
      (hc : c = before ++ [.accepted job record.completion])
  | running {n fiber : Nat} {before : List (Deed κ μ ρ)} {run : Run κ μ ρ} {as : List (Action κ μ ρ)}
      (hrounds : Rounds body record job n before) (hstarted : record.started = true)
      (hrun : s.run? fiber = some run) (hjob : run.job = job)
      (hdoes : (bodyAfter body record n).Does as run.rest)
      (hc : c = before ++ .accepted job record.completion :: .began job :: as.map (.acted job))

end

theorem bodyOf_eq {n : Nat} (hstarted : record.started = decide (0 < n)) :
    bodyOf body record = bodyAfter body record n := by
  unfold bodyOf bodyAfter Job.spent
  rw [hstarted]
  simp only [Bool.and_eq_true, decide_eq_true_eq]

theorem Rounds.of_claim {n : Nat} {c : List (Deed κ μ ρ)} (h : Rounds body record job n c)
    (hcode : record'.code = record.code) (hshot : record'.oneShot = record.oneShot) :
      Rounds body record' job n c := by
  induction h with
  | none => exact .none
  | round _ hdoes hover ih =>
    refine .round ih ?_ hover
    unfold bodyAfter at hdoes ⊢
    rw [hcode, hshot]
    exact hdoes

structure Courses (body : κ → Program κ μ ρ Unit) (s : System κ μ ρ) (ds : List (Deed κ μ ρ)) : Prop where
  known : ∀ (job : Nat) (record : Job κ), s.hub.jobs[job]? = some record →
    Course body record s job (course job ds)
  unknown : ∀ job : Nat, s.hub.jobs[job]? = none → course job ds = []

section
variable {c : List (Deed κ μ ρ)} (hc : Course body record s job c)
include hc

theorem Course.of_kept {scheduled : Bool} {completion : Option Nat}
    (hcompletion : job ∈ s.pending → completion = record.completion)
    (hno : job ∉ s.pending → job ∉ s'.pending) (hin : job ∈ s.unbegun → job ∈ s'.unbegun)
    (hruns : ∀ fiber run, s.run? fiber = some run → run.job = job → s'.run? fiber = some run) :
    Course body { record with scheduled, completion } s' job c := by
  cases hc with
  | idle hrounds hstarted hn => exact .idle (hrounds.of_claim rfl rfl) hstarted (hno hn)
  | queued hrounds hstarted hi hc =>
    obtain rfl := hcompletion (List.mem_append_left _ hi)
    exact .queued (hrounds.of_claim rfl rfl) hstarted (hin hi) hc
  | running hrounds hstarted hrun hjob hdoes hc =>
    obtain rfl := hcompletion (hjob ▸ mem_pending_of_run hrun)
    exact .running (hrounds.of_claim rfl rfl) hstarted (hruns _ _ hrun hjob) hjob hdoes hc

theorem Course.idle_of (hno : job ∉ s.pending) :
    ∃ n, Rounds body record job n c ∧ record.started = decide (0 < n) := by
  cases hc with
  | idle hrounds hstarted => exact ⟨_, hrounds, hstarted⟩
  | queued _ _ hin => exact absurd (List.mem_append_left _ hin) hno
  | running _ _ hrun hjob => exact absurd (hjob ▸ mem_pending_of_run hrun) hno

end

/-! ## Where a job is -/

section
variable (h : s.Sound)
include h

theorem Sound.count_pending_le (job : Nat) : s.unbegun.count job + s.runJobs.count job ≤ 1 := by
  rw [← count_pending]
  exact h.pending_once job

theorem Sound.not_unbegun (hrun : s.run? fiber = some run) : run.job ∉ s.unbegun := fun hin => by
  have hle := h.count_pending_le run.job
  have hpos := List.count_pos_iff.mpr hin
  have hmem : run.job ∈ s.runJobs :=
    mem_gather.mpr ⟨fiber, some run, run?_eq_some_iff.mp hrun, List.mem_singleton_self _⟩
  have := List.count_pos_iff.mpr hmem
  omega

theorem Sound.run_unique {x : Nat} (hrun : s.run? fiber = some run) (hrun' : s.run? x = some run')
    (hjob : run'.job = run.job) :
    x = fiber ∧ run' = run := by
  have hle := h.count_pending_le run.job
  have hruns := run?_eq_some_iff.mp hrun
  have hruns' := run?_eq_some_iff.mp hrun'
  have hpos : 0 < s.runJobs.count run.job :=
    List.count_pos_iff.mpr (mem_gather.mpr ⟨fiber, some run, hruns, List.mem_singleton_self _⟩)
  obtain ⟨i, -, -, -, hrest⟩ := gather_once
    (show (gather jobOf s.runs).count run.job = 1 by unfold runJobs at hle hpos; omega)
  have hi : ∀ (k : Nat) (r : Run κ μ ρ), s.runs[k]? = some (some r) → r.job = run.job → k = i :=
    fun k r hk hr =>
    Classical.byContradiction fun hne =>
      hrest k (some r) hk hne (by rw [← hr]; exact List.mem_singleton_self _)
  obtain rfl : x = fiber := (hi x run' hruns' hjob).trans (hi fiber run hruns rfl).symm
  exact ⟨rfl, Option.some.inj (hrun'.symm.trans hrun)⟩

theorem Sound.course_of_run {c : List (Deed κ μ ρ)} (hc : Course body record s run.job c)
    (hrun : s.run? fiber = some run) :
    ∃ n before as, Rounds body record run.job n before ∧ record.started = true ∧
      (bodyAfter body record n).Does as run.rest ∧
      c = before ++ .accepted run.job record.completion :: .began run.job :: as.map (.acted run.job) := by
  cases hc with
  | idle _ _ hno => exact absurd (mem_pending_of_run hrun) hno
  | queued _ _ hin => exact absurd hin (h.not_unbegun hrun)
  | running hrounds hstarted hrun' hjob hdoes hc =>
    obtain ⟨rfl, rfl⟩ := h.run_unique hrun hrun' hjob
    exact ⟨_, _, _, hrounds, hstarted, hdoes, hc⟩

theorem Sound.course_of_unbegun {c : List (Deed κ μ ρ)} (hc : Course body record s job c)
    (hin : job ∈ s.unbegun) :
    ∃ n before, Rounds body record job n before ∧ record.started = decide (0 < n) ∧
      c = before ++ [.accepted job record.completion] := by
  cases hc with
  | idle _ _ hno => exact absurd (List.mem_append_left _ hin) hno
  | queued hrounds hstarted _ hc => exact ⟨_, _, hrounds, hstarted, hc⟩
  | running _ _ hrun hjob => exact absurd (hjob ▸ hin) (h.not_unbegun hrun)

end

/-! ## Steps -/

/-- A step that some jobs have a part in leaves the courses of the others as they are. -/
theorem Courses.of_step (P : Nat → Prop) (hc : Courses body s ds)
    (hjobs : ∀ job, ¬P job → s'.hub.jobs[job]? = s.hub.jobs[job]?)
    (hunbegun : ∀ job, ¬P job → s'.unbegun.count job = s.unbegun.count job)
    (hpending : ∀ job, ¬P job → s'.pending.count job = s.pending.count job)
    (hruns : ∀ fiber run, s.run? fiber = some run → ¬P run.job → s'.run? fiber = some run)
    (hes : ∀ job, ¬P job → course job es = [])
    (hthis : ∀ job, P job → ∃ record, s'.hub.jobs[job]? = some record ∧
    Course body record s' job (course job ds ++ course job es)) :
    Courses body s' (ds ++ es) := by
  refine ⟨fun job record hrec => ?_, fun job hnone => ?_⟩
  · rw [course_append]
    by_cases hP : P job
    · obtain ⟨new, hnew, hcourse⟩ := hthis job hP
      obtain rfl := Option.some.inj (hrec.symm.trans hnew)
      exact hcourse
    · rw [hjobs job hP] at hrec
      rw [hes job hP, List.append_nil]
      refine (hc.known job record hrec).of_kept (fun _ => rfl) (fun hno => ?_)
        (fun hin => ?_) fun fiber run hrun hjob =>
        hruns fiber run hrun (by rwa [hjob])
      · rw [← List.count_eq_zero] at hno ⊢
        rwa [hpending job hP]
      · rw [← List.count_pos_iff] at hin ⊢
        rwa [hunbegun job hP]
  · have hP : ¬P job := fun hP => by
      obtain ⟨new, hnew, -⟩ := hthis job hP
      rw [hnone] at hnew
      cases hnew
    rw [hjobs job hP] at hnone
    rw [course_append, hc.unknown job hnone, hes job hP]
    rfl

theorem Courses.of_same (hc : Courses body s ds) (hjobs : s'.hub.jobs = s.hub.jobs)
    (hunbegun : ∀ job, s'.unbegun.count job = s.unbegun.count job) (hruns : s'.runs = s.runs)
    (hes : ∀ job, course job es = []) :
    Courses body s' (ds ++ es) := by
  refine hc.of_step (fun _ => False) (fun job _ => by rw [hjobs]) (fun job _ => hunbegun job)
    (fun job _ => pending_of_unbegun hunbegun hruns job) (fun fiber run hrun _ => ?_)
      (fun job _ => hes job) fun _ hP => hP.elim
  unfold run?
  rw [hruns]
  exact hrun

theorem course_accepted (job : Nat) (group : Option Nat) :
    course job [(.accepted job group : Deed κ μ ρ)] = [.accepted job group] :=
  List.filter_cons_of_pos (beq_self_eq_true job)

theorem course_of_ne {queued : Option (Nat × Option Nat)} (hno : ∀ group, queued ≠ some (job, group)) :
    course job (acceptances queued : List (Deed κ μ ρ)) = [] := by
  cases queued with
  | none => rfl
  | some q =>
    refine List.filter_cons_of_neg fun hq => hno q.2 ?_
    rw [← show q.1 = job from eq_of_beq hq]

theorem Courses.rounds (hc : Courses body s ds) {h' : Hub κ} (hrecorded : Hub.Recorded s.hub h')
    (hrec : h'.jobs[job]? = some record) (hno : job ∉ s.pending) :
      ∃ n, Rounds body record job n (course job ds) ∧ record.started = decide (0 < n) := by
  cases hold : s.hub.jobs[job]? with
  | none =>
    rw [hc.unknown job hold]
    exact ⟨0, .none, hrecorded.fresh job record hrec hold⟩
  | some old =>
    obtain ⟨n, hrounds, hstarted⟩ := (hc.known job old hold).idle_of hno
    obtain ⟨new, hnew, hsame, -⟩ := hrecorded.kept job old hold
    obtain rfl := Option.some.inj (hrec.symm.trans hnew)
    refine ⟨n, hrounds.of_claim ?_ ?_, ?_⟩ <;> rw [hsame]
    exact hstarted

theorem count_accepts {queued : Option (Nat × Option Nat)} (hno : ∀ group, queued ≠ some (job, group)) :
    (acceptances queued : List (Deed κ μ ρ)).countP (Deed.accepts job) = 0 := by
  cases queued with
  | none => rfl
  | some q =>
    refine List.countP_eq_zero.mpr fun d hd hq => hno q.2 ?_
    rw [List.mem_singleton.mp hd] at hq
    rw [← show q.1 = job from eq_of_beq hq]

theorem Courses.called {queued : Option (Nat × Option Nat)} (h : s.Sound) (hc : Courses body s ds)
    (hcalled : Called s s' queued) :
    Courses body s' (ds ++ acceptances queued) := by
  have hrecorded := hcalled.effect.recorded
  have hunbegun := hcalled.unbegun
  have hruns : s'.runs = s.runs := by rw [hcalled.rest]
  have htaken : ∀ job group, queued = some (job, group) →
    (∀ r, s.hub.jobs[job]? = some r → r.scheduled = false) ∧
      ∃ r, s'.hub.jobs[job]? = some r ∧ r.completion = group := fun job group he => by
    have hqueues := hcalled.effect.queues
    rw [he] at hqueues
    cases hqueues with
    | some _ _ _ hfree htaken =>
      obtain ⟨r, hr, -, hgroup⟩ := htaken
      exact ⟨hfree, r, hr, hgroup⟩
  refine ⟨fun job record hrec => ?_, fun job hnone => ?_⟩
  · rw [course_append]
    by_cases hin : job ∈ s.pending
    · -- a pending job is claimed, so the call left its record alone
      obtain ⟨old, hold, hsched⟩ := h.record hin
      have hno : ∀ group, queued ≠ some (job, group) := fun group he => by
        rw [(htaken job group he).1 old hold] at hsched
        cases hsched
      obtain ⟨new, hnew, -, hkept⟩ := hrecorded.kept job old hold
      obtain rfl := Option.some.inj (hrec.symm.trans hnew)
      obtain rfl := hkept hsched
      rw [course_of_ne hno, List.append_nil]
      refine (hc.known job record hold).of_kept (fun _ => rfl) (fun hn => absurd hin hn)
        (fun hi => ?_) fun fiber run hrun _ => ?_
      · rw [← List.count_pos_iff] at hi ⊢
        rw [hunbegun]
        exact Nat.lt_of_lt_of_le hi (Nat.le_add_right _ _)
      · unfold run?
        rw [hruns]
        exact hrun
    · obtain ⟨n, hrounds, hstarted⟩ := hc.rounds hrecorded hrec hin
      by_cases hq : ∃ group, queued = some (job, group)
      · obtain ⟨group, rfl⟩ := hq
        obtain ⟨new, hnew, hgroup⟩ := (htaken job group rfl).2
        obtain rfl := Option.some.inj (hrec.symm.trans hnew)
        refine .queued hrounds hstarted (List.count_pos_iff.mp ?_) ?_
        · rw [hunbegun]
          show 0 < _ + [job].count job
          rw [List.count_singleton_self]
          exact Nat.succ_pos _
        · rw [hgroup]
          exact congrArg (course job ds ++ ·) (course_accepted job group)
      · have hno : ∀ group, queued ≠ some (job, group) := fun group he => hq ⟨group, he⟩
        rw [course_of_ne hno, List.append_nil]
        refine .idle hrounds hstarted ?_
        rw [← List.count_eq_zero] at hin ⊢
        rwa [hcalled.counted_pending, count_accepts hno]
  · have hold : s.hub.jobs[job]? = none := by
      cases hold : s.hub.jobs[job]? with
      | none => rfl
      | some old =>
        obtain ⟨new, hnew, -⟩ := hrecorded.kept job old hold
        rw [hnone] at hnew
        cases hnew
    rw [course_append, hc.unknown job hold]
    refine course_of_ne fun group he => ?_
    obtain ⟨r, hr, -⟩ := (htaken job group he).2
    rw [hnone] at hr
    cases hr

section
variable {action : Action κ μ ρ} (h : s.Sound) (hc : Courses body s ds) (hrun : s.run? fiber = some run)
  (hrec : s.hub.jobs[run.job]? = some record)
include h hc hrun hrec

theorem Courses.acted (hjob : run'.job = run.job) (hdoes : run.rest.Step action run'.rest) :
    Courses body (s.putRun fiber (some run')) (ds ++ [.acted run.job action]) := by
  have hlt : fiber < s.runs.size := (Array.getElem?_eq_some_iff.mp (run?_eq_some_iff.mp hrun)).1
  have hget := run?_putRun hlt (some run')
  refine hc.of_step (· = run.job) (fun _ _ => rfl) (fun _ _ => rfl) (fun job _ => ?_) (fun k r hk hne => ?_)
    (fun job hne => ?_)
    fun job he => ⟨record, he ▸ hrec, ?_⟩
  · rw [pending_putRun hrun hjob]
  · rw [hget, if_neg fun he => hne ?_]
    · exact hk
    · subst he
      rw [Option.some.inj (hk.symm.trans hrun)]
  · exact List.filter_cons_of_neg fun hj => hne (eq_of_beq hj).symm
  · subst he
    obtain ⟨n, before, as, hrounds, hstarted, hdone, hcourse⟩ := h.course_of_run (hc.known _ record hrec) hrun
    refine .running hrounds hstarted ((hget fiber).trans (if_pos rfl)) hjob (hdone.snoc hdoes) ?_
    rw [hcourse, List.map_append, show course run.job
      [(.acted run.job action : Deed κ μ ρ)] = [.acted run.job action] from
      List.filter_cons_of_pos (beq_self_eq_true _)]
    simp only [List.append_assoc, List.cons_append, List.map_cons, List.map_nil]

theorem Courses.ended {hub : Hub κ} (hover : run.rest.Over)
    (hjobs : hub.jobs = s.hub.jobs.setIfInBounds run.job (Hub.closed record))
    (hunbegun : ∀ job, ((s.putRun fiber none).setHub hub).unbegun.count job = s.unbegun.count job) :
    Courses body ((s.putRun fiber none).setHub hub) (ds ++ [.ended run.job record.completion]) := by
  have hlt : fiber < s.runs.size := (Array.getElem?_eq_some_iff.mp (run?_eq_some_iff.mp hrun)).1
  have hp : s.pending.Perm (run.job :: ((s.putRun fiber none).setHub hub).pending) :=
    pending_putRun_none hrun hunbegun rfl
  have hget : ∀ job, hub.jobs[job]? = if run.job = job then some (Hub.closed record) else s.hub.jobs[job]? :=
    fun job => by
    rw [hjobs]
    exact getElem?_set _ hrec job
  refine hc.of_step (· = run.job) (fun job hne => (hget job).trans (if_neg (Ne.symm hne)))
    (fun job _ => hunbegun job)
    (fun job hne => ?_) (fun k r hk hne => ?_) (fun job hne => ?_) fun job he => ⟨Hub.closed record, ?_, ?_⟩
  · rw [hp.count_eq, List.count_cons_of_ne (Ne.symm hne)]
  · refine (run?_putRun hlt none k).trans ((if_neg fun he => hne ?_).trans hk)
    subst he
    rw [Option.some.inj (hk.symm.trans hrun)]
  · exact List.filter_cons_of_neg fun hj => hne (eq_of_beq hj).symm
  · exact (hget job).trans (if_pos he.symm)
  · subst he
    obtain ⟨n, before, as, hrounds, hstarted, hdone, hcourse⟩ := h.course_of_run (hc.known _ record hrec) hrun
    have hround :
      Rounds body record run.job (n + 1) (before ++ (.accepted run.job record.completion :: .began run.job ::
      as.map (.acted run.job) ++ [.ended run.job record.completion])) := hrounds.round hdone hover
    have hno : run.job ∉ ((s.putRun fiber none).setHub hub).pending := h.not_mem_of_perm hp
    have hclosing :
        course run.job [(.ended run.job record.completion : Deed κ μ ρ)] =
        [.ended run.job record.completion] :=
      List.filter_cons_of_pos (beq_self_eq_true _)
    rw [hcourse, hclosing, List.append_assoc]
    exact .idle (hround.of_claim rfl rfl) (hstarted.trans (decide_eq_true (Nat.succ_pos n)).symm) hno

end

theorem Courses.began (h : s.Sound) (hc : Courses body s ds) (hrec : s.hub.jobs[job]? = some record)
    (hnone : s.runs[fiber]? = some none)
    (hjobs : s'.hub.jobs = s.hub.jobs.setIfInBounds job { record with started := true })
    (hruns : s'.runs = s.runs.setIfInBounds fiber (some ⟨job, [], bodyOf body record⟩))
    (hunbegun : UnbegunBy s s' [.began job]) :
    Courses body s' (ds ++ [.began job]) := by
  have hbegan : ∀ j, s'.unbegun.count j + [job].count j = s.unbegun.count j + 0 := hunbegun
  have hget :
      ∀ j, s'.hub.jobs[j]? = if job = j then some { record with started := true } else s.hub.jobs[j]? :=
      fun j => by
    rw [hjobs]
    exact getElem?_set _ hrec j
  have hrun? : ∀ k, s'.run? k = if fiber = k then some ⟨job, [], bodyOf body record⟩ else s.run? k :=
    fun k => by
    unfold run?
    rw [hruns]
    exact run?_putRun (Array.getElem?_eq_some_iff.mp hnone).1 _ k
  have hsame : ∀ j, j ≠ job → s'.unbegun.count j = s.unbegun.count j := fun j hne => by
    have := hbegan j
    rwa [List.count_cons_of_ne (Ne.symm hne), List.count_nil] at this
  refine hc.of_step (· = job) (fun j hne => (hget j).trans (if_neg (Ne.symm hne))) hsame (fun j hne => ?_)
    (fun k r hk _ => ?_) (fun j hne => ?_) fun j he => ⟨{ record with started := true }, ?_, ?_⟩
  · have hcount := count_putRun hnone (some ⟨job, [], bodyOf body record⟩) j
    simp only [jobOf, Option.map_none, Option.toList_none, List.count_nil, Option.map_some,
      Option.toList_some, List.count_cons_of_ne (Ne.symm hne)] at hcount
    rw [count_pending, count_pending, hsame j hne]
    unfold runJobs at hcount ⊢
    rw [hruns]
    exact congrArg (_ + ·) hcount
  · refine (hrun? k).trans ((if_neg fun he => ?_).trans hk)
    subst he
    rw [run?_eq_some_iff.mp hk] at hnone
    cases Option.some.inj hnone
  · exact List.filter_cons_of_neg fun hj => hne (eq_of_beq hj).symm
  · exact (hget j).trans (if_pos he.symm)
  · subst he
    have hin : j ∈ s.unbegun := List.count_pos_iff.mp (by
      have := hbegan j
      rw [List.count_singleton_self] at this
      omega)
    obtain ⟨n, before, hrounds, hstarted, hcourse⟩ := h.course_of_unbegun (hc.known _ record hrec) hin
    rw [hcourse, show course j [(.began j : Deed κ μ ρ)] = [.began j] from List.filter_cons_of_pos
      (beq_self_eq_true _)]
    have hdoes : (bodyAfter body record n).Does [] (bodyOf body record) := by
      rw [bodyOf_eq hstarted]
      exact .nil _
    exact .running (hrounds.of_claim rfl rfl) rfl ((hrun? fiber).trans (if_pos rfl)) rfl hdoes
      (List.append_assoc ..)

theorem deaths_ne_nil {i : Nat} {w : Worker} (hw : s.workers[i]? = some w) (hstage : w.stage = .dead) :
    s.deaths ≠ [] := by
  have hmem :
      () ∈ s.deaths := mem_gather.mpr ⟨i, w, hw, by rw [if_pos hstage]; exact List.mem_singleton_self _⟩
  exact List.ne_nil_of_mem hmem

theorem deaths_setWorker_dead {w : Worker} (hw : s.workers[worker]? = some w) :
    (s.setWorker worker { w with stage := .dead }).deaths ≠ [] :=
  deaths_ne_nil ((getElem?_setWorker hw _ worker).trans (if_pos rfl)) rfl

theorem Turn.courses (h : s.Sound) (hc : Courses body s ds) (halive : s'.deaths = [])
    (ht : Turn body s worker s' es) :
    Courses body s' (ds ++ es) := by
  have hunbegun := ht.unbegun h
  cases ht with
  | rest => rwa [List.append_nil]
  | exhausted | started | parked | passed | returned | resumed | left =>
    exact hc.of_same rfl hunbegun rfl fun _ => rfl
  | @went w fiber run run' s₁ queued action hon hjob hcalled hdoes =>
    have h₁ := hcalled.sound h
    have hrun : s₁.run? fiber = some run := by
      rw [← hon.run, hcalled.rest]
      rfl
    obtain ⟨record, hrec, -⟩ := h₁.record (mem_pending_of_run hrun)
    rw [← List.append_assoc]
    exact (hc.called h hcalled).acted h₁ hrun hrec hjob hdoes
  | ended hon hover hrec hend =>
    exact hc.ended h hon.run hrec hover (((Hub.ends_endRun h.tidy hrec).pin hend).whole rfl).1 hunbegun
  | died hon => exact absurd halive (deaths_setWorker_dead hon.here)
  | began hon hrec hway =>
    exact hc.began h hrec (h.runs_of_loop hon) rfl rfl hunbegun

/-! ## Runs -/

theorem deaths_of_set {w new : Worker} (hw : s.workers[worker]? = some w) (hstage : w.stage ≠ .dead)
    (hworkers : s'.workers = s.workers.setIfInBounds worker new) (halive : s'.deaths = []) :
      s.deaths = [] := by
  have hlen := length_gather_set (fun w : Worker => if w.stage = .dead then [()] else []) new hw
  rw [← hworkers, show gather _ s'.workers = [] from halive, if_neg hstage] at hlen
  refine List.eq_nil_of_length_eq_zero (show (gather _ s.workers).length = 0 from ?_)
  rw [List.length_nil] at hlen
  omega

theorem Turn.alive (ht : Turn body s worker s' es) (halive : s'.deaths = []) : s.deaths = [] := by
  cases ht with
  | rest | exhausted | ended => exact halive
  | started hw hstage => exact deaths_of_set hw (by rw [hstage]; decide) rfl halive
  | went hon hjob hcalled =>
    rw [show s.deaths = _ from congrArg (gather _) (congrArg System.workers hcalled.rest).symm]
    exact halive
  | parked hon | died hon | began hon | passed hon | returned hon | resumed hon | left hon =>
    exact deaths_of_set hon.here (by rw [hon.stage]; decide) rfl halive

end FiberScheduler.System
