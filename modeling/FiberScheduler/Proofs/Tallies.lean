import FiberScheduler.Proofs.Shapes

/-!
# Accepted jobs

Every step keeps the number of accepted jobs equal to the number of pending ones and of
workers that died, and every pending job pending once.
-/

namespace FiberScheduler

theorem Hub.isScheduled_iff {κ : Type} {h : Hub κ} {job : Nat} :
    h.isScheduled job = true ↔ ∃ r, h.jobs[job]? = some r ∧ r.scheduled = true :=
  Option.any_eq_true ..

namespace System

variable {κ μ ρ : Type} {body : κ → Program κ μ ρ Unit} {s s' : System κ μ ρ} {worker : Nat}
  {ds : List (Deed κ μ ρ)}

/-! ## Counting pending jobs -/

theorem count_unbegun (s : System κ μ ρ) (job : Nat) :
    s.unbegun.count job = s.hub.lanes.queued.count job + s.handoffs.count job :=
  List.count_append

theorem count_pending (s : System κ μ ρ) (job : Nat) :
    s.pending.count job = s.unbegun.count job + s.runJobs.count job :=
  List.count_append

theorem perm_of_counts (h : ∀ job, s'.pending.count job = s.pending.count job) : s'.pending.Perm s.pending :=
  List.perm_iff_count.mpr h

theorem getElem?_runs (h : Shape s) {fiber : Nat} (hlt : fiber < s.pool.slots.size) :
    s.runs[fiber]? = some (s.run? fiber) := by
  rw [← h.runs] at hlt
  rw [run?, Array.getElem?_eq_getElem hlt]
  rfl

theorem Sound.runs_of_loop (h : s.Sound) {w : Worker} {fiber : Nat} (hon : OnLoop s worker w fiber) :
    s.runs[fiber]? = some none := by
  have hlt := h.inside fiber (by have := (h.of_current hon.here hon.current).1; unfold places; omega)
  rw [getElem?_runs h.toShape hlt, hon.run]

theorem count_putRun {fiber : Nat} {old : Option (Run κ μ ρ)} (hold : s.runs[fiber]? = some old)
    (run : Option (Run κ μ ρ)) (job : Nat) :
    (gather jobOf (s.runs.setIfInBounds fiber run)).count job + (jobOf old).count job =
      s.runJobs.count job + (jobOf run).count job :=
  count_gather_set jobOf run hold job

theorem pending_putRun {fiber : Nat} {run run' : Run κ μ ρ} (hrun : s.run? fiber = some run)
    (hjob : run'.job = run.job) : (s.putRun fiber (some run')).pending = s.pending := by
  have hruns : gather jobOf (s.runs.setIfInBounds fiber (some run')) = s.runJobs :=
    gather_set_of_eq jobOf (run?_eq_some_iff.mp hrun) (by simp only [jobOf, Option.map_some, hjob])
  exact congrArg (s.unbegun ++ ·) hruns

theorem count_handoffs {w : Worker} (hw : s.workers[worker]? = some w) (new : Worker) (job : Nat) :
    (gather (·.handoff.toList) (s.workers.setIfInBounds worker new)).count job + w.handoff.toList.count job =
      s.handoffs.count job + new.handoff.toList.count job :=
  count_gather_set (·.handoff.toList) new hw job

theorem deaths_kept {w : Worker} (hw : s.workers[worker]? = some w) (new : Worker)
    (hs : new.stage = .dead ↔ w.stage = .dead) :
    gather (fun w => if w.stage = .dead then [()] else []) (s.workers.setIfInBounds worker new) = s.deaths :=
  gather_set_of_eq _ hw (by simp only [hs])

theorem stageOf_setWorker {w new : Worker} {workers : Array Worker} (hw : workers[worker]? = some w)
    (i : Nat) :
    ((workers.setIfInBounds worker new)[i]?).map (·.stage) = if worker = i then some new.stage else
      (workers[i]?).map (·.stage) := by
  rw [getElem?_set new hw]
  split <;> rfl

def someLeft (s : System κ μ ρ) : Prop :=
  ∃ i, s.stageOf i = some .left

theorem someLeft_of_set {w new : Worker} (hw : s.workers[worker]? = some w)
    (hworkers : s'.workers = s.workers.setIfInBounds worker new) (hnew : new.stage ≠ .left)
    (hs : s'.someLeft) : s.someLeft := by
  obtain ⟨i, hi⟩ := hs
  unfold stageOf at hi
  rw [hworkers, stageOf_setWorker hw] at hi
  by_cases hwi : worker = i
  · rw [if_pos hwi] at hi
    exact absurd (Option.some.inj hi) hnew
  · rw [if_neg hwi] at hi
    exact ⟨i, hi⟩

theorem mem_pending_of_run {fiber : Nat} {run : Run κ μ ρ} (hrun : s.run? fiber = some run) :
    run.job ∈ s.pending := by
  refine List.mem_append_right _ (mem_gather.mpr ⟨fiber, some run, run?_eq_some_iff.mp hrun, ?_⟩)
  exact List.mem_singleton_self _

/-- No worker leaves while a job is pending. -/
theorem Tally.not_left (h : Tally s) {job : Nat} (hj : job ∈ s.pending) : ¬s.someLeft := fun hs => by
  rw [(h.left hs).2.1] at hj
  cases hj

/-! ## Jobs that have not begun -/

def Deed.accepts (job : Nat) : Deed κ μ ρ → Bool
  | .accepted j _ => j == job
  | _ => false

def Deed.begins (job : Nat) : Deed κ μ ρ → Bool
  | .began j => j == job
  | _ => false

section
variable {w new : Worker} (hw : s.workers[worker]? = some w)
  (hworkers : s'.workers = s.workers.setIfInBounds worker new)
include hw hworkers

theorem unbegun_of_set (job : Nat) :
    s'.unbegun.count job + s.hub.lanes.queued.count job + w.handoff.toList.count job =
    s.unbegun.count job + s'.hub.lanes.queued.count job + new.handoff.toList.count job := by
  have := count_handoffs hw new job
  rw [count_unbegun, count_unbegun]
  unfold handoffs at this ⊢
  rw [hworkers]
  omega

theorem unbegun_kept (hh : new.handoff = w.handoff) (hqueued : s'.hub.lanes.queued.Perm s.hub.lanes.queued)
    (job : Nat) :
    s'.unbegun.count job = s.unbegun.count job := by
  have := unbegun_of_set hw hworkers job
  rw [hh, hqueued.count_eq] at this
  omega

theorem unbegun_passed {j : Nat} (hno : w.handoff = none) (hnew : new.handoff = some j)
    (hqueued : s.hub.lanes.queued.Perm (j :: s'.hub.lanes.queued)) (job : Nat) :
      s'.unbegun.count job = s.unbegun.count job := by
  have := unbegun_of_set hw hworkers job
  rw [hno, hnew, hqueued.count_eq, ← List.singleton_append, List.count_append] at this
  simp only [Option.toList_none, Option.toList_some, List.count_nil] at this
  omega

end

theorem count_queued_take {h : Hub κ} {sources : List Affinity} {job : Nat} {p : Priority} {a : Affinity}
    {lanes : Lanes} (htake : h.lanes.take sources = some (.job job p a, lanes)) (j : Nat) :
    h.lanes.queued.count j = lanes.queued.count j + [job].count j := by
  rw [(Lanes.take_job htake).1.count_eq, ← List.singleton_append, List.count_append]
  omega

theorem Called.unbegun {queued : Option (Nat × Option Nat)} (hc : Called s s' queued) (job : Nat) :
    s'.unbegun.count job = s.unbegun.count job + (acceptances queued : List (Deed κ μ ρ)).countP
      (Deed.accepts job) := by
  have hhandoffs : s'.handoffs = s.handoffs := by rw [hc.rest]; rfl
  rw [count_unbegun, count_unbegun, hhandoffs]
  have hqueues := hc.effect.queues
  cases hqueues with
  | none hqueued => rw [hqueued]; rfl
  | @some j group hqueued =>
    rw [hqueued.count_eq, ← List.singleton_append, List.count_append]
    show [j].count job + _ + _ = _ + [j].count job
    omega

theorem Called.counted_pending {queued : Option (Nat × Option Nat)} (hc : Called s s' queued) (job : Nat) :
    s'.pending.count job = s.pending.count job + (acceptances queued : List (Deed κ μ ρ)).countP
      (Deed.accepts job) := by
  have hruns : s'.runJobs = s.runJobs := by rw [hc.rest]; rfl
  rw [count_pending, count_pending, hc.unbegun, hruns]
  omega

def UnbegunBy (s s' : System κ μ ρ) (ds : List (Deed κ μ ρ)) : Prop :=
  ∀ job, s'.unbegun.count job + ds.countP (Deed.begins job) = s.unbegun.count job + ds.countP
    (Deed.accepts job)

theorem unbegunBy_of_kept (hkept : ∀ job, s'.unbegun.count job = s.unbegun.count job)
    (hbegins : ∀ job, ds.countP (Deed.begins job) = 0) (haccepts : ∀ job, ds.countP (Deed.accepts job) = 0) :
      UnbegunBy s s' ds :=
  fun job => by rw [hkept, hbegins, haccepts]

theorem Turn.unbegun (h : s.Sound) (ht : Turn body s worker s' ds) : UnbegunBy s s' ds := by
  cases ht with
  | rest | exhausted => exact unbegunBy_of_kept (fun _ => rfl) (fun _ => rfl) fun _ => rfl
  | started hw => exact unbegunBy_of_kept (unbegun_kept hw rfl rfl (.refl _)) (fun _ => rfl) fun _ => rfl
  | parked hon | left hon =>
    exact unbegunBy_of_kept (unbegun_kept hon.here rfl rfl (.refl _)) (fun _ => rfl) fun _ => rfl
  | resumed hon hno htake =>
    exact unbegunBy_of_kept (unbegun_kept hon.here rfl rfl (.of_eq (Lanes.take_fiber htake).2.1))
      (fun _ => rfl) fun _ => rfl
  | @went w fiber run run' s₁ queued action hon hjob hcalled =>
    intro job
    have := hcalled.unbegun job
    have hbegins :
        (acceptances queued : List (Deed κ μ ρ)).countP (Deed.begins job) = 0 := by cases queued <;> rfl
    rw [List.countP_append, List.countP_append, hbegins]
    exact this
  | ended hon hover hrec hend =>
    have hqueued := ((Hub.ends_endRun h.tidy hrec).pin hend).queued
    exact unbegunBy_of_kept (unbegun_kept hon.here (set_self hon.here).symm rfl (.of_eq hqueued))
      (fun _ => rfl) fun _ => rfl
  | died hon hover hrec hend =>
    have hqueued := ((Hub.ends_endRun h.tidy hrec).pin hend).queued
    exact unbegunBy_of_kept (unbegun_kept hon.here rfl rfl (.of_eq hqueued)) (fun _ => rfl) fun _ => rfl
  | @began w w' fiber j record lanes hon hrec hway =>
    intro job
    let new := ((s.setHub ({ s.hub with lanes }.setJob j
      { record with started := true })).setWorker worker w').putRun fiber (some ⟨j, [], bodyOf body record⟩)
    have hset : new.unbegun.count job + _ + _ = _ + lanes.queued.count job + _ :=
      unbegun_of_set hon.here rfl job
    show new.unbegun.count job + [j].count job = _ + 0
    rcases hway with ⟨hhandoff, rfl, rfl⟩ | ⟨p, a, hno, htake, rfl, -⟩
    · rw [hhandoff] at hset
      simp only [Option.toList_none, Option.toList_some, List.count_nil] at hset
      omega
    · have := count_queued_take htake job
      have hset := Nat.add_right_cancel hset
      omega
  | passed hon hno htake =>
    exact unbegunBy_of_kept (unbegun_passed hon.here rfl hno rfl (Lanes.take_job htake).1)
      (fun _ => rfl) fun _ => rfl
  | returned hon hno htake hneeds hnormal hall hput =>
    have hqueued := (Lanes.pushJob_ok hput).1.trans (Lanes.take_job htake).1.symm
    exact unbegunBy_of_kept (unbegun_kept hon.here rfl rfl hqueued) (fun _ => rfl) fun _ => rfl

/-! ## Steps that move jobs around -/

theorem Tally.of_same (h : Tally s) (hp : ∀ job, s'.pending.count job = s.pending.count job)
    (hd : s'.deaths = s.deaths) (hsched : ∀ job, s'.hub.isScheduled job = s.hub.isScheduled job)
    (hcleared : s'.hub.Cleared) (hlimit : s'.hub.jobs.size = s.hub.jobs.size)
    (hactive : s'.hub.active = s.hub.active) (hstopping : s'.hub.stopping = s.hub.stopping)
    (hleft : s'.someLeft → s.hub.stopping = true ∧ s.pending = [] ∧ s.deaths = []) : Tally s' where
  once := fun job => by rw [hp, hsched]; exact h.once job
  cleared := hcleared
  limit := by rw [hlimit]; exact h.limit
  active := by rw [hactive, hd, (perm_of_counts hp).length_eq]; exact h.active
  left := fun hs => by
    obtain ⟨hstop, hnil, hdead⟩ := hleft hs
    refine ⟨hstopping.trans hstop, ?_, hd.trans hdead⟩
    exact List.Perm.eq_nil (hnil ▸ perm_of_counts hp)

theorem Tally.of_called {queued : Option (Nat × Option Nat)} (h : Tally s) (hc : Called s s' queued) :
    Tally s' := by
  obtain ⟨hub, kept, memory, rfl⟩ : ∃ hub kept memory, s' = { s with hub, kept, memory } := ⟨_, _, _, hc.rest⟩
  have heffect : Hub.Effect s.hub hub queued := hc.effect
  have hstopping : hub.stopping = s.hub.stopping := by rw [heffect.calm.rest]
  have hmono : ∀ job, s.hub.isScheduled job = true → hub.isScheduled job = true := fun job hs => by
    obtain ⟨r, hr, hrs⟩ := Hub.isScheduled_iff.mp hs
    obtain ⟨r', hr', -, hkept⟩ := heffect.recorded.kept job r hr
    exact Hub.isScheduled_iff.mpr ⟨r', hr', hkept hrs ▸ hrs⟩
  have hle : ∀ job, s.pending.count job ≤ if hub.isScheduled job then 1 else 0 := fun job => by
    have := h.once job
    cases hs : s.hub.isScheduled job with
    | true =>
      rw [hs] at this
      rwa [hmono job hs]
    | false => rw [hs] at this; exact Nat.le_trans this (Nat.zero_le _)
  have hqueues := heffect.queues
  cases hqueues with
  | none hqueued hactive =>
    have hp : ({ s with hub, kept, memory } : System κ μ ρ).pending = s.pending := by
      unfold pending unbegun
      rw [hqueued]
      rfl
    refine ⟨fun job => by rw [hp]; exact hle job, heffect.recorded.cleared, heffect.recorded.limit h.limit,
      ?_, fun hs => ?_⟩
    · rw [hp]
      exact hactive.trans h.active
    · obtain ⟨hstop, hnil, hdead⟩ := h.left hs
      exact ⟨hstopping.trans hstop, hp.trans hnil, hdead⟩
  | @some job group hqueued hactive hopen hfree htaken =>
    have hp : ({ s with hub, kept, memory } : System κ μ ρ).pending.Perm (job :: s.pending) := by
      unfold pending unbegun
      rw [List.append_assoc, List.append_assoc, ← List.cons_append]
      exact hqueued.append_right _
    have hnot : s.hub.isScheduled job = false := by
      rw [← Bool.not_eq_true]
      intro hs
      obtain ⟨r, hr, hrs⟩ := Hub.isScheduled_iff.mp hs
      rw [hfree r hr] at hrs
      cases hrs
    have hnow : hub.isScheduled job = true := by
      obtain ⟨r, hr, hrs, -⟩ := htaken
      exact Hub.isScheduled_iff.mpr ⟨r, hr, hrs⟩
    refine ⟨fun j => ?_, heffect.recorded.cleared, heffect.recorded.limit h.limit, ?_, fun hs => ?_⟩
    · rw [hp.count_eq]
      by_cases hj : job = j
      · subst hj
        have := h.once job
        rw [hnot, if_neg (by decide)] at this
        rw [List.count_cons_self, if_pos hnow]
        omega
      · rw [List.count_cons_of_ne hj]
        exact hle j
    · have hlen : (job :: s.pending).length + s.deaths.length = s.pending.length + s.deaths.length + 1 := by
        rw [List.length_cons]; omega
      show hub.active = UInt64.ofNat (_ + s.deaths.length)
      rw [hp.length_eq, hlen, hactive, h.active]
      exact (UInt64.ofNat_add _ 1).symm
    · obtain ⟨hstop, hnil, hdead⟩ := h.left hs
      refine absurd ⟨?_, hstop⟩ hopen
      rw [h.active, hnil, hdead]
      rfl

/-! ## Steps that end runs -/

section
variable {w : Worker} {fiber : Nat} {run : Run κ μ ρ} {record : Job κ} {hub : Hub κ}

theorem pending_putRun_none (hrun : s.run? fiber = some run)
    (hunbegun : ∀ job, s'.unbegun.count job = s.unbegun.count job)
    (hruns : s'.runs = s.runs.setIfInBounds fiber none) : s.pending.Perm (run.job :: s'.pending) := by
  refine List.perm_iff_count.mpr fun job => ?_
  have := count_putRun (run?_eq_some_iff.mp hrun) none job
  rw [← List.singleton_append, List.count_append, count_pending, count_pending, hunbegun]
  unfold runJobs at this ⊢
  rw [hruns]
  simp only [jobOf, Option.map_none, Option.toList_none, List.count_nil, Option.map_some,
    Option.toList_some] at this
  omega

structure Closed (h h' : Hub κ) (job : Nat) : Prop where
  scheduled : ∀ j, h'.isScheduled j = if job = j then false else h.isScheduled j
  cleared : h'.Cleared
  size : h'.jobs.size = h.jobs.size

theorem closed_of_jobs {h h' : Hub κ} {job : Nat} (hcleared : h.Cleared) (hrec : h.jobs[job]? = some record)
    (hjobs : h'.jobs = h.jobs.setIfInBounds job (Hub.closed record)) : Closed h h' job := by
  have hget := getElem?_set (Hub.closed record) hrec
  refine ⟨fun j => ?_, fun j r hr hs => ?_, by rw [hjobs, Array.size_setIfInBounds]⟩
  · unfold Hub.isScheduled
    rw [hjobs, hget]
    by_cases hj : job = j
    · rw [if_pos hj, if_pos hj]; rfl
    · rw [if_neg hj, if_neg hj]
  · rw [hjobs, hget] at hr
    by_cases hj : job = j
    · rw [if_pos hj] at hr
      rw [← Option.some.inj hr]; rfl
    · rw [if_neg hj] at hr
      exact hcleared j r hr hs

theorem Tally.of_end (h : Tally s) {job : Nat} (hp : s.pending.Perm (job :: s'.pending))
    (hjobs : s'.hub.jobs = s.hub.jobs ∨ Closed s.hub s'.hub job)
    (hactive : s'.hub.active = UInt64.ofNat (s'.pending.length + s'.deaths.length))
    (hleft : s'.someLeft → s.someLeft) :
    Tally s' := by
  have hnot : ¬s.someLeft := h.not_left (hp.mem_iff.mpr List.mem_cons_self)
  have hcount : ∀ j, s'.pending.count j + (if job = j then 1 else 0) ≤ if s.hub.isScheduled j then 1 else 0 :=
    fun j => by
    have hle := h.once j
    rw [hp.count_eq] at hle
    by_cases hj : job = j
    · subst hj; rwa [if_pos rfl, ← List.count_cons_self]
    · rwa [if_neg hj, Nat.add_zero, ← List.count_cons_of_ne hj]
  have hleft : s'.someLeft → s'.hub.stopping = true ∧ s'.pending = [] ∧ s'.deaths = [] :=
    fun hs => absurd (hleft hs) hnot
  rcases hjobs with hjobs | hclosed
  · have hsched : ∀ j, s'.hub.isScheduled j = s.hub.isScheduled j :=
      fun j => by unfold Hub.isScheduled; rw [hjobs]
    refine ⟨fun j => ?_, fun j r hr => h.cleared j r (by rwa [hjobs] at hr), by rw [hjobs]; exact h.limit,
      hactive, hleft⟩
    rw [hsched]
    exact Nat.le_trans (Nat.le_add_right _ _) (hcount j)
  · refine ⟨fun j => ?_, hclosed.cleared, by rw [hclosed.size]; exact h.limit, hactive, hleft⟩
    have := hcount j
    rw [hclosed.scheduled]
    by_cases hj : job = j
    · rw [if_pos hj] at this ⊢
      rw [if_neg (by decide)]
      split at this <;> omega
    · rw [if_neg hj] at this ⊢
      exact this

end

/-! ## Steps -/

theorem isScheduled_started {h : Hub κ} {lanes : Lanes} {job : Nat} {record : Job κ}
    (hrec : h.jobs[job]? = some record) (j : Nat) :
    (({ h with lanes } : Hub κ).setJob job { record with started := true }).isScheduled j =
      h.isScheduled j := by
  have hget := getElem?_set { record with started := true } hrec j
  unfold Hub.isScheduled
  rw [show (({ h with lanes } : Hub κ).setJob job { record with started := true }).jobs[j]? = _ from hget]
  by_cases hj : job = j
  · subst hj; rw [if_pos rfl, hrec]; rfl
  · rw [if_neg hj]

theorem cleared_started {h : Hub κ} (hc : h.Cleared) {lanes : Lanes} {job : Nat} {record : Job κ}
    (hrec : h.jobs[job]? = some record) :
    (({ h with lanes } : Hub κ).setJob job { record with started := true }).Cleared := fun j r hr hs => by
  have hr : (h.jobs.setIfInBounds job { record with started := true })[j]? = some r := hr
  rw [getElem?_set _ hrec] at hr
  by_cases hj : job = j
  · rw [if_pos hj] at hr
    obtain rfl := Option.some.inj hr
    exact hc job record hrec hs
  · rw [if_neg hj] at hr
    exact hc j r hr hs

theorem Tally.length_pending (h : Tally s) : s.pending.length ≤ s.hub.jobs.size := by
  have hsub : s.pending ⊆ List.range s.hub.jobs.size := fun j hj => by
    have hpos := List.count_pos_iff.mpr hj
    have hle := h.once j
    cases hs : s.hub.isScheduled j with
    | false => rw [hs] at hle; exact absurd hle (by simp; omega)
    | true =>
      obtain ⟨r, hr, -⟩ := Hub.isScheduled_iff.mp hs
      exact List.mem_range.mpr (Array.getElem?_eq_some_iff.mp hr).1
  have hle := h.nodup_pending.length_le_of_subset hsub
  rwa [List.length_range] at hle

theorem length_gather_le {α β : Type} {f : α → List β} (hf : ∀ a, (f a).length ≤ 1) (xs : Array α) :
    (gather f xs).length ≤ xs.size := by
  have : ∀ l : List α, (l.flatMap f).length ≤ l.length := fun l => by
    induction l with
    | nil => exact Nat.le_refl _
    | cons a l ih =>
      have := hf a
      rw [List.flatMap_cons, List.length_append, List.length_cons]
      omega
  rw [← Array.length_toList]
  exact this _

/-- Once no accepted job is left, none is pending and no worker has died. -/
theorem Sound.idle_of_active (h : s.Sound) (ha : s.hub.active = 0) : s.pending = [] ∧ s.deaths = [] := by
  have hactive := h.active
  have hp := h.length_pending
  have hlimit := h.limit
  have hd : s.deaths.length ≤ s.workers.size := length_gather_le (fun w => by split <;> simp) _
  have hw := h.staffed.2
  rw [ha] at hactive
  have hzero := congrArg UInt64.toNat hactive
  rw [UInt64.toNat_ofNat'] at hzero
  have h32 : wordSize 32 = 4294967296 := rfl
  have h63 : Hub.recordLimit = 9223372036854775808 := rfl
  rw [Nat.mod_eq_of_lt (by omega)] at hzero
  have hzero : s.pending.length + s.deaths.length = 0 := hzero.symm
  exact ⟨List.eq_nil_of_length_eq_zero (by omega), List.eq_nil_of_length_eq_zero (by omega)⟩

theorem pending_of_unbegun (hunbegun : ∀ job, s'.unbegun.count job = s.unbegun.count job)
    (hruns : s'.runs = s.runs) (job : Nat) :
    s'.pending.count job = s.pending.count job := by
  rw [count_pending, count_pending, hunbegun]
  unfold runJobs
  rw [hruns]

theorem pending_began {fiber : Nat} {run : Run κ μ ρ} (hnone : s.runs[fiber]? = some none)
    (hruns : s'.runs = s.runs.setIfInBounds fiber (some run)) (hunbegun : UnbegunBy s s' [.began run.job])
    (job : Nat) :
    s'.pending.count job = s.pending.count job := by
  have hrun := count_putRun hnone (some run) job
  have hbegan : _ + [run.job].count job = _ + 0 := hunbegun job
  simp only [jobOf, Option.map_none, Option.toList_none, List.count_nil, Option.map_some,
    Option.toList_some] at hrun
  rw [count_pending, count_pending]
  unfold runJobs at hrun ⊢
  rw [hruns]
  omega

theorem Turn.tally (h : s.Sound) (ht : Turn body s worker s' ds) : Tally s' := by
  have hjob := h.toTally
  have hunbegun := ht.unbegun h
  cases ht with
  | rest => exact hjob
  | exhausted _ hall seed =>
    exact hjob.of_same (fun _ => rfl) rfl (fun _ => rfl) hjob.cleared rfl rfl rfl hjob.left
  | @started w fiber slot hw hstage htier hx hfree seed =>
    exact hjob.of_same (pending_of_unbegun hunbegun rfl) (deaths_kept hw _ (by simp [hstage]))
      (fun _ => rfl) hjob.cleared
      rfl rfl rfl fun hs => hjob.left (someLeft_of_set hw rfl (by simp) hs)
  | @went w fiber run run' s₁ queued action hon hsame hcalled hdoes hsource =>
    have h₁ := hjob.of_called hcalled
    have hrun : s₁.run? fiber = some run := by
      rw [hcalled.rest]
      exact hon.run
    exact h₁.of_same (fun j => by rw [pending_putRun hrun hsame]) rfl
      (fun _ => rfl) h₁.cleared rfl rfl rfl h₁.left
  | parked hon | passed hon | returned hon | resumed hon =>
    exact hjob.of_same (pending_of_unbegun hunbegun rfl) (deaths_kept hon.here _ (by rfl))
      (fun _ => rfl) hjob.cleared rfl rfl rfl
      fun hs => hjob.left (someLeft_of_set hon.here rfl (by simp [hon.stage]) hs)
  | @ended w fiber run record panic hub hon hover hrec hend =>
    have hending := (Hub.ends_endRun h.tidy hrec).pin hend
    obtain ⟨hjobs, hactive⟩ := hending.whole rfl
    have hp : s.pending.Perm (run.job :: ((s.putRun fiber none).setHub hub).pending) :=
      pending_putRun_none hon.run hunbegun rfl
    refine hjob.of_end hp (Or.inr (closed_of_jobs hjob.cleared hrec hjobs)) ?_ id
    have hlen : s.pending.length + s.deaths.length =
        ((s.putRun fiber none).setHub hub).pending.length +
          ((s.putRun fiber none).setHub hub).deaths.length + 1 := by
      rw [hp.length_eq, List.length_cons]
      exact Nat.add_right_comm _ _ _
    show hub.active = _
    rw [hactive, hjob.active, hlen, UInt64.ofNat_add]
    exact UInt64.add_sub_cancel _ _
  | @died w fiber run record panic fault hub hon hover hrec hend =>
    have hending := (Hub.ends_endRun h.tidy hrec).pin hend
    obtain ⟨hjobs, hactive⟩ := hending.cut (by simp)
    let s' := ((s.putRun fiber none).setHub hub).setWorker worker { w with stage := .dead }
    have hp : s.pending.Perm (run.job :: s'.pending) := pending_putRun_none hon.run hunbegun rfl
    have hjobs : hub.jobs = s.hub.jobs ∨ Closed s.hub hub run.job :=
      hjobs.imp id (closed_of_jobs hjob.cleared hrec)
    refine hjob.of_end hp hjobs ?_ (someLeft_of_set hon.here rfl (by simp))
    -- The job ends and the worker dies with it: one less pending, one more death, the same count.
    have hdead : s'.deaths.length = s.deaths.length + 1 := by
      have := length_gather_set (fun w : Worker => if w.stage = .dead then [()] else [])
        { w with stage := .dead } hon.here
      rwa [hon.stage, if_neg (by decide), if_pos rfl] at this
    have hlen : s.pending.length + s.deaths.length = s'.pending.length + s'.deaths.length := by
      rw [hp.length_eq, hdead, List.length_cons]
      omega
    show hub.active = UInt64.ofNat (s'.pending.length + s'.deaths.length)
    rw [hactive, hjob.active, hlen]
  | @began w w' fiber job record lanes hon hrec hway =>
    have hstage : w'.stage = w.stage := by rcases hway with ⟨-, rfl, -⟩ | ⟨p, a, -, -, rfl, -⟩ <;> rfl
    have hruns := h.runs_of_loop hon
    refine hjob.of_same (fun j => ?_) (deaths_kept hon.here _ (by rw [hstage])) (isScheduled_started hrec)
      (cleared_started hjob.cleared hrec) Array.size_setIfInBounds rfl rfl
      fun hs => hjob.left (someLeft_of_set hon.here rfl (by rw [hstage, hon.stage]; decide) hs)
    exact pending_began hruns rfl hunbegun j
  | @left w fiber old hon hno hidle hexit hold =>
    obtain ⟨hstopping, hactive⟩ : s.hub.stopping = true ∧ s.hub.active = 0 := by
      simpa [Hub.shouldExit] using hexit
    exact hjob.of_same (pending_of_unbegun hunbegun rfl) (deaths_kept hon.here _ (by simp [hon.stage]))
      (fun _ => rfl) hjob.cleared
      rfl rfl rfl fun _ => ⟨hstopping, h.idle_of_active hactive⟩

end System

end FiberScheduler
