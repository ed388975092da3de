import FiberScheduler.Proofs.Accounts
import FiberScheduler.Proofs.Drain
import FiberScheduler.Proofs.Growth
import FiberScheduler.Proofs.Isolation
import FiberScheduler.Proofs.Refusals
import Mathlib.Algebra.Order.BigOperators.Group.List

/-!
# Debts

A system that runs growing bodies owes the trees that are left of its pending jobs. A job
that ends takes a node off that debt, and one that a body submits was in it already.
-/

namespace FiberScheduler

variable {κ μ ρ : Type}

/-! ## Weights -/

def weight (f : Growth → Nat) (left : Nat → Growth) (jobs : List Nat) : Nat :=
  (jobs.map fun job => f (left job)).sum

def regrow (left : Nat → Growth) (job : Nat) (t : Growth) (j : Nat) : Growth :=
  if job = j then t else left j

section
variable {f : Growth → Nat} {left : Nat → Growth} {job : Nat} {jobs jobs' : List Nat} {t : Growth}

theorem weight_perm (hp : jobs.Perm jobs') : weight f left jobs = weight f left jobs' :=
  (hp.map _).sum_nat

theorem weight_cons : weight f left (job :: jobs) = f (left job) + weight f left jobs := rfl

theorem weight_regrow (hno : job ∉ jobs) : weight f (regrow left job t) jobs = weight f left jobs := by
  refine congrArg List.sum (List.map_congr_left fun j hj => ?_)
  have hne : job ≠ j := fun he => hno (he ▸ hj)
  rw [regrow, if_neg hne]

theorem length_le_weight (left : Nat → Growth) (jobs : List Nat) :
    jobs.length ≤ weight Growth.jobs left jobs := by
  have hle := List.length_le_sum_of_one_le (jobs.map fun job => (left job).jobs) fun n hn => by
    obtain ⟨job, -, rfl⟩ := List.mem_map.mp hn
    exact (left job).jobs_pos
  rwa [List.length_map] at hle

theorem weight_cons_regrow (hno : job ∉ jobs) :
    weight f (regrow left job t) (job :: jobs) = f t + weight f left jobs := by
  rw [weight_cons, weight_regrow hno, regrow, if_pos rfl]

theorem regrow_self (left : Nat → Growth) (job : Nat) (t : Growth) : regrow left job t job = t :=
  if_pos rfl

theorem regrow_of_ne {j : Nat} (hne : job ≠ j) (left : Nat → Growth) (t : Growth) :
    regrow left job t j = left j :=
  if_neg hne

end

/-! ## Tallies -/

/-- Counters that tell, of `size` jobs, all but those pending as executed. With the trees `left`
of those they tell of `jobs` nodes, `panics` of which panic. -/
structure Tallied (left : Nat → Growth) (c : Counters) (size : Nat) (pending : List Nat) (jobs panics : Nat) :
    Prop where
  submitted : c.submitted = UInt64.ofNat size
  executed : ∃ n, c.executed = UInt64.ofNat n ∧ n + pending.length = size
  panicked : ∃ n, c.panicked = UInt64.ofNat n ∧ n + weight Growth.panicking left pending = panics
  owed : size + weight Growth.jobs left pending = jobs + pending.length

structure SameJobs (c c' : Counters) : Prop where
  submitted : c'.submitted = c.submitted
  executed : c'.executed = c.executed
  panicked : c'.panicked = c.panicked

theorem SameJobs.refl (c : Counters) : SameJobs c c :=
  ⟨rfl, rfl, rfl⟩

namespace Tallied

variable {left : Nat → Growth} {c c' : Counters} {size job jobs panics : Nat} {pending pending' : List Nat}
  {t : Growth}

theorem of_perm (h : Tallied left c size pending jobs panics) (hp : pending.Perm pending')
    (hc : SameJobs c c') :
    Tallied left c' size pending' jobs panics := by
  constructor
  case submitted =>
    rw [hc.submitted]
    exact h.submitted
  case executed =>
    rw [hc.executed, ← hp.length_eq]
    exact h.executed
  case panicked =>
    rw [hc.panicked, ← weight_perm hp]
    exact h.panicked
  case owed =>
    rw [← weight_perm hp, ← hp.length_eq]
    exact h.owed

theorem size_le (h : Tallied left c size pending jobs panics) : size ≤ jobs := by
  have howed := h.owed
  have hle := length_le_weight left pending
  omega

theorem pending_le (h : Tallied left c size pending jobs panics) : pending.length ≤ size := by
  obtain ⟨n, -, hexecuted⟩ := h.executed
  omega

/-- What a body is about to submit is owed already. -/
theorem size_lt (h : Tallied left c size (job :: pending) jobs panics) {child rest : Growth}
    (hleft : left job = .spawns child rest) :
    size < jobs := by
  have howed := h.owed
  rw [weight_cons, hleft, Growth.jobs_spawns, List.length_cons] at howed
  have hle := length_le_weight left pending
  have hchild := child.jobs_pos
  have hrest := rest.jobs_pos
  omega

theorem goes_on (h : Tallied left c size (job :: pending) jobs panics) (hno : job ∉ pending)
    {jobs' panics' : Nat} (hjobs : (left job).jobs + jobs' = t.jobs + jobs)
    (hpanics : (left job).panicking + panics' = t.panicking + panics) :
    Tallied (regrow left job t) c size (job :: pending) jobs' panics' := by
  constructor
  case submitted => exact h.submitted
  case executed => exact h.executed
  case panicked =>
    obtain ⟨n, hn, hbefore⟩ := h.panicked
    rw [weight_cons] at hbefore
    rw [weight_cons_regrow hno]
    exact ⟨n, hn, by omega⟩
  case owed =>
    have hbefore := h.owed
    rw [weight_cons] at hbefore
    rw [weight_cons_regrow hno]
    omega

theorem accepted (h : Tallied left c size pending jobs panics) (hno : job ∉ pending) (t : Growth) :
    Tallied (regrow left job t) (c.bump .submitted) (size + 1) (job :: pending) (jobs + t.jobs)
      (panics + t.panicking) := by
  constructor
  case submitted =>
    rw [UInt64.ofNat_add]
    exact congrArg (· + 1) h.submitted
  case executed =>
    obtain ⟨n, hn, hbefore⟩ := h.executed
    rw [List.length_cons]
    exact ⟨n, hn, by omega⟩
  case panicked =>
    obtain ⟨n, hn, hbefore⟩ := h.panicked
    rw [weight_cons_regrow hno]
    exact ⟨n, hn, by omega⟩
  case owed =>
    have hbefore := h.owed
    rw [weight_cons_regrow hno, List.length_cons]
    omega

theorem ended (h : Tallied left c size (job :: pending) jobs panics) {panic : Option Fault}
    (hleft : left job = .ofEnd panic) :
    Tallied left (Hub.counted c panic) size pending jobs panics := by
  have howed := h.owed
  obtain ⟨n, hn, hexecuted⟩ := h.executed
  obtain ⟨m, hm, hpanicked⟩ := h.panicked
  rw [weight_cons, hleft, List.length_cons] at howed
  rw [List.length_cons] at hexecuted
  rw [weight_cons, hleft] at hpanicked
  have hone : (Growth.ofEnd panic).jobs = 1 := by
    cases panic <;> rfl
  constructor
  case submitted =>
    rw [← h.submitted]
    cases panic <;> rfl
  case executed =>
    refine ⟨n + 1, ?_, by omega⟩
    rw [UInt64.ofNat_add, ← hn]
    cases panic <;> rfl
  case panicked =>
    cases panic with
    | none =>
      rw [show (Growth.ofEnd none).panicking = 0 from rfl] at hpanicked
      exact ⟨m, hm, by omega⟩
    | some fault =>
      rw [show (Growth.ofEnd (some fault)).panicking = 1 from rfl] at hpanicked
      refine ⟨m + 1, ?_, by omega⟩
      rw [UInt64.ofNat_add, ← hm]
      rfl
  case owed => omega

end Tallied

namespace System

open Act

variable {σ : Type} {serves : Affinity → Prop} {grow : κ → Growth} {body : κ → Program κ μ ρ Unit}
  {left : Nat → Growth} {s s' : System κ μ ρ} {worker fiber jobs panics : Nat} {w : Worker}
  {run run' : Run κ μ ρ} {ds : List (Deed κ μ ρ)}

/-! ## Debts -/

/-- What a system owes: a job that has not begun the whole of its tree, and one that runs what
its body has not done yet. -/
structure Grown (serves : Affinity → Prop) (grow : κ → Growth) (left : Nat → Growth) (s : System κ μ ρ)
    (jobs panics : Nat) : Prop where
  fresh : ∀ job ∈ s.unbegun, ∃ record, s.hub.jobs[job]? = some record ∧ record.started = false ∧
    left job = grow record.code
  runs : ∀ fiber run, s.run? fiber = some run → Program.Grows serves grow run.held run.rest (left run.job)
  tallied : Tallied left s.hub.counters s.hub.jobs.size s.pending jobs panics

theorem Sound.split_pending (h : s.Sound) {job : Nat} (hin : job ∈ s.pending) :
    ∃ others, s.pending.Perm (job :: others) ∧ job ∉ others := by
  have hp := List.perm_cons_erase hin
  exact ⟨s.pending.erase job, hp, h.not_mem_of_perm hp⟩

section
variable (hg : Grown serves grow left s jobs panics)
include hg

theorem Grown.of_same (hjobs : s'.hub.jobs = s.hub.jobs) (hcounters : SameJobs s.hub.counters s'.hub.counters)
    (hunbegun : ∀ job, s'.unbegun.count job = s.unbegun.count job) (hruns : s'.runs = s.runs) :
      Grown serves grow left s' jobs panics := by
  have hp : s'.pending.Perm s.pending := perm_of_counts (pending_of_unbegun hunbegun hruns)
  constructor
  case fresh =>
    intro job hin
    rw [← List.count_pos_iff, hunbegun, List.count_pos_iff] at hin
    rw [hjobs]
    exact hg.fresh job hin
  case runs =>
    intro fiber run hrun
    rw [run?, hruns] at hrun
    exact hg.runs fiber run hrun
  case tallied =>
    rw [hjobs]
    exact hg.tallied.of_perm hp.symm hcounters

theorem Grown.size_lt (h : s.Sound) (hrun : s.run? fiber = some run) {child rest : Growth}
    (hleft : left run.job = .spawns child rest) :
    s.hub.jobs.size < jobs := by
  obtain ⟨others, hp, -⟩ := h.split_pending (mem_pending_of_run hrun)
  exact (hg.tallied.of_perm hp (.refl _)).size_lt hleft

theorem Grown.putRun (h : s.Sound) (hrun : s.run? fiber = some run) (hjob : run'.job = run.job) {t : Growth}
    {jobs' panics' : Nat} (hgrows : Program.Grows serves grow run'.held run'.rest t)
    (hjobs : (left run.job).jobs + jobs' = t.jobs + jobs)
    (hpanics : (left run.job).panicking + panics' = t.panicking + panics) :
    Grown serves grow (regrow left run.job t) (s.putRun fiber (some run')) jobs' panics' := by
  have hlt : fiber < s.runs.size := (Array.getElem?_eq_some_iff.mp (run?_eq_some_iff.mp hrun)).1
  have hsame : (s.putRun fiber (some run')).pending = s.pending := pending_putRun hrun hjob
  obtain ⟨others, hp, hno⟩ := h.split_pending (mem_pending_of_run hrun)
  constructor
  case fresh =>
    intro job hin
    have hne : run.job ≠ job := fun he => h.not_unbegun hrun (he ▸ hin)
    rw [regrow_of_ne hne]
    exact hg.fresh job hin
  case runs =>
    intro k r hr
    rw [run?_putRun hlt] at hr
    by_cases hk : fiber = k
    · rw [if_pos hk] at hr
      obtain rfl := Option.some.inj hr
      rw [hjob, regrow_self]
      exact hgrows
    · -- Another run is of another job, whose tree stays.
      rw [if_neg hk] at hr
      have hne : run.job ≠ r.job := fun he => hk (h.run_unique hrun hr he.symm).1.symm
      rw [regrow_of_ne hne]
      exact hg.runs k r hr
  case tallied =>
    rw [hsame]
    exact ((hg.tallied.of_perm hp (.refl _)).goes_on hno hjobs hpanics).of_perm hp.symm (.refl _)

theorem Grown.accepted (h : s.Sound) {group : Option Nat} {record : Job κ}
    (hcalled : Called s s' (some (s.hub.jobs.size, group))) (hjobs : s'.hub.jobs = s.hub.jobs.push record)
    (hnew : record.started = false) (hcounters : s'.hub.counters = s.hub.counters.bump .submitted) :
    Grown serves grow (regrow left s.hub.jobs.size (grow record.code)) s' (jobs + (grow record.code).jobs)
      (panics + (grow record.code).panicking) := by
  have hruns : s'.runs = s.runs := by rw [hcalled.rest]
  have hunbegun : ∀ job, s'.unbegun.count job = s.unbegun.count job + [s.hub.jobs.size].count job :=
    fun job => hcalled.unbegun job
  have hp : (s.hub.jobs.size :: s.pending).Perm s'.pending := by
    refine List.perm_iff_count.mpr fun job => ?_
    rw [← List.singleton_append, List.count_append, hcalled.counted_pending]
    exact Nat.add_comm ..
  -- A number that no record has yet is no pending job, so no tree changes but that of the new job.
  have hno : s.hub.jobs.size ∉ s.pending := by
    intro hin
    obtain ⟨old, hold, -⟩ := h.record hin
    simp at hold
  constructor
  case fresh =>
    intro job hin
    by_cases hjob : s.hub.jobs.size = job
    · subst hjob
      rw [regrow_self, hjobs]
      exact ⟨record, Array.getElem?_push_size .., hnew, rfl⟩
    · rw [← List.count_pos_iff, hunbegun, List.count_singleton, if_neg (by simpa using hjob), Nat.add_zero,
        List.count_pos_iff] at hin
      obtain ⟨old, hold, hfresh⟩ := hg.fresh job hin
      rw [regrow_of_ne hjob, hjobs]
      exact ⟨old, Hub.getElem?_push_lt hold, hfresh⟩
  case runs =>
    intro fiber run hrun
    rw [run?, hruns] at hrun
    have hne : s.hub.jobs.size ≠ run.job := fun he => hno (he ▸ mem_pending_of_run hrun)
    rw [regrow_of_ne hne]
    exact hg.runs fiber run hrun
  case tallied =>
    rw [hjobs, hcounters, Array.size_push]
    exact (hg.tallied.accepted hno _).of_perm hp (.refl _)

theorem Grown.began (hbodies : ∀ code, Program.Grows serves grow [] (body code) (grow code)) {job : Nat}
    {record : Job κ} (hrec : s.hub.jobs[job]? = some record) (hnone : s.runs[fiber]? = some none)
    (hjobs : s'.hub.jobs = s.hub.jobs.setIfInBounds job { record with started := true })
    (hcounters : s'.hub.counters = s.hub.counters)
    (hruns : s'.runs = s.runs.setIfInBounds fiber (some ⟨job, [], bodyOf body record⟩))
    (hunbegun : UnbegunBy s s' [.began job]) (honce : s.pending.count job ≤ 1) :
      Grown serves grow left s' jobs panics := by
  have hbegan : ∀ j, s'.unbegun.count j + [job].count j = s.unbegun.count j + 0 := hunbegun
  have hp : s'.pending.Perm s.pending := perm_of_counts (pending_began hnone hruns hunbegun)
  have hthis := hbegan job
  rw [List.count_singleton_self] at hthis
  constructor
  case fresh =>
    intro j hin
    have hpos := List.count_pos_iff.mpr hin
    have hne : job ≠ j := by
      rintro rfl
      rw [count_pending] at honce
      omega
    have hget : s'.hub.jobs[j]? = s.hub.jobs[j]? := by
      rw [hjobs, getElem?_set _ hrec, if_neg hne]
    have hsame := hbegan j
    rw [hget]
    exact hg.fresh j (List.count_pos_iff.mp (by omega))
  case runs =>
    intro k r hr
    have hput := run?_putRun (s := s) (Array.getElem?_eq_some_iff.mp hnone).1
      (some ⟨job, [], bodyOf body record⟩) k
    rw [run?, hruns] at hr
    replace hr := hput.symm.trans hr
    by_cases hk : fiber = k
    · rw [if_pos hk] at hr
      obtain rfl := Option.some.inj hr
      -- A fresh job has not given away its body yet, so that the whole of its tree is left.
      obtain ⟨old, hold, hnew, hleft⟩ := hg.fresh job (List.count_pos_iff.mp (by omega))
      obtain rfl := Option.some.inj (hrec.symm.trans hold)
      have hbody : bodyOf body record = body record.code := by
        rw [bodyOf, Job.spent, hnew, Bool.and_false]
        rfl
      dsimp only
      rw [hbody, hleft]
      exact hbodies record.code
    · rw [if_neg hk] at hr
      exact hg.runs k r hr
  case tallied =>
    rw [hjobs, hcounters, Array.size_setIfInBounds]
    exact hg.tallied.of_perm hp.symm (.refl _)

theorem Grown.ended (h : s.Sound) (hrun : s.run? fiber = some run) {record : Job κ} {panic : Option Fault}
    {hub : Hub κ} (hrec : s.hub.jobs[run.job]? = some record)
    (hjobs : hub.jobs = s.hub.jobs.setIfInBounds run.job (Hub.closed record))
    (hcounters : hub.counters = Hub.counted s.hub.counters panic)
    (hunbegun : ∀ job, ((s.putRun fiber none).setHub hub).unbegun.count job = s.unbegun.count job)
    (hleft : left run.job = .ofEnd panic) :
    Grown serves grow left ((s.putRun fiber none).setHub hub) jobs panics := by
  have hlt : fiber < s.runs.size := (Array.getElem?_eq_some_iff.mp (run?_eq_some_iff.mp hrun)).1
  have hp : s.pending.Perm (run.job :: ((s.putRun fiber none).setHub hub).pending) :=
    pending_putRun_none hrun hunbegun rfl
  constructor
  case fresh =>
    intro job hin
    rw [← List.count_pos_iff, hunbegun, List.count_pos_iff] at hin
    have hne : run.job ≠ job := fun he => h.not_unbegun hrun (he ▸ hin)
    have hget : hub.jobs[job]? = s.hub.jobs[job]? := by
      rw [hjobs, getElem?_set _ hrec, if_neg hne]
    obtain ⟨old, hold, hfresh⟩ := hg.fresh job hin
    exact ⟨old, hget.trans hold, hfresh⟩
  case runs =>
    intro k r hr
    replace hr := (run?_putRun hlt none k).symm.trans hr
    by_cases hk : fiber = k
    · rw [if_pos hk] at hr
      cases hr
    · rw [if_neg hk] at hr
      exact hg.runs k r hr
  case tallied =>
    show Tallied left hub.counters hub.jobs.size _ jobs panics
    rw [hjobs, hcounters, Array.size_setIfInBounds]
    exact (hg.tallied.of_perm hp (.refl _)).ended hleft

end

/-! ## Calls -/

theorem perform_quiet (hfit : Fit s.hub) (i : Option Nat) (held : List Nat) {c : Call κ μ ρ} (hc : c.Quiet) :
    (perform i held c).Ends s fun _ t => t.hub.jobs = s.hub.jobs ∧ t.hub.counters = s.hub.counters := by
  have hhub : ∀ {α : Type} {x : Act ρ (Hub κ) α}, (x.Ends s.hub fun _ h' => Hub.Steady s.hub h') →
      (onHub x : Act ρ (System κ μ ρ) α).Ends s fun _ t => t.hub.jobs = s.hub.jobs ∧
        t.hub.counters = s.hub.counters := by
    intro α x hx
    refine (ends_zoom _ _ _).mpr (hx.mono fun r h' hst => ?_)
    rw [hst.rest]
    exact ⟨rfl, rfl⟩
  refine perform_of_answer ⟨rfl, rfl⟩ fun _ => ?_
  cases c with
  | newGroup => exact hhub ((Hub.newGroup_steady hfit.tidy).mono fun _ _ hst => hst.1)
  | dropGroup g => exact hhub (Hub.dropGroup_steady hfit.tidy g)
  | isScheduled | place | counters | report | access => exact ⟨rfl, rfl⟩
  | cloneGroup | giveGroup | takeGroup | add | count | schedule | addJob | spawn => exact hc.elim

theorem Grown.quiet (hg : Grown serves grow left s jobs panics) (hcalled : Called s s' none)
    (hsame : s'.hub.jobs = s.hub.jobs ∧ s'.hub.counters = s.hub.counters) :
      Grown serves grow left s' jobs panics := by
  refine hg.of_same hsame.1 ?_ (fun job => hcalled.unbegun job) ?_
  · rw [hsame.2]
    exact .refl _
  · rw [hcalled.rest]

theorem perform_idle (i : Option Nat) (held : List Nat) {c : Call κ μ ρ} (hc : c.Idle) :
    (perform i held c).Ends s fun r _ => ∃ answer, r = .ok answer := by
  cases c with
  | isScheduled | place | counters | report | access => exact ⟨_, rfl⟩
  | newGroup | dropGroup | cloneGroup | giveGroup | takeGroup | add | count | schedule | addJob | spawn =>
    exact hc.elim

theorem perform_newGroup (i : Option Nat) (held : List Nat) :
    (perform i held (.newGroup : Call κ μ ρ)).Ends s fun r _ => ∃ answer, r = .ok answer := by
  have hends :
      (Hub.newGroup : Act ρ (Hub κ) (Except Refusal Nat)).Ends s.hub fun r _ => ∃ answer, r = .ok answer := by
    rw [Hub.ends_newGroup]
    split <;> exact ⟨_, rfl⟩
  exact hends

theorem perform_dropGroup (hl : Ledger s) (i : Option Nat) {held : List Nat} {g : Nat} (hin : g ∈ held)
    (hlive : g ∈ s.handles) : (perform i held (.dropGroup g : Call κ μ ρ)).Ends s fun r _ => r = .ok () := by
  obtain ⟨state, hs⟩ := hl.books.get?_of_mem hlive
  have hpermits : (Call.dropGroup g : Call κ μ ρ).permits held s.kept = true := List.contains_iff_mem.mpr hin
  have hends : (Hub.dropGroup g : Act ρ (Hub κ) Unit).Ends s.hub fun r _ => r = .ok () := by
    rw [Hub.ends_dropGroup hs]
  simp only [perform, ends_bind, ends_get, after_ok, hpermits, if_true]
  exact hends

theorem spawn_accepted {h : Hub κ} {code : κ} {group : Option Nat} {p : Priority} {a : Affinity}
    (hcleared : h.Cleared) (hserved : h.Served) (hreceptive : ∀ g, group = some g → h.Receptive g)
    (hlimit : h.jobs.size + 1 < Hub.recordLimit) (hno : h.refusal? false a = none) :
    (Hub.scheduler.spawn code group p a : Act ρ (Hub κ) (Except Refusal Unit)).Ends h fun r h' =>
      r = .ok (.ok ()) ∧
      h'.jobs = h.jobs.push ⟨code, false, true, false, true, group⟩ ∧
      h'.counters = h.counters.bump .submitted := by
  refine ((Hub.spawn_outcome hcleared hserved hreceptive).and
    (Hub.ends_spawn hcleared hserved code group p a)).mono ?_
  rintro r h' ⟨hr, hs⟩
  rw [Hub.freshFailure?, if_pos hlimit, hno] at hr
  have hr : r = .ok (.ok ()) := hr
  subst hr
  refine ⟨rfl, ?_⟩
  cases hs with
  | kept _ _ hs =>
    cases hs with
    | declined hne => exact absurd rfl hne
    | refused _ _ hne => exact absurd rfl hne
    | @accepted record lanes hrec hfree hlive hopen hlanes =>
      have hrecord : record = Job.new code false true := by
        have hlast : (h.jobs.push (Job.new code false true))[h.jobs.size]? = some (Job.new code false true) :=
          Array.getElem?_push_size ..
        exact Option.some.inj (hrec.symm.trans hlast)
      subst hrecord
      refine ⟨?_, rfl⟩
      show ((Hub.enroll _ group).setJob _ _).jobs = _
      rw [Hub.enroll_rest]
      show (h.jobs.push (Job.new code false true)).setIfInBounds h.jobs.size _ = _
      simp [Array.setIfInBounds, Array.set_push, Job.new]

section
variable (h : s.Sound) (hl : Ledger s) (hfew : FewHandles s)
include h hl hfew

/-- The submission of a fresh job fails for one of the known reasons and leaves everything as it
was, or the job is accepted under the next number. -/
theorem perform_spawned (hlatched : s.hub.Latched) (i : Option Nat) {held : List Nat} {code : κ}
    {group : Option Nat} {p : Priority} {a : Affinity} (hheld : ∀ g, group = some g → g ∈ held)
    (hlive : ∀ g ∈ held, g ∈ s.handles)
    (hroom : s.hub.jobs.size + 1 < Hub.recordLimit → ∀ g, group = some g → s.hub.Roomy g 1) :
    (perform i held (.spawn code group p a : Call κ μ ρ)).Ends s fun r t => match s.hub.freshFailure? a with
      | some why => r = why ∧ t = s
      | none => r = .ok (.ok ()) ∧ t.hub.jobs = s.hub.jobs.push ⟨code, false, true, false, true, group⟩ ∧
          t.hub.counters = s.hub.counters.bump .submitted := by
  have hpermits : (Call.spawn code group p a : Call κ μ ρ).permits held s.kept = true := by
    cases group with
    | none => rfl
    | some g => exact Bool.or_eq_true_iff.mpr (Or.inl (List.contains_iff_mem.mpr (hheld g rfl)))
  simp only [perform, ends_bind, ends_get, after_ok, hpermits, if_true]
  show (onHub (Hub.scheduler.spawn code group p a) : Act ρ (System κ μ ρ) (Except Refusal Unit)).Ends s _
  refine (ends_zoom _ _ _).mpr ?_
  show (Hub.scheduler.spawn code group p a : Act ρ (Hub κ) (Except Refusal Unit)).Ends s.hub _
  by_cases hlimit : s.hub.jobs.size + 1 < Hub.recordLimit
  · have hreceptive : ∀ g, group = some g → s.hub.Receptive g := fun g hg =>
      hl.books.receptive_of_roomy hfew hlatched (hlive g (hheld g hg)) (hroom hlimit g hg)
    have hends : (Hub.scheduler.spawn code group p a : Act ρ (Hub κ) (Except Refusal Unit)).Ends s.hub _ :=
      Hub.spawn_outcome h.cleared h.fit.served hreceptive
    cases hwhy : s.hub.freshFailure? a with
    | some why =>
      rw [hwhy] at hends
      exact hends.mono fun r h' hr => ⟨hr.1, by rw [hr.2]⟩
    | none =>
      rw [Hub.freshFailure?, if_pos hlimit, Option.map_eq_none_iff] at hwhy
      exact spawn_accepted h.cleared h.fit.served hreceptive hlimit hwhy
  · unfold Scheduler.spawn
    rw [ends_bind]
    show (Hub.addRecord (.new code false true) : Act ρ (Hub κ) Nat).Ends s.hub _
    rw [Hub.ends_addRecord, if_neg hlimit, Hub.freshFailure?, if_neg hlimit]
    exact ⟨rfl, rfl⟩

theorem perform_spawn (hlatched : s.hub.Latched) (i : Option Nat) {held : List Nat} {code : κ}
    {group : Option Nat} {p : Priority} {a : Affinity} (hheld : ∀ g, group = some g → g ∈ held)
    (hlive : ∀ g ∈ held, g ∈ s.handles) (hserves : s.hub.crew.serves a = true)
    (hopen : ¬(s.hub.active = 0 ∧ s.hub.stopping = true)) (hlimit : s.hub.jobs.size + 1 < Hub.recordLimit)
    (hroom : (Call.spawn code group p a : Call κ μ ρ).permits held s.kept = true →
    (Call.spawn code group p a : Call κ μ ρ).Roomy s.hub) :
    (perform i held (.spawn code group p a : Call κ μ ρ)).Ends s fun r t => r = .ok (.ok ()) ∧
      t.hub.jobs = s.hub.jobs.push ⟨code, false, true, false, true, group⟩ ∧
      t.hub.counters = s.hub.counters.bump .submitted := by
  have hroomy : ∀ g, group = some g → s.hub.Roomy g 1 := by
    rintro g rfl
    refine hroom ?_ (g, 1) (if_pos hlimit)
    exact Bool.or_eq_true_iff.mpr (Or.inl (List.contains_iff_mem.mpr (hheld g rfl)))
  have hno : s.hub.refusal? false a = none :=
    Hub.refusal?_eq_none_iff.mpr ⟨hserves, (by intro he; cases he), hopen⟩
  have hends : (perform i held (.spawn code group p a : Call κ μ ρ)).Ends s _ :=
    perform_spawned h hl hfew hlatched i hheld hlive fun _ => hroomy
  rw [Hub.freshFailure?, if_pos hlimit, hno] at hends
  exact hends

end

/-! ## Steps -/

section
variable (hg : Grown serves grow left s jobs panics) (h : s.Sound) (hl : Ledger s)

theorem mem_handles_of_run (hrun : s.run? fiber = some run) {g : Nat} (hin : g ∈ run.held) : g ∈ s.handles :=
  List.mem_append_left _ (List.mem_append_left _
    ((perm_others hrun).mem_iff.mpr (List.mem_append_left _ hin)))

include hl in
/-- A wait for one's own group does not fail, and is over only when the group has no unit. -/
theorem deeds_wait (s' : System κ μ ρ) (hon : OnRun s worker w fiber run) {g : Nat}
    {next : Program κ μ ρ Unit} (hrest : run.rest = .wait g next) (hin : g ∈ run.held) :
      ∃ state, s.hub.groups.get? g = some state ∧
      (∀ job fault, .acted job (.failed fault) ∉ deeds s s' (.work worker)) ∧
      ∀ job k, .acted job (.wait k) ∈ deeds s s' (.work worker) → state.count = 0 := by
  obtain ⟨state, hstate⟩ := hl.books.get?_of_mem (mem_handles_of_run hon.run hin)
  have haccess : (access run.held g).Ends s fun r _ => r = .ok state := by
    unfold access
    rw [if_pos (List.contains_iff_mem.mpr hin)]
    exact (ends_zoom _ _ _).mpr ((Hub.ends_group hstate _).mpr rfl)
  refine ⟨state, hstate, ?_, ?_⟩
  all_goals
    rw [deeds_onRun hon, deedsOfRun, hrest]
    simp only [show (access run.held g s).result = .ok state from haccess]
  · intro job fault
    split
    · simp
    · split <;> simp
  · intro job k
    split
    · rename_i hsignaled
      intro _
      simpa [Group.isSignaled] using hsignaled
    · split <;> simp

include hg h

theorem Grown.loop (hbodies : ∀ code, Program.Grows serves grow [] (body code) (grow code))
    (ht : Turn body s worker s' ds) (hloop : ∀ w fiber run, ¬OnRun s worker w fiber run) :
      Grown serves grow left s' jobs panics := by
  have hunbegun := ht.unbegun h
  cases ht with
  | rest | exhausted | started | left => exact hg.of_same rfl (.refl _) hunbegun rfl
  | passed | returned | resumed => exact hg.of_same rfl ⟨rfl, rfl, rfl⟩ hunbegun rfl
  | went hon | parked hon | ended hon | died hon => exact absurd hon (hloop _ _ _)
  | @began w w' fiber job record lanes hon hrec hway =>
    exact hg.began hbodies hrec (h.runs_of_loop hon) rfl rfl rfl hunbegun (h.pending_once job)

theorem Grown.quietly (hon : OnRun s worker w fiber run) {c : Call κ μ ρ}
    {next : c.Answer → Program κ μ ρ Unit} (hrest : run.rest = .call c next) (hc : c.Quiet)
    {answer : c.Answer} (hanswer : (perform (some worker) run.held c s).result = .ok answer)
    (hgrows : Program.Grows serves grow (c.settle answer run.held) (next answer) (left run.job)) :
    ∃ left', Grown serves grow left' (step body worker s).state jobs panics := by
  have hcalled :
      Called s (perform (some worker) run.held c s).state
      (c.accepted s.hub.jobs.size (perform (some worker) run.held c s).result) :=
    perform_called h.fit (some worker) run.held c
  rw [hc.accepted] at hcalled
  have hsame := perform_quiet h.fit (some worker) run.held hc
  have hrun : (perform (some worker) run.held c s).state.run? fiber = some run := by
    rw [← hon.run, hcalled.rest]
    rfl
  rw [step_after body hon hrest, hanswer]
  have hgrown := hg.quiet hcalled hsame
  generalize (perform (some worker) run.held c s).state = s₁ at hcalled hrun hgrown
  have hput :
      Grown serves grow _ (s₁.putRun fiber
      (some ⟨run.job, c.settle answer run.held, next answer⟩)) jobs panics :=
    hgrown.putRun (hcalled.sound h) hrun (by rfl) hgrows (by rfl) (by rfl)
  exact ⟨_, hput⟩

theorem Grown.spawns (hon : OnRun s worker w fiber run) {code : κ} {group : Option Nat} {p : Priority}
    {a : Affinity} {next : Except Refusal Unit → Program κ μ ρ Unit} {t : Growth}
    (hrest : run.rest = .call (.spawn code group p a) next)
    (hspawn : (perform (some worker) run.held (.spawn code group p a) : Act ρ (System κ μ ρ) _).Ends s
    fun r t => r = .ok (.ok ()) ∧
      t.hub.jobs = s.hub.jobs.push ⟨code, false, true, false, true, group⟩ ∧
      t.hub.counters = s.hub.counters.bump .submitted)
    (hgrows : Program.Grows serves grow run.held (next (.ok ())) t)
    (hleft : left run.job = .spawns (grow code) t) :
    ∃ left', Grown serves grow left' (step body worker s).state jobs panics := by
  obtain ⟨hanswer, hjobs, hcounters⟩ := hspawn
  have hcalled : Called s (perform (some worker) run.held (.spawn code group p a) s).state
      ((Call.spawn code group p a : Call κ μ ρ).accepted s.hub.jobs.size
        (perform (some worker) run.held (.spawn code group p a) s).result) :=
    perform_called h.fit (some worker) run.held (.spawn code group p a)
  rw [hanswer] at hcalled
  have hrun : (perform (some worker) run.held (.spawn code group p a) s).state.run? fiber = some run := by
    rw [← hon.run, hcalled.rest]
    rfl
  rw [step_after body hon hrest, hanswer]
  have hgrown := hg.accepted h hcalled hjobs (by rfl) hcounters
  generalize (perform (some worker) run.held (.spawn code group p a) s).state = s₁ at hcalled hrun hgrown
  have hne : s.hub.jobs.size ≠ run.job := fun he => by
    obtain ⟨record, hrec, -⟩ := record_onRun h hon
    rw [← he] at hrec
    simp at hrec
  have htree : regrow left s.hub.jobs.size (grow code) run.job = .spawns (grow code) t :=
    (regrow_of_ne hne left _).trans hleft
  have hput : Grown serves grow (regrow (regrow left s.hub.jobs.size (grow code)) run.job t)
      (s₁.putRun fiber (some ⟨run.job, run.held, next (.ok ())⟩)) jobs panics := by
    refine hgrown.putRun (hcalled.sound h) hrun (by rfl) hgrows ?_ ?_
    · show (regrow left s.hub.jobs.size (grow code) run.job).jobs + jobs = t.jobs + (jobs + (grow code).jobs)
      rw [htree, Growth.jobs_spawns]
      omega
    · show (regrow left s.hub.jobs.size (grow code) run.job).panicking + panics = t.panicking +
        (panics + (grow code).panicking)
      rw [htree, Growth.panicking_spawns]
      omega
  exact ⟨_, hput⟩

include hl

theorem Grown.wait (hon : OnRun s worker w fiber run) {g : Nat} {next : Program κ μ ρ Unit}
    (hrest : run.rest = .wait g next) (hin : g ∈ run.held)
    (hgrows : Program.Grows serves grow run.held next (left run.job)) :
    ∃ left', Grown serves grow left' (step body worker s).state jobs panics := by
  obtain ⟨-, -, hgoes, -⟩ := deeds_wait hl (step body worker s).state hon hrest hin
  have ht := turn_of_sound h body worker
  have hunbegun := ht.unbegun h
  generalize deeds s (step body worker s).state (.work worker) = ds at ht hunbegun hgoes
  generalize (step body worker s).state = s' at ht hunbegun
  cases ht with
  | rest hno => exact absurd hon (hno w fiber run)
  | exhausted => exact ⟨left, hg.of_same rfl (.refl _) hunbegun rfl⟩
  | started hw hstage =>
    obtain rfl := Option.some.inj (hw.symm.trans hon.here)
    rw [hon.stage] at hstage
    cases hstage
  | @went w' fiber' run₁ run' s₁ queued action hon' hjob hcalled hdoes hsource =>
    obtain ⟨rfl, rfl, rfl⟩ := hon.unique hon'
    rcases hsource with ⟨c, next', hcall, -⟩ | ⟨rfl, hheld⟩
    · rw [hrest] at hcall
      cases hcall
    · generalize hafter : run'.rest = after at hdoes
      rw [hrest] at hdoes
      cases hdoes with
      | wait =>
        have hgrows' : Program.Grows serves grow run'.held run'.rest (left run₁.job) := by
          rw [hheld, hafter]
          exact hgrows
        exact ⟨_, hg.putRun h hon.run hjob hgrows' rfl rfl⟩
      | failedWait => exact absurd (List.mem_append_right _ (List.mem_singleton_self _)) (hgoes _ _)
  | parked => exact ⟨left, hg.of_same rfl ⟨rfl, rfl, rfl⟩ hunbegun rfl⟩
  | ended hon' hover | died hon' hover =>
    rw [(hon.unique hon').2.2, hrest] at hover
    cases hover
  | began hon' | passed hon' | returned hon' | resumed hon' | left hon' => exact absurd hon hon'.not_onRun

theorem Grown.over (hfew : FewHandles s) (hon : OnRun s worker w fiber run) {panic : Option Fault}
    (hrest : run.rest.EndsIn panic) (hcovers : s.hub.CoversEnd run.job)
    (hleft : left run.job = .ofEnd panic) :
    Grown serves grow left (step body worker s).state jobs panics := by
  obtain ⟨record, hrec, -⟩ := record_onRun h hon
  let o := (Hub.endRun (workerName worker) run.job run.held panic : Act ρ (Hub κ) Unit) s.hub
  have hok : o.result = .ok () := endRun_succeeds h hl hfew hon panic hrec hcovers
  have hending : Hub.Ending s.hub o.state run.job record o.result := Hub.ends_endRun h.tidy hrec
  have hcounters : o.result = .ok () → o.state.counters = _ := Hub.ends_endRun_counters h.tidy hrec
  have hstep : step body worker s = ⟨.ok (), (s.putRun fiber none).setHub o.state, o.log⟩ :=
    step_over hon hrest (by rw [← hok])
  rw [hstep]
  exact hg.ended h hon.run hrec (hending.whole hok).1 (hcounters hok)
    (unbegun_kept hon.here (set_self hon.here).symm rfl (.of_eq hending.queued)) hleft

end

end System

end FiberScheduler
