import FiberScheduler.Proofs.Debts
import FiberScheduler.Proofs.Owners

/-!
# Strides of even systems

Bodies that submit fresh jobs, and besides only ask for what leaves the counts alone, have
nothing on the account of any group. A run of such bodies ends as it should, so that a step
of a worker is one of a few strides, and a job that was there stays the job it was.
-/

namespace FiberScheduler

variable {κ μ ρ : Type}

/-! ## Modest calls -/

def Call.Modest : Call κ μ ρ → Prop
  | .spawn .. => True
  | c => c.Quiet

def Call.Accesses : Call κ μ ρ → Prop
  | .access _ => True
  | _ => False

theorem Call.Quiet.modest {c : Call κ μ ρ} (h : c.Quiet) : c.Modest := by
  cases c <;> trivial

namespace Call.Modest

variable {c : Call κ μ ρ} (hc : c.Modest)
include hc

theorem not_clones : ¬c.Clones := by
  cases c with
  | cloneGroup => exact hc.elim
  | _ => exact id

theorem covered (h : Hub κ) : c.Covered h := by
  cases c with
  | add => exact hc.elim
  | _ => trivial

theorem not_moved (r : Except Fault c.Answer) (g : Nat) (amount : Int) : .moved g amount ∉ c.postings r := by
  cases c with
  | newGroup =>
    show Posting.moved g amount ∉ Hub.opened r
    unfold Hub.opened
    split <;> simp
  | add => exact hc.elim
  | _ => exact List.not_mem_nil

theorem roomy {h : Hub κ} (hroom : ∀ g, h.Roomy g 1) : c.Roomy h := by
  rintro ⟨g, n⟩ hq
  cases c with
  | spawn code group =>
    cases group with
    | none => cases hq
    | some k =>
      simp only [addition, Option.mem_def, Option.ite_none_right_eq_some] at hq
      obtain ⟨-, he⟩ := hq
      cases he
      exact hroom _
  | add | schedule => exact hc.elim
  | _ => cases hq

theorem accepted {fresh : Nat} {r : Except Fault c.Answer} {job : Nat} {group : Option Nat}
    (hq : c.accepted fresh r = some (job, group)) : job = fresh := by
  cases c with
  | spawn code k p a =>
    change Hub.taken fresh k r = some (job, group) at hq
    unfold Hub.taken at hq
    split at hq
    · cases hq
      rfl
    · cases hq
  | schedule | addJob => exact hc.elim
  | _ => cases hq

end Call.Modest

namespace System

open Act

variable {σ : Type} {body : κ → Program κ μ ρ Unit} {s s' t : System κ μ ρ} {worker fiber : Nat} {w : Worker}
  {run : Run κ μ ρ} {es : List Posting} {m : Move κ μ ρ} {ds : List (Deed κ μ ρ)}

/-! ## Even systems -/

def Modest (s : System κ μ ρ) : Move κ μ ρ → Prop
  | .work worker => ∀ run ∈ s.activeRun? worker, ∀ c ∈ run.rest.call?, c.Modest
  | .call c => c.Modest
  | .record .. => False
  | .stop => True

/-- Nothing is on the account of any group, and no group has two owners. -/
structure Even (s : System κ μ ρ) (es : List Posting) : Prop where
  settled : Settled s es
  unmoved : ∀ g amount, .moved g amount ∉ es
  unshared : Unshared s

theorem Modest.call_on (hm : s.Modest (.work worker)) (hon : OnRun s worker w fiber run) :
    ∀ c ∈ run.rest.call?, c.Modest :=
  hm run hon.activeRun?

section
variable (hs : Even s es)
include hs

theorem Even.account (g : Nat) : accounts es g = 0 :=
  Hub.accounts_eq_zero (hs.unmoved g)

theorem Even.fewHandles : FewHandles s :=
  hs.unshared.fewHandles hs.settled hs.account

/-- A group counts the pending jobs it tracks, and nothing else. -/
theorem Even.count {g : Nat} {state : Group} (hstate : s.hub.groups.get? g = some state) :
    state.count.toInt = s.pending.countP (s.hub.tracks g) := by
  have hcount := hs.settled.accounted.balanced g state hstate
  rwa [hs.account g, Int.zero_add] at hcount

omit hs in
theorem tracks_of_record {g job : Nat} {record : Job κ} (hrec : s.hub.jobs[job]? = some record)
    (hcompletion : record.completion = some g) :
    s.hub.tracks g job = true := by
  unfold Hub.tracks
  rw [hrec, Option.any_some, hcompletion, beq_self_eq_true]

theorem Even.roomy {g : Nat} (honce : ∀ j ∈ s.pending, ∀ k ∈ s.pending, s.hub.tracks g j = true →
    s.hub.tracks g k = true → j = k) :
    s.hub.Roomy g 1 := by
  intro state hstate
  have hcount := hs.count hstate
  have hmax : Int32.maxValue.toInt = 2147483647 := rfl
  have hone : (1 : Int32).toInt = 1 := rfl
  have hnodup : (s.pending.filter (s.hub.tracks g)).Nodup :=
    hs.settled.sound.nodup_pending.sublist List.filter_sublist
  rw [List.countP_eq_length_filter] at hcount
  -- At most one unfinished job counts on the group, so there is room for one more.
  have hle : (s.pending.filter (s.hub.tracks g)).length ≤ 1 := by
    cases hfilter : s.pending.filter (s.hub.tracks g) with
    | nil => exact Nat.zero_le 1
    | cons j rest =>
      rw [hfilter] at hnodup
      refine hnodup.length_le_of_subset (fun k hk => ?_ : j :: rest ⊆ [j])
      have hmem : ∀ i, i ∈ j :: rest → i ∈ s.pending ∧ s.hub.tracks g i = true := by
        intro i hi
        rw [← hfilter] at hi
        exact List.mem_filter.mp hi
      obtain ⟨hj, htracked⟩ := hmem j List.mem_cons_self
      obtain ⟨hk, htracked'⟩ := hmem k hk
      exact List.mem_singleton.mpr (honce k hk j hj htracked' htracked)
  omega

theorem Even.coversEnd {job : Nat} (hin : job ∈ s.pending) : s.hub.CoversEnd job := by
  intro g hg state hstate
  have hcount := hs.count hstate
  have htracked : s.hub.tracks g job = true := by
    obtain ⟨record, hrec, hcompletion⟩ := Option.bind_eq_some_iff.mp hg
    exact tracks_of_record hrec hcompletion
  have hpos : 0 < s.pending.countP (s.hub.tracks g) := List.countP_pos_iff.mpr ⟨job, hin, htracked⟩
  omega

theorem Even.covered (hm : s.Modest m) : s.Covered m := by
  cases m with
  | work worker =>
    intro run hrun
    obtain ⟨w, fiber, hon⟩ := onRun_of_activeRun? hrun
    exact ⟨fun _ => hs.coversEnd (mem_pending_of_run hon.run), fun c hc _ => (hm run hrun c hc).covered _⟩
  | call c => exact fun _ => hm.covered _
  | record | stop => trivial

omit hs in
theorem Modest.callOf (hm : s.Modest m) {q : (c : Call κ μ ρ) × Except Fault c.Answer}
    (hcall : s.callOf m = some q) : q.1.Modest := by
  cases m with
  | work worker =>
    obtain ⟨run, hrun, hcall⟩ := Option.bind_eq_some_iff.mp hcall
    refine hm run hrun _ ?_
    cases hrest : run.rest with
    | call c next =>
      rw [callOn_eq worker hrest] at hcall
      cases hcall
      rfl
    | done | panic | wait =>
      unfold callOn at hcall
      rw [hrest] at hcall
      cases hcall
  | call c =>
    cases hcall
    exact hm
  | record | stop => cases hcall

omit hs in
theorem Modest.not_moved (hm : s.Modest m) (g : Nat) (amount : Int) : .moved g amount ∉ postings s m := by
  unfold postings
  cases hcall : s.callOf m with
  | none => exact List.not_mem_nil
  | some q => exact (hm.callOf hcall).not_moved q.2 g amount

theorem Even.unshared_move (hm : s.Modest m) : Unshared (move body s m) := by
  have h := hs.settled.sound
  cases m with
  | work worker =>
    exact (turn_of_sound h body worker).unshared h hs.settled.ledger hs.unshared hs.fewHandles
      fun w fiber run hon c hc =>
      (hm.call_on hon c hc).not_clones
  | call c => exact unshared_ask h hs.settled.ledger hs.unshared hs.fewHandles hm.not_clones
  | record => exact hm.elim
  | stop => exact hs.unshared

theorem Even.step (hm : s.Modest m) (hroom : s.Roomy m) : Even (move body s m) (es ++ postings s m) where
  settled := hs.settled.step hroom (hs.covered hm) hs.fewHandles
  unmoved := by
    intro g amount hin
    rcases List.mem_append.mp hin with hin | hin
    · exact hs.unmoved g amount hin
    · exact hm.not_moved g amount hin
  unshared := hs.unshared_move hm

end

theorem New.even (h : New s) : Even s [] where
  settled := h.settled
  unmoved := fun g amount => List.not_mem_nil
  unshared := by
    intro g
    rw [h.runs, gather_replicate heldBy _ rfl, h.kept]
    exact Nat.zero_le 1

/-! ## Later systems -/

/-- The jobs of a system are those of the other one as they went on, and new ones. A job that is
pending keeps its group, and only a job that has not begun was never started. -/
structure Later (s s' : System κ μ ρ) : Prop where
  kept : ∀ (job : Nat) (record : Job κ), s.hub.jobs[job]? = some record →
    ∃ record', s'.hub.jobs[job]? = some record' ∧
    record'.code = record.code ∧ (job ∈ s'.pending → job ∈ s.pending ∧
      record'.completion = record.completion) ∧
    (job ∈ s'.unbegun → job ∈ s.unbegun ∧ record'.started = record.started)
  fresh : ∀ (job : Nat) (record' : Job κ), s'.hub.jobs[job]? = some record' → s.hub.jobs[job]? = none →
    record'.started = false
  size : s.hub.jobs.size ≤ s'.hub.jobs.size

theorem mem_pending_of_unbegun {job : Nat} (hin : job ∈ s.unbegun) : job ∈ s.pending :=
  List.mem_append_left _ hin

theorem Later.of_same (hjobs : s'.hub.jobs = s.hub.jobs) (hpending : ∀ job ∈ s'.pending, job ∈ s.pending)
    (hunbegun : ∀ job ∈ s'.unbegun, job ∈ s.unbegun) : Later s s' where
  kept := fun job record hrec => ⟨record, by rw [hjobs]; exact hrec, rfl, fun hin => ⟨hpending job hin, rfl⟩,
    fun hin => ⟨hunbegun job hin, rfl⟩⟩
  fresh := fun job record' hrec hnone => by
    rw [hjobs, hnone] at hrec
    cases hrec
  size := Nat.le_of_eq (congrArg Array.size hjobs).symm

theorem Later.of_set {job : Nat} {old new : Job κ} (hrec : s.hub.jobs[job]? = some old)
    (hjobs : s'.hub.jobs = s.hub.jobs.setIfInBounds job new) (hcode : new.code = old.code)
    (hpending : ∀ k ∈ s'.pending, k ∈ s.pending ∧ (k = job → new.completion = old.completion))
    (hunbegun : ∀ k ∈ s'.unbegun, k ∈ s.unbegun ∧ k ≠ job) : Later s s' where
  kept := by
    intro k record hk
    rw [hjobs, getElem?_set new hrec]
    by_cases hkj : job = k
    · subst hkj
      obtain rfl := Option.some.inj (hrec.symm.trans hk)
      rw [if_pos rfl]
      exact ⟨new, rfl, hcode, fun hin => ⟨(hpending job hin).1, (hpending job hin).2 rfl⟩,
        fun hin => absurd rfl (hunbegun job hin).2⟩
    · rw [if_neg hkj]
      exact ⟨record, hk, rfl, fun hin => ⟨(hpending k hin).1, rfl⟩, fun hin => ⟨(hunbegun k hin).1, rfl⟩⟩
  fresh := by
    intro k record' hk hnone
    rw [hjobs, getElem?_set new hrec] at hk
    by_cases hkj : job = k
    · rw [← hkj, hrec] at hnone
      cases hnone
    · rw [if_neg hkj, hnone] at hk
      cases hk
  size := Nat.le_of_eq (by rw [hjobs, Array.size_setIfInBounds])

theorem Called.later {queued : Option (Nat × Option Nat)} (h : s.Sound) (hc : Called s t queued)
    (hnew : ∀ q ∈ queued, q.1 = s.hub.jobs.size) (hhub : s'.hub = t.hub) (hworkers : s'.workers = t.workers)
    (hruns : ∀ job, s'.runJobs.count job = s.runJobs.count job) : Later s s' := by
  have hrecorded := hc.effect.recorded
  have hunbegun : ∀ (job : Nat) (record : Job κ), s.hub.jobs[job]? = some record →
      s'.unbegun.count job = s.unbegun.count job := by
    intro job record hrec
    have hcount :
        s'.unbegun.count job = s.unbegun.count job + (acceptances queued : List (Deed κ μ ρ)).countP
        (Deed.accepts job) := by
      unfold System.unbegun handoffs
      rw [hhub, hworkers]
      exact hc.unbegun job
    have hnone : (acceptances queued : List (Deed κ μ ρ)).countP (Deed.accepts job) = 0 := by
      cases queued with
      | none => rfl
      | some q =>
        have hlt := (Array.getElem?_eq_some_iff.mp hrec).1
        have hq := hnew q rfl
        show [q.1].count job = 0
        rw [List.count_singleton, if_neg (by simp; omega)]
    omega
  constructor
  case kept =>
    intro job record hrec
    obtain ⟨record', hrec', hsame, hfixed⟩ := hrecorded.kept job record hrec
    have hsteady := hunbegun job record hrec
    refine ⟨record', by rw [hhub]; exact hrec', by rw [hsame], fun hin => ?_, fun hin => ?_⟩
    · have hin : job ∈ s.pending := by
        rw [← List.count_pos_iff, count_pending] at hin ⊢
        rwa [← hsteady, ← hruns]
      obtain ⟨record₁, hrec₁, hscheduled⟩ := h.record hin
      obtain rfl := Option.some.inj (hrec.symm.trans hrec₁)
      exact ⟨hin, by rw [hfixed hscheduled]⟩
    · rw [← List.count_pos_iff, hsteady, List.count_pos_iff] at hin
      exact ⟨hin, by rw [hsame]⟩
  case fresh =>
    intro job record' hrec
    rw [hhub] at hrec
    exact hrecorded.fresh job record' hrec
  case size =>
    apply Nat.le_of_not_lt
    intro hlt
    obtain ⟨record', hrec', -⟩ := hrecorded.kept _ _ (Array.getElem?_eq_getElem hlt)
    rw [← hhub] at hrec'
    simp at hrec'

theorem Called.pending_putRun {queued : Option (Nat × Option Nat)} (hc : Called s t queued)
    (hrun : s.run? fiber = some run) {run' : Run κ μ ρ} (hjob : run'.job = run.job) (job : Nat) :
    (t.putRun fiber (some run')).pending.count job =
      s.pending.count job + (acceptances queued : List (Deed κ μ ρ)).countP (Deed.accepts job) := by
  have hrun' : t.run? fiber = some run := by
    rw [hc.rest]
    exact hrun
  rw [System.pending_putRun hrun' hjob, hc.counted_pending]

/-! ## Groups and memory -/

/-- A new group gets a block that no group had. -/
theorem perform_newGroup_dead (h : s.Sound) (i : Option Nat) (held : List Nat) :
    (perform i held (.newGroup : Call κ μ ρ)).Ends s fun r _ => ∀ g, r = .ok (.ok g) →
      s.hub.groups.get? g = none := by
  have hends : (Hub.newGroup : Act ρ (Hub κ) (Except Refusal Nat)).Ends s.hub fun r _ =>
      ∀ g, r = .ok (.ok g) → s.hub.groups.get? g = none := by
    rw [Hub.ends_newGroup]
    cases hfree : s.hub.groups.free with
    | nil =>
      intro g he
      cases he
    | cons k free =>
      rintro g he
      cases he
      exact (h.tidy.blocks.front hfree).2
  exact hends

theorem perform_access (i : Option Nat) (held : List Nat) (f : μ → μ) :
    (perform i held (.access f : Call κ μ ρ)).Ends s fun r t => r = .ok s.memory ∧
      t = { s with memory := f s.memory } :=
  ⟨rfl, rfl⟩

theorem perform_memory (i : Option Nat) (held : List Nat) {c : Call κ μ ρ} (hc : ¬c.Accesses) :
    (perform i held c).Ends s fun _ t => t.memory = s.memory := by
  refine perform_of_answer rfl fun _ => ?_
  cases c with
  | access => exact absurd trivial hc
  | _ => rfl

theorem Even.ask_spawn (hs : Even s es) {code : κ} {group : Option Nat} {p : Priority} {a : Affinity}
    (hkept : ∀ g, group = some g → g ∈ s.kept) (hroom : ∀ g, group = some g → s.hub.Roomy g 1) :
    (ask (.spawn code group p a : Call κ μ ρ)).Ends s fun r t => t.memory = s.memory ∧
      (((Call.spawn code group p a : Call κ μ ρ).accepted s.hub.jobs.size r = none ∧
        t.hub.jobs = s.hub.jobs) ∨
        (r = .ok (.ok ()) ∧ t.hub.jobs = s.hub.jobs.push ⟨code, false, true, false, true, group⟩)) := by
  obtain ⟨h, hl, hlatched, -⟩ := hs.settled
  have hlive : ∀ g ∈ s.kept, g ∈ s.handles :=
    fun g hin => (Caller.outside (.spawn code group p a)).mem_handles (Or.inr hin)
  refine ask_of_perform (fun _ _ _ => id) ?_
  refine ((perform_spawned h hl hs.fewHandles hlatched none hkept hlive fun _ => hroom).and
    (perform_memory none s.kept id)).mono ?_
  rintro r t ⟨hspawned, hmemory⟩
  refine ⟨hmemory, ?_⟩
  unfold Hub.freshFailure? at hspawned
  by_cases hlimit : s.hub.jobs.size + 1 < Hub.recordLimit
  · rw [if_pos hlimit] at hspawned
    cases hno : s.hub.refusal? false a with
    | none =>
      rw [hno] at hspawned
      exact .inr ⟨hspawned.1, hspawned.2.1⟩
    | some refusal =>
      rw [hno] at hspawned
      obtain ⟨rfl, rfl⟩ := hspawned
      exact .inl ⟨rfl, rfl⟩
  · rw [if_neg hlimit] at hspawned
    obtain ⟨rfl, rfl⟩ := hspawned
    exact .inl ⟨rfl, rfl⟩

/-! ## Strides -/

def Action.ofCall (c : Call κ μ ρ) : Except Fault c.Answer → Action κ μ ρ
  | .ok answer => .call c answer
  | .error fault => .failed fault

theorem deeds_after (s' : System κ μ ρ) (hon : OnRun s worker w fiber run) {c : Call κ μ ρ}
    {next : c.Answer → Program κ μ ρ Unit} (hrest : run.rest = .call c next) : deeds s s' (.work worker) =
      acceptances (c.accepted s.hub.jobs.size (perform (some worker) run.held c s).result) ++
        [.acted run.job (.ofCall c (perform (some worker) run.held c s).result)] := by
  rw [deeds_onRun hon, deedsOfRun]
  obtain ⟨job, held, rest⟩ := run
  dsimp only at hrest
  subst hrest
  dsimp only
  cases (perform (some worker) held c s).result <;> rfl

def Uneventful (ds : List (Deed κ μ ρ)) : Prop :=
  ∀ d ∈ ds, (∀ job action, d ≠ .acted job action) ∧ ∀ job group, d ≠ .accepted job group

inductive Stride (body : κ → Program κ μ ρ Unit) (s : System κ μ ρ) (worker : Nat) :
    System κ μ ρ → List (Deed κ μ ρ) → Prop
  | still {s' : System κ μ ρ} {ds : List (Deed κ μ ρ)} (hjobs : s'.hub.jobs = s.hub.jobs)
      (hmemory : s'.memory = s.memory) (hruns : s'.runs = s.runs)
      (hunbegun : ∀ job, s'.unbegun.count job = s.unbegun.count job) (hstill : Uneventful ds) :
      Stride body s worker s' ds
  | began {s' : System κ μ ρ} {fiber job : Nat} {record : Job κ} (hrec : s.hub.jobs[job]? = some record)
      (hnone : s.runs[fiber]? = some none)
      (hjobs : s'.hub.jobs = s.hub.jobs.setIfInBounds job { record with started := true })
      (hmemory : s'.memory = s.memory)
      (hruns : s'.runs = s.runs.setIfInBounds fiber (some ⟨job, [], bodyOf body record⟩))
      (hunbegun : UnbegunBy s s' [.began job]) : Stride body s worker s' [.began job]
  | ended {s' : System κ μ ρ} {w : Worker} {fiber : Nat} {run : Run κ μ ρ} {record : Job κ}
      (hon : OnRun s worker w fiber run) (hover : run.rest.Over) (hrec : s.hub.jobs[run.job]? = some record)
      (hjobs : s'.hub.jobs = s.hub.jobs.setIfInBounds run.job (Hub.closed record))
      (hmemory : s'.memory = s.memory) (hruns : s'.runs = s.runs.setIfInBounds fiber none)
      (hunbegun : ∀ job, s'.unbegun.count job = s.unbegun.count job) :
      Stride body s worker s' [.ended run.job record.completion]
  | waited {w : Worker} {fiber group : Nat} {run : Run κ μ ρ} {next : Program κ μ ρ Unit} {state : Group}
      (hon : OnRun s worker w fiber run) (hrest : run.rest = .wait group next)
      (hstate : s.hub.groups.get? group = some state) (hcount : state.count = 0) :
      Stride body s worker (s.putRun fiber (some { run with rest := next })) [.acted run.job (.wait group)]
  | called {w : Worker} {fiber : Nat} {run : Run κ μ ρ} {c : Call κ μ ρ}
      {next : c.Answer → Program κ μ ρ Unit} {r : Except Fault c.Answer} {t : System κ μ ρ}
      (hon : OnRun s worker w fiber run) (hrest : run.rest = .call c next)
      (hends : (perform (some worker) run.held c).Ends s fun r' t' => r' = r ∧ t' = t) :
      Stride body s worker (t.putRun fiber (some (run.after c next r)))
        (acceptances (c.accepted s.hub.jobs.size r) ++ [.acted run.job (.ofCall c r)])

theorem Stride.later (h : s.Sound) (hm : s.Modest (.work worker)) (hst : Stride body s worker s' ds) :
    Later s s' := by
  cases hst with
  | still hjobs hmemory hruns hunbegun =>
    have hp := perm_of_counts (pending_of_unbegun hunbegun hruns)
    refine .of_same hjobs (fun job hin => hp.mem_iff.mp hin) fun job hin => ?_
    rwa [← List.count_pos_iff, hunbegun, List.count_pos_iff] at hin
  | @began _ fiber job record hrec hnone hjobs hmemory hruns hunbegun =>
    have hp := perm_of_counts (pending_began hnone hruns hunbegun)
    refine .of_set hrec hjobs rfl (fun k hin => ⟨hp.mem_iff.mp hin, fun _ => rfl⟩) fun k hin => ?_
    have hbegan : s'.unbegun.count k + [job].count k = s.unbegun.count k + 0 := hunbegun k
    have hpos := List.count_pos_iff.mpr hin
    refine ⟨List.count_pos_iff.mp (by omega), ?_⟩
    rintro rfl
    have honce := h.pending_once k
    rw [count_pending] at honce
    rw [List.count_singleton_self] at hbegan
    omega
  | @ended _ w fiber run record hon hover hrec hjobs hmemory hruns hunbegun =>
    have hp := pending_putRun_none hon.run hunbegun hruns
    refine .of_set hrec hjobs rfl (fun k hin => ⟨hp.mem_iff.mpr (List.mem_cons_of_mem _ hin), ?_⟩)
      fun k hin => ?_
    · rintro rfl
      exact absurd hin (h.not_mem_of_perm hp)
    · rw [← List.count_pos_iff, hunbegun, List.count_pos_iff] at hin
      exact ⟨hin, fun he => h.not_unbegun hon.run (he ▸ hin)⟩
  | @waited w fiber group run next state hon =>
    have hp : (s.putRun fiber (some { run with rest := next })).pending = s.pending :=
      pending_putRun hon.run rfl
    refine .of_same rfl (fun job hin => ?_) fun job hin => hin
    rwa [hp] at hin
  | @called w fiber run c next r t hon hrest hends =>
    have hcalled := (perform_called h.fit (some worker) run.held c).and hends
    obtain ⟨hcalled, rfl, rfl⟩ := hcalled
    have hmodest : c.Modest := hm.call_on hon c (by rw [hrest]; rfl)
    refine hcalled.later h (fun q hq => hmodest.accepted hq) rfl rfl fun job => ?_
    have hruns : (perform (some worker) run.held c s).state.runs = s.runs := by rw [hcalled.rest]
    show (gather jobOf ((perform (some worker) run.held c s).state.runs.setIfInBounds fiber _)).count job =
      s.runJobs.count job
    rw [hruns, gather_set_of_eq jobOf (run?_eq_some_iff.mp hon.run)
      (by simp only [jobOf, Option.map_some, run.after_job])]
    rfl

/-- No worker dies at the end of a run, since the group of the job has the unit that is signaled. -/
theorem Even.run_ends (hs : Even s es) {record : Job κ} {panic : Option Fault} {fault : Fault} {hub : Hub κ}
    (hon : OnRun s worker w fiber run) (hrec : s.hub.jobs[run.job]? = some record)
    (hend : (Hub.endRun (workerName worker) run.job run.held panic : Act ρ (Hub κ) Unit).Ends s.hub fun r h =>
    r = .error fault ∧ h = hub) :
    False := by
  have hcovers := hs.coversEnd (mem_pending_of_run hon.run)
  have hok : Except.error fault = .ok () :=
    (endRun_succeeds hs.settled.sound hs.settled.ledger hs.fewHandles hon panic hrec hcovers).pin hend
  cases hok

theorem Even.deaths_turn (hs : Even s es) (ht : Turn body s worker s' ds) : s'.deaths = s.deaths := by
  cases ht with
  | rest | exhausted | ended => rfl
  | started hw hstage => exact deaths_kept hw _ (by simp [hstage])
  | @went w fiber run run' t queued action hon hjob hcalled =>
    show t.deaths = s.deaths
    rw [hcalled.rest]
    rfl
  | parked hon | passed hon | returned hon | resumed hon => exact deaths_kept hon.here _ (by rfl)
  | left hon => exact deaths_kept hon.here _ (by simp [hon.stage])
  | @began w w' fiber job record lanes hon hrec hway =>
    have hstage : w'.stage = w.stage := by rcases hway with ⟨-, rfl, -⟩ | ⟨p, a, -, -, rfl, -⟩ <;> rfl
    exact deaths_kept hon.here _ (by rw [hstage])
  | died hon hover hrec hend => exact (hs.run_ends hon hrec hend).elim

theorem Even.deaths_move (hs : Even s es) (body : κ → Program κ μ ρ Unit) (m : Move κ μ ρ) :
    (move body s m).deaths = s.deaths := by
  have h := hs.settled.sound
  cases m with
  | work worker => exact hs.deaths_turn (turn_of_sound h body worker)
  | call c =>
    show (ask c s).state.deaths = s.deaths
    rw [(ask_called h.fit c).rest]
    rfl
  | record code extended oneShot =>
    show (onHub (Hub.addRecord (.new code extended oneShot)) s).state.deaths = s.deaths
    rw [(record_called h.fit code extended oneShot).rest]
    rfl
  | stop => rfl

/-- A step of an even system is a stride, if its bodies wait for groups of their own only. -/
theorem Even.stride (hs : Even s es)
    (hheld : ∀ run ∈ s.activeRun? worker, ∀ g next, run.rest = .wait g next → g ∈ run.held) :
    Stride body s worker (System.step body worker s).state
      (deeds s (System.step body worker s).state (.work worker)) := by
  have h := hs.settled.sound
  by_cases hcalls : ∃ w fiber run c next, OnRun s worker w fiber run ∧ run.rest = .call c next
  · obtain ⟨w, fiber, run, c, next, hon, hrest⟩ := hcalls
    rw [deeds_after _ hon hrest, step_after body hon hrest]
    exact .called hon hrest ⟨rfl, rfl⟩
  have ht := turn_of_sound h body worker
  have hunbegun := ht.unbegun h
  have hwaits : ∀ w fiber run g next, OnRun s worker w fiber run → run.rest = .wait g next → _ :=
    fun w fiber run g next hon hrest =>
    deeds_wait hs.settled.ledger (System.step body worker s).state hon hrest
      (hheld run hon.activeRun? g next hrest)
  generalize deeds s (System.step body worker s).state (.work worker) = ds at ht hunbegun hwaits
  generalize (System.step body worker s).state = s' at ht hunbegun
  cases ht with
  | rest | exhausted | started | passed | returned | left =>
    exact .still rfl rfl rfl hunbegun fun d hd => by cases hd
  | parked | resumed => exact .still rfl rfl rfl hunbegun fun d hd => by cases List.mem_singleton.mp hd; simp
  | began hon hrec => exact .began hrec (h.runs_of_loop hon) rfl rfl rfl hunbegun
  | @ended w fiber run record panic hub hon hover hrec hend =>
    obtain ⟨hjobs, -⟩ := ((Hub.ends_endRun h.tidy hrec).pin hend).whole rfl
    exact .ended hon hover hrec hjobs rfl rfl hunbegun
  | died hon hover hrec hend => exact (hs.run_ends hon hrec hend).elim
  | @went w fiber run run' s₁ queued action hon hjob hcalled hdoes hsource =>
    rcases hsource with ⟨c, next, hrest, -⟩ | ⟨rfl, hheld'⟩
    · exact absurd ⟨w, fiber, run, c, next, hon, hrest⟩ hcalls
    -- A turn that only waits or stops short hands over no job.
    have hqueued : queued = none := by
      cases hcalled.effect.queues with
      | none => rfl
      | some hqueued =>
        have hlength := hqueued.length_eq
        simp at hlength
    subst hqueued
    obtain ⟨job', held', rest'⟩ := run'
    dsimp only at hjob hdoes hheld'
    subst hjob hheld'
    generalize hrest : run.rest = p at hdoes
    cases hdoes with
    | call | failedCall => exact absurd ⟨w, fiber, run, _, _, hon, hrest⟩ hcalls
    | wait =>
      obtain ⟨state, hstate, -, hcount⟩ := hwaits w fiber run _ _ hon hrest
      exact .waited hon hrest hstate (hcount _ _ (List.mem_append_right _ (List.mem_singleton_self _)))
    | failedWait =>
      obtain ⟨-, -, hno, -⟩ := hwaits w fiber run _ _ hon hrest
      exact absurd (List.mem_append_right _ (List.mem_singleton_self _)) (hno _ _)

end System

end FiberScheduler
