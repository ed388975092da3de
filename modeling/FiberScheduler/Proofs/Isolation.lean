import FiberScheduler.Proofs.Slots
import FiberScheduler.Proofs.Unseen

/-!
# Panics stay with their jobs

Two systems that run the same jobs, but for bodies of the second that return where those of
the first panic, take the same steps: they differ in the number of panics they have counted
and in what is left of their bodies, and their logs in the lines that tell of panics.
-/

namespace FiberScheduler

variable {κ μ ρ γ α β : Type}

/-! ## Logs and bodies -/

/-- An entry of a log as one sees it who is not told of panics, and of a report only what
`mask` shows. -/
def Entry.muted (mask : ρ → γ) : Entry ρ → Option (Entry γ)
  | .notice (.jobPanicked ..) => none
  | .notice line => some (.notice line)
  | .report r => some (.report (mask r))

def muted (mask : ρ → γ) (log : List (Entry ρ)) : List (Entry γ) :=
  log.filterMap (Entry.muted mask)

@[simp] theorem muted_append (mask : ρ → γ) (log log' : List (Entry ρ)) :
    muted mask (log ++ log') = muted mask log ++ muted mask log' :=
  List.filterMap_append

def Call.Alike : (c : Call κ μ ρ) → c.Answer → c.Answer → Prop
  | .counters, a, a' => a' = { a with panicked := a'.panicked }
  | _, a, a' => a = a'

theorem Call.Alike.refl (c : Call κ μ ρ) (a : c.Answer) : c.Alike a a := by
  cases c <;> rfl

theorem Call.Alike.settle {c : Call κ μ ρ} {a a' : c.Answer} (h : c.Alike a a') (held : List Nat) :
    c.settle a' held = c.settle a held := by
  cases c with
  | counters => rfl
  | _ => exact (congrArg (fun a => Call.settle _ a held) h).symm

/-- The second body does what the first does, and may return where the first panics. Neither
makes anything of the number of panics but to report it. -/
inductive Program.Tamed (mask : ρ → γ) : Program κ μ ρ Unit → Program κ μ ρ Unit → Prop
  | done : Tamed mask (.done ()) (.done ())
  | panic (fault : Fault) : Tamed mask (.panic fault) (.panic fault)
  | tamed (fault : Fault) : Tamed mask (.panic fault) (.done ())
  | wait {p q : Program κ μ ρ Unit} (group : Nat) (h : Tamed mask p q) :
      Tamed mask (.wait group p) (.wait group q)
  | call {c : Call κ μ ρ} {next next' : c.Answer → Program κ μ ρ Unit}
      (h : ∀ a a', c.Alike a a' → Tamed mask (next a) (next' a')) : Tamed mask (.call c next) (.call c next')
  | report {r r' : ρ} {next next' : Unit → Program κ μ ρ Unit} (hr : mask r' = mask r)
      (h : Tamed mask (next ()) (next' ())) : Tamed mask (.call (.report r) next) (.call (.report r') next')

namespace System

open Act

variable {mask : ρ → γ} {s s' : System κ μ ρ}

/-! ## Pairs of systems -/

inductive TwinRuns (mask : ρ → γ) : Option (Run κ μ ρ) → Option (Run κ μ ρ) → Prop
  | none : TwinRuns mask none none
  | some {p q : Program κ μ ρ Unit} (job : Nat) (held : List Nat) (h : Program.Tamed mask p q) :
      TwinRuns mask (some ⟨job, held, p⟩) (some ⟨job, held, q⟩)

/-- Systems that agree in everything but the number of panics they have counted, and run the
same jobs with the same handles. -/
structure Twin (mask : ρ → γ) (s s' : System κ μ ρ) : Prop where
  same : s' = s.recast s'.hub.counters.panicked s'.runs
  size : s'.runs.size = s.runs.size
  runs : ∀ fiber, TwinRuns mask (s.run? fiber) (s'.run? fiber)

def Agree (A : α → α → Prop) : Except Fault α → Except Fault α → Prop
  | .ok a, .ok a' => A a a'
  | .error fault, .error fault' => fault' = fault
  | _, _ => False

structure Pairs (mask : ρ → γ) (A : α → α → Prop) (o o' : Outcome ρ (System κ μ ρ) α) : Prop where
  result : Agree A o.result o'.result
  state : Twin mask o.state o'.state
  log : muted mask o'.log = muted mask o.log

section
variable {A : α → α → Prop} {B : β → β → Prop} {x x' : Act ρ (System κ μ ρ) α}

theorem Agree.refl (hA : ∀ a, A a a) (r : Except Fault α) : Agree A r r := by
  cases r with
  | error fault => rfl
  | ok a => exact hA a

theorem Agree.mono {C : α → α → Prop} {r r' : Except Fault α} (h : Agree A r r')
    (hAC : ∀ a a', A a a' → C a a') : Agree C r r' := by
  cases r with
  | error fault => cases r' with
    | error fault' => exact h
    | ok a' => exact h.elim
  | ok a => cases r' with
    | error fault' => exact h.elim
    | ok a' => exact hAC a a' h

theorem Pairs.bind {k k' : α → Act ρ (System κ μ ρ) β} (hx : Pairs mask A (x s) (x' s'))
    (hk : ∀ a a' t t', A a a' → Twin mask t t' → Pairs mask B (k a t) (k' a' t')) :
    Pairs mask B ((x >>= k) s) ((x' >>= k') s') := by
  obtain ⟨hresult, hstate, hlog⟩ := hx
  rcases h : x s with ⟨fault | a, t, log⟩ <;> rcases h' : x' s' with ⟨fault' | a', t', log'⟩ <;>
    rw [h] at hresult hstate hlog <;> rw [h'] at hresult hstate hlog
  · rw [bind_of_error s h, bind_of_error s' h']
    exact ⟨hresult, hstate, hlog⟩
  · exact hresult.elim
  · exact hresult.elim
  · obtain ⟨hresult', hstate', hlog'⟩ := hk a a' t t' hresult hstate
    rw [bind_of_ok s h, bind_of_ok s' h']
    refine ⟨hresult', hstate', ?_⟩
    rw [muted_append, muted_append, hlog']
    exact congrArg (· ++ _) hlog

theorem Pairs.weaken {o o' : Outcome ρ (System κ μ ρ) α} (h : Pairs mask A o o') :
    Pairs mask (fun _ _ => True) o o' :=
  ⟨h.result.mono fun _ _ _ => trivial, h.state, h.log⟩

theorem Pairs.attempt (hx : Pairs mask A (x s) (x' s')) :
    Pairs mask (Agree A) (x.attempt s) (x'.attempt s') := by
  obtain ⟨hresult, hstate, hlog⟩ := hx
  exact ⟨hresult, hstate, hlog⟩

theorem Twin.agrees {β : Type} (ht : Twin mask s s') (f : System κ μ ρ → β)
    (hf : ∀ n runs, f (s.recast n runs) = f s) : f s' = f s := by
  rw [ht.same]
  exact hf _ _

/-- An act that respects what twins differ in does the same to both. -/
theorem Twin.pairs (ht : Twin mask s s') (hx : ∀ n runs, x.Respects (recast n runs)) :
    Pairs mask Eq (x s) (x s') := by
  have hkeeps : (x s).state.runs = s.runs := congrArg (·.state.runs) (hx s.hub.counters.panicked s.runs s)
  rw [ht.same, hx]
  refine ⟨Agree.refl (fun _ => rfl) _, ⟨rfl, ht.size.trans (congrArg _ hkeeps.symm), fun fiber => ?_⟩, rfl⟩
  have hrun : (x s).state.run? fiber = s.run? fiber := by rw [run?, hkeeps, ← run?]
  rw [hrun]
  exact ht.runs fiber

theorem Twin.pure (ht : Twin mask s s') {a a' : α} (ha : A a a') :
    Pairs mask A ((pure a : Act ρ (System κ μ ρ) α) s) ((pure a' : Act ρ (System κ μ ρ) α) s') :=
  ⟨ha, ht, rfl⟩

end

theorem run?_setIfInBounds (s : System κ μ ρ) (fiber k : Nat) (run : Option (Run κ μ ρ)) :
    ({ s with runs := s.runs.setIfInBounds fiber run } : System κ μ ρ).run? k =
      if fiber = k ∧ fiber < s.runs.size then run else s.run? k := by
  unfold run?
  rw [Array.getElem?_setIfInBounds]
  by_cases hk : fiber = k
  · subst hk
    by_cases hlt : fiber < s.runs.size <;> simp [hlt]
  · simp [hk]

theorem Twin.setRun (ht : Twin mask s s') (fiber : Nat) {run run' : Option (Run κ μ ρ)}
    (hrun : TwinRuns mask run run') :
    Pairs mask (fun _ _ => True) (System.setRun fiber run s) (System.setRun fiber run' s') := by
  refine ⟨trivial, ⟨?_, ?_, fun k => ?_⟩, rfl⟩
  · show ({ s' with runs := s'.runs.setIfInBounds fiber run' } : System κ μ ρ) = _
    exact congrArg (fun t : System κ μ ρ => { t with runs := s'.runs.setIfInBounds fiber run' }) ht.same
  · show (s'.runs.setIfInBounds fiber run').size = (s.runs.setIfInBounds fiber run).size
    rw [Array.size_setIfInBounds, Array.size_setIfInBounds, ht.size]
  · show TwinRuns mask (({ s with runs := s.runs.setIfInBounds fiber run } : System κ μ ρ).run? k)
      (({ s' with runs := s'.runs.setIfInBounds fiber run' } : System κ μ ρ).run? k)
    rw [run?_setIfInBounds, run?_setIfInBounds, ht.size]
    split
    · exact hrun
    · exact ht.runs k

end System

/-! ## Ends of runs -/

/-- Whether a body panicked is told by the number of panics and by a line of the log. -/
theorem Hub.endRun_mutes (mask : ρ → γ) (worker : String) (job : Nat) (held : List Nat) (panic : Option Fault)
    (h : Hub κ) :
    let o := (Hub.endRun worker job held panic : Act ρ (Hub κ) Unit) h
    let quiet := (Hub.endRun worker job held none : Act ρ (Hub κ) Unit) h
    o.result = quiet.result ∧ (∃ n, o.state = quiet.state.withPanics n) ∧
      muted mask o.log = muted mask quiet.log := by
  have hsame : ∀ t : Hub κ, t = t.withPanics t.counters.panicked := fun _ => rfl
  cases panic with
  | none => exact ⟨rfl, ⟨_, hsame _⟩, rfl⟩
  | some fault =>
    simp only [Hub.endRun_eq]
    rcases hdrop : (Hub.dropGroups held : Act ρ (Hub κ) Unit) h with ⟨_ | _, t, log⟩
    · rw [Act.bind_of_error h hdrop, Act.bind_of_error h hdrop]
      exact ⟨rfl, ⟨_, hsame t⟩, rfl⟩
    · let rest : Act ρ (Hub κ) Unit := Hub.wrapUp job
      let ended := { t with counters := t.counters.bump .executed }
      have hquiet : (Hub.finish worker job none : Act ρ (Hub κ) Unit) t = rest ended := rfl
      have hpanic : (Hub.finish worker job (some fault) : Act ρ (Hub κ) Unit) t =
          ⟨(rest ended).result, (rest ended).state.withPanics (ended.counters.panicked + 1),
            .notice (.jobPanicked worker fault.message) :: (rest ended).log⟩ := by
        let told := rest (ended.withPanics (ended.counters.panicked + 1))
        have htold : (Hub.finish worker job (some fault) : Act ρ (Hub κ) Unit) t =
            ⟨told.result, told.state, .notice (.jobPanicked worker fault.message) :: told.log⟩ := rfl
        have hrest :
            told = ⟨(rest ended).result, (rest ended).state.withPanics (ended.counters.panicked + 1),
            (rest ended).log⟩ :=
          Hub.wrapUp_respects _ job ended
        rw [htold, hrest]
      rw [Act.bind_of_ok h hdrop, Act.bind_of_ok h hdrop, hquiet, hpanic]
      refine ⟨rfl, ⟨_, rfl⟩, ?_⟩
      rw [muted_append, muted_append]
      rfl

namespace System

open Act

variable {mask : ρ → γ} {s s' : System κ μ ρ} {body body' : κ → Program κ μ ρ Unit}

theorem Twin.withPanics (ht : Twin mask s s') (n n' : UInt64) :
    Twin mask (s.setHub (s.hub.withPanics n)) (s'.setHub (s'.hub.withPanics n')) where
  same := congrArg (fun t : System κ μ ρ => t.setHub (t.hub.withPanics n')) ht.same
  size := ht.size
  runs := ht.runs

theorem Twin.endRun (ht : Twin mask s s') (worker fiber job : Nat) (held : List Nat)
    (p q : Program κ μ ρ Unit) (panic panic' : Option Fault) :
      Pairs mask (fun _ _ => True) (endRun worker fiber ⟨job, held, p⟩ panic s)
      (endRun worker fiber ⟨job, held, q⟩ panic' s') := by
  refine (ht.setRun fiber .none).bind fun _ _ t t' _ ht => ?_
  have hquiet := ht.pairs (x := onHub (Hub.endRun (workerName worker) job held none)) fun n runs =>
    onHub_respects n runs (Hub.endRun_respects n _ _ _)
  obtain ⟨hr, ⟨n, hn⟩, hlog⟩ := Hub.endRun_mutes mask (workerName worker) job held panic t.hub
  obtain ⟨hr', ⟨n', hn'⟩, hlog'⟩ := Hub.endRun_mutes mask (workerName worker) job held panic' t'.hub
  refine ⟨?_, ?_, hlog'.trans (hquiet.log.trans hlog.symm)⟩
  · show Agree (fun _ _ => True) (Hub.endRun _ _ _ panic t.hub).result (Hub.endRun _ _ _ panic' t'.hub).result
    rw [hr, hr']
    exact hquiet.result.mono fun _ _ _ => trivial
  · have hstate := hquiet.state.withPanics n n'
    show Twin mask (t.setHub (Hub.endRun _ _ _ panic t.hub).state)
      (t'.setHub (Hub.endRun _ _ _ panic' t'.hub).state)
    rw [hn, hn']
    exact hstate

/-! ## Calls -/

theorem perform_pairs (ht : Twin mask s s') (worker : Option Nat) (held : List Nat) (c : Call κ μ ρ) :
    Pairs mask c.Alike (perform worker held c s) (perform worker held c s') := by
  by_cases hc : c = .counters
  · subst hc
    refine ⟨?_, ht, rfl⟩
    show s'.hub.counters = _
    rw [ht.same]
    rfl
  · obtain ⟨hresult, hstate, hlog⟩ := ht.pairs fun n runs => perform_respects n runs worker held hc
    exact ⟨hresult.mono fun a _ ha => ha ▸ .refl c a, hstate, hlog⟩

theorem ask_pairs (ht : Twin mask s s') (c : Call κ μ ρ) : Pairs mask c.Alike (ask c s) (ask c s') := by
  have hkept : s'.kept = s.kept := ht.agrees (·.kept) fun _ _ => rfl
  unfold ask
  rw [get_bind, get_bind, hkept]
  refine (perform_pairs ht none s.kept c).bind fun a a' t t' ha ht => ?_
  have hsettle : c.settle a' = c.settle a := funext ha.settle
  rw [hsettle]
  exact (ht.pairs fun n runs => modifyKept_respects n runs (c.settle a)).bind fun _ _ _ _ _ ht => ht.pure ha

/-! ## Steps -/

theorem stepRun_pairs (ht : Twin mask s s') {p q : Program κ μ ρ Unit} (hpq : Program.Tamed mask p q)
    (worker fiber job : Nat) (held : List Nat) :
      Pairs mask (fun _ _ => True) (stepRun worker fiber ⟨job, held, p⟩ s)
      (stepRun worker fiber ⟨job, held, q⟩ s') := by
  cases hpq with
  -- However their bodies end, both runs end here, and the hub is told of a panic in one place only.
  | done => exact ht.endRun worker fiber job held _ _ none none
  | panic fault => exact ht.endRun worker fiber job held _ _ (some fault) (some fault)
  | tamed fault => exact ht.endRun worker fiber job held _ _ (some fault) none
  | @wait p q group h =>
    refine (ht.pairs fun n runs => access_respects n runs held group).attempt.bind fun r r' t t' hr ht => ?_
    rcases r with fault | state <;> rcases r' with fault' | state'
    · obtain rfl : fault' = fault := hr
      exact ht.setRun fiber (.some job held (.panic fault'))
    · exact hr.elim
    · exact hr.elim
    · obtain rfl : state = state' := hr
      by_cases hsignaled : state.isSignaled = true
      · simp only [hsignaled, if_true]
        exact ht.setRun fiber (.some job held h)
      · simp only [hsignaled]
        exact (ht.pairs fun n runs => park_respects n runs worker fiber group).weaken
  | @call c next next' h =>
    refine (perform_pairs ht (some worker) held c).attempt.bind fun r r' t t' hr ht => ?_
    rcases r with fault | a <;> rcases r' with fault' | a'
    · obtain rfl : fault' = fault := hr
      exact ht.setRun fiber (.some job held (.panic fault'))
    · exact hr.elim
    · exact hr.elim
    · have ha : c.Alike a a' := hr
      dsimp only
      rw [ha.settle]
      exact ht.setRun fiber (.some job _ (h a a' ha))
  | @report r r' next next' hr h =>
    have hreport :
        Pairs mask Eq ((perform (some worker) held (.report r)).attempt s)
        ((perform (some worker) held (.report r')).attempt s') :=
      ⟨rfl, ht, congrArg (fun shown => [Entry.report shown]) hr⟩
    refine hreport.bind fun a a' t t' ha ht => ?_
    subst ha
    cases a with
    | error fault => exact ht.setRun fiber (.some job held (.panic fault))
    | ok _ => exact ht.setRun fiber (.some job held h)

section
variable (hbodies : ∀ code, Program.Tamed mask (body code) (body' code))
include hbodies

theorem beginRun_pairs (ht : Twin mask s s') (fiber job : Nat) :
    Pairs mask (fun _ _ => True) (beginRun body fiber job s) (beginRun body' fiber job s') := by
  refine (ht.pairs fun n runs => onHub_respects n runs (Hub.startBody_respects n job)).bind
    fun code code' t t' hcode ht => ?_
  subst hcode
  cases code with
  | none => exact ht.setRun fiber (.some job [] .done)
  | some code => exact ht.setRun fiber (.some job [] (hbodies code))

theorem dispatch_pairs (ht : Twin mask s s') (worker fiber job : Nat) (p : Priority) (a : Affinity) :
    Pairs mask (fun _ _ => True) (dispatch body worker fiber job p a s)
      (dispatch body' worker fiber job p a s') := by
  refine (ht.pairs fun n runs => modifyWorker_respects n runs worker _).bind fun _ _ t t' _ ht => ?_
  rw [get_bind, get_bind]
  have hstays :
      (!t'.hub.needsExtended job || t'.pool.isExtended fiber) =
      (!t.hub.needsExtended job || t.pool.isExtended fiber) :=
    ht.agrees (fun t => !t.hub.needsExtended job || t.pool.isExtended fiber) fun _ _ => rfl
  by_cases hstay : (!t.hub.needsExtended job || t.pool.isExtended fiber) = true
  · rw [if_pos hstay, if_pos (hstays.trans hstay)]
    exact beginRun_pairs hbodies ht fiber job
  · rw [if_neg hstay, if_neg fun hn => hstay (hstays.symm.trans hn)]
    exact (ht.pairs fun n runs => pass_respects n runs worker fiber job p a).weaken

theorem schedule_pairs (ht : Twin mask s s') (worker fiber : Nat) (w : Worker) :
    Pairs mask (fun _ _ => True) (schedule body worker fiber w s) (schedule body' worker fiber w s') := by
  unfold schedule
  cases w.handoff with
  | some job =>
    refine (ht.pairs fun n runs => modifyWorker_respects n runs worker _).bind fun _ _ t t' _ ht => ?_
    exact beginRun_pairs hbodies ht fiber job
  | none =>
    have hlanes :
        s'.hub.lanes.take (s'.hub.crew.sources worker) = s.hub.lanes.take (s.hub.crew.sources worker) :=
      ht.agrees (fun t => t.hub.lanes.take (t.hub.crew.sources worker)) fun _ _ => rfl
    have hexit : s'.hub.shouldExit = s.hub.shouldExit := ht.agrees (·.hub.shouldExit) fun _ _ => rfl
    dsimp only
    rw [get_bind, get_bind, hlanes, hexit]
    cases htake : s.hub.lanes.take (s.hub.crew.sources worker) with
    | none =>
      by_cases hleave : s.hub.shouldExit = true
      · simp only [hleave, if_true]
        exact (ht.pairs fun n runs => leave_respects n runs worker fiber).weaken
      · simp only [hleave]
        exact ht.pure trivial
    | some taken =>
      obtain ⟨work, lanes⟩ := taken
      cases work with
      | fiber ready => exact (ht.pairs fun n runs => resume_respects n runs worker fiber ready lanes).weaken
      | job job p a =>
        have hput : ∀ n :
            UInt64, (Act.modify fun h => { h with lanes } : Act ρ (Hub κ) Unit).Respects (Hub.withPanics n) :=
            fun n =>
          respects_modify fun _ => by rfl
        refine (ht.pairs fun n runs => onHub_respects n runs (hput n)).bind fun _ _ t t' _ ht => ?_
        exact dispatch_pairs hbodies ht worker fiber job p a

theorem tryStep_pairs (ht : Twin mask s s') (worker : Nat) :
    Pairs mask (fun _ _ => True) (tryStep body worker s) (tryStep body' worker s') := by
  have hworkers : s'.workers = s.workers := ht.agrees (·.workers) fun _ _ => rfl
  unfold tryStep
  rw [get_bind, get_bind, hworkers]
  cases s.workers[worker]? with
  | none => exact ht.pure trivial
  | some w =>
    obtain ⟨stage, current, previous, parking, priority, affinity, handoff⟩ := w
    cases stage with
    | starting => exact (ht.pairs fun n runs => start_respects n runs worker).weaken
    | left | dead => exact ht.pure trivial
    | running =>
      cases current with
      | none => exact ht.pure trivial
      | some fiber =>
        dsimp only
        have hruns := ht.runs fiber
        generalize s.run? fiber = run at hruns
        generalize s'.run? fiber = run' at hruns
        cases hruns with
        | none => exact schedule_pairs hbodies ht worker fiber _
        | some job held h => exact stepRun_pairs ht h worker fiber job held

theorem step_pairs (ht : Twin mask s s') (worker : Nat) :
    Pairs mask (fun _ _ => True) (step body worker s) (step body' worker s') := by
  have haborted : s'.aborted = s.aborted := ht.agrees (·.aborted) fun _ _ => rfl
  unfold step
  rw [get_bind, get_bind, haborted]
  by_cases halive : (!s.aborted) = true
  · simp only [halive, if_true]
    refine (tryStep_pairs hbodies ht worker).attempt.bind fun r r' t t' hr ht => ?_
    rcases r with fault | _ <;> rcases r' with fault' | _
    · exact (ht.pairs fun n runs => modifyWorker_respects n runs worker _).weaken
    · exact hr.elim
    · exact hr.elim
    · exact ht.pure trivial
  · simp only [halive]
    exact ht.pure trivial

end

/-! ## Runs -/

theorem Twin.move (hbodies : ∀ code, Program.Tamed mask (body code) (body' code)) (ht : Twin mask s s')
    (m : Move κ μ ρ) :
    Twin mask (move body s m) (move body' s' m) ∧
      muted mask (told body' s' m) = muted mask (told body s m) := by
  cases m with
  | work worker =>
    have hpairs := step_pairs hbodies ht worker
    exact ⟨hpairs.state, hpairs.log⟩
  | call c =>
    have hpairs := ask_pairs ht c
    exact ⟨hpairs.state, hpairs.log⟩
  | record code extended oneShot =>
    have hpairs := ht.pairs fun n runs =>
      onHub_respects n runs (Hub.addRecord_respects n (.new code extended oneShot))
    exact ⟨hpairs.state, hpairs.log⟩
  | stop =>
    have hstop : ∀ n : UInt64, (Hub.beginStop : Act ρ (Hub κ) Unit).Respects (Hub.withPanics n) := fun n =>
      respects_modify fun _ => by rfl
    have hpairs := ht.pairs fun n runs => onHub_respects n runs (hstop n)
    exact ⟨hpairs.state, hpairs.log⟩

theorem Twin.play (hbodies : ∀ code, Program.Tamed mask (body code) (body' code)) (ht : Twin mask s s')
    (moves : List (Move κ μ ρ)) :
    Twin mask (play body s moves) (play body' s' moves) ∧
      muted mask (journal body' s' moves) = muted mask (journal body s moves) := by
  induction moves generalizing s s' with
  | nil => exact ⟨ht, rfl⟩
  | cons m moves ih =>
    obtain ⟨htwin, htold⟩ := ht.move hbodies m
    obtain ⟨hplay, hjournal⟩ := ih htwin
    refine ⟨hplay, ?_⟩
    rw [journal, journal, muted_append, muted_append, htold, hjournal]

theorem New.twin (h : New s) (mask : ρ → γ) : Twin mask s s := by
  refine ⟨rfl, rfl, fun fiber => ?_⟩
  rw [h.run?]
  exact .none

end System

/-! ## Panics -/

inductive Program.EndsIn : Program κ μ ρ Unit → Option Fault → Prop
  | done : EndsIn (.done ()) none
  | panic (fault : Fault) : EndsIn (.panic fault) (some fault)

section
variable {worker : String} {job : Nat} {held : List Nat} {panic : Option Fault} {h : Hub κ} {record : Job κ}

theorem Hub.ends_endRun_counters (ht : h.Tidy) (hrec : h.jobs[job]? = some record) :
    (Hub.endRun worker job held panic : Act ρ (Hub κ) Unit).Ends h fun r h' =>
      r = .ok () → h'.counters = Hub.counted h.counters panic := by
  rw [Hub.endRun_eq, Act.ends_bind]
  refine (Hub.dropGroups_steady ht held).mono fun r h₁ hst => ?_
  cases r with
  | error fault => exact fun hr => by cases hr
  | ok _ =>
    have hrec₁ : h₁.jobs[job]? = some record := by
      rw [hst.rest]
      exact hrec
    have hcounters : h₁.counters = h.counters := by rw [hst.rest]
    have ht₂ : (({ h₁ with counters := Hub.counted h₁.counters panic } : Hub κ).setJob job
        (Hub.closed record)).Tidy :=
      hst.tidy.of_lanes rfl rfl (fun _ hr => hr) rfl
    rw [Act.after_ok, Hub.ends_finish hrec₁]
    refine (Hub.withdraw_steady ht₂ record.completion).mono fun r h₂ hst₂ => ?_
    cases r with
    | error fault => exact fun hr => by cases hr
    | ok _ =>
      intro _
      show h₂.counters = _
      rw [hst₂.rest, ← hcounters]
      rfl

theorem Hub.notice_endRun {fault : Fault}
    (hok : ((Hub.endRun worker job held (some fault) : Act ρ (Hub κ) Unit) h).result = .ok ()) :
    .notice (.jobPanicked worker fault.message) ∈
      ((Hub.endRun worker job held (some fault) : Act ρ (Hub κ) Unit) h).log := by
  rw [Hub.endRun_eq] at hok ⊢
  rcases hdrop : (Hub.dropGroups held : Act ρ (Hub κ) Unit) h with ⟨_ | _, t, log⟩
  · rw [Act.bind_of_error h hdrop] at hok
    cases hok
  · rw [Act.bind_of_ok h hdrop]
    have hfinish : ∃ log', ((Hub.finish worker job (some fault) : Act ρ (Hub κ) Unit) t).log =
        .notice (.jobPanicked worker fault.message) :: log' := ⟨_, rfl⟩
    obtain ⟨log', hlog'⟩ := hfinish
    apply List.mem_append_right
    rw [hlog']
    exact List.mem_cons_self

end

namespace System

open Act

variable {σ : Type} {mask : ρ → γ} {s s' : System κ μ ρ} {body body' : κ → Program κ μ ρ Unit}
  {worker fiber : Nat} {w : Worker} {run : Run κ μ ρ} {fault : Fault}

/-- How a step takes a panic out of a system: the worker goes on with its loop on the fiber
it is on, the job is free again and its group signaled once, and its slot is given back. -/
structure Contained (s : System κ μ ρ) (worker : Nat) (w : Worker) (fiber job : Nat) (fault : Fault)
    (o : Outcome ρ (System κ μ ρ) Unit) :
    Prop where
  loop : OnLoop o.state worker w fiber
  job : ∃ record, s.hub.jobs[job]? = some record ∧ record.scheduled = true ∧
    o.state.hub.jobs = s.hub.jobs.setIfInBounds job (Hub.closed record) ∧
    Hub.Counted s.hub o.state.hub (Hub.signaled record.completion)
  slot : o.state.hub.active.toNat + 1 = s.hub.active.toNat
  counters : o.state.hub.counters = (s.hub.counters.bump .executed).bump .panicked
  notice : .notice (.jobPanicked (workerName worker) fault.message) ∈ o.log

theorem endRun_of_hub {panic : Option Fault} {r : Except Fault Unit} {hub : Hub κ} {log : List (Entry ρ)}
    (hend : (Hub.endRun (workerName worker) run.job run.held panic : Act ρ (Hub κ) Unit) s.hub =
      ⟨r, hub, log⟩) :
    endRun worker fiber run panic s = ⟨r, (s.putRun fiber none).setHub hub, log⟩ := by
  have hzoom :
      endRun worker fiber run panic s = (onHub (Hub.endRun (workerName worker) run.job run.held panic) :
      Act ρ (System κ μ ρ) Unit) (s.putRun fiber none) := rfl
  have hhub : (s.putRun fiber none).hub = s.hub := rfl
  rw [hzoom, onHub, zoom, hhub, hend]
  rfl

theorem tryStep_over {panic : Option Fault} (hon : OnRun s worker w fiber run)
    (hrest : run.rest.EndsIn panic) :
    tryStep body worker s = endRun worker fiber run panic s := by
  have hstep : stepRun worker fiber run = endRun worker fiber run panic := by
    unfold stepRun
    generalize run.rest = p at hrest
    cases hrest <;> rfl
  unfold tryStep
  rw [get_bind]
  simp only [hon.here, hon.stage, hon.current, hon.run, hstep]

theorem step_over {panic : Option Fault} (hon : OnRun s worker w fiber run) (hrest : run.rest.EndsIn panic)
    {hub : Hub κ} {log : List (Entry ρ)}
    (hend : (Hub.endRun (workerName worker) run.job run.held panic : Act ρ (Hub κ) Unit) s.hub =
    ⟨.ok (), hub, log⟩) :
    step body worker s = ⟨.ok (), (s.putRun fiber none).setHub hub, log⟩ := by
  unfold step
  rw [get_bind, hon.alive]
  simp only [Bool.not_false, if_true]
  have hattempt :
      (tryStep body worker).attempt s = ⟨.ok (.ok ()), (s.putRun fiber none).setHub hub, log⟩ := by
    rw [attempt, tryStep_over hon hrest, endRun_of_hub hend]
  rw [bind_of_ok s hattempt]
  show Outcome.mk _ _ (log ++ []) = _
  rw [List.append_nil]
  rfl

theorem contained_of_panic (body : κ → Program κ μ ρ Unit) (h : s.Sound) (hl : Ledger s) (hfew : FewHandles s)
    (hon : OnRun s worker w fiber run) (hrest : run.rest = .panic fault)
    (hno : ¬s.hub.OverSignals ((s.hub.jobs[run.job]?).bind (·.completion))) :
    Contained s worker w fiber run.job fault (step body worker s) := by
  obtain ⟨record, hrec, hsched⟩ := record_onRun h hon
  rw [hrec, Option.bind_some] at hno
  let o := (Hub.endRun (workerName worker) run.job run.held (some fault) : Act ρ (Hub κ) Unit) s.hub
  -- The end of the run fails only by a signal too many, and then nothing after it is done.
  have hok : o.result = .ok () := (endRun_of_run h hl hfew hon (some fault) hrec).2.2.mpr hno
  have hending : Hub.Ending s.hub o.state run.job record o.result := Hub.ends_endRun h.tidy hrec
  have hcounted : o.result = .ok () → Hub.Counted s.hub o.state _ := Hub.endRun_counted h.tidy hrec
  have hcounters : o.result = .ok () → o.state.counters = _ := Hub.ends_endRun_counters h.tidy hrec
  have hnotice : _ ∈ o.log := Hub.notice_endRun hok
  have hends : run.rest.EndsIn (some fault) := by
    rw [hrest]
    exact .panic fault
  have hstep : step body worker s = ⟨.ok (), (s.putRun fiber none).setHub o.state, o.log⟩ :=
    step_over hon hends (by rw [← hok])
  have hlt : fiber < s.runs.size := (Array.getElem?_eq_some_iff.mp (run?_eq_some_iff.mp hon.run)).1
  have hover : run.rest.Over := by
    rw [hrest]
    exact .panic fault
  have hslot := (slot_of_run body h hon hover).2
  have hmove : move body s (.work worker) = (s.putRun fiber none).setHub o.state := by
    rw [move, hstep]
  have hstage : ((s.putRun fiber none).setHub o.state).stageOf worker = some .running :=
    (congrArg (Option.map _) hon.here).trans (congrArg some hon.stage)
  rw [hmove, hstage] at hslot
  rw [hstep]
  exact {
    loop := ⟨hon.alive, hon.here, hon.stage, hon.current, (run?_putRun hlt none fiber).trans (if_pos rfl)⟩
    job := ⟨record, hrec, hsched, (hending.whole hok).1, hcounted hok⟩
    slot := hslot.elim (·.1) fun hlost => by cases hlost.2
    counters := hcounters hok
    notice := hnotice }

section
variable {mode : Mode} {host : Host} {config : Config} {memory : μ} {x : σ} {s₀ : System κ μ ρ}
  (hnew : ((new mode host config memory : Act ρ σ (Except Refusal (System κ μ ρ))) x).result = .ok (.ok s₀))
  (hbodies : ∀ code, Program.Tamed mask (body code) (body' code)) {moves : List (Move κ μ ρ)}
include hnew hbodies

/-- A system whose bodies return where those of another panic takes the same steps as that
one, throughout every run: all that differs is the number of panics it has counted, what is
left of its bodies, and the lines of its log that tell of panics. So whatever it is asked, it
gives the same answer, up to that number, and it closes with the same result. Where the end of
a panicked run does not signal a group once too often, its worker goes on with its loop on
the fiber it is on, its job is free again, its group is signaled once and its slot is given
back; where it does, a strict system loses the worker, as it would had the body returned. -/
theorem panics_stay_with_their_jobs (hplay : play body s₀ moves = s) (hplay' : play body' s₀ moves = s') :
    Twin mask s s' ∧ muted mask (journal body' s₀ moves) = muted mask (journal body s₀ moves) ∧
    (∀ c : Call κ μ ρ, Agree c.Alike (ask c s).result (ask c s').result) ∧
    (close s').result = (close s).result ∧ muted mask (close s').log = muted mask (close s).log ∧
    ∀ worker w fiber run fault, OnRun s worker w fiber run → run.rest = .panic fault →
      Along body (fun s _ => FewHandles s) s₀ (moves ++ [.work worker]) →
      (¬s.hub.OverSignals ((s.hub.jobs[run.job]?).bind (·.completion)) →
        Contained s worker w fiber run.job fault (step body worker s)) ∧
      (s.hub.OverSignals ((s.hub.jobs[run.job]?).bind (·.completion)) →
        (step body worker s).state.stageOf worker = some .dead ∧
          (step body' worker s').state.stageOf worker = some .dead) := by
  have h₀ := new_of_ok hnew
  obtain ⟨htwin, hlog⟩ := (h₀.twin mask).play hbodies moves
  rw [hplay, hplay'] at htwin
  have hclose := htwin.pairs close_respects
  refine ⟨htwin, hlog, fun c => (ask_pairs htwin c).result, ?_, hclose.log, ?_⟩
  · have hresult := hclose.result
    generalize (close s).result = r at hresult
    generalize (close s').result = r' at hresult
    cases r with
    | error fault => cases r' with
      | error fault' => exact congrArg _ hresult
      | ok a => exact hresult.elim
    | ok a => cases r' with
      | error fault' => exact hresult.elim
      | ok a' => exact congrArg _ hresult.symm
  · intro worker w fiber run fault hon hrest hfew
    have hplaced : Placed s (history body s₀ moves) := hplay ▸ h₀.placed_play hfew.left
    have hnow : FewHandles s := hplay ▸ hfew moves _ [] rfl
    have hover : run.rest.Over := by
      rw [hrest]
      exact .panic fault
    refine ⟨contained_of_panic body hplaced.sound hplaced.ledger hnow hon hrest, fun hmany => ?_⟩
    have hdead : (step body worker s).state.stageOf worker = some .dead :=
      (dead_of_run hplaced.sound hplaced.ledger hnow hon hover).mpr hmany
    have hworkers := congrArg System.workers (step_pairs hbodies htwin worker).state.same
    refine ⟨hdead, ?_⟩
    show ((step body' worker s').state.workers[worker]?).map (·.stage) = _
    rw [hworkers]
    exact hdead

end

def rashBody : Bool → Program Bool Unit Unit Unit
  | true => .call (.takeGroup 0) fun _ => .wait 0 (.panic (.raised "boom"))
  | false => .done ()

theorem rashBody_tamed (code : Bool) : Program.Tamed id (rashBody code) (smallBody code) := by
  cases code with
  | true => exact .call fun _ _ _ => .wait 0 (.tamed _)
  | false => exact .done

def resuming : List (Move Bool Unit Unit) :=
  parking ++ [.work 1, .work 1, .work 1, .work 1, .work 1]

theorem resumed_panic_is_contained :
    let s := play rashBody small resuming
    Twin id s (play smallBody small resuming) ∧ ∃ w run, OnRun s 1 w 0 run ∧
      run.rest = .panic (.raised "boom") ∧
      Contained s 1 w 0 run.job (.raised "boom") (step rashBody 1 s) := by
  have hplay : play rashBody small resuming = play rashBody small resuming := rfl
  obtain ⟨htwin, -, -, -, -, hpanics⟩ := panics_stay_with_their_jobs new_small rashBody_tamed hplay rfl
  have hon : OnRun (play rashBody small resuming) 1 ⟨.running, some 0, none, false, .normal, .any, none⟩ 0
      ⟨0, [0], .panic (.raised "boom")⟩ :=
    ⟨by decide +kernel, by decide +kernel, rfl, rfl, rfl⟩
  have hfew : Along rashBody (fun s _ => FewHandles s) small (resuming ++ [.work 1]) := by decide +kernel
  obtain ⟨hcontained, -⟩ := hpanics 1 _ 0 _ _ hon rfl hfew
  refine ⟨htwin, _, _, hon, rfl, hcontained ?_⟩
  rintro ⟨-, g, s, hg, -⟩
  have hnone : (((play rashBody small resuming).hub.jobs[0]?).bind (·.completion)) = none := by decide +kernel
  cases hnone.symm.trans hg

/-- A body that signals the group its own end is to signal, and panics. -/
def recklessBody (_ : Bool) : Program Bool Unit Unit Unit :=
  .call (.add 0 (-1)) fun _ => .panic (.raised "boom")

/-- The panic of such a body costs its worker. -/
theorem stray_panic_kills_worker :
    let s := play recklessBody small (straying.take 5)
    s.run? 0 = some ⟨0, [], .panic (.raised "boom")⟩ ∧ s.stageOf 0 = some .running ∧
      (step recklessBody 0 s).state.stageOf 0 = some .dead ∧
        (step recklessBody 0 s).state.hub.active = s.hub.active :=
  ⟨rfl, by decide +kernel, by decide +kernel, by decide +kernel⟩

end System

end FiberScheduler
