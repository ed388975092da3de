import FiberScheduler.Proofs.Keeping

/-!
# The calls of a run

Which call a move makes, if it makes one, and what comes of it. What the moves of a run
leave behind can be collected from that, for instance the jobs that were accepted.
-/

namespace FiberScheduler

def Run.after {κ μ ρ : Type} (run : Run κ μ ρ) (c : Call κ μ ρ) (next : c.Answer → Program κ μ ρ Unit) :
    Except Fault c.Answer → Run κ μ ρ
  | .ok answer => ⟨run.job, c.settle answer run.held, next answer⟩
  | .error fault => ⟨run.job, run.held, .panic fault⟩

theorem Run.after_job {κ μ ρ : Type} (run : Run κ μ ρ) (c : Call κ μ ρ) (next : c.Answer → Program κ μ ρ Unit)
    (r : Except Fault c.Answer) : (run.after c next r).job = run.job := by
  cases r <;> rfl

namespace System

open Act

variable {κ μ ρ α : Type} {body : κ → Program κ μ ρ Unit} {s s' : System κ μ ρ} {worker fiber : Nat}
  {w : Worker} {run : Run κ μ ρ} {m : Move κ μ ρ} {c : Call κ μ ρ} {r : Except Fault c.Answer}
  {next : c.Answer → Program κ μ ρ Unit}

/-! ## The call of a move -/

def activeRun? (s : System κ μ ρ) (worker : Nat) : Option (Run κ μ ρ) :=
  if s.aborted = false ∧ s.stageOf worker = some .running then s.runOn? worker else none

def callOn (s : System κ μ ρ) (worker : Nat) (run : Run κ μ ρ) :
    Option ((c : Call κ μ ρ) × Except Fault c.Answer) :=
  match run.rest with
  | .call c _ => some ⟨c, (perform (some worker) run.held c s).result⟩
  | _ => none

def callOf (s : System κ μ ρ) : Move κ μ ρ → Option ((c : Call κ μ ρ) × Except Fault c.Answer)
  | .work worker => (s.activeRun? worker).bind (s.callOn worker)
  | .call c => some ⟨c, (ask c s).result⟩
  | _ => none

theorem OnRun.activeRun? (hon : OnRun s worker w fiber run) : s.activeRun? worker = some run := by
  unfold System.activeRun? stageOf runOn?
  rw [hon.here, Option.map_some, hon.stage, if_pos ⟨hon.alive, rfl⟩, Option.bind_eq_bind, Option.bind_some,
    hon.current, Option.bind_eq_bind, Option.bind_some, hon.run]

theorem onRun_of_activeRun? (hrun : s.activeRun? worker = some run) :
    ∃ w fiber, OnRun s worker w fiber run := by
  unfold System.activeRun? at hrun
  split at hrun
  · rename_i hactive
    obtain ⟨w, hw, hstage⟩ := Option.map_eq_some_iff.mp hactive.2
    obtain ⟨w', hw', hrest⟩ := Option.bind_eq_some_iff.mp hrun
    obtain rfl := Option.some.inj (hw.symm.trans hw')
    obtain ⟨fiber, hcur, hrun⟩ := Option.bind_eq_some_iff.mp hrest
    exact ⟨w, fiber, hactive.1, hw, hstage, hcur, hrun⟩
  · cases hrun

theorem callOn_eq (worker : Nat) (hrest : run.rest = .call c next) :
    s.callOn worker run = some ⟨c, (perform (some worker) run.held c s).result⟩ := by
  obtain ⟨job, held, rest⟩ := run
  dsimp only at hrest
  subst hrest
  rfl

theorem callOf_work (hon : OnRun s worker w fiber run) (hrest : run.rest = .call c next) :
    s.callOf (.work worker) = some ⟨c, (perform (some worker) run.held c s).result⟩ := by
  rw [callOf, hon.activeRun?, Option.bind_some, callOn_eq worker hrest]

inductive Caller (s : System κ μ ρ) : Move κ μ ρ → Call κ μ ρ → Option Nat → List Nat → Prop
  | inside {worker fiber : Nat} {w : Worker} {run : Run κ μ ρ} {c : Call κ μ ρ}
      {next : c.Answer → Program κ μ ρ Unit} (hon : OnRun s worker w fiber run)
      (hrest : run.rest = .call c next) : Caller s (.work worker) c (some worker) run.held
  | outside (c : Call κ μ ρ) : Caller s (.call c) c none s.kept

/-! ## Moves that make a call -/

structure Asked (s s' : System κ μ ρ) (m : Move κ μ ρ) (c : Call κ μ ρ) (r : Except Fault c.Answer) :
    Prop where
  made : ∃ i held, Caller s m c i held ∧ (perform i held c).Ends s fun r' t => r' = r ∧ t.hub = s'.hub
  workers : s'.workers = s.workers
  pool : s'.pool = s.pool
  runs : s'.runs = s.runs ∨ ∃ i w fiber run run', OnRun s i w fiber run ∧ run'.job = run.job ∧
    s'.runs = s.runs.setIfInBounds fiber (some run')

theorem step_after (body : κ → Program κ μ ρ Unit) (hon : OnRun s worker w fiber run)
    (hrest : run.rest = .call c next) :
    (step body worker s).state = (perform (some worker) run.held c s).state.putRun fiber
      (some (run.after c next (perform (some worker) run.held c s).result)) := by
  have htry : (tryStep body worker).Ends s fun r t => r = .ok () ∧
    t = (perform (some worker) run.held c s).state.putRun fiber
      (some (run.after c next (perform (some worker) run.held c s).result)) := by
    simp only [tryStep, ends_bind, ends_get, after_ok, hon.here, hon.stage, hon.current, hon.run]
    obtain ⟨job, held, rest⟩ := run
    dsimp only at hrest
    subst hrest
    simp only [stepRun, ends_bind, ends_attempt]
    unfold Ends
    generalize perform (some worker) held c s = o
    obtain ⟨fault | answer, t, log⟩ := o <;> exact ⟨rfl, rfl⟩
  rw [step_state hon.alive, htry.1, finished]
  exact htry.2

theorem Called.unmoved {queued : Option (Nat × Option Nat)} (hc : Called s s' queued) :
    s'.workers = s.workers ∧ s'.pool = s.pool ∧ s'.runs = s.runs := by
  rw [hc.rest]
  exact ⟨rfl, rfl, rfl⟩

theorem asked_of_callOf (body : κ → Program κ μ ρ Unit) (h : s.Sound) (hcall : s.callOf m = some ⟨c, r⟩) :
    Asked s (move body s m) m c r := by
  cases m with
  | work worker =>
    obtain ⟨run, hrun, hcall⟩ := Option.bind_eq_some_iff.mp hcall
    obtain ⟨w, fiber, hon⟩ := onRun_of_activeRun? hrun
    cases hrest : run.rest with
    | call c' next =>
      rw [callOn_eq worker hrest] at hcall
      cases hcall
      have hstate := step_after body hon hrest
      have hjob := run.after_job c next (perform (some worker) run.held c s).result
      generalize run.after c next (perform (some worker) run.held c s).result = run' at hstate hjob
      obtain ⟨hworkers, hpool, hruns⟩ := Called.unmoved (perform_called h.fit (some worker) run.held c)
      have hmove : move body s (.work worker) = _ := hstate
      rw [hmove]
      exact ⟨⟨some worker, run.held, .inside hon hrest, rfl, rfl⟩, hworkers, hpool,
        Or.inr ⟨worker, w, fiber, run, run', hon, hjob, congrArg (·.setIfInBounds fiber (some run')) hruns⟩⟩
    | done | panic | wait =>
      unfold callOn at hcall
      rw [hrest] at hcall
      cases hcall
  | call c' =>
    cases hcall
    have hends : (ask c).Ends s fun r t => (perform none s.kept c).Ends s fun r' t' => r' = r ∧
        t'.hub = t.hub :=
      ask_of_perform (fun _ _ _ => id) ⟨rfl, rfl⟩
    obtain ⟨hworkers, hpool, hruns⟩ := Called.unmoved (ask_called h.fit c)
    exact ⟨⟨none, s.kept, .outside c, hends⟩, hworkers, hpool, Or.inl hruns⟩
  | record | stop => cases hcall

/-! ## Collecting along a run -/

def trail (body : κ → Program κ μ ρ Unit) (f : System κ μ ρ → Move κ μ ρ → List α) :
    System κ μ ρ → List (Move κ μ ρ) → List α
  | _, [] => []
  | s, m :: moves => f s m ++ trail body f (move body s m) moves

theorem trail_induction {f : System κ μ ρ → Move κ μ ρ → List α} {P : System κ μ ρ → Move κ μ ρ → Prop}
    {I : System κ μ ρ → List α → Prop} (hstep : ∀ s xs m, P s m → I s xs → I (move body s m) (xs ++ f s m)) :
    ∀ {moves : List (Move κ μ ρ)} {s : System κ μ ρ} {xs : List α}, Along body P s moves → I s xs →
      I (play body s moves) (xs ++ trail body f s moves)
  | [], s, xs, _, h => by rw [trail, List.append_nil]; exact h
  | m :: moves, s, xs, hP, h => by
    rw [trail, ← List.append_assoc]
    exact trail_induction hstep hP.next (hstep s xs m hP.now h)

end System

end FiberScheduler
