import FiberScheduler.Proofs.Steps

/-!
# Agreeing bodies

Runs with different bodies are the same as long as the bodies do the same for every job there is.
-/

namespace FiberScheduler.System

open Act

variable {κ μ ρ : Type} {body body' : κ → Program κ μ ρ Unit} {s : System κ μ ρ}

def SameBodies (body body' : κ → Program κ μ ρ Unit) (s : System κ μ ρ) : Prop :=
  ∀ (job : Nat) (record : Job κ), s.hub.jobs[job]? = some record → body record.code = body' record.code

theorem beginRun_congr (h : SameBodies body body' s) (fiber job : Nat) :
    beginRun body fiber job s = beginRun body' fiber job s := by
  have hstart : ∃ code? t, (onHub (Hub.startBody job) : Act ρ (System κ μ ρ) (Option κ)).Gives s code? t ∧
      ∀ code ∈ code?, body code = body' code := by
    cases hrec : s.hub.jobs[job]? with
    | none =>
      have hnone : (Hub.startBody job : Act ρ (Hub κ) (Option κ)).Gives s.hub none
          (Hub.startBody job s.hub : Outcome ρ (Hub κ) (Option κ)).state := by
        refine ⟨?_, rfl⟩
        show (.ok ((s.hub.jobs[job]?).bind _) : Except Fault (Option κ)) = _
        rw [hrec]
        rfl
      exact ⟨none, _, gives_onHub hnone, fun code he => by cases he⟩
    | some record =>
      refine ⟨_, _, gives_onHub (Hub.gives_startBody hrec), fun code he => ?_⟩
      split at he <;> cases he
      exact h job record hrec
  obtain ⟨_ | code, t, hstart, hagree⟩ := hstart
  · exact hstart.bind_congr rfl
  · refine hstart.bind_congr ?_
    show setRun fiber (some ⟨job, [], body code⟩) t = setRun fiber (some ⟨job, [], body' code⟩) t
    rw [hagree code rfl]

theorem dispatch_congr (h : SameBodies body body' s) (worker fiber job : Nat) (p : Priority) (a : Affinity) :
    dispatch body worker fiber job p a s = dispatch body' worker fiber job p a s := by
  refine Gives.bind_congr (a := ()) ⟨rfl, rfl⟩ ?_
  generalize ht : (modifyWorker worker _ s).state = t
  have h : SameBodies body body' t := ht ▸ h
  refine Gives.bind_congr (a := t) (t := t) ⟨rfl, rfl⟩ ?_
  cases !t.hub.needsExtended job || t.pool.isExtended fiber
  · rfl
  · exact beginRun_congr h fiber job

theorem schedule_congr (h : SameBodies body body' s) (worker fiber : Nat) (w : Worker) :
    schedule body worker fiber w s = schedule body' worker fiber w s := by
  -- Whatever does not begin a run is the same act for both.
  unfold schedule
  cases w.handoff with
  | some job =>
    refine Gives.bind_congr (a := ()) ⟨rfl, rfl⟩ ?_
    generalize ht : (modifyWorker worker _ s).state = t
    have h : SameBodies body body' t := ht ▸ h
    exact beginRun_congr h fiber job
  | none =>
    refine Gives.bind_congr (a := s) (t := s) ⟨rfl, rfl⟩ ?_
    rcases s.hub.lanes.take (s.hub.crew.sources worker) with _ | ⟨ready | ⟨job, p, a⟩, lanes⟩
    · rfl
    · rfl
    · refine Gives.bind_congr (a := ()) (t := { s with hub := { s.hub with lanes } }) ⟨rfl, rfl⟩ ?_
      exact dispatch_congr (s := { s with hub := { s.hub with lanes } }) h worker fiber job p a

theorem tryStep_congr (h : SameBodies body body' s) (worker : Nat) :
    tryStep body worker s = tryStep body' worker s := by
  refine Gives.bind_congr (a := s) (t := s) ⟨rfl, rfl⟩ ?_
  cases s.workers[worker]? with
  | none => rfl
  | some w =>
    dsimp only
    cases w.stage with
    | running =>
      cases w.current with
      | none => rfl
      | some fiber =>
        dsimp only
        cases s.run? fiber with
        | none => exact schedule_congr h worker fiber w
        | some run => rfl
    | starting | left | dead => rfl

theorem step_congr (h : SameBodies body body' s) (worker : Nat) :
    step body worker s = step body' worker s := by
  have htry : (tryStep body worker).attempt s = (tryStep body' worker).attempt s := by
    unfold attempt
    rw [tryStep_congr h worker]
  refine Gives.bind_congr (a := s) (t := s) ⟨rfl, rfl⟩ ?_
  cases s.aborted
  · exact bind_congr_left htry
  · rfl

theorem move_congr (h : SameBodies body body' s) (m : Move κ μ ρ) : move body s m = move body' s m := by
  cases m with
  | work worker => exact congrArg Outcome.state (step_congr h worker)
  | call | record | stop => rfl

/-- A run depends on the bodies only as far as there are jobs with their codes. -/
theorem play_congr {moves : List (Move κ μ ρ)} (h : Along body (fun s _ => SameBodies body body' s) s moves) :
    play body s moves = play body' s moves := by
  induction moves generalizing s with
  | nil => rfl
  | cons m moves ih =>
    show play body (move body s m) moves = play body' (move body' s m) moves
    rw [← move_congr h.now]
    exact ih h.next

end FiberScheduler.System
