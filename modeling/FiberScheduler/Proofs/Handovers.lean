import FiberScheduler.Proofs.Courses
import FiberScheduler.Proofs.Tenancy

/-!
# Jobs that are passed on

A worker on a normal stack that fetches a job for an extended one passes it on: it goes on
with an extended fiber, and leaves the job in its slot. The job is in no queue then. The
first round of the loop of that fiber takes it out of the slot again and begins the run,
and from there on the run never changes its fiber.
-/

namespace FiberScheduler.System

variable {κ μ ρ σ : Type} {body : κ → Program κ μ ρ Unit} {s s' : System κ μ ρ} {worker i x job : Nat}
  {w w' : Worker} {ds : List (Deed κ μ ρ)}

def Runs (s : System κ μ ρ) (x job : Nat) : Prop :=
  ∃ run, s.run? x = some run ∧ run.job = job

structure Stacked (s : System κ μ ρ) : Prop where
  carried : ∀ x job, s.Carries x job → s.hub.needsExtended job = true → s.pool.InTier true x
  passed : ∀ (i : Nat) (w : Worker) job, s.workers[i]? = some w → w.handoff = some job →
    s.hub.needsExtended job = true

/-- What it is to pass a job on: the worker has fetched it on a normal stack, and goes on
with a fiber that was free, under the terms of the job. -/
structure PassesOn (s s' : System κ μ ρ) (i : Nat) (w w' : Worker) (job : Nat) : Prop where
  empty : w.handoff = none
  filled : w'.handoff = some job
  needs : s.hub.needsExtended job = true
  fetched : s.hub.lanes.take (s.hub.crew.sources i) = some (.job job w'.priority w'.affinity, s'.hub.lanes)
  here : ∃ fiber, OnLoop s i w fiber ∧ s.pool.isExtended fiber = false
  rented : ∃ next, w'.current = some next ∧ s.pool.InTier true next ∧ s.pool.isFree next = true

structure Awaits (s : System κ μ ρ) (i : Nat) (w : Worker) (x job : Nat) : Prop where
  here : s.workers[i]? = some w
  slot : w.handoff = some job
  stage : w.stage = .running
  current : w.current = some x
  needs : s.hub.needsExtended job = true
  stack : s.pool.InTier true x
  bare : s.run? x = none
  once : s.pending.count job = 1

/-- What it is to take a job out of the slot: it begins, under the terms that the worker
has, and nothing is fetched. -/
structure TakesUp (s s' : System κ μ ρ) (i : Nat) (w : Worker) (x job : Nat) : Prop where
  worker : s'.workers[i]? = some { w with handoff := none }
  runs : s'.Runs x job
  lanes : s'.hub.lanes = s.hub.lanes

theorem Runs.carries (hr : s.Runs x job) : s.Carries x job :=
  Or.inl hr

/-! ## One step -/

section
variable (h : s.Sound)
include h

theorem Sound.inTier_of_current (hw : s.workers[i]? = some w) (hcur : w.current = some x)
    (hext : s.pool.isExtended x = true) :
    s.pool.InTier true x := by
  have hplace := h.of_current hw hcur
  have hlt := h.inside x (by unfold places; omega)
  have hsize := h.pool.size
  simp only [FiberPool.isExtended, decide_eq_true_eq] at hext
  simp only [FiberPool.InTier, if_true]
  omega

/-- A slot that is filled after a step was so before, or the step passed the job on. -/
theorem Turn.filled (ht : Turn body s worker s' ds) (hw : s.workers[i]? = some w)
    (hw' : s'.workers[i]? = some w') (hhand : w'.handoff = some job) :
      w' = w ∨ worker = i ∧ PassesOn s s' i w w' job := by
  have hempty : ∀ {v new : Worker}, s.workers[worker]? = some v →
    s'.workers = s.workers.setIfInBounds worker new →
      new.handoff = none → w' = w := by
    intro v new hv hworkers hnew
    rw [hworkers, getElem?_set _ hv] at hw'
    by_cases hi : worker = i
    · rw [if_pos hi] at hw'
      obtain rfl := Option.some.inj hw'
      cases hnew.symm.trans hhand
    · rw [if_neg hi] at hw'
      exact Option.some.inj (hw'.symm.trans hw)
  cases ht with
  | rest | exhausted | ended => exact Or.inl (Option.some.inj (hw'.symm.trans hw))
  | started hv hstage =>
    have hno := h.handoff_eq_none hv (by rw [hstage]; decide)
    exact Or.inl (hempty hv rfl hno)
  | went hon hjob hcalled =>
    rw [putRun, hcalled.rest] at hw'
    exact Or.inl (Option.some.inj (hw'.symm.trans hw))
  | parked hon | died hon =>
    have hno := h.no_handoff hon
    exact Or.inl (hempty hon.here rfl hno)
  | began hon hrec hway =>
    refine Or.inl (hempty hon.here rfl ?_)
    rcases hway with ⟨-, rfl, -⟩ | ⟨p, a, hno, -, rfl, -⟩
    · rfl
    · exact hno
  | @passed v fiber next j p a lanes slot old hon hno htake hneeds hnormal htier hx hfree =>
    have hset : (s.workers.setIfInBounds worker _)[i]? = some w' := hw'
    rw [getElem?_set _ hon.here] at hset
    by_cases hi : worker = i
    · subst hi
      rw [if_pos rfl] at hset
      obtain rfl := Option.some.inj hset
      obtain rfl := Option.some.inj hhand
      obtain rfl := Option.some.inj (hw.symm.trans hon.here)
      refine Or.inr ⟨rfl, hno, rfl, hneeds, htake, ⟨fiber, hon, hnormal⟩, next, rfl, htier, ?_⟩
      rw [FiberPool.isFree_of_slot hx]
      exact hfree
    · rw [if_neg hi] at hset
      exact Or.inl (Option.some.inj (hset.symm.trans hw))
  | returned hon hno | resumed hon hno | left hon hno => exact Or.inl (hempty hon.here rfl hno)

theorem Turn.slot_before (ht : Turn body s worker s' ds) (hw' : s'.workers[i]? = some w')
    (hhand : w'.handoff = some job) :
    s.workers[i]? = some w' ∨ worker = i ∧ ∃ w, s.workers[i]? = some w ∧ PassesOn s s' i w w' job := by
  have hlt : i < s.workers.size := by
    rw [← (ht.sameShape h).workers]
    exact (Array.getElem?_eq_some_iff.mp hw').1
  have hw := Array.getElem?_eq_getElem hlt
  rcases ht.filled h hw hw' hhand with he | ⟨hi, hpass⟩
  · left
    rw [he]
    exact hw
  · exact Or.inr ⟨hi, _, hw, hpass⟩

/-- A run that is there after a step was there before, or the worker began it, with a job
from its slot or one that may run where it is. -/
theorem Turn.run_before (ht : Turn body s worker s' ds) (hr : s'.Runs x job) :
    s.Runs x job ∨ ∃ w, OnLoop s worker w x ∧ ds = [.began job] ∧ (w.handoff = some job ∨
      ∃ p a lanes, s.hub.lanes.take (s.hub.crew.sources worker) = some (.job job p a, lanes) ∧
        (s.hub.needsExtended job = true → s.pool.isExtended x = true)) := by
  obtain ⟨run, hrun, rfl⟩ := hr
  have hset :
      ∀ {w : Worker} {fiber : Nat} {old : Run κ μ ρ} {new : Option (Run κ μ ρ)}, OnRun s worker w fiber old →
        s'.runs = s.runs.setIfInBounds fiber new → (∀ r, new = some r → r.job = old.job) →
          s.Runs x run.job := by
    intro w fiber old new hon hruns hnew
    rw [run?_of_set hruns (lt_runs_of_run? hon.run)] at hrun
    by_cases hx : fiber = x
    · rw [if_pos hx] at hrun
      exact ⟨old, hx ▸ hon.run, (hnew run hrun).symm⟩
    · rw [if_neg hx] at hrun
      exact ⟨run, hrun, rfl⟩
  cases ht with
  | rest | exhausted | started | parked | passed | returned | resumed | left => exact Or.inl ⟨run, hrun, rfl⟩
  | @went w fiber old new s₁ queued action hon hjob hcalled =>
    obtain ⟨hub, kept, memory, rfl⟩ : ∃ hub kept memory, s₁ = { s with hub, kept, memory } :=
      ⟨_, _, _, hcalled.rest⟩
    refine Or.inl (hset hon rfl ?_)
    intro r hr
    rw [← Option.some.inj hr]
    exact hjob
  | ended hon | died hon => exact Or.inl (hset hon rfl fun _ hr => by cases hr)
  | @began w w' fiber j record lanes hon hrec hway =>
    rw [run?_of_set rfl (lt_runs h hon)] at hrun
    by_cases hx : fiber = x
    · rw [if_pos hx] at hrun
      obtain rfl := Option.some.inj hrun
      subst hx
      refine Or.inr ⟨w, hon, rfl, ?_⟩
      rcases hway with ⟨hhand, -, -⟩ | ⟨p, a, -, htake, -, hext⟩
      · exact Or.inl hhand
      · refine Or.inr ⟨p, a, lanes, htake, ?_⟩
        intro hneeds
        apply hext
        simpa [Hub.needsExtended, hrec] using hneeds
    · rw [if_neg hx] at hrun
      exact Or.inl ⟨run, hrun, rfl⟩

theorem Turn.carried (ht : Turn body s worker s' ds) (hc : s'.Carries x job) :
    s.Carries x job ∨ ∃ p a lanes, s.hub.lanes.take (s.hub.crew.sources worker) = some (.job job p a, lanes) ∧
      (s.hub.needsExtended job = true → s.pool.InTier true x) := by
  rcases hc with hr | ⟨i, w', hw', hcur, hhand⟩
  · rcases ht.run_before h hr with hold | ⟨w, hon, -, hhand | ⟨p, a, lanes, htake, hext⟩⟩
    · exact Or.inl hold.carries
    · exact Or.inl (Or.inr ⟨worker, w, hon.here, hon.current, hhand⟩)
    · refine Or.inr ⟨p, a, lanes, htake, ?_⟩
      intro hneeds
      exact h.inTier_of_current hon.here hon.current (hext hneeds)
  · rcases ht.slot_before h hw' hhand with hw | ⟨rfl, w, -, hpass⟩
    · exact Or.inl (Or.inr ⟨i, w', hw, hcur, hhand⟩)
    · obtain ⟨next, hnext, htier, -⟩ := hpass.rented
      obtain rfl := Option.some.inj (hnext.symm.trans hcur)
      exact Or.inr ⟨_, _, _, hpass.fetched, fun _ => htier⟩

theorem Turn.stays (ht : Turn body s worker s' ds) (hr : s.Runs x job) :
    s'.Runs x job ∨ s.Finishes (.work worker) x job := by
  rcases ht.carries h hr.carries with (hr' | ⟨i, w', hw', hcur, hhand⟩) | hfinishes
  · exact Or.inl hr'
  · -- a fiber with a run on its stack has nothing passed on to it
    exfalso
    obtain ⟨run, hrun, -⟩ := hr
    rcases ht.slot_before h hw' hhand with hw | ⟨rfl, w, -, hpass⟩
    · have hbare := ((h.worker i w' hw).handoff (by rw [hhand]; rfl)).2 x hcur
      cases hbare.symm.trans hrun
    · obtain ⟨next, hnext, -, hfree⟩ := hpass.rented
      obtain rfl := Option.some.inj (hnext.symm.trans hcur)
      cases (h.unused next hfree).symm.trans hrun
  · exact Or.inr hfinishes

theorem Turn.stacked (ht : Turn body s worker s' ds) (hs : s.Stacked) : s'.Stacked := by
  have hpool := (ht.sameShape h).pool
  have hqueued : ∀ {j : Nat} {p : Priority} {a : Affinity} {lanes : Lanes},
      s.hub.lanes.take (s.hub.crew.sources worker) = some (.job j p a, lanes) → j ∈ s.pending := by
    intro j p a lanes htake
    have hperm := (Lanes.take_job htake).1
    exact List.mem_append_left _ (List.mem_append_left _ (hperm.mem_iff.mpr List.mem_cons_self))
  refine ⟨?_, ?_⟩
  · intro x job hc hneeds
    have htier : s.pool.InTier true x := by
      rcases ht.carried h hc with hold | ⟨p, a, lanes, htake, hfetched⟩
      · apply hs.carried x job hold
        rwa [ht.needsExtended h (mem_pending_of_carries hold)] at hneeds
      · apply hfetched
        rwa [ht.needsExtended h (hqueued htake)] at hneeds
    simpa only [FiberPool.InTier, hpool.normal, hpool.extended] using htier
  · intro i w' job hw' hhand
    rcases ht.slot_before h hw' hhand with hw | ⟨rfl, w, hw, hpass⟩
    · rw [ht.needsExtended h (mem_pending_of_hand hw (Or.inl hhand))]
      exact hs.passed i w' job hw hhand
    · rw [ht.needsExtended h (hqueued hpass.fetched)]
      exact hpass.needs

omit h in
theorem Turn.bystander (ht : Turn body s worker s' ds) (hi : worker ≠ i) :
    s'.workers[i]? = s.workers[i]? := by
  have hset : ∀ {v new : Worker}, s.workers[worker]? = some v →
      (s.workers.setIfInBounds worker new)[i]? = s.workers[i]? := by
    intro v new hv
    rw [getElem?_set _ hv, if_neg hi]
  cases ht with
  | rest | exhausted | ended => rfl
  | started hv => exact hset hv
  | went hon hjob hcalled => rw [putRun, hcalled.rest]
  | parked hon | died hon | began hon | passed hon | returned hon | resumed hon | left hon =>
    exact hset hon.here

/-- The first round of the loop of the fiber that a job was passed on to takes it up. -/
theorem Turn.takes_up (ht : Turn body s i s' ds) (ha : Awaits s i w x job) (halive : s.aborted = false) :
    TakesUp s s' i w x job ∧ ds = [.began job] := by
  have hloop : OnLoop s i w x := ⟨halive, ha.here, ha.stage, ha.current, ha.bare⟩
  have hfull : ∀ {v : Worker} {fiber : Nat}, OnLoop s i v fiber → v.handoff ≠ none := by
    intro v fiber hon hno
    obtain rfl := Option.some.inj (hon.here.symm.trans ha.here)
    cases hno.symm.trans ha.slot
  cases ht with
  | rest _ hidle => exact absurd (hidle w x hloop).1 (hfull hloop)
  | exhausted _ _ _ hno => exact absurd hloop (hno w x)
  | started hw hstage =>
    obtain rfl := Option.some.inj (hw.symm.trans ha.here)
    cases hstage.symm.trans ha.stage
  | went hon | parked hon | ended hon | died hon => exact absurd hon hloop.not_onRun
  | passed hon hno | returned hon hno | resumed hon hno | left hon hno => exact absurd hno (hfull hon)
  | @began v w' fiber j record lanes hon hrec hway =>
    obtain rfl := Option.some.inj (hon.here.symm.trans ha.here)
    obtain rfl := Option.some.inj (hon.current.symm.trans ha.current)
    rcases hway with ⟨hhand, rfl, rfl⟩ | ⟨p, a, hno, -⟩
    · obtain rfl := Option.some.inj (hhand.symm.trans ha.slot)
      refine ⟨⟨?_, ?_, rfl⟩, rfl⟩
      · exact (getElem?_set _ hon.here i).trans (if_pos rfl)
      · exact ⟨_, (run?_of_set rfl (lt_runs h hon) fiber).trans (if_pos rfl), rfl⟩
    · exact absurd hno (hfull hon)

omit h in
theorem Turn.actor {action : Action κ μ ρ} (ht : Turn body s worker s' ds) (hd : .acted job action ∈ ds) :
    ∃ w x run, OnRun s worker w x run ∧ run.job = job := by
  cases ht with
  | @went w fiber run run' s₁ queued action' hon =>
    rcases List.mem_append.mp hd with hin | hin
    · cases queued <;> simp [acceptances] at hin
    · cases List.mem_singleton.mp hin
      exact ⟨w, fiber, run, hon, rfl⟩
  | rest | exhausted | started | parked | ended | died | began | passed | returned | resumed | left =>
    simp at hd

theorem Turn.beginner (ht : Turn body s worker s' ds) (hs : s.Stacked) (hd : .began job ∈ ds) :
    ∃ w x, OnLoop s worker w x ∧ s'.Runs x job ∧ (s.hub.needsExtended job = true → s.pool.InTier true x) := by
  have hbegun : ∃ w x, OnLoop s worker w x ∧ s'.Runs x job := by
    cases ht with
    | @began w w' fiber j record lanes hon hrec hway =>
      cases List.mem_singleton.mp hd
      exact ⟨w, fiber, hon, _, (run?_of_set rfl (lt_runs h hon) fiber).trans (if_pos rfl), rfl⟩
    | @went w fiber run run' s₁ queued =>
      rcases List.mem_append.mp hd with hin | hin
      · cases queued <;> simp [acceptances] at hin
      · simp at hin
    | rest | exhausted | started | parked | ended | died | passed | returned | resumed | left => simp at hd
  obtain ⟨w, x, hon, hr⟩ := hbegun
  refine ⟨w, x, hon, hr, ?_⟩
  rcases ht.carried h hr.carries with hold | ⟨p, a, lanes, -, hfetched⟩
  · exact hs.carried x job hold
  · exact hfetched

end

/-! ## Moves -/

section
variable {m : Move κ μ ρ} (h : s.Sound)
include h

theorem work_or_outside (body : κ → Program κ μ ρ Unit) (m : Move κ μ ρ) : (∃ i, m = .work i) ∨
    (move body s m).workers = s.workers ∧ (move body s m).runs = s.runs ∧ (move body s m).pool = s.pool ∧
      ∃ queued, deeds s (move body s m) m = acceptances queued := by
  rcases called_move body h m with hwork | rfl | ⟨queued, hcalled, hds⟩
  · exact Or.inl hwork
  · exact Or.inr ⟨rfl, rfl, rfl, none, rfl⟩
  · right
    rw [hcalled.rest] at hds ⊢
    exact ⟨rfl, rfl, rfl, queued, hds⟩

theorem bystander_move (body : κ → Program κ μ ρ Unit) (hm : m ≠ .work i) :
    (move body s m).workers[i]? = s.workers[i]? := by
  rcases work_or_outside h body m with ⟨j, rfl⟩ | ⟨hworkers, -⟩
  · apply (turn_of_sound h body j).bystander
    rintro rfl
    exact hm rfl
  · rw [hworkers]

theorem stacked_move (body : κ → Program κ μ ρ Unit) (m : Move κ μ ρ) (hs : s.Stacked) :
    (move body s m).Stacked := by
  rcases work_or_outside h body m with ⟨j, rfl⟩ | ⟨hworkers, hruns, hpool, -⟩
  · exact (turn_of_sound h body j).stacked h hs
  · refine ⟨?_, ?_⟩
    · intro x job hc hneeds
      have hc : s.Carries x job := by
        simpa only [Carries, run?, hworkers, hruns] using hc
      rw [needsExtended_move h m (mem_pending_of_carries hc)] at hneeds
      rw [hpool]
      exact hs.carried x job hc hneeds
    · intro i w job hw hhand
      rw [hworkers] at hw
      rw [needsExtended_move h m (mem_pending_of_hand hw (Or.inl hhand))]
      exact hs.passed i w job hw hhand

theorem stays_move (body : κ → Program κ μ ρ Unit) (m : Move κ μ ρ) (hr : s.Runs x job)
    (hno : ¬s.Finishes m x job) : (move body s m).Runs x job := by
  rcases work_or_outside h body m with ⟨j, rfl⟩ | ⟨-, hruns, -⟩
  · rcases (turn_of_sound h body j).stays h hr with hr' | hfinishes
    · exact hr'
    · exact absurd hfinishes hno
  · simpa only [Runs, run?, hruns] using hr

theorem actor_move {action : Action κ μ ρ} (hd : .acted job action ∈ deeds s (move body s m) m) :
    ∃ i w x run, m = .work i ∧ OnRun s i w x run ∧ run.job = job := by
  rcases work_or_outside h body m with ⟨j, rfl⟩ | ⟨-, -, -, queued, hds⟩
  · obtain ⟨w, x, run, hon, hjob⟩ := (turn_of_sound h body j).actor hd
    exact ⟨j, w, x, run, rfl, hon, hjob⟩
  · rw [hds] at hd
    cases queued <;> simp [acceptances] at hd

theorem beginner_move (hs : s.Stacked) (hd : .began job ∈ deeds s (move body s m) m) :
    ∃ i w x, m = .work i ∧ OnLoop s i w x ∧
    (move body s m).Runs x job ∧ (s.hub.needsExtended job = true → s.pool.InTier true x) := by
  rcases work_or_outside h body m with ⟨j, rfl⟩ | ⟨-, -, -, queued, hds⟩
  · obtain ⟨w, x, hbegun⟩ := (turn_of_sound h body j).beginner h hs hd
    exact ⟨j, w, x, rfl, hbegun⟩
  · rw [hds] at hd
    cases queued <;> simp [acceptances] at hd

theorem filled_move (hw : s.workers[i]? = some w) (hw' : (move body s m).workers[i]? = some w')
    (hhand : w'.handoff = some job) :
    w' = w ∨ m = .work i ∧ PassesOn s (move body s m) i w w' job := by
  by_cases hm : m = .work i
  · subst hm
    rcases (turn_of_sound h body i).filled h hw hw' hhand with he | ⟨-, hpass⟩
    · exact Or.inl he
    · exact Or.inr ⟨rfl, hpass⟩
  · rw [bystander_move h body hm] at hw'
    exact Or.inl (Option.some.inj (hw'.symm.trans hw))

theorem Sound.runs_once {y : Nat} (hr : s.Runs x job) (hr' : s.Runs y job) : y = x := by
  obtain ⟨run, hrun, rfl⟩ := hr
  obtain ⟨run', hrun', hjob⟩ := hr'
  exact (h.run_unique hrun hrun' hjob).1

theorem Sound.awaits (hs : s.Stacked) (hw : s.workers[i]? = some w) (hhand : w.handoff = some job) :
    ∃ x, Awaits s i w x job := by
  have hfits := h.worker i w hw
  obtain ⟨hstage, hbare⟩ := hfits.handoff (by rw [hhand]; rfl)
  obtain ⟨x, hcur⟩ := Option.isSome_iff_exists.mp (hfits.at_work hstage)
  have hneeds := hs.passed i w job hw hhand
  have hpos := List.count_pos_iff.mpr (mem_pending_of_hand hw (Or.inl hhand))
  have hle := h.pending_once job
  have hcarries : s.Carries x job := Or.inr ⟨i, w, hw, hcur, hhand⟩
  exact ⟨x, hw, hhand, hstage, hcur, hneeds, hs.carried x job hcarries hneeds, hbare x hcur, by omega⟩

end

/-! ## Whole runs -/

theorem New.stacked (h : New s) : s.Stacked := by
  have hslot : ∀ {i : Nat} {w : Worker} {job : Nat}, s.workers[i]? = some w → w.handoff ≠ some job := by
    intro i w job hw hhand
    rw [h.worker hw] at hhand
    cases hhand
  refine ⟨?_, ?_⟩
  · rintro x job (⟨run, hrun, -⟩ | ⟨i, w, hw, -, hhand⟩)
    · rw [h.run? x] at hrun
      cases hrun
    · exact absurd hhand (hslot hw)
  · intro i w job hw hhand
    exact absurd hhand (hslot hw)

theorem stacked_play (h : s.Sound) (hs : s.Stacked) (moves : List (Move κ μ ρ)) :
    (play body s moves).Stacked := by
  induction moves generalizing s with
  | nil => exact hs
  | cons m moves ih => exact ih (sound_move body h m) (stacked_move h body m hs)

theorem stays_play {moves : List (Move κ μ ρ)} (h : s.Sound) (hr : s.Runs x job)
    (hno : Along body (fun t m => ¬t.Finishes m x job) s moves) : (play body s moves).Runs x job := by
  induction moves generalizing s with
  | nil => exact hr
  | cons m moves ih => exact ih (sound_move body h m) (stays_move h body m hr hno.now) hno.next

theorem bystander_play {moves : List (Move κ μ ρ)} (h : s.Sound) (hno : .work i ∉ moves) :
    (play body s moves).workers[i]? = s.workers[i]? := by
  induction moves generalizing s with
  | nil => rfl
  | cons m moves ih =>
    have hne : m ≠ .work i := fun he => hno (he ▸ List.mem_cons_self)
    calc (play body s (m :: moves)).workers[i]?
        = (play body (move body s m) moves).workers[i]? := rfl
      _ = (move body s m).workers[i]? := ih (sound_move body h m) fun hin => hno (List.mem_cons_of_mem m hin)
      _ = s.workers[i]? := bystander_move h body hne

section
variable {mode : Mode} {host : Host} {config : Config} {memory : μ} {y : σ} {s₀ : System κ μ ρ}
  {moves : List (Move κ μ ρ)} (hnew :
    ((new mode host config memory : Act ρ σ (Except Refusal (System κ μ ρ))) y).result = .ok (.ok s₀))
  (hplay : s = play body s₀ moves)
include hnew hplay

/-- A job that needs an extended stack begins on a fiber that has one, and acts nowhere else
until it ends. A slot is only filled while it is empty. A job in a slot is in no queue, no
other worker changes that, and the next step of its worker begins it with the terms it was
fetched with, before anything else is fetched. -/
theorem extended_jobs_keep_to_extended_stacks :
    s.Stacked ∧
    (∀ m job, .began job ∈ deeds s (move body s m) m → ∃ i w x, m = .work i ∧ OnLoop s i w x ∧
      (move body s m).Runs x job ∧ (s.hub.needsExtended job = true → s.pool.InTier true x)) ∧
    (∀ x job after, s.Runs x job → Along body (fun t m => ¬t.Finishes m x job) s after →
      let t := play body s after
      t.Runs x job ∧ (∀ y, t.Runs y job → y = x) ∧ ∀ m action, .acted job action ∈ deeds t (move body t m) m →
        ∃ i w run, m = .work i ∧ OnRun t i w x run ∧ run.job = job) ∧
    (∀ m i w w' job, s.workers[i]? = some w → (move body s m).workers[i]? = some w' → w'.handoff = some job →
      w' = w ∨ m = .work i ∧ PassesOn s (move body s m) i w w' job) ∧
    ∀ i w job, s.workers[i]? = some w → w.handoff = some job → ∃ x, Awaits s i w x job ∧
      ∀ after, .work i ∉ after →
      let t := play body s after
      Awaits t i w x job ∧ (t.aborted = false →
        TakesUp t (move body t (.work i)) i w x job ∧
          deeds t (move body t (.work i)) (.work i) = [.began job]) := by
  have h₀ := new_of_ok hnew
  have hsound : s.Sound := hplay ▸ sound_play body h₀.sound moves
  have hstacked : s.Stacked := hplay ▸ stacked_play h₀.sound h₀.stacked moves
  refine ⟨hstacked, fun m job => beginner_move hsound hstacked, ?_,
    fun m i w w' job => filled_move hsound, ?_⟩
  · intro x job after hr hno
    have ht := sound_play body hsound after
    have hr' := stays_play hsound hr hno
    refine ⟨hr', fun y => ht.runs_once hr', ?_⟩
    intro m action hd
    obtain ⟨i, w, y, run, hm, hon, hjob⟩ := actor_move ht hd
    -- The job has one run, so whoever acts for it does so on this fiber.
    obtain rfl := ht.runs_once hr' ⟨run, hon.run, hjob⟩
    exact ⟨i, w, run, hm, hon, hjob⟩
  · intro i w job hw hhand
    obtain ⟨x, ha⟩ := hsound.awaits hstacked hw hhand
    refine ⟨x, ha, ?_⟩
    intro after hno t
    have ht : t.Sound := sound_play body hsound after
    have hw' : t.workers[i]? = some w := (bystander_play hsound hno).trans hw
    obtain ⟨x', ha'⟩ := ht.awaits (stacked_play hsound hstacked after) hw' hhand
    obtain rfl := Option.some.inj (ha'.current.symm.trans ha.current)
    refine ⟨ha', ?_⟩
    intro halive
    exact (turn_of_sound ht body i).takes_up ht ha' halive

end

def passing : List (Move Bool Unit Unit) :=
  contending.take 5

theorem passed_job_begins_on_extended_fiber :
    let s := play smallBody narrow passing
    Awaits s 0 ⟨.running, some 3, none, false, .normal, .worker 0, some 0⟩ 3 0 ∧
    (move smallBody (play smallBody s [.work 1, .stop]) (.work 0)).Runs 3 0 := by
  intro s
  have hplay : s = play smallBody narrow passing := rfl
  obtain ⟨-, -, -, -, hslots⟩ := extended_jobs_keep_to_extended_stacks new_narrow hplay
  obtain ⟨x, hawaits, hlater⟩ := hslots 0 ⟨.running, some 3, none, false, .normal, .worker 0, some 0⟩ 0
    (by decide +kernel) rfl
  obtain rfl : 3 = x := Option.some.inj hawaits.current
  obtain ⟨-, hnext⟩ := hlater [.work 1, .stop] (by simp)
  exact ⟨hawaits, (hnext (by decide +kernel)).1.runs⟩

end FiberScheduler.System
