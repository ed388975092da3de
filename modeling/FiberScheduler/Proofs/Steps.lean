import FiberScheduler.Proofs.Turns

/-!
# Steps are turns

Every step of a worker of a sound system is one of the turns.
-/

namespace FiberScheduler.System

open Act

variable {κ μ ρ : Type} {body : κ → Program κ μ ρ Unit} {s t : System κ μ ρ} {worker fiber : Nat} {w : Worker}
  {run : Run κ μ ρ}

def finished (worker : Nat) (r : Except Fault Unit) (t : System κ μ ρ) : System κ μ ρ :=
  match r with
  | .ok () => t
  | .error _ => { t with workers := t.workers.modify worker fun w => { w with stage := .dead } }

theorem step_state (halive : s.aborted = false) :
    (step body worker s).state = finished worker (tryStep body worker s).result
      (tryStep body worker s).state := by
  have hends : (step body worker).Ends s fun _ t =>
      t = finished worker (tryStep body worker s).result (tryStep body worker s).state := by
    simp only [step, ends_bind, ends_get, after_ok, halive, Bool.not_false, if_true, ends_attempt]
    unfold Ends
    generalize tryStep body worker s = o
    rcases o with ⟨fault | _, t, log⟩ <;> rfl
  exact hends

def Turns (body : κ → Program κ μ ρ Unit) (s : System κ μ ρ) (worker : Nat) (r : Except Fault Unit)
    (t : System κ μ ρ) : Prop :=
  Turn body s worker (finished worker r t) (deeds s (finished worker r t) (.work worker))

theorem deeds_onRun (hon : OnRun s worker w fiber run) :
    deeds s t (.work worker) = deedsOfRun s t worker w fiber run := by
  obtain ⟨halive, hw, hstage, hcur, hrun⟩ := hon
  obtain ⟨stage, current, _, _, _, _, _⟩ := w
  dsimp only at hstage hcur
  subst hstage hcur
  simp [deeds, hw, halive, hrun]

theorem deeds_onLoop (hon : OnLoop s worker w fiber) :
    deeds s t (.work worker) = deedsOfLoop s t worker fiber := by
  obtain ⟨halive, hw, hstage, hcur, hrun⟩ := hon
  obtain ⟨stage, current, _, _, _, _, _⟩ := w
  dsimp only at hstage hcur
  subst hstage hcur
  simp [deeds, hw, halive, hrun]

theorem deeds_off (hw : s.workers[worker]? = some w) (hstage : w.stage ≠ .running) :
    deeds s t (.work worker) = [] := by
  obtain ⟨stage, current, _, _, _, _, _⟩ := w
  dsimp only at hstage
  cases stage <;> simp [deeds, hw] at hstage ⊢

theorem turns_of {ds : List (Deed κ μ ρ)} (ht : Turn body s worker t ds)
    (hds : deeds s t (.work worker) = ds) :
    Turns body s worker (.ok ()) t := by
  unfold Turns
  rw [finished, hds]
  exact ht

/-! ## Starting -/

theorem start_turns (hsound : s.Sound) (hw : s.workers[worker]? = some w) (hstage : w.stage = .starting) :
    (start worker : Act ρ (System κ μ ρ) Unit).Ends s (Turns body s worker) := by
  have hno : ∀ t, deeds s t (.work worker) = [] := fun t => deeds_off hw (by rw [hstage]; decide)
  refine (ends_bind _ _ _).mpr (ends_rentFiber hsound.pool
    (fun fiber slot htier hx hfree seed => ?_) fun hall seed => ?_)
  · rw [after_ok]
    refine Gives.ends (gives_modifyWorker (w := w) hw) ?_
    exact turns_of (.started hw hstage htier hx hfree seed) (hno _)
  · refine turns_of (.exhausted (fun w' fiber run hon _ => ?_) hall seed fun w' fiber hon => ?_) (hno _)
    · obtain rfl := Option.some.inj (hon.here.symm.trans hw)
      cases hstage.symm.trans hon.stage
    · obtain rfl := Option.some.inj (hon.here.symm.trans hw)
      cases hstage.symm.trans hon.stage

/-! ## Runs -/

section
variable (hsound : s.Sound) (hon : OnRun s worker w fiber run)
include hsound hon

theorem record_onRun : ∃ record, s.hub.jobs[run.job]? = some record ∧ record.scheduled = true := by
  refine hsound.record (List.mem_append_right _ ?_)
  unfold runJobs
  rw [mem_gather]
  exact ⟨fiber, some run, run?_eq_some_iff.mp hon.run, List.mem_singleton.mpr rfl⟩

theorem endRun_turns (hover : run.rest.Over) (panic : Option Fault) :
    (endRun worker fiber run panic : Act ρ (System κ μ ρ) Unit).Ends s (Turns body s worker) := by
  obtain ⟨record, hrec, -⟩ := record_onRun hsound hon
  have hdeeds : ∀ t : System κ μ ρ, deeds s t (.work worker) = if t.stageOf worker = some .dead then [] else
      [.ended run.job record.completion] := fun t => by
    rw [deeds_onRun hon, deedsOfRun, hrec]
    cases hover' : run.rest with
    | done | panic => rfl
    | wait | call => rw [hover'] at hover; cases hover
  have hset : (setRun fiber none : Act ρ (System κ μ ρ) Unit).Gives s () (s.putRun fiber none) := ⟨rfl, rfl⟩
  refine hset.bind_ends ?_
  refine (ends_zoom _ _ _).mpr ?_
  unfold Ends
  generalize ho : (Hub.endRun (workerName worker) run.job run.held panic : Act ρ (Hub κ) Unit)
    (s.putRun fiber none).hub = o
  rcases o with ⟨fault | _, hub, log⟩
  · show Turns body s worker (.error fault) ((s.putRun fiber none).setHub hub)
    have hw : ((s.putRun fiber none).setHub hub).workers[worker]? = some w := hon.here
    have hstate : finished worker (.error fault) ((s.putRun fiber none).setHub hub) =
        ((s.putRun fiber none).setHub hub).setWorker worker { w with stage := .dead } :=
          (gives_modifyWorker hw).2
    unfold Turns
    rw [hstate, hdeeds, stageOf, getElem?_setWorker hw, if_pos rfl, Option.map_some, if_pos rfl]
    have hend : (Hub.endRun (workerName worker) run.job run.held panic : Act ρ (Hub κ) Unit).Ends s.hub
        fun r h => r = .error fault ∧ h = hub := (ends_of_eq ho).mpr ⟨rfl, rfl⟩
    exact .died hon hover hrec hend
  · show Turns body s worker (.ok ()) ((s.putRun fiber none).setHub hub)
    have hw : ((s.putRun fiber none).setHub hub).workers[worker]? = some w := hon.here
    unfold Turns
    rw [hdeeds, finished, stageOf, hw, Option.map_some, hon.stage, if_neg (by decide)]
    have hend : (Hub.endRun (workerName worker) run.job run.held panic : Act ρ (Hub κ) Unit).Ends s.hub
        fun r h => r = .ok () ∧ h = hub := (ends_of_eq ho).mpr ⟨rfl, rfl⟩
    exact .ended hon hover hrec hend

theorem call_turns {c : Call κ μ ρ} {next : c.Answer → Program κ μ ρ Unit} (hrest : run.rest = .call c next) :
    (do
      match ← (perform (some worker) run.held c).attempt with
      | .ok answer => setRun fiber (some ⟨run.job, c.settle answer run.held, next answer⟩)
      | .error fault =>
        setRun fiber (some { run with rest := .panic fault }) : Act ρ (System κ μ ρ) Unit).Ends s
      (Turns body s worker) := by
  have hcalled := perform_called hsound.fit (some worker) run.held c
  have hdeeds : ∀ t : System κ μ ρ, deeds s t (.work worker) =
      acceptances (c.accepted s.hub.jobs.size (perform (some worker) run.held c s).result) ++
      match (perform (some worker) run.held c s).result with
      | .ok answer => [.acted run.job (.call c answer)]
      | .error fault => [.acted run.job (.failed fault)] := fun t => by
    refine (deeds_onRun hon).trans ?_
    unfold deedsOfRun
    generalize run.rest = p at hrest ⊢
    subst hrest
    rfl
  refine (ends_bind _ _ _).mpr ((ends_attempt _ _).mpr ?_)
  have hturn : ∀ run' action, run'.job = run.job → run.rest.Step action run'.rest →
      run'.held = (match (perform (some worker) run.held c s).result with
        | .ok answer => c.settle answer run.held
        | .error _ => run.held) →
      Turn body s worker ((perform (some worker) run.held c s).state.putRun fiber (some run'))
        (acceptances (c.accepted s.hub.jobs.size (perform (some worker) run.held c s).result) ++
          [.acted run.job action]) :=
    fun run' action hjob hdoes hheld => .went hon hjob hcalled hdoes (Or.inl ⟨c, next, hrest, rfl, hheld⟩)
  unfold Ends
  cases hr : (perform (some worker) run.held c s).result with
  | ok answer =>
    rw [hr] at hturn hdeeds
    show Turn body s worker ((perform (some worker) run.held c s).state.putRun fiber _) _
    rw [hdeeds]
    exact hturn ⟨run.job, c.settle answer run.held, next answer⟩ (.call c answer) rfl
      (by rw [hrest]; exact .call c next answer) rfl
  | error fault =>
    rw [hr] at hturn hdeeds
    show Turn body s worker ((perform (some worker) run.held c s).state.putRun fiber _) _
    rw [hdeeds]
    exact hturn { run with rest := .panic fault } (.failed fault) rfl
      (by rw [hrest]; exact .failedCall c next fault) rfl

omit hsound hon in
theorem access_cases (s : System κ μ ρ) (held : List Nat) (group : Nat) :
    (access held group : Act ρ (System κ μ ρ) Group).Ends s fun r t => t = s ∧
    ((∃ fault, r = .error fault) ∨ ∃ state, r = .ok state ∧ group ∈ held ∧
      s.hub.groups.get? group = some state) := by
  unfold access
  rw [ends_ite]
  split
  · rename_i hheld
    refine (ends_zoom _ _ _).mpr ?_
    cases hs : s.hub.groups.get? group with
    | none => exact Hub.ends_group_dead hs fun fault => ⟨rfl, Or.inl ⟨fault, rfl⟩⟩
    | some state =>
      exact (Hub.ends_group hs _).mpr ⟨rfl, Or.inr ⟨state, rfl, List.contains_iff_mem.mp hheld, rfl⟩⟩
  · exact ⟨rfl, Or.inl ⟨_, rfl⟩⟩

omit hsound hon in
theorem gives_park {h : Hub κ} {group : Nat} {state : Group} (hs : h.groups.get? group = some state)
    (fiber : Nat) (p : Priority) (a : Affinity) :
    (Hub.park group fiber p a : Act ρ (Hub κ) Unit).Gives h () (h.withParked group state fiber p a) := by
  unfold Gives
  have hs' : ({ h with links := h.links.setIfInBounds fiber (.make state.head p a) } :
    Hub κ).groups.get? group = some state := hs
  simp only [Hub.park, ends_bind, Hub.ends_group hs, after_ok, ends_modify, Hub.ends_modifyGroup hs']
  exact ⟨trivial, rfl⟩

theorem park_turns {group : Nat} {next : Program κ μ ρ Unit} {state : Group}
    (hrest : run.rest = .wait group next) (hheld : group ∈ run.held)
    (hs : s.hub.groups.get? group = some state) (hcount : state.count ≠ 0)
    (haccess : (access run.held group s).result = .ok state) :
    (park worker fiber group : Act ρ (System κ μ ρ) Unit).Ends s (Turns body s worker) := by
  have hdeeds : ∀ t :
      System κ μ ρ, deeds s t (.work worker) = if t.aborted then [] else
      [.parked fiber group w.priority w.affinity] := fun t => by
    rw [deeds_onRun hon, deedsOfRun, hrest]
    have hsignaled : state.isSignaled = false := by simpa [Group.isSignaled] using hcount
    simp only [haccess, hsignaled]
    rfl
  have hcur := hsound.of_current hon.here hon.current
  have hplace : 0 < s.places fiber := by unfold places; omega
  obtain ⟨old, hold⟩ := hsound.slot_of_place hplace
  have hbusy : old.free = false := by
    rw [← FiberPool.isFree_of_slot hold]; exact hcur.2.1
  refine (ends_bind _ _ _).mpr (ends_rentFiber hsound.pool
    (fun x slot htier hx hfree seed => ?_) fun hall seed => ?_)
  · rw [after_ok]
    have hne : x ≠ fiber := by
      rintro rfl
      rw [hold] at hx
      rw [← Option.some.inj hx, hbusy] at hfree
      cases hfree
    let s₁ := s.setPool ((s.pool.seeded seed).setSlot x { slot with free := false })
    let s₂ := s₁.setHub (s.hub.withParked group state fiber w.priority w.affinity)
    let s₃ := s₂.setPool (s₁.pool.setSlot fiber { old with suspended := false })
    have hw₁ : s₁.workers[worker]? = some w := hon.here
    have hx₀ : (s.pool.seeded seed).slots[x]? = some slot := hx
    have hold₁ : s₁.pool.slots[fiber]? = some old := by
      rw [show s₁.pool.slots[fiber]? = _ from FiberPool.getElem?_setSlot hx₀ _ fiber, if_neg hne]; exact hold
    have hold₃ : s₃.pool.slots[fiber]? = some { old with suspended := false } :=
      (FiberPool.getElem?_setSlot hold₁ _ fiber).trans (if_pos rfl)
    have hx₃ : s₃.pool.slots[x]? = some { slot with free := false } := by
      rw [show s₃.pool.slots[x]? = _ from FiberPool.getElem?_setSlot hold₁ _ x, if_neg (Ne.symm hne)]
      exact (FiberPool.getElem?_setSlot hx₀ _ x).trans (if_pos rfl)
    refine Gives.bind_ends (a := s₁) (t := s₁) ⟨rfl, rfl⟩ ?_
    rw [hw₁]
    refine Gives.bind_ends (t := s₂)
      (gives_onHub (gives_park (h := s₁.hub) hs fiber w.priority w.affinity)) ?_
    refine Gives.bind_ends (t := s₃) (gives_onPool (s := s₂) (FiberPool.gives_beginSuspend hold₁)) ?_
    refine (gives_switchTo (s := s₃) hold₃ hbusy (hsound.context fiber old hold) hne hw₁ hx₃ rfl true).ends ?_
    have hstate :
        s₃.switched worker w fiber { old with suspended := false } x true =
        s₂.switched worker w fiber old x true := by
      simp [switched, s₃, s₂, s₁, setPool, setHub, FiberPool.setSlot_setSlot]
    rw [hstate]
    refine turns_of (.parked hon hrest hheld hs hcount htier hx hfree hold seed)
      ((hdeeds _).trans (if_neg ?_))
    rw [show (s₂.switched worker w fiber old x true).aborted = false from hon.alive]
    decide
  · refine turns_of (.exhausted (fun w' fiber' run' hon' hover => ?_) hall seed fun _ _ hloop =>
      hloop.not_onRun hon) (hdeeds _)
    rw [(hon.unique hon').2.2, hrest] at hover
    cases hover

theorem wait_turns {group : Nat} {next : Program κ μ ρ Unit} (hrest : run.rest = .wait group next) :
    (do
      match ← (access run.held group).attempt with
      | .error fault => setRun fiber (some { run with rest := .panic fault })
      | .ok state =>
        if state.isSignaled then setRun fiber (some { run with rest := next })
        else park worker fiber group : Act ρ (System κ μ ρ) Unit).Ends s (Turns body s worker) := by
  have hsame : Called s s none := .refl hsound.fit
  refine (ends_bind _ _ _).mpr ((ends_attempt _ _).mpr ?_)
  refine ((access_cases s run.held group).and
    (Q := fun r _ => (access run.held group s).result = r) rfl).mono ?_
  rintro r t ⟨⟨ht, ⟨fault, rfl⟩ | ⟨state, rfl, hheld, hs⟩⟩, hr⟩ <;> rw [ht]
  · show Turns body s worker (.ok ()) (s.putRun fiber (some { run with rest := .panic fault }))
    have hdeeds : ∀ t : System κ μ ρ, deeds s t (.work worker) = [.acted run.job (.failed fault)] :=
      fun t => by
      rw [deeds_onRun hon, deedsOfRun, hrest]
      simp only [hr]
    have hturn : Turn body s worker (s.putRun fiber (some { run with rest := .panic fault }))
        (acceptances none ++ [.acted run.job (.failed fault)]) :=
      .went hon rfl hsame (by rw [hrest]; exact .failedWait group next fault) (Or.inr ⟨rfl, rfl⟩)
    exact turns_of hturn (hdeeds _)
  · rw [after_ok]
    dsimp only
    rw [ends_ite]
    by_cases hcount : state.count = 0
    · have hsignaled : state.isSignaled = true := by simpa [Group.isSignaled] using hcount
      rw [if_pos hsignaled]
      show Turns body s worker (.ok ()) (s.putRun fiber (some { run with rest := next }))
      have hdeeds : ∀ t : System κ μ ρ, deeds s t (.work worker) = [.acted run.job (.wait group)] :=
        fun t => by
        rw [deeds_onRun hon, deedsOfRun, hrest]
        simp only [hr, hsignaled, if_true]
      have hturn : Turn body s worker (s.putRun fiber (some { run with rest := next }))
          (acceptances none ++ [.acted run.job (.wait group)]) :=
        .went hon rfl hsame (by rw [hrest]; exact .wait group next) (Or.inr ⟨rfl, rfl⟩)
      exact turns_of hturn (hdeeds _)
    · have hsignaled : ¬state.isSignaled = true := by simpa [Group.isSignaled] using hcount
      rw [if_neg hsignaled]
      exact park_turns hsound hon hrest hheld hs hcount hr

theorem stepRun_turns : (stepRun worker fiber run : Act ρ (System κ μ ρ) Unit).Ends s
    (Turns body s worker) := by
  unfold stepRun
  cases hrest : run.rest with
  | done => exact endRun_turns hsound hon (by rw [hrest]; exact .done) none
  | panic fault => exact endRun_turns hsound hon (by rw [hrest]; exact .panic fault) (some fault)
  | wait group next => exact wait_turns hsound hon hrest
  | call c next => exact call_turns hsound hon hrest

end

/-! ## The scheduling loop -/

theorem run?_putRun {fiber : Nat} (hf : fiber < s.runs.size) (run : Option (Run κ μ ρ)) (k : Nat) :
    (s.putRun fiber run).run? k = if fiber = k then run else s.run? k := by
  unfold run? putRun
  rw [Array.getElem?_setIfInBounds]
  by_cases hk : fiber = k
  · rw [if_pos hk, if_pos hf, if_pos hk]; rfl
  · rw [if_neg hk, if_neg hk]

theorem gives_beginRun {job : Nat} {record : Job κ} (hrec : s.hub.jobs[job]? = some record) (fiber : Nat) :
    (beginRun body fiber job : Act ρ (System κ μ ρ) Unit).Gives s ()
      ((s.setHub (s.hub.setJob job { record with started := true })).putRun fiber
        (some ⟨job, [], bodyOf body record⟩)) := by
  unfold beginRun
  refine (gives_onHub (Hub.gives_startBody hrec)).bind ?_
  unfold bodyOf
  cases record.spent <;> exact ⟨rfl, rfl⟩

section
variable (hsound : s.Sound) (hon : OnLoop s worker w fiber)
include hsound hon

theorem lt_runs : fiber < s.runs.size := by
  have hcur := hsound.of_current hon.here hon.current
  rw [hsound.runs]
  exact hsound.inside fiber (by unfold places; omega)

theorem slot_of_current : ∃ old, s.pool.slots[fiber]? = some old ∧ old.free = false ∧
    old.context = .context fiber := by
  have hcur := hsound.of_current hon.here hon.current
  have hplace : 0 < s.places fiber := by unfold places; omega
  obtain ⟨old, hold⟩ := hsound.slot_of_place hplace
  exact ⟨old, hold, by rw [← FiberPool.isFree_of_slot hold]; exact hcur.2.1, hsound.context fiber old hold⟩

omit hsound in
theorem deeds_began {t : System κ μ ρ} {run : Run κ μ ρ} (ht : t.run? fiber = some run) :
    deeds s t (.work worker) = [.began run.job] := by
  rw [deeds_onLoop hon, deedsOfLoop, ht]

omit hsound in
/-- A step that begins no run resumes a fiber if the worker goes on with a fiber that has one. -/
theorem deeds_of_runs {t : System κ μ ρ} (ht : t.runs = s.runs) : deeds s t (.work worker) =
    match (t.workers[worker]?).bind (·.current) with
    | some next => if (s.run? next).isSome then [.resumed next] else []
    | none => [] := by
  have hnone : t.run? fiber = none := by
    have := hon.run
    unfold run? at this ⊢
    rwa [ht]
  refine (deeds_onLoop hon).trans ?_
  unfold deedsOfLoop
  generalize t.run? fiber = r at hnone ⊢
  subst hnone
  rfl

omit hsound in
theorem deeds_nothing {t : System κ μ ρ} {next : Nat} (ht : t.runs = s.runs)
    (hcur : (t.workers[worker]?).bind (·.current) = some next) (hnext : s.run? next = none) :
    deeds s t (.work worker) = [] := by
  rw [deeds_of_runs hon ht, hcur]
  simp only [hnext, Option.isSome_none, Bool.false_eq_true, if_false]

omit hsound in
theorem deeds_resumed {t : System κ μ ρ} {next : Nat} (ht : t.runs = s.runs)
    (hcur : (t.workers[worker]?).bind (·.current) = some next) (hnext : (s.run? next).isSome = true) :
    deeds s t (.work worker) = [.resumed next] := by
  rw [deeds_of_runs hon ht, hcur]
  simp only [hnext, if_true]

omit hsound in
theorem deeds_left {t : System κ μ ρ} (ht : t.runs = s.runs)
    (hcur : (t.workers[worker]?).bind (·.current) = none) :
    deeds s t (.work worker) = [] := by
  rw [deeds_of_runs hon ht, hcur]

theorem handoff_turns {job : Nat} (hhand : w.handoff = some job) :
    (do
      modifyWorker worker fun w => { w with handoff := none }
      beginRun body fiber job : Act ρ (System κ μ ρ) Unit).Ends s (Turns body s worker) := by
  have hhanded : job ∈ s.handoffs := by
    unfold handoffs
    rw [mem_gather]
    exact ⟨worker, w, hon.here, by rw [hhand]; exact List.mem_singleton.mpr rfl⟩
  obtain ⟨record, hrec, -⟩ := hsound.record (List.mem_append_left _ (List.mem_append_right _ hhanded))
  have hlt : fiber < s.runs.size := lt_runs hsound hon
  refine Gives.bind_ends (gives_modifyWorker hon.here) ?_
  refine (gives_beginRun (s := s.setWorker worker { w with handoff := none }) hrec fiber).ends ?_
  have hrun := run?_putRun (s := (s.setWorker worker { w with handoff := none }).setHub
    (s.hub.setJob job { record with started := true })) hlt (some ⟨job, [], bodyOf body record⟩) fiber
  rw [if_pos rfl] at hrun
  have hlanes : s.hub.lanes = s.hub.lanes := rfl
  exact turns_of (.began hon hrec (Or.inl ⟨hhand, rfl, hlanes⟩)) (deeds_began hon hrun)

theorem dispatch_turns {job : Nat} {p : Priority} {a : Affinity} {lanes : Lanes} (hno : w.handoff = none)
    (htake : s.hub.lanes.take (s.hub.crew.sources worker) = some (.job job p a, lanes)) :
    (dispatch body worker fiber job p a : Act ρ (System κ μ ρ) Unit).Ends (s.setHub { s.hub with lanes })
    (Turns body s worker) := by
  obtain ⟨hqueued, -, hsize, hhas⟩ := Lanes.take_job htake
  have hjob : job ∈ s.hub.lanes.queued := hqueued.mem_iff.mpr List.mem_cons_self
  obtain ⟨record, hrec, -⟩ := hsound.record (List.mem_append_left _ (List.mem_append_left _ hjob))
  let w₁ : Worker := { w with priority := p, affinity := a }
  let s₁ := (s.setHub { s.hub with lanes }).setWorker worker w₁
  have hw₁ : s₁.workers[worker]? = some w₁ :=
    (getElem?_setWorker (s := s.setHub { s.hub with lanes }) hon.here w₁ worker).trans (if_pos rfl)
  have hneeds : s.hub.needsExtended job = record.extended := by rw [Hub.needsExtended, hrec]; rfl
  unfold dispatch
  refine Gives.bind_ends (t := s₁) (gives_modifyWorker (s := s.setHub { s.hub with lanes }) hon.here) ?_
  refine Gives.bind_ends (a := s₁) (t := s₁) ⟨rfl, rfl⟩ ?_
  -- The job begins here, or it needs an extended stack: a fiber is free, or it goes back.
  rw [ends_ite]
  split
  · rename_i hhere
    refine (gives_beginRun (s := s₁) hrec fiber).ends ?_
    have hlt : fiber < s.runs.size := lt_runs hsound hon
    have hrun := run?_putRun (s := s₁.setHub (s₁.hub.setJob job { record with started := true })) hlt
      (some ⟨job, [], bodyOf body record⟩) fiber
    rw [if_pos rfl] at hrun
    refine turns_of (.began hon hrec (Or.inr ⟨p, a, hno, htake, rfl, fun hext => ?_⟩)) (deeds_began hon hrun)
    have hhere' : (!s.hub.needsExtended job || s.pool.isExtended fiber) = true := hhere
    rw [hneeds, hext] at hhere'
    simpa using hhere'
  · rename_i hhere
    have hhere' : ¬(!s.hub.needsExtended job || s.pool.isExtended fiber) = true := hhere
    rw [Bool.or_eq_true, not_or] at hhere'
    have hext : s.hub.needsExtended job = true := by simpa using hhere'.1
    have hnormal : s.pool.isExtended fiber = false := by simpa using hhere'.2
    obtain ⟨old, hold, hbusy, hctx⟩ := slot_of_current hsound hon
    refine Gives.bind_ends (gives_mode s₁) ((ends_bind _ _ _).mpr ((ends_zoom _ _ _).mpr ?_))
    refine (FiberPool.ends_rent s₁.hub.mode hsound.pool true).mono fun r pool hr => ?_
    cases hr with
    | @found x slot htier hx hfree seed =>
      rw [after_ok]
      have hne : x ≠ fiber := by
        rintro rfl
        rw [hold] at hx
        rw [← Option.some.inj hx, hbusy] at hfree
        cases hfree
      let w₂ : Worker := { w with priority := p, affinity := a, handoff := some job }
      let s₂ := s₁.setPool ((s.pool.seeded seed).setSlot x { slot with free := false })
      let s₃ := s₂.setWorker worker w₂
      have hx₀ : (s.pool.seeded seed).slots[x]? = some slot := hx
      have hold₃ : s₃.pool.slots[fiber]? = some old := by
        rw [show s₃.pool.slots[fiber]? = _ from FiberPool.getElem?_setSlot hx₀ _ fiber,
          if_neg hne]; exact hold
      have hx₃ : s₃.pool.slots[x]? = some { slot with free := false } :=
        (FiberPool.getElem?_setSlot hx₀ _ x).trans (if_pos rfl)
      have hw₃ : s₃.workers[worker]? = some w₂ :=
        (getElem?_setWorker (s := s₂) hw₁ w₂ worker).trans (if_pos rfl)
      refine Gives.bind_ends (t := s₃) (gives_modifyWorker (s := s₂) hw₁) ?_
      refine (gives_switchTo (s := s₃) hold₃ hbusy hctx hne hw₃ hx₃ rfl false).ends ?_
      have hstate : s₃.switched worker w₂ fiber old x false =
          ((s.setPool ((s.pool.seeded seed).setSlot x { slot with free := false })).setHub
            { s.hub with lanes }).switched
            worker w₂ fiber old x false := by
        simp [switched, s₃, s₂, s₁, setWorker, setPool, setHub]
      have hcurrent : (s₃.switched worker w₂ fiber old x false).workers[worker]? =
          some { w₂ with current := some x, previous := none, parking := false } :=
        (getElem?_set _ hw₃ worker).trans (if_pos rfl)
      have hunused : s.run? x = none := hsound.unused x (by rw [FiberPool.isFree_of_slot hx]; exact hfree)
      rw [hstate] at hcurrent ⊢
      exact turns_of (.passed hon hno htake hext hnormal htier hx hfree hold seed)
        (deeds_nothing hon rfl (by rw [hcurrent, Option.bind_some]) hunused)
    | exhausted hall seed =>
      rw [after_ok]
      obtain ⟨lanes', hpush⟩ : ∃ lanes', lanes.pushJob job p a = .ok lanes' :=
        ⟨_, Lanes.pushJob_of_has ((Lanes.has_of_size hsize a).mpr hhas) job p⟩
      let s₂ := s₁.setPool (s.pool.seeded seed)
      have hrequeue :
          (Hub.requeue job p a : Act ρ (Hub κ) Unit).Gives s₂.hub () { s₂.hub with lanes := lanes' } := by
        unfold Gives
        simp only [Hub.requeue, ends_bind, ends_get, after_ok, ends_lift, ends_modify,
          show s₂.hub.lanes = lanes from rfl, hpush, and_self]
      refine (gives_onHub hrequeue).ends ?_
      refine turns_of (.returned hon hno htake hext hnormal hall hpush seed)
        (deeds_nothing hon rfl ?_ hon.run)
      rw [show (s₂.setHub { s₂.hub with lanes := lanes' }).workers[worker]? = some w₁ from hw₁]
      exact hon.current

theorem resume_turns {ready : Ready} {lanes : Lanes} (hno : w.handoff = none)
    (htake : s.hub.lanes.take (s.hub.crew.sources worker) = some (.fiber ready, lanes)) :
    (resume worker fiber ready lanes : Act ρ (System κ μ ρ) Unit).Ends s (Turns body s worker) := by
  obtain ⟨hreadied, -, -⟩ := Lanes.take_fiber htake
  have hidle : ready.fiber ∈ s.hub.idle := List.mem_append_right _
    (List.mem_map.mpr ⟨ready, hreadied.mem_iff.mpr List.mem_cons_self, rfl⟩)
  obtain ⟨hone, -, hbusy'⟩ := hsound.of_idle hidle
  have hplace : 0 < s.places ready.fiber := by unfold places; omega
  obtain ⟨slot, hx⟩ := hsound.slot_of_place hplace
  obtain ⟨old, hold, hbusy, hctx⟩ := slot_of_current hsound hon
  have hne : ready.fiber ≠ fiber := by
    intro he
    rw [he] at hidle
    exact (hsound.of_current hon.here hon.current).2.2 hidle
  let w₁ : Worker := { w with priority := ready.priority, affinity := ready.affinity }
  let s₁ := (s.setPool (s.pool.setSlot ready.fiber { slot with suspended := false })).setHub
    { s.hub with lanes }
  let s₂ := s₁.setWorker worker w₁
  have hw₂ : s₂.workers[worker]? = some w₁ :=
    (getElem?_setWorker (s := s₁) hon.here w₁ worker).trans (if_pos rfl)
  have hx₂ : s₂.pool.slots[ready.fiber]? = some { slot with suspended := false } :=
    (FiberPool.getElem?_setSlot hx _ _).trans (if_pos rfl)
  have hold₂ : s₂.pool.slots[fiber]? = some old := by
    rw [show s₂.pool.slots[fiber]? = _ from FiberPool.getElem?_setSlot hx _ fiber, if_neg hne]; exact hold
  have hrented : slot.free = false := by rw [← FiberPool.isFree_of_slot hx]; exact hbusy'
  unfold resume
  refine Gives.bind_ends (gives_onPool
    (FiberPool.gives_takeSuspended hx (hsound.suspended _ hidle slot hx))) ?_
  rw [if_pos rfl]
  refine Gives.bind_ends (t := s₁) ⟨rfl, rfl⟩ ?_
  refine Gives.bind_ends (t := s₂) (gives_modifyWorker (s := s₁) hon.here) ?_
  refine (gives_switchTo (s := s₂) hold₂ hbusy hctx hne hw₂ hx₂ hrented false).ends ?_
  have hstate :
      s₂.switched worker w₁ fiber old ready.fiber false =
      s₁.switched worker w₁ fiber old ready.fiber false := by
    simp [switched, s₂, s₁, setWorker, setPool, setHub]
  have hcurrent :
      ((s₂.switched worker w₁ fiber old ready.fiber false).workers[worker]?).bind
      (·.current) = some ready.fiber := by
    rw [show (s₂.switched worker w₁ fiber old ready.fiber false).workers[worker]? = some { w₁ with
      current := some ready.fiber, previous := none, parking := false } from (getElem?_set _ hw₂ worker).trans
        (if_pos rfl)]
    rfl
  rw [hstate] at hcurrent ⊢
  exact turns_of (.resumed hon hno htake hx hold) (deeds_resumed hon rfl hcurrent (hsound.unfinished _ hidle))

theorem leave_turns (hno : w.handoff = none) (hidle : s.hub.lanes.take (s.hub.crew.sources worker) = none)
    (hexit : s.hub.shouldExit = true) :
    (leave worker fiber : Act ρ (System κ μ ρ) Unit).Ends s (Turns body s worker) := by
  obtain ⟨old, hold, hbusy, hctx⟩ := slot_of_current hsound hon
  have hsame : ({ old with context := .context fiber } : Slot) = old := by rw [← hctx]
  have hupdate : (FiberPool.update fiber (.context fiber) : Act ρ FiberPool Unit).Gives s.pool () s.pool := by
    have := FiberPool.gives_update (ρ := ρ) hold (.context fiber)
    rwa [hsame, setSlot_self hold] at this
  let s₁ := s.setWorker worker { w with stage := .left, current := none }
  unfold leave
  refine Gives.bind_ends (t := s₁) (gives_modifyWorker hon.here)
    (Gives.bind_ends (t := s₁) (gives_onPool (s := s₁) hupdate) ?_)
  refine (gives_mode s₁).bind_ends ?_
  refine (gives_onPool (s := s₁) (FiberPool.gives_release hold _ ?_ hbusy)).ends ?_
  · rw [hctx]; simp
  · have hw₁ : s₁.workers[worker]? = some { w with stage := .left, current := none } :=
      (getElem?_setWorker hon.here _ worker).trans (if_pos rfl)
    exact turns_of (.left hon hno hidle hexit hold) (deeds_left hon rfl (by
      show (s₁.workers[worker]?).bind (·.current) = none
      rw [hw₁]; rfl))

theorem schedule_turns : (schedule body worker fiber w : Act ρ (System κ μ ρ) Unit).Ends s
    (Turns body s worker) := by
  unfold schedule
  cases hhand : w.handoff with
  | some job => exact handoff_turns hsound hon hhand
  | none =>
    refine Gives.bind_ends (a := s) (t := s) ⟨rfl, rfl⟩ ?_
    cases htake : s.hub.lanes.take (s.hub.crew.sources worker) with
    | none =>
      dsimp only
      rw [htake]
      dsimp only
      rw [ends_ite]
      split
      · rename_i hexit
        exact leave_turns hsound hon hhand htake hexit
      · refine turns_of (t := s) (.rest (fun _ _ _ => hon.not_onRun) fun w' _ hon' => ?_)
          (deeds_nothing hon rfl ?_ hon.run)
        · obtain rfl := Option.some.inj (hon.here.symm.trans hon'.here)
          exact ⟨hhand, htake⟩
        · rw [hon.here]
          exact hon.current
    | some taken =>
      dsimp only
      rw [htake]
      rcases taken with ⟨ready | ⟨job, p, a⟩, lanes⟩
      · exact resume_turns hsound hon hhand htake
      · exact Gives.bind_ends (t := s.setHub { s.hub with lanes }) ⟨rfl, rfl⟩
          (dispatch_turns hsound hon hhand htake)

end

/-! ## All steps -/

theorem tryStep_turns (hsound : s.Sound) (halive : s.aborted = false) :
    (tryStep body worker).Ends s (Turns body s worker) := by
  have hrest : (∀ w fiber run, ¬OnRun s worker w fiber run) → (∀ w fiber, ¬OnLoop s worker w fiber) →
      deeds s s (.work worker) = [] → (pure () : Act ρ (System κ μ ρ) Unit).Ends s (Turns body s worker) :=
    fun hno hloop => turns_of (.rest hno fun w fiber hon => absurd hon (hloop w fiber))
  unfold tryStep
  refine Gives.bind_ends (a := s) (t := s) ⟨rfl, rfl⟩ ?_
  cases hw : s.workers[worker]? with
  | none =>
    exact hrest (fun _ _ _ hon => by cases hw.symm.trans hon.here)
      (fun _ _ hon => by cases hw.symm.trans hon.here) (by simp [deeds, hw])
  | some w =>
    dsimp only
    have hfits := hsound.worker worker w hw
    split
    · rename_i hstage
      exact start_turns hsound hw hstage
    · rename_i fiber hstage hcur
      cases hrun : s.run? fiber with
      | some run => exact stepRun_turns hsound ⟨halive, hw, hstage, hcur, hrun⟩
      | none => exact schedule_turns hsound ⟨halive, hw, hstage, hcur, hrun⟩
    · rename_i hstarting hrunning
      have hoff : w.stage ≠ .running := fun hstage => by
        obtain ⟨fiber, hcur⟩ := Option.isSome_iff_exists.mp (hfits.at_work hstage)
        exact hrunning fiber hstage hcur
      refine hrest (fun w' fiber run hon => hoff ?_) (fun w' fiber hon => hoff ?_) (deeds_off hw hoff)
      · rw [← Option.some.inj (hon.here.symm.trans hw)]
        exact hon.stage
      · rw [← Option.some.inj (hon.here.symm.trans hw)]
        exact hon.stage

/-- Every step of a worker of a sound system is a turn. -/
theorem turn_of_sound (hsound : s.Sound) (body : κ → Program κ μ ρ Unit) (worker : Nat) :
    Turn body s worker (step body worker s).state (deeds s (step body worker s).state (.work worker)) := by
  cases halive : s.aborted with
  | false =>
    rw [step_state halive]
    exact tryStep_turns hsound halive
  | true =>
    have hstate : (step body worker s).state = s := by
      have : (step body worker).Ends s fun _ t => t = s := by
        simp only [step, ends_bind, ends_get, after_ok, halive, Bool.not_true, Bool.false_eq_true, if_false,
          ends_pure]
      exact this
    have hdeeds : deeds s s (.work worker) = [] := by
      simp only [deeds, halive, if_true]
      split
      · rfl
      · split <;> rfl
    rw [hstate, hdeeds]
    exact .rest (fun _ _ _ hon => by cases halive.symm.trans hon.alive)
      fun _ _ hon => by cases halive.symm.trans hon.alive

end FiberScheduler.System
