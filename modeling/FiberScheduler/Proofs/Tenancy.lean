import FiberScheduler.Proofs.Terms

/-!
# Tenants of fibers

What a fiber was taken for: the run on its stack, or a job that was passed on to it. The
fibers with an extended stack are only taken for jobs that ask for one. The worker that
ran such a job goes on in its loop on the same fiber, which is then kept for as long as
that loop, and the runs that it begins there, have no other fiber to go on with.
-/

namespace FiberScheduler.System

open Act

variable {κ μ ρ σ : Type} {body : κ → Program κ μ ρ Unit} {s s' : System κ μ ρ} {worker fiber x job : Nat}
  {w : Worker} {run : Run κ μ ρ} {ds : List (Deed κ μ ρ)} {m : Move κ μ ρ}

def Carries (s : System κ μ ρ) (x job : Nat) : Prop :=
  (∃ run, s.run? x = some run ∧ run.job = job) ∨
    ∃ (i : Nat) (w : Worker), s.workers[i]? = some w ∧ w.current = some x ∧ w.handoff = some job

/-- Whether the job of a fiber asked for an extended stack. -/
def Hosts (s : System κ μ ρ) (x : Nat) : Prop :=
  ∃ job, s.Carries x job ∧ s.hub.needsExtended job = true

def Finishes (s : System κ μ ρ) (m : Move κ μ ρ) (x job : Nat) : Prop :=
  ∃ i w run, m = .work i ∧ OnRun s i w x run ∧ run.rest.Over ∧ run.job = job

theorem mem_pending_of_carries (hc : s.Carries x job) : job ∈ s.pending := by
  rcases hc with ⟨run, hrun, rfl⟩ | ⟨i, w, hw, -, hhand⟩
  · exact mem_pending_of_run hrun
  · exact mem_pending_of_hand hw (Or.inl hhand)

/-! ## What a fiber carries -/

theorem Carries.of_kept (hc : s.Carries x job)
    (hruns : ∀ run, s.run? x = some run → ∃ run', s'.run? x = some run' ∧ run'.job = run.job)
    (hworkers : ∀ (i : Nat) v j, s.workers[i]? = some v → v.handoff = some j → s'.workers[i]? = some v) :
      s'.Carries x job := by
  rcases hc with ⟨run, hrun, rfl⟩ | ⟨i, v, hv, hcur, hhand⟩
  · exact Or.inl (hruns run hrun)
  · exact Or.inr ⟨i, v, hworkers i v job hv hhand, hcur, hhand⟩

theorem passed_kept {new : Worker} (hw : s.workers[worker]? = some w) (hno : w.handoff = none)
    (hworkers : s'.workers = s.workers.setIfInBounds worker new) (i : Nat) (v : Worker) (j : Nat)
    (hv : s.workers[i]? = some v) (hhand : v.handoff = some j) : s'.workers[i]? = some v := by
  rw [hworkers, getElem?_set _ hw]
  by_cases hi : worker = i
  · subst hi
    rw [Option.some.inj (hv.symm.trans hw), hno] at hhand
    cases hhand
  · rw [if_neg hi]
    exact hv

theorem run_kept {run' : Run κ μ ρ} (hruns : s'.runs = s.runs.setIfInBounds fiber (some run'))
    (hrun : s.run? fiber = some run) (hjob : run'.job = run.job) (old : Run κ μ ρ)
    (hold : s.run? x = some old) :
    ∃ new, s'.run? x = some new ∧ new.job = old.job := by
  rw [run?_of_set hruns (lt_runs_of_run? hrun) x]
  by_cases hx : fiber = x
  · subst hx
    obtain rfl := Option.some.inj (hrun.symm.trans hold)
    exact ⟨run', if_pos rfl, hjob⟩
  · exact ⟨old, (if_neg hx).trans hold, rfl⟩

section
variable (h : s.Sound)
include h

theorem Sound.carries_begin {new : Worker} (hon : OnLoop s worker w fiber)
    (hruns : s'.runs = s.runs.setIfInBounds fiber (some run))
    (hworkers : s'.workers = s.workers.setIfInBounds worker new)
    (hjob : ∀ j, w.handoff = some j → run.job = j) (hc : s.Carries x job) : s'.Carries x job := by
  have hrun? := run?_of_set hruns (lt_runs h hon) x
  rcases hc with ⟨old, hold, rfl⟩ | ⟨i, v, hv, hcur, hhand⟩
  · have hx : fiber ≠ x := by
      rintro rfl
      cases hold.symm.trans hon.run
    exact Or.inl ⟨old, by rw [hrun?, if_neg hx, hold], rfl⟩
  · by_cases hi : worker = i
    · subst hi
      obtain rfl := Option.some.inj (hv.symm.trans hon.here)
      obtain rfl := Option.some.inj (hcur.symm.trans hon.current)
      exact Or.inl ⟨run, hrun?.trans (if_pos rfl), hjob job hhand⟩
    · refine Or.inr ⟨i, v, ?_, hcur, hhand⟩
      rw [hworkers, getElem?_set _ hon.here, if_neg hi]
      exact hv

theorem Sound.carries_end (hon : OnRun s worker w fiber run) (hover : run.rest.Over)
    (hruns : s'.runs = s.runs.setIfInBounds fiber none)
    (hworkers : ∀ (i : Nat) v j, s.workers[i]? = some v → v.handoff = some j → s'.workers[i]? = some v)
    (hc : s.Carries x job) : s'.Carries x job ∨ s.Finishes (.work worker) x job := by
  have hrun? := run?_of_set hruns (lt_runs_of_run? hon.run) x
  by_cases hx : fiber = x
  · subst hx
    rcases hc with ⟨run', hrun', rfl⟩ | ⟨i, v, hv, hcur, hhand⟩
    · obtain rfl := Option.some.inj (hon.run.symm.trans hrun')
      exact Or.inr ⟨worker, w, run, rfl, hon, hover, rfl⟩
    · have hnone := ((h.worker i v hv).handoff (by rw [hhand]; rfl)).2 fiber hcur
      cases hnone.symm.trans hon.run
  · rw [if_neg hx] at hrun?
    exact Or.inl (hc.of_kept (fun run' hrun' => ⟨run', hrun?.trans hrun', rfl⟩) hworkers)

/-- A step leaves what a fiber carries where it is, unless it ends that run. -/
theorem Turn.carries (ht : Turn body s worker s' ds) (hc : s.Carries x job) :
    s'.Carries x job ∨ s.Finishes (.work worker) x job := by
  have hsame : ∀ run, s.run? x = some run → ∃ run', s.run? x = some run' ∧ run'.job = run.job :=
    fun run hrun => ⟨run, hrun, rfl⟩
  cases ht with
  | rest | exhausted => exact Or.inl hc
  | started hw hstage =>
    exact Or.inl (hc.of_kept hsame (passed_kept hw (h.handoff_eq_none hw (by rw [hstage]; decide)) rfl))
  | @went w fiber run run' s₁ queued action hon hjob hcalled =>
    obtain ⟨hub, kept, memory, rfl⟩ : ∃ hub kept memory, s₁ = { s with hub, kept, memory } :=
      ⟨_, _, _, hcalled.rest⟩
    exact Or.inl (hc.of_kept (run_kept rfl hon.run hjob) fun _ _ _ hv _ => hv)
  | parked hon => exact Or.inl (hc.of_kept hsame (passed_kept hon.here (h.no_handoff hon) rfl))
  | ended hon hover => exact h.carries_end hon hover rfl (fun _ _ _ hv _ => hv) hc
  | died hon hover => exact h.carries_end hon hover rfl (passed_kept hon.here (h.no_handoff hon) rfl) hc
  | @began w w' fiber j record lanes hon hrec hway =>
    refine Or.inl (h.carries_begin hon rfl rfl (fun j' hhand => ?_) hc)
    rcases hway with ⟨hj, -, -⟩ | ⟨-, -, hno, -⟩
    · exact Option.some.inj (hj.symm.trans hhand)
    · cases hno.symm.trans hhand
  | passed hon hno | returned hon hno | resumed hon hno | left hon hno =>
    exact Or.inl (hc.of_kept hsame (passed_kept hon.here hno rfl))

end

/-! ## Rents -/

theorem ne_of_tiers {pool : FiberPool} {y : Nat} (hx : pool.InTier true x) (hy : pool.InTier false y) :
    y ≠ x := by
  simp only [FiberPool.InTier, if_true, Bool.false_eq_true, if_false] at hx hy
  omega

theorem isFree_after {pool : FiberPool} {next : Nat} {slot old new new' : Slot}
    (hx : pool.slots[next]? = some slot) (hold : pool.slots[fiber]? = some old) (hne : next ≠ fiber)
    (hfiber : fiber ≠ x) :
    ((pool.setSlot next new).setSlot fiber new').isFree x = if next = x then new.free else pool.isFree x := by
  rw [FiberPool.isFree_setSlot (slot_after hx hold hne), if_neg hfiber, FiberPool.isFree_setSlot hx]

section
variable (h : s.Sound)
include h

/-- A free fiber with an extended stack is only rented for a job that asks for one. -/
theorem Turn.hosts_of_rent (ht : Turn body s worker s' ds) (htier : s.pool.InTier true x)
    (hfree : s.pool.isFree x = true) (hbusy : s'.pool.isFree x = false) : s'.Hosts x := by
  have hsame : s'.pool.isFree x = s.pool.isFree x → s'.Hosts x := fun he => by
    rw [hbusy, hfree] at he
    cases he
  have hne : ∀ {w : Worker} {fiber : Nat}, s.workers[worker]? = some w → w.current = some fiber → fiber ≠ x :=
    fun hw hcur he => by
    have := (h.of_current hw hcur).2.1
    rw [he, hfree] at this
    cases this
  cases ht with
  | rest | exhausted | ended | died | began | returned => exact hsame rfl
  | @started w fiber slot hw hstage hnormal hx hslot seed =>
    have hx' : (s.pool.seeded seed).slots[fiber]? = some slot := hx
    refine hsame ((FiberPool.isFree_setSlot hx' _ x).trans ?_)
    rw [if_neg (ne_of_tiers htier hnormal)]
    rfl
  | went hon hjob hcalled => exact hsame (by rw [putRun, hcalled.rest])
  | @parked w fiber next group run rest state slot old hon hrest hheld hs hcount hnormal hx hslot hold seed =>
    have hx' : (s.pool.seeded seed).slots[next]? = some slot := hx
    refine hsame ((isFree_after hx' hold (h.ne_of_free hon.here hon.current hx hslot)
      (hne hon.here hon.current)).trans ?_)
    rw [if_neg (ne_of_tiers htier hnormal)]
    rfl
  | @passed w fiber next j p a lanes slot old hon hno htake hneeds hnormal htier' hx hslot hold seed =>
    by_cases hn : next = x
    · subst hn
      refine ⟨j, Or.inr ⟨worker, { w with
        priority := p, affinity := a, handoff := some j, current := some next, previous := none, parking :=
          false }, ?_, rfl, rfl⟩, hneeds⟩
      exact (getElem?_set _ hon.here worker).trans (if_pos rfl)
    · have hx' : (s.pool.seeded seed).slots[next]? = some slot := hx
      refine hsame ((isFree_after hx' hold (h.ne_of_free hon.here hon.current hx hslot)
        (hne hon.here hon.current)).trans ?_)
      rw [if_neg hn]
      rfl
  | @resumed w fiber ready lanes slot old hon hno htake hx hold =>
    have hidle : ready.fiber ∈ s.hub.idle := List.mem_append_right _
      (List.mem_map.mpr ⟨ready, (Lanes.take_fiber htake).1.mem_iff.mpr List.mem_cons_self, rfl⟩)
    refine hsame ((isFree_after hx hold (h.ne_of_idle hon.here hon.current hidle)
      (hne hon.here hon.current)).trans ?_)
    by_cases hr : ready.fiber = x
    · rw [if_pos hr, ← hr, FiberPool.isFree_of_slot hx]
    · rw [if_neg hr]
  | @left w fiber old hon hno hidle hexit hold =>
    refine hsame ((FiberPool.isFree_setSlot hold _ x).trans ?_)
    rw [if_neg (hne hon.here hon.current)]

end

/-! ## Moves -/

theorem needsExtended_of_set {h h' : Hub κ} {j : Nat} {old new : Job κ} (hold : h.jobs[j]? = some old)
    (hjobs : h'.jobs = h.jobs.setIfInBounds j new) (he : new.extended = old.extended) (job : Nat) :
    h'.needsExtended job = h.needsExtended job := by
  unfold Hub.needsExtended
  rw [hjobs, getElem?_set _ hold]
  by_cases hj : j = job
  · subst hj
    simp [hold, he]
  · rw [if_neg hj]

theorem Called.needsExtended {queued : Option (Nat × Option Nat)} (h : s.Sound) (hc : Called s s' queued)
    (hj : job ∈ s.pending) :
    s'.hub.needsExtended job = s.hub.needsExtended job := by
  obtain ⟨record, hrec, hscheduled⟩ := h.record hj
  obtain ⟨record', hrec', -, hsame⟩ := hc.effect.recorded.kept job record hrec
  simp [Hub.needsExtended, hrec, hrec', hsame hscheduled]

section
variable (h : s.Sound)
include h

theorem Turn.needsExtended (ht : Turn body s worker s' ds) (hj : job ∈ s.pending) :
    s'.hub.needsExtended job = s.hub.needsExtended job := by
  cases ht with
  | rest | exhausted | started | parked | passed | returned | resumed | left => rfl
  | went hon hjob hcalled =>
    have hkept := hcalled.needsExtended h hj
    exact hkept
  | ended hon hover hrec hend =>
    exact needsExtended_of_set hrec (((Hub.ends_endRun h.tidy hrec).pin hend).whole rfl).1 rfl job
  | died hon hover hrec hend =>
    rcases (((Hub.ends_endRun h.tidy hrec).pin hend).cut (by simp)).1 with hsame | hclosed
    · exact congrArg (fun jobs => (jobs[job]?).any (·.extended)) hsame
    · exact needsExtended_of_set hrec hclosed rfl job
  | began hon hrec hway => exact needsExtended_of_set hrec rfl (by rfl) job

theorem needsExtended_move (m : Move κ μ ρ) (hj : job ∈ s.pending) :
    (move body s m).hub.needsExtended job = s.hub.needsExtended job := by
  rcases called_move body h m with ⟨i, rfl⟩ | rfl | ⟨queued, hcalled, -⟩
  · exact Turn.needsExtended h (turn_of_sound h body i) hj
  · rfl
  · exact hcalled.needsExtended h hj

/-- A fiber keeps a job that asked for an extended stack up to the end of its run. -/
theorem Sound.hosts_move (m : Move κ μ ρ) (hx : s.Hosts x) :
    (move body s m).Hosts x ∨ ∃ job, s.Finishes m x job ∧ s.hub.needsExtended job = true := by
  obtain ⟨job, hc, hneeds⟩ := hx
  have hneeds' : (move body s m).hub.needsExtended job = true := by
    rw [needsExtended_move h m (mem_pending_of_carries hc)]
    exact hneeds
  rcases called_move body h m with ⟨i, rfl⟩ | rfl | ⟨queued, hcalled, -⟩
  · rcases Turn.carries h (turn_of_sound h body i) hc with hc' | hfinishes
    · exact Or.inl ⟨job, hc', hneeds'⟩
    · exact Or.inr ⟨job, hfinishes, hneeds⟩
  · exact Or.inl ⟨job, hc, hneeds'⟩
  · refine Or.inl ⟨job, hc.of_kept (fun run hrun => ⟨run, ?_, rfl⟩) fun i v j hv _ => ?_, hneeds'⟩
    · rw [run?, hcalled.rest]
      exact hrun
    · rw [hcalled.rest]
      exact hv

theorem Sound.hosts_of_rent (m : Move κ μ ρ) (htier : s.pool.InTier true x) (hfree : s.pool.isFree x = true)
    (hbusy : (move body s m).pool.isFree x = false) : (move body s m).Hosts x := by
  rcases called_move body h m with ⟨i, rfl⟩ | rfl | ⟨queued, hcalled, -⟩
  · exact Turn.hosts_of_rent h (turn_of_sound h body i) htier hfree hbusy
  · cases hbusy.symm.trans hfree
  · rw [hcalled.rest] at hbusy
    cases hbusy.symm.trans hfree

end

/-! ## Whole runs -/

/-- Whether a fiber was kept after the end of a run that needed its extended stack: from
then on it was not given back, and no other job that needs one came to it. -/
def Outstays (body : κ → Program κ μ ρ Unit) (s₀ : System κ μ ρ) (moves : List (Move κ μ ρ))
    (x : Nat) : Prop :=
  ∃ before m after job, moves = before ++ m :: after ∧ (play body s₀ before).Finishes m x job ∧
    (play body s₀ before).hub.needsExtended job = true ∧ ∀ mid rest, after = mid ++ rest →
      (play body s₀ (before ++ m :: mid)).pool.isFree x = false ∧ ¬(play body s₀ (before ++ m :: mid)).Hosts x

section
variable {s₀ : System κ μ ρ} {moves : List (Move κ μ ρ)}

theorem Outstays.snoc (ho : Outstays body s₀ moves x)
    (hbusy : (play body s₀ (moves ++ [m])).pool.isFree x = false)
    (hno : ¬(play body s₀ (moves ++ [m])).Hosts x) : Outstays body s₀ (moves ++ [m]) x := by
  obtain ⟨before, m', after, job, rfl, hfinishes, hneeds, hsince⟩ := ho
  refine ⟨before, m', after ++ [m], job, by simp, hfinishes, hneeds, fun mid rest he => ?_⟩
  rcases List.eq_nil_or_concat rest with rfl | ⟨rest, last, rfl⟩
  · rw [List.append_nil] at he
    rw [← he]
    rw [List.append_assoc, List.cons_append] at hbusy hno
    exact ⟨hbusy, hno⟩
  · rw [List.concat_eq_append, ← List.append_assoc] at he
    exact hsince mid rest (List.append_inj_left' he rfl)

theorem Outstays.not_hosts (ho : Outstays body s₀ moves x) : ¬(play body s₀ moves).Hosts x := by
  obtain ⟨before, m, after, job, rfl, -, -, hsince⟩ := ho
  exact (hsince after [] (List.append_nil after).symm).2

end

/-- Each fiber with an extended stack that is not free is there for a job that needs it,
or was kept after one. -/
def Occupied (body : κ → Program κ μ ρ Unit) (s₀ : System κ μ ρ) (moves : List (Move κ μ ρ)) : Prop :=
  ∀ x, (play body s₀ moves).pool.InTier true x → (play body s₀ moves).pool.isFree x = false →
    (play body s₀ moves).Hosts x ∨ Outstays body s₀ moves x

section
variable {s₀ : System κ μ ρ} {moves : List (Move κ μ ρ)}

theorem Occupied.snoc (h : (play body s₀ moves).Sound) (ho : Occupied body s₀ moves) (m : Move κ μ ρ) :
    Occupied body s₀ (moves ++ [m]) := by
  intro x htier hbusy
  have hplay : play body s₀ (moves ++ [m]) = move body (play body s₀ moves) m := play_append ..
  have hpool := (sameShape_move body h m).pool
  have htier' : (play body s₀ moves).pool.InTier true x := by
    rw [hplay] at htier
    simpa only [FiberPool.InTier, hpool.normal, hpool.extended] using htier
  by_cases hhosts : (play body s₀ (moves ++ [m])).Hosts x
  · exact Or.inl hhosts
  · refine Or.inr ?_
    cases hfree : (play body s₀ moves).pool.isFree x with
    | true =>
      rw [hplay] at hbusy hhosts
      exact absurd (h.hosts_of_rent m htier' hfree hbusy) hhosts
    | false =>
      rcases ho x htier' hfree with hx | hout
      · rcases h.hosts_move m hx with hx' | ⟨job, hfinishes, hneeds⟩
        · rw [hplay] at hhosts
          exact absurd hx' hhosts
        · refine ⟨moves, m, [], job, rfl, hfinishes, hneeds, fun mid rest he => ?_⟩
          obtain ⟨rfl, rfl⟩ := List.append_eq_nil_iff.mp he.symm
          exact ⟨hbusy, hhosts⟩
      · exact hout.snoc hbusy hhosts

theorem New.occupied (h : New s₀) : Occupied body s₀ [] := by
  intro x htier hbusy
  have hlt : x < s₀.pool.slots.size := by
    have hsize := h.sized.size
    have htier : s₀.pool.normal ≤ x ∧ x < s₀.pool.normal + s₀.pool.extended := htier
    omega
  have hfree := h.isFree x
  rw [decide_eq_true hlt] at hfree
  cases hfree.symm.trans hbusy

theorem New.occupied_play (h : New s₀) : ∀ moves : List (Move κ μ ρ), Occupied body s₀ moves := by
  have hrun : ∀ (after before : List (Move κ μ ρ)), Occupied body s₀ before →
      Occupied body s₀ (before ++ after) := by
    intro after
    induction after with
    | nil =>
      intro before ho
      rwa [List.append_nil]
    | cons m after ih =>
      intro before ho
      rw [List.append_cons]
      exact ih (before ++ [m]) (ho.snoc (sound_play body h.sound before) m)
  exact fun moves => hrun moves [] h.occupied

end

/-! ## Jobs that go back to their queue -/

def PutsBack (body : κ → Program κ μ ρ Unit) (s : System κ μ ρ) (worker job : Nat) : Prop :=
  (∃ w fiber p a, OnLoop s worker w fiber ∧ w.handoff = none ∧
    (s.hub.lanes.take (s.hub.crew.sources worker)).map (·.1) = some (.job job p a)) ∧
  job ∈ (move body s (.work worker)).hub.lanes.queued

theorem Sound.not_queued_twice (h : s.Sound) {sources : List Affinity} {p : Priority} {a : Affinity}
    {lanes : Lanes} (htake : s.hub.lanes.take sources = some (.job job p a, lanes)) : job ∉ lanes.queued := by
  intro hin
  have hcount := count_queued_take htake job
  have hpending := count_pending s job
  have hunbegun := count_unbegun s job
  have honce := h.pending_once job
  have hpos := List.count_pos_iff.mpr hin
  simp at hcount
  omega

inductive Dispatched (s : System κ μ ρ) (worker : Nat) (w : Worker) (fiber job : Nat) (p : Priority)
    (a : Affinity) (lanes : Lanes) :
    System κ μ ρ → List (Deed κ μ ρ) → Prop
  | began {s' : System κ μ ρ} (hfits : s.hub.needsExtended job = true → s.pool.isExtended fiber = true)
      (hlanes : s'.hub.lanes = lanes) : Dispatched s worker w fiber job p a lanes s' [.began job]
  | passed {s' : System κ μ ρ} {x : Nat} (hneeds : s.hub.needsExtended job = true)
      (htier : s.pool.InTier true x) (hfree : s.pool.isFree x = true) (hlanes : s'.hub.lanes = lanes) :
        Dispatched s worker w fiber job p a lanes s' []
  | returned {lanes' : Lanes} (hneeds : s.hub.needsExtended job = true)
      (hnormal : s.pool.isExtended fiber = false)
      (hbusy : ∀ x, s.pool.InTier true x → s.pool.isFree x = false)
      (hput : lanes.pushJob job p a = .ok lanes') (seed : UInt32) :
      Dispatched s worker w fiber job p a lanes
        (((s.setPool (s.pool.seeded seed)).setHub { s.hub with lanes := lanes' }).setWorker worker
        { w with priority := p, affinity := a }) []

theorem Turn.dispatched {p : Priority} {a : Affinity} {lanes : Lanes} (ht : Turn body s worker s' ds)
    (hon : OnLoop s worker w fiber) (hno : w.handoff = none)
    (htake : s.hub.lanes.take (s.hub.crew.sources worker) = some (.job job p a, lanes)) :
    Dispatched s worker w fiber job p a lanes s' ds := by
  cases ht with
  | rest _ hidle => cases htake.symm.trans (hidle w fiber hon).2
  | exhausted _ _ _ hloop => exact absurd hon (hloop w fiber)
  | started hw hstage =>
    obtain rfl := Option.some.inj (hon.here.symm.trans hw)
    cases hstage.symm.trans hon.stage
  | went hrun | parked hrun | ended hrun | died hrun => exact absurd hrun hon.not_onRun
  | resumed _ _ htake' => cases htake.symm.trans htake'
  | left _ _ hidle => cases htake.symm.trans hidle
  | @began v w' f j' record lanes' hon' hrec hway =>
    obtain rfl := Option.some.inj (hon.here.symm.trans hon'.here)
    obtain rfl := Option.some.inj (hon.current.symm.trans hon'.current)
    rcases hway with ⟨hhand, -, -⟩ | ⟨q, b, -, htake', -, hext⟩
    · cases hno.symm.trans hhand
    · cases htake.symm.trans htake'
      refine .began ?_ rfl
      intro hneeds
      apply hext
      simpa [Hub.needsExtended, hrec] using hneeds
  | passed _ _ htake' hneeds _ htier hx hfree =>
    cases htake.symm.trans htake'
    exact .passed hneeds htier ((FiberPool.isFree_of_slot hx).trans hfree) rfl
  | returned hon' _ htake' hneeds hnormal hall hput seed =>
    obtain rfl := Option.some.inj (hon.here.symm.trans hon'.here)
    obtain rfl := Option.some.inj (hon.current.symm.trans hon'.current)
    cases htake.symm.trans htake'
    exact .returned hneeds hnormal hall hput seed

theorem Sound.busy_of_putsBack (h : s.Sound) (hback : PutsBack body s worker job) :
    s.hub.needsExtended job = true ∧ ∀ x, s.pool.InTier true x → s.pool.isFree x = false := by
  obtain ⟨⟨w, fiber, p, a, hon, hno, hfetch⟩, hqueued⟩ := hback
  obtain ⟨⟨_, lanes⟩, htake, rfl⟩ := Option.map_eq_some_iff.mp hfetch
  have hmissing := h.not_queued_twice htake
  have hd : Dispatched s worker w fiber job p a lanes (move body s (.work worker))
      (deeds s (move body s (.work worker)) (.work worker)) :=
    (turn_of_sound h body worker).dispatched hon hno htake
  generalize move body s (.work worker) = s',
    deeds s (move body s (.work worker)) (.work worker) = ds at hd hqueued
  cases hd with
  | began _ hlanes | passed _ _ _ hlanes =>
    rw [hlanes] at hqueued
    exact absurd hqueued hmissing
  | returned hneeds _ hbusy => exact ⟨hneeds, hbusy⟩

section
variable {mode : Mode} {host : Host} {config : Config} {memory : μ} {y : σ} {s₀ : System κ μ ρ}
  {moves : List (Move κ μ ρ)} (hnew :
    ((new mode host config memory : Act ρ σ (Except Refusal (System κ μ ρ))) y).result = .ok (.ok s₀))
  (hplay : s = play body s₀ moves)
include hnew hplay

/-- A job goes back to its queue only if it needs an extended stack and no fiber that has
one is free. Then each such fiber has a job that needs it, or it was kept after the end
of one. -/
theorem put_back_only_if_occupied (hback : PutsBack body s worker job) : s.hub.needsExtended job = true ∧
    ∀ x, x < s.pool.capacity → s.pool.isExtended x = true →
      s.pool.isFree x = false ∧ (s.Hosts x ↔ ¬Outstays body s₀ moves x) := by
  have h₀ := new_of_ok hnew
  have hsound : s.Sound := hplay ▸ sound_play body h₀.sound moves
  obtain ⟨hneeds, hbusy⟩ := hsound.busy_of_putsBack hback
  refine ⟨hneeds, fun x hlt hext => ?_⟩
  have htier : s.pool.InTier true x := by
    have := hsound.pool.size
    simp only [FiberPool.isExtended, decide_eq_true_eq] at hext
    simp only [FiberPool.InTier, if_true]
    exact ⟨hext, by rw [← this]; exact hlt⟩
  refine ⟨hbusy x htier, ?_⟩
  subst hplay
  refine ⟨fun hx hout => hout.not_hosts hx, fun hno => ?_⟩
  -- All extended fibers are taken: each by a job that needs it, or after one.
  rcases h₀.occupied_play moves x htier (hbusy x htier) with hx | hout
  · exact hx
  · exact absurd hout hno

end

/-! ## One fiber with an extended stack -/

def newNarrow : Act Unit Unit (Except Refusal (System Bool Unit Unit)) :=
  new .strict .standard { smallConfig with extendedFiberCount := 1 } ()

def narrow : System Bool Unit Unit :=
  (built (newNarrow ()).result).get (by decide +kernel)

theorem new_narrow : (newNarrow ()).result = .ok (.ok narrow) :=
  eq_of_built _

/-- Worker 0 gets as far as the run of its job on the extended fiber, and worker 1 has a
job that needs one as well. -/
def contending : List (Move Bool Unit Unit) :=
  [.record false true false, .record false true false, .call (.addJob 0 .normal (.worker 0)), .work 0,
    .work 0, .work 0, .call (.addJob 1 .normal (.worker 1)), .work 1]

/-- While the other job runs, worker 1 has to put its own one back. -/
theorem contended_job_goes_back :
    let s := play smallBody narrow contending
    PutsBack smallBody s 1 1 ∧ s.Hosts 3 ∧ ¬Outstays smallBody narrow contending 3 := by
  intro s
  have hplay : s = play smallBody narrow contending := rfl
  have hback : PutsBack smallBody s 1 1 :=
    ⟨⟨⟨.running, some 2, none, false, .normal, .any, none⟩, 2, .normal, .worker 1,
      ⟨by decide +kernel, by decide +kernel, rfl, rfl, Option.isNone_iff_eq_none.mp (by decide +kernel)⟩, rfl,
      by decide +kernel⟩, by decide +kernel⟩
  have hjob : (s.run? 3).map (·.job) = some 0 := by decide +kernel
  have hhosts : s.Hosts 3 := ⟨0, Or.inl (Option.map_eq_some_iff.mp hjob), by decide +kernel⟩
  obtain ⟨-, hkept⟩ := put_back_only_if_occupied new_narrow hplay hback
  exact ⟨hback, hhosts, (hkept 3 (by decide +kernel) (by decide +kernel)).2.mp hhosts⟩

def hoarding : List (Move Bool Unit Unit) :=
  contending ++ [.work 0]

theorem idle_loop_turns_job_away :
    let s := play smallBody narrow hoarding
    PutsBack smallBody s 1 1 ∧ s.pool.isExtended 3 = true ∧ ¬s.Hosts 3 ∧ ∃ w, OnLoop s 0 w 3 ∧
      w.handoff = none := by
  intro s
  have hrun : s.run? 3 = none := Option.isNone_iff_eq_none.mp (by decide +kernel)
  have hhands : s.handoffs = [] := by decide +kernel
  refine ⟨⟨⟨⟨.running, some 2, none, false, .normal, .any, none⟩, 2, .normal, .worker 1,
      ⟨by decide +kernel, by decide +kernel, rfl, rfl, Option.isNone_iff_eq_none.mp (by decide +kernel)⟩, rfl,
      by decide +kernel⟩, by decide +kernel⟩, by decide +kernel, ?_,
    ⟨.running, some 3, none, false, .normal, .worker 0, none⟩,
      ⟨by decide +kernel, by decide +kernel, rfl, rfl, hrun⟩, rfl⟩
  rintro ⟨job, ⟨run, hsome, -⟩ | ⟨i, w, hw, -, hhand⟩, -⟩
  · cases hrun.symm.trans hsome
  · have hin : job ∈ s.handoffs := mem_gather.mpr ⟨i, w, hw, by rw [hhand]; exact List.mem_singleton_self job⟩
    rw [hhands] at hin
    cases hin

end FiberScheduler.System
