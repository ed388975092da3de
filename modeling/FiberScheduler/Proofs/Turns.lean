import FiberScheduler.Proofs.Sound

/-!
# Turns

What one step of a worker does to a sound system, case by case: the state it leaves
and the deeds it adds to the history.
-/

namespace FiberScheduler.System

open Act

variable {κ μ ρ : Type} {body : κ → Program κ μ ρ Unit} {s : System κ μ ρ} {worker : Nat}

def setWorker (s : System κ μ ρ) (worker : Nat) (w : Worker) : System κ μ ρ :=
  { s with workers := s.workers.setIfInBounds worker w }

def putRun (s : System κ μ ρ) (fiber : Nat) (run : Option (Run κ μ ρ)) : System κ μ ρ :=
  { s with runs := s.runs.setIfInBounds fiber run }

def setPool (s : System κ μ ρ) (pool : FiberPool) : System κ μ ρ :=
  { s with pool }

def setHub (s : System κ μ ρ) (hub : Hub κ) : System κ μ ρ :=
  { s with hub }

def switched (s : System κ μ ρ) (worker : Nat) (w : Worker) (previous : Nat) (slot : Slot) (next : Nat)
    (parking : Bool) :
    System κ μ ρ :=
  { s with
    workers := s.workers.setIfInBounds worker
      { w with current := some next, previous := none, parking := false }
    hub := { s.hub with counters :=
      if parking then (s.hub.counters.bump .switches).bump .suspensions else s.hub.counters.bump .switches }
    pool := s.pool.setSlot previous
      (if parking then { slot with suspended := true } else { slot with free := true }) }

structure OnRun (s : System κ μ ρ) (worker : Nat) (w : Worker) (fiber : Nat) (run : Run κ μ ρ) : Prop where
  alive : s.aborted = false
  here : s.workers[worker]? = some w
  stage : w.stage = .running
  current : w.current = some fiber
  run : s.run? fiber = some run

structure OnLoop (s : System κ μ ρ) (worker : Nat) (w : Worker) (fiber : Nat) : Prop where
  alive : s.aborted = false
  here : s.workers[worker]? = some w
  stage : w.stage = .running
  current : w.current = some fiber
  run : s.run? fiber = none

theorem OnRun.unique {w w' : Worker} {fiber fiber' : Nat} {run run' : Run κ μ ρ}
    (hon : OnRun s worker w fiber run) (hon' : OnRun s worker w' fiber' run') :
      w' = w ∧ fiber' = fiber ∧ run' = run := by
  obtain rfl := Option.some.inj (hon'.here.symm.trans hon.here)
  obtain rfl := Option.some.inj (hon'.current.symm.trans hon.current)
  obtain rfl := Option.some.inj (hon'.run.symm.trans hon.run)
  exact ⟨rfl, rfl, rfl⟩

theorem OnLoop.not_onRun {w w' : Worker} {fiber fiber' : Nat} {run : Run κ μ ρ}
    (hon : OnLoop s worker w fiber) :
    ¬OnRun s worker w' fiber' run := fun hon' => by
  obtain rfl := Option.some.inj (hon'.here.symm.trans hon.here)
  obtain rfl := Option.some.inj (hon'.current.symm.trans hon.current)
  cases hon'.run.symm.trans hon.run

/-! ## Parts of steps -/

theorem gives_modifyWorker {w : Worker} {f : Worker → Worker} (hw : s.workers[worker]? = some w) :
    (modifyWorker worker f : Act ρ (System κ μ ρ) Unit).Gives s () (s.setWorker worker (f w)) := by
  refine ⟨rfl, ?_⟩
  show { s with workers := s.workers.modify worker f } = s.setWorker worker (f w)
  rw [modify_eq_set f hw]
  rfl

theorem gives_onPool {α : Type} {x : Act ρ FiberPool α} {a : α} {pool : FiberPool}
    (hx : x.Gives s.pool a pool) : (onPool x : Act ρ (System κ μ ρ) α).Gives s a (s.setPool pool) :=
  hx.zoom

theorem gives_onHub {α : Type} {x : Act ρ (Hub κ) α} {a : α} {hub : Hub κ} (hx : x.Gives s.hub a hub) :
    (onHub x : Act ρ (System κ μ ρ) α).Gives s a (s.setHub hub) :=
  hx.zoom

theorem gives_bump (s : System κ μ ρ) (counter : Counter) :
    (onHub (Hub.bump counter) : Act ρ (System κ μ ρ) Unit).Gives s ()
    (s.setHub { s.hub with counters := s.hub.counters.bump counter }) :=
  ⟨rfl, rfl⟩

theorem gives_mode (s : System κ μ ρ) : (mode : Act ρ (System κ μ ρ) Mode).Gives s s.hub.mode s :=
  ⟨rfl, rfl⟩

theorem getElem?_setWorker {w : Worker} (hw : s.workers[worker]? = some w) (new : Worker) (i : Nat) :
    (s.setWorker worker new).workers[i]? = if worker = i then some new else s.workers[i]? :=
  getElem?_set new hw i

theorem setSlot_self {pool : FiberPool} {fiber : Nat} {slot : Slot} (hx : pool.slots[fiber]? = some slot) :
    pool.setSlot fiber slot = pool := by
  rw [FiberPool.setSlot, set_self hx]

section
variable {w : Worker} {previous next : Nat} {old : Slot} (hold : s.pool.slots[previous]? = some old)
  (hfree : old.free = false) (hctx : old.context = .context previous) (hne : next ≠ previous)
include hold hfree hctx hne

theorem gives_settle {parking : Bool}
    (hw : s.workers[worker]? = some { w with previous := some previous, parking, current := some next }) :
    (settle worker next previous parking : Act ρ (System κ μ ρ) Unit).Gives s ()
      (s.switched worker w previous old next parking) := by
  have hsame : ({ old with context := .context previous } : Slot) = old := by rw [← hctx]
  have hupdate :
      (FiberPool.update previous (.context previous) : Act ρ FiberPool Unit).Gives s.pool () s.pool := by
    have := FiberPool.gives_update (ρ := ρ) hold (.context previous)
    rwa [hsame, setSlot_self hold] at this
  let s₁ := s.setWorker worker { w with previous := none, parking, current := some next }
  let s₂ := s₁.setHub { s.hub with counters := s.hub.counters.bump .switches }
  have hw₁ : s₁.workers[worker]? = some { w with previous := none, parking, current := some next } :=
    (getElem?_setWorker hw _ worker).trans (if_pos rfl)
  unfold settle
  refine (gives_modifyWorker hw).bind
    ((gives_bump s₁ .switches).bind (Gives.bind (t := s₂) (gives_onPool hupdate) ?_))
  cases parking with
  | true =>
    rw [if_pos rfl]
    refine (gives_modifyWorker (s := s₂) hw₁).bind ?_
    have hfinish := FiberPool.gives_finishSuspend (ρ := ρ) hold
    refine Gives.bind (gives_onPool hfinish) ?_
    have := gives_bump ((s₂.setWorker worker
      { w with previous := none, parking := false, current := some next }).setPool
      (s.pool.setSlot previous { old with suspended := true })) .suspensions
    refine this.ends ⟨rfl, ?_⟩
    simp [setWorker, setPool, setHub, switched, s₂, s₁]
  | false =>
    rw [if_neg (by decide)]
    refine (gives_mode s₂).bind ?_
    have hrun : Handle.context next ≠ old.context := by
      rw [hctx]
      exact fun he => hne (by cases he; rfl)
    have hrelease := FiberPool.gives_release (ρ := ρ) hold s.hub.mode hrun hfree
    refine Gives.ends (gives_onPool hrelease) ⟨rfl, ?_⟩
    simp [setWorker, setPool, setHub, switched, s₂, s₁]

/-- A switch leaves the old fiber parked or free, and nothing to be cleaned up. -/
theorem gives_switchTo {new : Slot} (hw : s.workers[worker]? = some w) (hnew : s.pool.slots[next]? = some new)
    (hnewFree : new.free = false) (parking : Bool) :
    (switchTo worker previous next parking : Act ρ (System κ μ ρ) Unit).Gives s ()
      (s.switched worker w previous old next parking) := by
  let s₁ := s.setWorker worker { w with previous := some previous, parking, current := some next }
  have hw₁ : s₁.workers[worker]? = _ := (getElem?_setWorker hw _ worker).trans (if_pos rfl)
  unfold switchTo
  refine (gives_modifyWorker hw).bind ((gives_mode s₁).bind ?_)
  have hentry :
      (discard (onPool (FiberPool.entry s.hub.mode next)) : Act ρ (System κ μ ρ) Unit).Gives s₁ () s₁ :=
    have hcontext := FiberPool.gives_entry (ρ := ρ) hnew s.hub.mode hnewFree
    (ends_discard _ _).mpr (Gives.ends (gives_onPool hcontext) ⟨rfl, rfl⟩)
  refine hentry.bind ?_
  refine (gives_settle (s := s₁) hold hfree hctx hne hw₁).ends ⟨rfl, ?_⟩
  simp [setWorker, switched, s₁]

end

theorem ends_rentFiber (hsized : s.pool.Sized) {Q : Except Fault (Option Nat) → System κ μ ρ → Prop}
    (hfound : ∀ fiber slot, s.pool.InTier false fiber → s.pool.slots[fiber]? = some slot → slot.free = true →
      ∀ seed, Q (.ok (some fiber)) (s.setPool
        ((s.pool.seeded seed).setSlot fiber { slot with free := false })))
    (hnone : (∀ fiber, s.pool.InTier false fiber → s.pool.isFree fiber = false) →
      ∀ seed, Q (.ok none) { s.setPool (s.pool.seeded seed) with aborted := true }) :
    (rentFiber : Act ρ (System κ μ ρ) (Option Nat)).Ends s Q := by
  unfold rentFiber
  refine (gives_mode s).bind_ends ((ends_bind _ _ _).mpr ?_)
  refine (ends_zoom _ _ _).mpr ((FiberPool.ends_rent s.hub.mode hsized false).mono fun r pool hr => ?_)
  cases hr with
  | found htier hx hfree seed => exact hfound _ _ htier hx hfree seed
  | exhausted hall seed => exact hnone hall seed

/-! ## Turns -/

/-- What one step of a worker does. -/
inductive Turn (body : κ → Program κ μ ρ Unit) (s : System κ μ ρ) (worker : Nat) :
    System κ μ ρ → List (Deed κ μ ρ) → Prop
  | rest (hno : ∀ w fiber run, ¬OnRun s worker w fiber run)
      (hidle : ∀ w fiber, OnLoop s worker w fiber →
        w.handoff = none ∧ s.hub.lanes.take (s.hub.crew.sources worker) = none) : Turn body s worker s []
  | exhausted (hno : ∀ w fiber run, OnRun s worker w fiber run → ¬run.rest.Over)
      (hall : ∀ fiber, s.pool.InTier false fiber → s.pool.isFree fiber = false) (seed : UInt32)
      (hloop : ∀ w fiber, ¬OnLoop s worker w fiber) :
      Turn body s worker { s.setPool (s.pool.seeded seed) with aborted := true } []
  | started {w : Worker} {fiber : Nat} {slot : Slot} (hw : s.workers[worker]? = some w)
      (hstage : w.stage = .starting) (htier : s.pool.InTier false fiber)
      (hx : s.pool.slots[fiber]? = some slot) (hfree : slot.free = true) (seed : UInt32) :
      Turn body s worker ((s.setPool ((s.pool.seeded seed).setSlot fiber
        { slot with free := false })).setWorker worker
        { w with stage := .running, current := some fiber, previous := none }) []
  /-- One action of a body: a call, a wait that is over, or a request that fails. -/
  | went {w : Worker} {fiber : Nat} {run run' : Run κ μ ρ} {s' : System κ μ ρ}
      {queued : Option (Nat × Option Nat)} {action : Action κ μ ρ} (hon : OnRun s worker w fiber run)
      (hjob : run'.job = run.job) (hcalled : Called s s' queued) (hdoes : run.rest.Step action run'.rest)
      (hsource : (∃ c next, run.rest = .call c next ∧ s' = (perform (some worker) run.held c s).state ∧
          run'.held = match (perform (some worker) run.held c s).result with
            | .ok answer => c.settle answer run.held
            | .error _ => run.held) ∨ s' = s ∧ run'.held = run.held) :
      Turn body s worker (s'.putRun fiber (some run')) (acceptances queued ++ [.acted run.job action])
  | parked {w : Worker} {fiber next group : Nat} {run : Run κ μ ρ} {rest : Program κ μ ρ Unit} {state : Group}
      {slot old : Slot} (hon : OnRun s worker w fiber run) (hrest : run.rest = .wait group rest)
      (hheld : group ∈ run.held) (hs : s.hub.groups.get? group = some state) (hcount : state.count ≠ 0)
      (htier : s.pool.InTier false next) (hx : s.pool.slots[next]? = some slot) (hfree : slot.free = true)
      (hold : s.pool.slots[fiber]? = some old) (seed : UInt32) :
      Turn body s worker (((s.setPool ((s.pool.seeded seed).setSlot next { slot with free := false })).setHub
        (s.hub.withParked group state fiber w.priority w.affinity)).switched worker w fiber old next true)
        [.parked fiber group w.priority w.affinity]
  | ended {w : Worker} {fiber : Nat} {run : Run κ μ ρ} {record : Job κ} {panic : Option Fault} {hub : Hub κ}
      (hon : OnRun s worker w fiber run) (hover : run.rest.Over) (hrec : s.hub.jobs[run.job]? = some record)
      (hend : (Hub.endRun (workerName worker) run.job run.held panic : Act ρ (Hub κ) Unit).Gives s.hub
        () hub) :
      Turn body s worker ((s.putRun fiber none).setHub hub) [.ended run.job record.completion]
  | died {w : Worker} {fiber : Nat} {run : Run κ μ ρ} {record : Job κ} {panic : Option Fault} {fault : Fault}
      {hub : Hub κ} (hon : OnRun s worker w fiber run) (hover : run.rest.Over)
      (hrec : s.hub.jobs[run.job]? = some record)
      (hend : (Hub.endRun (workerName worker) run.job run.held panic : Act ρ (Hub κ) Unit).Ends s.hub
        fun r h => r = .error fault ∧ h = hub) :
      Turn body s worker (((s.putRun fiber none).setHub hub).setWorker worker { w with stage := .dead }) []
  /-- A run begins, of a job just fetched or of one passed on. -/
  | began {w w' : Worker} {fiber job : Nat} {record : Job κ} {lanes : Lanes} (hon : OnLoop s worker w fiber)
      (hrec : s.hub.jobs[job]? = some record)
      (hway : (w.handoff = some job ∧ w' = { w with handoff := none } ∧ lanes = s.hub.lanes) ∨
        ∃ p a, w.handoff = none ∧ s.hub.lanes.take (s.hub.crew.sources worker) = some (.job job p a, lanes) ∧
          w' = { w with priority := p, affinity := a } ∧
            (record.extended = true → s.pool.isExtended fiber = true)) :
      Turn body s worker (((s.setHub ({ s.hub with lanes }.setJob job
        { record with started := true })).setWorker worker w').putRun
        fiber (some ⟨job, [], bodyOf body record⟩)) [.began job]
  | passed {w : Worker} {fiber next job : Nat} {p : Priority} {a : Affinity} {lanes : Lanes} {slot old : Slot}
      (hon : OnLoop s worker w fiber) (hno : w.handoff = none)
      (htake : s.hub.lanes.take (s.hub.crew.sources worker) = some (.job job p a, lanes))
      (hneeds : s.hub.needsExtended job = true) (hnormal : s.pool.isExtended fiber = false)
      (htier : s.pool.InTier true next) (hx : s.pool.slots[next]? = some slot) (hfree : slot.free = true)
      (hold : s.pool.slots[fiber]? = some old) (seed : UInt32) :
      Turn body s worker (((s.setPool ((s.pool.seeded seed).setSlot next { slot with free := false })).setHub
        { s.hub with lanes }).switched worker
        { w with priority := p, affinity := a, handoff := some job } fiber old next false) []
  | returned {w : Worker} {fiber job : Nat} {p : Priority} {a : Affinity} {lanes lanes' : Lanes}
      (hon : OnLoop s worker w fiber) (hno : w.handoff = none)
      (htake : s.hub.lanes.take (s.hub.crew.sources worker) = some (.job job p a, lanes))
      (hneeds : s.hub.needsExtended job = true) (hnormal : s.pool.isExtended fiber = false)
      (hall : ∀ fiber, s.pool.InTier true fiber → s.pool.isFree fiber = false)
      (hput : lanes.pushJob job p a = .ok lanes') (seed : UInt32) :
      Turn body s worker (((s.setPool (s.pool.seeded seed)).setHub
        { s.hub with lanes := lanes' }).setWorker worker { w with priority := p, affinity := a }) []
  | resumed {w : Worker} {fiber : Nat} {ready : Ready} {lanes : Lanes} {slot old : Slot}
      (hon : OnLoop s worker w fiber) (hno : w.handoff = none)
      (htake : s.hub.lanes.take (s.hub.crew.sources worker) = some (.fiber ready, lanes))
      (hx : s.pool.slots[ready.fiber]? = some slot) (hold : s.pool.slots[fiber]? = some old) :
      Turn body s worker (((s.setPool (s.pool.setSlot ready.fiber { slot with suspended := false })).setHub
        { s.hub with lanes }).switched worker
        { w with priority := ready.priority, affinity := ready.affinity } fiber old
        ready.fiber false) [.resumed ready.fiber]
  | left {w : Worker} {fiber : Nat} {old : Slot} (hon : OnLoop s worker w fiber) (hno : w.handoff = none)
      (hidle : s.hub.lanes.take (s.hub.crew.sources worker) = none) (hexit : s.hub.shouldExit = true)
      (hold : s.pool.slots[fiber]? = some old) :
      Turn body s worker ((s.setWorker worker { w with stage := .left, current := none }).setPool
        (s.pool.setSlot fiber { old with free := true })) []

end FiberScheduler.System
