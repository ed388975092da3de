import FiberScheduler.System.Lifecycle
import FiberScheduler.Proofs.Rollback

/-!
# What acts do not see

The number of panics is counted and read by nobody but callers who ask for it, and the
bodies of runs are looked at by nobody but the worker that runs them. So every act of the
scheduler does the same whatever these are.
-/

namespace FiberScheduler

variable {κ μ ρ α : Type}

namespace Act

variable {σ τ β : Type} {f : σ → σ} {x : Act ρ σ α}

/-- An act that does the same before and after a change of the state, and keeps it. -/
def Respects (f : σ → σ) (x : Act ρ σ α) : Prop :=
  ∀ s, x (f s) = ⟨(x s).result, f (x s).state, (x s).log⟩

theorem respects_pure (f : σ → σ) (a : α) : (pure a : Act ρ σ α).Respects f := fun _ => rfl

theorem respects_fail (f : σ → σ) (fault : Fault) : (fail fault : Act ρ σ α).Respects f := fun _ => rfl

theorem respects_note (f : σ → σ) (notice : Notice) : (note notice : Act ρ σ Unit).Respects f := fun _ => rfl

theorem respects_report (f : σ → σ) (r : ρ) : (report r : Act ρ σ Unit).Respects f := fun _ => rfl

theorem respects_lift (f : σ → σ) (x : Except Fault α) : (lift x : Act ρ σ α).Respects f := fun _ => rfl

theorem respects_modify {g : σ → σ} (hg : ∀ s, g (f s) = f (g s)) : (modify g : Act ρ σ Unit).Respects f := by
  intro s
  rw [modify_apply, hg]
  rfl

theorem Respects.bind {k : α → Act ρ σ β} (hx : x.Respects f) (hk : ∀ a, (k a).Respects f) :
    (x >>= k).Respects f := by
  intro s
  have hs := hx s
  rcases h : x s with ⟨fault | a, t, log⟩
  · rw [h] at hs
    rw [bind_of_error _ hs, bind_of_error _ h]
  · rw [h] at hs
    rw [bind_of_ok _ hs, bind_of_ok _ h, hk a t]

theorem respects_get_bind {k : σ → Act ρ σ α} (hsame : ∀ s, k (f s) = k s) (hk : ∀ s, (k s).Respects f) :
    (get >>= k).Respects f := by
  intro s
  show k (f s) (f s) = _
  rw [hsame]
  exact hk s s

theorem Respects.discard (hx : x.Respects f) : (Functor.discard x).Respects f :=
  Respects.bind (k := fun _ => pure ()) hx fun _ => respects_pure f ()

theorem Respects.attempt (hx : x.Respects f) : x.attempt.Respects f := by
  intro s
  show (match x (f s) with | ⟨result, t, log⟩ => (⟨.ok result, t, log⟩ : Outcome ρ σ (Except Fault α))) = _
  rw [hx s]
  rfl

theorem Respects.zoom {view : σ → τ} {put : σ → τ → σ} {f' : τ → τ} {x : Act ρ τ α}
    (hview : ∀ s, view (f s) = f' (view s)) (hput : ∀ s t, put (f s) (f' t) = f (put s t))
    (hx : x.Respects f') : (zoom view put x).Respects f := by
  intro s
  show (match x (view (f s)) with | ⟨result, t, log⟩ => (⟨result, put (f s) t, log⟩ : Outcome ρ σ α)) = _
  rw [hview, hx]
  show (⟨_, put (f s) (f' _), _⟩ : Outcome ρ σ α) = _
  rw [hput]
  rfl

theorem respects_zoom {view : σ → τ} {put : σ → τ → σ} (hview : ∀ s, view (f s) = view s)
    (hput : ∀ s t, put (f s) t = f (put s t)) (x : Act ρ τ α) : (Act.zoom view put x).Respects f :=
  Respects.zoom hview hput (show x.Respects id from fun _ => rfl)

theorem Respects.forM {k : α → Act ρ σ Unit} {xs : List α} (hk : ∀ a ∈ xs, (k a).Respects f) :
    (xs.forM k : Act ρ σ PUnit).Respects f := by
  induction xs with
  | nil => exact respects_pure f _
  | cons a xs ih =>
    have hrest := ih fun b hb => hk b (List.mem_cons_of_mem a hb)
    exact (hk a List.mem_cons_self).bind fun _ => hrest

theorem respects_blame (f : σ → σ) (mode : Mode) (notice : Notice) (fault : Fault) :
    (blame mode notice fault : Act ρ σ Unit).Respects f := by
  refine (respects_note f notice).bind fun _ => ?_
  cases mode with
  | strict => exact respects_fail f fault
  | lenient => exact respects_pure f ()

end Act

namespace Hub

open Act

variable (n : UInt64)

def withPanics (h : Hub κ) : Hub κ :=
  { h with counters := { h.counters with panicked := n } }

/-! ## Acts on groups -/

theorem respects_onGroups (x : Act ρ (BlockPool Group) α) :
    (onGroups x : Act ρ (Hub κ) α).Respects (withPanics n) :=
  respects_zoom (fun _ => by rfl) (fun _ _ => by rfl) x

theorem newGroup_respects : (newGroup : Act ρ (Hub κ) (Except Refusal Nat)).Respects (withPanics n) := by
  refine (respects_onGroups n _).bind fun made => ?_
  cases made with
  | some g => exact respects_pure _ _
  | none =>
    refine respects_get_bind (fun _ => rfl) fun h => ?_
    exact (respects_note _ _).bind fun _ => respects_pure _ _

theorem group_respects (g : Nat) : (group g : Act ρ (Hub κ) Group).Respects (withPanics n) :=
  respects_onGroups n _

theorem cloneGroup_respects (g : Nat) : (cloneGroup g : Act ρ (Hub κ) Unit).Respects (withPanics n) :=
  (group_respects n g).discard.bind fun _ => respects_onGroups n _

theorem dropGroup_respects (g : Nat) : (dropGroup g : Act ρ (Hub κ) Unit).Respects (withPanics n) := by
  refine (group_respects n g).bind fun s => (respects_onGroups n _).bind fun _ => ?_
  by_cases hlast : s.handles = 1
  · rw [if_pos hlast]
    exact respects_get_bind (fun _ => rfl) fun h => (respects_onGroups n _).discard
  · rw [if_neg hlast]
    exact respects_pure _ _

theorem dropGroups_respects (gs : List Nat) : (dropGroups gs : Act ρ (Hub κ) Unit).Respects (withPanics n) :=
  Respects.forM fun g _ => dropGroup_respects n g

theorem makeReady_respects (fiber : Nat) :
    (makeReady fiber : Act ρ (Hub κ) Unit).Respects (withPanics n) := by
  refine respects_get_bind (fun _ => rfl) fun h => ?_
  cases h.links[fiber]? with
  | none => exact respects_fail _ _
  | some link => exact (respects_lift _ _).bind fun lanes => respects_modify fun _ => by rfl

theorem wake_respects (g : Nat) : (wake g : Act ρ (Hub κ) Unit).Respects (withPanics n) := by
  refine (group_respects n g).bind fun s => (respects_onGroups n _).bind fun _ => ?_
  exact respects_get_bind (fun _ => rfl) fun h => Respects.forM fun fiber _ => makeReady_respects n fiber

theorem releaseGroup_respects (g : Nat) (units : Int32) :
    (releaseGroup g units : Act ρ (Hub κ) Unit).Respects (withPanics n) := by
  refine (group_respects n g).bind fun s => ?_
  by_cases hover : s.count < units
  · rw [if_pos hover]
    exact respects_get_bind (fun _ => rfl) fun h => respects_blame _ _ _ _
  · rw [if_neg hover]
    refine (respects_onGroups n _).bind fun _ => ?_
    by_cases hlast : s.count = units
    · rw [if_pos hlast]
      exact wake_respects n g
    · rw [if_neg hlast]
      exact respects_pure _ _

theorem addGroup_respects (g : Nat) (units : Int32) :
    (addGroup g units : Act ρ (Hub κ) Unit).Respects (withPanics n) := by
  unfold addGroup
  by_cases hpos : 0 < units
  · rw [if_pos hpos]
    exact (group_respects n g).discard.bind fun _ => respects_onGroups n _
  · rw [if_neg hpos]
    by_cases hneg : units < 0
    · rw [if_pos hneg]
      exact releaseGroup_respects n g _
    · rw [if_neg hneg]
      exact respects_pure _ _

theorem park_respects (g fiber : Nat) (p : Priority) (a : Affinity) :
    (park g fiber p a : Act ρ (Hub κ) Unit).Respects (withPanics n) :=
  (group_respects n g).bind fun _ => (respects_modify fun _ => by rfl).bind fun _ => respects_onGroups n _

theorem signalAndDrop_respects (g : Nat) : (signalAndDrop g : Act ρ (Hub κ) Unit).Respects (withPanics n) :=
  (releaseGroup_respects n g 1).attempt.bind fun result => (dropGroup_respects n g).bind fun _ =>
    respects_lift _ result

/-! ## Acts on jobs and queues -/

theorem modifyJob_respects (job : Nat) (f : Job κ → Job κ) :
    (modifyJob job f : Act ρ (Hub κ) Unit).Respects (withPanics n) :=
  respects_modify fun _ => by rfl

theorem addRecord_respects (job : Job κ) : (addRecord job : Act ρ (Hub κ) Nat).Respects (withPanics n) := by
  refine respects_get_bind (fun _ => rfl) fun h => ?_
  by_cases hroom : h.jobs.size + 1 < recordLimit
  · rw [if_pos hroom]
    exact (respects_modify fun _ => by rfl).bind fun _ => respects_pure _ _
  · rw [if_neg hroom]
    exact respects_fail _ _

theorem claim_respects (job : Nat) :
    (claim job : Act ρ (Hub κ) (Except Refusal Unit)).Respects (withPanics n) := by
  refine respects_get_bind (fun _ => rfl) fun h => ?_
  cases h.jobs[job]? with
  | none => exact respects_fail _ _
  | some record =>
    dsimp only
    by_cases hpending : record.scheduled = true
    · rw [if_pos hpending]
      exact (respects_blame _ _ _ _).bind fun _ => respects_pure _ _
    · rw [if_neg hpending]
      exact (modifyJob_respects n job _).bind fun _ => respects_pure _ _

theorem track_respects (job g : Nat) : (track job g : Act ρ (Hub κ) Unit).Respects (withPanics n) := by
  refine (addGroup_respects n g 1).bind fun _ => (cloneGroup_respects n g).bind fun _ => ?_
  refine respects_get_bind (fun _ => rfl) fun h => (modifyJob_respects n job _).bind fun _ => ?_
  cases (h.jobs[job]?).bind (·.completion) with
  | none => exact respects_pure _ _
  | some old => exact dropGroup_respects n old

theorem complete_respects (job : Nat) : (complete job : Act ρ (Hub κ) (Option Nat)).Respects (withPanics n) :=
  respects_get_bind (fun _ => rfl) fun _ => (modifyJob_respects n job _).bind fun _ => respects_pure _ _

theorem startBody_respects (job : Nat) : (startBody job : Act ρ (Hub κ) (Option κ)).Respects (withPanics n) :=
  respects_get_bind (fun _ => rfl) fun _ => (modifyJob_respects n job _).bind fun _ => respects_pure _ _

theorem bump_respects (counter : Counter) (hc : counter ≠ .panicked) :
    (bump counter : Act ρ (Hub κ) Unit).Respects (withPanics n) := by
  refine respects_modify fun h => ?_
  cases counter with
  | panicked => exact absurd rfl hc
  | submitted | executed | switches | suspensions => rfl

theorem requeue_respects (job : Nat) (p : Priority) (a : Affinity) :
    (requeue job p a : Act ρ (Hub κ) Unit).Respects (withPanics n) :=
  respects_get_bind (fun _ => rfl) fun _ => (respects_lift _ _).bind fun _ => respects_modify fun _ => by rfl

theorem push_respects (job : Nat) (p : Priority) (a : Affinity) :
    (push job p a : Act ρ (Hub κ) (Except Refusal Unit)).Respects (withPanics n) := by
  refine respects_get_bind (fun _ => rfl) fun h => ?_
  cases h.checkAffinity a with
  | error refusal => exact respects_pure _ _
  | ok _ =>
    dsimp only
    by_cases hneeds : (h.needsExtended job && !h.extendedFibers) = true
    · rw [if_pos hneeds]
      exact respects_pure _ _
    · rw [if_neg hneeds]
      by_cases hover : h.active = 0 ∧ h.stopping = true
      · rw [if_pos hover]
        exact respects_pure _ _
      · rw [if_neg hover]
        refine (respects_modify fun _ => by rfl).bind fun _ =>
          (bump_respects n .submitted (by decide)).bind fun _ => ?_
        exact (requeue_respects n job p a).bind fun _ => respects_pure _ _

theorem onHub_respects {x : Act ρ (Hub κ) α} (hx : x.Respects (withPanics n)) :
    (Hub.scheduler.onHub x).Respects (withPanics n) :=
  Respects.zoom (fun _ => by rfl) (fun _ _ => by rfl) hx

theorem offer_respects (job : Nat) (p : Priority) (a : Affinity) {undo : Nat → Act ρ (Hub κ) Unit}
    (hundo : ∀ g, (undo g).Respects (withPanics n)) :
    (Hub.scheduler.offer job p a undo).Respects (withPanics n) := by
  refine Respects.bind (push_respects n job p a) fun pushed => ?_
  cases pushed with
  | ok _ => exact respects_pure _ _
  | error refusal =>
    refine (onHub_respects n (complete_respects n job)).bind fun group => ?_
    cases group with
    | none => exact respects_pure _ _
    | some g => exact (hundo g).bind fun _ => respects_pure _ _

theorem addJob_respects (job : Nat) (p : Priority) (a : Affinity) :
    (Hub.scheduler.addJob job p a : Act ρ (Hub κ) (Except Refusal Unit)).Respects (withPanics n) := by
  refine (onHub_respects n (claim_respects n job)).bind fun claimed => ?_
  cases claimed with
  | error refusal => exact respects_pure _ _
  | ok _ => exact offer_respects n job p a fun g => onHub_respects n (dropGroup_respects n g)

theorem schedule_respects (job : Nat) (group : Option Nat) (p : Priority) (a : Affinity) :
    (Hub.scheduler.schedule job group p a : Act ρ (Hub κ) (Except Refusal Unit)).Respects (withPanics n) := by
  refine (onHub_respects n (claim_respects n job)).bind fun claimed => ?_
  cases claimed with
  | error refusal => exact respects_pure _ _
  | ok _ =>
    have hoffer := offer_respects n job p a fun g =>
      onHub_respects n (signalAndDrop_respects (ρ := ρ) (κ := κ) n g)
    cases group with
    | none => exact hoffer
    | some g => exact (onHub_respects n (track_respects n job g)).bind fun _ => hoffer

theorem spawn_respects (code : κ) (group : Option Nat) (p : Priority) (a : Affinity) :
    (Hub.scheduler.spawn code group p a : Act ρ (Hub κ) (Except Refusal Unit)).Respects (withPanics n) := by
  refine (onHub_respects n (addRecord_respects n _)).bind fun job =>
    (schedule_respects n job group p a).bind fun answer => ?_
  cases answer with
  | ok _ => exact respects_pure _ _
  | error refusal =>
    exact (onHub_respects n (respects_modify fun _ => by rfl)).bind fun _ => respects_pure _ _

/-! ## The end of a run -/

def wrapUp (job : Nat) : Act ρ (Hub κ) Unit := do
  if let some g ← complete job then signalAndDrop g
  jobFinished

theorem wrapUp_respects (job : Nat) : (wrapUp job : Act ρ (Hub κ) Unit).Respects (withPanics n) := by
  refine (complete_respects n job).bind fun group => ?_
  cases group with
  | none => exact respects_modify fun _ => by rfl
  | some g => exact (signalAndDrop_respects n g).bind fun _ => respects_modify fun _ => by rfl

theorem endRun_respects (worker : String) (job : Nat) (held : List Nat) :
    (endRun worker job held none : Act ρ (Hub κ) Unit).Respects (withPanics n) :=
  (dropGroups_respects n held).bind fun _ => (bump_respects n .executed (by decide)).bind fun _ =>
    wrapUp_respects n job

end Hub

/-! ## Systems -/

namespace System

open Act

variable (n : UInt64) (runs : Array (Option (Run κ μ ρ)))

def recast (s : System κ μ ρ) : System κ μ ρ :=
  { s with hub := s.hub.withPanics n, runs }

theorem onHub_respects {x : Act ρ (Hub κ) α} (hx : x.Respects (Hub.withPanics n)) :
    (onHub x : Act ρ (System κ μ ρ) α).Respects (recast n runs) :=
  Respects.zoom (fun _ => by rfl) (fun _ _ => by rfl) hx

theorem onPool_respects (x : Act ρ FiberPool α) :
    (onPool x : Act ρ (System κ μ ρ) α).Respects (recast n runs) :=
  respects_zoom (fun _ => by rfl) (fun _ _ => by rfl) x

theorem mode_respects : (mode : Act ρ (System κ μ ρ) Mode).Respects (recast n runs) :=
  respects_get_bind (fun _ => by rfl) fun _ => respects_pure _ _

theorem modifyWorker_respects (worker : Nat) (f : Worker → Worker) :
    (modifyWorker worker f : Act ρ (System κ μ ρ) Unit).Respects (recast n runs) :=
  respects_modify fun _ => by rfl

theorem modifyKept_respects (f : List Nat → List Nat) :
    (modifyKept f : Act ρ (System κ μ ρ) Unit).Respects (recast n runs) :=
  respects_modify fun _ => by rfl

theorem bump_respects (counter : Counter) (hc : counter ≠ .panicked) :
    (onHub (Hub.bump counter) : Act ρ (System κ μ ρ) Unit).Respects (recast n runs) :=
  onHub_respects n runs (Hub.bump_respects n counter hc)

/-! ## Switching fibers -/

theorem rentFiber_respects : (rentFiber : Act ρ (System κ μ ρ) (Option Nat)).Respects (recast n runs) := by
  refine (mode_respects n runs).bind fun mode => (onPool_respects n runs _).bind fun rented => ?_
  cases rented with
  | some fiber => exact respects_pure _ _
  | none =>
    refine respects_get_bind (fun _ => by rfl) fun s => (respects_note _ _).bind fun _ => ?_
    exact (respects_modify fun _ => by rfl).bind fun _ => respects_pure _ _

theorem settle_respects (worker fiber previous : Nat) (parking : Bool) :
    (settle worker fiber previous parking : Act ρ (System κ μ ρ) Unit).Respects (recast n runs) := by
  refine (modifyWorker_respects n runs worker _).bind fun _ =>
    (bump_respects n runs .switches (by decide)).bind fun _ => ?_
  refine (onPool_respects n runs _).bind fun _ => ?_
  cases parking with
  | true =>
    refine (modifyWorker_respects n runs worker _).bind fun _ => (onPool_respects n runs _).bind fun _ => ?_
    exact bump_respects n runs .suspensions (by decide)
  | false => exact (mode_respects n runs).bind fun _ => onPool_respects n runs _

theorem switchTo_respects (worker previous next : Nat) (parking : Bool) :
    (switchTo worker previous next parking : Act ρ (System κ μ ρ) Unit).Respects (recast n runs) := by
  refine (modifyWorker_respects n runs worker _).bind fun _ => (mode_respects n runs).bind fun _ => ?_
  exact (onPool_respects n runs _).discard.bind fun _ => settle_respects n runs worker next previous parking

theorem park_respects (worker fiber group : Nat) :
    (park worker fiber group : Act ρ (System κ μ ρ) Unit).Respects (recast n runs) := by
  refine (rentFiber_respects n runs).bind fun rented => ?_
  cases rented with
  | none => exact respects_pure _ _
  | some next =>
    refine respects_get_bind (fun _ => by rfl) fun s => ?_
    cases s.workers[worker]? with
    | none => exact respects_pure _ _
    | some w =>
      refine (onHub_respects n runs (Hub.park_respects n group fiber _ _)).bind fun _ =>
        (onPool_respects n runs _).bind fun _ => ?_
      exact switchTo_respects n runs worker fiber next true

/-! ## The scheduling loop -/

theorem start_respects (worker : Nat) :
    (start worker : Act ρ (System κ μ ρ) Unit).Respects (recast n runs) := by
  refine (rentFiber_respects n runs).bind fun rented => ?_
  cases rented with
  | none => exact respects_pure _ _
  | some fiber => exact modifyWorker_respects n runs worker _

theorem leave_respects (worker fiber : Nat) :
    (leave worker fiber : Act ρ (System κ μ ρ) Unit).Respects (recast n runs) := by
  refine (modifyWorker_respects n runs worker _).bind fun _ => (onPool_respects n runs _).bind fun _ => ?_
  exact (mode_respects n runs).bind fun _ => onPool_respects n runs _

theorem resume_respects (worker fiber : Nat) (ready : Ready) (lanes : Lanes) :
    (resume worker fiber ready lanes : Act ρ (System κ μ ρ) Unit).Respects (recast n runs) := by
  refine (onPool_respects n runs _).bind fun taken => ?_
  cases taken with
  | false => exact respects_pure _ _
  | true =>
    refine (onHub_respects n runs (respects_modify fun _ => by rfl)).bind fun _ => ?_
    exact (modifyWorker_respects n runs worker _).bind fun _ =>
      switchTo_respects n runs worker fiber ready.fiber false

theorem pass_respects (worker fiber job : Nat) (p : Priority) (a : Affinity) : (do
    match ← onPool (FiberPool.rent (← mode) true) with
    | none => onHub (Hub.requeue job p a)
    | some extended =>
      modifyWorker worker fun w => { w with handoff := some job }
      switchTo worker fiber extended false : Act ρ (System κ μ ρ) Unit).Respects (recast n runs) := by
  refine (mode_respects n runs).bind fun _ => (onPool_respects n runs _).bind fun rented => ?_
  cases rented with
  | none => exact onHub_respects n runs (Hub.requeue_respects n job p a)
  | some extended =>
    exact (modifyWorker_respects n runs worker _).bind fun _ =>
    switchTo_respects n runs worker fiber extended false

/-! ## Calls -/

theorem answer_respects (worker : Option Nat) {c : Call κ μ ρ} (hc : c ≠ .counters) :
    (answer worker c).Respects (recast n runs) := by
  cases c with
  | newGroup => exact onHub_respects n runs (Hub.newGroup_respects n)
  | cloneGroup g => exact onHub_respects n runs (Hub.cloneGroup_respects n g)
  | dropGroup g => exact onHub_respects n runs (Hub.dropGroup_respects n g)
  | giveGroup g => exact modifyKept_respects n runs _
  | takeGroup g => exact modifyKept_respects n runs (·.erase g)
  | add g units => exact onHub_respects n runs (Hub.addGroup_respects n g units)
  | count g => exact onHub_respects n runs ((Hub.group_respects n g).bind fun _ => respects_pure _ _)
  | schedule job group p a => exact onHub_respects n runs (Hub.schedule_respects n job group p a)
  | addJob job p a => exact onHub_respects n runs (Hub.addJob_respects n job p a)
  | isScheduled job => exact respects_get_bind (fun _ => by rfl) fun _ => respects_pure _ _
  | spawn code group p a => exact onHub_respects n runs (Hub.spawn_respects n code group p a)
  | place => exact respects_get_bind (fun _ => by rfl) fun _ => respects_pure _ _
  | counters => exact absurd rfl hc
  | report r => exact respects_report _ r
  | access f =>
    exact respects_get_bind (fun _ => by rfl) fun _ => (respects_modify fun _ => by rfl).bind fun _ =>
    respects_pure _ _

theorem perform_respects (worker : Option Nat) (held : List Nat) {c : Call κ μ ρ} (hc : c ≠ .counters) :
    (perform worker held c).Respects (recast n runs) := by
  refine respects_get_bind (fun _ => by rfl) fun s => ?_
  by_cases hpermits : c.permits held s.kept = true
  · rw [if_pos hpermits]
    exact answer_respects n runs worker hc
  · rw [if_neg hpermits]
    exact respects_fail _ _

theorem access_respects (held : List Nat) (group : Nat) :
    (access held group : Act ρ (System κ μ ρ) Group).Respects (recast n runs) := by
  unfold access
  by_cases hheld : held.contains group = true
  · rw [if_pos hheld]
    exact onHub_respects n runs (Hub.group_respects n group)
  · rw [if_neg hheld]
    exact respects_fail _ _

theorem close_respects : (close : Act ρ (System κ μ ρ) (Except Refusal Unit)).Respects (recast n runs) := by
  refine respects_get_bind (fun _ => by rfl) fun s => ?_
  refine (Respects.forM fun worker _ => respects_note _ _).bind fun _ => ?_
  have hrest : (do
      onPool FiberPool.drop
      if s.dead.isEmpty then return .ok () else return .error (.workersPanicked s.dead.length) :
      Act ρ (System κ μ ρ) (Except Refusal Unit)).Respects (recast n runs) := by
    refine (onPool_respects n runs _).bind fun _ => ?_
    by_cases hdead : s.dead.isEmpty = true
    · rw [if_pos hdead]
      exact respects_pure _ _
    · rw [if_neg hdead]
      exact respects_pure _ _
  by_cases hrented : (s.dead.isEmpty && s.pool.freeCount != s.pool.capacity) = true
  · rw [if_pos hrented]
    exact (respects_note _ _).bind fun _ => hrest
  · rw [if_neg hrented]
    exact hrest

end System

end FiberScheduler
