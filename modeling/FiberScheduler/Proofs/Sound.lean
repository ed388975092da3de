import FiberScheduler.Proofs.Answers
import FiberScheduler.Proofs.Renting

/-!
# Sound systems

Where the fibers and the jobs of a system are, and what holds of them between the
moves of every run.
-/

namespace FiberScheduler.System

variable {κ μ ρ : Type}

/-! ## Views -/

def currents (s : System κ μ ρ) : List Nat :=
  gather (·.current.toList) s.workers

def handoffs (s : System κ μ ρ) : List Nat :=
  gather (·.handoff.toList) s.workers

def jobOf (run : Option (Run κ μ ρ)) : List Nat :=
  (run.map (·.job)).toList

def runJobs (s : System κ μ ρ) : List Nat :=
  gather jobOf s.runs

/-- The accepted jobs that have not begun: queued, or passed on. -/
def unbegun (s : System κ μ ρ) : List Nat :=
  s.hub.lanes.queued ++ s.handoffs

/-- The accepted jobs that have not ended: queued, passed on, running or parked. -/
def pending (s : System κ μ ρ) : List Nat :=
  s.unbegun ++ s.runJobs

/-- How often a fiber is free, run by a worker, parked, or in a queue. -/
def places (s : System κ μ ρ) (fiber : Nat) : Nat :=
  (if s.pool.isFree fiber then 1 else 0) + s.currents.count fiber + s.hub.idle.count fiber

def deaths (s : System κ μ ρ) : List Unit :=
  gather (fun w => if w.stage = .dead then [()] else []) s.workers

/-! ## Soundness -/

structure Shape (s : System κ μ ρ) : Prop where
  crew : s.hub.crew.size = s.workers.size
  lanes : s.hub.lanes.own.size = s.workers.size
  links : s.hub.links.size = s.pool.slots.size
  runs : s.runs.size = s.pool.slots.size
  pool : s.pool.Sized
  staffed : 0 < s.workers.size ∧ s.workers.size < wordSize 32
  context : ∀ (fiber : Nat) (slot : Slot), s.pool.slots[fiber]? = some slot → slot.context = .context fiber

structure Spots (s : System κ μ ρ) : Prop where
  place : ∀ fiber, s.places fiber ≤ 1
  inside : ∀ fiber, 0 < s.places fiber → fiber < s.pool.slots.size
  nowhere : ∀ fiber, fiber < s.pool.slots.size → s.places fiber = 0 → (s.run? fiber).isSome
  unused : ∀ fiber, s.pool.isFree fiber = true → s.run? fiber = none
  unfinished : ∀ fiber ∈ s.hub.idle, (s.run? fiber).isSome
  suspended : ∀ fiber ∈ s.hub.idle, ∀ slot, s.pool.slots[fiber]? = some slot → slot.suspended = true

structure Fits (s : System κ μ ρ) (w : Worker) : Prop where
  away : w.stage = .starting ∨ w.stage = .left → w.current = none
  at_work : w.stage = .running → w.current.isSome
  handoff : w.handoff.isSome → w.stage = .running ∧ ∀ fiber, w.current = some fiber → s.run? fiber = none
  lane : s.hub.lanes.Has w.affinity

structure Tally (s : System κ μ ρ) : Prop where
  once : ∀ job, s.pending.count job ≤ if s.hub.isScheduled job then 1 else 0
  cleared : s.hub.Cleared
  limit : s.hub.jobs.size < Hub.recordLimit
  active : s.hub.active = UInt64.ofNat (s.pending.length + s.deaths.length)
  left : (∃ i, s.stageOf i = some .left) → s.hub.stopping = true ∧ s.pending = [] ∧ s.deaths = []

structure Sound (s : System κ μ ρ) : Prop extends Shape s, Spots s, Tally s where
  tidy : s.hub.Tidy
  worker : ∀ (i : Nat) (w : Worker), s.workers[i]? = some w → Fits s w

section
variable {s : System κ μ ρ}

theorem run?_eq_some_iff {fiber : Nat} {run : Run κ μ ρ} :
    s.run? fiber = some run ↔ s.runs[fiber]? = some (some run) := by
  unfold run?
  rcases s.runs[fiber]? with _ | _ | r <;> simp

theorem Tally.pending_once (h : Tally s) (job : Nat) : s.pending.count job ≤ 1 :=
  Nat.le_trans (h.once job) (by split <;> omega)

theorem Tally.nodup_pending (h : Tally s) : s.pending.Nodup :=
  List.nodup_iff_count.mpr h.pending_once

theorem Tally.not_mem_of_perm (h : Tally s) {job : Nat} {others : List Nat}
    (hp : s.pending.Perm (job :: others)) : job ∉ others :=
  (List.nodup_cons.mp (hp.nodup_iff.mp h.nodup_pending)).1

theorem mem_currents {fiber : Nat} :
    fiber ∈ s.currents ↔ ∃ (i : Nat) (w : Worker), s.workers[i]? = some w ∧ w.current = some fiber := by
  simp only [currents, mem_gather, Option.mem_toList]

namespace Sound

variable (h : s.Sound)
include h

theorem fit : Fit s.hub :=
  ⟨h.tidy, h.cleared, Hub.served_of_size (h.lanes.trans h.crew.symm)⟩

theorem record {job : Nat} (hj : job ∈ s.pending) :
    ∃ record, s.hub.jobs[job]? = some record ∧ record.scheduled = true := by
  have hle := h.once job
  have hpos := List.count_pos_iff.mpr hj
  rw [Hub.isScheduled] at hle
  cases hr : s.hub.jobs[job]? with
  | none => rw [hr] at hle; simp at hle; omega
  | some record =>
    refine ⟨record, rfl, ?_⟩
    cases hs : record.scheduled with
    | true => rfl
    | false => rw [hr] at hle; simp [hs] at hle; omega

theorem slot_of_place {fiber : Nat} (hp : 0 < s.places fiber) : ∃ slot, s.pool.slots[fiber]? = some slot :=
  ⟨_, Array.getElem?_eq_getElem (h.inside fiber hp)⟩

theorem of_current {i fiber : Nat} {w : Worker} (hw : s.workers[i]? = some w) (hc : w.current = some fiber) :
    0 < s.currents.count fiber ∧ s.pool.isFree fiber = false ∧ fiber ∉ s.hub.idle := by
  have hcur : 0 < s.currents.count fiber := List.count_pos_iff.mpr (mem_currents.mpr ⟨i, w, hw, hc⟩)
  have hp := h.place fiber
  unfold places at hp
  refine ⟨hcur, ?_, fun hm => ?_⟩
  · cases hf : s.pool.isFree fiber with
    | false => rfl
    | true => rw [hf] at hp; simp at hp; omega
  · have := List.count_pos_iff.mpr hm
    omega

theorem of_idle {fiber : Nat} (hm : fiber ∈ s.hub.idle) :
    s.hub.idle.count fiber = 1 ∧ s.currents.count fiber = 0 ∧ s.pool.isFree fiber = false := by
  have hpos := List.count_pos_iff.mpr hm
  have hp := h.place fiber
  unfold places at hp
  refine ⟨by omega, by omega, ?_⟩
  cases hf : s.pool.isFree fiber with
  | false => rfl
  | true => rw [hf] at hp; simp at hp; omega

theorem of_free {fiber : Nat} (hf : s.pool.isFree fiber = true) :
    s.currents.count fiber = 0 ∧ fiber ∉ s.hub.idle := by
  have hp := h.place fiber
  unfold places at hp
  rw [hf, if_pos rfl] at hp
  exact ⟨by omega, fun hm => by have := List.count_pos_iff.mpr hm; omega⟩

end Sound

end

end FiberScheduler.System
