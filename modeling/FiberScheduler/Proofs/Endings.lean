import FiberScheduler.Proofs.Calls
import FiberScheduler.Proofs.Handles

/-!
# The end of a run

What ending a run does to the hub. Everything up to the signal of the group may fail,
and then the run does not give its slot back.
-/

namespace FiberScheduler.Hub

open Act

variable {ρ κ : Type} {h h' : Hub κ} {job : Nat} {record : Job κ} {worker : String} {held : List Nat}
  {panic : Option Fault}

def closed (record : Job κ) : Job κ :=
  { record with completion := none, scheduled := false }

/-- How a run ends: whole, or in a fault before its job has given back its slot. -/
structure Ending (h h' : Hub κ) (job : Nat) (record : Job κ) (r : Except Fault Unit) : Prop where
  calm : Calm h h'
  queued : h'.lanes.queued = h.lanes.queued
  whole : r = .ok () → h'.jobs = h.jobs.setIfInBounds job (closed record) ∧ h'.active = h.active - 1
  cut : r ≠ .ok () → (h'.jobs = h.jobs ∨ h'.jobs = h.jobs.setIfInBounds job (closed record)) ∧
    h'.active = h.active

def finish (worker : String) (job : Nat) (panic : Option Fault) : Act ρ (Hub κ) Unit := do
  bump .executed
  if let some fault := panic then
    bump .panicked
    Act.note (.jobPanicked worker fault.message)
  if let some g ← complete job then signalAndDrop g
  jobFinished

theorem endRun_eq : (endRun worker job held panic : Act ρ (Hub κ) Unit) =
    (dropGroups held >>= fun _ => finish worker job panic) := rfl

theorem ends_finished (x : Act ρ (Hub κ) Unit) (Q : Except Fault Unit → Hub κ → Prop) :
    (x >>= fun _ => jobFinished).Ends h Q ↔ x.Ends h fun r h' => match r with
      | .ok () => Q (.ok ()) { h' with active := h'.active - 1 }
      | .error fault => Q (.error fault) h' := by
  rw [ends_bind]
  unfold Ends
  rcases x h with ⟨fault | _, t, log⟩ <;> rfl

def counted (c : Counters) (panic : Option Fault) : Counters :=
  match panic with
  | some _ => (c.bump .executed).bump .panicked
  | none => c.bump .executed

theorem ends_finish (hrec : h.jobs[job]? = some record) (Q : Except Fault Unit → Hub κ → Prop) :
    (finish worker job panic : Act ρ (Hub κ) Unit).Ends h Q ↔
      (withdraw record.completion : Act ρ (Hub κ) Unit).Ends
        (({ h with counters := counted h.counters panic } : Hub κ).setJob job (closed record))
        fun r h' => match r with
          | .ok () => Q (.ok ()) { h' with active := h'.active - 1 }
          | .error fault => Q (.error fault) h' := by
  have hrec' : ({ h with counters := counted h.counters panic } : Hub κ).jobs[job]? = some record := hrec
  have hrest : (do
      if let some g ← complete job then signalAndDrop g
      jobFinished : Act ρ (Hub κ) Unit).Ends { h with counters := counted h.counters panic } Q ↔
      (withdraw record.completion : Act ρ (Hub κ) Unit).Ends
        (({ h with counters := counted h.counters panic } : Hub κ).setJob job (closed record))
        fun r h' => match r with
          | .ok () => Q (.ok ()) { h' with active := h'.active - 1 }
          | .error fault => Q (.error fault) h' := by
    rw [ends_bind, ends_complete hrec', after_ok]
    cases record.completion with
    | none => rfl
    | some g => exact ends_finished (signalAndDrop g) Q
  cases panic with
  | none =>
    simp only [finish, bump, ends_bind, ends_modify, after_ok]
    exact hrest
  | some fault =>
    simp only [finish, bump, ends_bind, ends_modify, ends_note, after_ok]
    exact hrest

section
variable (ht : h.Tidy) (hrec : h.jobs[job]? = some record)
include ht hrec

theorem ends_finish_ending :
    (finish worker job panic : Act ρ (Hub κ) Unit).Ends h fun r h' => Ending h h' job record r := by
  rw [ends_finish hrec]
  have hcalm := (Calm.of_lanes
    (({ h with counters := counted h.counters panic } : Hub κ).setJob job (closed record))
    ht rfl rfl rfl).1
  refine (withdraw_steady hcalm.tidy record.completion).mono fun r h' hst => ?_
  cases r with
  | error fault =>
    refine ⟨hcalm.trans hst.calm, hst.queued, (fun h => by cases h),
      fun _ => ⟨Or.inr ?_, ?_⟩⟩ <;> rw [hst.rest] <;> rfl
  | ok _ =>
    have hlast := (Calm.of_lanes { h' with active := h'.active - 1 } hst.tidy rfl rfl rfl).1
    refine ⟨(hcalm.trans hst.calm).trans hlast, hst.queued, fun _ => ⟨?_, ?_⟩, fun h => absurd rfl h⟩
    · show h'.jobs = _
      rw [hst.rest]; rfl
    · show h'.active - 1 = _
      rw [hst.rest]; rfl

theorem ends_endRun :
    (endRun worker job held panic : Act ρ (Hub κ) Unit).Ends h fun r h' => Ending h h' job record r := by
  rw [endRun_eq, ends_bind]
  refine (dropGroups_steady ht held).mono fun r h₁ hst => ?_
  have hjobs : h₁.jobs = h.jobs := by rw [hst.rest]
  have hactive : h₁.active = h.active := by rw [hst.rest]
  cases r with
  | error fault =>
    exact ⟨hst.calm, hst.queued, (fun h => by cases h), fun _ => ⟨Or.inl hjobs, hactive⟩⟩
  | ok _ =>
    rw [after_ok]
    refine (ends_finish_ending hst.tidy (hjobs.symm ▸ hrec)).mono fun r h' hend => ?_
    have hwhole := hend.whole
    have hcut := hend.cut
    rw [hjobs, hactive] at hwhole hcut
    exact ⟨hst.calm.trans hend.calm, hend.queued.trans hst.queued, hwhole, hcut⟩

end

end FiberScheduler.Hub
