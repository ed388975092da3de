import FiberScheduler.Scheduler
import FiberScheduler.Proofs.Groups

/-!
# Submitting jobs

A submission claims the job, lets its group count the run, and queues it. The ways it
can end, as explicit states.
-/

namespace FiberScheduler.Hub

open Act

variable {ρ κ : Type} {h h' : Hub κ} {job : Nat} {record : Job κ} {group : Option Nat} {p : Priority}
  {a : Affinity}

def setJob (h : Hub κ) (job : Nat) (record : Job κ) : Hub κ :=
  { h with jobs := h.jobs.setIfInBounds job record }

def Cleared (h : Hub κ) : Prop :=
  ∀ (j : Nat) (record : Job κ), h.jobs[j]? = some record → record.scheduled = false → record.completion = none

def enroll (h : Hub κ) : Option Nat → Hub κ
  | none => h
  | some g => match h.groups.get? g with
    | some s => h.store g (some ⟨s.count + 1, s.handles + 1, s.head⟩) h.groups.free
    | none => h

def withdraw : Option Nat → Act ρ (Hub κ) Unit
  | none => pure ()
  | some g => signalAndDrop g

inductive Scheduled (ρ : Type) (h : Hub κ) (job : Nat) (group : Option Nat) (p : Priority) (a : Affinity) :
    Except Fault (Except Refusal Unit) → Hub κ → Prop
  | declined {r : Except Fault (Except Refusal Unit)} (hr : r ≠ .ok (.ok ())) :
      Scheduled ρ h job group p a r h
  | stuck {record : Job κ} {fault : Fault} (hrec : h.jobs[job]? = some record)
      (hfree : record.scheduled = false) (hdead : ∃ g, group = some g ∧ h.groups.get? g = none) :
      Scheduled ρ h job group p a (.error fault) (h.setJob job { record with scheduled := true })
  | refused {record : Job κ} {r : Except Fault (Except Refusal Unit)} (hrec : h.jobs[job]? = some record)
      (hfree : record.scheduled = false) (hr : r ≠ .ok (.ok ()))
      (hlive : ∀ g, group = some g → ∃ s, h.groups.get? g = some s) :
      Scheduled ρ h job group p a r ((withdraw group : Act ρ (Hub κ) Unit) (h.enroll group)).state
  | accepted {record : Job κ} {lanes : Lanes} (hrec : h.jobs[job]? = some record)
      (hfree : record.scheduled = false) (hlive : ∀ g, group = some g → ∃ s, h.groups.get? g = some s)
      (hopen : ¬(h.active = 0 ∧ h.stopping = true)) (hlanes : h.lanes.pushJob job p a = .ok lanes) :
      Scheduled ρ h job group p a (.ok (.ok ()))
        { (h.enroll group).setJob job { record with scheduled := true, completion := group } with
          lanes, active := h.active + 1, counters := h.counters.bump .submitted }

theorem setJob_setJob (h : Hub κ) (job : Nat) (a b : Job κ) :
    (h.setJob job a).setJob job b = h.setJob job b := by
  simp [setJob]

theorem store_setJob (h : Hub κ) (job : Nat) (record : Job κ) (g : Nat) (o : Option Group) (free : List Nat) :
    (h.setJob job record).store g o free = (h.store g o free).setJob job record := rfl

theorem setJob_self (hrec : h.jobs[job]? = some record) : h.setJob job record = h := by
  rw [setJob, set_self hrec]

section
variable (hrec : h.jobs[job]? = some record)
include hrec

theorem ends_modifyJob (f : Job κ → Job κ) (Q : Except Fault Unit → Hub κ → Prop) :
    (modifyJob job f : Act ρ (Hub κ) Unit).Ends h Q ↔ Q (.ok ()) (h.setJob job (f record)) := by
  rw [modifyJob, ends_modify, modify_eq_set f hrec]
  rfl

theorem ends_complete (Q : Except Fault (Option Nat) → Hub κ → Prop) :
    (complete job : Act ρ (Hub κ) (Option Nat)).Ends h Q ↔
    Q (.ok record.completion) (h.setJob job { record with completion := none, scheduled := false }) := by
  simp only [complete, ends_bind, ends_get, after_ok, ends_modifyJob hrec, ends_pure, hrec, Option.bind_some]

theorem gives_startBody : (startBody job : Act ρ (Hub κ) (Option κ)).Gives h
    (if record.spent then none else some record.code) (h.setJob job { record with started := true }) := by
  unfold Gives
  simp only [startBody, ends_bind, ends_get, after_ok, hrec, ends_modifyJob hrec, ends_pure, Option.bind_some,
    and_self]

theorem getElem?_setJob (new : Job κ) (j : Nat) :
    (h.setJob job new).jobs[j]? = if job = j then some new else h.jobs[j]? :=
  getElem?_set new hrec j

end

theorem ends_claim (Q : Except Fault (Except Refusal Unit) → Hub κ → Prop)
    (hmissing : ∀ fault, h.jobs[job]? = none → Q (.error fault) h)
    (htwice : ∀ r, r ≠ .ok (.ok ()) → Q r h)
    (hfree : ∀ record, h.jobs[job]? = some record → record.scheduled = false →
      Q (.ok (.ok ())) (h.setJob job { record with scheduled := true })) :
    (claim job : Act ρ (Hub κ) (Except Refusal Unit)).Ends h Q := by
  simp only [claim, ends_bind, ends_get, after_ok]
  cases hrec : h.jobs[job]? with
  | none => exact hmissing _ hrec
  | some record =>
    dsimp only
    cases hs : record.scheduled with
    | false =>
      rw [if_neg (by decide), ends_bind, ends_modifyJob hrec]
      exact hfree record hrec hs
    | true =>
      rw [if_pos rfl, ends_bind, ends_blame]
      cases h.mode with
      | strict => exact htwice (.error .alreadyScheduled) (by simp)
      | lenient => exact htwice (.ok (.error .alreadyScheduled)) (by simp)

theorem ends_track {g : Nat} (hrec : h.jobs[job]? = some record) (hnone : record.completion = none)
    (Q : Except Fault Unit → Hub κ → Prop)
    (hdead : ∀ fault, h.groups.get? g = none → Q (.error fault) h)
    (hlive : ∀ s, h.groups.get? g = some s →
      Q (.ok ()) ((h.enroll (some g)).setJob job { record with completion := some g })) :
    (track job g : Act ρ (Hub κ) Unit).Ends h Q := by
  have hone : (0 : Int32) < 1 := by decide
  simp only [track, ends_bind]
  cases hs : h.groups.get? g with
  | none =>
    simp only [addGroup, if_pos hone, ends_bind, ends_discard]
    exact ends_group_dead hs fun fault => hdead fault hs
  | some s =>
    have hs' : (h.store g (some { s with count := s.count + 1 }) h.groups.free).groups.get? g =
        some { s with count := s.count + 1 } := by
      rw [get?_store (block_of_get? hs), if_pos rfl]
    rw [ends_addGroup hs, if_pos hone, after_ok, ends_bind, ends_cloneGroup hs', after_ok, store_store,
      show (h.store g (some { s with count := s.count + 1 }) h.groups.free).groups.free =
        h.groups.free from rfl]
    have hrec' :
      (h.store g (some ⟨s.count + 1, s.handles + 1, s.head⟩) h.groups.free).jobs[job]? = some record := hrec
    have hdone := hlive s hs
    rw [enroll, hs] at hdone
    simp only [ends_bind, ends_get, after_ok]
    rw [ends_modifyJob hrec', after_ok, hrec', Option.bind_some, hnone]
    exact hdone

def Served (h : Hub κ) : Prop :=
  ∀ a, h.crew.serves a = true → h.lanes.Has a

theorem served_of_size (hsize : h.lanes.own.size = h.crew.size) : h.Served := by
  intro a ha
  cases a with
  | worker i =>
    obtain ⟨worker, hw, hcan⟩ := List.any_eq_true.mp ha
    rw [Lanes.has_worker, hsize, (by simpa [Crew.canRun] using hcan : i = worker)]
    exact List.mem_range.mp hw
  | _ => rfl

theorem ends_push (hserved : h.Served) (Q : Except Fault (Except Refusal Unit) → Hub κ → Prop)
    (hrefused : ∀ refusal, Q (.ok (.error refusal)) h)
    (haccepted : ∀ lanes, ¬(h.active = 0 ∧ h.stopping = true) → h.lanes.pushJob job p a = .ok lanes →
      Q (.ok (.ok ())) { h with lanes, active := h.active + 1, counters := h.counters.bump .submitted }) :
    (push job p a : Act ρ (Hub κ) (Except Refusal Unit)).Ends h Q := by
  simp only [push, ends_bind, ends_get, after_ok]
  unfold checkAffinity
  by_cases hserves : h.crew.serves a = true
  · rw [if_pos hserves]
    dsimp only
    rw [ends_ite]
    split
    · exact hrefused _
    · rw [ends_ite]
      split
      · exact hrefused _
      · rename_i hopen
        have hpush := Lanes.pushJob_of_has (hserved a hserves) job p
        simp only [bump, requeue, ends_bind, ends_modify, after_ok, ends_get, ends_lift, hpush, ends_pure]
        exact haccepted _ hopen hpush
  · rw [if_neg hserves]
    exact hrefused _

theorem enroll_rest (h : Hub κ) (group : Option Nat) :
    h.enroll group = { h with groups := (h.enroll group).groups } := by
  cases group with
  | none => rfl
  | some g => simp only [enroll]; split <;> rfl

theorem active_enroll (h : Hub κ) (group : Option Nat) : (h.enroll group).active = h.active := by
  rw [enroll_rest]

theorem counters_enroll (h : Hub κ) (group : Option Nat) : (h.enroll group).counters = h.counters := by
  rw [enroll_rest]

section
variable (hcleared : h.Cleared) (hserved : h.Served)
include hcleared hserved

theorem ends_offer (hrec : h.jobs[job]? = some record) (hfree : record.scheduled = false) (group : Option Nat)
    (hlive : ∀ g, group = some g → ∃ s, h.groups.get? g = some s) (p : Priority) (a : Affinity) :
    (do
      match ← push job p a with
      | .ok () => return .ok ()
      | .error refusal =>
        if let some g ← Act.zoom id (fun _ h => h) (complete job) then
          Act.zoom id (fun _ h => h) (signalAndDrop g)
        return .error refusal : Act ρ (Hub κ) (Except Refusal Unit)).Ends
      ((h.enroll group).setJob job { record with scheduled := true, completion := group })
      (Scheduled ρ h job group p a) := by
  have hrest := enroll_rest h group
  have hrec₁ : (h.enroll group).jobs[job]? = some record := by rw [hrest]; exact hrec
  have hrec₂ := (getElem?_setJob hrec₁ { record with scheduled := true, completion := group } job).trans
    (if_pos rfl)
  have hserved₂ :
      ((h.enroll group).setJob job { record with scheduled := true, completion := group }).Served := by
    rw [hrest]; exact hserved
  rw [ends_bind]
  refine ends_push hserved₂ _ (fun refusal => ?_) fun lanes hopen hlanes => ?_
  · have hundone : ({ record with scheduled := false, completion := none } : Job κ) = record := by
      rw [← hfree, ← hcleared job record hrec hfree]
    rw [after_ok]
    dsimp only
    rw [ends_bind, ends_zoom, id, ends_complete hrec₂, after_ok, setJob_setJob, hundone, setJob_self hrec₁]
    cases group with
    | none => exact Scheduled.refused hrec hfree (by simp) (fun _ hg => by cases hg)
    | some g =>
      dsimp only
      rw [ends_bind, ends_zoom, id]
      have hstate : ∀ {r : Except Fault (Except Refusal Unit)}, r ≠ .ok (.ok ()) →
        Scheduled ρ h job (some g) p a r
          ((withdraw (some g) : Act ρ (Hub κ) Unit) (h.enroll (some g))).state :=
            fun hr => .refused hrec hfree hr hlive
      rw [withdraw] at hstate
      unfold Ends
      generalize (signalAndDrop g (h.enroll (some g)) : Outcome ρ (Hub κ) Unit) = o at hstate ⊢
      obtain ⟨fault | _, t, log⟩ := o
      · exact hstate (by simp)
      · exact hstate (by simp)
  · have hopen : ¬(h.active = 0 ∧ h.stopping = true) := by rw [hrest] at hopen; exact hopen
    have hlanes : h.lanes.pushJob job p a = .ok lanes := by rw [hrest] at hlanes; exact hlanes
    have hdone : Scheduled ρ h job group p a (.ok (.ok ())) _ := .accepted hrec hfree hlive hopen hlanes
    rw [← active_enroll h group, ← counters_enroll h group] at hdone
    exact hdone

theorem ends_schedule (job : Nat) (group : Option Nat) (p : Priority) (a : Affinity) :
    (scheduler.schedule job group p a : Act ρ (Hub κ) (Except Refusal Unit)).Ends h
    (Scheduled ρ h job group p a) := by
  simp only [Scheduler.schedule, Scheduler.onHub, scheduler, ends_bind, ends_zoom, id]
  refine ends_claim _ (fun fault _ => .declined (by simp)) (fun r hr => ?_) fun record hrec hfree => ?_
  · rcases r with fault | refusal | _
    · exact .declined hr
    · exact .declined hr
    · exact absurd rfl hr
  · rw [after_ok]
    cases group with
    | none =>
      have := ends_offer (ρ := ρ) hcleared hserved hrec hfree none (fun _ hg => by cases hg) p a
      rwa [show ({ record with scheduled := true, completion := none } : Job κ) =
        { record with scheduled := true } by
        rw [← hcleared job record hrec hfree]] at this
    | some g =>
      dsimp only
      rw [ends_bind, ends_zoom, id]
      have hrec' := (getElem?_setJob hrec { record with scheduled := true } job).trans (if_pos rfl)
      refine ends_track hrec' (hcleared job record hrec hfree) _ (fun fault hdead => ?_) fun s hs => ?_
      · exact .stuck hrec hfree ⟨g, rfl, hdead⟩
      · have hoffer := ends_offer (ρ := ρ) hcleared hserved hrec hfree (some g)
          (fun k hk => ⟨s, by rw [← Option.some.inj hk]; exact hs⟩) p a
        have hs₀ : h.groups.get? g = some s := hs
        simp only [enroll, hs₀] at hoffer
        simp only [enroll, hs]
        rw [store_setJob, setJob_setJob]
        exact hoffer

theorem ends_addJob (job : Nat) (p : Priority) (a : Affinity) :
    (scheduler.addJob job p a : Act ρ (Hub κ) (Except Refusal Unit)).Ends h (Scheduled ρ h job none p a) := by
  simp only [Scheduler.addJob, Scheduler.onHub, scheduler, ends_bind, ends_zoom, id]
  refine ends_claim _ (fun fault _ => .declined (by simp)) (fun r hr => ?_) fun record hrec hfree => ?_
  · rcases r with fault | refusal | _
    · exact .declined hr
    · exact .declined hr
    · exact absurd rfl hr
  · rw [after_ok]
    dsimp only
    rw [ends_bind]
    have hnone := hcleared job record hrec hfree
    have hrec₂ := (getElem?_setJob hrec { record with scheduled := true } job).trans (if_pos rfl)
    refine ends_push (h := h.setJob job { record with scheduled := true }) hserved _ (fun refusal => ?_)
      fun lanes hopen hlanes => ?_
    · have hundone : ({ record with scheduled := false, completion := none } : Job κ) = record := by
        rw [← hfree, ← hnone]
      rw [after_ok]
      dsimp only
      rw [ends_bind, ends_zoom, id, ends_complete hrec₂, after_ok, setJob_setJob, hundone,
        setJob_self hrec, hnone]
      exact .declined (by simp)
    · have hdone : Scheduled ρ h job none p a (.ok (.ok ())) _ :=
        .accepted hrec hfree (fun _ hg => by cases hg) hopen hlanes
      rwa [show ({ record with scheduled := true, completion := none } : Job κ) =
        { record with scheduled := true } by
        rw [← hnone]] at hdone

end

/-- How the submission of a fresh job ends: like that of a job with a new record, which
is forgotten again where the job is refused. -/
inductive Spawned (ρ : Type) (h : Hub κ) (code : κ) (group : Option Nat) (p : Priority) (a : Affinity) :
    Except Fault (Except Refusal Unit) → Hub κ → Prop
  | full {fault : Fault} : Spawned ρ h code group p a (.error fault) h
  | kept {r : Except Fault (Except Refusal Unit)} {h' : Hub κ} (hr : ∀ refusal, r ≠ .ok (.error refusal))
      (hlimit : h.jobs.size + 1 < recordLimit)
      (hs : Scheduled ρ { h with jobs := h.jobs.push (.new code false true) } h.jobs.size group p a r h') :
      Spawned ρ h code group p a r h'
  | forgotten {refusal : Refusal} {h' : Hub κ} (hlimit : h.jobs.size + 1 < recordLimit)
      (hs : Scheduled ρ { h with jobs := h.jobs.push (.new code false true) } h.jobs.size group p a
        (.ok (.error refusal)) h') :
      Spawned ρ h code group p a (.ok (.error refusal)) { h' with jobs := h'.jobs.pop }

theorem ends_addRecord (record : Job κ) (Q : Except Fault Nat → Hub κ → Prop) :
    (addRecord record : Act ρ (Hub κ) Nat).Ends h Q ↔
      if h.jobs.size + 1 < recordLimit then Q (.ok h.jobs.size) { h with jobs := h.jobs.push record }
      else Q (.error .capacityOverflow) h := by
  simp only [addRecord, ends_bind, ends_get, after_ok, ends_ite, ends_modify, ends_pure, ends_fail]

theorem Cleared.push (hcleared : h.Cleared) (record : Job κ) (hnew : record.completion = none) :
    ({ h with jobs := h.jobs.push record } : Hub κ).Cleared := by
  intro j r hr hfree
  dsimp only at hr
  rw [Array.getElem?_push] at hr
  by_cases hj : j = h.jobs.size
  · rw [if_pos hj] at hr
    rw [← Option.some.inj hr]; exact hnew
  · rw [if_neg hj] at hr
    exact hcleared j r hr hfree

theorem ends_spawn (hcleared : h.Cleared) (hserved : h.Served) (code : κ) (group : Option Nat) (p : Priority)
    (a : Affinity) :
    (scheduler.spawn code group p a : Act ρ (Hub κ) (Except Refusal Unit)).Ends h
    (Spawned ρ h code group p a) := by
  unfold Scheduler.spawn
  rw [ends_bind]
  show ((addRecord (.new code false true) : Act ρ (Hub κ) Nat).Ends h _)
  rw [ends_addRecord]
  split
  · rename_i hlimit
    rw [after_ok, ends_bind]
    refine (ends_schedule (hcleared.push (.new code false true) rfl) hserved h.jobs.size group p a).mono
      fun r h' hs => ?_
    rcases r with fault | refusal | _
    · exact .kept (by simp) hlimit hs
    · exact .forgotten hlimit hs
    · exact .kept (by simp) hlimit hs
  · exact .full

end FiberScheduler.Hub
