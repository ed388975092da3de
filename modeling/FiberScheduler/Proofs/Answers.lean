import FiberScheduler.Proofs.Endings
import FiberScheduler.Proofs.Moves

/-!
# Calls on a system

A call of a body or from outside reaches the hub, the memory and the handles that are
kept, and nothing else of a system.
-/

namespace FiberScheduler.System

open Act

variable {κ μ ρ : Type} {s s' : System κ μ ρ} {worker : Option Nat} {held : List Nat}

structure Fit (h : Hub κ) : Prop where
  tidy : h.Tidy
  cleared : h.Cleared
  served : h.Served

structure Called (s s' : System κ μ ρ) (queued : Option (Nat × Option Nat)) : Prop where
  rest : s' = { s with hub := s'.hub, kept := s'.kept, memory := s'.memory }
  effect : Hub.Effect s.hub s'.hub queued

theorem Called.refl (hfit : Fit s.hub) : Called s s none :=
  ⟨rfl, (Hub.Steady.refl hfit.tidy).effect hfit.cleared⟩

theorem accepted_error (fresh : Nat) (c : Call κ μ ρ) (fault : Fault) :
    c.accepted fresh (.error fault) = none := by
  cases c <;> rfl

theorem answer_called (hfit : Fit s.hub) (worker : Option Nat) (c : Call κ μ ρ) :
    (answer worker c).Ends s fun r s' => Called s s' (c.accepted s.hub.jobs.size r) := by
  have hhub : ∀ {α : Type} {x : Act ρ (Hub κ) α} {f : Except Fault α → Option (Nat × Option Nat)},
      x.Ends s.hub (fun r h' => Hub.Effect s.hub h' (f r)) →
      (onHub x : Act ρ (System κ μ ρ) α).Ends s fun r s' => Called s s' (f r) := fun hx => ⟨rfl, hx⟩
  obtain ⟨ht, hcleared, hserved⟩ := hfit
  cases c with
  | newGroup => exact hhub ((Hub.newGroup_steady ht).mono fun _ _ hst => hst.1.effect hcleared)
  | cloneGroup g => exact hhub ((Hub.cloneGroup_steady ht g).mono fun _ _ hst => hst.1.effect hcleared)
  | dropGroup g => exact hhub ((Hub.dropGroup_steady ht g).mono fun _ _ hst => hst.effect hcleared)
  | add g n => exact hhub ((Hub.addGroup_steady ht g n).mono fun _ _ hst => hst.1.effect hcleared)
  | count g =>
    refine hhub (f := fun _ => none) ?_
    rw [ends_bind]
    have hsame := (Hub.Steady.refl ht).effect hcleared
    cases hs : s.hub.groups.get? g with
    | none => exact Hub.ends_group_dead hs fun _ => hsame
    | some t => rw [Hub.ends_group hs]; exact hsame
  | schedule job group p a =>
    exact hhub ((Hub.ends_schedule hcleared hserved job group p a).mono fun _ _ hs => hs.effect ht hcleared)
  | addJob job p a =>
    exact hhub ((Hub.ends_addJob hcleared hserved job p a).mono fun _ _ hs => hs.effect ht hcleared)
  | spawn code group p a =>
    exact hhub ((Hub.ends_spawn hcleared hserved code group p a).mono fun _ _ hs => hs.effect ht hcleared)
  | giveGroup | takeGroup | isScheduled | place | counters | report | access =>
    exact ⟨rfl, (Hub.Steady.refl ht).effect hcleared⟩

section
variable {c : Call κ μ ρ} {Q : Except Fault c.Answer → System κ μ ρ → Prop}

theorem perform_of_answer (hrefused : Q (.error .malformed) s)
    (hanswer : c.permits held s.kept = true → (answer worker c).Ends s Q) :
    (perform worker held c).Ends s Q := by
  simp only [perform, ends_bind, ends_get, after_ok, ends_ite]
  split
  · exact hanswer ‹_›
  · exact hrefused

/-- A call from outside does what the call does, but for the handles that are kept. -/
theorem ask_of_perform (hkept : ∀ r t kept, Q r t → Q r { t with kept })
    (hends : (perform none s.kept c).Ends s Q) : (ask c).Ends s Q := by
  simp only [ask, ends_bind, ends_get, after_ok]
  refine hends.mono fun r t ht => ?_
  cases r with
  | error fault => exact ht
  | ok answer => exact hkept _ _ _ ht

end

theorem perform_called (hfit : Fit s.hub) (worker : Option Nat) (held : List Nat) (c : Call κ μ ρ) :
    (perform worker held c).Ends s fun r s' => Called s s' (c.accepted s.hub.jobs.size r) := by
  refine perform_of_answer ?_ fun _ => answer_called hfit worker c
  rw [accepted_error]
  exact .refl hfit

theorem ask_called (hfit : Fit s.hub) (c : Call κ μ ρ) :
    (ask c).Ends s fun r s' => Called s s' (c.accepted s.hub.jobs.size r) := by
  refine ask_of_perform (fun r t kept hc => ?_) (perform_called hfit none s.kept c)
  exact ⟨by rw [hc.rest], hc.effect⟩

/-! ## Records -/

theorem record_rest (s : System κ μ ρ) (code : κ) (extended oneShot : Bool) :
    (onHub (Hub.addRecord (.new code extended oneShot)) : Act ρ (System κ μ ρ) Nat).Ends s fun _ s' =>
      s' = { s with hub := { s.hub with jobs := s'.hub.jobs } } := by
  refine (ends_zoom _ _ _).mpr ((Hub.ends_addRecord _ _).mpr ?_)
  split <;> rfl

theorem record_called (hfit : Fit s.hub) (code : κ) (extended oneShot : Bool) :
    (onHub (Hub.addRecord (.new code extended oneShot)) : Act ρ (System κ μ ρ) Nat).Ends s fun _ s' =>
      Called s s' none := by
  refine (ends_zoom _ _ _).mpr ((Hub.ends_addRecord _ _).mpr ?_)
  split
  · rename_i hlimit
    have hcalm := (Hub.calm_push hfit.tidy (.new code extended oneShot)).1
    refine ⟨rfl, hcalm, ⟨fun j r hr => ⟨r, Hub.getElem?_push_lt hr, rfl, fun _ => rfl⟩,
      fun j r' hr' hn => ?_, hfit.cleared.push _ rfl, fun _ => by rw [Array.size_push]; exact hlimit⟩,
        .none rfl rfl⟩
    rw [Array.getElem?_push] at hr'
    split at hr'
    · rw [← Option.some.inj hr']; rfl
    · rw [hn] at hr'; cases hr'
  · exact .refl hfit

end FiberScheduler.System
