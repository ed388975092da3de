import FiberScheduler.Proofs.Places
import FiberScheduler.Proofs.Rollback

/-!
# Refused submissions

How submissions fail, and that a failed one leaves everything as it was: those that a
call makes, those of a fresh job with a group of its own, and those to any scheduler
that keeps nothing of what it refuses.
-/

namespace FiberScheduler

variable {κ μ ρ : Type}

namespace Hub

open Act

variable {ρ κ : Type} {h : Hub κ} {job : Nat} {record : Job κ} {group : Option Nat} {p : Priority}
  {a : Affinity}

def failure? (h : Hub κ) (job : Nat) (a : Affinity) : Option (Except Fault (Except Refusal Unit)) :=
  if (h.jobs[job]?).all (·.scheduled) then some (h.declined job)
  else (h.refusal? (h.needsExtended job) a).map fun refusal => .ok (.error refusal)

theorem refusal?_claimed (hrec : h.jobs[job]? = some record) : (h.claimed job record group).refusal?
    ((h.claimed job record group).needsExtended job) a = h.refusal? (h.needsExtended job) a := by
  have hrec' := getElem?_setJob (getElem?_enroll hrec group)
    { record with scheduled := true, completion := group } job
  have hneeds : (h.claimed job record group).needsExtended job = h.needsExtended job := by
    unfold needsExtended claimed
    rw [hrec', if_pos rfl, hrec]
    rfl
  rw [hneeds, claimed, enroll_rest]
  rfl

theorem ends_push_claimed (hserved : h.Served) (hrec : h.jobs[job]? = some record) :
    (push job p a : Act ρ (Hub κ) (Except Refusal Unit)).Ends (h.claimed job record group) fun r h' =>
      match h.refusal? (h.needsExtended job) a with
      | some refusal => r = .ok (.error refusal) ∧ h' = h.claimed job record group
      | none => r = .ok (.ok ()) := by
  have hserved' : (h.claimed job record group).Served := by
    unfold claimed
    rw [enroll_rest]
    exact hserved
  have hends := ends_push_decided (ρ := ρ) hserved' job p a
  rw [refusal?_claimed hrec] at hends
  refine hends.mono fun r h' hr => ?_
  cases hwhy : h.refusal? (h.needsExtended job) a with
  | some why =>
    rw [hwhy] at hr
    exact hr
  | none =>
    rw [hwhy] at hr
    exact hr.1

/-- A submission to the hub is accepted, or it fails for the first of the known reasons
and changes nothing. -/
theorem outcome_of_submits {y : Act ρ (Hub κ) (Except Refusal Unit)}
    (hy : scheduler.Submits h job group p a y) (hserved : h.Served) :
    y.Ends h fun r h' => match h.failure? job a with
      | some why => r = why ∧ h' = h
      | none => r = .ok (.ok ()) := by
  unfold failure?
  by_cases hno : ∀ record, h.jobs[job]? = some record → record.scheduled = true
  · rw [if_pos ((Option.all_eq_true _ _).mpr hno)]
    exact hy.declined hno
  · obtain ⟨record, hrec, hs⟩ : ∃ record, h.jobs[job]? = some record ∧
        record.scheduled = false := by simpa using hno
    rw [if_neg (by simp [hrec, hs])]
    have hpush : (push job p a : Act ρ (Hub κ) (Except Refusal Unit)).Ends (h.claimed job record group) _ :=
      ends_push_claimed hserved hrec
    cases hwhy : h.refusal? (h.needsExtended job) a with
    | some why =>
      rw [hwhy] at hpush
      refine hy.free record hrec hs hpush ?_ ?_
      · rintro refusal y ⟨he, rfl⟩
        exact ⟨rfl, he, rfl⟩
      · rintro r y hr ⟨he, -⟩
        exact absurd he (hr why)
    | none =>
      rw [hwhy] at hpush
      refine hy.free record hrec hs hpush ?_ ?_
      · intro refusal y he
        cases he
      · intro r y _ he
        exact he

def freshFailure? (h : Hub κ) (a : Affinity) : Option (Except Fault (Except Refusal Unit)) :=
  if h.jobs.size + 1 < recordLimit then (h.refusal? false a).map fun refusal => .ok (.error refusal)
  else some (.error .capacityOverflow)

theorem failure?_push (h : Hub κ) (code : κ) (a : Affinity) :
    ({ h with jobs := h.jobs.push (.new code false true) } : Hub κ).failure? h.jobs.size a =
      (h.refusal? false a).map fun refusal => .ok (.error refusal) := by
  simp [failure?, needsExtended, Job.new, refusal?]

theorem spawn_outcome {code : κ} (hcleared : h.Cleared) (hserved : h.Served)
    (hr : ∀ g, group = some g → h.Receptive g) :
    (scheduler.spawn code group p a : Act ρ (Hub κ) (Except Refusal Unit)).Ends h fun r h' =>
    match h.freshFailure? a with
      | some why => r = why ∧ h' = h
      | none => r = .ok (.ok ()) := by
  by_cases hlimit : h.jobs.size + 1 < recordLimit
  · have hsubmits :
        scheduler.Submits { h with jobs := h.jobs.push (.new code false true) } h.jobs.size group p a
          (scheduler.schedule h.jobs.size group p a : Act ρ (Hub κ) (Except Refusal Unit)) :=
      Scheduler.schedule_submits Scheduler.lawful_hub
        (hcleared.push (.new code false true) rfl) fun _ _ _ => hr
    have hends := outcome_of_submits hsubmits hserved
    rw [failure?_push] at hends
    rw [freshFailure?, if_pos hlimit]
    unfold Scheduler.spawn
    rw [ends_bind]
    show (addRecord (.new code false true) : Act ρ (Hub κ) Nat).Ends h _
    rw [ends_addRecord, if_pos hlimit, after_ok, ends_bind]
    refine hends.mono ?_
    cases h.refusal? false a with
    | some why =>
      rintro _ _ ⟨rfl, rfl⟩
      have hdrop :
          (scheduler.onHub dropRecord : Act ρ (Hub κ) Unit).Gives
          { h with jobs := h.jobs.push (.new code false true) } () h :=
        gives_dropRecord h (.new code false true)
      exact hdrop.bind (gives_pure (Except.error why))
    | none =>
      rintro _ h' rfl
      exact rfl
  · rw [freshFailure?, if_neg hlimit]
    unfold Scheduler.spawn
    rw [ends_bind]
    show (addRecord (.new code false true) : Act ρ (Hub κ) Nat).Ends h _
    rw [ends_addRecord, if_neg hlimit]
    exact ⟨rfl, rfl⟩

/-! ## Groups that cannot take a submission back -/

section
variable {s : Group} {g : Nat} (ht : h.Tidy) (hcleared : h.Cleared) (hserved : h.Served)
  (hs : h.groups.get? g = some s)
include ht hcleared hserved hs

theorem ends_schedule_receptive (hrec : h.jobs[job]? = some record) (hfree : record.scheduled = false)
    (hwhy : h.refusal? (h.needsExtended job) a ≠ none) :
    (scheduler.schedule job (some g) p a : Act ρ (Hub κ) (Except Refusal Unit)).Ends h fun _ h' =>
      h'.groups.get? g = some s → h.Receptive g := by
  have hnone := hcleared job record hrec hfree
  have hrec' := (getElem?_setJob hrec { record with scheduled := true } job).trans (if_pos rfl)
  have hclaim : (scheduler.onHub (claim job) : Act ρ (Hub κ) (Except Refusal Unit)).Gives h (.ok ()) _ :=
    gives_claim hrec hfree
  have htrack : (scheduler.onHub (track job g) : Act ρ (Hub κ) Unit).Gives _ () _ :=
    gives_track (g := g) hrec' hnone hs
  rw [claimed_of_enroll hs] at htrack
  have hpush :
      (scheduler.enqueue job p a : Act ρ (Hub κ) (Except Refusal Unit)).Ends
      (h.claimed job record (some g)) _ :=
    ends_push_claimed hserved hrec
  unfold Scheduler.schedule
  refine hclaim.bind_ends (htrack.bind_ends ?_)
  rw [ends_bind]
  refine hpush.mono ?_
  cases hrefusal : h.refusal? (h.needsExtended job) a with
  | none => exact absurd hrefusal hwhy
  | some refusal =>
    rintro _ _ ⟨rfl, rfl⟩
    have hcomplete :
        (scheduler.onHub (complete job) : Act ρ (Hub κ) (Option Nat)).Gives (h.claimed job record (some g))
        (some g) _ :=
      gives_complete_claimed hrec hfree hnone
    rw [after_ok]
    refine hcomplete.bind_ends ?_
    rw [ends_bind]
    refine (ends_withdraw_receptive (ρ := ρ) ht hs).mono ?_
    rintro (fault | _) h' hback
    · exact hback
    · exact hback

theorem ends_spawn_receptive {code : κ} (hlimit : h.jobs.size + 1 < recordLimit)
    (hwhy : h.refusal? false a ≠ none) :
    (scheduler.spawn code (some g) p a : Act ρ (Hub κ) (Except Refusal Unit)).Ends h fun _ h' =>
      h'.groups.get? g = some s → h.Receptive g := by
  unfold Scheduler.spawn
  rw [ends_bind]
  show (addRecord (.new code false true) : Act ρ (Hub κ) Nat).Ends h _
  rw [ends_addRecord, if_pos hlimit, after_ok, ends_bind]
  have ht' : ({ h with jobs := h.jobs.push (.new code false true) } : Hub κ).Tidy :=
    ⟨ht.blocks, ht.linked, ht.parked, ht.ready⟩
  have hwhy' : ({ h with jobs := h.jobs.push (.new code false true) } : Hub κ).refusal?
      (({ h with jobs := h.jobs.push (.new code false true) } :
        Hub κ).needsExtended h.jobs.size) a ≠ none := by
    simpa [needsExtended, Job.new, refusal?] using hwhy
  have hcleared' := hcleared.push (.new code false true) rfl
  refine (ends_schedule_receptive ht' hcleared' hserved hs Array.getElem?_push_size rfl hwhy').mono ?_
  rintro (fault | refusal | _) h' hback
  · exact hback
  · exact hback
  · exact hback

end

end Hub

/-! ## Calls -/

def Call.tracks? : Call κ μ ρ → Option (Option Nat)
  | .schedule _ group _ _ | .spawn _ group _ _ => some group
  | .addJob .. => some none
  | _ => none

def Call.failure? (h : Hub κ) : (c : Call κ μ ρ) → Option (Except Fault c.Answer)
  | .schedule job _ _ a | .addJob job _ a => h.failure? job a
  | .spawn _ _ _ a => h.freshFailure? a
  | _ => none

namespace System

open Act

variable {κ μ ρ : Type} {s : System κ μ ρ}

/-- A submission fails for one of the known reasons and leaves everything as it was, or the
job is accepted. -/
theorem perform_outcome (hfit : Fit s.hub) (i : Option Nat) {held : List Nat} {c : Call κ μ ρ}
    {group : Option Nat} (hperm : c.permits held s.kept = true) (hc : c.tracks? = some group)
    (hr : ∀ g, group = some g → s.hub.Receptive g) :
    (perform i held c).Ends s fun r t => (∀ why, c.failure? s.hub = some why → r = why ∧ t = s) ∧
      (c.failure? s.hub = none → ∃ job, c.accepted s.hub.jobs.size r = some (job, group)) := by
  obtain ⟨ht, hcleared, hserved⟩ := hfit
  have hhub : ∀ {x : Act ρ (Hub κ) (Except Refusal Unit)}
      {failure : Option (Except Fault (Except Refusal Unit))} {job : Nat},
      (x.Ends s.hub fun r h =>
        match failure with
        | some why => r = why ∧ h = s.hub
        | none => r = .ok (.ok ())) →
      (onHub x : Act ρ (System κ μ ρ) (Except Refusal Unit)).Ends s fun r t =>
        (∀ why, failure = some why → r = why ∧ t = s) ∧
          (failure = none → ∃ j, Hub.taken job group r = some (j, group)) := by
    intro x failure job hx
    refine (ends_zoom _ _ _).mpr (hx.mono ?_)
    intro r h hr
    refine ⟨?_, ?_⟩
    · rintro why rfl
      exact ⟨hr.1, by rw [hr.2]⟩
    · rintro rfl
      exact ⟨job, by rw [hr]; rfl⟩
  simp only [perform, ends_bind, ends_get, after_ok, hperm, if_true]
  cases c with
  | schedule job g p a =>
    cases hc
    exact hhub (Hub.outcome_of_submits
      (Scheduler.schedule_submits Scheduler.lawful_hub hcleared fun _ _ _ => hr) hserved)
  | addJob job p a =>
    cases hc
    exact hhub (Hub.outcome_of_submits (Scheduler.addJob_submits Scheduler.lawful_hub hcleared) hserved)
  | spawn code g p a =>
    cases hc
    exact hhub (Hub.spawn_outcome hcleared hserved hr)
  | _ => cases hc

/-- A refused run that a live group would have counted is undone exactly when the group is
receptive. -/
theorem undone_iff_receptive (hfit : Fit s.hub) (i : Option Nat) {held : List Nat} {g : Nat} {state : Group}
    (hs : s.hub.groups.get? g = some state) :
    (∀ job record p a, (Call.schedule job (some g) p a : Call κ μ ρ).permits held s.kept = true →
      s.hub.jobs[job]? = some record →
      record.scheduled = false → s.hub.refusal? (s.hub.needsExtended job) a ≠ none →
      (perform i held (.schedule job (some g) p a) : Act ρ (System κ μ ρ) (Except Refusal Unit)).Ends s
        fun _ t =>
        t = s ↔ s.hub.Receptive g) ∧
    ∀ code p a, (Call.spawn code (some g) p a : Call κ μ ρ).permits held s.kept = true →
      s.hub.jobs.size + 1 < Hub.recordLimit →
      s.hub.refusal? false a ≠ none →
      (perform i held (.spawn code (some g) p a) : Act ρ (System κ μ ρ) (Except Refusal Unit)).Ends s
        fun _ t =>
        t = s ↔ s.hub.Receptive g := by
  obtain ⟨ht, hcleared, hserved⟩ := hfit
  have hundone : ∀ {c : Call κ μ ρ} (why : Except Fault c.Answer), c.permits held s.kept = true →
    c.tracks? = some (some g) →
      c.failure? s.hub = some why → ((perform i held c).Ends s fun _ t => t.hub.groups.get? g = some state →
        s.hub.Receptive g) →
      (perform i held c).Ends s fun _ t => t = s ↔ s.hub.Receptive g := by
    intro c why hperm hc hwhy hback
    by_cases hr : s.hub.Receptive g
    · refine (perform_outcome ⟨ht, hcleared, hserved⟩ i hperm hc ?_).mono ?_
      · rintro k hk
        exact Option.some.inj hk ▸ hr
      · rintro r t ⟨hfails, -⟩
        exact ⟨fun _ => hr, fun _ => (hfails why hwhy).2⟩
    · refine hback.mono fun r t hback => ⟨?_, fun he => absurd he hr⟩
      rintro rfl
      exact hback hs
  refine ⟨?_, ?_⟩
  · intro job record p a hperm hrec hfree hwhy
    obtain ⟨refusal, hrefusal⟩ := Option.ne_none_iff_exists'.mp hwhy
    refine hundone (.ok (.error refusal)) hperm rfl
      (by simp [Call.failure?, Hub.failure?, hrec, hfree, hrefusal]) ?_
    simp only [perform, ends_bind, ends_get, after_ok, hperm, if_true]
    exact Hub.ends_schedule_receptive ht hcleared hserved hs hrec hfree hwhy
  · intro code p a hperm hlimit hwhy
    obtain ⟨refusal, hrefusal⟩ := Option.ne_none_iff_exists'.mp hwhy
    refine hundone (.ok (.error refusal)) hperm rfl
      (by simp [Call.failure?, Hub.freshFailure?, hlimit, hrefusal]) ?_
    simp only [perform, ends_bind, ends_get, after_ok, hperm, if_true]
    exact Hub.ends_spawn_receptive ht hcleared hserved hs hlimit hwhy

/-! ## Programs that submit a job to a group of their own -/

def withFree (s : System κ μ ρ) (free : List Nat) : System κ μ ρ :=
  s.setHub { s.hub with groups := { s.hub.groups with free } }

theorem ends_execute_call {α : Type} {c : Call κ μ ρ} {next : c.Answer → Program κ μ ρ α} {held : List Nat}
    {Q : Except Fault (Option α) → System κ μ ρ → Prop}
    (h : (perform none held c).Ends s fun r t =>
      (∀ answer, r = .ok answer → (execute (next answer) (c.settle answer held)).Ends t Q) ∧
      ∀ fault, r = .error fault → ∃ u, (dropHeld held : Act ρ (System κ μ ρ) Unit).Gives t () u ∧
        Q (.error fault) u) :
    (execute (.call c next) held).Ends s Q := by
  rw [execute, ends_bind, ends_attempt]
  refine h.mono ?_
  rintro (fault | answer) t ⟨hok, herror⟩
  · obtain ⟨u, hdrop, hQ⟩ := herror fault rfl
    exact hdrop.bind_ends hQ
  · exact hok answer rfl

theorem ends_execute_done {α : Type} {value : α} {Q : Except Fault (Option α) → System κ μ ρ → Prop}
    (h : Q (.ok (some value)) s) : (execute (.done value) [] : Act ρ (System κ μ ρ) (Option α)).Ends s Q := by
  have hdrop : (dropHeld [] : Act ρ (System κ μ ρ) Unit).Gives s () s := ⟨rfl, rfl⟩
  rw [execute]
  exact hdrop.bind_ends h

section
variable {g : Nat} {free : List Nat} (h : s.Sound) (hfree : s.hub.groups.free = g :: free)
include h hfree

theorem gives_drop_new : (Hub.dropGroup g : Act ρ (Hub κ) Unit).Gives (s.hub.store g (some .new) free) ()
    (s.withFree (free ++ [g])).hub := by
  obtain ⟨hlt, -⟩ := h.tidy.blocks.front hfree
  have hempty := h.tidy.blocks.empty g (by rw [hfree]; exact List.mem_cons_self)
  have hs : (s.hub.store g (some .new) free).groups.get? g = some .new := by
    rw [Hub.get?_store hempty, if_pos rfl]
  unfold Gives
  rw [Hub.ends_dropGroup hs, if_pos (show Group.new.handles = 1 from rfl), Hub.store_store]
  refine ⟨rfl, ?_⟩
  show { s.hub with groups := s.hub.groups.store g none (free ++ [g]) } = _
  rw [h.tidy.blocks.store_empty hempty]
  rfl

theorem receptive_new : (s.hub.store g (some .new) free).Receptive g := by
  have hempty := h.tidy.blocks.empty g (by rw [hfree]; exact List.mem_cons_self)
  refine ⟨.new, ?_, ⟨Int.le_refl _, fun _ => rfl⟩, by decide, by decide⟩
  rw [Hub.get?_store hempty, if_pos rfl]

end

theorem gives_dropHeld {g : Nat} {h : Hub κ}
    (hdrop : (Hub.dropGroup g : Act ρ (Hub κ) Unit).Gives s.hub () h) :
    (dropHeld [g] : Act ρ (System κ μ ρ) Unit).Gives s () (s.setHub h) :=
  gives_onHub (hdrop.bind (gives_pure ()))

theorem live_of_spawn {g : Nat} {code : κ} {p : Priority} {a : Affinity} (hfit : Fit s.hub) {held : List Nat}
    (hperm : (Call.spawn code (some g) p a : Call κ μ ρ).permits held s.kept = true) :
    (perform none held (Call.spawn code (some g) p a) : Act ρ (System κ μ ρ) (Except Refusal Unit)).Ends s
      fun r t =>
      r = .ok (.ok ()) → ∃ state, t.hub.groups.get? g = some state := by
  simp only [perform, ends_bind, ends_get, after_ok, hperm, if_true]
  show (onHub (Hub.scheduler.spawn code (some g) p a) : Act ρ (System κ μ ρ) (Except Refusal Unit)).Ends s _
  refine (ends_zoom _ _ _).mpr ((Hub.ends_spawn hfit.cleared hfit.served code (some g) p a).mono ?_)
  rintro r h' hs rfl
  cases hs with
  | kept _ _ hs =>
    cases hs with
    | declined hr | refused _ _ hr => exact absurd rfl hr
    | accepted hrec hfree hlive =>
      obtain ⟨state, hstate⟩ := hlive g rfl
      have henroll :
          (s.hub.store g (some ⟨state.count + 1, state.handles + 1, state.head⟩)
            s.hub.groups.free).groups.get? g = _ :=
        Hub.get?_store (Hub.block_of_get? hstate) g
      refine ⟨⟨state.count + 1, state.handles + 1, state.head⟩, ?_⟩
      simp only [Hub.enroll, hstate]
      exact henroll.trans (if_pos rfl)

section
variable {g : Nat} {free : List Nat} (h : s.Sound) (hfree : s.hub.groups.free = g :: free)
include h hfree

/-- The group of a job that was refused is given back. -/
theorem ends_return_group (refusal : Refusal) :
    (execute (.call (.dropGroup g) fun _ => .done (.error refusal)) [g] :
      Act ρ (System κ μ ρ) (Option (Except Refusal Nat))).Ends (s.setHub (s.hub.store g (some .new) free))
      fun r t => r = .ok (some (.error refusal)) ∧ t = s.withFree (free ++ [g]) := by
  have hcall : (perform none [g] (.dropGroup g) : Act ρ (System κ μ ρ) Unit).Gives
      (s.setHub (s.hub.store g (some .new) free)) () (s.withFree (free ++ [g])) := by
    unfold Gives perform
    simp only [ends_bind, ends_get, after_ok]
    rw [if_pos (by simp [Call.permits])]
    exact gives_onHub (gives_drop_new h hfree)
  have hnone : (Call.dropGroup g : Call κ μ ρ).settle () [g] = [] := by simp [Call.settle]
  refine ends_execute_call (hcall.ends ⟨?_, fun _ he => by cases he⟩)
  rintro ⟨⟩ -
  rw [hnone]
  exact ends_execute_done ⟨rfl, rfl⟩

/-- The submission that follows on the allocation of a group. A group that was just made can
take the run of the job back, so the submission fails without a trace. -/
theorem spawn_in_new_group (code : κ) (p : Priority) (a : Affinity) :
    (perform none [g] (.spawn code (some g) p a) : Act ρ (System κ μ ρ) (Except Refusal Unit)).Ends
      (s.setHub (s.hub.store g (some .new) free)) fun r t =>
      (∀ why, s.hub.freshFailure? a = some why →
        r = why ∧ t = s.setHub (s.hub.store g (some .new) free)) ∧
      (s.hub.freshFailure? a = none → r = .ok (.ok ()) ∧ ∃ state, t.hub.groups.get? g = some state) := by
  have hfit : Fit (s.setHub (s.hub.store g (some .new) free)).hub :=
    ⟨(Hub.steady_new h.tidy hfree).1.tidy, h.fit.cleared, h.fit.served⟩
  have hr : ∀ k, some g = some k → (s.hub.store g (some .new) free).Receptive k := by
    rintro k hk
    rw [← Option.some.inj hk]
    exact receptive_new h hfree
  refine ((perform_outcome hfit none (by simp [Call.permits]) rfl hr).and
    (live_of_spawn hfit (by simp [Call.permits]))).mono ?_
  rintro r t ⟨⟨hfails, hsucceeds⟩, hlive⟩
  refine ⟨hfails, fun hnone => ?_⟩
  obtain ⟨job, htaken⟩ := hsucceeds hnone
  obtain fault | refusal | ⟨⟩ := r
  · cases htaken
  · cases htaken
  · exact ⟨rfl, hlive rfl⟩

end

theorem ends_keep_group {g : Nat} {state : Group} (hs : s.hub.groups.get? g = some state) :
    (execute (.done (.ok g)) [g] : Act ρ (System κ μ ρ) (Option (Except Refusal Nat))).Ends s fun r _ =>
      r = .ok (some (.ok g)) := by
  obtain ⟨h', hdrop⟩ : ∃ h', (Hub.dropGroup g : Act ρ (Hub κ) Unit).Gives s.hub () h' :=
    ⟨_, (Hub.ends_dropGroup hs _).mpr ⟨rfl, rfl⟩⟩
  rw [execute]
  exact (gives_dropHeld hdrop).bind_ends rfl

/-- Submitting a fresh job with a group of its own: where it fails, the system is as
before, up to the order of the free blocks. -/
theorem ends_run (h : s.Sound) (code : κ) (p : Priority) (a : Affinity) :
    (execute (Program.run code p a) [] : Act ρ (System κ μ ρ) (Option (Except Refusal Nat))).Ends s fun r t =>
      (s.hub.groups.free = [] → r = .ok (some (.error (.blocksExhausted s.hub.groups.capacity))) ∧ t = s) ∧
      ∀ g free, s.hub.groups.free = g :: free →
        (∀ refusal, s.hub.freshFailure? a = some (.ok (.error refusal)) →
          r = .ok (some (.error refusal)) ∧ t = s.withFree (free ++ [g])) ∧
        (∀ fault, s.hub.freshFailure? a = some (.error fault) → r = .error fault ∧
          t = s.withFree (free ++ [g])) ∧
        (s.hub.freshFailure? a = none → r = .ok (some (.ok g))) := by
  show (execute (.call .newGroup _) []).Ends s _
  refine ends_execute_call ?_
  have hnew : ∀ Q : Except Fault (Except Refusal Nat) → System κ μ ρ → Prop,
      ((Hub.newGroup : Act ρ (Hub κ) (Except Refusal Nat)).Ends s.hub fun r h => Q r (s.setHub h)) →
      (perform none [] .newGroup : Act ρ (System κ μ ρ) (Except Refusal Nat)).Ends s Q := fun Q hQ => hQ
  refine hnew _ ((Hub.ends_newGroup _).mpr ?_)
  cases hfree : s.hub.groups.free with
  | nil =>
    refine ⟨?_, fun fault he => by cases he⟩
    rintro answer he
    cases he
    exact ends_execute_done ⟨fun _ => ⟨rfl, rfl⟩, fun g free he => by cases he⟩
  | cons g free =>
    refine ⟨?_, fun fault he => by cases he⟩
    rintro answer he
    cases he
    show (execute (.call (.spawn code (some g) p a) _) [g]).Ends _ _
    refine ends_execute_call ((spawn_in_new_group h hfree code p a).mono ?_)
    rintro r t ⟨hfails, hsucceeds⟩
    -- One case for each way the submission can fail, and one where it does not.
    cases hwhy : s.hub.freshFailure? a with
    | some why =>
      obtain ⟨rfl, rfl⟩ := hfails why hwhy
      obtain fault | refusal | ⟨⟩ := r
      · refine ⟨fun _ he => (by cases he), fun fault' he => ?_⟩
        cases he
        refine ⟨_, gives_dropHeld (gives_drop_new h hfree), fun he => (by cases he), ?_⟩
        rintro g' free' ⟨⟩
        exact ⟨fun _ he => (by cases he), fun _ he => ⟨by cases he; rfl, rfl⟩, fun he => by cases he⟩
      · refine ⟨fun answer he => ?_, fun _ he => by cases he⟩
        cases he
        refine (ends_return_group h hfree refusal).mono ?_
        rintro r t ⟨rfl, rfl⟩
        refine ⟨fun he => (by cases he), ?_⟩
        rintro g' free' ⟨⟩
        exact ⟨fun _ he => ⟨by cases he; rfl, rfl⟩, fun _ he => (by cases he), fun he => by cases he⟩
      · exact absurd hwhy (by unfold Hub.freshFailure?; split <;> simp)
    | none =>
      obtain ⟨rfl, state, hstate⟩ := hsucceeds hwhy
      refine ⟨fun answer he => ?_, fun _ he => by cases he⟩
      cases he
      refine (ends_keep_group hstate).mono ?_
      rintro r t rfl
      refine ⟨fun he => (by cases he), ?_⟩
      rintro g' free' ⟨⟩
      exact ⟨fun _ he => (by cases he), fun _ he => (by cases he), fun _ => rfl⟩

/-! ## Whole runs -/

section
variable {σ : Type} {mode : Mode} {host : Host} {config : Config} {memory : μ} {x : σ} {s₀ : System κ μ ρ}
  {body : κ → Program κ μ ρ Unit}
  (hnew : ((new mode host config memory : Act ρ σ (Except Refusal (System κ μ ρ))) x).result = .ok (.ok s₀))
  {moves : List (Move κ μ ρ)} (hplay : play body s₀ moves = s)
include hnew hplay

/-- Where no add went too far, every group below its limit can take a submission back. -/
theorem receptive_of_run (hroom : Along body Roomy s₀ moves)
    (hfew : Along body (fun s _ => FewHandles s) s₀ moves) (hlast : FewHandles s) {g : Nat} {state : Group}
    (hs : s.hub.groups.get? g = some state) (hmax : state.count ≠ Int32.maxValue) :
    s.hub.Receptive g := by
  have hguard : Guarded s (history body s₀ moves) := hplay ▸
    play_induction (fun _ _ _ hroom h => h.step hroom) hroom (new_of_ok hnew).guarded
  have hplaced : Placed s (history body s₀ moves) := hplay ▸ (new_of_ok hnew).placed_play hfew
  exact hplaced.ledger.books.receptive hlast hguard.latched hs hmax

/-- A submission that fails changes nothing. A call fails for the first of the known
reasons, a pending job first of all, and only for those; a strict system stops at a
pending job. The same holds where a fresh job is submitted with a group of its own, up to
the order of the free blocks, and where any scheduler refuses that keeps nothing itself.
The groups that are submitted with have to take the run back, which all can do unless
an add went too far. -/
theorem failed_submission_changes_nothing :
    (∀ i held c group, c.permits held s.kept = true → c.tracks? = some group →
      (∀ g, group = some g → s.hub.Receptive g) →
        (perform i held c : Act ρ (System κ μ ρ) c.Answer).Ends s fun r t =>
        (∀ why, c.failure? s.hub = some why → r = why ∧ t = s) ∧
        (c.failure? s.hub = none → ∃ job, c.accepted s.hub.jobs.size r = some (job, group))) ∧
    (∀ code p a, (execute (Program.run code p a) [] :
      Act ρ (System κ μ ρ) (Option (Except Refusal Nat))).Ends s fun r t =>
      (s.hub.groups.free = [] → r = .ok (some (.error (.blocksExhausted s.hub.groups.capacity))) ∧ t = s) ∧
      ∀ g free, s.hub.groups.free = g :: free →
        (∀ refusal, s.hub.freshFailure? a = some (.ok (.error refusal)) →
          r = .ok (some (.error refusal)) ∧ t = s.withFree (free ++ [g])) ∧
        (∀ fault, s.hub.freshFailure? a = some (.error fault) → r = .error fault ∧
          t = s.withFree (free ++ [g])) ∧
        (s.hub.freshFailure? a = none → r = .ok (some (.ok g)))) ∧
    (∀ {τ : Type} (S : Scheduler ρ κ τ) y group, S.Lawful → S.Careful → (S.hub y).Cleared →
      (∀ g, group = some g → (S.hub y).Receptive g) → ∀ job code p a,
        (S.schedule job group p a).Ends y (fun r z => ∀ refusal, r = .ok (.error refusal) → z = y) ∧
        (S.addJob job p a).Ends y (fun r z => ∀ refusal, r = .ok (.error refusal) → z = y) ∧
        (S.spawn code group p a).Ends y fun r z => ∀ refusal, r = .ok (.error refusal) → z = y) ∧
    (Along body Roomy s₀ moves → Along body (fun s _ => FewHandles s) s₀ moves → FewHandles s →
      ∀ g state, s.hub.groups.get? g = some state → state.count ≠ Int32.maxValue → s.hub.Receptive g) := by
  have hsound : s.Sound := hplay ▸ sound_play body (new_of_ok hnew).sound moves
  refine ⟨?_, ?_, ?_, ?_⟩
  · intro i held c group hperm hc hr
    exact perform_outcome hsound.fit i hperm hc hr
  · intro code p a
    exact ends_run hsound code p a
  · intro τ S y group hS hcareful hcleared hr job code p a
    refine ⟨?_, ?_, ?_⟩
    · exact (Scheduler.schedule_submits hS hcleared fun _ _ _ => hr).refused hcareful
    · exact (Scheduler.addJob_submits hS hcleared).refused hcareful
    · exact Scheduler.spawn_refused hS hcareful hcleared hr
  · intro hroom hfew hlast g state hs hmax
    exact receptive_of_run hnew hplay hroom hfew hlast hs hmax

end

/-- A job waits for the one unit of a group, of which a handle is kept. -/
def watched : List (Move Bool Unit Unit) :=
  [.call .newGroup, .call (.cloneGroup 0), .call (.spawn true none .normal .any), .call (.add 0 1),
    .work 0, .work 0, .work 0, .work 0]

theorem refused_job_wakes_nobody :
    let s := play smallBody small watched
    s.kept = [0] ∧ s.hub.waitingOn 0 = [0] ∧
      (perform none s.kept (.spawn false (some 0) .normal (.worker 9)) : Act Unit (System Bool Unit Unit)
        (Except Refusal Unit)).Ends s
        fun r t => r = .ok (.error (.unknownAffinity (.worker 9))) ∧ t = s := by
  intro s
  have hplay : s = play smallBody small watched := rfl
  obtain ⟨hcalls, -, -, hreceptive⟩ := failed_submission_changes_nothing new_small hplay
  have hgroup : s.hub.groups.get? 0 = some ⟨1, 2, some 0⟩ := by decide +kernel
  have hr := hreceptive (by decide +kernel) (by decide +kernel) (by decide +kernel) 0 _ hgroup (by decide)
  refine ⟨by decide +kernel, by decide +kernel, ?_⟩
  refine (hcalls none s.kept (.spawn false (some 0) .normal (.worker 9)) (some 0)
    (by decide +kernel) rfl ?_).mono ?_
  · rintro g ⟨⟩
    exact hr
  · rintro r t ⟨hfails, -⟩
    exact hfails (.ok (.error (.unknownAffinity (.worker 9)))) (by rfl)

/-- Adds past the largest count end at zero, with somebody still waiting. -/
def overrun : List (Move Bool Unit Unit) :=
  watched ++ [.call (.add 0 2147483647), .call (.add 0 2147483647), .call (.add 0 1)]

theorem refused_job_wakes_after_overrun :
    let s := play smallBody small overrun
    let o := (perform none s.kept (.spawn false (some 0) .normal (.worker 9)) :
      Act Unit (System Bool Unit Unit) (Except Refusal Unit)) s
    s.hub.groups.get? 0 = some ⟨0, 2, some 0⟩ ∧ o.result = .ok (.error (.unknownAffinity (.worker 9))) ∧
      s.hub.lanes.readied = [] ∧ o.state.hub.lanes.readied = [⟨0, .normal, .any⟩] := by
  intro s o
  exact ⟨by decide +kernel, by rfl, by decide +kernel, by decide +kernel⟩

end System

end FiberScheduler
