import FiberScheduler.Proofs.Drain
import FiberScheduler.Proofs.Handovers
import FiberScheduler.Proofs.Totals

/-!
# What the counters count

A call counts a submission just where it takes a slot, and the end of a run counts it
before the slot is given back. A switch is counted by the fiber that it leads to, and so
is the parking behind it. So between moves no counter lags behind the history of the run.
-/

namespace FiberScheduler

variable {κ μ ρ σ : Type}

def Program.isPanic : Program κ μ ρ Unit → Bool
  | .panic _ => true
  | _ => false

theorem Program.EndsIn.isPanic {p : Program κ μ ρ Unit} {panic : Option Fault} (h : p.EndsIn panic) :
    p.isPanic = panic.isSome := by
  cases h <;> rfl

theorem Program.Over.endsIn {p : Program κ μ ρ Unit} (h : p.Over) : ∃ panic, p.EndsIn panic := by
  cases h with
  | done => exact ⟨_, .done⟩
  | panic fault => exact ⟨_, .panic fault⟩

/-! ## Submissions -/

namespace Hub

open Act

variable {h h' : Hub κ} {job : Nat} {group : Option Nat} {p : Priority} {a : Affinity} {code : κ}

def Charges (h h' : Hub κ) : Prop :=
  h'.counters = h.counters ∧ h'.active = h.active ∨ h'.counters = h.counters.bump .submitted ∧
    h'.active = h.active + 1

theorem Charges.refl (h : Hub κ) : Charges h h :=
  Or.inl ⟨rfl, rfl⟩

theorem Steady.charges (hst : Steady h h') : Charges h h' := by
  rw [hst.rest]
  exact Or.inl ⟨rfl, rfl⟩

theorem Scheduled.charges {r : Except Fault (Except Refusal Unit)} (hs : Scheduled ρ h job group p a r h')
    (ht : h.Tidy) : Charges h h' := by
  cases hs with
  | declined => exact .refl h
  | stuck => exact Or.inl ⟨rfl, rfl⟩
  | refused =>
    have hst := (steady_enroll ht group).1
    exact (hst.trans (withdraw_steady (ρ := ρ) hst.tidy group)).charges
  | accepted => exact Or.inr ⟨rfl, rfl⟩

theorem Spawned.charges {r : Except Fault (Except Refusal Unit)} (hs : Spawned ρ h code group p a r h')
    (ht : h.Tidy) : Charges h h' := by
  have hnew := (calm_push ht (.new code false true)).1
  cases hs with
  | full => exact .refl h
  | kept _ _ hs => exact hs.charges hnew.tidy
  | forgotten _ hs => exact hs.charges hnew.tidy

end Hub

namespace System

open Act

variable {body : κ → Program κ μ ρ Unit} {s s' : System κ μ ρ} {worker i : Nat} {w : Worker}
  {ds es : List (Deed κ μ ρ)}

theorem answer_charges (hfit : Fit s.hub) (i : Option Nat) (c : Call κ μ ρ) :
    (answer i c).Ends s fun _ t => Hub.Charges s.hub t.hub := by
  have hhub : ∀ {α : Type} {x : Act ρ (Hub κ) α}, x.Ends s.hub (fun _ h' => Hub.Charges s.hub h') →
      (onHub x : Act ρ (System κ μ ρ) α).Ends s fun _ t => Hub.Charges s.hub t.hub := fun hx => hx
  obtain ⟨ht, hcleared, hserved⟩ := hfit
  cases c with
  | newGroup => exact hhub ((Hub.newGroup_steady ht).mono fun _ _ hst => hst.1.charges)
  | cloneGroup g => exact hhub ((Hub.cloneGroup_steady ht g).mono fun _ _ hst => hst.1.charges)
  | dropGroup g => exact hhub ((Hub.dropGroup_steady ht g).mono fun _ _ hst => hst.charges)
  | add g n => exact hhub ((Hub.addGroup_steady ht g n).mono fun _ _ hst => hst.1.charges)
  | count g =>
    apply hhub
    rw [ends_bind]
    cases hs : s.hub.groups.get? g with
    | none => exact Hub.ends_group_dead hs fun _ => .refl s.hub
    | some t => rw [Hub.ends_group hs]; exact .refl s.hub
  | schedule job group p a =>
    exact hhub ((Hub.ends_schedule hcleared hserved job group p a).mono fun _ _ hs => hs.charges ht)
  | addJob job p a => exact hhub ((Hub.ends_addJob hcleared hserved job p a).mono fun _ _ hs => hs.charges ht)
  | spawn code group p a =>
    exact hhub ((Hub.ends_spawn hcleared hserved code group p a).mono fun _ _ hs => hs.charges ht)
  | giveGroup | takeGroup | isScheduled | place | counters | report | access => exact Hub.Charges.refl s.hub

theorem perform_charges (hfit : Fit s.hub) (i : Option Nat) (held : List Nat) (c : Call κ μ ρ) :
    (perform i held c).Ends s fun _ t => Hub.Charges s.hub t.hub := by
  exact perform_of_answer (.refl s.hub) fun _ => answer_charges hfit i c

theorem ask_charges (hfit : Fit s.hub) (c : Call κ μ ρ) :
    (ask c).Ends s fun _ t => Hub.Charges s.hub t.hub := by
  exact ask_of_perform (fun _ _ _ => id) (perform_charges hfit none s.kept c)

/-! ## What is counted -/

def Deed.isParked : Deed κ μ ρ → Bool
  | .parked .. => true
  | _ => false

def Deed.isResumed : Deed κ μ ρ → Bool
  | .resumed _ => true
  | _ => false

def slotOf (s : System κ μ ρ) (worker : Nat) : Option Nat :=
  (s.workers[worker]?).bind (·.handoff)

def endsInPanic (s s' : System κ μ ρ) (m : Move κ μ ρ) : Bool :=
  (deeds s s' m).any Deed.isEnded &&
    match m with
    | .work worker => (s.runOn? worker).any fun run => run.rest.isPanic
    | _ => false

def handsOver (s s' : System κ μ ρ) : Move κ μ ρ → Bool
  | .work worker => (s.slotOf worker).isNone && (s'.slotOf worker).isSome
  | _ => false

/-- How many moves of a run are of a kind, told from the states before and after. -/
def occasions (body : κ → Program κ μ ρ Unit) (P : System κ μ ρ → System κ μ ρ → Move κ μ ρ → Bool) :
    System κ μ ρ → List (Move κ μ ρ) → Nat
  | _, [] => 0
  | s, m :: moves => (P s (move body s m) m).toNat + occasions body P (move body s m) moves

/-- The fibers that are parked or ready: each holds an unfinished run, and no worker runs it. -/
def resting (s : System κ μ ρ) : List Nat :=
  (List.range s.runs.size).filter fun x => (s.run? x).isSome && !s.currents.contains x

theorem slotOf_of_here (hw : s.workers[i]? = some w) : s.slotOf i = w.handoff := by
  rw [slotOf, hw, Option.bind_some]

theorem handsOver_iff (h : s.Sound) {m : Move κ μ ρ} : handsOver s (move body s m) m = true ↔
    ∃ i w w' job, m = .work i ∧ s.workers[i]? = some w ∧ (move body s m).workers[i]? = some w' ∧
      PassesOn s (move body s m) i w w' job := by
  constructor
  · intro hover
    obtain ⟨i, rfl⟩ : ∃ i, m = .work i := by
      cases m with
      | work i => exact ⟨i, rfl⟩
      | call | record | stop => cases hover
    simp only [handsOver, Bool.and_eq_true, Option.isNone_iff_eq_none, Option.isSome_iff_exists] at hover
    obtain ⟨hno, job, hjob⟩ := hover
    obtain ⟨w', hw', hhand⟩ := Option.bind_eq_some_iff.mp hjob
    rcases (turn_of_sound h body i).slot_before h hw' hhand with hw | ⟨-, w, hw, hpass⟩
    · rw [slotOf_of_here hw, hhand] at hno
      cases hno
    · exact ⟨i, w, w', job, rfl, hw, hw', hpass⟩
  · rintro ⟨i, w, w', job, rfl, hw, hw', hpass⟩
    rw [handsOver, slotOf_of_here hw, slotOf_of_here hw', hpass.empty, hpass.filled]
    rfl

structure Metered (c c' : Counters) (ds : List (Deed κ μ ρ)) (panics passes : Nat) : Prop where
  submitted : c'.submitted = c.submitted + .ofNat (ds.countP Deed.isAccepted)
  executed : c'.executed = c.executed + .ofNat (ds.countP Deed.isEnded)
  panicked : c'.panicked = c.panicked + .ofNat panics
  switches : c'.switches = c.switches + .ofNat (ds.countP Deed.isParked + ds.countP Deed.isResumed + passes)
  suspensions : c'.suspensions = c.suspensions + .ofNat (ds.countP Deed.isParked)

section
variable {c c' c'' : Counters} {panics passes panics' passes' : Nat}

theorem Metered.quiet (c : Counters) (haccepted : ds.countP Deed.isAccepted = 0)
    (hended : ds.countP Deed.isEnded = 0) (hparked : ds.countP Deed.isParked = 0)
    (hresumed : ds.countP Deed.isResumed = 0) : Metered c c ds 0 0 := by
  constructor <;> simp [haccepted, hended, hparked, hresumed]

theorem Metered.refl (c : Counters) : Metered c c ([] : List (Deed κ μ ρ)) 0 0 :=
  .quiet c rfl rfl rfl rfl

theorem Metered.accepted (c : Counters) (job : Nat) (group : Option Nat) :
    Metered c (c.bump .submitted) [(.accepted job group : Deed κ μ ρ)] 0 0 := by
  constructor <;> simp [Counters.bump, Counters.add, Deed.isAccepted, Deed.isEnded, Deed.isParked,
    Deed.isResumed]

theorem Metered.ended (c : Counters) (job : Nat) (group : Option Nat) (panic : Option Fault) :
    Metered c (Hub.counted c panic) [(.ended job group : Deed κ μ ρ)] panic.isSome.toNat 0 := by
  cases panic <;> constructor <;>
    simp [Hub.counted, Counters.bump, Counters.add, Deed.isAccepted, Deed.isEnded, Deed.isParked,
      Deed.isResumed]

theorem Metered.parked (c : Counters) (fiber group : Nat) (p : Priority) (a : Affinity) :
    Metered c ((c.bump .switches).bump .suspensions) [(.parked fiber group p a : Deed κ μ ρ)] 0 0 := by
  constructor <;> simp [Counters.bump, Counters.add, Deed.isAccepted, Deed.isEnded, Deed.isParked,
    Deed.isResumed]

theorem Metered.resumed (c : Counters) (fiber : Nat) :
    Metered c (c.bump .switches) [(.resumed fiber : Deed κ μ ρ)] 0 0 := by
  constructor <;> simp [Counters.bump, Counters.add, Deed.isAccepted, Deed.isEnded, Deed.isParked,
    Deed.isResumed]

theorem Metered.passed (c : Counters) : Metered c (c.bump .switches) ([] : List (Deed κ μ ρ)) 0 1 := by
  constructor <;> simp [Counters.bump, Counters.add]

theorem Metered.trans (h : Metered c c' ds panics passes) (h' : Metered c' c'' es panics' passes') :
    Metered c c'' (ds ++ es) (panics + panics') (passes + passes') where
  submitted := by rw [h'.submitted, h.submitted, List.countP_append, UInt64.ofNat_add, UInt64.add_assoc]
  executed := by rw [h'.executed, h.executed, List.countP_append, UInt64.ofNat_add, UInt64.add_assoc]
  panicked := by rw [h'.panicked, h.panicked, UInt64.ofNat_add, UInt64.add_assoc]
  switches := by
    rw [h'.switches, h.switches, UInt64.add_assoc, ← UInt64.ofNat_add, List.countP_append, List.countP_append]
    congr 2
    omega
  suspensions := by rw [h'.suspensions, h.suspensions, List.countP_append, UInt64.ofNat_add, UInt64.add_assoc]

theorem Called.metered {queued : Option (Nat × Option Nat)} (hc : Called s s' queued)
    (hcharges : Hub.Charges s.hub s'.hub) :
    Metered s.hub.counters s'.hub.counters (acceptances queued : List (Deed κ μ ρ)) 0 0 := by
  have hqueues := hc.effect.queues
  cases hqueues with
  | none _ hactive =>
    rcases hcharges with ⟨hcounters, -⟩ | ⟨-, htaken⟩
    · rw [hcounters]
      exact .refl _
    · rw [hactive] at htaken
      simp at htaken
  | some _ hactive =>
    rcases hcharges with ⟨-, htaken⟩ | ⟨hcounters, -⟩
    · rw [hactive] at htaken
      simp at htaken
    · rw [hcounters]
      exact .accepted _ _ _

end

/-! ## One step -/

theorem handsOver_eq_false (hkept : s'.slotOf i = s.slotOf i ∨ s'.slotOf i = none) :
    handsOver s s' (.work i) = false := by
  show ((s.slotOf i).isNone && (s'.slotOf i).isSome) = false
  rcases hkept with he | he
  · rw [he]
    cases s.slotOf i <;> rfl
  · rw [he]
    exact Bool.and_false _

theorem handsOver_of_set {new : Worker} (hw : s.workers[i]? = some w)
    (hworkers : s'.workers = s.workers.setIfInBounds i new)
    (hnew : new.handoff = w.handoff ∨ new.handoff = none) : handsOver s s' (.work i) = false := by
  have hw' : s'.workers[i]? = some new := by
    rw [hworkers]
    exact (getElem?_set new hw i).trans (if_pos rfl)
  apply handsOver_eq_false
  rw [slotOf_of_here hw, slotOf_of_here hw']
  exact hnew

theorem handsOver_of_filled {new : Worker} {job : Nat} (hw : s.workers[i]? = some w) (hno : w.handoff = none)
    (hworkers : s'.workers = s.workers.setIfInBounds i new) (hnew : new.handoff = some job) :
      handsOver s s' (.work i) = true := by
  have hw' : s'.workers[i]? = some new := by
    rw [hworkers]
    exact (getElem?_set new hw i).trans (if_pos rfl)
  show ((s.slotOf i).isNone && (s'.slotOf i).isSome) = true
  rw [slotOf_of_here hw, slotOf_of_here hw', hno, hnew]
  rfl

theorem endsInPanic_eq_false {m : Move κ μ ρ} (hds : deeds s s' m = ds) (hno : ds.countP Deed.isEnded = 0) :
    endsInPanic s s' m = false := by
  have hany : ds.any Deed.isEnded = false := by
    rw [List.any_eq_false]
    exact List.countP_eq_zero.mp hno
  unfold endsInPanic
  rw [hds, hany, Bool.false_and]

section
variable (h : s.Sound)
include h

/-- Where the worker survives the end of a run, the run is counted as it has ended. -/
theorem counters_of_run {fiber : Nat} {run : Run κ μ ρ} {panic : Option Fault}
    (hon : OnRun s worker w fiber run) (hrest : run.rest.EndsIn panic)
    (halive : (move body s (.work worker)).deaths = []) :
    (move body s (.work worker)).hub.counters = Hub.counted s.hub.counters panic := by
  obtain ⟨record, hrec, -⟩ := record_onRun h hon
  have hcounters :
      (Hub.endRun (workerName worker) run.job run.held panic : Act ρ (Hub κ) Unit).Ends s.hub fun r h' =>
      r = .ok () → h'.counters = Hub.counted s.hub.counters panic := Hub.ends_endRun_counters h.tidy hrec
  unfold Ends at hcounters
  generalize hend :
    (Hub.endRun (workerName worker) run.job run.held panic : Act ρ (Hub κ) Unit) s.hub = o at hcounters
  obtain ⟨fault | _, hub, log⟩ := o
  · -- the fault would have ended the worker
    exfalso
    have hmove :
        move body s (.work worker) = ((s.putRun fiber none).setHub hub).setWorker worker
        { w with stage := .dead } := by
      rw [move, step_state hon.alive, tryStep_over hon hrest, endRun_of_hub hend]
      exact congrArg (fun workers => { (s.putRun fiber none).setHub hub with workers })
        (modify_eq_set _ hon.here)
    rw [hmove] at halive
    exact deaths_setWorker_dead hon.here halive
  · rw [move, step_over hon hrest hend]
    exact hcounters rfl

theorem Turn.metered (ht : Turn body s worker s' ds) (hds : deeds s s' (.work worker) = ds)
    (halive : s'.deaths = []) (hcounted : ∀ w fiber run panic, OnRun s worker w fiber run →
      run.rest.EndsIn panic → s'.hub.counters = Hub.counted s.hub.counters panic) :
    Metered s.hub.counters s'.hub.counters ds (endsInPanic s s' (.work worker)).toNat
      (handsOver s s' (.work worker)).toNat := by
  have hkept : s'.workers = s.workers → (handsOver s s' (.work worker)).toNat = 0 := by
    intro hworkers
    rw [handsOver_eq_false (Or.inl (by rw [slotOf, slotOf, hworkers]))]
    rfl
  have hset : ∀ {w new : Worker}, s.workers[worker]? = some w →
    s'.workers = s.workers.setIfInBounds worker new →
      (new.handoff = w.handoff ∨ new.handoff = none) → ds.countP Deed.isEnded = 0 →
      Metered s.hub.counters s'.hub.counters ds 0 0 →
      Metered s.hub.counters s'.hub.counters ds (endsInPanic s s' (.work worker)).toNat
        (handsOver s s' (.work worker)).toNat := by
    intro w new hw hworkers hnew hno hmetered
    rw [endsInPanic_eq_false hds hno, handsOver_of_set hw hworkers hnew]
    exact hmetered
  cases ht with
  | rest | exhausted =>
    rw [endsInPanic_eq_false hds rfl, hkept rfl]
    exact .refl _
  | started hw => exact hset hw rfl (Or.inl rfl) rfl (.refl _)
  | returned hon | left hon => exact hset hon.here rfl (Or.inl rfl) rfl (.refl _)
  | parked hon => exact hset hon.here rfl (Or.inl rfl) rfl (.parked _ _ _ _ _)
  | resumed hon => exact hset hon.here rfl (Or.inl rfl) rfl (.resumed _ _)
  | began hon hrec hway =>
    refine hset hon.here rfl ?_ rfl (.quiet _ rfl rfl rfl rfl)
    rcases hway with ⟨-, rfl, -⟩ | ⟨p, a, -, -, rfl, -⟩
    · exact Or.inr rfl
    · exact Or.inl rfl
  | @went w fiber run run' s₁ queued action hon hjob hcalled hdoes hsource =>
    have hcharges : Hub.Charges s.hub s₁.hub := by
      rcases hsource with ⟨c, next, -, rfl, -⟩ | ⟨rfl, -⟩
      · exact perform_charges h.fit (some worker) run.held c
      · exact .refl _
    have hno : (acceptances queued ++ [.acted run.job action] : List
        (Deed κ μ ρ)).countP Deed.isEnded = 0 := by
      cases queued <;> rfl
    rw [endsInPanic_eq_false hds hno, hkept (by rw [putRun, hcalled.rest])]
    exact (hcalled.metered hcharges).trans (.quiet _ rfl rfl rfl rfl)
  | @ended w fiber run record panic hub hon hover =>
    obtain ⟨cause, hcause⟩ := hover.endsIn
    have hpanic : endsInPanic s ((s.putRun fiber none).setHub hub) (.work worker) = cause.isSome := by
      unfold endsInPanic
      rw [hds, ← hcause.isPanic]
      simp [runOn?, hon.here, hon.current, hon.run, Deed.isEnded]
    rw [hpanic, hkept rfl, hcounted w fiber run cause hon hcause]
    exact .ended _ _ _ cause
  | died hon => exact absurd halive (deaths_setWorker_dead hon.here)
  | @passed w fiber next job p a lanes slot old hon hno htake hneeds hnormal htier hx hfree hold seed =>
    rw [endsInPanic_eq_false hds rfl, handsOver_of_filled hon.here hno rfl rfl]
    exact .passed _

end

/-! ## Fibers at rest -/

theorem mem_resting {x : Nat} : x ∈ s.resting ↔ (s.run? x).isSome = true ∧ x ∉ s.currents := by
  simp only [resting, List.mem_filter, List.mem_range, Bool.and_eq_true, Bool.not_eq_true',
    List.contains_eq_mem, decide_eq_false_iff_not]
  apply and_iff_right_of_imp
  rintro ⟨hrun, -⟩
  obtain ⟨run, hrun⟩ := Option.isSome_iff_exists.mp hrun
  exact lt_runs_of_run? hrun

theorem nodup_resting (s : System κ μ ρ) : s.resting.Nodup :=
  List.Pairwise.filter _ List.nodup_range

theorem length_resting_eq (hmem : ∀ x, x ∈ s'.resting ↔ x ∈ s.resting) :
    s'.resting.length = s.resting.length := by
  apply List.Perm.length_eq
  exact (List.perm_ext_iff_of_nodup (nodup_resting s') (nodup_resting s)).mpr hmem

theorem length_resting_succ {y : Nat} (hnot : y ∉ s.resting)
    (hmem : ∀ x, x ∈ s'.resting ↔ x = y ∨ x ∈ s.resting) :
    s'.resting.length = s.resting.length + 1 := by
  have hperm : s'.resting.Perm (y :: s.resting) := by
    apply (List.perm_ext_iff_of_nodup (nodup_resting s') (List.nodup_cons.mpr ⟨hnot, nodup_resting s⟩)).mpr
    intro x
    rw [hmem, List.mem_cons]
  exact hperm.length_eq

section
variable {new : Worker} {fiber : Nat} (h : s.Sound) (hw : s.workers[i]? = some w)
include h hw

theorem mem_currents_of_set (hworkers : s'.workers = s.workers.setIfInBounds i new) (x : Nat) :
    x ∈ s'.currents ↔ new.current = some x ∨ x ∈ s.currents ∧ w.current ≠ some x := by
  have hcount :
      s'.currents.count x + w.current.toList.count x = s.currents.count x + new.current.toList.count x := by
    rw [currents, hworkers]
    exact count_currents hw rfl new rfl x
  have hone : ∀ c : Option Nat, c.toList.count x = if c = some x then 1 else 0 := by
    intro c
    cases c with
    | none => rfl
    | some y => simp [count_one]
  have hplace := h.place x
  unfold places at hplace
  rw [hone, hone] at hcount
  rw [← List.count_pos_iff, ← List.count_pos_iff]
  by_cases hd : new.current = some x
  · rw [if_pos hd] at hcount
    have hle : (if w.current = some x then 1 else 0) ≤ s.currents.count x := by
      split
      · rename_i hc
        exact (h.of_current hw hc).1
      · exact Nat.zero_le _
    exact iff_of_true (by omega) (Or.inl hd)
  · rw [if_neg hd] at hcount
    by_cases hc : w.current = some x
    · rw [if_pos hc] at hcount
      exact iff_of_false (by omega) (by simp [hd, hc])
    · rw [if_neg hc] at hcount
      simp only [hd, hc, ne_eq, not_false_eq_true, and_true, false_or]
      omega

theorem mem_resting_of_set (hworkers : s'.workers = s.workers.setIfInBounds i new) (hruns : s'.runs = s.runs)
    (x : Nat) :
    x ∈ s'.resting ↔ (s.run? x).isSome = true ∧ new.current ≠ some x ∧
      (x ∈ s.currents → w.current = some x) := by
  have hrun : s'.run? x = s.run? x := by rw [run?, run?, hruns]
  rw [mem_resting, mem_currents_of_set h hw hworkers, hrun, not_or, not_and, Classical.not_not]

/-- A worker that goes from one empty stack to another leaves the parked fibers alone. -/
theorem mem_resting_of_bare (hworkers : s'.workers = s.workers.setIfInBounds i new) (hruns : s'.runs = s.runs)
    (hold : ∀ y, w.current = some y → s.run? y = none) (hnew : ∀ y, new.current = some y → s.run? y = none)
    (x : Nat) :
    x ∈ s'.resting ↔ x ∈ s.resting := by
  rw [mem_resting_of_set h hw hworkers hruns, mem_resting]
  constructor
  · rintro ⟨hrun, -, hin⟩
    refine ⟨hrun, ?_⟩
    intro hx
    rw [hold x (hin hx)] at hrun
    cases hrun
  · rintro ⟨hrun, hx⟩
    refine ⟨hrun, ?_, fun hin => absurd hin hx⟩
    intro hcur
    rw [hnew x hcur] at hrun
    cases hrun

section
variable {next : Nat} (hworkers : s'.workers = s.workers.setIfInBounds i new) (hruns : s'.runs = s.runs)
  (hcur : w.current = some fiber) (hnew : new.current = some next)
include hworkers hruns hcur hnew

theorem length_resting_parked (hrun : (s.run? fiber).isSome = true) (hnext : s.run? next = none) :
    s'.resting.length = s.resting.length + 1 := by
  have hin : fiber ∈ s.currents := mem_currents.mpr ⟨i, w, hw, hcur⟩
  have hne : ∀ x, (s.run? x).isSome = true → next ≠ x := by
    rintro x hx rfl
    rw [hnext] at hx
    cases hx
  refine length_resting_succ (fun hm => (mem_resting.mp hm).2 hin) ?_
  intro x
  rw [mem_resting_of_set h hw hworkers hruns, mem_resting, hcur, hnew]
  simp only [ne_eq, Option.some.injEq]
  constructor
  · rintro ⟨hx, -, hkept⟩
    by_cases hmem : x ∈ s.currents
    · exact Or.inl (hkept hmem).symm
    · exact Or.inr ⟨hx, hmem⟩
  · rintro (rfl | ⟨hx, hmem⟩)
    · exact ⟨hrun, hne x hrun, fun _ => rfl⟩
    · exact ⟨hx, hne x hx, fun hin => absurd hin hmem⟩

theorem length_resting_resumed (hrun : s.run? fiber = none) (hnext : (s.run? next).isSome = true)
    (hout : next ∉ s.currents) :
    s.resting.length = s'.resting.length + 1 := by
  have hmem := mem_resting_of_set h hw hworkers hruns
  simp only [hcur, hnew, ne_eq, Option.some.injEq] at hmem
  refine length_resting_succ (fun hm => ((hmem next).mp hm).2.1 rfl) ?_
  intro x
  rw [mem_resting, hmem]
  constructor
  · rintro ⟨hx, hin⟩
    by_cases he : next = x
    · exact Or.inl he.symm
    · exact Or.inr ⟨hx, he, fun h => absurd h hin⟩
  · rintro (rfl | ⟨hx, -, hkept⟩)
    · exact ⟨hnext, hout⟩
    · refine ⟨hx, ?_⟩
      intro hin
      rw [← hkept hin, hrun] at hx
      cases hx

end

omit h in
theorem mem_resting_of_putRun {run : Option (Run κ μ ρ)} (hcur : w.current = some fiber)
    (hruns : s'.runs = s.runs.setIfInBounds fiber run) (hcurrents : s'.currents = s.currents) (x : Nat) :
      x ∈ s'.resting ↔ x ∈ s.resting := by
  rw [mem_resting, mem_resting, hcurrents]
  by_cases hx : fiber = x
  · subst hx
    have hin : fiber ∈ s.currents := mem_currents.mpr ⟨i, w, hw, hcur⟩
    simp [hin]
  · have hrun : s'.run? x = s.run? x := by
      unfold run?
      rw [hruns, Array.getElem?_setIfInBounds, if_neg hx]
    rw [hrun]

end

theorem Turn.rests (h : s.Sound) (ht : Turn body s worker s' ds) :
    s'.resting.length + ds.countP Deed.isResumed = s.resting.length + ds.countP Deed.isParked := by
  have hsame : (∀ x, x ∈ s'.resting ↔ x ∈ s.resting) → ds.countP Deed.isResumed = ds.countP Deed.isParked →
      s'.resting.length + ds.countP Deed.isResumed = s.resting.length + ds.countP Deed.isParked := by
    intro hmem hds
    rw [length_resting_eq hmem, hds]
  have hbare : ∀ {w new : Worker} {fiber : Nat}, OnLoop s worker w fiber →
    s'.workers = s.workers.setIfInBounds worker new →
      s'.runs = s.runs → (∀ y, new.current = some y → s.run? y = none) → ∀ x, x ∈ s'.resting ↔
        x ∈ s.resting := by
    intro w new fiber hon hworkers hruns hnew
    apply mem_resting_of_bare h hon.here hworkers hruns ?_ hnew
    intro y hy
    rw [← Option.some.inj (hon.current.symm.trans hy)]
    exact hon.run
  have hfresh : ∀ {x : Nat} {slot : Slot}, s.pool.slots[x]? = some slot → slot.free = true →
      s.run? x = none := by
    intro x slot hx hfree
    apply h.unused
    rw [FiberPool.isFree_of_slot hx]
    exact hfree
  cases ht with
  | rest | exhausted => exact hsame (fun _ => Iff.rfl) rfl
  | @started w fiber slot hw hstage htier hx hfree seed =>
    have hnone := (h.worker worker w hw).away (Or.inl hstage)
    refine hsame (mem_resting_of_bare h hw rfl rfl ?_ ?_) rfl
    · intro y hy
      cases hnone.symm.trans hy
    · intro y hy
      rw [← Option.some.inj hy]
      exact hfresh hx hfree
  | @went w fiber run run' s₁ queued action hon hjob hcalled =>
    obtain ⟨hub, kept, memory, rfl⟩ : ∃ hub kept memory, s₁ = { s with hub, kept, memory } :=
      ⟨_, _, _, hcalled.rest⟩
    refine hsame (mem_resting_of_putRun hon.here hon.current rfl rfl) ?_
    cases queued <;> rfl
  | ended hon => exact hsame (mem_resting_of_putRun hon.here hon.current rfl rfl) rfl
  | died hon =>
    exact hsame (mem_resting_of_putRun hon.here hon.current rfl (gather_set_of_eq _ hon.here rfl)) rfl
  | @began w w' fiber job record lanes hon hrec hway =>
    refine hsame (mem_resting_of_putRun hon.here hon.current rfl (gather_set_of_eq _ hon.here ?_)) rfl
    rcases hway with ⟨-, rfl, -⟩ | ⟨p, a, -, -, rfl, -⟩ <;> rfl
  | @returned w fiber job p a lanes lanes' hon =>
    refine hsame (hbare hon rfl rfl ?_) rfl
    intro y hy
    rw [← Option.some.inj (hon.current.symm.trans hy)]
    exact hon.run
  | @left w fiber old hon =>
    refine hsame (hbare hon rfl rfl ?_) rfl
    intro y hy
    cases hy
  | @passed w fiber next job p a lanes slot old hon hno htake hneeds hnormal htier hx hfree hold seed =>
    refine hsame (hbare hon rfl rfl ?_) rfl
    intro y hy
    rw [← Option.some.inj hy]
    exact hfresh hx hfree
  | @parked w fiber next group run rest state slot old hon hrest hheld hs hcount htier hx hfree hold seed =>
    exact length_resting_parked h hon.here rfl rfl hon.current rfl (by rw [hon.run]; rfl) (hfresh hx hfree)
  | @resumed w fiber ready lanes slot old hon hno htake hx hold =>
    have hidle : ready.fiber ∈ s.hub.idle :=
      List.mem_append_right _ (List.mem_map.mpr
        ⟨ready, (Lanes.take_fiber htake).1.mem_iff.mpr List.mem_cons_self, rfl⟩)
    have hout : ready.fiber ∉ s.currents := List.count_eq_zero.mp (h.of_idle hidle).2.1
    exact (length_resting_resumed h hon.here (by rfl) (by rfl) hon.current (by rfl) hon.run
      (h.unfinished ready.fiber hidle) hout).symm

/-! ## Moves and runs -/

theorem metered_move (body : κ → Program κ μ ρ Unit) (h : s.Sound) (m : Move κ μ ρ)
    (halive : (move body s m).deaths = []) :
    Metered s.hub.counters (move body s m).hub.counters (deeds s (move body s m) m)
      (endsInPanic s (move body s m) m).toNat (handsOver s (move body s m) m).toNat := by
  cases m with
  | work worker =>
    exact (turn_of_sound h body worker).metered h rfl halive fun w fiber run panic hon hrest =>
    counters_of_run h hon hrest halive
  | call c =>
    have hcalled : Called s (ask c s).state (c.accepted s.hub.jobs.size (ask c s).result) :=
      ask_called h.fit c
    have hcharges : Hub.Charges s.hub (ask c s).state.hub := ask_charges h.fit c
    have hpanic : endsInPanic s (move body s (.call c)) (.call c) = false := Bool.and_false _
    rw [hpanic]
    exact hcalled.metered hcharges
  | record code extended oneShot =>
    have hcounters :
        (Hub.addRecord (.new code extended oneShot) : Act ρ (Hub κ) Nat).Ends s.hub fun _ h' =>
        h'.counters = s.hub.counters := by
      rw [Hub.ends_addRecord]
      split <;> rfl
    have hcounters : (move body s (.record code extended oneShot)).hub.counters = s.hub.counters := hcounters
    rw [hcounters]
    exact .refl _
  | stop => exact .refl _

theorem rests_move (body : κ → Program κ μ ρ Unit) (h : s.Sound) (m : Move κ μ ρ) :
    (move body s m).resting.length + (deeds s (move body s m) m).countP Deed.isResumed =
      s.resting.length + (deeds s (move body s m) m).countP Deed.isParked := by
  rcases work_or_outside h body m with ⟨worker, rfl⟩ | ⟨hworkers, hruns, -, queued, hds⟩
  · exact (turn_of_sound h body worker).rests h
  · have hsame : ∀ x, x ∈ (move body s m).resting ↔ x ∈ s.resting := by
      intro x
      rw [mem_resting, mem_resting, run?, run?, hruns, currents, currents, hworkers]
    rw [length_resting_eq hsame, hds]
    cases queued <;> rfl

theorem alive_play (h : s.Sound) (moves : List (Move κ μ ρ)) (halive : (play body s moves).deaths = []) :
    s.deaths = [] := by
  induction moves generalizing s with
  | nil => exact halive
  | cons m moves ih => exact alive_move h m (ih (sound_move body h m) halive)

theorem metered_play (h : s.Sound) (moves : List (Move κ μ ρ)) (halive : (play body s moves).deaths = []) :
    Metered s.hub.counters (play body s moves).hub.counters (history body s moves)
      (occasions body endsInPanic s moves) (occasions body handsOver s moves) := by
  induction moves generalizing s with
  | nil => exact .refl _
  | cons m moves ih =>
    have hsound := sound_move body h m
    exact (metered_move body h m (alive_play hsound moves halive)).trans (ih hsound halive)

theorem rests_play (h : s.Sound) (moves : List (Move κ μ ρ)) :
    (play body s moves).resting.length + (history body s moves).countP Deed.isResumed =
      s.resting.length + (history body s moves).countP Deed.isParked := by
  induction moves generalizing s with
  | nil => rfl
  | cons m moves ih =>
    have hmove := rests_move body h m
    have hrest := ih (sound_move body h m)
    rw [history, List.countP_append, List.countP_append]
    show (play body (move body s m) moves).resting.length + _ = _
    omega

theorem panics_le_ended (body : κ → Program κ μ ρ Unit) (s : System κ μ ρ) (moves : List (Move κ μ ρ)) :
    occasions body endsInPanic s moves ≤ (history body s moves).countP Deed.isEnded := by
  induction moves generalizing s with
  | nil => exact Nat.le_refl 0
  | cons m moves ih =>
    have hmove :
        (endsInPanic s (move body s m) m).toNat ≤ (deeds s (move body s m) m).countP Deed.isEnded := by
      cases hpanic : endsInPanic s (move body s m) m with
      | false => exact Nat.zero_le _
      | true =>
        obtain ⟨d, hd, hended⟩ := List.any_eq_true.mp (Bool.and_eq_true_iff.mp hpanic).1
        exact List.countP_pos_iff.mpr ⟨d, hd, hended⟩
    have hrest := ih (move body s m)
    rw [history, List.countP_append, occasions]
    omega

/-! ## Readings -/

theorem toInt_toInt64_of_lt {n : UInt64} (h : n.toNat < wordSize 63) : n.toInt64.toInt = n.toNat := by
  have hbits : n.toInt64.toInt = n.toBitVec.toInt := rfl
  have hnat : n.toBitVec.toNat = n.toNat := rfl
  rw [hbits, BitVec.toInt_eq_toNat_of_lt]
  · rw [hnat]
  · simp at h
    omega

theorem pending_of_counts {c : Counters} {unended : Nat} (hfew : c.submitted.toNat < wordSize 63)
    (hsplit : c.submitted.toNat = c.executed.toNat + unended) (mode : Mode) :
      c.pending mode = .ok (unended : Int) := by
  have hsubmitted := toInt_toInt64_of_lt hfew
  have hexecuted := toInt_toInt64_of_lt (show c.executed.toNat < wordSize 63 by omega)
  have hexact : c.submitted.toInt64.toInt - c.executed.toInt64.toInt = unended := by omega
  unfold Counters.pending Mode.signed
  rw [hexact, if_pos]
  omega

structure Readings (s : System κ μ ρ) (c : Counters) (ds : List (Deed κ μ ρ)) (panics passes : Nat) :
    Prop where
  submitted : c.submitted.toNat = ds.countP Deed.isAccepted
  executed : c.executed.toNat = ds.countP Deed.isEnded
  panicked : c.panicked.toNat = panics
  unended : ds.countP Deed.isAccepted = ds.countP Deed.isEnded + s.pending.length
  pending : ∀ mode, c.pending mode = .ok (s.pending.length : Int)
  suspensions : c.suspensions = .ofNat (ds.countP Deed.isParked)
  resting : ds.countP Deed.isParked = ds.countP Deed.isResumed + s.resting.length
  suspended : (c.suspensions - .ofNat (ds.countP Deed.isResumed)).toNat = s.resting.length
  switches : c.switches = c.suspensions + .ofNat (ds.countP Deed.isResumed) + .ofNat passes

theorem length_resting_lt (h : s.Sound) : s.resting.length < UInt64.size := by
  have hle : s.resting.length ≤ s.runs.size := by
    calc s.resting.length ≤ (List.range s.runs.size).length := List.length_filter_le ..
      _ = s.runs.size := List.length_range
  have hruns := h.runs
  have hbound := h.pool.bound
  have h31 : wordSize 31 = 2147483648 := rfl
  have h64 : UInt64.size = 18446744073709551616 := rfl
  omega

theorem Metered.readings {c : Counters} {panics passes : Nat} (hm : Metered .zero c ds panics passes)
    (h : s.Sound) (hunended : ds.countP Deed.isAccepted = ds.countP Deed.isEnded + s.pending.length)
    (hresting : ds.countP Deed.isParked = ds.countP Deed.isResumed + s.resting.length)
    (hpanics : panics ≤ ds.countP Deed.isEnded) (hfew : ds.countP Deed.isAccepted < wordSize 63) :
    Readings s c ds panics passes := by
  have htold : ∀ {a : UInt64} {n : Nat}, a = 0 + .ofNat n → n ≤ ds.countP Deed.isAccepted → a.toNat = n := by
    intro a n ha hn
    rw [ha, UInt64.zero_add, UInt64.toNat_ofNat_of_lt']
    have h64 : UInt64.size = 18446744073709551616 := rfl
    simp at hfew
    omega
  have hsubmitted := htold hm.submitted (Nat.le_refl _)
  have hexecuted := htold hm.executed (by omega)
  have hsuspensions : c.suspensions = .ofNat (ds.countP Deed.isParked) :=
    hm.suspensions.trans (UInt64.zero_add _)
  exact {
    submitted := hsubmitted
    executed := hexecuted
    panicked := htold hm.panicked (by omega)
    unended := hunended
    pending := pending_of_counts (by rw [hsubmitted]; exact hfew) (by rw [hsubmitted, hexecuted, hunended])
    suspensions := hsuspensions
    resting := hresting
    suspended := by
      have hrest : ds.countP Deed.isParked - ds.countP Deed.isResumed = s.resting.length := by omega
      rw [hsuspensions, ← UInt64.ofNat_sub (by omega), hrest, UInt64.toNat_ofNat_of_lt' (length_resting_lt h)]
    switches := by
      rw [hm.switches, hsuspensions, UInt64.ofNat_add, UInt64.ofNat_add]
      exact UInt64.zero_add _ }

/-- While no group runs out of handle counts, the fibers at rest are those on the lists of the
groups and in the queues. -/
theorem Placed.perm_resting (h : Placed s ds) : s.hub.idle.Perm s.resting := by
  have hnodup : s.hub.idle.Nodup := by
    rw [List.nodup_iff_count]
    intro x
    have := h.sound.place x
    unfold places at this
    omega
  apply (List.perm_ext_iff_of_nodup hnodup (nodup_resting s)).mpr
  intro x
  rw [mem_resting]
  constructor
  · intro hx
    exact ⟨h.sound.unfinished x hx, List.count_eq_zero.mp (h.sound.of_idle hx).2.1⟩
  · rintro ⟨hrun, hout⟩
    obtain ⟨run, hrun⟩ := Option.isSome_iff_exists.mp hrun
    have hlt := lt_runs_of_run? hrun
    rw [h.sound.runs] at hlt
    have hbusy : ¬s.pool.isFree x = true := by
      intro hfree
      cases (h.sound.unused x hfree).symm.trans hrun
    have hfull := h.full x hlt
    unfold places at hfull
    rw [if_neg hbusy, List.count_eq_zero.mpr hout] at hfull
    exact List.count_pos_iff.mp (by omega)

theorem New.resting (h : New s) : s.resting = [] := by
  apply List.eq_nil_iff_forall_not_mem.mpr
  intro x hx
  have hrun := (mem_resting.mp hx).1
  rw [h.run? x] at hrun
  cases hrun

section
variable {mode : Mode} {host : Host} {config : Config} {memory : μ} {x : σ} {s₀ : System κ μ ρ}
  {moves : List (Move κ μ ρ)} (hnew :
    ((new mode host config memory : Act ρ σ (Except Refusal (System κ μ ρ))) x).result = .ok (.ok s₀))
  (hplay : play body s₀ moves = s) (halive : s.dead = [])
include hnew hplay halive

/-- In a run that no worker died in, and that fewer jobs were accepted in than a signed word
can tell, the counters are up to date between all moves. -/
theorem counters_tell_the_run (hfew : (history body s₀ moves).countP Deed.isAccepted < wordSize 63) :
    Readings s s.hub.counters (history body s₀ moves) (occasions body endsInPanic s₀ moves)
      (occasions body handsOver s₀ moves) ∧
    (Along body (fun t _ => FewHandles t) s₀ moves → s.hub.idle.Perm s.resting) ∧
    (s.isOver = true → s.aborted = false → (close s).result = .ok (.ok ()) →
      s.hub.counters.submitted = s.hub.counters.executed ∧
      s.hub.counters.switches = 2 * s.hub.counters.suspensions + .ofNat
        (occasions body handsOver s₀ moves)) := by
  have h₀ := new_of_ok hnew
  have hsound : s.Sound := hplay ▸ sound_play body h₀.sound moves
  have hdeaths : s.deaths = [] := List.eq_nil_of_length_eq_zero (by rw [← length_dead, halive]; rfl)
  have hzero : s₀.hub.counters = .zero := counters_of_new (hub_of_ok hnew)
  have hmetered :
      Metered s₀.hub.counters s.hub.counters (history body s₀ moves) (occasions body endsInPanic s₀ moves)
        (occasions body handsOver s₀ moves) := by
    subst hplay
    exact metered_play h₀.sound moves hdeaths
  have hslots : SlotsBy s₀ s (history body s₀ moves) := hplay ▸ slotsBy_play h₀.sound moves
  have hrests : s.resting.length + (history body s₀ moves).countP Deed.isResumed =
      s₀.resting.length + (history body s₀ moves).countP Deed.isParked := hplay ▸ rests_play h₀.sound moves
  have hactive := hsound.active_toNat
  rw [hzero] at hmetered
  rw [SlotsBy, h₀.hub.active, hactive, hdeaths] at hslots
  rw [h₀.resting] at hrests
  have hreadings : Readings s s.hub.counters (history body s₀ moves) (occasions body endsInPanic s₀ moves)
      (occasions body handsOver s₀ moves) := by
    apply hmetered.readings hsound ?_ ?_ (panics_le_ended body s₀ moves) hfew
    · simp at hslots
      omega
    · simp at hrests
      omega
  refine ⟨hreadings, ?_, ?_⟩
  · intro hhandles
    have hplaced : Placed s (history body s₀ moves) := hplay ▸ h₀.placed_play hhandles
    exact hplaced.perm_resting
  · intro hover hrunning hclosed
    obtain ⟨-, -, hpending, -⟩ := hsound.drained hover hrunning hdeaths
    have hnone : s.resting = [] := by
      apply List.eq_nil_iff_forall_not_mem.mpr
      intro y hy
      obtain ⟨run, hrun⟩ := Option.isSome_iff_exists.mp (mem_resting.mp hy).1
      have hmem := mem_pending_of_run hrun
      rw [hpending] at hmem
      cases hmem
    refine ⟨?_, ?_⟩
    · apply UInt64.toNat_inj.mp
      rw [hreadings.submitted, hreadings.executed, hreadings.unended, hpending]
      rfl
    -- Nobody rests in the end: who was parked was resumed, with a switch each.
    · have hback :
          (history body s₀ moves).countP Deed.isResumed = (history body s₀ moves).countP Deed.isParked := by
        rw [hreadings.resting, hnone]
        rfl
      have htwice : ∀ a : UInt64, 2 * a = a + a := fun a => by
        rw [show (2 : UInt64) = 1 + 1 from rfl, UInt64.add_mul, UInt64.one_mul]
      rw [hreadings.switches, hback, ← hreadings.suspensions, htwice]

end

/-- A job is passed on to the extended fiber and waits there for another one, panics once it is
resumed, and the workers leave. -/
def touring : List (Move Bool Unit Unit) :=
  [.call .newGroup, .record true true false, .call (.addJob 0 .normal .any),
    .call (.spawn false (some 0) .normal .any)] ++
    List.replicate 10 (.work 0) ++ [.stop, .work 0, .work 1, .work 1]

theorem touring_counts_every_switch :
    let s := play rashBody narrow touring
    s.dead = [] ∧ (history rashBody narrow touring).countP Deed.isAccepted = 2 ∧
      occasions rashBody endsInPanic narrow touring = 1 ∧ occasions rashBody handsOver narrow touring = 1 ∧
      (history rashBody narrow touring).countP Deed.isResumed = 1 ∧ s.hub.counters = ⟨2, 2, 1, 3, 1⟩ ∧
      Readings s s.hub.counters (history rashBody narrow touring) 1 1 ∧ s.hub.idle.Perm s.resting ∧
      s.hub.counters.submitted = s.hub.counters.executed ∧
        s.hub.counters.switches = 2 * s.hub.counters.suspensions + .ofNat 1 := by
  intro s
  have hplay : play rashBody narrow touring = s := rfl
  have halive : s.dead = [] := by decide +kernel
  have haccepted : (history rashBody narrow touring).countP Deed.isAccepted = 2 := by decide +kernel
  have hpanics : occasions rashBody endsInPanic narrow touring = 1 := by decide +kernel
  have hpasses : occasions rashBody handsOver narrow touring = 1 := by decide +kernel
  obtain ⟨hreadings, hidle, hstopped⟩ :=
    counters_tell_the_run new_narrow hplay halive (by rw [haccepted]; decide)
  obtain ⟨hexecuted, hswitches⟩ := hstopped (by decide +kernel) (by decide +kernel) (close_ok_iff.mpr halive)
  rw [hpanics, hpasses] at hreadings
  rw [hpasses] at hswitches
  exact ⟨halive, haccepted, hpanics, hpasses, by decide +kernel, by decide +kernel, hreadings,
    hidle (by decide +kernel), hexecuted, hswitches⟩

end System

end FiberScheduler
