import FiberScheduler.Inbox
import FiberScheduler.Proofs.Wakeups

/-!
# Rollbacks

A submission claims its job, has its group count the run, and offers the job to a
scheduler. Where that refuses, the claim and the count are taken back.
-/

namespace FiberScheduler

namespace Hub

open Act

variable {ρ κ : Type} {h h' : Hub κ} {g job : Nat} {s : Group} {record : Job κ} {group : Option Nat}
  {p : Priority} {a : Affinity}

/-- Whether a group can count one run more and be signaled for it again, with nobody
waiting meanwhile. -/
def Receptive (h : Hub κ) (g : Nat) : Prop :=
  ∃ s, h.groups.get? g = some s ∧ s.Latched ∧ s.count ≠ Int32.maxValue ∧ s.handles ≠ 0

theorem gives_wake_nobody (hs : h.groups.get? g = some s) (hhead : s.head = none) :
    (wake g : Act ρ (Hub κ) Unit).Gives h () (h.store g (some s) h.groups.free) := by
  unfold Gives wake
  rw [ends_bind, ends_group hs, after_ok, ends_bind, ends_modifyGroup hs, after_ok, ends_bind, ends_get,
    after_ok, waiters, hhead, chain_none]
  exact ⟨rfl, by rw [show ({ s with head := none } : Group) = s by rw [← hhead]]; rfl⟩

theorem toInt_succ {n : Int32} (h : n ≠ Int32.maxValue) : (n + 1).toInt = n.toInt + 1 := by
  have hle := n.toInt_le
  have hge := n.le_toInt
  have hmax : Int32.maxValue.toInt = 2147483647 := rfl
  have hne : n.toInt ≠ 2147483647 := fun he => h (Int32.toInt_inj.mp he)
  rw [Int32.toInt_add, show (1 : Int32).toInt = 1 from rfl]
  exact Int.bmod_eq_of_le (by omega) (by omega)

theorem gives_signal_again (hs : h.groups.get? g = some ⟨s.count + 1, s.handles, s.head⟩) (hl : s.Latched)
    (hmax : s.count ≠ Int32.maxValue) :
    (signal g : Act ρ (Hub κ) Unit).Gives h () (h.store g (some s) h.groups.free) := by
  have hcount := hl.count
  have hsucc := toInt_succ hmax
  have hnot : ¬(s.count + 1 < 1) := by
    rw [Int32.lt_iff_toInt_lt, hsucc, show (1 : Int32).toInt = 1 from rfl]
    omega
  have hback : s.count + 1 - 1 = s.count := by
    rw [Int32.sub_eq_add_neg, Int32.add_assoc, show (1 : Int32) + -1 = 0 from rfl, Int32.add_zero]
  unfold Gives signal
  rw [ends_releaseGroup hs, if_neg hnot]
  dsimp only
  rw [hback]
  by_cases hone : s.count + 1 = 1
  · have hzero : s.count = 0 := by rw [← hback, hone]; rfl
    have hs' : (h.store g (some s) h.groups.free).groups.get? g = some s := by
      rw [get?_store (block_of_get? hs), if_pos rfl]
    have hwake := gives_wake_nobody (ρ := ρ) hs' (hl.head hzero)
    rw [store_store] at hwake
    rw [if_pos hone]
    exact hwake
  · rw [if_neg hone]
    exact ⟨rfl, rfl⟩

theorem gives_signalAndDrop_again (hs : h.groups.get? g = some s) (hl : s.Latched)
    (hmax : s.count ≠ Int32.maxValue) (hhandles : s.handles ≠ 0) :
    (signalAndDrop g : Act ρ (Hub κ) Unit).Gives
      (h.store g (some ⟨s.count + 1, s.handles + 1, s.head⟩) h.groups.free) () h := by
  have hb := block_of_get? hs
  have hs₁ : (h.store g (some ⟨s.count + 1, s.handles + 1, s.head⟩) h.groups.free).groups.get? g =
      some ⟨s.count + 1, s.handles + 1, s.head⟩ := by
    rw [get?_store hb, if_pos rfl]
  have hs₂ : (h.store g (some ⟨s.count, s.handles + 1, s.head⟩) h.groups.free).groups.get? g =
      some ⟨s.count, s.handles + 1, s.head⟩ := by
    rw [get?_store hb, if_pos rfl]
  have hsignal :
      (signal g : Act ρ (Hub κ) Unit).Gives
      (h.store g (some ⟨s.count + 1, s.handles + 1, s.head⟩) h.groups.free) ()
        (h.store g (some ⟨s.count, s.handles + 1, s.head⟩) h.groups.free) := by
    have hgives := gives_signal_again (ρ := ρ) (s := ⟨s.count, s.handles + 1, s.head⟩) hs₁
      ⟨hl.count, hl.head⟩ hmax
    rwa [store_store] at hgives
  have hdrop :
      (dropGroup g : Act ρ (Hub κ) Unit).Gives
      (h.store g (some ⟨s.count, s.handles + 1, s.head⟩) h.groups.free) () h := by
    have hone : s.handles + 1 ≠ 1 := fun he => hhandles (by simpa using he)
    have hback : s.handles + 1 - 1 = s.handles := by simp
    unfold Gives
    rw [ends_dropGroup hs₂, if_neg hone, store_store, hback]
    exact ⟨rfl, store_self hs⟩
  unfold signalAndDrop
  have hattempt : ((signal g).attempt : Act ρ (Hub κ) (Except Fault Unit)).Gives _ (.ok ()) _ :=
    ⟨congrArg _ hsignal.1, hsignal.2⟩
  exact hattempt.bind (hdrop.bind ⟨rfl, rfl⟩)

theorem gives_withdraw_enroll (hr : ∀ g, group = some g → h.Receptive g) :
    (withdraw group : Act ρ (Hub κ) Unit).Gives (h.enroll group) () h := by
  cases group with
  | none => exact gives_pure ()
  | some g =>
    obtain ⟨s, hs, hl, hmax, hhandles⟩ := hr g rfl
    simp only [enroll, hs]
    exact gives_signalAndDrop_again hs hl hmax hhandles

/-- A signal gives back the count and the list that a group had one unit ago only where that
unit was within the limit and nobody waited without it. -/
theorem ends_signal_raised {handles : UInt32} (ht : h.Tidy)
    (hs : h.groups.get? g = some ⟨s.count + 1, handles, s.head⟩) :
    (signal g : Act ρ (Hub κ) Unit).Ends h fun _ h' => ∃ s', h'.groups.get? g = some s' ∧
    s'.handles = handles ∧
      (s'.count = s.count → s'.head = s.head → s.Latched ∧ s.count ≠ Int32.maxValue) := by
  have hb := block_of_get? hs
  refine (ends_releaseGroup_cases ht hs).mono fun r h' hr => ?_
  cases hr with
  | refused | ignored => exact ⟨_, hs, rfl, fun hcount => absurd hcount (by simp)⟩
  | counted hn =>
    refine ⟨_, (get?_store hb g).trans (if_pos rfl), rfl, fun _ _ => ?_⟩
    have hmax : s.count ≠ Int32.maxValue := by
      intro he
      rw [show (⟨s.count + 1, handles, s.head⟩ : Group).count = s.count + 1 from rfl, he] at hn
      exact absurd hn (by decide)
    have hpos : 0 < s.count.toInt := by
      rw [Int32.lt_iff_toInt_lt, toInt_succ hmax, show (1 : Int32).toInt = 1 from rfl] at hn
      omega
    refine ⟨⟨by omega, fun hzero => ?_⟩, hmax⟩
    rw [hzero] at hpos
    exact absurd hpos (by decide)
  | woken =>
    -- the list is empty now, so it is the old one only if nobody was on it
    refine ⟨_, (get?_store hb g).trans (if_pos rfl), rfl, fun hcount hhead => ?_⟩
    have hzero : s.count = 0 := hcount.symm
    exact ⟨⟨by rw [hzero]; decide, fun _ => hhead.symm⟩, by rw [hzero]; decide⟩

theorem ends_withdraw_receptive (ht : h.Tidy) (hs : h.groups.get? g = some s) :
    (withdraw (some g) : Act ρ (Hub κ) Unit).Ends (h.enroll (some g)) fun _ h' => h'.groups.get? g = some s →
      h.Receptive g := by
  have henroll : h.enroll (some g) = h.store g (some ⟨s.count + 1, s.handles + 1, s.head⟩) h.groups.free := by
    simp only [enroll, hs]
  have hs₁ : (h.enroll (some g)).groups.get? g = some ⟨s.count + 1, s.handles + 1, s.head⟩ := by
    rw [henroll, get?_store (block_of_get? hs), if_pos rfl]
  have ht₁ : (h.enroll (some g)).Tidy := henroll ▸ (steady_renumber ht hs _ _).1.tidy
  show (signalAndDrop g : Act ρ (Hub κ) Unit).Ends _ _
  unfold signalAndDrop
  rw [ends_bind, ends_attempt]
  refine (ends_signal_raised (ρ := ρ) ht₁ hs₁).mono ?_
  rintro r h₂ ⟨s', hs', hhandles, hlatched⟩
  rw [after_ok, ends_bind, ends_dropGroup hs', after_ok, ends_lift]
  have hb := block_of_get? hs'
  by_cases hlast : s'.handles = 1
  · rw [if_pos hlast, get?_store hb, if_pos rfl]
    exact fun he => by cases he
  · rw [if_neg hlast, get?_store hb, if_pos rfl]
    intro he
    obtain rfl := Option.some.inj he
    obtain ⟨hl, hmax⟩ := hlatched rfl rfl
    refine ⟨_, hs, ⟨hl.count, hl.head⟩, hmax, fun hzero => hlast ?_⟩
    rw [← UInt32.sub_add_cancel s'.handles 1, show s'.handles - 1 = 0 from hzero]
    rfl

/-! ## Claims -/

def claimed (h : Hub κ) (job : Nat) (record : Job κ) (group : Option Nat) : Hub κ :=
  (h.enroll group).setJob job { record with scheduled := true, completion := group }

theorem claimed_of_enroll (hs : h.groups.get? g = some s) :
    ((h.setJob job { record with scheduled := true }).enroll (some g)).setJob job
      { record with scheduled := true, completion := some g } = h.claimed job record (some g) := by
  have hs' : (h.setJob job { record with scheduled := true }).groups.get? g = some s := hs
  simp only [enroll, claimed, hs, hs', store_setJob, setJob_setJob]
  rfl

def declined (h : Hub κ) (job : Nat) : Except Fault (Except Refusal Unit) :=
  match h.jobs[job]?, h.mode with
  | none, _ => .error (.outOfBounds h.jobs.size job)
  | some _, .strict => .error .alreadyScheduled
  | some _, .lenient => .ok (.error .alreadyScheduled)

theorem ends_claim_declined (hno : ∀ record, h.jobs[job]? = some record → record.scheduled = true) :
    (claim job : Act ρ (Hub κ) (Except Refusal Unit)).Ends h fun r h' => r = h.declined job ∧ h' = h := by
  unfold declined
  simp only [claim, ends_bind, ends_get, after_ok]
  cases hrec : h.jobs[job]? with
  | none => exact ⟨rfl, rfl⟩
  | some record =>
    simp only [hno record hrec, if_true, ends_bind, ends_blame]
    cases h.mode with
    | strict => exact ⟨rfl, rfl⟩
    | lenient => exact ⟨rfl, rfl⟩

section
variable (hrec : h.jobs[job]? = some record)
include hrec

theorem gives_claim (hfree : record.scheduled = false) :
    (claim job : Act ρ (Hub κ) (Except Refusal Unit)).Gives h (.ok ())
    (h.setJob job { record with scheduled := true }) := by
  unfold Gives claim
  simp only [ends_bind, ends_get, after_ok, hrec, hfree]
  rw [if_neg (by decide), ends_bind, ends_modifyJob hrec]
  exact ⟨rfl, rfl⟩

theorem gives_track (hnone : record.completion = none) (hs : h.groups.get? g = some s) :
    (track job g : Act ρ (Hub κ) Unit).Gives h ()
    ((h.enroll (some g)).setJob job { record with completion := some g }) := by
  refine ends_track hrec hnone _ ?_ ?_
  · intro fault hdead
    rw [hs] at hdead
    cases hdead
  · intro s' hs'
    exact ⟨rfl, rfl⟩

theorem getElem?_enroll (group : Option Nat) : (h.enroll group).jobs[job]? = some record := by
  rw [enroll_rest]
  exact hrec

theorem gives_complete_claimed (hfree : record.scheduled = false) (hnone : record.completion = none) :
    (complete job : Act ρ (Hub κ) (Option Nat)).Gives (h.claimed job record group) group
    (h.enroll group) := by
  have hrec₁ := getElem?_enroll hrec group
  have hrec₂ := (getElem?_setJob hrec₁ { record with scheduled := true, completion := group } job).trans
    (if_pos rfl)
  have hundone :
      ({ record with scheduled := false, completion := none } : Job κ) = record := by rw [← hfree, ← hnone]
  unfold Gives claimed
  rw [ends_complete hrec₂, setJob_setJob, hundone, setJob_self hrec₁]
  exact ⟨rfl, rfl⟩

end

/-- A live group below its limit can take a submission back: it has a handle, and nobody
waits for it while it counts zero. -/
theorem Books.receptive {T : List Nat} (hb : Books h T) (hfew : ∀ g, T.count g < wordSize 32) (hl : h.Latched)
    (hs : h.groups.get? g = some s) (hmax : s.count ≠ Int32.maxValue) : h.Receptive g := by
  obtain ⟨hin, hhandles⟩ := hb.live g s hs
  refine ⟨s, hs, hl g s hs, hmax, ?_⟩
  intro hzero
  have hpos := List.count_pos_iff.mpr hin
  have hlt := hfew g
  rw [hzero] at hhandles
  have hcount : (UInt32.ofNat (T.count g)).toNat = T.count g := UInt32.toNat_ofNat_of_lt' hlt
  rw [← hhandles, UInt32.toNat_zero] at hcount
  omega

theorem Books.receptive_of_roomy {T : List Nat} (hb : Books h T) (hfew : ∀ g, T.count g < wordSize 32)
    (hl : h.Latched) (hg : g ∈ T) (hroom : h.Roomy g 1) : h.Receptive g := by
  obtain ⟨s, hs⟩ := hb.get?_of_mem hg
  refine hb.receptive hfew hl hs ?_
  intro hmax
  have hle := hroom s hs
  rw [hmax] at hle
  exact absurd hle (by decide)

theorem gives_dropRecord (h : Hub κ) (record : Job κ) :
    (dropRecord : Act ρ (Hub κ) Unit).Gives { h with jobs := h.jobs.push record } () h :=
  ⟨rfl, by simp [dropRecord]⟩

end Hub

namespace Hub

open Act

variable {ρ κ : Type} {h : Hub κ} {job : Nat} {p : Priority} {a : Affinity}

def refusal? (h : Hub κ) (extended : Bool) (a : Affinity) : Option Refusal :=
  if h.crew.serves a = false then some (.unknownAffinity a)
  else if extended = true ∧ h.extendedFibers = false then some .extendedStackUnavailable
  else if h.active = 0 ∧ h.stopping = true then some .stopped
  else none

theorem refusal?_eq_none_iff {extended : Bool} : h.refusal? extended a = none ↔
    h.crew.serves a = true ∧ (extended = true → h.extendedFibers = true) ∧
      ¬(h.active = 0 ∧ h.stopping = true) := by
  unfold refusal?
  cases h.crew.serves a with
  | false => simp
  | true =>
    rw [if_neg (by decide)]
    by_cases hstack : extended = true ∧ h.extendedFibers = false
    · rw [if_pos hstack]
      simp [hstack]
    · have htier : extended = true → h.extendedFibers = true := fun he => by
        cases hx : h.extendedFibers with
        | false => exact absurd ⟨he, hx⟩ hstack
        | true => rfl
      rw [if_neg hstack]
      by_cases hclosed : h.active = 0 ∧ h.stopping = true
      · simp [hclosed]
      · rw [if_neg hclosed]
        exact ⟨fun _ => ⟨rfl, htier, hclosed⟩, fun _ => rfl⟩

theorem refusal?_eq_unknownAffinity_iff {extended : Bool} :
    h.refusal? extended a = some (.unknownAffinity a) ↔ ¬h.crew.serves a = true := by
  unfold refusal?
  cases h.crew.serves a with
  | false => simp
  | true =>
    rw [if_neg (by decide)]
    split
    · simp
    · split <;> simp

theorem refusal?_stopped {extended : Bool} (hserves : h.crew.serves a = true)
    (hstack : extended = true → h.extendedFibers = true) (hclosed : h.active = 0 ∧ h.stopping = true) :
      h.refusal? extended a = some .stopped := by
  unfold refusal?
  rw [if_neg (by simp [hserves]), if_neg (by rintro ⟨he, hx⟩; rw [hstack he] at hx; cases hx), if_pos hclosed]

theorem ends_push_outcome (job : Nat) (p : Priority) (a : Affinity) :
    (push job p a : Act ρ (Hub κ) (Except Refusal Unit)).Ends h fun r h' => match h.refusal?
    (h.needsExtended job) a with
      | some refusal => r = .ok (.error refusal) ∧ h' = h
      | none => ∀ refusal, r ≠ .ok (.error refusal) := by
  by_cases hserves : h.crew.serves a = true
  · by_cases hstack : h.needsExtended job = true ∧ h.extendedFibers = false
    · have hwhy :
          h.refusal? (h.needsExtended job) a =
          some .extendedStackUnavailable := by simp [refusal?, hserves, hstack]
      rw [hwhy]
      simp [push, checkAffinity, hserves, hstack]
    · by_cases hclosed : h.active = 0 ∧ h.stopping = true
      · have hwhy : h.refusal? (h.needsExtended job) a = some .stopped := by
          unfold refusal?
          rw [if_neg (by simp [hserves]), if_neg hstack, if_pos hclosed]
        rw [hwhy]
        simpa [push, checkAffinity, hserves, hclosed] using hstack
      · have hwhy : h.refusal? (h.needsExtended job) a = none := by
          unfold refusal?
          rw [if_neg (by simp [hserves]), if_neg hstack, if_neg hclosed]
        have hnormal : (h.needsExtended job && !h.extendedFibers) = false := by simpa using hstack
        rw [hwhy]
        simp only [push, checkAffinity, hserves, hnormal, hclosed, bump, requeue, ends_bind, ends_get,
          ends_modify, ends_lift, after_ok, if_true, if_false, Bool.false_eq_true]
        cases h.lanes.pushJob job p a with
        | error fault => exact fun _ he => by cases he
        | ok lanes => exact fun _ he => by cases he
  · have hwhy : h.refusal? (h.needsExtended job) a = some (.unknownAffinity a) := by simp [refusal?, hserves]
    rw [hwhy]
    simp [push, checkAffinity, hserves]

theorem ends_push_decided (hserved : h.Served) (job : Nat) (p : Priority) (a : Affinity) :
    (push job p a : Act ρ (Hub κ) (Except Refusal Unit)).Ends h fun r h' => match h.refusal?
    (h.needsExtended job) a with
      | some refusal => r = .ok (.error refusal) ∧ h' = h
      | none => r = .ok (.ok ()) ∧ ∃ lanes, h.lanes.pushJob job p a = .ok lanes ∧
          h' = { h with lanes, active := h.active + 1, counters := h.counters.bump .submitted } := by
  have hgiven : (push job p a : Act ρ (Hub κ) (Except Refusal Unit)).Ends h fun r h' =>
      (∃ refusal, r = .ok (.error refusal)) ∨ r = .ok (.ok ()) ∧
        ∃ lanes, h.lanes.pushJob job p a = .ok lanes ∧
        h' = { h with lanes, active := h.active + 1, counters := h.counters.bump .submitted } :=
    ends_push hserved _ (fun refusal => Or.inl ⟨refusal, rfl⟩) fun lanes _ hpush =>
      Or.inr ⟨rfl, lanes, hpush, rfl⟩
  refine ((ends_push_outcome job p a).and hgiven).mono ?_
  rintro r h' ⟨hr, hok⟩
  cases hwhy : h.refusal? (h.needsExtended job) a with
  | some why =>
    rw [hwhy] at hr
    exact hr
  | none =>
    rw [hwhy] at hr
    rcases hok with ⟨refusal, he⟩ | hok
    · exact absurd he (hr refusal)
    · exact hok

end Hub

/-! ## Schedulers -/

namespace Scheduler

open Act

variable {ρ κ σ : Type} {S : Scheduler ρ κ σ} {x : σ} {job : Nat} {record : Job κ} {group : Option Nat}
  {p : Priority} {a : Affinity}

structure Lawful (S : Scheduler ρ κ σ) : Prop where
  hub_withHub : ∀ x h, S.hub (S.withHub x h) = h
  withHub_hub : ∀ x, S.withHub x (S.hub x) = x
  withHub_withHub : ∀ x h h', S.withHub (S.withHub x h) h' = S.withHub x h'

theorem lawful_hub : (Hub.scheduler : Scheduler ρ κ (Hub κ)).Lawful :=
  ⟨fun _ _ => rfl, fun _ => rfl, fun _ _ _ => rfl⟩

theorem lawful_inbox : (Inbox.scheduler : Scheduler (InboxReport κ) κ (Inbox κ)).Lawful :=
  ⟨fun _ _ => rfl, fun _ => rfl, fun _ _ _ => rfl⟩

/-- A scheduler that keeps nothing of a job it refuses. -/
def Careful (S : Scheduler ρ κ σ) : Prop :=
  ∀ job p a x, (S.enqueue job p a).Ends x fun r y => ∀ refusal, r = .ok (.error refusal) → y = x

theorem gives_onHub (hS : S.Lawful) {α : Type} {y : Act ρ (Hub κ) α} {v : α} {h h' : Hub κ}
    (hy : y.Gives h v h') : (S.onHub y).Gives (S.withHub x h) v (S.withHub x h') := by
  have hzoom : (S.onHub y).Gives (S.withHub x h) v (S.withHub (S.withHub x h) h') :=
    Gives.zoom (by rw [hS.hub_withHub]; exact hy)
  rwa [hS.withHub_withHub] at hzoom

def offer (S : Scheduler ρ κ σ) (job : Nat) (p : Priority) (a : Affinity) (undo : Nat → Act ρ σ Unit) :
    Act ρ σ (Except Refusal Unit) := do
  match ← S.enqueue job p a with
  | .ok () => return .ok ()
  | .error refusal =>
    if let some g ← S.onHub (Hub.complete job) then undo g
    return .error refusal

/-- What there is to know of a submission: a job that cannot be claimed is left alone, and
any other is offered to the scheduler, claimed and counted by its group. If that keeps
nothing of a job it refuses, nothing has changed in the end. -/
structure Submits (S : Scheduler ρ κ σ) (x : σ) (job : Nat) (group : Option Nat) (p : Priority) (a : Affinity)
    (y : Act ρ σ (Except Refusal Unit)) : Prop where
  declined : (∀ record, (S.hub x).jobs[job]? = some record → record.scheduled = true) →
    y.Ends x fun r x' => r = (S.hub x).declined job ∧ x' = x
  free : ∀ record, (S.hub x).jobs[job]? = some record → record.scheduled = false →
    ∀ {P Q : Except Fault (Except Refusal Unit) → σ → Prop},
      (S.enqueue job p a).Ends (S.withHub x ((S.hub x).claimed job record group)) P →
      (∀ refusal x', P (.ok (.error refusal)) x' → x' = S.withHub x ((S.hub x).claimed job record group) ∧
        Q (.ok (.error refusal)) x) →
      (∀ r x', (∀ refusal, r ≠ .ok (.error refusal)) → P r x' → Q r x') → y.Ends x Q

section
variable (hS : S.Lawful)
include hS

theorem ends_declined (next : Act ρ σ (Except Refusal Unit))
    (hno : ∀ record, (S.hub x).jobs[job]? = some record → record.scheduled = true) :
    (do
      match ← S.onHub (Hub.claim job) with
      | .error refusal => return .error refusal
      | .ok () => next : Act ρ σ (Except Refusal Unit)).Ends x fun r y => r = (S.hub x).declined job ∧
        y = x := by
  rw [ends_bind]
  refine (ends_zoom _ _ _).mpr ((Hub.ends_claim_declined hno).mono ?_)
  rintro r h ⟨rfl, rfl⟩
  rw [hS.withHub_hub]
  unfold Hub.declined
  cases (S.hub x).jobs[job]? with
  | none => exact ⟨rfl, rfl⟩
  | some record =>
    cases (S.hub x).mode with
    | strict => exact ⟨rfl, rfl⟩
    | lenient => exact ⟨rfl, rfl⟩

theorem ends_offer {undo : Nat → Act ρ σ Unit} {P Q : Except Fault (Except Refusal Unit) → σ → Prop}
    (hrec : (S.hub x).jobs[job]? = some record) (hfree : record.scheduled = false)
    (hnone : record.completion = none)
    (hundo : ∀ g, group = some g → (undo g).Gives (S.withHub x ((S.hub x).enroll group)) () x)
    (henqueue : (S.enqueue job p a).Ends (S.withHub x ((S.hub x).claimed job record group)) P)
    (hrefused : ∀ refusal y, P (.ok (.error refusal)) y →
    y = S.withHub x ((S.hub x).claimed job record group) ∧
      Q (.ok (.error refusal)) x)
    (hrest : ∀ r y, (∀ refusal, r ≠ .ok (.error refusal)) → P r y → Q r y) :
    (S.offer job p a undo).Ends (S.withHub x ((S.hub x).claimed job record group)) Q := by
  unfold offer
  rw [ends_bind]
  refine henqueue.mono ?_
  rintro (fault | refusal | ⟨⟩) y hP
  · exact hrest _ y (fun _ hr => by cases hr) hP
  · obtain ⟨rfl, hQ⟩ := hrefused refusal y hP
    rw [after_ok]
    refine (gives_onHub hS (Hub.gives_complete_claimed hrec hfree hnone)).bind_ends ?_
    cases group with
    | none =>
      show Q (.ok (.error refusal)) (S.withHub x (S.hub x))
      rw [hS.withHub_hub]
      exact hQ
    | some g => exact (hundo g rfl).bind_ends hQ
  · exact hrest _ y (fun _ hr => by cases hr) hP

variable (hcleared : (S.hub x).Cleared)
include hcleared

theorem schedule_submits (hr : ∀ record, (S.hub x).jobs[job]? = some record → record.scheduled = false →
    ∀ g, group = some g → (S.hub x).Receptive g) : S.Submits x job group p a (S.schedule job group p a) where
  declined := fun hno => ends_declined hS _ hno
  free := by
    intro record hrec hfree P Q henqueue hrefused hrest
    have hr := hr record hrec hfree
    have hnone := hcleared job record hrec hfree
    have hclaim : (S.onHub (Hub.claim job)).Gives x (.ok ()) _ := (Hub.gives_claim hrec hfree).zoom
    have hundo : ∀ g, group = some g →
        (S.onHub (Hub.signalAndDrop g)).Gives (S.withHub x ((S.hub x).enroll group)) () x := by
      rintro g rfl
      have hgives := gives_onHub (x := x) hS (Hub.gives_withdraw_enroll (ρ := ρ) hr)
      rwa [hS.withHub_hub] at hgives
    have hoffer := ends_offer hS hrec hfree hnone hundo henqueue hrefused hrest
    unfold schedule
    refine hclaim.bind_ends ?_
    cases group with
    | none =>
      rwa [Hub.claimed, show ({ record with scheduled := true, completion := none } : Job κ) =
        { record with scheduled := true } by
        rw [← hnone]] at hoffer
    | some g =>
      obtain ⟨s, hs, -⟩ := hr g rfl
      have hrec' := (Hub.getElem?_setJob hrec { record with scheduled := true } job).trans (if_pos rfl)
      have htrack := gives_onHub (x := x) hS (Hub.gives_track (ρ := ρ) (g := g) hrec' hnone hs)
      rw [Hub.claimed_of_enroll hs] at htrack
      exact htrack.bind_ends hoffer

theorem addJob_submits : S.Submits x job none p a (S.addJob job p a) where
  declined := fun hno => ends_declined hS _ hno
  free := by
    intro record hrec hfree P Q henqueue hrefused hrest
    have hnone := hcleared job record hrec hfree
    have hclaim : (S.onHub (Hub.claim job)).Gives x (.ok ()) _ := (Hub.gives_claim hrec hfree).zoom
    have hundo : ∀ g, none = some g →
        (S.onHub (Hub.dropGroup g)).Gives (S.withHub x ((S.hub x).enroll none)) () x :=
      fun g hg => by cases hg
    have hoffer := ends_offer hS hrec hfree hnone hundo henqueue hrefused hrest
    unfold addJob
    refine hclaim.bind_ends ?_
    rwa [Hub.claimed, show ({ record with scheduled := true, completion := none } : Job κ) =
      { record with scheduled := true } by
      rw [← hnone]] at hoffer

end

/-- A refusal changes nothing, whatever scheduler refuses, if it keeps nothing itself. -/
theorem Submits.refused {y : Act ρ σ (Except Refusal Unit)} (hy : S.Submits x job group p a y)
    (hcareful : S.Careful) :
    y.Ends x fun r x' => ∀ refusal, r = .ok (.error refusal) → x' = x := by
  by_cases hno : ∀ record, (S.hub x).jobs[job]? = some record → record.scheduled = true
  · exact (hy.declined hno).mono fun _ _ h _ _ => h.2
  · obtain ⟨record, hrec, hs⟩ : ∃ record, (S.hub x).jobs[job]? = some record ∧ record.scheduled = false := by
      simpa using hno
    refine hy.free record hrec hs (hcareful job p a _) ?_ ?_
    · intro refusal x' hx'
      exact ⟨hx' refusal rfl, fun _ _ => rfl⟩
    · intro r x' hr _ refusal he
      exact absurd he (hr refusal)

section
variable (hS : S.Lawful) (hcareful : S.Careful) (hcleared : (S.hub x).Cleared)
include hS hcareful hcleared

theorem spawn_refused {code : κ} (hr : ∀ g, group = some g → (S.hub x).Receptive g) :
    (S.spawn code group p a).Ends x fun r y => ∀ refusal, r = .ok (.error refusal) → y = x := by
  unfold spawn
  rw [ends_bind]
  refine (ends_zoom _ _ _).mpr ((Hub.ends_addRecord _ _).mpr ?_)
  split
  · rw [after_ok, ends_bind]
    generalize hpushed : ({ S.hub x with jobs := (S.hub x).jobs.push (.new code false true) } : Hub κ) = h
    have hcleared' : (S.hub (S.withHub x h)).Cleared := by
      rw [hS.hub_withHub, ← hpushed]
      exact hcleared.push (.new code false true) rfl
    have hr' : ∀ g, group = some g → (S.hub (S.withHub x h)).Receptive g := by
      rw [hS.hub_withHub, ← hpushed]
      exact hr
    refine ((schedule_submits hS hcleared' fun _ _ _ => hr').refused hcareful).mono ?_
    rintro (fault | refusal | ⟨⟩) y hy
    · exact fun _ he => by cases he
    · have hdrop : (Hub.dropRecord : Act ρ (Hub κ) Unit).Gives h () (S.hub x) :=
        hpushed ▸ Hub.gives_dropRecord _ _
      have hback := gives_onHub (x := x) hS hdrop
      rw [hS.withHub_hub] at hback
      rw [after_ok, hy refusal rfl]
      exact hback.bind_ends fun _ _ => rfl
    · exact fun _ he => by cases he
  · exact fun _ he => by cases he

end

/-! ## The hub and the inbox -/

theorem careful_hub : (Hub.scheduler : Scheduler ρ κ (Hub κ)).Careful := by
  intro job p a h
  refine (Hub.ends_push_outcome job p a).mono ?_
  intro r h' hr refusal he
  cases hwhy : h.refusal? (h.needsExtended job) a with
  | some why =>
    rw [hwhy] at hr
    exact hr.2
  | none =>
    rw [hwhy] at hr
    exact absurd he (hr refusal)

theorem careful_inbox : (Inbox.scheduler : Scheduler (InboxReport κ) κ (Inbox κ)).Careful := by
  intro job p a i
  simp only [Inbox.scheduler, Inbox.enqueue, ends_bind, ends_get, after_ok]
  cases i.refusal with
  | some refusal => exact fun _ _ => rfl
  | none => exact fun _ he => by cases he

end Scheduler

end FiberScheduler
