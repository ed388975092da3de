import FiberScheduler.Proofs.Accounts

/-!
# Deliveries

A scheduler that only keeps the jobs it is given, until each is delivered: run, ended and
signaled. The accounts of its groups come out even as those of a system do.
-/

namespace FiberScheduler

open Act

variable {κ : Type}

/-- An inbox, and the handles of groups that its users have. -/
structure Desk (κ : Type) where
  inbox : Inbox κ
  kept : List Nat

namespace Desk

inductive Move (κ : Type) where
  | call (c : Call κ Unit Empty)
  /-- Makes a record for a job, to be submitted later. -/
  | record (code : κ) (extended oneShot : Bool)
  /-- Sets what jobs are refused with from now on. -/
  | refuse (refusal : Option Refusal)
  | deliver

def answer : (c : Call κ Unit Empty) → Act (InboxReport κ) (Inbox κ) c.Answer
  | .newGroup => Inbox.onHub Hub.newGroup
  | .cloneGroup g => Inbox.onHub (Hub.cloneGroup g)
  | .dropGroup g => Inbox.onHub (Hub.dropGroup g)
  | .add g n => Inbox.onHub (Hub.addGroup g n)
  | .count g => Inbox.onHub do return (← Hub.group g).count
  | .schedule job group p a => Inbox.scheduler.schedule job group p a
  | .addJob job p a => Inbox.scheduler.addJob job p a
  | .isScheduled job => return (← Act.get).hub.isScheduled job
  | _ => Act.fail .malformed

def perform (c : Call κ Unit Empty) (held : List Nat) : Act (InboxReport κ) (Inbox κ) c.Answer :=
  if c.permits held held then answer c else Act.fail .malformed

def settle (c : Call κ Unit Empty) (r : Except Fault c.Answer) (held : List Nat) : List Nat :=
  match r with
  | .ok a => c.settle a held
  | .error _ => held

def move (d : Desk κ) : Move κ → Desk κ
  | .call c =>
    let o := perform c d.kept d.inbox
    ⟨o.state, settle c o.result d.kept⟩
  | .record code extended oneShot =>
    { d with inbox := (Inbox.onHub (Hub.addRecord (.new code extended oneShot)) d.inbox).state }
  | .refuse refusal => { d with inbox := { d.inbox with refusal } }
  | .deliver => { d with inbox := (Inbox.deliver d.inbox).state }

def postings (d : Desk κ) : Move κ → List Posting
  | .call c => c.postings (perform c d.kept d.inbox).result
  | _ => []

/-- Whether a move takes no count past what it can hold, and no release of it more units than
there are. -/
def Admits (d : Desk κ) : Move κ → Prop
  | .call c => c.permits d.kept d.kept = true → c.Roomy d.inbox.hub ∧ c.Covered d.inbox.hub
  | .deliver => ∀ parcel ∈ d.inbox.parcels.head?, d.inbox.hub.CoversEnd parcel.job
  | _ => True

instance (d : Desk κ) : ∀ m, Decidable (d.Admits m)
  | .call c =>
    inferInstanceAs (Decidable (c.permits d.kept d.kept = true → c.Roomy d.inbox.hub ∧ c.Covered d.inbox.hub))
  | .deliver =>
    inferInstanceAs (Decidable (∀ parcel ∈ d.inbox.parcels.head?, d.inbox.hub.CoversEnd parcel.job))
  | .record .. | .refuse _ => .isTrue trivial

def FewHandles (d : Desk κ) : Prop :=
  ∀ g, (d.kept ++ d.inbox.hub.tracked).count g < wordSize 32

def pending (i : Inbox κ) : List Nat :=
  i.parcels.map (·.job)

/-- What can be reached from a new inbox by fair moves, with what they entered in the accounts. -/
inductive Reached (mode : Mode) (config : Config) : Desk κ → List Posting → Prop
  | start {hub : Hub κ} (hnew : Hub.new mode config = .ok hub) : Reached mode config ⟨⟨hub, [], none⟩, []⟩ []
  | step {d : Desk κ} {es : List Posting} (m : Move κ) (h : Reached mode config d es) (hadmits : d.Admits m)
      (hfew : d.FewHandles) :
      Reached mode config (d.move m) (es ++ d.postings m)

structure Kept (h : Hub κ) (held pending : List Nat) (es : List Posting) : Prop where
  tidy : h.Tidy
  quiet : ∀ g, h.waitingOn g = []
  books : h.Books (held ++ h.tracked)
  latched : h.Latched
  cleared : h.Cleared
  once : ∀ job, pending.count job ≤ if h.isScheduled job then 1 else 0
  accounted : h.Accounted pending (accounts es)

variable {h h' : Hub κ} {held held' pending : List Nat} {es es' : List Posting} {g job : Nat} {i : Inbox κ}
  {d : Desk κ} {mode : Mode} {config : Config}

/-! ## Acts on groups -/

theorem Kept.of_steady (hk : Kept h held pending es) (hst : Hub.Steady h h')
    (hb : h'.Books (held' ++ h.tracked)) (hl : h'.Latched) (ha : h'.Accounted pending (accounts es')) :
      Kept h' held' pending es' where
  tidy := hst.tidy
  quiet := by
    intro g
    rcases hst.lists g with hn | he
    · exact hn
    · rw [he, hk.quiet g]
  books := by
    rw [hst.tracked]
    exact hb
  latched := hl
  cleared := by
    have hjobs : h'.jobs = h.jobs := by rw [hst.rest]
    intro j record hrec
    exact hk.cleared j record (by rwa [hjobs] at hrec)
  once := by
    intro job
    rw [Hub.isScheduled_of_jobs (h := h) (by rw [hst.rest])]
    exact hk.once job
  accounted := ha

section
variable (hk : Kept h held pending es)
include hk

theorem Kept.known : ∀ job ∈ pending, (h.jobs[job]?).isSome := by
  intro job hj
  have hpos := List.count_pos_iff.mpr hj
  have hle := hk.once job
  cases hrec : h.jobs[job]? with
  | some record => rfl
  | none =>
    rw [Hub.isScheduled, hrec, Option.any_none, if_neg (by decide)] at hle
    omega

theorem newGroup_kept : (Hub.newGroup : Act (InboxReport κ) (Hub κ) (Except Refusal Nat)).Ends h fun r h' =>
    ∃ answer, r = .ok answer ∧ Kept h' (answer.toOption.toList ++ held) pending (es ++ Hub.opened r) := by
  have hnone : ∀ g, h.groups.get? g = none → ∀ job ∈ pending, h.tracks g job = false :=
    fun g hdead job _ => hk.books.tracks_eq_false hdead job
  refine ((((Hub.newGroup_books hk.tidy hk.books).and (Hub.newGroup_steady hk.tidy)).and
    (Hub.newGroup_latched hk.latched hk.tidy)).and
    (Hub.newGroup_accounted hk.accounted hk.tidy hnone)).mono ?_
  rintro r h' ⟨⟨⟨⟨answer, rfl, hb⟩, hst, -⟩, hl⟩, ha⟩
  refine ⟨answer, rfl, hk.of_steady hst ?_ hl ha⟩
  rwa [List.append_assoc]

theorem cloneGroup_kept (hg : g ∈ held) :
    (Hub.cloneGroup g : Act (InboxReport κ) (Hub κ) Unit).Ends h fun r h' =>
    r = .ok () ∧ Kept h' (g :: held) pending es := by
  refine ((((Hub.cloneGroup_books hk.books (List.mem_append_left _ hg)).and
    (Hub.cloneGroup_steady hk.tidy g)).and
    (Hub.cloneGroup_latched hk.latched g)).and (Hub.cloneGroup_accounted hk.accounted g)).mono ?_
  rintro r h' ⟨⟨⟨⟨rfl, hb⟩, hst, -⟩, hl⟩, ha⟩
  exact ⟨rfl, hk.of_steady hst hb hl ha⟩

theorem dropGroup_kept (hfew : ∀ g, (held ++ h.tracked).count g < wordSize 32) (hg : g ∈ held) :
    (Hub.dropGroup g : Act (InboxReport κ) (Hub κ) Unit).Ends h fun r h' => r = .ok () ∧ Kept h'
    (held.erase g) pending es := by
  have hp : (held ++ h.tracked).Perm (g :: (held.erase g ++ h.tracked)) :=
    (List.perm_cons_erase hg).append_right _
  have hless : (held.erase g ++ h.tracked).count g < wordSize 32 := by
    have hcount := hfew g
    rw [hp.count_eq, List.count_cons_self] at hcount
    omega
  refine ((Hub.dropGroup_books hk.tidy (hk.books.perm hp) hless fun hne => absurd (hk.quiet g) hne).and
    ((Hub.dropGroup_latched hk.latched g).and (Hub.dropGroup_accounted hk.accounted hk.tidy g))).mono ?_
  rintro r h' ⟨⟨rfl, hb, hst, -⟩, hl, ha⟩
  exact ⟨rfl, hk.of_steady hst hb hl ha⟩

theorem addGroup_kept {n : Int32} (hg : g ∈ held) (hroom : h.Roomy g n)
    (hcovers : n < 0 → h.Covers g (-n.toInt)) :
    (Hub.addGroup g n : Act (InboxReport κ) (Hub κ) Unit).Ends h fun r h' => Kept h' held pending
    (es ++ Hub.moved g n r) := by
  obtain ⟨state, hs⟩ := hk.books.get?_of_mem (List.mem_append_left _ hg)
  refine ((Hub.addGroup_books hk.tidy hk.books (List.mem_append_left _ hg)).and
    ((Hub.addGroup_latched hk.latched hk.tidy hroom).and
    (Hub.addGroup_accounted hk.accounted hk.tidy hk.latched hs hroom hcovers))).mono ?_
  rintro r h' ⟨⟨hb, hst, -⟩, hl, ha⟩
  exact hk.of_steady hst hb hl ha

end

/-! ## Submissions -/

theorem Kept.perm {pending' : List Nat} (hk : Kept h held pending es) (hp : pending.Perm pending') :
    Kept h held pending' es :=
  { hk with once := fun job => (by rw [← hp.count_eq]; exact hk.once job), accounted := hk.accounted.perm hp }

theorem Kept.recorded (hk : Kept h held pending es) (record : Job κ) (hscheduled : record.scheduled = false)
    (hcompletion : record.completion = none) :
      Kept ({ h with jobs := h.jobs.push record }) held pending es where
  tidy := hk.tidy.of_lanes rfl rfl (fun _ hr => hr) rfl
  quiet := hk.quiet
  books := by
    rw [Hub.tracked_push h hcompletion]
    exact hk.books.of_groups rfl
  latched := hk.latched.of_groups rfl
  cleared := hk.cleared.push record hcompletion
  once := by
    intro job
    rw [Hub.isScheduled_push hscheduled]
    exact hk.once job
  accounted := hk.accounted.push hk.known hscheduled

theorem Kept.claimed {record : Job κ} {group : Option Nat} (hk : Kept h held pending es)
    (hrec : h.jobs[job]? = some record) (hfree : record.scheduled = false)
    (hheld : ∀ g, group = some g → g ∈ held) (hroom : ∀ g, group = some g → h.Roomy g 1)
    (hr : ∀ g, group = some g → h.Receptive g) :
    Kept (h.claimed job record group) held (job :: pending) es := by
  have hrest := Hub.enroll_rest h group
  have hst := (Hub.steady_enroll hk.tidy group).1
  have hrec' := Hub.getElem?_enroll hrec group
  have hno : pending.count job = 0 := by
    have hle := hk.once job
    rw [Hub.isScheduled, hrec, Option.any_some, hfree, if_neg (by decide)] at hle
    omega
  refine ⟨hst.tidy.of_lanes rfl rfl (fun _ hr => hr) rfl, ?_,
    Hub.claim_books hk.tidy hk.cleared hk.books hheld hrec hfree,
    (Hub.enroll_latched hk.latched hroom).of_groups rfl, ?_, ?_, ?_⟩
  · intro g
    show (h.enroll group).waitingOn g = []
    rcases hst.lists g with hn | he
    · exact hn
    · rw [he, hk.quiet g]
  · refine (Hub.Recorded.setJob group hk.cleared hrec hfree ?_).cleared
    rw [Hub.claimed, hrest]
    rfl
  · intro j
    rw [Hub.claimed, Hub.isScheduled_setJob hrec']
    by_cases hj : job = j
    · subst hj
      rw [List.count_cons_self, hno, if_pos rfl]
      exact Nat.le_refl _
    · rw [List.count_cons_of_ne hj, if_neg hj, Hub.isScheduled_of_jobs (h := h) (by rw [hrest])]
      exact hk.once j
  · exact hk.accounted.claimed hrec (List.count_eq_zero.mp hno) hr

/-- What a submission to an inbox does: nothing, or the claimed job is put in. -/
theorem ends_submission {group : Option Nat} {p : Priority} {a : Affinity}
    {y : Act (InboxReport κ) (Inbox κ) (Except Refusal Unit)}
    (hy : Inbox.scheduler.Submits i job group p a y) : y.Ends i fun r j => (r ≠ .ok (.ok ()) ∧ j = i) ∨
      ∃ record, i.hub.jobs[job]? = some record ∧ record.scheduled = false ∧ r = .ok (.ok ()) ∧
        j.hub = i.hub.claimed job record group ∧ j.parcels = i.parcels ++ [⟨job, p, a⟩] := by
  by_cases hno : ∀ record, i.hub.jobs[job]? = some record → record.scheduled = true
  · refine (hy.declined hno).mono ?_
    rintro r j ⟨rfl, rfl⟩
    refine Or.inl ⟨?_, rfl⟩
    unfold Hub.declined
    intro hr
    split at hr <;> cases hr
  · obtain ⟨record, hrec, hfree⟩ : ∃ record, i.hub.jobs[job]? = some record ∧
        record.scheduled = false := by simpa using hno
    generalize hclaimed : Inbox.scheduler.withHub i (i.hub.claimed job record group) = c
    have henqueue : (Inbox.scheduler.enqueue job p a).Ends c fun r j =>
        (∃ refusal, r = .ok (.error refusal) ∧ j = c) ∨ r = .ok (.ok ()) ∧ j.hub = c.hub ∧
          j.parcels = c.parcels ++ [⟨job, p, a⟩] := by
      simp only [Inbox.scheduler, Inbox.enqueue, ends_bind, ends_get, after_ok]
      cases c.refusal with
      | some refusal => exact Or.inl ⟨refusal, rfl, rfl⟩
      | none => exact Or.inr ⟨rfl, rfl, rfl⟩
    rw [← hclaimed] at henqueue
    refine hy.free record hrec hfree henqueue ?_ ?_
    · rintro refusal j (⟨refusal', -, rfl⟩ | ⟨he, -⟩)
      · exact ⟨rfl, Or.inl ⟨(fun he => by cases he), rfl⟩⟩
      · cases he
    · rintro r j hr (⟨refusal, he, -⟩ | ⟨rfl, hhub, hparcels⟩)
      · exact absurd he (hr refusal)
      · exact Or.inr ⟨record, hrec, hfree, rfl, hhub, hparcels⟩

section
variable (hk : Kept i.hub held (Desk.pending i) es)
include hk

theorem submission_kept {group : Option Nat} {p : Priority} {a : Affinity}
    {y : Act (InboxReport κ) (Inbox κ) (Except Refusal Unit)} (hy : Inbox.scheduler.Submits i job group p a y)
    (hheld : ∀ g, group = some g → g ∈ held)
    (hroom : ∀ record, i.hub.jobs[job]? = some record → record.scheduled = false → ∀ g, group = some g →
    i.hub.Roomy g 1)
    (hr : ∀ record, i.hub.jobs[job]? = some record → record.scheduled = false → ∀ g, group = some g →
      i.hub.Receptive g) :
    y.Ends i fun _ j => Kept j.hub held (Desk.pending j) es := by
  refine (ends_submission hy).mono ?_
  rintro r j (⟨-, rfl⟩ | ⟨record, hrec, hfree, -, hhub, hparcels⟩)
  · exact hk
  · have hjoined : Desk.pending j = Desk.pending i ++ [job] := by
      unfold Desk.pending
      rw [hparcels, List.map_append]
      rfl
    rw [hhub, hjoined]
    exact (hk.claimed hrec hfree hheld (hroom record hrec hfree) (hr record hrec hfree)).perm
      (List.perm_append_singleton job _).symm

end

/-! ## Deliveries -/

theorem tracked_started {record : Job κ} (hrec : h.jobs[job]? = some record) :
    (h.setJob job { record with started := true }).tracked = h.tracked :=
  gather_set_of_eq _ hrec rfl

theorem Kept.started {record : Job κ} (hk : Kept h held pending es) (hrec : h.jobs[job]? = some record) :
    Kept (h.setJob job { record with started := true }) held pending es where
  tidy := hk.tidy.of_lanes rfl rfl (fun _ hr => hr) rfl
  quiet := hk.quiet
  books := by
    rw [tracked_started hrec]
    exact hk.books.of_groups rfl
  latched := hk.latched.of_groups rfl
  cleared := System.cleared_started hk.cleared hrec
  once := by
    intro j
    have hsame : (h.setJob job { record with started := true }).isScheduled j = h.isScheduled j :=
      System.isScheduled_started hrec j
    rw [hsame]
    exact hk.once j
  accounted := hk.accounted.started hrec h.lanes

section
variable {record : Job κ} (hk : Kept h held (job :: pending) es) (hrec : h.jobs[job]? = some record)
include hk hrec

theorem Kept.ended (hfew : ∀ g, (held ++ h.tracked).count g < wordSize 32) (hcovers : h.CoversEnd job) :
    (Hub.withdraw record.completion : Act (InboxReport κ) (Hub κ) Unit).Ends
    (h.setJob job (Hub.closed record)) fun _ h' =>
      Kept h' held pending es := by
  generalize hclosed : h.setJob job (Hub.closed record) = h₁
  have htidy : h₁.Tidy := hclosed ▸ hk.tidy.of_lanes rfl rfl (fun _ hr => hr) rfl
  have hgroups : h₁.groups = h.groups := by rw [← hclosed]; rfl
  have hjobs : h₁.jobs = h.jobs.setIfInBounds job (Hub.closed record) := by rw [← hclosed]; rfl
  have hquiet : ∀ g, h₁.waitingOn g = [] := hclosed ▸ hk.quiet
  have hbooks : h₁.Books (record.completion.toList ++ (held ++ h₁.tracked)) := by
    rw [← hclosed]
    exact (hk.books.perm (Hub.tracked_closed hrec held)).of_groups rfl
  have hless : ∀ g, (held ++ h₁.tracked).count g < wordSize 32 := by
    intro g
    rw [← hclosed]
    exact Nat.lt_of_le_of_lt (Hub.count_tracked_closed_le hrec held g) (hfew g)
  have hno : job ∉ pending := by
    intro hin
    have hle := hk.once job
    have hpos := List.count_pos_iff.mpr hin
    rw [List.count_cons_self] at hle
    split at hle <;> omega
  have hcounted : ∀ {h'}, Hub.Counted h₁ h' (Hub.signaled record.completion) →
      Hub.Counted h h' (Hub.signaled record.completion) := by
    intro h' hc g s hs
    rw [← hgroups]
    exact hc g s hs
  refine (((Hub.withdraw_books htidy hbooks hless fun g _ hne => absurd (hquiet g) hne).and
    (Hub.withdraw_latched (hk.latched.of_groups hgroups) htidy record.completion)).and
    (Hub.withdraw_counted htidy record.completion)).mono ?_
  rintro r h' ⟨⟨⟨hb, hst, -⟩, hl⟩, hc⟩
  have hjobs' : h'.jobs = h.jobs.setIfInBounds job (Hub.closed record) := by rw [hst.rest]; exact hjobs
  have hends := System.closed_of_jobs hk.cleared hrec hjobs'
  refine ⟨hst.tidy, ?_, ?_, hl, hends.cleared, ?_, ?_⟩
  · intro g
    rcases hst.lists g with hn | he
    · exact hn
    · rw [he, hquiet g]
  · rw [hst.tracked]
    exact hb
  · intro j
    have hle := hk.once j
    rw [hends.scheduled]
    by_cases hj : job = j
    · rw [← hj, List.count_eq_zero.mpr hno]
      exact Nat.zero_le _
    · rwa [if_neg hj, ← List.count_cons_of_ne hj]
  · exact hk.accounted.of_end (.refl _) hno hrec hjobs' (hcounted hc) fun g hg =>
      hcovers g (by rw [hrec]; exact hg)

end

theorem gives_work {record : Job κ} (hrec : i.hub.jobs[job]? = some record) :
    (Inbox.work job).Gives i () { i with hub := i.hub.setJob job { record with started := true } } := by
  have hstart :
      (Inbox.onHub (Hub.startBody job)).Gives i (if record.spent then none else some record.code) _ :=
    (Hub.gives_startBody hrec).zoom
  unfold Inbox.work
  refine hstart.bind ?_
  cases record.spent <;> exact ⟨rfl, rfl⟩

theorem deliver_kept (hk : Kept i.hub held (Desk.pending i) es)
    (hfew : ∀ g, (held ++ i.hub.tracked).count g < wordSize 32)
    (hcovered : ∀ parcel ∈ i.parcels.head?, i.hub.CoversEnd parcel.job) :
    Inbox.deliver.Ends i fun _ j => Kept j.hub held (Desk.pending j) es := by
  unfold Inbox.deliver
  rw [ends_bind, ends_get, after_ok]
  cases hparcels : i.parcels with
  | nil => exact hk
  | cons parcel parcels =>
    have hpending : Desk.pending i = parcel.job :: parcels.map (·.job) := by
      unfold Desk.pending
      rw [hparcels]
      rfl
    rw [hpending] at hk
    obtain ⟨record, hrec⟩ := Option.isSome_iff_exists.mp (hk.known parcel.job List.mem_cons_self)
    have hrec' := (Hub.getElem?_setJob hrec { record with started := true } parcel.job).trans (if_pos rfl)
    have hcovers : (i.hub.setJob parcel.job { record with started := true }).CoversEnd parcel.job := by
      intro g hg
      rw [hrec'] at hg
      exact hcovered parcel (by rw [hparcels]; rfl) g (by rw [hrec]; exact hg)
    have hended := (hk.started hrec).ended hrec' (by rw [tracked_started hrec]; exact hfew) hcovers
    have hwork : (Inbox.work parcel.job).Gives { i with parcels } () _ := gives_work hrec
    rw [ends_bind, ends_modify, after_ok]
    refine hwork.bind_ends ?_
    rw [ends_bind]
    refine (ends_zoom _ _ _).mpr ((Hub.ends_complete hrec' _).mpr ?_)
    rw [after_ok]
    cases hcompletion : record.completion with
    | none =>
      rw [hcompletion] at hended
      exact hended
    | some g =>
      rw [hcompletion] at hended
      rw [ends_bind]
      refine (ends_zoom _ _ _).mpr (hended.mono ?_)
      rintro (fault | _) h' hk'
      · exact hk'
      · exact hk'

/-! ## Runs -/

section
variable (hk : Kept i.hub held (Desk.pending i) es)
  (hfew : ∀ g, (held ++ i.hub.tracked).count g < wordSize 32)
include hk hfew

theorem answer_kept {c : Call κ Unit Empty} (hperm : c.permits held held = true) (hroom : c.Roomy i.hub)
    (hcovered : c.Covered i.hub) :
    (answer c).Ends i fun r j => Kept j.hub (settle c r held) (Desk.pending j) (es ++ c.postings r) := by
  have hsame : Kept i.hub held (Desk.pending i) (es ++ []) := by rwa [List.append_nil]
  have hmem : ∀ g, (held.contains g || held.contains g) = true → g ∈ held := by simp
  have hhub :
      ∀ {α : Type} {x : Act (InboxReport κ) (Hub κ) α} {k : Except Fault α → List Nat}
      {e : Except Fault α → List Posting},
        (x.Ends i.hub fun r h' => Kept h' (k r) (Desk.pending i) (es ++ e r)) →
        (Inbox.onHub x).Ends i fun r j => Kept j.hub (k r) (Desk.pending j) (es ++ e r) := fun hx => hx
  cases c with
  | newGroup =>
    refine hhub ((newGroup_kept hk).mono ?_)
    rintro _ h' ⟨refusal | g, rfl, hk'⟩ <;> exact hk'
  | cloneGroup g =>
    refine hhub ((cloneGroup_kept hsame (hmem g hperm)).mono ?_)
    rintro _ h' ⟨rfl, hk'⟩
    exact hk'
  | dropGroup g =>
    refine hhub ((dropGroup_kept hsame hfew (List.contains_iff_mem.mp hperm)).mono ?_)
    rintro _ h' ⟨rfl, hk'⟩
    exact hk'
  | add g n =>
    refine hhub ((addGroup_kept hk (hmem g hperm) (hroom (g, n) rfl) hcovered).mono ?_)
    rintro (fault | _) h' hk' <;> exact hk'
  | count g =>
    obtain ⟨state, hs⟩ := hk.books.get?_of_mem (List.mem_append_left _ (hmem g hperm))
    refine hhub ?_
    rw [ends_bind, Hub.ends_group hs]
    exact hsame
  | schedule job group p a =>
    have hheld : ∀ g, group = some g → g ∈ held := by
      rintro g rfl
      exact hmem g hperm
    have hroom : ∀ record, i.hub.jobs[job]? = some record → record.scheduled = false → ∀ g, group = some g →
        i.hub.Roomy g 1 := by
      rintro record hrec hfree g rfl
      refine hroom (g, 1) ?_
      simp only [Call.addition, hrec, Option.any_some, hfree, Bool.not_false, if_true, Option.mem_def]
    have hr : ∀ record, i.hub.jobs[job]? = some record → record.scheduled = false → ∀ g, group = some g →
        i.hub.Receptive g :=
      fun record hrec hfree g hg =>
        hk.books.receptive_of_roomy hfew hk.latched (List.mem_append_left _ (hheld g hg))
          (hroom record hrec hfree g hg)
    have hsubmits : Inbox.scheduler.Submits i job group p a (Inbox.scheduler.schedule job group p a) :=
      Scheduler.schedule_submits Scheduler.lawful_inbox hk.cleared hr
    refine (submission_kept hsame hsubmits hheld hroom hr).mono ?_
    rintro (fault | refusal | _) j hk' <;> exact hk'
  | addJob job p a =>
    have hsubmits : Inbox.scheduler.Submits i job none p a (Inbox.scheduler.addJob job p a) :=
      Scheduler.addJob_submits Scheduler.lawful_inbox hk.cleared
    refine (submission_kept hsame hsubmits (fun g hg => by cases hg)
      (fun _ _ _ g hg => by cases hg) fun _ _ _ g hg => by cases hg).mono ?_
    rintro (fault | refusal | _) j hk' <;> exact hk'
  | isScheduled => exact hsame
  | giveGroup | takeGroup | spawn | place | counters | report | access => exact hsame

theorem perform_kept {c : Call κ Unit Empty} (hroom : c.permits held held = true → c.Roomy i.hub)
    (hcovered : c.permits held held = true → c.Covered i.hub) :
    (perform c held).Ends i fun r j =>
      Kept j.hub (settle c r held) (Desk.pending j) (es ++ c.postings r) := by
  unfold perform
  rw [ends_ite]
  split
  · rename_i hperm
    exact answer_kept hk hfew hperm (hroom hperm) (hcovered hperm)
  · rw [ends_fail, Call.postings_error, List.append_nil]
    exact hk

end

theorem kept_move (hk : Kept d.inbox.hub d.kept (Desk.pending d.inbox) es) {m : Move κ} (hadmits : d.Admits m)
    (hfew : d.FewHandles) :
    Kept (d.move m).inbox.hub (d.move m).kept (Desk.pending (d.move m).inbox) (es ++ d.postings m) := by
  have hsame : Kept d.inbox.hub d.kept (Desk.pending d.inbox) (es ++ []) := by rwa [List.append_nil]
  cases m with
  | call c => exact perform_kept hk hfew (fun hperm => (hadmits hperm).1) fun hperm => (hadmits hperm).2
  | record code extended oneShot =>
    have hmade : (Inbox.onHub (Hub.addRecord (.new code extended oneShot))).Ends d.inbox
        fun _ j => Kept j.hub d.kept (Desk.pending j) (es ++ []) := by
      refine (ends_zoom _ _ _).mpr ((Hub.ends_addRecord _ _).mpr ?_)
      split
      · exact hsame.recorded _ rfl rfl
      · exact hsame
    exact hmade
  | refuse refusal => exact hsame
  | deliver => exact deliver_kept hsame hfew hadmits

theorem Reached.kept (hr : Reached mode config d es) : Kept d.inbox.hub d.kept (Desk.pending d.inbox) es := by
  induction hr with
  | @start hub hnew =>
    obtain ⟨fibers, -, hempty⟩ := Hub.empty_of_new hnew
    have hdead := hempty.get?_groups
    refine ⟨hempty.tidy, ?_, ⟨?_, ?_⟩, ?_, ?_, fun job => Nat.zero_le _, hempty.accounted _⟩
    · intro g
      rw [Hub.waitingOn, hdead]
      rfl
    · intro g s hs
      rw [hdead] at hs
      cases hs
    · intro g _
      rw [Hub.tracked, hempty.jobs]
      exact List.not_mem_nil
    · intro g s hs
      rw [hdead] at hs
      cases hs
    · intro j record hrec
      rw [hempty.jobs] at hrec
      cases hrec
  | step m _ hadmits hfew ih => exact kept_move ih hadmits hfew

theorem Reached.consistent (hr : Reached mode config d es) :
    d.inbox.hub.Consistent (Desk.pending d.inbox) (accounts es) :=
  hr.kept.accounted.consistent hr.kept.cleared hr.kept.once

end Desk

namespace System

variable {μ ρ σ : Type} {body : κ → Program κ μ ρ Unit} {s : System κ μ ρ}

section
variable {mode : Mode} {host : Host} {config : Config} {memory : μ} {x : σ} {s₀ : System κ μ ρ}
  (hnew : ((new mode host config memory : Act ρ σ (Except Refusal (System κ μ ρ))) x).result = .ok (.ok s₀))
  {moves : List (Move κ μ ρ)} (hplay : play body s₀ moves = s) (hroom : Along body Roomy s₀ moves)
  (hcovered : Along body Covered s₀ moves) (hfew : Along body (fun s _ => FewHandles s) s₀ moves)
include hnew hplay hroom hcovered hfew

/-- Whatever the workers and the callers do, as long as no count gets too large and no release
takes more units than there are: a job is scheduled exactly if one unfinished run of it is
pending, and never more than one is. The slot for its group is filled only then, so a claim finds
it empty. Each group counts what users added and did not signal, and the pending jobs that it
tracks; so a wait on a group that users did not add to since it was made is over only once none of
these is pending. The same holds of an inbox, whose jobs are pending until they are delivered. -/
theorem jobs_and_groups_accounted :
    s.hub.Consistent s.pending (accounts (trail body postings s₀ moves)) ∧
    (Hub.scheduler : Scheduler ρ κ (Hub κ)).ClaimsEmpty s.hub ∧
    (∀ m job g, .acted job (.wait g) ∈ deeds s (move body s m) m →
      Hub.OnlyTracks (trail body postings s₀ moves) g →
      ∀ j ∈ s.pending, s.hub.tracks g j = false) ∧
    ∀ mode config d es, Desk.Reached mode config d es →
      d.inbox.hub.Consistent (Desk.pending d.inbox) (accounts es) ∧
      (Inbox.scheduler : Scheduler (InboxReport κ) κ (Inbox κ)).ClaimsEmpty d.inbox := by
  have hsettled : Settled s (trail body postings s₀ moves) :=
    hplay ▸ (new_of_ok hnew).settled_play hroom hcovered hfew
  have hcounts := hsettled.consistent
  refine ⟨hcounts, ?_, ?_, ?_⟩
  · exact Scheduler.claimsEmpty Scheduler.lawful_hub Scheduler.careful_hub hcounts.slots
  · intro m job g hd honly
    -- The wait is over at zero, which is what the account and the tracked jobs add up to.
    obtain ⟨state, hs, hzero⟩ := signaled_of_wait hsettled.sound hd
    exact hcounts.counts.untracked hs hzero honly.empty
  · intro mode config d es hr
    exact ⟨hr.consistent,
      Scheduler.claimsEmpty Scheduler.lawful_inbox Scheduler.careful_inbox hr.consistent.slots⟩

end

def tracking : List (Move Bool Unit Unit) :=
  [.call .newGroup, .call (.add 0 3), .record false false false, .call (.schedule 0 (some 0) .normal .any),
    .call (.add 0 (-1)),
    .call (.addJob 0 .high .any), .call (.spawn false (some 0) .normal .any), .work 0, .work 0]

def returning : List (Move Bool Unit Unit) :=
  parking ++ [.work 1, .work 1, .work 1, .work 1]

def smallDesk : Desk Bool :=
  ⟨⟨(Hub.new .strict smallConfig).toOption.get (by decide +kernel), [], none⟩, []⟩

def errands : List (Desk.Move Bool) :=
  [.call .newGroup, .call (.add 0 2), .record true false false, .call (.schedule 0 (some 0) .normal .any),
    .deliver, .call (.schedule 0 (some 0) .low .any)]

theorem tracked_jobs_counted :
    (let s := play smallBody small tracking
     s.hub.groups.get? 0 = some ⟨4, 3, none⟩ ∧ s.pending.count 0 = 1 ∧
       accounts (trail smallBody postings small tracking) 0 = 2 ∧
       s.pending.countP (s.hub.tracks 0) = 2) ∧
    (let s := play smallBody small returning
     .acted 0 (.wait 0) ∈ deeds s (move smallBody s (.work 1)) (.work 1) ∧
       ∀ j ∈ s.pending, s.hub.tracks 0 j = false) ∧
    let d := errands.foldl Desk.move smallDesk
    ∃ es, Desk.Reached .strict smallConfig d es ∧ d.inbox.hub.groups.get? 0 = some ⟨3, 2, none⟩ ∧
      accounts es 0 = 2 ∧
      d.inbox.hub.Consistent [0] (accounts es) := by
  obtain ⟨hcounts, -, -, hinboxes⟩ :=
    jobs_and_groups_accounted (s := play smallBody small tracking) new_small rfl (by decide +kernel)
    (by decide +kernel) (by decide +kernel)
  obtain ⟨-, -, hwaits, -⟩ := jobs_and_groups_accounted (s := play smallBody small returning) new_small rfl
    (by decide +kernel) (by decide +kernel) (by decide +kernel)
  refine ⟨?_, ?_, ?_⟩
  · intro s
    have hs : s.hub.groups.get? 0 = some ⟨4, 3, none⟩ := by decide +kernel
    have hscheduled : s.hub.isScheduled 0 = true := by decide +kernel
    have haccount : accounts (trail smallBody postings small tracking) 0 = 2 := by decide +kernel
    have hone : s.pending.count 0 = _ := hcounts.once 0
    have hsum : (4 : Int) = _ + (s.pending.countP (s.hub.tracks 0) : Int) := hcounts.counts 0 _ hs
    rw [hscheduled, if_pos rfl] at hone
    rw [haccount] at hsum
    exact ⟨hs, hone, haccount, by omega⟩
  · intro s
    have hd : deeds s (move smallBody s (.work 1)) (.work 1) = [.acted 0 (.wait 0)] := by rfl
    have hin : .acted 0 (.wait 0) ∈ deeds s (move smallBody s (.work 1)) (.work 1) := by
      rw [hd]
      exact List.mem_singleton_self _
    have hopened : trail smallBody postings small returning = [.opened 0] := by rfl
    exact ⟨hin, hwaits (.work 1) 0 0 hin ⟨[], [], hopened, fun _ => List.not_mem_nil⟩⟩
  · intro d
    have hfew : ∀ d : Desk Bool, (d.kept ++ d.inbox.hub.tracked).length < wordSize 32 → d.FewHandles :=
      fun d hlt g => Nat.lt_of_le_of_lt List.count_le_length hlt
    have hreached : Desk.Reached .strict smallConfig smallDesk [] := .start (eq_of_toOption _)
    have hreached := hreached.step (.call .newGroup) (by decide +kernel) (hfew _ (by decide +kernel))
    have hreached := hreached.step (.call (.add 0 2)) (by decide +kernel) (hfew _ (by decide +kernel))
    have hreached := hreached.step (.record true false false) (by decide +kernel) (hfew _ (by decide +kernel))
    have hreached := hreached.step (.call (.schedule 0 (some 0) .normal .any)) (by decide +kernel)
      (hfew _ (by decide +kernel))
    have hreached := hreached.step .deliver (by decide +kernel) (hfew _ (by decide +kernel))
    have hreached := hreached.step (.call (.schedule 0 (some 0) .low .any)) (by decide +kernel)
      (hfew _ (by decide +kernel))
    exact ⟨_, hreached, by decide +kernel, by decide +kernel, (hinboxes _ _ _ _ hreached).1⟩

/-- The largest count there is, and an add of the least number. -/
def overdraft : List (Move Bool Unit Unit) :=
  [.call .newGroup, .call (.add 0 Int32.maxValue), .call (.add 0 Int32.minValue)]

/-- Not every run without a refused release or an add past the largest count keeps its
accounts: one unit more was signaled than was added, and the group counts none. -/
theorem overdraft_is_granted : Along smallBody Roomy small overdraft ∧ Along smallBody
    (fun s _ => FewHandles s) small overdraft ∧
    journal smallBody small overdraft = [] ∧
    trail smallBody postings small overdraft = [.opened 0, .moved 0 2147483647, .moved 0 (-2147483648)] ∧
    let s := play smallBody small overdraft
    s.hub.groups.get? 0 = some ⟨0, 1, none⟩ ∧ s.pending = [] ∧
      ¬s.hub.Consistent s.pending (accounts (trail smallBody postings small overdraft)) := by
  refine ⟨by decide +kernel, by decide +kernel, by rfl, by rfl, ?_⟩
  intro s
  have hstate : s.hub.groups.get? 0 = some ⟨0, 1, none⟩ := by decide +kernel
  have hpending : s.pending = [] := by decide +kernel
  have haccount : accounts (trail smallBody postings small overdraft) 0 = -1 := by decide +kernel
  refine ⟨hstate, hpending, fun h => ?_⟩
  have hcount := h.counts 0 _ hstate
  rw [hpending, haccount] at hcount
  cases hcount

end System

end FiberScheduler
