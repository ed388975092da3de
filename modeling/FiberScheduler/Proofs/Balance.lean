import FiberScheduler.Proofs.Rollback

/-!
# The accounts of groups

A group counts the units that were added to it and not signaled since, and one for each
pending job that tracks it. Submissions and ends of runs keep that balance: they change
the count and the tracking jobs together.
-/

namespace FiberScheduler

inductive Posting where
  /-- A group was made. -/
  | opened (group : Nat)
  /-- Units were added or signaled. -/
  | moved (group : Nat) (amount : Int)

def Posting.post (e : Posting) (account : Nat → Int) : Nat → Int :=
  match e with
  | .opened g => fun k => if k = g then 0 else account k
  | .moved g amount => fun k => if k = g then account k + amount else account k

/-- What was added to each group and not signaled, since it was made. -/
def accounts (es : List Posting) : Nat → Int :=
  es.foldl (fun account e => e.post account) fun _ => 0

theorem accounts_snoc (es : List Posting) (e : Posting) : accounts (es ++ [e]) = e.post (accounts es) := by
  simp [accounts]

namespace Hub

open Act

variable {ρ κ : Type} {h h' : Hub κ} {g job : Nat} {s : Group} {n : Int32} {record : Job κ}
  {group : Option Nat} {p : Priority} {a : Affinity} {pending pending' : List Nat}
  {account account' : Nat → Int} {f : Nat → Int32 → Int32}

def tracks (h : Hub κ) (g job : Nat) : Bool :=
  (h.jobs[job]?).any (·.completion == some g)

def Covers (h : Hub κ) (g : Nat) (n : Int) : Prop :=
  ∀ s ∈ h.groups.get? g, n ≤ s.count.toInt

instance (h : Hub κ) (g : Nat) (n : Int) : Decidable (h.Covers g n) :=
  inferInstanceAs (Decidable (∀ s ∈ h.groups.get? g, n ≤ s.count.toInt))

/-- Each group counts what is on its account and the pending jobs that track it. -/
def Balanced (h : Hub κ) (pending : List Nat) (account : Nat → Int) : Prop :=
  ∀ g s, h.groups.get? g = some s → s.count.toInt = account g + pending.countP (h.tracks g)

theorem Balanced.of_counted (hb : h.Balanced pending account) (hc : Counted h h' f)
    (hf : ∀ g s, h.groups.get? g = some s → (f g s.count).toInt + account g + pending.countP (h.tracks g) =
      s.count.toInt + account' g + pending'.countP (h'.tracks g)) : h'.Balanced pending' account' := by
  intro g s' hs'
  obtain ⟨s, hs, hcount⟩ := hc g s' hs'
  have hbefore := hb g s hs
  have hafter := hf g s hs
  rw [hcount]
  omega

theorem Balanced.of_kept (hb : h.Balanced pending account) (hc : Counted h h' fun _ n => n)
    (hjobs : h'.jobs = h.jobs) :
    h'.Balanced pending account := by
  have htracks : h'.tracks = h.tracks := by
    unfold tracks
    rw [hjobs]
  refine hb.of_counted hc fun g s _ => ?_
  rw [htracks]

/-! ## Acts on groups -/

def added (g : Nat) (n : Int32) (k : Nat) (count : Int32) : Int32 :=
  if 0 < n then if k = g then count + n else count
  else if n < 0 then lessened g (Group.units n) k count
  else count

theorem added_other {k : Nat} (hk : k ≠ g) (count : Int32) : added g n k count = count := by
  have hless : lessened g (Group.units n) k count = count := if_neg fun hn => hk hn.1
  simp [added, hk, hless]

theorem addGroup_counted (ht : h.Tidy) (g : Nat) (n : Int32) :
    (addGroup g n : Act ρ (Hub κ) Unit).Ends h fun _ h' => Counted h h' (added g n) := by
  cases hs : h.groups.get? g with
  | none =>
    have hsame : Counted h h (added g n) := by
      intro k s hk
      refine ⟨s, hk, (added_other (fun he => ?_) s.count).symm⟩
      rw [he, hs] at hk
      cases hk
    simp only [addGroup, ends_ite, ends_bind, ends_discard]
    split
    · exact ends_group_dead hs fun _ => hsame
    · split
      · exact ends_releaseGroup_dead hs fun _ => hsame
      · exact hsame
  | some s =>
    rw [ends_addGroup hs]
    split
    · rename_i hpos
      refine counted_store hs (fun s' hs' => ?_) fun k m hk => added_other hk m
      rw [← Option.some.inj hs', added, if_pos hpos, if_pos rfl]
    · rename_i hpos
      split
      · rename_i hneg
        have hadded : added g n = lessened g (Group.units n) := by
          funext k count
          rw [added, if_neg hpos, if_pos hneg]
        rw [hadded]
        exact releaseGroup_counted ht g _
      · rename_i hneg
        have hadded : added g n = fun _ count => count := by
          funext k count
          rw [added, if_neg hpos, if_neg hneg]
        rw [hadded]
        exact .refl h

theorem toInt_units_of_le (hneg : n < 0) (hcovers : -n.toInt ≤ s.count.toInt) :
    (Group.units n).toInt = -n.toInt := by
  rw [Int32.lt_iff_toInt_lt, Int32.toInt_zero] at hneg
  refine toInt_units hneg ?_
  rintro rfl
  have hlow : Int32.minValue.toInt = -2147483648 := rfl
  have hmax : Int32.maxValue.toInt = 2147483647 := rfl
  have hle := s.count.toInt_le
  omega

theorem toInt_added (hl : s.Latched) (hroom : s.count.toInt + n.toInt ≤ Int32.maxValue.toInt)
    (hcovers : n < 0 → -n.toInt ≤ s.count.toInt) : (added g n g s.count).toInt = s.count.toInt + n.toInt := by
  have hcount := hl.count
  have hmax : Int32.maxValue.toInt = 2147483647 := rfl
  unfold added
  by_cases hpos : 0 < n
  · have hn : 0 < n.toInt := by rwa [Int32.lt_iff_toInt_lt] at hpos
    rw [if_pos hpos, if_pos rfl, Int32.toInt_add]
    exact Int.bmod_eq_of_le (by omega) (by omega)
  · rw [if_neg hpos]
    by_cases hneg : n < 0
    · have hunits := toInt_units_of_le hneg (hcovers hneg)
      have hle : Group.units n ≤ s.count := by
        rw [Int32.le_iff_toInt_le, hunits]
        exact hcovers hneg
      rw [if_pos hneg, lessened, if_pos ⟨rfl, Int32.not_lt.mpr hle⟩,
        Int32.toInt_sub_of_le _ _ (Int32.le_of_lt (units_pos hneg)) hle, hunits]
      omega
    · have hzero : n.toInt = 0 := by
        rw [Int32.lt_iff_toInt_lt, Int32.toInt_zero] at hpos hneg
        omega
      rw [if_neg hneg, hzero, Int.add_zero]

theorem addGroup_balanced (ht : h.Tidy) (hl : h.Latched) (hb : h.Balanced pending account)
    (hroom : h.Roomy g n) (hcovers : n < 0 → h.Covers g (-n.toInt)) :
    (addGroup g n : Act ρ (Hub κ) Unit).Ends h fun _ h' =>
      h'.Balanced pending ((Posting.moved g n.toInt).post account) := by
  refine ((addGroup_counted ht g n).and (addGroup_steady ht g n)).mono ?_
  rintro r h' ⟨hc, hst, -⟩
  have htracks : h'.tracks = h.tracks := by
    unfold tracks
    rw [hst.rest]
  refine hb.of_counted hc fun k s hs => ?_
  rw [htracks]
  by_cases hk : k = g
  · subst hk
    rw [toInt_added (hl k s hs) (hroom s hs) fun hneg => hcovers hneg s hs]
    simp only [Posting.post, if_true]
    omega
  · rw [added_other hk]
    simp only [Posting.post, if_neg hk]

theorem newGroup_balanced (hb : h.Balanced pending account) {free : List Nat}
    (hfree : h.groups.free = g :: free) (ht : h.Tidy) (hnone : ∀ job ∈ pending, h.tracks g job = false) :
    (h.store g (some .new) free).Balanced pending ((Posting.opened g).post account) := by
  have hempty := ht.blocks.empty g (by rw [hfree]; exact List.mem_cons_self)
  intro k s hs
  rw [get?_store hempty] at hs
  show _ = _ + (pending.countP (h.tracks k) : Int)
  by_cases hk : g = k
  · subst hk
    rw [if_pos rfl] at hs
    rw [← Option.some.inj hs, List.countP_eq_zero.mpr (by simpa using hnone)]
    simp [Posting.post, Group.new]
  · rw [if_neg hk] at hs
    rw [hb k s hs]
    simp [Posting.post, Ne.symm hk]

/-! ## Submissions and ends of runs -/

theorem tracks_setJob (hrec : h.jobs[job]? = some record) (new : Job κ) (g j : Nat) :
    (h.setJob job new).tracks g j = if job = j then new.completion == some g else h.tracks g j := by
  unfold tracks
  rw [getElem?_setJob hrec]
  by_cases hj : job = j
  · rw [if_pos hj, if_pos hj]
    rfl
  · rw [if_neg hj, if_neg hj]

theorem countP_tracks_setJob (hrec : h.jobs[job]? = some record) (new : Job κ) (g : Nat)
    (hno : job ∉ pending) :
    pending.countP ((h.setJob job new).tracks g) = pending.countP (h.tracks g) := by
  refine List.countP_congr fun j hj => ?_
  have hne : job ≠ j := fun he => hno (he ▸ hj)
  rw [tracks_setJob hrec, if_neg hne]

theorem Balanced.claimed (hb : h.Balanced pending account) (hrec : h.jobs[job]? = some record)
    (hno : job ∉ pending) (hr : ∀ g, group = some g → h.Receptive g) :
    (h.claimed job record group).Balanced (job :: pending) account := by
  intro k s hs
  have hrec' := getElem?_enroll hrec group
  have hothers : pending.countP ((h.claimed job record group).tracks k) = pending.countP (h.tracks k) := by
    refine (countP_tracks_setJob hrec' _ k hno).trans ?_
    rw [enroll_rest]
    rfl
  have hthis : (h.claimed job record group).tracks k job = (group == some k) := by
    refine (tracks_setJob hrec' _ k job).trans ?_
    rw [if_pos rfl]
  change (h.enroll group).groups.get? k = some s at hs
  rw [List.countP_cons, hothers, hthis]
  cases group with
  | none => simpa using hb k s hs
  | some g =>
    obtain ⟨s₀, hs₀, -, hmax, -⟩ := hr g rfl
    have hbefore := hb g s₀ hs₀
    simp only [enroll, hs₀] at hs
    rw [get?_store (block_of_get? hs₀)] at hs
    by_cases hk : g = k
    · subst hk
      rw [if_pos rfl] at hs
      rw [← Option.some.inj hs, toInt_succ hmax, hbefore]
      simp [Int.add_assoc]
    · rw [if_neg hk] at hs
      simpa [hk] using hb k s hs

theorem Balanced.of_end (hb : h.Balanced pending account) (hp : pending.Perm (job :: pending'))
    (hno : job ∉ pending') (hrec : h.jobs[job]? = some record)
    (hjobs : h'.jobs = h.jobs.setIfInBounds job (closed record))
    (hc : Counted h h' (signaled record.completion))
    (hcovers : ∀ g, record.completion = some g → h.Covers g 1) :
    h'.Balanced pending' account := by
  refine hb.of_counted hc fun k s hs => ?_
  have hothers : pending'.countP (h'.tracks k) = pending'.countP (h.tracks k) := by
    refine (List.countP_congr fun j _ => ?_).trans (countP_tracks_setJob hrec (closed record) k hno)
    unfold tracks
    rw [hjobs]
    rfl
  have hthis : h.tracks k job = (record.completion == some k) := by simp [tracks, hrec]
  rw [hp.countP_eq, List.countP_cons, hothers, hthis]
  cases hcompletion : record.completion with
  | none => simp [signaled]
  | some g =>
    by_cases hk : g = k
    · subst hk
      have hle : 1 ≤ s.count := Int32.le_iff_toInt_le.mpr (hcovers g hcompletion s hs)
      rw [signaled, lessened, if_pos ⟨rfl, Int32.not_lt.mpr hle⟩, Int32.toInt_sub_of_le _ _ (by decide) hle,
        show (1 : Int32).toInt = 1 from rfl]
      simp
      omega
    · rw [signaled, lessened, if_neg fun he => hk he.1.symm]
      simp [hk]

/-! ## Accounts of a hub -/

structure Accounted (h : Hub κ) (pending : List Nat) (account : Nat → Int) : Prop where
  scheduled : ∀ job, h.isScheduled job = true → job ∈ pending
  balanced : h.Balanced pending account

theorem Accounted.perm (ha : h.Accounted pending account) (hp : pending.Perm pending') :
    h.Accounted pending' account where
  scheduled := fun job hs => hp.mem_iff.mp (ha.scheduled job hs)
  balanced := fun g s hs => by rw [← hp.countP_eq]; exact ha.balanced g s hs

theorem Empty.accounted {workers fibers : Nat} (he : h.Empty workers fibers) (account : Nat → Int) :
    h.Accounted [] account := by
  refine ⟨?_, ?_⟩
  · intro job hs
    rw [isScheduled, he.jobs] at hs
    cases hs
  · intro g s hs
    rw [he.get?_groups] at hs
    cases hs

structure Consistent (h : Hub κ) (pending : List Nat) (account : Nat → Int) : Prop where
  once : ∀ job, pending.count job = if h.isScheduled job then 1 else 0
  slots : h.Cleared
  counts : h.Balanced pending account

theorem Accounted.consistent (ha : h.Accounted pending account) (hcleared : h.Cleared)
    (honce : ∀ job, pending.count job ≤ if h.isScheduled job then 1 else 0) :
      h.Consistent pending account where
  once := by
    intro job
    have hle := honce job
    by_cases hs : h.isScheduled job = true
    · have hpos := List.count_pos_iff.mpr (ha.scheduled job hs)
      rw [if_pos hs] at hle ⊢
      omega
    · rw [if_neg hs] at hle ⊢
      omega
  slots := hcleared
  counts := ha.balanced

theorem isScheduled_of_jobs (hjobs : h'.jobs = h.jobs) (job : Nat) :
    h'.isScheduled job = h.isScheduled job := by
  unfold isScheduled
  rw [hjobs]

theorem Accounted.of_kept (ha : h.Accounted pending account) (hc : Counted h h' fun _ n => n)
    (hjobs : h'.jobs = h.jobs) :
    h'.Accounted pending account where
  scheduled := fun job hs => ha.scheduled job (by rwa [isScheduled_of_jobs hjobs] at hs)
  balanced := ha.balanced.of_kept hc hjobs

theorem Accounted.of_records (ha : h.Accounted pending account) (hgroups : h'.groups = h.groups)
    (hscheduled : ∀ job, h'.isScheduled job = h.isScheduled job)
    (htracks : ∀ g, ∀ job ∈ pending, h'.tracks g job = h.tracks g job) :
    h'.Accounted pending account where
  scheduled := fun job hs => ha.scheduled job (by rwa [hscheduled] at hs)
  balanced := by
    intro g s hs
    have hcount : pending.countP (h'.tracks g) = pending.countP (h.tracks g) :=
      List.countP_congr fun job hj => by rw [htracks g job hj]
    rw [hgroups] at hs
    rw [hcount]
    exact ha.balanced g s hs

theorem isScheduled_setJob (hrec : h.jobs[job]? = some record) (new : Job κ) (j : Nat) :
    (h.setJob job new).isScheduled j = if job = j then new.scheduled else h.isScheduled j := by
  unfold isScheduled
  rw [getElem?_setJob hrec]
  by_cases hj : job = j
  · rw [if_pos hj, if_pos hj]
    rfl
  · rw [if_neg hj, if_neg hj]

theorem Accounted.started (ha : h.Accounted pending account) (hrec : h.jobs[job]? = some record)
    (lanes : Lanes) :
    (({ h with lanes } : Hub κ).setJob job { record with started := true }).Accounted pending account := by
  refine ha.of_records rfl (System.isScheduled_started hrec) ?_
  intro g j _
  refine (tracks_setJob (h := { h with lanes }) hrec { record with started := true } g j).trans ?_
  split
  · rename_i hj
    rw [← hj, tracks, hrec]
    rfl
  · rfl

theorem isScheduled_push {new : Job κ} (hnew : new.scheduled = false) (j : Nat) :
    ({ h with jobs := h.jobs.push new } : Hub κ).isScheduled j = h.isScheduled j := by
  unfold isScheduled
  by_cases hlast : j = h.jobs.size
  · simp [hlast, hnew]
  · rw [Array.getElem?_push, if_neg hlast]

theorem Accounted.push (ha : h.Accounted pending account) (hknown : ∀ job ∈ pending, (h.jobs[job]?).isSome)
    {new : Job κ} (hnew : new.scheduled = false) :
    ({ h with jobs := h.jobs.push new } : Hub κ).Accounted pending account := by
  refine ha.of_records rfl (isScheduled_push hnew) ?_
  intro g j hj
  obtain ⟨record, hrec⟩ := Option.isSome_iff_exists.mp (hknown j hj)
  unfold tracks
  rw [getElem?_push_lt hrec, hrec]

theorem Accounted.claimed (ha : h.Accounted pending account) (hrec : h.jobs[job]? = some record)
    (hno : job ∉ pending) (hr : ∀ g, group = some g → h.Receptive g) :
    (h.claimed job record group).Accounted (job :: pending) account where
  scheduled := by
    intro j hs
    have hsame : (h.enroll group).isScheduled j = h.isScheduled j :=
      isScheduled_of_jobs (by rw [enroll_rest]) j
    unfold Hub.claimed at hs
    rw [isScheduled_setJob (getElem?_enroll hrec group), hsame] at hs
    by_cases hj : job = j
    · rw [hj]
      exact List.mem_cons_self
    · rw [if_neg hj] at hs
      exact List.mem_cons_of_mem job (ha.scheduled j hs)
  balanced := ha.balanced.claimed hrec hno hr

theorem Accounted.of_end (ha : h.Accounted pending account) (hp : pending.Perm (job :: pending'))
    (hno : job ∉ pending') (hrec : h.jobs[job]? = some record)
    (hjobs : h'.jobs = h.jobs.setIfInBounds job (closed record))
    (hc : Counted h h' (signaled record.completion))
    (hcovers : ∀ g, record.completion = some g → h.Covers g 1) :
    h'.Accounted pending' account where
  scheduled := by
    intro j hs
    rw [isScheduled_of_jobs (h := h.setJob job (closed record)) hjobs, isScheduled_setJob hrec] at hs
    by_cases hj : job = j
    · rw [if_pos hj] at hs
      cases hs
    · rw [if_neg hj] at hs
      rcases List.mem_cons.mp (hp.mem_iff.mp (ha.scheduled j hs)) with rfl | hin
      · exact absurd rfl hj
      · exact hin
  balanced := ha.balanced.of_end hp hno hrec hjobs hc hcovers

/-! ## Submissions to the hub -/

def joined (queued : Option (Nat × Option Nat)) (pending : List Nat) : List Nat :=
  (queued.map (·.1)).toList ++ pending

section
variable {r : Except Fault (Except Refusal Unit)}
  (hlive : ∀ g, group = some g → ∃ s, h.groups.get? g = some s)
  (hr : ∀ record, h.jobs[job]? = some record → record.scheduled = false → ∀ g, group = some g → h.Receptive g)
include hlive hr

/-- A submission leaves the hub as it was, or its job is claimed for it. -/
theorem Scheduled.settles (hs : Scheduled ρ h job group p a r h') : (r ≠ .ok (.ok ()) ∧ h' = h) ∨
    ∃ record, h.jobs[job]? = some record ∧ record.scheduled = false ∧ r = .ok (.ok ()) ∧
      h'.groups = (h.claimed job record group).groups ∧ h'.jobs = (h.claimed job record group).jobs := by
  cases hs with
  | declined hne => exact Or.inl ⟨hne, rfl⟩
  | stuck hrec hfree hdead =>
    obtain ⟨g, hg, hnone⟩ := hdead
    obtain ⟨s, hs⟩ := hlive g hg
    cases hnone.symm.trans hs
  | refused hrec hfree hne =>
    refine Or.inl ⟨hne, ?_⟩
    exact (gives_withdraw_enroll (ρ := ρ) (hr _ hrec hfree)).2
  | accepted hrec hfree => exact Or.inr ⟨_, hrec, hfree, rfl, rfl, rfl⟩

theorem Scheduled.accounted (hs : Scheduled ρ h job group p a r h') (ha : h.Accounted pending account)
    (hno : ∀ record, h.jobs[job]? = some record → record.scheduled = false → job ∉ pending) :
    h'.Accounted (joined (taken job group r) pending) account := by
  rcases hs.settles hlive hr with ⟨hne, rfl⟩ | ⟨record, hrec, hfree, rfl, hgroups, hjobs⟩
  · rw [taken_eq_none hne]
    exact ha
  · have hc := ha.claimed hrec (hno record hrec hfree) (hr record hrec hfree)
    exact hc.of_records hgroups (isScheduled_of_jobs hjobs) fun g j _ => by unfold tracks; rw [hjobs]

end

theorem Spawned.accounted {code : κ} {r : Except Fault (Except Refusal Unit)}
    (hs : Spawned ρ h code group p a r h') (ha : h.Accounted pending account)
    (hknown : ∀ job ∈ pending, (h.jobs[job]?).isSome)
    (hlive : ∀ g, group = some g → ∃ s, h.groups.get? g = some s)
    (hr : h.jobs.size + 1 < recordLimit → ∀ g, group = some g → h.Receptive g) :
    h'.Accounted (joined (taken h.jobs.size group r) pending) account := by
  let pushed : Hub κ := { h with jobs := h.jobs.push (.new code false true) }
  have hpushed : pushed.Accounted pending account := ha.push hknown rfl
  have hlive' : ∀ g, group = some g → ∃ s, pushed.groups.get? g = some s := hlive
  have hr' : h.jobs.size + 1 < recordLimit → ∀ g, group = some g → pushed.Receptive g := hr
  cases hs with
  | full => exact ha
  | kept _ hlimit hs =>
    refine hs.accounted hlive' (fun _ _ _ => hr' hlimit) hpushed fun _ _ _ hin => ?_
    have hsome := hknown _ hin
    simp at hsome
  | @forgotten refusal h' hlimit hs =>
    rcases hs.settles hlive' fun _ _ _ => hr' hlimit with ⟨-, rfl⟩ | ⟨record, -, -, he, -⟩
    · have hback := (gives_dropRecord (ρ := ρ) h (.new code false true)).2
      exact hback ▸ ha
    · cases he

/-! ## Acts of users -/

def opened : Except Fault (Except Refusal Nat) → List Posting
  | .ok (.ok g) => [.opened g]
  | _ => []

def moved (g : Nat) (n : Int32) : Except Fault Unit → List Posting
  | .ok () => [.moved g n.toInt]
  | .error _ => []

theorem Books.tracks_eq_false {X : List Nat} (hb : Books h (X ++ h.tracked)) (hdead : h.groups.get? g = none)
    (job : Nat) :
    h.tracks g job = false := by
  rw [← Bool.not_eq_true]
  intro htracks
  obtain ⟨record, hrec, hcompletion⟩ := (Option.any_eq_true _ _).mp htracks
  have hin : g ∈ h.tracked := mem_gather.mpr
    ⟨job, record, hrec, by rw [beq_iff_eq.mp hcompletion]; exact List.mem_singleton_self g⟩
  exact hb.dead g hdead (List.mem_append_right X hin)

section
variable {es : List Posting} (ha : h.Accounted pending (accounts es))
include ha

theorem newGroup_accounted (ht : h.Tidy)
    (hnone : ∀ g, h.groups.get? g = none → ∀ job ∈ pending, h.tracks g job = false) :
    (newGroup : Act ρ (Hub κ) (Except Refusal Nat)).Ends h fun r h' => h'.Accounted pending
    (accounts (es ++ opened r)) := by
  rw [ends_newGroup]
  cases hfree : h.groups.free with
  | nil =>
    show h.Accounted pending (accounts (es ++ []))
    rwa [List.append_nil]
  | cons g free =>
    have hdead := (ht.blocks.front hfree).2
    show (h.store g (some .new) free).Accounted pending (accounts (es ++ [.opened g]))
    rw [accounts_snoc]
    exact ⟨ha.scheduled, newGroup_balanced ha.balanced hfree ht (hnone g hdead)⟩

theorem cloneGroup_accounted (g : Nat) :
    (cloneGroup g : Act ρ (Hub κ) Unit).Ends h fun _ h' => h'.Accounted pending (accounts es) := by
  cases hs : h.groups.get? g with
  | none => exact ends_cloneGroup_dead hs fun _ => ha
  | some s =>
    rw [ends_cloneGroup hs]
    exact ha.of_kept (counted_store hs (fun s' hs' => by rw [← Option.some.inj hs']) fun _ _ _ => rfl) rfl

theorem dropGroup_accounted (ht : h.Tidy) (g : Nat) :
    (dropGroup g : Act ρ (Hub κ) Unit).Ends h fun _ h' => h'.Accounted pending (accounts es) := by
  refine ((dropGroup_counted h g).and (dropGroup_steady ht g)).mono ?_
  rintro r h' ⟨hc, hst⟩
  exact ha.of_kept hc (by rw [hst.rest])

theorem addGroup_accounted (ht : h.Tidy) (hl : h.Latched) (hs : h.groups.get? g = some s)
    (hroom : h.Roomy g n) (hcovers : n < 0 → h.Covers g (-n.toInt)) :
    (addGroup g n : Act ρ (Hub κ) Unit).Ends h fun r h' => h'.Accounted pending
    (accounts (es ++ moved g n r)) := by
  have hgoes : (addGroup g n : Act ρ (Hub κ) Unit).Ends h fun r _ => r = .ok () := by
    rw [ends_addGroup hs]
    split
    · rfl
    · split
      · rename_i hneg
        refine (ends_releaseGroup_cases ht hs).mono ?_
        intro r h' hr
        refine hr.ok_iff.mpr ?_
        rintro ⟨-, hlt⟩
        have hle := hcovers hneg s hs
        rw [Int32.lt_iff_toInt_lt, toInt_units_of_le hneg hle] at hlt
        omega
      · rfl
  refine (hgoes.and ((addGroup_balanced ht hl ha.balanced hroom hcovers).and
    (addGroup_steady ht g n))).mono ?_
  rintro r h' ⟨rfl, hb, hst, -⟩
  rw [moved, accounts_snoc]
  refine ⟨?_, hb⟩
  intro job hscheduled
  rw [isScheduled_of_jobs (h := h) (by rw [hst.rest])] at hscheduled
  exact ha.scheduled job hscheduled

end

theorem post_eq_zero {es : List Posting} (hno : ∀ amount, .moved g amount ∉ es) (hzero : account g = 0) :
    es.foldl (fun account e => e.post account) account g = 0 := by
  induction es generalizing account with
  | nil => exact hzero
  | cons e es ih =>
    refine ih (fun amount hin => hno amount (List.mem_cons_of_mem e hin)) ?_
    cases e with
    | opened k =>
      show (if g = k then 0 else account g) = 0
      rw [hzero, ite_self]
    | moved k amount =>
      have hne : g ≠ k := fun he => hno amount (he ▸ List.mem_cons_self)
      exact (if_neg hne).trans hzero

theorem accounts_eq_zero {es : List Posting} (hno : ∀ amount, .moved g amount ∉ es) : accounts es g = 0 :=
  post_eq_zero hno rfl

/-- A group that no user has added to or signaled since it was made. -/
def OnlyTracks (es : List Posting) (g : Nat) : Prop :=
  ∃ before after, es = before ++ .opened g :: after ∧ ∀ amount, .moved g amount ∉ after

theorem OnlyTracks.empty {es : List Posting} (h : OnlyTracks es g) : accounts es g = 0 := by
  obtain ⟨before, after, rfl, hno⟩ := h
  rw [accounts, List.foldl_append, List.foldl_cons]
  exact post_eq_zero hno (if_pos rfl)

theorem Balanced.untracked (hb : h.Balanced pending account) (hs : h.groups.get? g = some s)
    (hzero : s.count = 0) (haccount : account g = 0) : ∀ j ∈ pending, h.tracks g j = false := by
  have hcount := hb g s hs
  rw [hzero, haccount, Int32.toInt_zero] at hcount
  have hnone : pending.countP (h.tracks g) = 0 := by omega
  simpa using List.countP_eq_zero.mp hnone

end Hub

/-! ## Claims -/

namespace Scheduler

open Act

variable {ρ κ σ : Type} {S : Scheduler ρ κ σ} {x : σ}

/-- A claim finds the slot of its job empty, and so does the withdrawal of a claim that was
refused before a group was stored. -/
def ClaimsEmpty (S : Scheduler ρ κ σ) (x : σ) : Prop :=
  ∀ job, (S.onHub (Hub.claim job)).Ends x fun r y => r = .ok (.ok ()) →
    ((S.hub y).jobs[job]?).bind (·.completion) = none ∧
    ∀ p a, (S.enqueue job p a).Ends y fun r z => ∀ refusal, r = .ok (.error refusal) →
      (S.onHub (Hub.complete job)).Ends z fun r _ => r = .ok none

theorem claimsEmpty (hS : S.Lawful) (hcareful : S.Careful) (hcleared : (S.hub x).Cleared) :
    S.ClaimsEmpty x := by
  intro job
  by_cases hno : ∀ record, (S.hub x).jobs[job]? = some record → record.scheduled = true
  · refine (ends_zoom _ _ _).mpr ((Hub.ends_claim_declined hno).mono ?_)
    rintro r h ⟨rfl, -⟩ hr
    unfold Hub.declined at hr
    split at hr <;> cases hr
  · obtain ⟨record, hrec, hfree⟩ : ∃ record, (S.hub x).jobs[job]? = some record ∧
        record.scheduled = false := by
      simpa using hno
    have hclaim : (S.onHub (Hub.claim job)).Gives x (.ok ()) _ := (Hub.gives_claim hrec hfree).zoom
    refine hclaim.ends ?_
    intro _
    rw [hS.hub_withHub]
    have hrec' := (Hub.getElem?_setJob hrec { record with scheduled := true } job).trans (if_pos rfl)
    have hnone := hcleared job record hrec hfree
    refine ⟨?_, ?_⟩
    · rw [hrec']
      exact hnone
    · intro p a
      refine (hcareful job p a _).mono ?_
      intro r z hz refusal hr
      rw [hz refusal hr]
      refine (ends_zoom _ _ _).mpr ?_
      rw [hS.hub_withHub]
      exact (Hub.ends_complete hrec' _).mpr (congrArg Except.ok hnone)

end Scheduler

end FiberScheduler
