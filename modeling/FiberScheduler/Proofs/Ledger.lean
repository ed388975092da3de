import FiberScheduler.Proofs.Handles
import FiberScheduler.Proofs.Keeping

/-!
# Who has the handles

Every handle of a group is with a run, kept for others, or with a pending job that the
group counts.
-/

namespace FiberScheduler

namespace Hub

open Act

variable {ρ κ : Type} {h h' : Hub κ} {X : List Nat} {job : Nat} {record : Job κ} {group : Option Nat}
  {p : Priority} {a : Affinity}

def tracked (h : Hub κ) : List Nat :=
  gather (·.completion.toList) h.jobs

theorem Books.of_groups {T : List Nat} (hb : Books h T) (hg : h'.groups = h.groups) : Books h' T :=
  hb.of_handles fun g => by rw [hg]

theorem Steady.tracked (hst : Steady h h') : h'.tracked = h.tracked := by
  rw [hst.rest]
  rfl

/-! ## Submissions -/

/-- A count of handles may be off by those a submission has in its hands. -/
theorem enroll_books {T : List Nat} (hb : Books h T) (hg : ∀ g, group = some g → g ∈ T) :
    Books (h.enroll group) (group.toList ++ T) := by
  cases group with
  | none => exact hb
  | some g =>
    obtain ⟨s, hs⟩ := hb.get?_of_mem (hg g rfl)
    rw [enroll, hs]
    refine books_store hb hs List.mem_cons_self ?_ fun k hk => List.count_cons_of_ne (Ne.symm hk)
    show s.handles + 1 = UInt32.ofNat ((g :: T).count g)
    rw [List.count_cons_self, UInt32.ofNat_add, (hb.live g s hs).2]
    rfl

theorem withdraw_books {T : List Nat} (ht : h.Tidy) (hb : Books h (group.toList ++ T))
    (hfew : ∀ g, T.count g < wordSize 32) (hw : ∀ g, group = some g → h.waitingOn g ≠ [] → g ∈ T) :
    (withdraw group : Act ρ (Hub κ) Unit).Ends h fun _ h' => Books h' T ∧ Steady h h' ∧ Whole h h' := by
  cases group with
  | none => exact ⟨hb, .refl ht, fun _ => rfl⟩
  | some g => exact signalAndDrop_books ht hb (hfew g) (hw g rfl)

theorem tracked_setJob (hrec : h.jobs[job]? = some record) (new : Job κ) :
    ((h.setJob job new).tracked ++ record.completion.toList).Perm (h.tracked ++ new.completion.toList) :=
  gather_set_perm _ new hrec

section
variable (hrec : h.jobs[job]? = some record) (X : List Nat)
include hrec

theorem tracked_closed : (X ++ h.tracked).Perm
    (record.completion.toList ++ (X ++ (h.setJob job (closed record)).tracked)) := by
  have htracked :
      ((h.setJob job (closed record)).tracked ++ record.completion.toList).Perm (h.tracked ++ []) :=
    tracked_setJob hrec (closed record)
  rw [List.append_nil] at htracked
  refine (htracked.symm.append_left X).trans ?_
  rw [← List.append_assoc]
  exact List.perm_append_comm

theorem count_tracked_closed_le (g : Nat) :
    (X ++ (h.setJob job (closed record)).tracked).count g ≤ (X ++ h.tracked).count g := by
  rw [(tracked_closed hrec X).count_eq]
  exact (List.sublist_append_right _ _).count_le g

end

theorem claim_books (ht : h.Tidy) (hcleared : h.Cleared) (hb : Books h (X ++ h.tracked))
    (hg : ∀ g, group = some g → g ∈ X) (hrec : h.jobs[job]? = some record)
    (hfree : record.scheduled = false) :
    Books ((h.enroll group).setJob job { record with scheduled := true, completion := group })
      (X ++ ((h.enroll group).setJob job
        { record with scheduled := true, completion := group }).tracked) := by
  have hrec' : (h.enroll group).jobs[job]? = some record := by
    rw [enroll_rest]
    exact hrec
  have htracked := tracked_setJob hrec' { record with scheduled := true, completion := group }
  rw [hcleared job record hrec hfree, Option.toList_none, List.append_nil,
    (steady_enroll ht group).1.tracked] at htracked
  have hmem : ∀ g, group = some g → g ∈ X ++ h.tracked := fun g hgr => List.mem_append_left _ (hg g hgr)
  refine ((enroll_books hb hmem).perm ?_).of_groups rfl
  refine List.perm_append_comm.trans ?_
  rw [List.append_assoc]
  exact htracked.symm.append_left X

section
variable (ht : h.Tidy) (hcleared : h.Cleared) (hb : Books h (X ++ h.tracked))
  (hfew : ∀ g, (X ++ h.tracked).count g < wordSize 32) (hg : ∀ g, group = some g → g ∈ X)
include ht hcleared hb hfew hg

theorem Scheduled.books {r : Except Fault (Except Refusal Unit)} (hs : Scheduled ρ h job group p a r h') :
    Books h' (X ++ h'.tracked) ∧ Whole h h' := by
  have hmem : ∀ g, group = some g → g ∈ X ++ h.tracked := fun g hgr => List.mem_append_left _ (hg g hgr)
  cases hs with
  | declined => exact ⟨hb, fun _ => rfl⟩
  | stuck hrec hfree hdead =>
    obtain ⟨g, hgr, hnone⟩ := hdead
    exact absurd (hmem g hgr) (hb.dead g hnone)
  | refused _ _ hr hlive =>
    obtain ⟨hst, hwh⟩ := steady_enroll ht group
    have hwithdraw := withdraw_books (ρ := ρ) hst.tidy (enroll_books hb hmem) hfew fun g hgr _ => hmem g hgr
    obtain ⟨hb', hst', hwh'⟩ := hwithdraw
    refine ⟨?_, fun x => (hwh' x).trans (hwh x)⟩
    rwa [show Hub.tracked _ = h.tracked from (hst.trans hst').tracked]
  | @accepted record lanes hrec hfree hlive hopen hlanes =>
    obtain ⟨hst, hwh⟩ := steady_enroll ht group
    have hrest := enroll_rest h group
    obtain ⟨-, hready, hsize⟩ := Lanes.pushJob_ok hlanes
    refine ⟨(claim_books ht hcleared hb hg hrec hfree).of_groups rfl, fun x => ?_⟩
    refine ((Calm.of_lanes _ hst.tidy ?_ ?_ ?_).2 x).trans (hwh x)
    · rfl
    · rw [hrest]; exact hready
    · rw [hrest]; exact hsize

end

theorem tracked_push (h : Hub κ) {new : Job κ} (hnew : new.completion = none) :
    ({ h with jobs := h.jobs.push new } : Hub κ).tracked = h.tracked := by
  unfold tracked
  rw [gather_push, hnew]
  exact List.append_nil _

theorem Spawned.books {code : κ} {r : Except Fault (Except Refusal Unit)}
    (hs : Spawned ρ h code group p a r h') (ht : h.Tidy) (hcleared : h.Cleared)
    (hb : Books h (X ++ h.tracked)) (hfew : ∀ g, (X ++ h.tracked).count g < wordSize 32)
    (hg : ∀ g, group = some g → g ∈ X) : Books h' (X ++ h'.tracked) ∧ Whole h h' := by
  obtain ⟨hcalm, hwhole⟩ := calm_push ht (.new code false true)
  have htracked : ({ h with jobs := h.jobs.push (.new code false true) } : Hub κ).tracked = h.tracked :=
    tracked_push h rfl
  cases hs with
  | full => exact ⟨hb, fun _ => rfl⟩
  | kept hr hlimit hs =>
    obtain ⟨hb', hwh'⟩ := hs.books hcalm.tidy (hcleared.push _ rfl) (by rw [htracked]; exact hb.of_groups rfl)
      (by rw [htracked]; exact hfew) hg
    exact ⟨hb', fun x => (hwh' x).trans (hwhole x)⟩
  | @forgotten refusal h' hlimit hs =>
    have hst := hs.steady_of_refusal hcalm.tidy
    obtain ⟨hb', hwh'⟩ := hs.books hcalm.tidy (hcleared.push _ rfl) (by rw [htracked]; exact hb.of_groups rfl)
      (by rw [htracked]; exact hfew) hg
    have hjobs : h'.jobs.pop = h.jobs := by
      rw [hst.rest]; exact Array.pop_push
    have hsame : ({ h' with jobs := h'.jobs.pop } : Hub κ).tracked = h'.tracked := by
      rw [hst.tracked, htracked]
      unfold Hub.tracked
      rw [hjobs]
    refine ⟨?_, fun x => (hwh' x).trans (hwhole x)⟩
    rw [hsame]
    exact hb'.of_groups rfl

/-! ## The end of a run -/

def Counted (h h' : Hub κ) (f : Nat → Int32 → Int32) : Prop :=
  ∀ g s', h'.groups.get? g = some s' → ∃ s, h.groups.get? g = some s ∧ s'.count = f g s.count

theorem Counted.refl (h : Hub κ) : Counted h h fun _ n => n :=
  fun _ s hs => ⟨s, hs, rfl⟩

theorem Counted.trans {h'' : Hub κ} {f f' : Nat → Int32 → Int32} (a : Counted h h' f)
    (b : Counted h' h'' f') :
    Counted h h'' fun g n => f' g (f g n) := fun g s'' hs'' => by
  obtain ⟨s', hs', hc'⟩ := b g s'' hs''
  obtain ⟨s, hs, hc⟩ := a g s' hs'
  exact ⟨s, hs, by rw [hc', hc]⟩

theorem counted_store {g : Nat} {s : Group} {o : Option Group} {free : List Nat} {f : Nat → Int32 → Int32}
    (hs : h.groups.get? g = some s) (ho : ∀ s', o = some s' → s'.count = f g s.count)
    (hf : ∀ k n, k ≠ g → f k n = n) :
    Counted h (h.store g o free) f := fun k s' hk => by
  rw [get?_store (block_of_get? hs)] at hk
  by_cases hgk : g = k
  · subst hgk
    rw [if_pos rfl] at hk
    exact ⟨s, hs, ho s' hk⟩
  · rw [if_neg hgk] at hk
    exact ⟨s', hk, (hf k _ (Ne.symm hgk)).symm⟩

theorem dropGroup_counted (h : Hub κ) (g : Nat) :
    (dropGroup g : Act ρ (Hub κ) Unit).Ends h fun _ h' => Counted h h' fun _ n => n := by
  cases hs : h.groups.get? g with
  | none => exact ends_dropGroup_dead hs fun _ => .refl h
  | some s =>
    rw [ends_dropGroup hs]
    split
    · exact counted_store hs (fun _ hn => by cases hn) fun _ _ _ => rfl
    · exact counted_store hs (fun s' hs' => by rw [← Option.some.inj hs']) fun _ _ _ => rfl

theorem dropGroups_counted (h : Hub κ) (gs : List Nat) :
    (dropGroups gs : Act ρ (Hub κ) Unit).Ends h fun _ h' => Counted h h' fun _ n => n :=
  ends_forM (I := fun h' => Counted h h' fun _ n => n) (.refl h) fun g _ h' hc =>
    (dropGroup_counted h' g).mono fun _ _ => hc.trans

/-- A release takes its units off the count of its group, unless there are too few. -/
def lessened (g : Nat) (n : Int32) (k : Nat) (count : Int32) : Int32 :=
  if k = g ∧ ¬count < n then count - n else count

theorem Released.lessens {g : Nat} {s : Group} {n : Int32} {r : Except Fault Unit}
    (hr : Released h g s n r h') (hs : h.groups.get? g = some s) : Counted h h' (lessened g n) := by
  have hf : ∀ k m, k ≠ g → lessened g n k m = m := fun k m hk => if_neg fun hn => hk hn.1
  have hsame : s.count < n → Counted h h (lessened g n) := fun hn k t hk => by
    refine ⟨t, hk, ?_⟩
    by_cases hkg : k = g
    · subst hkg
      obtain rfl := Option.some.inj (hs.symm.trans hk)
      exact (if_neg fun hc => hc.2 hn).symm
    · exact (hf k _ hkg).symm
  cases hr with
  | refused hn | ignored hn => exact hsame hn
  | counted hn =>
    refine counted_store hs (fun s' hs' => ?_) hf
    have hle : ¬s.count < n := fun hc => by
      rw [Int32.lt_iff_toInt_lt] at hn hc
      omega
    rw [← Option.some.inj hs', lessened, if_pos ⟨rfl, hle⟩]
  | woken hn lanes hj =>
    refine counted_store (o := some { s with count := 0, head := none }) hs (fun s' hs' => ?_) hf
    rw [← Option.some.inj hs', lessened, if_pos ⟨rfl, by rw [hn]; exact Int32.lt_irrefl⟩, hn, Int32.sub_self]

/-- Whether one more signal is one too many for a group, in a system that does not let
that pass. -/
def OverSignals (h : Hub κ) (group : Option Nat) : Prop :=
  h.mode = .strict ∧ ∃ g s, group = some g ∧ h.groups.get? g = some s ∧ s.count < 1

def signaled (group : Option Nat) (k : Nat) (count : Int32) : Int32 :=
  match group with
  | some g => lessened g 1 k count
  | none => count

theorem Released.ok_iff {g : Nat} {s : Group} {n : Int32} {r : Except Fault Unit}
    (hr : Released h g s n r h') :
    r = .ok () ↔ ¬(h.mode = .strict ∧ s.count < n) := by
  cases hr with
  | refused hn hm => simp [hn, hm]
  | ignored hn hm => simp [hm]
  | counted hn =>
    refine iff_of_true rfl fun hc => ?_
    have hc := hc.2
    rw [Int32.lt_iff_toInt_lt] at hn hc
    omega
  | woken hn => exact iff_of_true rfl fun hc => Int32.lt_irrefl (hn ▸ hc.2)

theorem releaseGroup_counted (ht : h.Tidy) (g : Nat) (n : Int32) :
    (releaseGroup g n : Act ρ (Hub κ) Unit).Ends h fun _ h' => Counted h h' (lessened g n) := by
  cases hs : h.groups.get? g with
  | none =>
    refine ends_releaseGroup_dead hs fun _ k t hk => ⟨t, hk, (if_neg fun he => ?_).symm⟩
    rw [he.1, hs] at hk
    cases hk
  | some s => exact (ends_releaseGroup_cases ht hs).mono fun _ _ hr => hr.lessens hs

theorem signalAndDrop_counted (ht : h.Tidy) (g : Nat) :
    (signalAndDrop g : Act ρ (Hub κ) Unit).Ends h fun _ h' => Counted h h' (lessened g 1) := by
  simp only [signalAndDrop, ends_bind, ends_attempt, after_ok]
  refine (releaseGroup_counted ht g 1).mono fun r h₁ hc₁ => (dropGroup_counted h₁ g).mono fun r' h₂ hc₂ => ?_
  cases r' with
  | error fault => exact hc₁.trans hc₂
  | ok _ => exact hc₁.trans hc₂

theorem withdraw_counted (ht : h.Tidy) (group : Option Nat) :
    (withdraw group : Act ρ (Hub κ) Unit).Ends h fun _ h' => Counted h h' (signaled group) := by
  cases group with
  | none => exact .refl h
  | some g => exact signalAndDrop_counted ht g

theorem endRun_counted {worker : String} {held : List Nat} {panic : Option Fault} (ht : h.Tidy)
    (hrec : h.jobs[job]? = some record) :
    (endRun worker job held panic : Act ρ (Hub κ) Unit).Ends h fun r h' => r = .ok () → Counted h h'
    (signaled record.completion) := by
  rw [endRun_eq, ends_bind]
  refine ((dropGroups_counted h held).and (dropGroups_steady ht held)).mono ?_
  rintro r h₁ ⟨hc₁, hst⟩
  cases r with
  | error fault => exact fun hr => by cases hr
  | ok _ =>
    have hrec₁ : h₁.jobs[job]? = some record := by rw [hst.rest]; exact hrec
    rw [after_ok, ends_finish hrec₁]
    have ht₂ : (({ h₁ with counters := counted h₁.counters panic } : Hub κ).setJob job
        (closed record)).Tidy :=
      hst.tidy.of_lanes rfl rfl (fun _ hr => hr) rfl
    refine (withdraw_counted ht₂ record.completion).mono fun r h₂ hc₂ => ?_
    cases r with
    | error fault => exact fun hr => by cases hr
    | ok _ => exact fun _ => hc₁.trans hc₂

/-- Only a signal too many fails for a group that its job has a handle of. -/
theorem signalAndDrop_ok_iff {g : Nat} {s : Group} {T : List Nat} (ht : h.Tidy)
    (hs : h.groups.get? g = some s) (hb : Books h (g :: T)) (hfew : T.count g < wordSize 32)
    (hw : h.waitingOn g ≠ [] → g ∈ T) :
    (signalAndDrop g : Act ρ (Hub κ) Unit).Ends h fun r _ =>
      r = .ok () ↔ ¬(h.mode = .strict ∧ s.count < 1) := by
  simp only [signalAndDrop, ends_bind, ends_attempt, after_ok]
  refine ((ends_releaseGroup_cases ht hs).and (releaseGroup_books ht hb List.mem_cons_self)).mono ?_
  rintro r h₁ ⟨hr, hb₁, hst, -⟩
  have hw₁ : h₁.waitingOn g ≠ [] → g ∈ T := fun hne => by
    rcases hst.lists g with hl | hl
    · exact absurd hl hne
    · exact hw fun hn => hne (hl.trans hn)
  refine (dropGroup_books hst.tidy hb₁ hfew hw₁).mono ?_
  rintro r' h' ⟨hr', -⟩
  subst hr'
  exact hr.ok_iff

theorem withdraw_ok_iff {T : List Nat} (ht : h.Tidy) (hb : Books h (group.toList ++ T))
    (hfew : ∀ g, T.count g < wordSize 32) (hw : ∀ g, group = some g → h.waitingOn g ≠ [] → g ∈ T) :
    (withdraw group : Act ρ (Hub κ) Unit).Ends h fun r _ => r = .ok () ↔ ¬OverSignals h group := by
  cases group with
  | none => exact iff_of_true rfl fun ⟨_, g, _, hg, _⟩ => by cases hg
  | some g =>
    obtain ⟨s, hs⟩ := hb.get?_of_mem List.mem_cons_self
    refine (signalAndDrop_ok_iff ht hs hb (hfew g) (hw g rfl)).mono fun r h' hr => hr.trans (not_congr ?_)
    refine and_congr_right fun _ => ⟨fun hlt => ⟨g, s, rfl, hs, hlt⟩, fun ⟨k, s', hk, hs', hlt⟩ => ?_⟩
    obtain rfl := Option.some.inj hk
    obtain rfl := Option.some.inj (hs.symm.trans hs')
    exact hlt

theorem overSignals_of_counted (hc : Counted h h' fun _ n => n) (hmode : h'.mode = h.mode)
    (hlive : ∀ g, group = some g → ∃ s, h'.groups.get? g = some s) :
      OverSignals h' group ↔ OverSignals h group := by
  unfold OverSignals
  rw [hmode]
  refine and_congr_right fun _ => ⟨fun ⟨g, s', hg, hs', hlt⟩ => ?_, fun ⟨g, s, hg, hs, hlt⟩ => ?_⟩
  · obtain ⟨s, hs, hcount⟩ := hc g s' hs'
    exact ⟨g, s, hg, hs, by rwa [hcount] at hlt⟩
  · obtain ⟨s', hs'⟩ := hlive g hg
    obtain ⟨t, ht, hcount⟩ := hc g s' hs'
    obtain rfl := Option.some.inj (hs.symm.trans ht)
    exact ⟨g, s', hg, hs', by rwa [hcount]⟩

section
variable {worker : String} {held : List Nat} {panic : Option Fault} (ht : h.Tidy)
  (hrec : h.jobs[job]? = some record) (hb : Books h (held ++ (X ++ h.tracked)))
  (hfew : ∀ g, (held ++ (X ++ h.tracked)).count g < wordSize 32) (hw : ∀ g, h.waitingOn g ≠ [] → g ∈ X)
include ht hrec hb hfew hw

/-- The end of a run gives up the handles of its body and that of the group of its job. It
fails exactly when the signal of that group is one too many for a strict system. -/
theorem endRun_books : (endRun worker job held panic : Act ρ (Hub κ) Unit).Ends h fun r h' =>
    Books h' (X ++ h'.tracked) ∧ Whole h h' ∧ (r = .ok () ↔ ¬OverSignals h record.completion) := by
  have hmem : ∀ g, h.waitingOn g ≠ [] → g ∈ X ++ h.tracked := fun g hne => List.mem_append_left _ (hw g hne)
  rw [endRun_eq, ends_bind]
  refine ((dropGroups_books ht hb (fun g => Nat.le_of_lt (hfew g)) hmem).and
    (dropGroups_counted h held)).mono ?_
  rintro r h₁ ⟨⟨hr, hb₁, hst₁, hwh₁⟩, hc₁⟩
  subst hr
  have hjobs : h₁.jobs = h.jobs := by rw [hst₁.rest]
  have hmode : h₁.mode = h.mode := by rw [hst₁.rest]
  have hrec₁ : h₁.jobs[job]? = some record := by rw [hjobs]; exact hrec
  rw [after_ok, ends_finish hrec₁]
  let h₂ := ({ h₁ with counters := counted h₁.counters panic } : Hub κ).setJob job (closed record)
  have ht₂ : h₂.Tidy := hst₁.tidy.of_lanes rfl rfl (fun _ hr => hr) rfl
  have hrec₂ : ({ h₁ with counters := counted h₁.counters panic } : Hub κ).jobs[job]? = some record := hrec₁
  have hsame : Books h₂ (X ++ h₁.tracked) := by
    rw [hst₁.tracked]
    exact hb₁.of_groups rfl
  have hb₂ : Books h₂ (record.completion.toList ++ (X ++ h₂.tracked)) := hsame.perm (tracked_closed hrec₂ X)
  have hfew₂ : ∀ g, (X ++ h₂.tracked).count g < wordSize 32 := fun g => by
    have hle : (X ++ h₂.tracked).count g ≤ (X ++ h₁.tracked).count g := count_tracked_closed_le hrec₂ X g
    rw [hst₁.tracked] at hle
    exact Nat.lt_of_le_of_lt (Nat.le_trans hle ((List.sublist_append_right held _).count_le g)) (hfew g)
  have hwaiting : ∀ g, h₂.waitingOn g ≠ [] → g ∈ X := fun g hne => by
    have hne : h₁.waitingOn g ≠ [] := hne
    rcases hst₁.lists g with hl | hl
    · exact absurd hl hne
    · exact hw g fun hn => hne (hl.trans hn)
  have hw₂ : ∀ g, record.completion = some g → h₂.waitingOn g ≠ [] → g ∈ X ++ h₂.tracked := fun g _ hne =>
    List.mem_append_left _ (hwaiting g hne)
  have hover : OverSignals h₂ record.completion ↔ OverSignals h record.completion := by
    have hc₂ : Counted h h₂ fun _ n => n := hc₁
    refine overSignals_of_counted hc₂ hmode fun g hg => hb₂.get?_of_mem (List.mem_append_left _ ?_)
    rw [hg]
    exact List.mem_singleton_self g
  refine ((withdraw_books ht₂ hb₂ hfew₂ hw₂).and (withdraw_ok_iff ht₂ hb₂ hfew₂ hw₂)).mono ?_
  rintro r h' ⟨⟨hb', hst, hwh⟩, hr⟩
  have hwhole : Whole h h' := fun x => (hwh x).trans (hwh₁ x)
  rw [← hst.tracked] at hb'
  cases r with
  | error fault => exact ⟨hb', hwhole, hr.trans (not_congr hover)⟩
  | ok _ => exact ⟨hb'.of_groups rfl, hwhole, hr.trans (not_congr hover)⟩

end

end Hub

end FiberScheduler
