import FiberScheduler.Proofs.Accounts

/-!
# Groups with one owner

Where no handle is cloned, a group has at most one besides those of the jobs it counts. Its
handles then cannot outnumber what its count can hold by more than that one.
-/

namespace FiberScheduler

variable {κ μ ρ : Type}

def Call.Clones : Call κ μ ρ → Prop
  | .cloneGroup _ => True
  | _ => False

namespace Hub

variable {h : Hub κ} {pending : List Nat} {account : Nat → Int} {g : Nat}

theorem count_flatMap_toList {α : Type} (f : α → Option Nat) (l : List α) (g : Nat) :
    (l.flatMap fun a => (f a).toList).count g = (List.range l.length).countP fun j =>
      (l[j]?).any (f · == some g) := by
  induction l with
  | nil => rfl
  | cons a l ih =>
    have hhead : (f a).toList.count g = if f a == some g then 1 else 0 := by
      cases f a with
      | none => rfl
      | some k => simp [List.count_singleton]
    rw [List.flatMap_cons, List.count_append, ih, hhead, List.length_cons, List.range_succ_eq_map,
      List.countP_cons, List.countP_map, Nat.add_comm]
    rfl

theorem Consistent.count_tracked (hc : h.Consistent pending account) (g : Nat) :
    h.tracked.count g = pending.countP (h.tracks g) := by
  have hp : (pending.filter (h.tracks g)).Perm ((List.range h.jobs.size).filter (h.tracks g)) := by
    rw [List.perm_iff_count]
    intro job
    by_cases htracked : h.tracks g job = true
    · obtain ⟨record, hrec, hcompletion⟩ := (Option.any_eq_true ..).mp htracked
      have hscheduled : h.isScheduled job = true := by
        rw [isScheduled, hrec, Option.any_some]
        by_cases hfree : record.scheduled = true
        · exact hfree
        · rw [hc.slots job record hrec (by simpa using hfree)] at hcompletion
          cases hcompletion
      have hin : job ∈ List.range h.jobs.size := List.mem_range.mpr (Array.getElem?_eq_some_iff.mp hrec).1
      rw [List.count_filter htracked, List.count_filter htracked, hc.once, if_pos hscheduled,
        List.nodup_range.count, if_pos hin]
    · rw [List.count_eq_zero.mpr fun hin => htracked (List.mem_filter.mp hin).2,
        List.count_eq_zero.mpr fun hin => htracked (List.mem_filter.mp hin).2]
  have hcount : h.tracked.count g = (List.range h.jobs.size).countP (h.tracks g) := by
    refine (count_flatMap_toList (·.completion) h.jobs.toList g).trans ?_
    unfold tracks
    simp
  rw [hcount, List.countP_eq_length_filter, List.countP_eq_length_filter, hp.length_eq]

end Hub

namespace System

open Act

variable {σ : Type} {body : κ → Program κ μ ρ Unit} {s s' : System κ μ ρ} {worker fiber : Nat} {w : Worker}
  {run : Run κ μ ρ} {ds : List (Deed κ μ ρ)} {held Y : List Nat} {m : Move κ μ ρ} {es : List Posting}

/-- Whether no group has two handles outside of the records of jobs. -/
def Unshared (s : System κ μ ρ) : Prop :=
  ∀ g, (gather heldBy s.runs ++ s.kept).count g ≤ 1

theorem Unshared.fewHandles (hu : Unshared s) (hs : Settled s es) (hnone : ∀ g, accounts es g = 0) :
    FewHandles s := by
  intro g
  have hlimit : wordSize 32 = 4294967296 := rfl
  cases hstate : s.hub.groups.get? g with
  | none =>
    rw [List.count_eq_zero.mpr (hs.ledger.books.dead g hstate)]
    omega
  | some state =>
    have hone := hu g
    have hcount := hs.accounted.balanced g state hstate
    have hmax := state.count.toInt_lt
    rw [hnone g] at hcount
    -- Besides one handle there is one with each pending job the group counts, and these are no
    -- more than its count can hold.
    show (gather heldBy s.runs ++ s.kept ++ s.hub.tracked).count g < _
    rw [List.count_append, hs.consistent.count_tracked g]
    omega

theorem Unshared.held_once (hu : Unshared s) (hrun : s.run? fiber = some run) {g : Nat} (hg : g ∈ run.held) :
    g ∉ s.kept ∧ ∀ (k : Nat) (r : Run κ μ ρ), s.run? k = some r → g ∈ r.held → k = fiber := by
  have hle := hu g
  have hin : g ∈ gather heldBy s.runs := mem_gather.mpr ⟨fiber, some run, run?_eq_some_iff.mp hrun, hg⟩
  have hpos := List.count_pos_iff.mpr hin
  rw [List.count_append] at hle
  refine ⟨fun hkept => ?_, fun k r hr hgr => ?_⟩
  · have := List.count_pos_iff.mpr hkept
    omega
  · obtain ⟨i, -, -, -, hrest⟩ := gather_once (show (gather heldBy s.runs).count g = 1 by omega)
    have hi : ∀ (x : Nat) (q : Run κ μ ρ), s.run? x = some q → g ∈ q.held → x = i := fun x q hq hgq =>
      Classical.byContradiction fun hne => hrest x (some q) (run?_eq_some_iff.mp hq) hne hgq
    rw [hi k r hr hgr, hi fiber run hrun hg]

theorem Unshared.of_owned (hu : Unshared s)
    (hle : ∀ g, (gather heldBy s'.runs ++ s'.kept).count g ≤ (gather heldBy s.runs ++ s.kept).count g) :
    Unshared s' :=
  fun g => Nat.le_trans (hle g) (hu g)

section
variable (h : s.Sound) (hl : Ledger s) (hu : Unshared s)
include h hl hu

/-- Only a group of which there was no handle gets one more by a call that does not clone. -/
theorem perform_gain (hp : (held ++ Y).Perm (gather heldBy s.runs ++ s.kept)) (i : Option Nat)
    {c : Call κ μ ρ} (hc : ¬c.Clones) :
    (perform i held c).Ends s fun r _ => ∀ g, (c.gain r held ++ Y).count g ≤ 1 := by
  have hone : ∀ g, (held ++ Y).count g ≤ 1 := by
    intro g
    rw [hp.count_eq]
    exact hu g
  have hsame : ∀ {α : Type} {x : Act ρ (System κ μ ρ) α} {f : Except Fault α → List Nat}, (∀ r, f r = held) →
      x.Ends s fun r _ => ∀ g, (f r ++ Y).count g ≤ 1 := by
    intro α x f hf
    show ∀ g, (f (x s).result ++ Y).count g ≤ 1
    rw [hf]
    exact hone
  cases c with
  | newGroup =>
    have hends : (Hub.newGroup : Act ρ (Hub κ) (Except Refusal Nat)).Ends s.hub fun r _ =>
        ∀ g, ((Call.newGroup : Call κ μ ρ).gain r held ++ Y).count g ≤ 1 := by
      rw [Hub.ends_newGroup]
      cases hfree : s.hub.groups.free with
      | nil => exact hone
      | cons k free =>
        -- The block a new group gets was nobody's.
        have hno : k ∉ held ++ Y := by
          intro hin
          exact hl.books.dead k (h.fit.tidy.blocks.front hfree).2 (List.mem_append_left _ (hp.mem_iff.mp hin))
        intro g
        show (k :: (held ++ Y)).count g ≤ 1
        by_cases hk : k = g
        · have hcount :
              (k :: (held ++ Y)).count k = 1 := by rw [List.count_cons_self, List.count_eq_zero.mpr hno]
          exact Nat.le_of_eq (hk ▸ hcount)
        · rw [List.count_cons_of_ne hk]
          exact hone g
    exact hends
  | cloneGroup => exact absurd trivial hc
  | dropGroup k =>
    unfold Ends
    intro g
    refine Nat.le_trans ?_ (hone g)
    cases (perform i held (.dropGroup k : Call κ μ ρ) s).result with
    | error => exact Nat.le_refl _
    | ok => exact (List.erase_sublist.append_right Y).count_le g
  | giveGroup | takeGroup | add | count | schedule | addJob | spawn | isScheduled | place | counters
  | report | access =>
    apply hsame
    intro r
    cases r <;> rfl

variable (hfew : FewHandles s)
include hfew

theorem unshared_ask {c : Call κ μ ρ} (hc : ¬c.Clones) : Unshared (ask c s).state := by
  obtain ⟨kept, hstate, hkept⟩ := ask_kept h hl hfew c
  have hcalled := perform_called h.fit none s.kept c
  have hgain := perform_gain h hl hu List.perm_append_comm none hc
  unfold Ends at hcalled hgain
  have hruns : (perform none s.kept c s).state.runs = s.runs := by rw [hcalled.rest]
  intro g
  rw [hstate]
  show (gather heldBy (perform none s.kept c s).state.runs ++ kept).count g ≤ 1
  rw [hruns, List.perm_append_comm.count_eq, (hkept.append_right _).count_eq]
  exact hgain g

theorem Turn.unshared (hclones : ∀ w fiber run, OnRun s worker w fiber run → ∀ c ∈ run.rest.call?, ¬c.Clones)
    (ht : Turn body s worker s' ds) : Unshared s' := by
  cases ht with
  | rest | exhausted | started | parked | passed | returned | resumed | left => exact hu
  | @went w fiber run run' s₁ queued action hon hjob hcalled hdoes hsource =>
    rcases hsource with ⟨c, next, hrest, hs₁, hheld⟩ | ⟨rfl, hheld⟩
    · have howned := owned_call h hl hfew hon hs₁ ⟨queued, hcalled⟩ hheld
      have hgain := perform_gain h hl hu (perm_owned hon.run).symm (some worker)
        (hclones w fiber run hon c (by rw [hrest]; rfl))
      intro g
      rw [← howned.count_eq]
      exact hgain g
    · apply hu.of_owned
      intro g
      have hput := perm_putRun hon.run (some run')
      rw [heldBy, hheld] at hput
      have hsame := (hput.trans (perm_others hon.run).symm).append_right s₁.kept
      exact Nat.le_of_eq (hsame.count_eq g)
  | @ended w fiber run record panic hub hon | @died w fiber run record panic fault hub hon =>
    apply hu.of_owned
    intro g
    rw [(perm_owned hon.run).count_eq]
    exact (List.sublist_append_right _ _).count_le g
  | @began w w' fiber job record lanes hon =>
    apply hu.of_owned
    intro g
    have hruns :
        gather heldBy (s.runs.setIfInBounds fiber (some ⟨job, [], bodyOf body record⟩)) =
        gather heldBy s.runs :=
      gather_set_of_eq heldBy (h.runs_of_loop hon) rfl
    show (gather heldBy (s.runs.setIfInBounds fiber _) ++ s.kept).count g ≤ _
    exact Nat.le_of_eq (by rw [hruns])

end

end System

end FiberScheduler
