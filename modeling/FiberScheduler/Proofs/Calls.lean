import FiberScheduler.Proofs.Intake

/-!
# What calls do to the hub

A call keeps the lists of parked fibers and the records of pending jobs. It queues at
most one job, and only one that was not pending.
-/

namespace FiberScheduler.Hub

open Act

variable {ρ κ : Type} {h h' h'' : Hub κ} {job : Nat} {group : Option Nat} {p : Priority} {a : Affinity}

structure Calm (h h' : Hub κ) : Prop where
  rest : h' = { h with
    groups := h'.groups, lanes := h'.lanes, jobs := h'.jobs, active := h'.active, counters := h'.counters }
  size : h'.lanes.own.size = h.lanes.own.size
  tidy : h'.Tidy
  lists : ∀ g, h'.waitingOn g = [] ∨ h'.waitingOn g = h.waitingOn g
  idle : ∀ x, h'.idle.count x ≤ h.idle.count x

theorem Steady.calm (hst : Steady h h') : Calm h h' where
  rest := by rw [hst.rest]
  size := hst.size
  tidy := hst.tidy
  lists := hst.lists
  idle := hst.idle

theorem Calm.trans (a : Calm h h') (b : Calm h' h'') : Calm h h'' where
  rest := by rw [b.rest, a.rest]
  size := b.size.trans a.size
  tidy := b.tidy
  lists := fun g => by
    rcases b.lists g with hb | hb
    · exact Or.inl hb
    · rw [hb]; exact a.lists g
  idle := fun x => Nat.le_trans (b.idle x) (a.idle x)

structure Recorded (h h' : Hub κ) : Prop where
  kept : ∀ (j : Nat) (r : Job κ), h.jobs[j]? = some r → ∃ r', h'.jobs[j]? = some r' ∧
    r' = { r with scheduled := r'.scheduled, completion := r'.completion } ∧ (r.scheduled = true → r' = r)
  fresh : ∀ (j : Nat) (r' : Job κ), h'.jobs[j]? = some r' → h.jobs[j]? = none → r'.started = false
  cleared : h'.Cleared
  limit : h.jobs.size < recordLimit → h'.jobs.size < recordLimit

theorem Recorded.of_jobs (hcleared : h.Cleared) (hj : h'.jobs = h.jobs) : Recorded h h' where
  kept := fun j r hr => ⟨r, by rw [hj]; exact hr, rfl, fun _ => rfl⟩
  fresh := fun j r' hr' hn => by rw [hj, hn] at hr'; cases hr'
  cleared := fun j r hr => hcleared j r (by rwa [hj] at hr)
  limit := by rw [hj]; exact id

inductive Queues (h h' : Hub κ) : Option (Nat × Option Nat) → Prop
  | none (hqueued : h'.lanes.queued = h.lanes.queued) (hactive : h'.active = h.active) : Queues h h' none
  | some {job : Nat} {group : Option Nat} (hqueued : h'.lanes.queued.Perm (job :: h.lanes.queued))
      (hactive : h'.active = h.active + 1) (hopen : ¬(h.active = 0 ∧ h.stopping = true))
      (hfree : ∀ r, h.jobs[job]? = some r → r.scheduled = false)
      (htaken : ∃ r, h'.jobs[job]? = some r ∧ r.scheduled = true ∧ r.completion = group) :
        Queues h h' (some (job, group))

structure Effect (h h' : Hub κ) (queued : Option (Nat × Option Nat)) : Prop where
  calm : Calm h h'
  recorded : Recorded h h'
  queues : Queues h h' queued

theorem Steady.effect (hst : Steady h h') (hcleared : h.Cleared) : Effect h h' none :=
  ⟨hst.calm, .of_jobs hcleared (by rw [hst.rest]), .none hst.queued (by rw [hst.rest])⟩

theorem Recorded.setJob {record : Job κ} (completion : Option Nat) (hcleared : h.Cleared)
    (hrec : h.jobs[job]? = some record) (hfree : record.scheduled = false)
    (hj : h'.jobs = h.jobs.setIfInBounds job { record with scheduled := true, completion }) :
      Recorded h h' := by
  have hget := getElem?_set { record with scheduled := true, completion } hrec
  refine ⟨fun j r hr => ?_, fun j r' hr' hn => ?_, fun j r hr hs => ?_,
    by rw [hj, Array.size_setIfInBounds]; exact id⟩
  · rw [hj, hget]
    by_cases hjj : job = j
    · subst hjj
      obtain rfl := Option.some.inj (hrec.symm.trans hr)
      rw [if_pos rfl]
      exact ⟨_, rfl, rfl, fun hs => by rw [hfree] at hs; cases hs⟩
    · rw [if_neg hjj]
      exact ⟨r, hr, rfl, fun _ => rfl⟩
  · rw [hj, hget] at hr'
    by_cases hjj : job = j
    · subst hjj; rw [hrec] at hn; cases hn
    · rw [if_neg hjj, hn] at hr'; cases hr'
  · rw [hj, hget] at hr
    by_cases hjj : job = j
    · rw [if_pos hjj] at hr
      rw [← Option.some.inj hr] at hs; cases hs
    · rw [if_neg hjj] at hr
      exact hcleared j r hr hs

section
variable (ht : h.Tidy)
include ht

theorem steady_enroll (group : Option Nat) : Steady h (h.enroll group) ∧ Whole h (h.enroll group) := by
  cases group with
  | none => exact ⟨.refl ht, fun _ => rfl⟩
  | some g =>
    cases hs : h.groups.get? g with
    | none => simp only [enroll, hs]; exact ⟨.refl ht, fun _ => rfl⟩
    | some s => simp only [enroll, hs]; exact steady_renumber ht hs _ _

theorem withdraw_steady (group : Option Nat) :
    (withdraw group : Act ρ (Hub κ) Unit).Ends h fun _ h' => Steady h h' := by
  cases group with
  | none => exact .refl ht
  | some g => exact signalAndDrop_steady ht g

end

theorem Calm.of_lanes (h' : Hub κ) (ht : h.Tidy) (hrest : h' = { h with
      lanes := h'.lanes, jobs := h'.jobs, active := h'.active, counters := h'.counters })
    (hready : h'.lanes.readied = h.lanes.readied) (hsize : h'.lanes.own.size = h.lanes.own.size) :
      Calm h h' ∧ Whole h h' := by
  have hwait : ∀ g, h'.waitingOn g = h.waitingOn g := fun g => by rw [hrest]; rfl
  have hparked : h'.parked = h.parked := by rw [hrest]; rfl
  have hwhole : Whole h h' := fun x => by rw [count_idle, count_idle, hparked, hready]
  refine ⟨⟨?_, hsize, ⟨?_, fun g s hs => ?_, fun x hx link hl => ?_, fun r hr => ?_⟩,
    fun g => Or.inr (hwait g), fun x => Nat.le_of_eq (hwhole x)⟩, hwhole⟩
  · rw [hrest]
  · rw [hrest]; exact ht.blocks
  · rw [hrest] at hs ⊢
    exact ht.linked g s hs
  · rw [hparked] at hx
    refine (Lanes.has_of_size hsize _).mpr (ht.parked x hx link ?_)
    rw [hrest] at hl; exact hl
  · rw [hready] at hr
    exact (Lanes.has_of_size hsize _).mpr (ht.ready r hr)

theorem calm_push (ht : h.Tidy) (record : Job κ) :
    Calm h { h with jobs := h.jobs.push record } ∧ Whole h { h with jobs := h.jobs.push record } :=
  Calm.of_lanes _ ht rfl rfl rfl

def taken (job : Nat) (group : Option Nat) : Except Fault (Except Refusal Unit) → Option (Nat × Option Nat)
  | .ok (.ok ()) => some (job, group)
  | _ => none

theorem taken_eq_none {r : Except Fault (Except Refusal Unit)} (hr : r ≠ .ok (.ok ())) :
    taken job group r = none := by
  unfold taken
  split
  · exact absurd rfl hr
  · rfl

theorem Scheduled.effect {r : Except Fault (Except Refusal Unit)} (hs : Scheduled ρ h job group p a r h')
    (ht : h.Tidy) (hcleared : h.Cleared) : Effect h h' (taken job group r) := by
  cases hs with
  | declined hr =>
    rw [taken_eq_none hr]
    exact (Steady.refl ht).effect hcleared
  | @stuck record fault hrec hfree hdead =>
    exact ⟨(Calm.of_lanes (h.setJob job _) ht rfl rfl rfl).1, .setJob _ hcleared hrec hfree rfl,
      .none rfl rfl⟩
  | refused _ _ hr hlive =>
    rw [taken_eq_none hr]
    have hst := (steady_enroll ht group).1
    exact (hst.trans (withdraw_steady (ρ := ρ) hst.tidy group)).effect hcleared
  | @accepted record lanes hrec hfree hlive hopen hlanes =>
    have hst := (steady_enroll ht group).1
    have hrest := enroll_rest h group
    obtain ⟨hqueued, hready, hsize⟩ := Lanes.pushJob_ok hlanes
    refine ⟨hst.calm.trans (Calm.of_lanes _ hst.tidy ?_ ?_ ?_).1, .setJob group hcleared hrec hfree ?_,
      .some hqueued rfl hopen (fun r hr => ?_)
        ⟨{ record with scheduled := true, completion := group }, ?_, rfl, rfl⟩⟩
    · rfl
    · rw [hrest]; exact hready
    · rw [hrest]; exact hsize
    · rw [hrest]; rfl
    · rw [← Option.some.inj (hrec.symm.trans hr)]; exact hfree
    · rw [hrest]
      exact (getElem?_setJob hrec { record with scheduled := true, completion := group } job).trans
        (if_pos rfl)

theorem Scheduled.steady_of_refusal {refusal : Refusal}
    (hs : Scheduled ρ h job group p a (.ok (.error refusal)) h') (ht : h.Tidy) : Steady h h' := by
  cases hs with
  | declined => exact .refl ht
  | refused _ _ hr hlive =>
    have hst := (steady_enroll ht group).1
    exact hst.trans (withdraw_steady (ρ := ρ) hst.tidy group)

theorem getElem?_push_lt {α : Type} {a b : α} {xs : Array α} {j : Nat} (ha : xs[j]? = some a) :
    (xs.push b)[j]? = some a := by
  obtain ⟨hj, rfl⟩ := Array.getElem?_eq_some_iff.mp ha
  rw [Array.getElem?_push_lt hj]

theorem Spawned.effect {code : κ} {r : Except Fault (Except Refusal Unit)}
    (hs : Spawned ρ h code group p a r h') (ht : h.Tidy) (hcleared : h.Cleared) :
      Effect h h' (taken h.jobs.size group r) := by
  have hnew := (calm_push ht (.new code false true)).1
  cases hs with
  | full => exact (Steady.refl ht).effect hcleared
  | kept hr hlimit hs =>
    obtain ⟨hcalm, hrecorded, hqueues⟩ := hs.effect hnew.tidy (hcleared.push _ rfl)
    refine ⟨hnew.trans hcalm, ⟨fun j r hr => hrecorded.kept j r (getElem?_push_lt hr), fun j r' hr' hn => ?_,
      hrecorded.cleared, fun _ => hrecorded.limit (by simpa using hlimit)⟩, ?_⟩
    · have hj : h.jobs.size ≤ j := Array.getElem?_eq_none_iff.mp hn
      rcases Nat.eq_or_lt_of_le hj with rfl | hj
      · obtain ⟨r, hr, hsame, -⟩ := hrecorded.kept _ _ (Array.getElem?_push_size ..)
        obtain rfl := Option.some.inj (hr'.symm.trans hr)
        rw [hsame]; rfl
      · refine hrecorded.fresh j r' hr' (Array.getElem?_eq_none_iff.mpr ?_)
        rw [Array.size_push]; exact hj
    · generalize taken h.jobs.size group r = queued at hqueues
      cases hqueues with
      | none hqueued hactive => exact .none hqueued hactive
      | some hqueued hactive hopen hfree htaken =>
        exact .some hqueued hactive hopen (fun r hr => hfree r (getElem?_push_lt hr)) htaken
  | @forgotten refusal h' hlimit hs =>
    have hst := hs.steady_of_refusal hnew.tidy
    have hjobs : h'.jobs.pop = h.jobs := by
      rw [hst.rest]; exact Array.pop_push
    refine ⟨(hnew.trans hst.calm).trans
      (Calm.of_lanes { h' with jobs := h'.jobs.pop } hst.tidy rfl rfl rfl).1,
      .of_jobs hcleared hjobs, .none hst.queued ?_⟩
    show h'.active = _
    rw [hst.rest]

end FiberScheduler.Hub
