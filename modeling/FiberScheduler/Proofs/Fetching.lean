import FiberScheduler.Proofs.Routing

/-!
# The order of fetching

A worker scans eighteen queues: tier by tier, in each tier the resumed fibers before the
jobs, and for both its own queue before that of its pool before the shared one. It takes
the front of the first that is not empty. By fetching on and on it gets whatever it may
run, sorted stably by these three keys.
-/

namespace FiberScheduler

open Act

variable {ρ κ : Type}

def Affinity.distance : Affinity → Nat
  | .worker _ => 0
  | .foreground | .background => 1
  | .any => 2

theorem Affinity.distance_lt (a : Affinity) : a.distance < 3 := by
  cases a <;> simp [distance]

namespace Queue

def priority : Queue → Priority
  | .ready p _ => p
  | .jobs p _ => p

def affinity : Queue → Affinity
  | .ready _ a => a
  | .jobs _ a => a

def kind : Queue → Nat
  | .ready .. => 0
  | .jobs .. => 1

def tier (q : Queue) : Nat :=
  2 - q.priority.index

/-- What decides between two queues. The tier weighs more than the kind, and that more than
the distance. -/
def key (q : Queue) : Nat :=
  6 * q.tier + 3 * q.kind + q.affinity.distance

def rank (e : Queue × Work) : Nat :=
  e.1.key

theorem kind_lt (q : Queue) : q.kind < 2 := by
  cases q <;> simp [kind]

theorem key_lt_iff {q r : Queue} : q.key < r.key ↔ q.tier < r.tier ∨ q.tier = r.tier ∧ (q.kind < r.kind ∨
    q.kind = r.kind ∧ q.affinity.distance < r.affinity.distance) := by
  have hkind := q.kind_lt
  have hkind' := r.kind_lt
  have hdistance := q.affinity.distance_lt
  have hdistance' := r.affinity.distance_lt
  unfold key
  omega

theorem key_eq_iff {q r : Queue} : q.key = r.key ↔ q.tier = r.tier ∧ q.kind = r.kind ∧
    q.affinity.distance = r.affinity.distance := by
  have hkind := q.kind_lt
  have hkind' := r.kind_lt
  have hdistance := q.affinity.distance_lt
  have hdistance' := r.affinity.distance_lt
  unfold key
  omega

/-- A worker looks into one queue of each key. -/
theorem eq_of_key {crew : Crew} {worker : Nat} {q r : Queue} (hq : crew.canRun worker q.affinity = true)
    (hr : crew.canRun worker r.affinity = true) (hkey : q.key = r.key) : q = r := by
  have hpriority : ∀ {p p' : Priority}, 2 - p.index = 2 - p'.index → p = p' := by
    intro p p'
    cases p <;> cases p' <;> simp [Priority.index]
  have haffinity : ∀ {a b : Affinity}, crew.canRun worker a = true → crew.canRun worker b = true →
      a.distance = b.distance → a = b := by
    intro a b ha hb
    cases a <;> cases b <;> simp_all [Affinity.distance, Crew.canRun]
  obtain ⟨hp, hk, hd⟩ := key_eq_iff.mp hkey
  have hp := hpriority hp
  have ha := haffinity hq hr hd
  cases q <;> cases r <;> simp_all [kind, priority, affinity]

end Queue

/-! ## Sorting -/

section
variable {α : Type} {key : α → Nat}

/-- A sorted list is known by the parts of it that have equal keys. -/
theorem eq_of_sorted (key : α → Nat) {xs ys : List α} (hxs : xs.Pairwise fun x y => key x ≤ key y)
    (hys : ys.Pairwise fun x y => key x ≤ key y) (h : ∀ k, xs.filter (key · = k) = ys.filter (key · = k)) :
      xs = ys := by
  induction xs generalizing ys with
  | nil =>
    cases ys with
    | nil => rfl
    | cons y ys => simpa using h (key y)
  | cons x xs ih =>
    cases ys with
    | nil => simpa using h (key x)
    | cons y ys =>
      rw [List.pairwise_cons] at hxs hys
      have hmem : ∀ {z : α} {us vs : List α}, us.filter (key · = key z) = vs.filter (key · = key z) → z ∈ us →
          z ∈ vs := by
        intro z us vs he hz
        have hz' : z ∈ us.filter (key · = key z) := List.mem_filter.mpr ⟨hz, by simp⟩
        rw [he] at hz'
        exact (List.mem_filter.mp hz').1
      have hxy : key x ≤ key y := by
        rcases List.mem_cons.mp (hmem (h (key y)).symm List.mem_cons_self) with he | hin
        · exact Nat.le_of_eq (congrArg key he.symm)
        · exact hxs.1 y hin
      have hyx : key y ≤ key x := by
        rcases List.mem_cons.mp (hmem (h (key x)) List.mem_cons_self) with he | hin
        · exact Nat.le_of_eq (congrArg key he.symm)
        · exact hys.1 x hin
      have hkey := Nat.le_antisymm hxy hyx
      have hfront := h (key x)
      rw [List.filter_cons_of_pos (by simp), List.filter_cons_of_pos (by simp [hkey])] at hfront
      obtain ⟨rfl, -⟩ := List.cons.inj hfront
      congr 1
      apply ih hxs.2 hys.2
      intro k
      have hk := h k
      by_cases hx : key x = k
      · rw [List.filter_cons_of_pos (by simp [hx]), List.filter_cons_of_pos (by simp [hx])] at hk
        exact (List.cons.inj hk).2
      · rwa [List.filter_cons_of_neg (by simp [hx]), List.filter_cons_of_neg (by simp [hx])] at hk

theorem key_le_trans (x y z : α) (hxy : decide (key x ≤ key y) = true) (hyz : decide (key y ≤ key z) = true) :
    decide (key x ≤ key z) = true :=
  decide_eq_true (Nat.le_trans (of_decide_eq_true hxy) (of_decide_eq_true hyz))

theorem key_le_total (x y : α) : (decide (key x ≤ key y) || decide (key y ≤ key x)) = true := by
  simpa using Nat.le_total (key x) (key y)

theorem pairwise_mergeSort_key (key : α → Nat) (xs : List α) :
    (xs.mergeSort fun x y => key x ≤ key y).Pairwise fun x y => key x ≤ key y :=
  (List.pairwise_mergeSort key_le_trans key_le_total xs).imp of_decide_eq_true

/-- Sorting keeps the order of what has equal keys. -/
theorem filter_mergeSort (key : α → Nat) (xs : List α) (k : Nat) :
    (xs.mergeSort fun x y => key x ≤ key y).filter (key · = k) = xs.filter (key · = k) := by
  have hsorted : (xs.filter (key · = k)).Pairwise fun x y => decide (key x ≤ key y) = true := by
    apply List.pairwise_filter.mpr
    apply List.pairwise_of_forall
    intro x y hx hy
    rw [of_decide_eq_true hx, of_decide_eq_true hy]
    exact decide_eq_true (Nat.le_refl k)
  have hsub := (List.sublist_mergeSort key_le_trans key_le_total hsorted List.filter_sublist).filter
    (key · = k)
  rw [List.filter_filter] at hsub
  simp only [Bool.and_self] at hsub
  exact (hsub.eq_of_length ((List.mergeSort_perm xs _).filter _).length_eq.symm).symm

end

namespace Lanes

def scanned (sources : List Affinity) : List Queue :=
  Priority.scanOrder.flatMap fun p => sources.map (.ready p) ++ sources.map (.jobs p)

def entriesOf (ls : Lanes) (queues : List Queue) : List (Queue × Work) :=
  queues.flatMap fun q => (ls.contents q).map (q, ·)

def takeFrom (ls : Lanes) : Queue → Option (Work × Lanes)
  | .ready p a => ls.takeReady p a
  | .jobs p a => ls.takeJob p a

variable {ls ls' : Lanes} {q r : Queue} {work : Work} {works : List Work} {rest : List (Queue × Work)}
  {queues : List Queue} {sources : List Affinity}

@[simp] theorem mem_scanned : q ∈ scanned sources ↔ q.affinity ∈ sources := by
  cases q <;> simp [scanned, Queue.affinity, Priority.mem_scanOrder]

theorem mem_sources_of_scanned {before after : List Queue} (hscan : scanned sources = before ++ q :: after) :
    q.affinity ∈ sources := by
  rw [← mem_scanned, hscan]
  exact List.mem_append_right before List.mem_cons_self

@[simp] theorem entriesOf_cons (ls : Lanes) (q : Queue) (queues : List Queue) :
    ls.entriesOf (q :: queues) = (ls.contents q).map (q, ·) ++ ls.entriesOf queues :=
  List.flatMap_cons

theorem mem_entriesOf : (q, work) ∈ ls.entriesOf queues ↔ q ∈ queues ∧ work ∈ ls.contents q := by
  simp [entriesOf]

theorem entriesOf_eq_nil_iff : ls.entriesOf queues = [] ↔ ∀ q ∈ queues, ls.contents q = [] := by
  simp [entriesOf]

theorem entriesOf_congr (h : ∀ q ∈ queues, ls'.contents q = ls.contents q) :
    ls'.entriesOf queues = ls.entriesOf queues := by
  apply flatMap_congr_left
  intro q hq
  rw [h q hq]

theorem filter_entriesOf (hn : queues.Nodup) (hq : q ∉ queues → ls.contents q = []) :
    (ls.entriesOf queues).filter (·.1 = q) = (ls.contents q).map (q, ·) := by
  induction queues with
  | nil => simp [entriesOf, hq]
  | cons r queues ih =>
    rw [List.nodup_cons] at hn
    rw [entriesOf_cons, List.filter_append]
    by_cases hr : r = q
    · subst hr
      have hothers : (ls.entriesOf queues).filter (·.1 = r) = [] := by
        rw [List.filter_eq_nil_iff]
        rintro ⟨r', work⟩ hmem he
        obtain rfl : r' = r := by simpa using he
        exact hn.1 (mem_entriesOf.mp hmem).1
      have hown : ((ls.contents r).map (r, ·)).filter (·.1 = r) = (ls.contents r).map (r, ·) := by simp
      rw [hothers, hown, List.append_nil]
    · have hother : ((ls.contents r).map (r, ·)).filter (·.1 = q) = [] := by simp [hr]
      rw [hother, List.nil_append]
      apply ih hn.2
      intro hq'
      apply hq
      simp [Ne.symm hr, hq']

/-! ## The scan -/

theorem findSome?_flatMap {α β γ : Type} (f : β → Option γ) (g : α → List β) (xs : List α) :
    (xs.flatMap g).findSome? f = xs.findSome? fun x => (g x).findSome? f := by
  induction xs with
  | nil => rfl
  | cons x xs ih =>
    rw [List.flatMap_cons, List.findSome?_append, ih, List.findSome?_cons]
    cases (g x).findSome? f <;> rfl

theorem take_eq_scan (ls : Lanes) (sources : List Affinity) :
    ls.take sources = (scanned sources).findSome? ls.takeFrom := by
  unfold take scanned
  rw [findSome?_flatMap]
  congr 1
  funext p
  rw [List.findSome?_append, List.findSome?_map, List.findSome?_map]
  rfl

theorem takeFrom_eq_none (h : ls.contents q = []) : ls.takeFrom q = none := by
  cases q with
  | ready p a => exact takeReady_eq_none_iff.mpr (List.map_eq_nil_iff.mp h)
  | jobs p a => exact takeJob_eq_none_iff.mpr (List.map_eq_nil_iff.mp h)

theorem takeFrom_eq_some (h : ls.contents q = work :: works) : ∃ lanes, ls.takeFrom q = some (work, lanes) ∧
    lanes.contents q = works ∧ ∀ r, r ≠ q → lanes.contents r = ls.contents r := by
  cases q with
  | ready p a =>
    obtain ⟨ready, rest, hready, rfl, rfl⟩ := List.map_eq_cons_iff.mp h
    have ha : ls.Has a := has_of_tier_ne (p := p) fun he => by rw [he] at hready; cases hready
    refine ⟨ls.setTier a p { ls.tier a p with ready := rest }, by simp [takeFrom, takeReady, hready], ?_, ?_⟩
    · simp [contents, tier_setTier ha]
    · intro r hr
      cases r with
      | ready p' a' =>
        have hne : ¬(a' = a ∧ p' = p) := by
          rintro ⟨rfl, rfl⟩
          exact hr rfl
        simp [contents, tier_setTier ha, hne]
      | jobs p' a' =>
        by_cases he : a' = a ∧ p' = p <;> simp [contents, tier_setTier ha, he]
  | jobs p a =>
    obtain ⟨job, rest, hjobs, rfl, rfl⟩ := List.map_eq_cons_iff.mp h
    have ha : ls.Has a := has_of_tier_ne (p := p) fun he => by rw [he] at hjobs; cases hjobs
    refine ⟨ls.setTier a p { ls.tier a p with jobs := rest }, by simp [takeFrom, takeJob, hjobs], ?_, ?_⟩
    · simp [contents, tier_setTier ha]
    · intro r hr
      cases r with
      | ready p' a' =>
        by_cases he : a' = a ∧ p' = p <;> simp [contents, tier_setTier ha, he]
      | jobs p' a' =>
        have hne : ¬(a' = a ∧ p' = p) := by
          rintro ⟨rfl, rfl⟩
          exact hr rfl
        simp [contents, tier_setTier ha, hne]

theorem takeFrom_eq_none_iff : ls.takeFrom q = none ↔ ls.contents q = [] := by
  refine ⟨?_, takeFrom_eq_none⟩
  intro hnone
  cases hq : ls.contents q with
  | nil => rfl
  | cons work works =>
    obtain ⟨lanes, hsome, -⟩ := takeFrom_eq_some hq
    cases hnone.symm.trans hsome

/-- The queue that work was taken from is the first in the scan that is not empty. -/
theorem scanned_of_take_job {job : Nat} {p : Priority} {a : Affinity}
    (h : ls.take sources = some (.job job p a, ls')) :
    ∃ before after, scanned sources = before ++ .jobs p a :: after ∧ ∀ r ∈ before, ls.contents r = [] := by
  rw [take_eq_scan, List.findSome?_eq_some_iff] at h
  obtain ⟨before, q, after, hscan, htake, hnone⟩ := h
  have hq : q = .jobs p a := by
    cases q with
    | ready p' a' =>
      obtain ⟨ready, hwork⟩ := takeReady_work htake
      cases hwork
    | jobs p' a' =>
      obtain ⟨job', hwork⟩ := takeJob_work htake
      cases hwork
      rfl
  subst hq
  exact ⟨before, after, hscan, fun r hr => takeFrom_eq_none_iff.mp (hnone r hr)⟩

theorem take_of_scanned {before after : List Queue} (hscan : scanned sources = before ++ q :: after)
    (hbefore : ∀ r ∈ before, ls.contents r = []) (hq : ls.contents q = work :: works) : ∃ lanes,
    ls.take sources = some (work, lanes) ∧ lanes.contents q = works ∧ ∀ r, r ≠ q →
      lanes.contents r = ls.contents r := by
  obtain ⟨lanes, htake, hcontents⟩ := takeFrom_eq_some hq
  refine ⟨lanes, ?_, hcontents⟩
  rw [take_eq_scan, List.findSome?_eq_some_iff]
  exact ⟨before, q, after, hscan, htake, fun r hr => takeFrom_eq_none (hbefore r hr)⟩

theorem findSome?_takeFrom_eq_none (h : ls.entriesOf queues = []) : queues.findSome? ls.takeFrom = none := by
  rw [List.findSome?_eq_none_iff]
  intro q hq
  exact takeFrom_eq_none (entriesOf_eq_nil_iff.mp h q hq)

theorem findSome?_takeFrom_eq_some (hn : queues.Nodup) (h : ls.entriesOf queues = (q, work) :: rest) :
    ∃ lanes, queues.findSome? ls.takeFrom = some (work, lanes) ∧ lanes.entriesOf queues = rest ∧
      ls.contents q = work :: lanes.contents q ∧ ∀ r, r ≠ q → lanes.contents r = ls.contents r := by
  induction queues with
  | nil => cases h
  | cons r queues ih =>
    rw [List.nodup_cons] at hn
    rw [entriesOf_cons] at h
    rw [List.findSome?_cons]
    cases hr : ls.contents r with
    | nil =>
      rw [hr, List.map_nil, List.nil_append] at h
      obtain ⟨lanes, htake, hrest, hfront, hothers⟩ := ih hn.2 h
      have hne : r ≠ q := by
        rintro rfl
        cases hfront.symm.trans hr
      refine ⟨lanes, ?_, ?_, hfront, hothers⟩
      · rw [takeFrom_eq_none hr]
        exact htake
      · rw [entriesOf_cons, hothers r hne, hr, hrest, List.map_nil, List.nil_append]
    | cons first works =>
      rw [hr, List.map_cons, List.cons_append] at h
      obtain ⟨hfirst, rfl⟩ := List.cons.inj h
      obtain ⟨rfl, rfl⟩ := Prod.mk.inj hfirst
      obtain ⟨lanes, htake, hown, hothers⟩ := takeFrom_eq_some hr
      refine ⟨lanes, ?_, ?_, by rw [hown, hr], hothers⟩
      · rw [htake]
      · have hlater : lanes.entriesOf queues = ls.entriesOf queues := by
          apply entriesOf_congr
          intro r' hr'
          apply hothers
          rintro rfl
          exact hn.1 hr'
        rw [entriesOf_cons, hown, hlater]

/-! ## The scan is sorted -/

theorem pairwise_scanned {R : Queue → Queue → Prop}
    (hsources : ∀ p, sources.Pairwise fun a b => R (.ready p a) (.ready p b) ∧ R (.jobs p a) (.jobs p b))
    (hkinds : ∀ p a b, R (.ready p a) (.jobs p b))
    (htiers : ∀ q r, q.tier < r.tier → R q r) : (scanned sources).Pairwise R := by
  unfold scanned
  rw [List.pairwise_flatMap]
  refine ⟨?_, ?_⟩
  · intro p _
    rw [List.pairwise_append, List.pairwise_map, List.pairwise_map]
    refine ⟨(hsources p).imp And.left, (hsources p).imp And.right, ?_⟩
    intro q hq r hr
    obtain ⟨a, -, rfl⟩ := List.mem_map.mp hq
    obtain ⟨b, -, rfl⟩ := List.mem_map.mp hr
    exact hkinds p a b
  · have htier : ∀ {p : Priority} {q : Queue}, q ∈ sources.map (.ready p) ++ sources.map (.jobs p) →
        q.priority = p := by
      intro p q hq
      rcases List.mem_append.mp hq with hq | hq <;> obtain ⟨a, -, rfl⟩ := List.mem_map.mp hq <;> rfl
    have hdown : Priority.scanOrder.Pairwise fun p p' => 2 - p.index < 2 - p'.index := by decide
    apply hdown.imp
    intro p p' hp q hq r hr
    apply htiers
    rwa [Queue.tier, Queue.tier, htier hq, htier hr]

theorem nodup_scanned (h : sources.Nodup) : (scanned sources).Nodup := by
  apply pairwise_scanned
  · intro p
    exact h.imp fun hab => by simpa using hab
  · simp
  · rintro q r hlt rfl
    exact Nat.lt_irrefl _ hlt

theorem sorted_scanned (h : sources.Pairwise fun a b => a.distance < b.distance) :
    (scanned sources).Pairwise fun q r => q.key < r.key := by
  apply pairwise_scanned
  · intro p
    exact h.imp fun hab =>
      ⟨Queue.key_lt_iff.mpr (Or.inr ⟨rfl, Or.inr ⟨rfl, hab⟩⟩),
        Queue.key_lt_iff.mpr (Or.inr ⟨rfl, Or.inr ⟨rfl, hab⟩⟩)⟩
  · intro p a b
    exact Queue.key_lt_iff.mpr (Or.inr ⟨rfl, Or.inl Nat.one_pos⟩)
  · intro q r hlt
    exact Queue.key_lt_iff.mpr (Or.inl hlt)

theorem sorted_sources (crew : Crew) (worker : Nat) :
    (crew.sources worker).Pairwise fun a b => a.distance < b.distance := by
  rcases Crew.poolOf_eq_or crew worker with h | h <;> simp [Crew.sources, h, Affinity.distance]

theorem nodup_sources (crew : Crew) (worker : Nat) : (crew.sources worker).Nodup :=
  (sorted_sources crew worker).imp fun hab he => by simp [he] at hab

theorem sorted_entriesOf (h : queues.Pairwise fun q r => q.key < r.key) :
    (ls.entriesOf queues).Pairwise fun e f => Queue.rank e ≤ Queue.rank f := by
  unfold entriesOf
  rw [List.pairwise_flatMap]
  refine ⟨?_, h.imp ?_⟩
  · intro q _
    rw [List.pairwise_map]
    exact List.pairwise_of_forall fun _ _ => Nat.le_refl _
  · intro q r hqr e he f hf
    obtain ⟨_, -, rfl⟩ := List.mem_map.mp he
    obtain ⟨_, -, rfl⟩ := List.mem_map.mp hf
    exact Nat.le_of_lt hqr

/-- Whether a list has everything that is queued, and what is in one queue in the order of
the queue. -/
def Lists (ls : Lanes) (all : List (Queue × Work)) : Prop :=
  ∀ q, all.filter (·.1 = q) = (ls.contents q).map (q, ·)

def affinities (ls : Lanes) : List Affinity :=
  .any :: .foreground :: .background :: (List.range ls.own.size).map .worker

def everything (ls : Lanes) : List (Queue × Work) :=
  ls.entriesOf (scanned ls.affinities)

theorem nodup_affinities (ls : Lanes) : ls.affinities.Nodup := by
  have hown : ((List.range ls.own.size).map Affinity.worker).Nodup := by
    rw [List.Nodup, List.pairwise_map]
    exact List.nodup_range.imp fun hij => by simpa using hij
  simp [affinities, hown]

theorem mem_affinities {a : Affinity} : a ∈ ls.affinities ↔ ls.Has a := by
  cases a with
  | worker i => simp [affinities, has_worker]
  | _ => simp [affinities, Has, check]

theorem contents_of_not_has (h : ¬ls.Has q.affinity) : ls.contents q = [] := by
  cases q with
  | ready p a =>
    have hempty : ls.tier a p = .empty := tier_of_not_has h p
    simp [contents, hempty, Tier.empty]
  | jobs p a =>
    have hempty : ls.tier a p = .empty := tier_of_not_has h p
    simp [contents, hempty, Tier.empty]

theorem lists_everything (ls : Lanes) : ls.Lists ls.everything := by
  intro q
  apply filter_entriesOf (nodup_scanned ls.nodup_affinities)
  intro hq
  apply contents_of_not_has
  rwa [mem_scanned, mem_affinities] at hq

end Lanes

def Crew.sorted (crew : Crew) (worker : Nat) (all : List (Queue × Work)) : List (Queue × Work) :=
  (all.filter fun e => crew.canRun worker e.1.affinity).mergeSort fun e f => Queue.rank e ≤ Queue.rank f

/-- However the queues are listed, what a worker may run of them is sorted to the row in
which it is scanned. -/
theorem Lanes.Lists.sorted_eq {ls : Lanes} {all : List (Queue × Work)} (h : ls.Lists all) (crew : Crew)
    (worker : Nat) :
    crew.sorted worker all = ls.entriesOf (scanned (crew.sources worker)) := by
  have hvisible : ∀ {q : Queue}, q ∈ scanned (crew.sources worker) ↔
      crew.canRun worker q.affinity = true := by
    intro q
    rw [mem_scanned, Crew.mem_sources_iff]
  apply eq_of_sorted Queue.rank (pairwise_mergeSort_key Queue.rank _)
  · exact sorted_entriesOf (sorted_scanned (sorted_sources crew worker))
  · intro k
    rw [filter_mergeSort Queue.rank, List.filter_filter]
    by_cases hk : ∃ q : Queue, crew.canRun worker q.affinity = true ∧ q.key = k
    · obtain ⟨q, hq, rfl⟩ := hk
      -- no other queue that the worker looks into has this key
      have honly : ∀ e : Queue × Work,
          (decide (Queue.rank e = q.key) && crew.canRun worker e.1.affinity) = decide (e.1 = q) := by
        intro e
        unfold Queue.rank
        by_cases he : e.1 = q
        · simp [he, hq]
        · cases hr : crew.canRun worker e.1.affinity with
          | false => simp [he]
          | true =>
            have hne : e.1.key ≠ q.key := fun hkey => he (Queue.eq_of_key hr hq hkey)
            simp [he, hne]
      calc all.filter _ = all.filter (·.1 = q) := List.filter_congr fun e _ => honly e
        _ = (ls.contents q).map (q, ·) := h q
        _ = (ls.entriesOf (scanned (crew.sources worker))).filter (·.1 = q) :=
            (filter_entriesOf (nodup_scanned (nodup_sources crew worker)) fun hno =>
              absurd (hvisible.mpr hq) hno).symm
        _ = _ := by
            apply List.filter_congr
            intro e he
            have hcan := hvisible.mp (mem_entriesOf.mp (show (e.1, e.2) ∈ _ from he)).1
            simpa [hcan] using (honly e).symm
    · have hnone : ∀ q : Queue, crew.canRun worker q.affinity = true → q.key ≠ k :=
        fun q hq he => hk ⟨q, hq, he⟩
      rw [List.filter_eq_nil_iff.mpr, List.filter_eq_nil_iff.mpr]
      · intro e he hkey
        have hcan := hvisible.mp (mem_entriesOf.mp (show (e.1, e.2) ∈ _ from he)).1
        exact hnone e.1 hcan (of_decide_eq_true hkey)
      · intro e _ hboth
        rw [Bool.and_eq_true] at hboth
        exact hnone e.1 hboth.2 (of_decide_eq_true hboth.1)

theorem Lanes.hasWork_eq_false_iff {ls : Lanes} {sources : List Affinity} :
    ls.hasWork sources = false ↔ ls.entriesOf (scanned sources) = [] := by
  have hempty : ∀ t : Tier, t.isEmpty = true ↔ t.ready = [] ∧ t.jobs = [] := by simp [Tier.isEmpty]
  rw [entriesOf_eq_nil_iff, hasWork, List.any_eq_false]
  constructor
  · intro h q hq
    have ha := h q.affinity (mem_scanned.mp hq)
    rw [Bool.not_eq_true, List.any_eq_false] at ha
    have hp := ha q.priority (Priority.mem_scanOrder _)
    have htier : (ls.tier q.affinity q.priority).isEmpty = true := by simpa using hp
    rw [hempty] at htier
    cases q with
    | ready p a => exact List.map_eq_nil_iff.mpr htier.1
    | jobs p a => exact List.map_eq_nil_iff.mpr htier.2
  · intro h a ha
    rw [Bool.not_eq_true, List.any_eq_false]
    intro p _
    have hready := h (.ready p a) (mem_scanned.mpr ha)
    have hjobs := h (.jobs p a) (mem_scanned.mpr ha)
    simp [(hempty _).mpr ⟨List.map_eq_nil_iff.mp hready, List.map_eq_nil_iff.mp hjobs⟩]

/-! ## Fetches -/

/-- What a worker will get, one fetch after the other. -/
def Hub.due (h : Hub κ) (worker : Nat) : List (Queue × Work) :=
  h.crew.sorted worker h.lanes.everything

section
variable {h : Hub κ} {worker : Nat} {q : Queue} {work : Work} {rest : List (Queue × Work)}

theorem Hub.due_eq (h : Hub κ) (worker : Nat) :
    h.due worker = h.lanes.entriesOf (Lanes.scanned (h.crew.sources worker)) :=
  h.lanes.lists_everything.sorted_eq h.crew worker

theorem Hub.take_of_due_nil (hdue : h.due worker = []) : h.lanes.take (h.crew.sources worker) = none := by
  rw [Lanes.take_eq_scan]
  rw [Hub.due_eq] at hdue
  exact Lanes.findSome?_takeFrom_eq_none hdue

theorem Hub.take_of_due_cons (hdue : h.due worker = (q, work) :: rest) : ∃ lanes,
    h.lanes.take (h.crew.sources worker) = some (work, lanes) ∧ ({ h with lanes } : Hub κ).due worker = rest ∧
      h.lanes.contents q = work :: lanes.contents q ∧ ∀ r, r ≠ q → lanes.contents r = h.lanes.contents r := by
  rw [Hub.due_eq] at hdue
  obtain ⟨lanes, htake, hrest, hcontents⟩ :=
    Lanes.findSome?_takeFrom_eq_some (Lanes.nodup_scanned (Lanes.nodup_sources h.crew worker)) hdue
  refine ⟨lanes, ?_, ?_, hcontents⟩
  · rw [Lanes.take_eq_scan]
    exact htake
  · rw [Hub.due_eq]
    exact hrest

theorem Hub.canRun_of_due (hdue : h.due worker = (q, work) :: rest) :
    h.crew.canRun worker q.affinity = true := by
  have hmem : (q, work) ∈ h.lanes.entriesOf (Lanes.scanned (h.crew.sources worker)) := by
    rw [← Hub.due_eq, hdue]
    exact List.mem_cons_self
  rw [← Crew.mem_sources_iff, ← Lanes.mem_scanned]
  exact (Lanes.mem_entriesOf.mp hmem).1

theorem Hub.due_eq_nil_iff : h.due worker = [] ↔ ∀ q, h.crew.canRun worker q.affinity = true →
    h.lanes.contents q = [] := by
  rw [Hub.due_eq, Lanes.entriesOf_eq_nil_iff]
  simp only [Lanes.mem_scanned, Crew.mem_sources_iff]

theorem Hub.gives_fetch_nil (hworker : worker < h.crew.size) (hdue : h.due worker = []) :
    (Hub.fetch worker : Act ρ (Hub κ) (Option Work)).Gives h none h := by
  unfold Gives
  rw [Hub.ends_fetch, if_pos hworker, Hub.take_of_due_nil hdue]
  exact ⟨rfl, rfl⟩

theorem Hub.gives_fetch_cons (hworker : worker < h.crew.size) (hdue : h.due worker = (q, work) :: rest) :
    ∃ lanes, (Hub.fetch worker : Act ρ (Hub κ) (Option Work)).Gives h (some work) { h with lanes } ∧
      lanes.own.size = h.lanes.own.size ∧ ({ h with lanes } : Hub κ).due worker = rest ∧
      h.lanes.contents q = work :: lanes.contents q ∧ ∀ r, r ≠ q → lanes.contents r = h.lanes.contents r := by
  obtain ⟨lanes, htake, hrest⟩ := Hub.take_of_due_cons hdue
  refine ⟨lanes, ?_, Lanes.size_take htake, hrest⟩
  unfold Gives
  rw [Hub.ends_fetch, if_pos hworker, htake]
  exact ⟨rfl, rfl⟩

end

namespace Traffic

variable {t : Traffic κ} {h : Hub κ} {worker : Nat}

theorem serve_fetch_none (hworker : worker < t.hub.crew.size)
    (htake : t.hub.lanes.take (t.hub.crew.sources worker) = none) :
    t.serve (.fetch worker) = t := by
  have hgives : (Hub.serve (.fetch worker) : Act Unit (Hub κ) (Option Event)).Gives t.hub none t.hub := by
    unfold Gives
    rw [Hub.serve, ends_bind, Hub.ends_fetch, if_pos hworker, htake]
    exact ⟨rfl, rfl⟩
  rw [serve_of_gives hgives]
  simp

structure Fetched (t u : Traffic κ) (worker n : Nat) : Prop where
  history : departures u.history = departures t.history ++ ((t.hub.due worker).take n).map Prod.snd
  due : u.hub.due worker = (t.hub.due worker).drop n
  rest : u.hub = { t.hub with lanes := u.hub.lanes }
  others : ∀ q, t.hub.crew.canRun worker q.affinity = false → u.hub.lanes.contents q = t.hub.lanes.contents q

theorem fetched_run (t : Traffic κ) (n : Nat) (hworker : worker < t.hub.crew.size) :
    Fetched t (t.run (List.replicate n (.fetch worker))) worker n := by
  induction n generalizing t with
  | zero => exact ⟨by simp [run], rfl, rfl, fun _ _ => rfl⟩
  | succ n ih =>
    show Fetched t ((t.serve (.fetch worker)).run (List.replicate n (.fetch worker))) worker (n + 1)
    cases hdue : t.hub.due worker with
    | nil =>
      rw [serve_fetch_none hworker (Hub.take_of_due_nil hdue)]
      obtain ⟨hhistory, hdue', hrest, hothers⟩ := ih t hworker
      exact ⟨by simpa [hdue] using hhistory, by simpa [hdue] using hdue', hrest, hothers⟩
    | cons e later =>
      obtain ⟨q, work⟩ := e
      obtain ⟨lanes, htake, hlater, -, hkept⟩ := Hub.take_of_due_cons hdue
      have hserve := serve_fetch hworker htake
      obtain ⟨hhistory, hdue', hrest, hothers⟩ := ih (t.serve (.fetch worker)) (by rw [hserve]; exact hworker)
      generalize (t.serve (.fetch worker)).run (List.replicate n (.fetch worker)) = u at *
      rw [hserve] at hhistory hdue' hrest hothers
      refine ⟨?_, ?_, hrest, ?_⟩
      · rw [hhistory, departures_snoc, hlater, hdue]
        simp [Event.fetched?]
      · rw [hdue', hlater, hdue, List.drop_succ_cons]
      · intro r hr
        refine (hothers r hr).trans (hkept r ?_)
        rintro rfl
        cases hr.symm.trans (Hub.canRun_of_due hdue)

/-- A fetch answers with the first of what the worker may run, and takes nothing else. What
a worker gets by fetching on and on is all of that, in this order, and then nothing. -/
theorem fetches_in_order (h : Hub κ) (hworker : worker < h.crew.size) :
    (∀ all, h.lanes.Lists all → h.crew.sorted worker all = h.due worker) ∧
    (match h.due worker with
      | [] => (Hub.fetch worker : Act ρ (Hub κ) (Option Work)).Gives h none h
      | (q, work) :: rest =>
        ∃ lanes, (Hub.fetch worker : Act ρ (Hub κ) (Option Work)).Gives h (some work) { h with lanes } ∧
          lanes.own.size = h.lanes.own.size ∧ ({ h with lanes } : Hub κ).due worker = rest ∧
          h.lanes.contents q = work :: lanes.contents q ∧ ∀ r, r ≠ q →
            lanes.contents r = h.lanes.contents r) ∧
    ((Hub.fetch worker : Act ρ (Hub κ) (Option Work)).Gives h none h ↔ h.hasWork worker = false) ∧
    ∀ n, let t := scan h worker n
      departures t.history = ((h.due worker).take n).map Prod.snd ∧ t.hub.due worker = (h.due worker).drop n ∧
      t.hub = { h with lanes := t.hub.lanes } ∧
      (∀ q, h.crew.canRun worker q.affinity = false → t.hub.lanes.contents q = h.lanes.contents q) ∧
      ((h.due worker).length ≤ n → (Hub.fetch worker : Act ρ (Hub κ) (Option Work)).Gives t.hub none t.hub ∧
        ∀ q, h.crew.canRun worker q.affinity = true → t.hub.lanes.contents q = []) := by
  refine ⟨?_, ?_, ?_, ?_⟩
  · intro all hall
    rw [hall.sorted_eq, Hub.due_eq]
  · cases hdue : h.due worker with
    | nil => exact Hub.gives_fetch_nil hworker hdue
    | cons e rest =>
      obtain ⟨q, work⟩ := e
      exact Hub.gives_fetch_cons hworker hdue
  · rw [Hub.hasWork, Lanes.hasWork_eq_false_iff, ← Hub.due_eq]
    constructor
    · intro hnone
      cases hdue : h.due worker with
      | nil => rfl
      | cons e rest =>
        obtain ⟨q, work⟩ := e
        obtain ⟨lanes, hsome, -⟩ := Hub.gives_fetch_cons (ρ := ρ) hworker hdue
        cases hnone.1.symm.trans hsome.1
    · exact Hub.gives_fetch_nil hworker
  · intro n t
    obtain ⟨hhistory, hdue, hrest, hothers⟩ : Fetched (start h) t worker n := fetched_run (start h) n hworker
    refine ⟨hhistory, hdue, hrest, hothers, ?_⟩
    intro hn
    have hcrew : t.hub.crew = h.crew := by rw [hrest]; rfl
    -- As many fetches as there was work leave nothing.
    have hnil : t.hub.due worker = [] := by
      rw [hdue]
      exact List.drop_eq_nil_of_le hn
    refine ⟨Hub.gives_fetch_nil (by rw [hcrew]; exact hworker) hnil, ?_⟩
    intro q hq
    apply Hub.due_eq_nil_iff.mp hnil
    rw [hcrew]
    exact hq

def crowd : List (Request Unit) :=
  [.record () false false, .push 0 .low .any, .push 0 .normal .foreground, .push 0 .high .background,
    .push 0 .normal (.worker 0), .resume ⟨0, .normal, .any⟩, .push 0 .high .any]

theorem crowd_fetched_in_order :
    let h := ((start mixedHub).run crowd).hub
    departures (scan h 0 6).history =
      [.job 0 .high .any, .fiber ⟨0, .normal, .any⟩, .job 0 .normal (.worker 0),
      .job 0 .normal .foreground, .job 0 .low .any] ∧
      (scan h 0 6).hub.lanes.contents (.jobs .high .background) = [.job 0 .high .background] ∧
      (Hub.fetch 0 : Act Unit (Hub Unit) (Option Work)).Gives (scan h 0 6).hub none (scan h 0 6).hub := by
  intro h
  have hworker : 0 < h.crew.size := by decide +kernel
  obtain ⟨-, -, -, hscan⟩ := fetches_in_order (ρ := Unit) h hworker
  obtain ⟨hhistory, -, -, hothers, hdone⟩ := hscan 6
  have hdue :
      (h.due 0).map Prod.snd = [.job 0 .high .any, .fiber ⟨0, .normal, .any⟩, .job 0 .normal (.worker 0),
        .job 0 .normal .foreground, .job 0 .low .any] := by
    rw [Hub.due_eq]
    decide +kernel
  refine ⟨?_, ?_, (hdone ?_).1⟩
  · rw [hhistory, List.map_take, hdue]
    rfl
  · rw [hothers _ (by decide +kernel)]
    decide +kernel
  · have hlength := congrArg List.length hdue
    rw [List.length_map] at hlength
    rw [hlength]
    decide

end Traffic

end FiberScheduler
