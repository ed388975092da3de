import FiberScheduler.Proofs.Fetching
import FiberScheduler.Proofs.Tenancy

/-!
# Jobs that are put back

While no extended fiber is free, a worker on a normal stack puts a job that needs one back,
at the end of the queue it came from. So that queue is not empty when the worker scans
again, and the scan gets no further: all that the rounds of the worker do is to turn this
one queue, up to the first job in it that can begin. What is in the queues behind it stays
out of sight.
-/

namespace FiberScheduler.System

open Act

variable {κ μ ρ σ : Type} {body : κ → Program κ μ ρ Unit} {s s' : System κ μ ρ} {i job j : Nat} {p : Priority}
  {a : Affinity} {jobs later : List Nat} {ds : List (Deed κ μ ρ)}

/-- A worker on a normal stack, with no extended fiber free, whose scan ends at this queue. -/
structure Rotates (s : System κ μ ρ) (i : Nat) (p : Priority) (a : Affinity) (jobs : List Nat) : Prop where
  loop : ∃ w fiber, OnLoop s i w fiber ∧ w.handoff = none ∧ s.pool.isExtended fiber = false
  busy : ∀ x, s.pool.InTier true x → s.pool.isFree x = false
  queue : (s.hub.lanes.tier a p).jobs = jobs
  first : ∃ before after, Lanes.scanned (s.hub.crew.sources i) = before ++ .jobs p a :: after ∧
    ∀ r ∈ before, s.hub.lanes.contents r = []

def tierJobs (s : System κ μ ρ) (i : Nat) (p : Priority) : List Nat :=
  (s.hub.crew.sources i).flatMap fun a => (s.hub.lanes.tier a p).jobs

def rounds (i n : Nat) : List (Move κ μ ρ) :=
  List.replicate n (.work i)

theorem needsExtended_congr (hjobs : s'.hub.jobs = s.hub.jobs) (job : Nat) :
    s'.hub.needsExtended job = s.hub.needsExtended job := by
  unfold Hub.needsExtended
  rw [hjobs]

/-! ## One round -/

theorem Rotates.take (hr : Rotates s i p a (j :: jobs)) : ∃ lanes,
    s.hub.lanes.take (s.hub.crew.sources i) = some (.job j p a, lanes) ∧
      lanes.contents (.jobs p a) = jobs.map (.job · p a) ∧
      ∀ r, r ≠ .jobs p a → lanes.contents r = s.hub.lanes.contents r := by
  obtain ⟨before, after, hscan, hbefore⟩ := hr.first
  apply Lanes.take_of_scanned hscan hbefore
  rw [Lanes.contents, hr.queue, List.map_cons]

/-- What a worker leaves that puts a job back: the queue, turned by one. -/
theorem rotates_of_put_back {w : Worker} {fiber : Nat} {lanes lanes' : Lanes} {seed : UInt32}
    (hon : OnLoop s i w fiber) (hno : w.handoff = none) (hnormal : s.pool.isExtended fiber = false)
    (hbusy : ∀ x, s.pool.InTier true x → s.pool.isFree x = false)
    (htake : s.hub.lanes.take (s.hub.crew.sources i) = some (.job j p a, lanes))
    (hput : lanes.pushJob j p a = .ok lanes') :
    ∃ rest, (s.hub.lanes.tier a p).jobs = j :: rest ∧
      Rotates (((s.setPool (s.pool.seeded seed)).setHub { s.hub with lanes := lanes' }).setWorker i
        { w with priority := p, affinity := a }) i p a (rest ++ [j]) := by
  obtain ⟨before, after, hscan, hbefore⟩ := Lanes.scanned_of_take_job htake
  obtain ⟨-, hfront, -⟩ := Lanes.tier_take_job htake
  have hjobs : (s.hub.lanes.tier a p).jobs = j :: (lanes.tier a p).jobs := by rw [hfront]
  have hqueue : s.hub.lanes.contents (.jobs p a) = .job j p a :: (lanes.tier a p).jobs.map (.job · p a) := by
    rw [Lanes.contents, hjobs, List.map_cons]
  obtain ⟨_, htake', -, hothers⟩ := Lanes.take_of_scanned hscan hbefore hqueue
  cases htake.symm.trans htake'
  refine ⟨_, hjobs, ⟨{ w with priority := p, affinity := a }, fiber,
    ⟨hon.alive, ?_, hon.stage, hon.current, hon.run⟩, hno, hnormal⟩, hbusy, ?_, before, after, hscan, ?_⟩
  · exact (getElem?_set _ hon.here i).trans (if_pos rfl)
  · show (lanes'.tier a p).jobs = _
    simp [Lanes.tier_pushJob hput]
  · intro r hr
    have hne : r ≠ .jobs p a := by
      rintro rfl
      cases (hbefore _ hr).symm.trans hqueue
    show lanes'.contents r = []
    rw [Lanes.contents_pushJob hput, hothers r hne, hbefore r hr]
    simp [Work.queue, Ne.symm hne]

section
variable (h : s.Sound)
include h

theorem Rotates.round (body : κ → Program κ μ ρ Unit) (hr : Rotates s i p a (j :: jobs))
    (hneeds : s.hub.needsExtended j = true) :
    Rotates (move body s (.work i)) i p a (jobs ++ [j]) ∧ deeds s (move body s (.work i)) (.work i) = [] ∧
      (move body s (.work i)).hub.jobs = s.hub.jobs := by
  obtain ⟨w, fiber, hon, hno, hnormal⟩ := hr.loop
  obtain ⟨lanes, htake, -⟩ := hr.take
  have hd : Dispatched s i w fiber j p a lanes (move body s (.work i))
      (deeds s (move body s (.work i)) (.work i)) :=
    (turn_of_sound h body i).dispatched hon hno htake
  generalize move body s (.work i) = s', deeds s (move body s (.work i)) (.work i) = ds at hd
  cases hd with
  | began hfits => cases hnormal.symm.trans (hfits hneeds)
  | passed _ htier hfree => cases hfree.symm.trans (hr.busy _ htier)
  | returned _ _ hbusy hput seed =>
    obtain ⟨rest, hqueue, hrotates⟩ := rotates_of_put_back hon hno hnormal hbusy htake hput
    obtain ⟨-, rfl⟩ := List.cons.inj (hr.queue.symm.trans hqueue)
    exact ⟨hrotates, rfl, rfl⟩

theorem Rotates.begins (body : κ → Program κ μ ρ Unit) (hr : Rotates s i p a (j :: jobs))
    (hneeds : s.hub.needsExtended j = false) :
    deeds s (move body s (.work i)) (.work i) = [.began j] := by
  obtain ⟨w, fiber, hon, hno, -⟩ := hr.loop
  obtain ⟨lanes, htake, -⟩ := hr.take
  have hd : Dispatched s i w fiber j p a lanes (move body s (.work i))
      (deeds s (move body s (.work i)) (.work i)) :=
    (turn_of_sound h body i).dispatched hon hno htake
  generalize move body s (.work i) = s', deeds s (move body s (.work i)) (.work i) = ds at hd
  cases hd with
  | began => rfl
  | passed hneeds' | returned hneeds' => cases hneeds.symm.trans hneeds'

theorem Sound.rotates (hback : PutsBack body s i job) :
    ∃ p a rest, (s.hub.lanes.tier a p).jobs = job :: rest ∧
    (∃ before after, Lanes.scanned (s.hub.crew.sources i) = before ++ .jobs p a :: after ∧
      ∀ r ∈ before, s.hub.lanes.contents r = []) ∧
    Rotates (move body s (.work i)) i p a (rest ++ [job]) ∧
      (move body s (.work i)).hub.jobs = s.hub.jobs := by
  obtain ⟨⟨w, fiber, p, a, hon, hno, hfetch⟩, hqueued⟩ := hback
  obtain ⟨⟨_, lanes⟩, htake, rfl⟩ := Option.map_eq_some_iff.mp hfetch
  have hmissing := h.not_queued_twice htake
  have hd : Dispatched s i w fiber job p a lanes (move body s (.work i))
      (deeds s (move body s (.work i)) (.work i)) :=
    (turn_of_sound h body i).dispatched hon hno htake
  generalize move body s (.work i) = s', deeds s (move body s (.work i)) (.work i) = ds at hd hqueued
  cases hd with
  | began _ hlanes | passed _ _ _ hlanes =>
    rw [hlanes] at hqueued
    exact absurd hqueued hmissing
  | returned _ hnormal hbusy hput seed =>
    obtain ⟨rest, hqueue, hrotates⟩ := rotates_of_put_back hon hno hnormal hbusy htake hput
    exact ⟨p, a, rest, hqueue, Lanes.scanned_of_take_job htake, hrotates, rfl⟩

end

/-! ## Many rounds -/

theorem history_append (body : κ → Program κ μ ρ Unit) (s : System κ μ ρ) (before after : List (Move κ μ ρ)) :
    history body s (before ++ after) = history body s before ++ history body (play body s before) after := by
  induction before generalizing s with
  | nil => rfl
  | cons m before ih =>
    show deeds s (move body s m) m ++ history body (move body s m) (before ++ after) = _
    rw [ih, ← List.append_assoc]
    rfl

theorem Rotates.many {front : List Nat} (h : s.Sound) (body : κ → Program κ μ ρ Unit)
    (hr : Rotates s i p a (front ++ jobs)) (hneeds : ∀ j ∈ front, s.hub.needsExtended j = true) :
    Rotates (play body s (rounds i front.length)) i p a (jobs ++ front) ∧
      history body s (rounds i front.length) = [] ∧
      (play body s (rounds i front.length)).hub.jobs = s.hub.jobs := by
  induction front generalizing s jobs with
  | nil =>
    rw [List.append_nil]
    exact ⟨hr, rfl, rfl⟩
  | cons j front ih =>
    have hr : Rotates s i p a (j :: (front ++ jobs)) := hr
    obtain ⟨hr', hds, hjobs⟩ := hr.round h body (hneeds j List.mem_cons_self)
    rw [List.append_assoc] at hr'
    obtain ⟨hr'', hhistory, hjobs'⟩ := ih (sound_move body h (.work i)) hr' fun k hk => by
      rw [needsExtended_congr hjobs]
      exact hneeds k (List.mem_cons_of_mem j hk)
    rw [List.append_assoc] at hr''
    refine ⟨hr'', ?_, hjobs'.trans hjobs⟩
    show deeds s (move body s (.work i)) (.work i) ++ history body (move body s (.work i))
      (rounds i front.length) = []
    rw [hds, hhistory, List.append_nil]

/-- The first job in the queue that can begin does so once those in front of it were put
back. -/
theorem Rotates.first_begins {k : Nat} (h : s.Sound) (body : κ → Program κ μ ρ Unit)
    (hr : Rotates s i p a jobs) (hk : k ∈ jobs) (hneeds : s.hub.needsExtended k = false) :
    ∃ n k, n < jobs.length ∧ k ∈ jobs ∧ s.hub.needsExtended k = false ∧
      history body s (rounds i (n + 1)) = [.began k] := by
  obtain ⟨front, k, later, rfl, hfront, hk⟩ : ∃ front k later, jobs = front ++ k :: later ∧
      (∀ j ∈ front, s.hub.needsExtended j = true) ∧ s.hub.needsExtended k = false := by
    cases hfind : jobs.find? fun j => !s.hub.needsExtended j with
    | none => simpa [hneeds] using List.find?_eq_none.mp hfind k hk
    | some k =>
      obtain ⟨hk, front, later, hsplit, hfront⟩ := List.find?_eq_some_iff_append.mp hfind
      exact ⟨front, k, later, hsplit, fun j hj => by simpa using hfront j hj, by simpa using hk⟩
  obtain ⟨hr', hhistory, hjobs⟩ := hr.many h body hfront
  refine ⟨front.length, k, by simp, by simp, hk, ?_⟩
  have hbegins := hr'.begins (sound_play body h _) body ((needsExtended_congr hjobs k).trans hk)
  have hsnoc : (rounds i (front.length + 1) : List (Move κ μ ρ)) = rounds i front.length ++ [.work i] :=
    List.replicate_succ'
  rw [hsnoc, history_append, hhistory]
  simpa [history] using hbegins

/-- Without such a job the rounds go on for ever. -/
theorem Rotates.forever (h : s.Sound) (hr : Rotates s i p a jobs) (hne : jobs ≠ [])
    (hneeds : ∀ j ∈ jobs, s.hub.needsExtended j = true) (n : Nat) : history body s (rounds i n) = [] := by
  induction n generalizing s jobs with
  | zero => rfl
  | succ n ih =>
    cases jobs with
    | nil => exact absurd rfl hne
    | cons j jobs =>
      obtain ⟨hr', hds, hjobs⟩ := hr.round h body (hneeds j List.mem_cons_self)
      have hrest := ih (sound_move body h (.work i)) hr' (by simp) ?_
      · show deeds s (move body s (.work i)) (.work i) ++ history body (move body s (.work i))
          (rounds i n) = []
        rw [hds, hrest, List.append_nil]
      · intro k hk
        rw [needsExtended_congr hjobs]
        apply hneeds
        rw [List.mem_append, List.mem_singleton] at hk
        rw [List.mem_cons]
        exact hk.symm

theorem length_le_tierJobs (ha : a ∈ s.hub.crew.sources i) :
    (s.hub.lanes.tier a p).jobs.length ≤ (s.tierJobs i p).length := by
  obtain ⟨before, after, hsources⟩ := List.append_of_mem ha
  unfold tierJobs
  rw [hsources, List.flatMap_append, List.flatMap_cons, List.length_append, List.length_append]
  omega

section
variable {mode : Mode} {host : Host} {config : Config} {memory : μ} {y : σ} {s₀ : System κ μ ρ}
  {moves : List (Move κ μ ρ)} (hnew :
    ((new mode host config memory : Act ρ σ (Except Refusal (System κ μ ρ))) y).result = .ok (.ok s₀))
  (hplay : s = play body s₀ moves)
include hnew hplay

/-- After a job was put back, the rounds of its worker come to a job that can begin if there
is one in the same queue, the first in the scan that is not empty. If there is none they do
nothing, whatever there is in the other queues. -/
theorem put_back_job_turns_its_queue (hback : PutsBack body s i job) :
    ∃ p a, job ∈ (s.hub.lanes.tier a p).jobs ∧ a ∈ s.hub.crew.sources i ∧
      (∃ before after, Lanes.scanned (s.hub.crew.sources i) = before ++ .jobs p a :: after ∧
        ∀ r ∈ before, s.hub.lanes.contents r = []) ∧
      ((∃ k ∈ (s.hub.lanes.tier a p).jobs, s.hub.needsExtended k = false) →
        ∃ n k, n ≤ (s.tierJobs i p).length ∧ k ∈ (s.hub.lanes.tier a p).jobs ∧ s.hub.needsExtended k = false ∧
          history body (move body s (.work i)) (rounds i n) = [.began k]) ∧
      ((∀ k ∈ (s.hub.lanes.tier a p).jobs, s.hub.needsExtended k = true) →
        ∀ n, history body (move body s (.work i)) (rounds i n) = []) := by
  have hsound : s.Sound := hplay ▸ sound_play body (new_of_ok hnew).sound moves
  have hsound' := sound_move body hsound (.work i)
  obtain ⟨p, a, rest, hqueue, hfirst, hrotates, hjobs⟩ := hsound.rotates hback
  have hsame := needsExtended_congr hjobs
  have hmem : ∀ k, k ∈ rest ++ [job] ↔ k ∈ (s.hub.lanes.tier a p).jobs := by
    intro k
    rw [hqueue, List.mem_append, List.mem_singleton, List.mem_cons, Or.comm]
  have ha : a ∈ s.hub.crew.sources i := by
    obtain ⟨before, after, hscan, -⟩ := hfirst
    exact Lanes.mem_sources_of_scanned hscan
  refine ⟨p, a, by rw [hqueue]; exact List.mem_cons_self, ha, hfirst, ?_, ?_⟩
  · rintro ⟨k, hk, hneeds⟩
    -- The queue turns until the first of these jobs is in front.
    obtain ⟨n, k', hn, hk', hneeds', hbegan⟩ :=
      hrotates.first_begins hsound' body ((hmem k).mpr hk) (by rw [hsame]; exact hneeds)
    refine ⟨n + 1, k', ?_, (hmem k').mp hk', by rw [← hsame]; exact hneeds', hbegan⟩
    have hle := length_le_tierJobs (p := p) ha
    rw [hqueue] at hle
    simp at hn hle
    omega
  · intro hall n
    apply hrotates.forever hsound' (by simp)
    intro k hk
    rw [hsame]
    exact hall k ((hmem k).mp hk)

end

/-! ## A hidden job -/

def newSolitary : Act Unit Unit (Except Refusal (System Bool Unit Unit)) :=
  new .strict .standard { smallConfig with workerCount := 1, extendedFiberCount := 1 } ()

def solitary : System Bool Unit Unit :=
  (built (newSolitary ()).result).get (by decide +kernel)

theorem new_solitary : (newSolitary ()).result = .ok (.ok solitary) :=
  eq_of_built _

/-- Job 0 waits on the extended fiber for job 2, which is in the shared queue. Job 1 needs
that fiber as well and is in the same queue, before job 2, and the system is to stop. -/
def lining : List (Move Bool Unit Unit) :=
  [.call .newGroup, .record true true false, .record false true false, .call (.addJob 0 .normal .any),
    .call (.addJob 1 .normal .any), .call (.spawn false (some 0) .normal .any), .work 0, .work 0, .work 0,
      .work 0,
    .work 0, .stop]

theorem lined_job_gets_by :
    let s := play smallBody solitary lining
    PutsBack smallBody s 0 1 ∧
      ∃ n k, n ≤ 2 ∧ s.hub.needsExtended k = false ∧
        history smallBody (move smallBody s (.work 0)) (rounds 0 n) = [.began k] := by
  intro s
  have hplay : s = play smallBody solitary lining := rfl
  have hback : PutsBack smallBody s 0 1 :=
    ⟨⟨⟨.running, some 2, none, false, .normal, .any, none⟩, 2, .normal, .any,
      ⟨by decide +kernel, by decide +kernel, rfl, rfl, Option.isNone_iff_eq_none.mp (by decide +kernel)⟩, rfl,
      by decide +kernel⟩, by decide +kernel⟩
  obtain ⟨p, a, hin, ha, -, hgets, -⟩ := put_back_job_turns_its_queue new_solitary hplay hback
  have htwo : ∀ a ∈ s.hub.crew.sources 0, ∀ p ∈ Priority.scanOrder, 1 ∈ (s.hub.lanes.tier a p).jobs →
      2 ∈ (s.hub.lanes.tier a p).jobs ∧ (s.tierJobs 0 p).length = 2 := by
    decide +kernel
  obtain ⟨htwo, hlength⟩ := htwo a ha p (Priority.mem_scanOrder p) hin
  obtain ⟨n, k, hn, -, hneeds, hbegan⟩ := hgets ⟨2, htwo, by decide +kernel⟩
  exact ⟨hback, n, k, by rw [← hlength]; exact hn, hneeds, hbegan⟩

def concealing : List (Move Bool Unit Unit) :=
  [.call .newGroup, .record true true false, .record false true false, .call (.addJob 0 .normal .any),
    .call (.spawn false (some 0) .normal .any), .work 0, .work 0, .work 0,
      .call (.addJob 1 .normal (.worker 0)),
    .work 0, .work 0, .stop]

/-- The only worker turns job 1 for ever, the job that would free the extended fiber waits
behind it, and the system never stops. -/
theorem pinned_job_conceals_shared_one :
    let s := play smallBody solitary concealing
    PutsBack smallBody s 0 1 ∧ s.hub.needsExtended 1 = true ∧
      1 ∈ (s.hub.lanes.tier (.worker 0) .normal).jobs ∧
      2 ∈ (s.hub.lanes.tier .any .normal).jobs ∧ .any ∈ s.hub.crew.sources 0 ∧ s.hub.needsExtended 2 = false ∧
      (s.tierJobs 0 .normal).length = 2 ∧ s.hub.parked = [3] ∧ s.hub.stopping = true ∧ s.workers.size = 1 ∧
      ∀ n, history smallBody (move smallBody s (.work 0)) (rounds 0 n) = [] := by
  intro s
  have hback : PutsBack smallBody s 0 1 :=
    ⟨⟨⟨.running, some 2, none, false, .normal, .any, none⟩, 2, .normal, .worker 0,
      ⟨by decide +kernel, by decide +kernel, rfl, rfl, Option.isNone_iff_eq_none.mp (by decide +kernel)⟩, rfl,
      by decide +kernel⟩, by decide +kernel⟩
  refine ⟨hback, by decide +kernel, by decide +kernel, by decide +kernel, by decide +kernel,
    by decide +kernel, by decide +kernel, by decide +kernel, by decide +kernel, by decide +kernel, ?_⟩
  have hsound : s.Sound := sound_play smallBody (new_of_ok new_solitary).sound concealing
  obtain ⟨p, a, rest, hqueue, ⟨before, after, hscan, -⟩, hrotates, hjobs⟩ := hsound.rotates hback
  have ha : a ∈ s.hub.crew.sources 0 := Lanes.mem_sources_of_scanned hscan
  have honly : ∀ a ∈ s.hub.crew.sources 0, ∀ p ∈ Priority.scanOrder, 1 ∈ (s.hub.lanes.tier a p).jobs →
      (s.hub.lanes.tier a p).jobs = [1] := by
    decide +kernel
  have hone := honly a ha p (Priority.mem_scanOrder p) (by rw [hqueue]; exact List.mem_cons_self)
  obtain ⟨-, rfl⟩ := List.cons.inj (hqueue.symm.trans hone)
  intro n
  apply hrotates.forever (sound_move smallBody hsound (.work 0)) (by simp)
  intro k hk
  obtain rfl := List.mem_singleton.mp hk
  rw [needsExtended_congr hjobs]
  decide +kernel

end FiberScheduler.System
