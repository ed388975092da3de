import FiberScheduler.Proofs.Fresh
import FiberScheduler.Proofs.Rollback
import FiberScheduler.Proofs.Tiers

/-!
# Traffic

What is asked of the queues of a hub, one request after the other, and the history that
the requests leave: what was queued, what was fetched, what has finished.
-/

namespace FiberScheduler

open Act

variable {ρ κ : Type}

inductive Queue where
  | ready (priority : Priority) (affinity : Affinity)
  | jobs (priority : Priority) (affinity : Affinity)
  deriving DecidableEq, Repr

namespace Work

def priority : Work → Priority
  | .fiber ready => ready.priority
  | .job _ p _ => p

def affinity : Work → Affinity
  | .fiber ready => ready.affinity
  | .job _ _ a => a

def queue : Work → Queue
  | .fiber ready => .ready ready.priority ready.affinity
  | .job _ p a => .jobs p a

end Work

def Lanes.contents (ls : Lanes) : Queue → List Work
  | .ready p a => (ls.tier a p).ready.map .fiber
  | .jobs p a => (ls.tier a p).jobs.map (.job · p a)

namespace Lanes

variable {ls ls' : Lanes} {job : Nat} {p : Priority} {a : Affinity} {ready : Ready} {work : Work}
  {sources : List Affinity}

theorem contents_pushJob (h : ls.pushJob job p a = .ok ls') (q : Queue) :
    ls'.contents q = ls.contents q ++ if (Work.job job p a).queue = q then [.job job p a] else [] := by
  cases q with
  | ready q b => simp [contents, tier_pushJob h, Work.queue]
  | jobs q b =>
    rw [contents, tier_pushJob h]
    by_cases hb : a = b ∧ p = q
    · obtain ⟨rfl, rfl⟩ := hb
      simp [contents, Work.queue]
    · have hb' : ¬(p = q ∧ a = b) := fun h => hb h.symm
      simp [contents, Work.queue, hb, hb']

theorem has_of_pushReady (h : ls.pushReady ready = .ok ls') : ls.Has ready.affinity := by
  unfold pushReady at h
  cases hc : ls.check ready.affinity with
  | ok _ => exact hc
  | error fault => rw [hc] at h; cases h

theorem contents_pushReady (h : ls.pushReady ready = .ok ls') (q : Queue) :
    ls'.contents q = ls.contents q ++ if (Work.fiber ready).queue = q then [.fiber ready] else [] := by
  have htier := tier_pushReady (has_of_pushReady h) h
  cases q with
  | ready q b =>
    rw [contents, htier]
    by_cases hb : ready.affinity = b ∧ ready.priority = q
    · obtain ⟨rfl, rfl⟩ := hb
      simp [contents, Work.queue]
    · have hb' : ¬(ready.priority = q ∧ ready.affinity = b) := fun h => hb h.symm
      simp [contents, Work.queue, hb, hb']
  | jobs q b => simp [contents, htier, Work.queue]

/-- Whether what waits in a queue is there on its own terms. -/
def Filed (ls : Lanes) : Prop :=
  ∀ q, ∀ work ∈ ls.contents q, work.queue = q

theorem tier_empty (workers : Nat) (a : Affinity) (p : Priority) :
    (Lanes.empty workers).tier a p = .empty := by
  cases a with
  | worker i =>
    unfold tier lane? Lanes.empty
    dsimp only
    rw [Array.getElem?_replicate]
    by_cases hi : i < workers
    · rw [if_pos hi]
      cases p <;> rfl
    · rw [if_neg hi]
  | _ => cases p <;> rfl

theorem contents_empty (workers : Nat) (q : Queue) : (Lanes.empty workers).contents q = [] := by
  cases q with
  | ready p a => rw [contents, tier_empty]; rfl
  | jobs p a => rw [contents, tier_empty]; rfl

theorem contents_take (hf : ls.Filed) (h : ls.take sources = some (work, ls')) :
    work.affinity ∈ sources ∧ ∀ q, ls.contents q =
      (if work.queue = q then [work] else []) ++ ls'.contents q := by
  cases work with
  | job job p a =>
    obtain ⟨hmem, htier, hothers⟩ := tier_take_job h
    refine ⟨hmem, fun q => ?_⟩
    cases q with
    | ready q b =>
      by_cases hb : b = a ∧ q = p
      · obtain ⟨rfl, rfl⟩ := hb
        simp [contents, htier, Work.queue]
      · simp [contents, hothers b q hb, Work.queue]
    | jobs q b =>
      by_cases hb : b = a ∧ q = p
      · obtain ⟨rfl, rfl⟩ := hb
        simp [contents, htier, Work.queue]
      · have hb' : ¬(p = q ∧ a = b) := fun h => hb ⟨h.2.symm, h.1.symm⟩
        simp [contents, hothers b q hb, Work.queue, hb']
  | fiber ready =>
    obtain ⟨a, p, hmem, htier, hothers⟩ := tier_take_fiber h
    -- A ready fiber is not fetched with the terms of its queue, but with its own.
    have hfiled : (Work.fiber ready).queue = .ready p a := hf (.ready p a) _ (by simp [contents, htier])
    obtain ⟨rfl, rfl⟩ : ready.priority = p ∧ ready.affinity = a := by simpa [Work.queue] using hfiled
    refine ⟨hmem, fun q => ?_⟩
    cases q with
    | ready q b =>
      by_cases hb : b = ready.affinity ∧ q = ready.priority
      · obtain ⟨rfl, rfl⟩ := hb
        simp [contents, htier, Work.queue]
      · have hb' : ¬(ready.priority = q ∧ ready.affinity = b) := fun h => hb ⟨h.2.symm, h.1.symm⟩
        simp [contents, hothers b q hb, Work.queue, hb']
    | jobs q b =>
      by_cases hb : b = ready.affinity ∧ q = ready.priority
      · obtain ⟨rfl, rfl⟩ := hb
        simp [contents, htier, Work.queue]
      · simp [contents, hothers b q hb, Work.queue]

theorem size_take (h : ls.take sources = some (work, ls')) : ls'.own.size = ls.own.size := by
  cases work with
  | job job p a => exact (take_job h).2.2.1
  | fiber ready => exact (take_fiber h).2.2

theorem take_eq_none_iff : ls.take sources = none ↔ ∀ a ∈ sources, ∀ p, ls.tier a p = .empty := by
  have hempty : ∀ t : Tier, t = .empty ↔ t.ready = [] ∧ t.jobs = [] :=
    fun ⟨ready, jobs⟩ => by simp [Tier.empty]
  simp only [take, List.findSome?_eq_none_iff, Option.or_eq_none_iff, takeReady_eq_none_iff,
    takeJob_eq_none_iff, hempty]
  constructor
  · intro h a ha p
    exact ⟨(h p (Priority.mem_scanOrder p)).1 a ha, (h p (Priority.mem_scanOrder p)).2 a ha⟩
  · intro h p _
    exact ⟨fun a ha => (h a ha p).1, fun a ha => (h a ha p).2⟩

end Lanes

inductive Request (κ : Type) where
  /-- Makes a record for a job, to be pushed later. -/
  | record (code : κ) (extended oneShot : Bool)
  | push (job : Nat) (priority : Priority) (affinity : Affinity)
  | requeue (job : Nat) (priority : Priority) (affinity : Affinity)
  | resume (ready : Ready)
  | fetch (worker : Nat)
  | finish
  | stop

inductive Event where
  | accepted (job : Nat) (priority : Priority) (affinity : Affinity)
  | requeued (job : Nat) (priority : Priority) (affinity : Affinity)
  | resumed (ready : Ready)
  | fetched (worker : Nat) (work : Work)
  | finished
  | stopped
  deriving DecidableEq, Repr

namespace Event

def isAcceptance : Event → Bool
  | .accepted .. => true
  | _ => false

def queued? : Event → Option Work
  | .accepted job p a => some (.job job p a)
  | .requeued job p a => some (.job job p a)
  | .resumed ready => some (.fiber ready)
  | _ => none

def fetched? : Event → Option Work
  | .fetched _ work => some work
  | _ => none

end Event

/-- Answers a request. What is refused and what finds nothing leaves no event. -/
def Hub.serve : Request κ → Act ρ (Hub κ) (Option Event)
  | .record code extended oneShot => do
    discard <| addRecord (.new code extended oneShot)
    return none
  | .push job p a => do
    match ← push job p a with
    | .ok () => return some (.accepted job p a)
    | .error _ => return none
  | .requeue job p a => do
    requeue job p a
    return some (.requeued job p a)
  | .resume ready => do
    pushReady ready
    return some (.resumed ready)
  | .fetch worker => return (← fetch worker).map (.fetched worker)
  | .finish => do
    jobFinished
    return some .finished
  | .stop => do
    beginStop
    return some .stopped

structure Traffic (κ : Type) where
  hub : Hub κ
  history : List Event

namespace Traffic

def serve (t : Traffic κ) (r : Request κ) : Traffic κ :=
  let o := (Hub.serve r : Act Unit (Hub κ) (Option Event)) t.hub
  match o.result with
  | .ok event => ⟨o.state, t.history ++ event.toList⟩
  | .error _ => ⟨o.state, t.history⟩

def run (t : Traffic κ) (requests : List (Request κ)) : Traffic κ :=
  requests.foldl serve t

def start (h : Hub κ) : Traffic κ :=
  ⟨h, []⟩

variable {t t' : Traffic κ} {r : Request κ} {requests : List (Request κ)} {h : Hub κ} {mode : Mode}
  {config : Config}

theorem run_append (t : Traffic κ) (earlier later : List (Request κ)) :
    t.run (earlier ++ later) = (t.run earlier).run later :=
  List.foldl_append

/-! ## One request -/

inductive Served (h : Hub κ) : Request κ → Option Event → Hub κ → Prop
  | nothing (r : Request κ) : Served h r none h
  | recorded (code : κ) (extended oneShot : Bool) :
      Served h (.record code extended oneShot) none
        { h with jobs := h.jobs.push (.new code extended oneShot) }
  | accepted {job : Nat} {p : Priority} {a : Affinity} {lanes : Lanes} (hserves : h.crew.serves a = true)
      (hopen : ¬(h.active = 0 ∧ h.stopping = true)) (hpush : h.lanes.pushJob job p a = .ok lanes) :
      Served h (.push job p a) (some (.accepted job p a))
        { h with lanes, active := h.active + 1, counters := h.counters.bump .submitted }
  | requeued {job : Nat} {p : Priority} {a : Affinity} {lanes : Lanes}
      (hpush : h.lanes.pushJob job p a = .ok lanes) :
      Served h (.requeue job p a) (some (.requeued job p a)) { h with lanes }
  | resumed {ready : Ready} {lanes : Lanes} (hpush : h.lanes.pushReady ready = .ok lanes) :
      Served h (.resume ready) (some (.resumed ready)) { h with lanes }
  | fetched {worker : Nat} {work : Work} {lanes : Lanes} (hworker : worker < h.crew.size)
      (htake : h.lanes.take (h.crew.sources worker) = some (work, lanes)) :
      Served h (.fetch worker) (some (.fetched worker work)) { h with lanes }
  | finished : Served h .finish (some .finished) { h with active := h.active - 1 }
  | stopped : Served h .stop (some .stopped) { h with stopping := true }

end Traffic

namespace Hub

variable {h : Hub κ} {job worker : Nat} {p : Priority} {a : Affinity} {ready : Ready}

theorem ends_requeue (job : Nat) (p : Priority) (a : Affinity) (Q : Except Fault Unit → Hub κ → Prop) :
    (requeue job p a : Act ρ (Hub κ) Unit).Ends h Q ↔
      match h.lanes.pushJob job p a with
      | .ok lanes => Q (.ok ()) { h with lanes }
      | .error fault => Q (.error fault) h := by
  simp only [requeue, ends_bind, ends_get, after_ok, ends_lift]
  cases h.lanes.pushJob job p a with
  | error fault => rw [after_error]
  | ok lanes => rw [after_ok, ends_modify]

theorem ends_pushReady (ready : Ready) (Q : Except Fault Unit → Hub κ → Prop) :
    (pushReady ready : Act ρ (Hub κ) Unit).Ends h Q ↔
      match h.lanes.pushReady ready with
      | .ok lanes => Q (.ok ()) { h with lanes }
      | .error fault => Q (.error fault) h := by
  simp only [pushReady, ends_bind, ends_get, after_ok, ends_lift]
  cases h.lanes.pushReady ready with
  | error fault => rw [after_error]
  | ok lanes => rw [after_ok, ends_modify]

theorem ends_fetch (worker : Nat) (Q : Except Fault (Option Work) → Hub κ → Prop) :
    (fetch worker : Act ρ (Hub κ) (Option Work)).Ends h Q ↔
      if worker < h.crew.size then
        match h.lanes.take (h.crew.sources worker) with
        | none => Q (.ok none) h
        | some (work, lanes) => Q (.ok (some work)) { h with lanes }
      else Q (.error (.outOfBounds h.crew.size worker)) h := by
  simp only [fetch, checkWorker, ends_bind, ends_get, after_ok, ends_ite]
  split
  · rw [ends_pure, after_ok, ends_bind, ends_get, after_ok]
    cases h.lanes.take (h.crew.sources worker) with
    | none => exact Iff.rfl
    | some taken => rw [ends_bind, ends_modify, after_ok, ends_pure]
  · rw [ends_fail, after_error]

end Hub

namespace Traffic

variable {t t' : Traffic κ} {r : Request κ} {requests : List (Request κ)} {h : Hub κ} {mode : Mode}
  {config : Config}

theorem ends_serve (hserved : h.Served) (r : Request κ) :
    (Hub.serve r : Act ρ (Hub κ) (Option Event)).Ends h fun result h' =>
    match result with
    | .ok event => Served h r event h'
    | .error _ => h' = h := by
  cases r with
  | record code extended oneShot =>
    rw [Hub.serve, ends_bind, ends_discard, Hub.ends_addRecord]
    split
    · exact .recorded code extended oneShot
    · rfl
  | push job p a =>
    rw [Hub.serve, ends_bind]
    refine (Hub.ends_push_decided hserved job p a).mono fun result h' hr => ?_
    cases hwhy : h.refusal? (h.needsExtended job) a with
    | some refusal =>
      rw [hwhy] at hr
      obtain ⟨rfl, rfl⟩ := hr
      exact .nothing _
    | none =>
      rw [hwhy] at hr
      obtain ⟨rfl, lanes, hpush, rfl⟩ := hr
      exact .accepted (Hub.refusal?_eq_none_iff.mp hwhy).1 (Hub.refusal?_eq_none_iff.mp hwhy).2.2 hpush
  | requeue job p a =>
    rw [Hub.serve, ends_bind, Hub.ends_requeue]
    cases hpush : h.lanes.pushJob job p a with
    | error fault => rfl
    | ok lanes => exact .requeued hpush
  | resume ready =>
    rw [Hub.serve, ends_bind, Hub.ends_pushReady]
    cases hpush : h.lanes.pushReady ready with
    | error fault => rfl
    | ok lanes => exact .resumed hpush
  | fetch worker =>
    rw [Hub.serve, ends_bind, Hub.ends_fetch]
    split
    · rename_i hworker
      cases htake : h.lanes.take (h.crew.sources worker) with
      | none => exact .nothing _
      | some taken => exact .fetched hworker htake
    · rfl
  | finish => exact .finished
  | stop => exact .stopped

theorem serve_of_gives {event : Option Event}
    (hgives : (Hub.serve r : Act Unit (Hub κ) (Option Event)).Gives t.hub event h) :
    t.serve r = ⟨h, t.history ++ event.toList⟩ := by
  unfold Gives Ends at hgives
  unfold serve
  generalize (Hub.serve r : Act Unit (Hub κ) (Option Event)) t.hub = o at hgives
  obtain ⟨result, h', log⟩ := o
  obtain ⟨rfl, rfl⟩ := hgives
  rfl

theorem serve_cases (hserved : t.hub.Served) (r : Request κ) :
    ∃ event, Served t.hub r event (t.serve r).hub ∧ (t.serve r).history = t.history ++ event.toList := by
  have hends := ends_serve (ρ := Unit) hserved r
  unfold Ends at hends
  unfold serve
  generalize (Hub.serve r : Act Unit (Hub κ) (Option Event)) t.hub = o at hends
  obtain ⟨fault | event, h', log⟩ := o
  · obtain rfl : h' = t.hub := hends
    exact ⟨none, .nothing r, (List.append_nil _).symm⟩
  · exact ⟨event, hends, rfl⟩

/-! ## A row of requests -/

structure Steady (h h' : Hub κ) : Prop where
  crew : h'.crew = h.crew
  extendedFibers : h'.extendedFibers = h.extendedFibers
  size : h'.lanes.own.size = h.lanes.own.size

theorem Steady.refl (h : Hub κ) : Steady h h :=
  ⟨rfl, rfl, rfl⟩

theorem Served.steady {event : Option Event} {h' : Hub κ} (hs : Served h r event h') : Steady h h' := by
  cases hs with
  | nothing | recorded | finished | stopped => exact ⟨rfl, rfl, rfl⟩
  | accepted _ _ hpush => exact ⟨rfl, rfl, (Lanes.pushJob_ok hpush).2.2⟩
  | requeued hpush => exact ⟨rfl, rfl, (Lanes.pushJob_ok hpush).2.2⟩
  | resumed hpush => exact ⟨rfl, rfl, (Lanes.pushReady_ok (Lanes.has_of_pushReady hpush) hpush).2.2⟩
  | fetched _ htake => exact ⟨rfl, rfl, Lanes.size_take htake⟩

theorem run_induction {I : Traffic κ → Prop}
    (requests : List (Request κ)) (hsize : t.hub.lanes.own.size = t.hub.crew.size) (hstart : I t)
    (hstep : ∀ u r event h', u.hub.Served → Served u.hub r event h' → r ∈ requests → I u →
      I ⟨h', u.history ++ event.toList⟩) :
    I (t.run requests) ∧ Steady t.hub (t.run requests).hub := by
  induction requests generalizing t with
  | nil => exact ⟨hstart, .refl _⟩
  | cons r requests ih =>
    have hserved := Hub.served_of_size hsize
    obtain ⟨event, hs, hhistory⟩ := serve_cases hserved r
    have hkept := hs.steady
    have hnext : t.serve r = ⟨(t.serve r).hub, t.history ++ event.toList⟩ := by rw [← hhistory]
    have hI : I (t.serve r) := hnext ▸ hstep t r event _ hserved hs List.mem_cons_self hstart
    obtain ⟨hI', hsteady⟩ := ih (t := t.serve r) (by rw [hkept.size, hkept.crew, hsize]) hI
      fun u r event h' hu hs hr => hstep u r event h' hu hs (List.mem_cons_of_mem _ hr)
    exact ⟨hI', hsteady.crew.trans hkept.crew, hsteady.extendedFibers.trans hkept.extendedFibers,
      hsteady.size.trans hkept.size⟩

theorem history_run (t : Traffic κ) (requests : List (Request κ)) :
    t.history <+: (t.run requests).history := by
  induction requests generalizing t with
  | nil => exact List.prefix_refl _
  | cons r requests ih =>
    refine List.IsPrefix.trans ?_ (ih (t.serve r))
    unfold serve
    dsimp only
    split
    · exact List.prefix_append _ _
    · exact List.prefix_refl _

section
variable (hsize : t.hub.lanes.own.size = t.hub.crew.size)
include hsize

theorem steady_run (requests : List (Request κ)) : Steady t.hub (t.run requests).hub :=
  (run_induction (I := fun _ => True) requests hsize trivial fun _ _ _ _ _ _ _ _ => trivial).2

theorem size_run (requests : List (Request κ)) :
    (t.run requests).hub.lanes.own.size = (t.run requests).hub.crew.size := by
  rw [(steady_run hsize requests).size, (steady_run hsize requests).crew, hsize]

end

theorem size_of_new (hnew : Hub.new mode config = .ok h) : h.lanes.own.size = h.crew.size := by
  obtain ⟨fibers, -, hempty⟩ := Hub.empty_of_new hnew
  rw [hempty.lanes, hempty.crew]
  exact Array.size_replicate

/-! ## A small hub -/

def mixedConfig : Config :=
  { System.smallConfig with backgroundWorkerCount := 1, extendedFiberCount := 1 }

def mixedHub : Hub Unit :=
  (Hub.new .strict mixedConfig).toOption.get (by decide +kernel)

theorem new_mixedHub : Hub.new .strict mixedConfig = .ok mixedHub :=
  eq_of_toOption _

end Traffic

end FiberScheduler
