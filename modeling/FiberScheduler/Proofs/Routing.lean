import FiberScheduler.Proofs.Traffic

/-!
# Routing

Work goes into the queue of its terms, at the end, and is fetched from the front of it, by
a worker that may run it. So what was queued on some terms is what was fetched of that,
followed by what still waits, and every queue in use is one that some worker looks into.
-/

namespace FiberScheduler

open Act

variable {ρ κ : Type}

def Request.affinity? : Request κ → Option Affinity
  | .requeue _ _ a => some a
  | .resume ready => some ready.affinity
  | _ => none

namespace Traffic

def arrivals (history : List Event) : List Work :=
  history.filterMap Event.queued?

def departures (history : List Event) : List Work :=
  history.filterMap Event.fetched?

def scan (h : Hub κ) (worker n : Nat) : Traffic κ :=
  (start h).run (List.replicate n (.fetch worker))

/-- Whether a worker gets this work if it fetches often enough. -/
def Visible (h : Hub κ) (worker : Nat) (work : Work) : Prop :=
  ∃ n, .fetched worker work ∈ (scan h worker n).history

@[simp] theorem arrivals_snoc (history : List Event) (e : Event) :
    arrivals (history ++ [e]) = arrivals history ++ e.queued?.toList := by
  rw [arrivals, List.filterMap_append, arrivals]
  cases hwork : e.queued? <;> simp [hwork]

@[simp] theorem departures_snoc (history : List Event) (e : Event) :
    departures (history ++ [e]) = departures history ++ e.fetched?.toList := by
  rw [departures, List.filterMap_append, departures]
  cases hwork : e.fetched? <;> simp [hwork]

variable {t u : Traffic κ} {r : Request κ} {event : Option Event} {h h' : Hub κ}
  {requests : List (Request κ)} {ls : Lanes} {worker : Nat} {work : Work} {mode : Mode} {config : Config}

/-! ## Conservation -/

/-- What was in a queue of the lanes at first and what was queued since is what was fetched
since and what is in the queue now. -/
def Conserved (ls : Lanes) (t : Traffic κ) : Prop :=
  ∀ q, ls.contents q ++ (arrivals t.history).filter (·.queue = q) =
    (departures t.history).filter (·.queue = q) ++ t.hub.lanes.contents q

theorem Conserved.filed (hc : Conserved ls t) (hf : ls.Filed) : t.hub.lanes.Filed := by
  intro q work hw
  have hmem : work ∈ ls.contents q ++ (arrivals t.history).filter (·.queue = q) := by
    rw [hc q]
    exact List.mem_append_right _ hw
  rcases List.mem_append.mp hmem with hw | hw
  · exact hf q work hw
  · exact of_decide_eq_true (List.mem_filter.mp hw).2

theorem Conserved.of_same (hc : Conserved ls u) (hlanes : h'.lanes = u.hub.lanes)
    (hevent : ∀ e ∈ event, e.queued? = none ∧ e.fetched? = none) :
      Conserved ls ⟨h', u.history ++ event.toList⟩ := by
  intro q
  cases event with
  | none => simpa [hlanes] using hc q
  | some e =>
    obtain ⟨hqueued, hfetched⟩ := hevent e rfl
    simpa [hlanes, hqueued, hfetched] using hc q

theorem Conserved.arrived (hc : Conserved ls u) {e : Event} (hqueued : e.queued? = some work)
    (hfetched : e.fetched? = none)
    (hcontents : ∀ q, h'.lanes.contents q = u.hub.lanes.contents q ++ if work.queue = q then [work] else []) :
    Conserved ls ⟨h', u.history ++ [e]⟩ := by
  intro q
  have hwork :
      [work].filter (·.queue = q) = if work.queue = q then [work] else [] := by simp [List.filter_cons]
  dsimp only
  rw [arrivals_snoc, departures_snoc, hqueued, hfetched, Option.toList_some, Option.toList_none,
    List.append_nil, hcontents, List.filter_append, hwork, ← List.append_assoc, hc q, List.append_assoc]

theorem Conserved.departed (hc : Conserved ls u) {e : Event} (hqueued : e.queued? = none)
    (hfetched : e.fetched? = some work)
    (hcontents : ∀ q, u.hub.lanes.contents q =
      (if work.queue = q then [work] else []) ++ h'.lanes.contents q) :
    Conserved ls ⟨h', u.history ++ [e]⟩ := by
  intro q
  have hwork :
      [work].filter (·.queue = q) = if work.queue = q then [work] else [] := by simp [List.filter_cons]
  dsimp only
  rw [arrivals_snoc, departures_snoc, hqueued, hfetched, Option.toList_some, Option.toList_none,
    List.append_nil, hc q, hcontents q, List.filter_append, hwork, List.append_assoc]

theorem Served.conserved (hs : Served u.hub r event h') (hf : ls.Filed) (hc : Conserved ls u) :
    Conserved ls ⟨h', u.history ++ event.toList⟩ := by
  cases hs with
  | nothing | recorded => exact hc.of_same rfl fun _ he => by cases he
  | finished | stopped => exact hc.of_same rfl fun _ he => by cases he; exact ⟨rfl, rfl⟩
  | accepted _ _ hpush => exact hc.arrived rfl rfl (Lanes.contents_pushJob hpush)
  | requeued hpush => exact hc.arrived rfl rfl (Lanes.contents_pushJob hpush)
  | resumed hpush => exact hc.arrived rfl rfl (Lanes.contents_pushReady hpush)
  | fetched _ htake => exact hc.departed rfl rfl (Lanes.contents_take (hc.filed hf) htake).2

theorem conserved_start (h : Hub κ) : Conserved h.lanes (start h) := by
  intro q
  simp [start, arrivals, departures]

theorem Conserved.count_eq (hc : Conserved ls t) (work : Work) :
    (departures t.history).count work + (t.hub.lanes.contents work.queue).count work =
      (ls.contents work.queue).count work + (arrivals t.history).count work := by
  have hcount := congrArg (List.count work) (hc work.queue)
  rw [List.count_append, List.count_append, List.count_filter (by simp),
    List.count_filter (by simp)] at hcount
  exact hcount.symm

/-! ## Who fetches -/

def Routed (crew : Crew) (history : List Event) : Prop :=
  ∀ worker work, .fetched worker work ∈ history → worker < crew.size ∧ crew.canRun worker work.affinity = true

theorem Served.routed {crew : Crew} (hs : Served u.hub r event h') (hcrew : u.hub.crew = crew)
    (hf : u.hub.lanes.Filed) (hr : Routed crew u.history) : Routed crew (u.history ++ event.toList) := by
  intro worker work hmem
  rcases List.mem_append.mp hmem with hmem | hmem
  · exact hr worker work hmem
  · cases hs with
    | fetched hworker htake =>
      rw [Option.toList_some, List.mem_singleton] at hmem
      cases hmem
      rw [← hcrew]
      exact ⟨hworker, Crew.mem_sources_iff.mp (Lanes.contents_take hf htake).1⟩
    | nothing | recorded | accepted | requeued | resumed | finished | stopped => simp at hmem

def Accepted (crew : Crew) (history : List Event) : Prop :=
  ∀ work ∈ arrivals history, crew.serves work.affinity = true

theorem Served.accepting {crew : Crew} (hs : Served u.hub r event h') (hcrew : u.hub.crew = crew)
    (hrequest : ∀ a ∈ r.affinity?, crew.serves a = true) (ha : Accepted crew u.history) :
    Accepted crew (u.history ++ event.toList) := by
  have hstays : (∀ e ∈ event, e.queued? = none) → Accepted crew (u.history ++ event.toList) := by
    cases event with
    | none => exact fun _ => by simpa using ha
    | some e => exact fun hnone => by simpa [Accepted, hnone e rfl] using ha
  have harrives : ∀ {e : Event} {work : Work}, e.queued? = some work → crew.serves work.affinity = true →
      Accepted crew (u.history ++ [e]) := by
    intro e work hqueued hserves other hmem
    rw [arrivals_snoc, hqueued] at hmem
    rcases List.mem_append.mp hmem with hmem | hmem
    · exact ha other hmem
    · rw [List.mem_singleton.mp hmem]
      exact hserves
  cases hs with
  | nothing | recorded => exact hstays fun _ he => by cases he
  | fetched | finished | stopped => exact hstays fun _ he => by cases he; rfl
  | accepted hserves _ _ => exact harrives rfl (hcrew ▸ hserves)
  | requeued | resumed => exact harrives rfl (hrequest _ rfl)

/-! ## A row of requests -/

structure InOrder (h : Hub κ) (t : Traffic κ) : Prop where
  crew : t.hub.crew = h.crew
  size : t.hub.lanes.own.size = t.hub.crew.size
  conserved : Conserved h.lanes t
  filed : t.hub.lanes.Filed
  routed : Routed h.crew t.history
  accepted : Accepted h.crew t.history

theorem inOrder_run (hsize : h.lanes.own.size = h.crew.size) (hf : h.lanes.Filed)
    (hserved : ∀ r ∈ requests, ∀ a ∈ r.affinity?, h.crew.serves a = true) :
      InOrder h ((start h).run requests) := by
  have hstart : InOrder h (start h) :=
    ⟨rfl, hsize, conserved_start h, hf, fun _ _ hmem => (nomatch hmem), fun _ hmem => (nomatch hmem)⟩
  refine (run_induction (I := InOrder h) requests hsize hstart fun u r event h' _ hs hr hu => ?_).1
  have hconserved := hs.conserved hf hu.conserved
  exact ⟨hs.steady.crew.trans hu.crew, by rw [hs.steady.size, hs.steady.crew, hu.size], hconserved,
    hconserved.filed hf, hs.routed hu.crew hu.filed hu.routed,
      hs.accepting hu.crew (hserved r hr) hu.accepted⟩

/-! ## Fetching on and on -/

def load (h : Hub κ) : Nat :=
  h.lanes.queued.length + h.lanes.readied.length

theorem load_of_take {lanes : Lanes} {sources : List Affinity}
    (htake : h.lanes.take sources = some (work, lanes)) :
    load h = load { h with lanes } + 1 := by
  show h.lanes.queued.length + h.lanes.readied.length = lanes.queued.length + lanes.readied.length + 1
  cases work with
  | job job p a =>
    obtain ⟨hqueued, hreadied, -⟩ := Lanes.take_job htake
    rw [hqueued.length_eq, hreadied, List.length_cons]
    omega
  | fiber ready =>
    obtain ⟨hreadied, hqueued, -⟩ := Lanes.take_fiber htake
    rw [hreadied.length_eq, hqueued, List.length_cons]
    omega

theorem serve_fetch {lanes : Lanes} (hworker : worker < t.hub.crew.size)
    (htake : t.hub.lanes.take (t.hub.crew.sources worker) = some (work, lanes)) :
    t.serve (.fetch worker) = ⟨{ t.hub with lanes }, t.history ++ [.fetched worker work]⟩ := by
  have hgives :
      (Hub.serve (.fetch worker) : Act Unit (Hub κ) (Option Event)).Gives t.hub (some (.fetched worker work))
        { t.hub with lanes } := by
    unfold Gives
    rw [Hub.serve, ends_bind, Hub.ends_fetch, if_pos hworker, htake]
    exact ⟨rfl, rfl⟩
  rw [serve_of_gives hgives]
  rfl

/-- A worker that goes on fetching comes to the point where there is nothing for it. -/
theorem exists_take_eq_none (hworker : worker < t.hub.crew.size) :
    ∃ n, (t.run (List.replicate n (.fetch worker))).hub.lanes.take (t.hub.crew.sources worker) = none := by
  induction hload : load t.hub generalizing t with
  | zero =>
    refine ⟨0, ?_⟩
    cases htake : t.hub.lanes.take (t.hub.crew.sources worker) with
    | none => exact htake
    | some taken =>
      obtain ⟨work, lanes⟩ := taken
      have := load_of_take htake
      omega
  | succ k ih =>
    cases htake : t.hub.lanes.take (t.hub.crew.sources worker) with
    | none => exact ⟨0, htake⟩
    | some taken =>
      obtain ⟨work, lanes⟩ := taken
      have hless := load_of_take htake
      have hnext := serve_fetch hworker htake
      obtain ⟨n, hn⟩ := ih (t := t.serve (.fetch worker)) (by rw [hnext]; exact hworker)
        (by rw [hnext]; dsimp only; omega)
      refine ⟨n + 1, ?_⟩
      rw [List.replicate_succ, run, List.foldl_cons, ← run]
      rwa [hnext] at hn ⊢

theorem scan_history (worker : Nat) (hsize : h.lanes.own.size = h.crew.size) (n : Nat) :
    (∀ i work, .fetched i work ∈ (scan h worker n).history → i = worker) ∧
      arrivals (scan h worker n).history = [] := by
  refine (run_induction (t := start h)
    (I := fun u => (∀ i work, .fetched i work ∈ u.history → i = worker) ∧ arrivals u.history = [])
    (List.replicate n (.fetch worker)) hsize
    ⟨fun _ _ hmem => (nomatch hmem), rfl⟩ ?_).1
  rintro u r event h' - hs hr ⟨hfetched, hqueued⟩
  obtain rfl := List.eq_of_mem_replicate hr
  cases hs with
  | nothing => simpa using ⟨hfetched, hqueued⟩
  | fetched =>
    refine ⟨fun i work hmem => ?_, ?_⟩
    · rcases List.mem_append.mp hmem with hmem | hmem
      · exact hfetched i work hmem
      · simp at hmem
        exact hmem.1
    · simpa [Event.queued?] using hqueued

theorem visible_iff (hsize : h.lanes.own.size = h.crew.size) (hf : h.lanes.Filed)
    (hworker : worker < h.crew.size) (hmem : work ∈ h.lanes.contents work.queue) :
    Visible h worker work ↔ h.crew.canRun worker work.affinity = true := by
  have hscan : ∀ n, InOrder h (scan h worker n) := fun n =>
    inOrder_run hsize hf fun r hr a ha => by
      rw [List.eq_of_mem_replicate hr] at ha
      cases ha
  constructor
  · rintro ⟨n, hn⟩
    exact ((hscan n).routed worker work hn).2
  · intro hcan
    obtain ⟨n, hnone⟩ := exists_take_eq_none (t := start h) hworker
    have hempty := Lanes.take_eq_none_iff.mp hnone work.affinity (Crew.mem_sources_iff.mpr hcan)
    have hgone : (scan h worker n).hub.lanes.contents work.queue = [] := by
      unfold scan
      cases work with
      | fiber ready => exact congrArg (fun tier : Tier => tier.ready.map Work.fiber) (hempty ready.priority)
      | job job p a => exact congrArg (fun tier : Tier => tier.jobs.map (Work.job · p a)) (hempty p)
    -- Nothing came to the queue in the meantime, so what was there has been fetched.
    obtain ⟨hone, hnothing⟩ := scan_history worker hsize n
    have hcount := (hscan n).conserved.count_eq work
    have hpos := List.count_pos_iff.mpr hmem
    have hfetched : work ∈ departures (scan h worker n).history := by
      refine List.count_pos_iff.mp ?_
      rw [hgone, hnothing] at hcount
      simp at hcount
      omega
    obtain ⟨e, he, hwork⟩ := List.mem_filterMap.mp hfetched
    cases e with
    | fetched i work' =>
      obtain rfl : work' = work := Option.some.inj hwork
      obtain rfl := hone i work' he
      exact ⟨n, he⟩
    | _ => cases hwork

/-! ## Every queue in use is scanned, and nothing is lost -/

theorem empty_of_new (hnew : Hub.new mode config = .ok h) (q : Queue) : h.lanes.contents q = [] := by
  obtain ⟨fibers, -, hempty⟩ := Hub.empty_of_new hnew
  rw [hempty.lanes]
  exact Lanes.contents_empty _ q

theorem InOrder.served (ho : InOrder h t) : t.hub.Served :=
  Hub.served_of_size ho.size

theorem InOrder.serves_of_mem (ho : InOrder h t) (hempty : ∀ q, h.lanes.contents q = []) {q : Queue}
    (hmem : work ∈ t.hub.lanes.contents q) : h.crew.serves work.affinity = true := by
  have hqueued : work ∈ h.lanes.contents q ++ (arrivals t.history).filter (·.queue = q) := by
    rw [ho.conserved q]
    exact List.mem_append_right _ hmem
  rw [hempty q, List.nil_append] at hqueued
  exact ho.accepted work (List.mem_filter.mp hqueued).1

theorem InOrder.ends_push (ho : InOrder h t) (job : Nat) (p : Priority) (a : Affinity) :
    (Hub.push job p a : Act ρ (Hub κ) (Except Refusal Unit)).Ends t.hub fun result _ =>
      ∃ answer, result = .ok answer ∧
      (answer = .error (.unknownAffinity a) ↔ ¬∃ worker < h.crew.size, a ∈ h.crew.sources worker) ∧
      (answer = .ok () ↔ (∃ worker < h.crew.size, a ∈ h.crew.sources worker) ∧
        (t.hub.needsExtended job = true → t.hub.extendedFibers = true) ∧
          ¬(t.hub.active = 0 ∧ t.hub.stopping = true)) := by
  refine (Hub.ends_push_decided ho.served job p a).mono fun result h' hr => ?_
  rw [← Crew.serves_iff, ← ho.crew, ← Hub.refusal?_eq_none_iff]
  cases hwhy : t.hub.refusal? (t.hub.needsExtended job) a with
  | none =>
    rw [hwhy] at hr
    have hserves := (Hub.refusal?_eq_none_iff.mp hwhy).1
    exact ⟨.ok (), hr.1, by simp [hserves], by simp⟩
  | some refusal =>
    rw [hwhy] at hr
    refine ⟨.error refusal, hr.1, ?_, by simp⟩
    rw [← Hub.refusal?_eq_unknownAffinity_iff, hwhy]
    simp

theorem work_is_routed_and_kept (hnew : Hub.new mode config = .ok h) (requests : List (Request κ))
    (hserved : ∀ r ∈ requests, ∀ a ∈ r.affinity?, h.crew.serves a = true) :
    let t := (start h).run requests
    (∀ q, (arrivals t.history).filter (·.queue = q) =
      (departures t.history).filter (·.queue = q) ++ t.hub.lanes.contents q) ∧
    (∀ work, (departures t.history).count work + (t.hub.lanes.contents work.queue).count work =
      (arrivals t.history).count work) ∧
    (∀ worker work, .fetched worker work ∈ t.history → worker < h.crew.size ∧
      h.crew.canRun worker work.affinity = true) ∧
    (∀ q, ∀ work ∈ t.hub.lanes.contents q, work.queue = q ∧
      (∀ worker < h.crew.size, Visible t.hub worker work ↔ h.crew.canRun worker work.affinity = true) ∧
      ∃ worker < h.crew.size, work.affinity ∈ h.crew.sources worker ∧ Visible t.hub worker work) ∧
    (∀ job p a, (Hub.push job p a : Act ρ (Hub κ) (Except Refusal Unit)).Ends t.hub fun result _ =>
      ∃ answer, result = .ok answer ∧
        (answer = .error (.unknownAffinity a) ↔ ¬∃ worker < h.crew.size, a ∈ h.crew.sources worker) ∧
        (answer = .ok () ↔ (∃ worker < h.crew.size, a ∈ h.crew.sources worker) ∧
          (t.hub.needsExtended job = true → t.hub.extendedFibers = true) ∧
            ¬(t.hub.active = 0 ∧ t.hub.stopping = true))) ∧
    (∀ job p a, h.crew.serves a = true →
      (Hub.requeue job p a : Act ρ (Hub κ) Unit).Ends t.hub fun result _ => result = .ok ()) ∧
    (∀ ready, h.crew.serves ready.affinity = true →
      (Hub.pushReady ready : Act ρ (Hub κ) Unit).Ends t.hub fun result _ => result = .ok ()) ∧
    ∀ worker < h.crew.size, (Hub.fetch worker : Act ρ (Hub κ) (Option Work)).Ends t.hub fun result _ =>
      ∃ work?, result = .ok work? := by
  intro t
  have hempty := empty_of_new hnew
  have ho : InOrder h t := inOrder_run (size_of_new hnew)
    (fun q work hmem => by rw [hempty] at hmem; cases hmem) hserved
  refine ⟨fun q => ?_, fun work => ?_, ho.routed, fun q work hmem => ?_, ho.ends_push, fun job p a ha => ?_,
    fun ready ha => ?_, fun worker hworker => ?_⟩
  · rw [← ho.conserved q, hempty, List.nil_append]
  · rw [ho.conserved.count_eq, hempty, List.count_nil, Nat.zero_add]
  · obtain rfl := ho.filed q work hmem
    have hvisible : ∀ worker < h.crew.size, Visible t.hub worker work ↔
        h.crew.canRun worker work.affinity = true := by
      rw [← ho.crew]
      exact fun worker hworker => visible_iff ho.size ho.filed hworker hmem
    obtain ⟨worker, hworker, hscans⟩ := Crew.serves_iff.mp (ho.serves_of_mem hempty hmem)
    exact ⟨rfl, hvisible, worker, hworker, hscans,
      (hvisible worker hworker).mpr (Crew.mem_sources_iff.mp hscans)⟩
  · rw [← ho.crew] at ha
    rw [Hub.ends_requeue, Lanes.pushJob_of_has (ho.served a ha)]
  · rw [← ho.crew] at ha
    rw [Hub.ends_pushReady, Lanes.pushReady_of_has (ho.served _ ha)]
  · rw [← ho.crew] at hworker
    rw [Hub.ends_fetch, if_pos hworker]
    cases t.hub.lanes.take (t.hub.crew.sources worker) with
    | none => exact ⟨none, rfl⟩
    | some taken => exact ⟨some taken.1, rfl⟩

def mixed : List (Request Unit) :=
  [.record () false false, .push 0 .low .background, .push 0 .normal (.worker 5), .push 0 .high (.worker 0),
    .resume ⟨0, .high, .foreground⟩, .fetch 1, .fetch 0, .requeue 0 .low .any]

theorem mixed_work_waits_for_its_workers :
    let t := (start mixedHub).run mixed
    departures t.history = [.job 0 .low .background, .fiber ⟨0, .high, .foreground⟩] ∧
      t.hub.lanes.contents (.jobs .high (.worker 0)) = [.job 0 .high (.worker 0)] ∧
      (Visible t.hub 0 (.job 0 .high (.worker 0)) ∧ ¬Visible t.hub 1 (.job 0 .high (.worker 0))) ∧
      (Visible t.hub 0 (.job 0 .low .any) ∧ Visible t.hub 1 (.job 0 .low .any)) ∧
      (Hub.push 0 .normal (.worker 5) : Act Unit (Hub Unit) (Except Refusal Unit)).Ends t.hub fun result _ =>
        result = .ok (.error (.unknownAffinity (.worker 5))) := by
  obtain ⟨hkept, -, -, hwaits, hpush, -⟩ :=
    work_is_routed_and_kept (ρ := Unit) new_mixedHub mixed (by decide +kernel)
  have hown : Work.job 0 .high (.worker 0) ∈ ((start mixedHub).run mixed).hub.lanes.contents
      (.jobs .high (.worker 0)) := by
    decide +kernel
  have hany : Work.job 0 .low .any ∈ ((start mixedHub).run mixed).hub.lanes.contents (.jobs .low .any) := by
    decide +kernel
  obtain ⟨-, hown, -⟩ := hwaits _ _ hown
  obtain ⟨-, hany, -⟩ := hwaits _ _ hany
  refine ⟨by decide +kernel, by decide +kernel, ⟨(hown 0 (by decide +kernel)).mpr (by decide +kernel), ?_⟩,
    ⟨(hany 0 (by decide +kernel)).mpr (by decide +kernel),
      (hany 1 (by decide +kernel)).mpr (by decide +kernel)⟩, ?_⟩
  · exact fun hv => absurd ((hown 1 (by decide +kernel)).mp hv) (by decide +kernel)
  · refine (hpush 0 .normal (.worker 5)).mono fun result _ hr => ?_
    obtain ⟨answer, rfl, hunknown, -⟩ := hr
    rw [hunknown.mpr (by decide +kernel)]

end Traffic

end FiberScheduler
