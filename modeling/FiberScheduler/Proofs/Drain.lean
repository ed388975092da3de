import FiberScheduler.Proofs.Courses
import FiberScheduler.Proofs.Fresh

/-!
# Draining

A worker leaves only when the system is stopping and nothing is pending. A system whose
workers have all left has finished all that it accepted, and accepts nothing any more.
-/

namespace FiberScheduler.System

open Act

variable {κ μ ρ σ : Type} {body : κ → Program κ μ ρ Unit} {s s' : System κ μ ρ} {worker : Nat}
  {ds es : List (Deed κ μ ρ)}

/-! ## Leaving -/

/-- A worker leaves once nothing is pending. -/
theorem Turn.leaves (h : s.Sound) (ht : Turn body s worker s' ds) (hbefore : s.stageOf worker ≠ some .left)
    (hafter : s'.stageOf worker = some .left) : s.hub.stopping = true ∧ s.pending = [] := by
  have hset : ∀ {w new : Worker}, s.workers[worker]? = some w →
    s'.workers = s.workers.setIfInBounds worker new → new.stage ≠ .left →
      s.hub.stopping = true ∧ s.pending = [] := fun hw hworkers hne => by
    unfold stageOf at hafter
    rw [hworkers, stageOf_setWorker hw, if_pos rfl] at hafter
    exact absurd (Option.some.inj hafter) hne
  cases ht with
  | rest | exhausted | ended => exact absurd hafter hbefore
  | went hon hjob hcalled =>
    refine absurd ?_ hbefore
    rw [← hafter, hcalled.rest]
    rfl
  | started hw => exact hset hw rfl (by simp)
  | died hon => exact hset hon.here rfl (by simp)
  | parked hon | passed hon | returned hon | resumed hon => exact hset hon.here rfl (by simp [hon.stage])
  | began hon hrec hway =>
    refine hset hon.here rfl ?_
    rcases hway with ⟨-, rfl, -⟩ | ⟨p, a, -, -, rfl, -⟩ <;> simp [hon.stage]
  | left hon hno hidle hexit =>
    obtain ⟨hstopping, hactive⟩ : s.hub.stopping = true ∧ s.hub.active = 0 := by
      simpa [Hub.shouldExit] using hexit
    exact ⟨hstopping, (h.idle_of_active hactive).1⟩

/-! ## Courses of a whole run -/

theorem courses_move (h : s.Sound) (hc : Courses body s ds) (m : Move κ μ ρ)
    (halive : (move body s m).deaths = []) :
    Courses body (move body s m) (ds ++ deeds s (move body s m) m) := by
  rcases called_move body h m with ⟨worker, rfl⟩ | rfl | ⟨queued, hcalled, hds⟩
  · exact (turn_of_sound h body worker).courses h hc halive
  · exact hc.of_same rfl (fun _ => rfl) rfl fun _ => rfl
  · rw [hds]
    exact hc.called h hcalled

theorem alive_move (h : s.Sound) (m : Move κ μ ρ) (halive : (move body s m).deaths = []) : s.deaths = [] := by
  rcases called_move body h m with ⟨worker, rfl⟩ | rfl | ⟨queued, hcalled, -⟩
  · exact (turn_of_sound h body worker).alive halive
  · exact halive
  · rw [show s.deaths = _ from congrArg (gather _) (congrArg System.workers hcalled.rest).symm]
    exact halive

theorem New.courses (h : New s) : Courses body s [] where
  known := fun job record hrec => by
    rw [h.hub.jobs] at hrec
    cases hrec
  unknown := fun _ _ => rfl

theorem New.courses_play (h : New s) (moves : List (Move κ μ ρ)) (halive : (play body s moves).deaths = []) :
    Courses body (play body s moves) (history body s moves) :=
  (play_induction (P := fun _ _ => True) (I := fun s ds => s.Sound ∧ (s.deaths = [] → Courses body s ds))
    (fun _ _ m _ h => ⟨sound_move body h.1 m, fun hd => courses_move h.1 (h.2 (alive_move h.1 m hd)) m hd⟩)
    (fun _ _ _ _ => trivial) ⟨h.sound, fun _ => h.courses⟩).2 halive

/-! ## Ends of runs -/

theorem done_of_ended (h : s.Sound) {m : Move κ μ ρ} {job : Nat} {group : Option Nat}
    (hd : .ended job group ∈ deeds s (move body s m) m) :
      ∃ record, s.hub.jobs[job]? = some record ∧ record.scheduled = true ∧
      record.completion = group ∧ (move body s m).hub.jobs = s.hub.jobs.setIfInBounds job
        (Hub.closed record) ∧
      Hub.Counted s.hub (move body s m).hub (Hub.signaled group) := by
  have hnot : ∀ queued : Option (Nat × Option Nat), (.ended job group : Deed κ μ ρ) ∉ acceptances queued :=
    fun queued hq => by
    cases queued with
    | none => cases hq
    | some q => cases List.mem_singleton.mp hq
  rcases called_move body h m with ⟨worker, rfl⟩ | rfl | ⟨queued, hcalled, hds⟩
  · have ht := turn_of_sound h body worker
    simp only [move] at hd ⊢
    generalize deeds s (step body worker s).state (.work worker) = ds at ht hd
    generalize (step body worker s).state = s' at ht
    cases ht with
    | rest | exhausted | started | died | passed | returned | left => cases hd
    | parked | began | resumed => cases List.mem_singleton.mp hd
    | went =>
      rcases List.mem_append.mp hd with hd | hd
      · exact absurd hd (hnot _)
      · cases List.mem_singleton.mp hd
    | @ended w fiber run record panic hub hon hover hrec hend =>
      cases List.mem_singleton.mp hd
      obtain ⟨old, hold, hsched⟩ := h.record (mem_pending_of_run hon.run)
      obtain rfl := Option.some.inj (hold.symm.trans hrec)
      exact ⟨old, hrec, hsched, rfl, (((Hub.ends_endRun h.tidy hrec).pin hend).whole rfl).1,
        (Hub.endRun_counted h.tidy hrec).pin hend rfl⟩
  · cases hd
  · rw [hds] at hd
    exact absurd hd (hnot queued)

/-! ## After the end -/

theorem gives_drop (pool : FiberPool) : (FiberPool.drop : Act ρ FiberPool Unit).Gives pool () pool := by
  refine Gives.bind (a := pool) (t := pool) ⟨rfl, rfl⟩ (gives_forM fun fiber _ => ?_)
  split <;> exact ⟨rfl, rfl⟩

/-- The closing changes nothing, and it refuses only where workers died. -/
theorem gives_close (s : System κ μ ρ) : (close : Act ρ (System κ μ ρ) (Except Refusal Unit)).Gives s
    (if s.dead.isEmpty then .ok () else .error (.workersPanicked s.dead.length)) s := by
  have hrest : (do
      onPool FiberPool.drop
      if s.dead.isEmpty then return .ok () else return .error (.workersPanicked s.dead.length) :
        Act ρ (System κ μ ρ) (Except Refusal Unit)).Gives s
          (if s.dead.isEmpty then .ok () else .error (.workersPanicked s.dead.length)) s := by
    refine (gives_onPool (gives_drop s.pool)).bind ?_
    split <;> exact gives_pure _
  refine Gives.bind (a := s) (t := s) ⟨rfl, rfl⟩ ((gives_forM fun _ _ => ⟨rfl, rfl⟩).bind ?_)
  dsimp only
  split <;> exact hrest

theorem close_ok_iff : ((close : Act ρ (System κ μ ρ) (Except Refusal Unit)) s).result =
    .ok (.ok ()) ↔ s.dead = [] := by
  rw [(gives_close s).1]
  cases s.dead <;> simp

/-- Once all workers have left, nothing is pending and no fiber is in use. -/
theorem Sound.drained (h : s.Sound) (hover : s.isOver = true) (hrunning : s.aborted = false)
    (halive : s.deaths = []) :
    s.hub.stopping = true ∧ s.hub.active = 0 ∧ s.pending = [] ∧ s.hub.idle = [] ∧
      ∀ fiber, fiber < s.pool.capacity → s.pool.isFree fiber = true := by
  have hleft : ∀ (i : Nat) (w : Worker), s.workers[i]? = some w → w.stage = .left := fun i w hw => by
    have hstages : ∀ (i : Nat) (hi : i < s.workers.size), s.workers[i].stage = .left ∨
        s.workers[i].stage = .dead := by
      simpa [isOver, hrunning] using hover
    obtain ⟨hi, rfl⟩ := Array.getElem?_eq_some_iff.mp hw
    exact (hstages i hi).resolve_right fun hdead => deaths_ne_nil hw hdead halive
  obtain ⟨hstopping, hpending, -⟩ := h.left ⟨0, by
    have hw := Array.getElem?_eq_getElem h.staffed.1
    rw [stageOf, hw, Option.map_some, hleft 0 _ hw]⟩
  have hnone : ∀ fiber, s.run? fiber = none := fun fiber => by
    cases hrun : s.run? fiber with
    | none => rfl
    | some run =>
      have hmem := mem_pending_of_run hrun
      rw [hpending] at hmem
      cases hmem
  have hidle : s.hub.idle = [] := List.eq_nil_iff_forall_not_mem.mpr fun fiber hm => by
    have := h.unfinished fiber hm
    rw [hnone] at this
    cases this
  refine ⟨hstopping, ?_, hpending, hidle, fun fiber hlt => ?_⟩
  · rw [h.active, hpending, halive]
    rfl
  · refine Classical.byContradiction fun hbusy => ?_
    have hcurrents : s.currents.count fiber = 0 := List.count_eq_zero.mpr fun hm => by
      obtain ⟨i, w, hw, hcur⟩ := mem_currents.mp hm
      rw [(h.worker i w hw).away (Or.inr (hleft i w hw))] at hcur
      cases hcur
    have hplaces : s.places fiber = 0 := by
      unfold places
      rw [if_neg hbusy, hcurrents, hidle]
      rfl
    have := h.nowhere fiber hlt hplaces
    rw [hnone] at this
    cases this

structure Shut (s : System κ μ ρ) : Prop where
  sound : s.Sound
  stopping : s.hub.stopping = true
  active : s.hub.active = 0

theorem Shut.turn (h : Shut s) (ht : Turn body s worker s' ds) :
    s'.hub.stopping = true ∧ s'.hub.active = 0 ∧ ∀ job group, .accepted job group ∉ ds := by
  have hpending := (h.sound.idle_of_active h.active).1
  have hunbegun := ht.unbegun h.sound
  have hnot : ∀ {w : Worker} {fiber : Nat} {run : Run κ μ ρ}, ¬OnRun s worker w fiber run := fun hon => by
    have hmem := mem_pending_of_run hon.run
    rw [hpending] at hmem
    cases hmem
  -- Turns that act in a body or end it are out, since nobody has a run.
  cases ht with
  | went hon | ended hon | died hon => exact absurd hon hnot
  | parked hon => exact absurd hon hnot
  | @began w w' fiber job =>
    have hbegan : _ + [job].count job = s.unbegun.count job + 0 := hunbegun job
    have hnil : s.unbegun = [] := (List.append_eq_nil_iff.mp hpending).1
    rw [hnil, List.count_singleton_self] at hbegan
    cases hbegan
  | resumed => exact ⟨h.stopping, h.active, fun job group hd => by cases List.mem_singleton.mp hd⟩
  | _ => exact ⟨h.stopping, h.active, fun job group hd => by cases hd⟩

/-- Nothing that is done to such a system gets a job into a queue again. -/
theorem Shut.step (h : Shut s) (m : Move κ μ ρ) :
    Shut (move body s m) ∧ ∀ job group, .accepted job group ∉ deeds s (move body s m) m := by
  have hsound := sound_move body h.sound m
  rcases called_move body h.sound m with ⟨worker, rfl⟩ | rfl | ⟨queued, hcalled, hds⟩
  · obtain ⟨hstopping, hactive, hno⟩ := h.turn (turn_of_sound h.sound body worker)
    exact ⟨⟨hsound, hstopping, hactive⟩, hno⟩
  · exact ⟨⟨hsound, rfl, h.active⟩, fun _ _ hd => by cases hd⟩
  · have hstopping : (move body s m).hub.stopping = true := by rw [hcalled.effect.calm.rest]; exact h.stopping
    rw [hds]
    have hqueues := hcalled.effect.queues
    cases hqueues with
    | none hqueued hactive => exact ⟨⟨hsound, hstopping, hactive.trans h.active⟩, fun _ _ hd => by cases hd⟩
    | some _ _ hopen => exact absurd ⟨h.active, h.stopping⟩ hopen

theorem Shut.play (h : Shut s) (moves : List (Move κ μ ρ)) (job : Nat) (group : Option Nat) :
    .accepted job group ∉ history body s moves := by
  induction moves generalizing s with
  | nil => exact List.not_mem_nil
  | cons m moves ih =>
    obtain ⟨hshut, hno⟩ : Shut (move body s m) ∧
      ∀ job group, .accepted job group ∉ deeds s (move body s m) m := h.step m
    rw [history, List.mem_append, not_or]
    exact ⟨hno job group, ih hshut⟩

/-! ## Stops -/

theorem drive_play (body : κ → Program κ μ ρ Unit) (plan : Nat → Move κ μ ρ) (fuel next : Nat)
    (s : System κ μ ρ) (log : Array (Entry ρ)) :
    ∃ n ≤ fuel, (drive body plan fuel next s log).1 = play body s ((List.range' next n).map plan) ∧
      (n < fuel → (drive body plan fuel next s log).1.isOver = true) := by
  -- Induction on the fuel: one move of the plan, and the rest of it from the next state.
  induction fuel generalizing next s log with
  | zero => exact ⟨0, Nat.le_refl 0, rfl, fun h => absurd h (Nat.lt_irrefl 0)⟩
  | succ fuel ih =>
    unfold drive
    split
    · rename_i hover
      exact ⟨0, Nat.zero_le _, rfl, fun _ => hover⟩
    · obtain ⟨n, hn, hplay, hover⟩ := ih (next + 1) (follow body (plan next) s).state
        (log.appendList (follow body (plan next) s).log)
      refine ⟨n + 1, Nat.succ_le_succ hn, ?_, fun h => hover (Nat.lt_of_succ_lt_succ h)⟩
      rw [hplay, follow_state, List.range'_succ]
      rfl

/-- A stop is a move and a plan followed as far as it goes. It is answered, by the closing,
where all workers have ended by then and the process has not. -/
theorem stop_play (body : κ → Program κ μ ρ Unit) (plan : Nat → Move κ μ ρ) (fuel : Nat) (s : System κ μ ρ) :
    (stop body plan fuel : Act ρ (System κ μ ρ) (Option (Except Refusal Unit))).Ends s fun r t =>
      ∃ n ≤ fuel, t = play body s (.stop :: (List.range n).map plan) ∧ (n < fuel → t.isOver = true) ∧
        r = .ok (if t.isOver = true ∧ t.aborted = false then
          some (if t.dead.isEmpty then .ok () else .error (.workersPanicked t.dead.length)) else none) := by
  obtain ⟨n, hn, hplay, hover⟩ := drive_play body plan fuel 0 (move body s .stop) #[]
  rw [← List.range_eq_range'] at hplay
  have hstop : (onHub Hub.beginStop : Act ρ (System κ μ ρ) Unit).Gives s () (move body s .stop) := ⟨rfl, rfl⟩
  rw [hplay] at hover
  generalize ht : play body s (.stop :: (List.range n).map plan) = t
  have hend : (drive body plan fuel 0 (move body s .stop) #[]).1 = t := hplay.trans ht
  have hrun :
      (runOut body plan fuel : Act ρ (System κ μ ρ) Bool).Gives (move body s .stop)
      (t.isOver && !t.aborted) t :=
    ⟨congrArg (fun t : System κ μ ρ => Except.ok (t.isOver && !t.aborted)) hend, hend⟩
  have hover : n < fuel → t.isOver = true := fun h => ht ▸ hover h
  unfold stop
  refine hstop.bind_ends (hrun.bind_ends ((ends_ite ..).mpr ?_))
  split
  · rename_i hjoined
    have hjoined : t.isOver = true ∧ t.aborted = false := by simpa using hjoined
    refine (ends_map ..).mpr ((gives_close t).ends ?_)
    exact ⟨n, hn, ht.symm, hover, congrArg Except.ok (if_pos hjoined).symm⟩
  · rename_i hjoined
    have hjoined : ¬(t.isOver = true ∧ t.aborted = false) := by simpa using hjoined
    exact ⟨n, hn, ht.symm, hover, congrArg Except.ok (if_neg hjoined).symm⟩

/-- Everything that a run accepted is done, and nothing is accepted any more. Every acceptance
was followed by one run of the body, with each action once and in order, and one end, which
frees the job and signals its group once. Nothing is queued or waits, and all fibers are free. -/
structure Drained (body : κ → Program κ μ ρ Unit) (s₀ : System κ μ ρ) (moves : List (Move κ μ ρ))
    (s : System κ μ ρ) : Prop where
  rounds : ∀ job record, s.hub.jobs[job]? = some record →
    ∃ n, Rounds body record job n (course job (history body s₀ moves))
  unknown : ∀ job : Nat, s.hub.jobs[job]? = none → course job (history body s₀ moves) = []
  closed : ∀ before m after, moves = before ++ m :: after → ∀ t, play body s₀ before = t →
    ∀ job group, .ended job group ∈ deeds t (move body t m) m → ∃ record, t.hub.jobs[job]? = some record ∧
      record.scheduled = true ∧ record.completion = group ∧
      (move body t m).hub.jobs = t.hub.jobs.setIfInBounds job (Hub.closed record) ∧
      Hub.Counted t.hub (move body t m).hub (Hub.signaled group)
  queued : s.hub.lanes.queued = []
  readied : s.hub.lanes.readied = []
  waiting : ∀ g, s.hub.waitingOn g = []
  free : ∀ fiber, fiber < s.pool.capacity → s.pool.isFree fiber = true
  shut : ∀ later job group, .accepted job group ∉ history body s later

section
variable {mode : Mode} {host : Host} {config : Config} {memory : μ} {x : σ} {s₀ : System κ μ ρ}
  (hnew : ((new mode host config memory : Act ρ σ (Except Refusal (System κ μ ρ))) x).result = .ok (.ok s₀))
  {moves : List (Move κ μ ρ)} (hplay : play body s₀ moves = s)
include hnew hplay

theorem drained_of_left (hover : s.isOver = true) (hrunning : s.aborted = false) (hdead : s.dead = []) :
    Drained body s₀ moves s := by
  have hs : s.Sound := hplay ▸ sound_play body (new_of_ok hnew).sound moves
  have halive : s.deaths = [] := List.eq_nil_of_length_eq_zero (by rw [← length_dead, hdead]; rfl)
  obtain ⟨hstopping, hactive, hpending, hidle, hfree⟩ := hs.drained hover hrunning halive
  have hcourses : Courses body s (history body s₀ moves) :=
    hplay ▸ (new_of_ok hnew).courses_play moves (hplay ▸ halive)
  refine ⟨fun job record hrec => ?_, hcourses.unknown, fun before m after _ t ht => ?_, ?_, ?_,
    fun g => ?_, hfree, Shut.play ⟨hs, hstopping, hactive⟩⟩
  · obtain ⟨n, hrounds, -⟩ := (hcourses.known job record hrec).idle_of
      (by rw [hpending]; exact List.not_mem_nil)
    exact ⟨n, hrounds⟩
  · exact fun job group hd => done_of_ended (ht ▸ sound_play body (new_of_ok hnew).sound before) hd
  · exact (List.append_eq_nil_iff.mp (List.append_eq_nil_iff.mp hpending).1).1
  · exact List.map_eq_nil_iff.mp (List.append_eq_nil_iff.mp hidle).2
  · refine List.eq_nil_iff_forall_not_mem.mpr fun fiber hm => ?_
    have := mem_idle_of_waiting hm
    rw [hidle] at this
    cases this

/-- A worker leaves only when the system is stopping and nothing it accepted is left. A stop in
any state of any run lets everything go on by some plan until every worker has ended. As far
as it comes to that it is answered, and where the answer is no refusal, the whole run up to
there has drained the system. -/
theorem stop_drains :
    (∀ worker, s.stageOf worker ≠ some .left → (move body s (.work worker)).stageOf worker = some .left →
      s.hub.stopping = true ∧ s.pending = []) ∧
    (∀ plan fuel, (stop body plan fuel : Act ρ (System κ μ ρ) (Option (Except Refusal Unit))).Ends s
      fun r t =>
      ∃ n ≤ fuel, ∃ run, run = moves ++ .stop :: (List.range n).map plan ∧ t = play body s₀ run ∧
        (n < fuel → t.isOver = true) ∧
        r = .ok (if t.isOver = true ∧ t.aborted = false then
          some (if t.dead.isEmpty then .ok () else .error (.workersPanicked t.dead.length)) else none) ∧
        (r = .ok (some (.ok ())) → Drained body s₀ run t)) := by
  have hs : s.Sound := hplay ▸ sound_play body (new_of_ok hnew).sound moves
  refine ⟨fun worker => (turn_of_sound hs body worker).leaves hs,
    fun plan fuel => (stop_play body plan fuel s).mono ?_⟩
  rintro r t ⟨n, hn, ht, hover, hr⟩
  have hrun : play body s₀ (moves ++ .stop :: (List.range n).map plan) = t := by rw [play_append, hplay, ht]
  refine ⟨n, hn, _, rfl, hrun.symm, hover, hr, fun hok => ?_⟩
  -- Only where all workers left and none of them died is the answer no refusal.
  rw [hr] at hok
  by_cases hend : t.isOver = true ∧ t.aborted = false
  · rw [if_pos hend] at hok
    refine drained_of_left hnew hrun hend.1 hend.2 ?_
    cases hdead : t.dead with
    | nil => rfl
    | cons w ws =>
      rw [hdead] at hok
      cases hok
  · rw [if_neg hend] at hok
    cases hok

end

/-- The run that drains the small system is a stop of it while its jobs are under way. -/
theorem small_drains :
    (stop smallBody (inTurn 2) 10 : Act Unit (System Bool Unit Unit) (Option (Except Refusal Unit))).Ends
      (play smallBody small (parking ++ List.replicate 6 (.work 1))) fun r t => r = .ok (some (.ok ())) ∧
        t.hub.jobs.size = 2 ∧
        ∃ run, Drained smallBody small run t := by
  have hplay : play smallBody small (parking ++ List.replicate 6 (.work 1)) = _ := rfl
  have hsize :
      (stop smallBody (inTurn 2) 10 : Act Unit (System Bool Unit Unit) (Option (Except Refusal Unit))).Ends
        (play smallBody small (parking ++ List.replicate 6 (.work 1))) fun r t =>
          r.toOption.join.map (·.isOk) = some true ∧ t.hub.jobs.size = 2 := by
    unfold Act.Ends
    decide +kernel
  refine (((stop_drains new_small hplay).2 (inTurn 2) 10).and hsize).mono ?_
  rintro r t ⟨⟨n, -, run, -, -, -, -, hdrained⟩, hok, hsize⟩
  obtain rfl : r = .ok (some (.ok ())) := by
    rcases r with _ | _ | _ | _ <;> first | rfl | cases hok
  exact ⟨rfl, hsize, run, hdrained rfl⟩

end FiberScheduler.System
