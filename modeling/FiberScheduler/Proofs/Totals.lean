import FiberScheduler.Proofs.Strides
import Mathlib.Algebra.Order.Group.Nat

/-!
# Totals

Growing bodies are started from outside and run to their end, on any workers and in any order.
What was planted is then owed or counted at every moment, so that once nothing is pending the
counters tell the size of the trees, whatever the order was.
-/

namespace FiberScheduler

variable {κ μ ρ : Type}

/-! ## The calls of growing bodies -/

theorem Program.Grows.modest {serves : Affinity → Prop} {grow : κ → Growth} {held : List Nat}
    {p : Program κ μ ρ Unit} {t : Growth} (h : Program.Grows serves grow held p t) {c : Call κ μ ρ}
    (hc : c ∈ p.call?) : c.Modest := by
  cases h with
  | done | panic | wait => cases hc
  | newGroup | dropGroup | spawn =>
    cases hc
    trivial
  | ask hidle =>
    cases hc
    exact hidle.quiet.modest

namespace System

open Act

variable {σ : Type} {serves : Affinity → Prop} {grow : κ → Growth} {body : κ → Program κ μ ρ Unit}
  {s : System κ μ ρ} {worker jobs panics : Nat}

/-! ## Moves -/

/-- What starts a growing body from outside, and what may be done besides: groups are made and
dropped, nothing is counted, and no job is submitted to a system that has drained. -/
def Plain (serves : Affinity → Prop) (s : System κ μ ρ) : Move κ μ ρ → Prop
  | .work _ | .stop => True
  | .call (.spawn _ group _ a) =>
    (∀ g ∈ group, g ∈ s.kept) ∧ serves a ∧ ¬(s.hub.active = 0 ∧ s.hub.stopping = true)
  | .call c => c.Quiet
  | .record .. => False

instance [DecidablePred serves] (s : System κ μ ρ) : ∀ m, Decidable (Plain serves s m)
  | .work _ | .stop => .isTrue trivial
  | .call (.spawn _ group _ a) =>
    inferInstanceAs (Decidable ((∀ g ∈ group, g ∈ s.kept) ∧ serves a ∧
      ¬(s.hub.active = 0 ∧ s.hub.stopping = true)))
  | .call .newGroup | .call (.dropGroup _) | .call (.isScheduled _) | .call .place | .call .counters
  | .call (.report _) | .call (.access _) => .isTrue trivial
  | .call (.cloneGroup _) | .call (.giveGroup _) | .call (.takeGroup _) | .call (.add ..)
  | .call (.count _) | .call (.schedule ..) | .call (.addJob ..) | .record .. => .isFalse id

def Deed.lacksBlock : Deed κ μ ρ → Bool
  | .acted _ (.call .newGroup (.error _)) => true
  | _ => false

def Supplied (ds : List (Deed κ μ ρ)) : Prop :=
  ∀ d ∈ ds, d.lacksBlock = false

instance (ds : List (Deed κ μ ρ)) : Decidable (Supplied ds) :=
  inferInstanceAs (Decidable (∀ d ∈ ds, d.lacksBlock = false))

def Move.root? : Move κ μ ρ → Option κ
  | .call (.spawn code ..) => some code
  | _ => none

def planted (f : Growth → Nat) (grow : κ → Growth) (moves : List (Move κ μ ρ)) : Nat :=
  ((moves.filterMap Move.root?).map fun code => f (grow code)).sum

/-- What a run of growing bodies keeps: nothing is on the account of any group, and what was
planted is owed or counted. -/
structure Thriving (serves : Affinity → Prop) (grow : κ → Growth) (s : System κ μ ρ) (es : List Posting)
    (jobs panics : Nat) : Prop where
  settled : Settled s es
  unmoved : ∀ g amount, .moved g amount ∉ es
  unshared : Unshared s
  crew : ∀ a, serves a → s.hub.crew.serves a = true
  grown : ∃ left, Grown serves grow left s jobs panics

theorem Plain.modest {c : Call κ μ ρ} (hplain : Plain serves s (.call c)) : c.Modest := by
  cases c <;> trivial

section
variable {es : List Posting} {m : Move κ μ ρ} (hs : Thriving serves grow s es jobs panics)
include hs

theorem Thriving.even : Even s es :=
  ⟨hs.settled, hs.unmoved, hs.unshared⟩

theorem Thriving.modest (hplain : Plain serves s m) : s.Modest m := by
  obtain ⟨left, hg⟩ := hs.grown
  cases m with
  | work worker =>
    intro run hrun c hc
    obtain ⟨w, fiber, hon⟩ := onRun_of_activeRun? hrun
    exact (hg.runs fiber run hon.run).modest hc
  | call c => exact hplain.modest
  | record => exact hplain.elim
  | stop => trivial

theorem Thriving.roomy (hplain : Plain serves s m) (hfew : s.hub.jobs.size < Int32.maxValue.toInt) :
    s.Roomy m := by
  obtain ⟨left, hg⟩ := hs.grown
  have hroom : ∀ g, s.hub.Roomy g 1 := by
    intro g state hstate
    have hcount := hs.even.count hstate
    have hpending := hg.tallied.pending_le
    have hle : s.pending.countP (s.hub.tracks g) ≤ s.pending.length := List.countP_le_length
    have hone : (1 : Int32).toInt = 1 := rfl
    omega
  cases m with
  | work worker =>
    intro _ run hrun c hc _
    obtain ⟨fiber, hrun⟩ := run?_of_runOn? hrun
    exact ((hg.runs fiber run hrun).modest hc).roomy hroom
  | call c => exact fun _ => hplain.modest.roomy hroom
  | record | stop => trivial

theorem Thriving.grown_work (hbodies : ∀ code, Program.Grows serves grow [] (body code) (grow code))
    (hroom : s.Roomy (.work worker)) (hlimit : jobs < Hub.recordLimit)
    (hblocks : Supplied (deeds s (step body worker s).state (.work worker))) :
    ∃ left', Grown serves grow left' (step body worker s).state jobs panics := by
  obtain ⟨h, hl, hlatched, -⟩ := hs.settled
  obtain ⟨left, hg⟩ := hs.grown
  have hfew := hs.even.fewHandles
  by_cases hrun : ∃ w fiber run, OnRun s worker w fiber run
  · obtain ⟨w, fiber, run, hon⟩ := hrun
    have hover : ∀ panic, run.rest.EndsIn panic → left run.job = .ofEnd panic →
        ∃ left', Grown serves grow left' (step body worker s).state jobs panics := fun panic hends hleft =>
      ⟨left, hg.over h hl hfew hon hends (hs.even.coversEnd (mem_pending_of_run hon.run)) hleft⟩
    have hgrows := hg.runs fiber run hon.run
    -- One case for each way a body can grow; the run it is read off is named apart to be split.
    generalize hleft : left run.job = t at hgrows hover
    generalize hrest : run.rest = p at hgrows hover
    generalize hheld : run.held = held at hgrows
    cases hgrows with
    | done => exact hover none .done rfl
    | panic _ fault => exact hover (some fault) (.panic fault) rfl
    | wait hin hnext =>
      subst hheld hleft
      exact hg.wait h hl hon hrest hin hnext
    | newGroup hnext =>
      subst hheld hleft
      have hends := perform_newGroup (s := s) (some worker) run.held
      obtain ⟨refusal | g, hanswer⟩ := hends
      · have hdeed :
            .acted run.job (.call .newGroup (.error refusal)) ∈ deeds s (step body worker s).state
            (.work worker) := by
          rw [deeds_onRun hon, deedsOfRun, hrest]
          simp only [hanswer]
          exact List.mem_append_right _ (List.mem_singleton_self _)
        cases hblocks _ hdeed
      · exact hg.quietly h hon hrest trivial hanswer (hnext g)
    | dropGroup hin hnext =>
      subst hheld hleft
      exact hg.quietly h hon hrest trivial
        (perform_dropGroup hl (some worker) hin (mem_handles_of_run hon.run hin)) hnext
    | spawn code hgroup ha hnext =>
      subst hheld
      -- While this body runs, a job is active, so that the system has not closed.
      have hopen : ¬(s.hub.active = 0 ∧ s.hub.stopping = true) := by
        intro hclosed
        have hin := mem_pending_of_run hon.run
        rw [(h.idle_of_active hclosed.1).1] at hin
        cases hin
      have hsize : s.hub.jobs.size + 1 < Hub.recordLimit :=
        Nat.lt_of_le_of_lt (hg.size_lt h hon.run hleft) hlimit
      have hends := perform_spawn h hl hfew hlatched (some worker) hgroup
        (fun g => mem_handles_of_run hon.run) (hs.crew _ ha) hopen hsize
        (hroom hon.alive run hon.runOn? _ (by rw [hrest]; rfl))
      exact hg.spawns h hon hrest hends hnext hleft
    | ask hidle hnext =>
      subst hheld hleft
      obtain ⟨answer, hanswer⟩ := perform_idle (s := s) (some worker) run.held hidle
      refine hg.quietly h hon hrest hidle.quiet hanswer ?_
      rw [hidle.settle]
      exact hnext answer
  · exact ⟨left, hg.loop h hbodies (turn_of_sound h body worker) fun w fiber run hon =>
      hrun ⟨w, fiber, run, hon⟩⟩

theorem Thriving.grown_call {c : Call κ μ ρ} (hplain : Plain serves s (.call c)) (hroom : s.Roomy (.call c))
    (hlimit : jobs + planted Growth.jobs grow [(.call c : Move κ μ ρ)] < Hub.recordLimit) : ∃ left',
    Grown serves grow left' (ask c s).state (jobs + planted Growth.jobs grow [.call c])
      (panics + planted Growth.panicking grow [.call c]) := by
  obtain ⟨h, hl, hlatched, -⟩ := hs.settled
  obtain ⟨left, hg⟩ := hs.grown
  have hfew := hs.even.fewHandles
  have hcalled : Called s (ask c s).state (c.accepted s.hub.jobs.size (ask c s).result) := ask_called h.fit c
  have hquiet : c.Quiet → Grown serves grow left (ask c s).state jobs panics := by
    intro hc
    have hsame : (ask c).Ends s fun _ t => t.hub.jobs = s.hub.jobs ∧ t.hub.counters = s.hub.counters :=
      ask_of_perform (fun _ _ _ => id) (perform_quiet h.fit none s.kept hc)
    rw [hc.accepted] at hcalled
    exact hg.quiet hcalled hsame
  cases c with
  | newGroup | dropGroup | isScheduled | place | counters | report | access => exact ⟨left, hquiet trivial⟩
  | cloneGroup | giveGroup | takeGroup | add | count | schedule | addJob => exact hplain.elim
  | spawn code group p a =>
    obtain ⟨hheld, ha, hopen⟩ := hplain
    have hsize : s.hub.jobs.size + 1 < Hub.recordLimit := by
      have hle := hg.tallied.size_le
      have hpos := (grow code).jobs_pos
      have hplanted :
          planted Growth.jobs grow [(.call (.spawn code group p a) : Move κ μ ρ)] = (grow code).jobs :=
        Nat.add_zero _
      omega
    have hends : (ask (.spawn code group p a)).Ends s fun r t => r = .ok (.ok ()) ∧
        t.hub.jobs = s.hub.jobs.push ⟨code, false, true, false, true, group⟩ ∧
          t.hub.counters = s.hub.counters.bump .submitted := by
      refine ask_of_perform (fun _ _ _ => id)
        (perform_spawn h hl hfew hlatched none hheld (fun g hin => ?_) (hs.crew a ha) hopen hsize hroom)
      exact (Caller.outside (.spawn code group p a)).mem_handles (Or.inr hin)
    obtain ⟨hr, hjobs, hcounters⟩ := hends
    rw [hr] at hcalled
    exact ⟨_, hg.accepted h hcalled hjobs rfl hcounters⟩

theorem Thriving.step (hbodies : ∀ code, Program.Grows serves grow [] (body code) (grow code))
    (hplain : Plain serves s m) (hroom : s.Roomy m)
    (hlimit : jobs + planted Growth.jobs grow [m] < Hub.recordLimit)
    (hblocks : Supplied (deeds s (move body s m) m)) :
    Thriving serves grow (move body s m) (es ++ postings s m) (jobs + planted Growth.jobs grow [m])
      (panics + planted Growth.panicking grow [m]) := by
  have heven : Even (move body s m) (es ++ postings s m) := hs.even.step (hs.modest hplain) hroom
  refine ⟨heven.settled, heven.unmoved, heven.unshared, ?_, ?_⟩
  · rw [(sameShape_move body hs.settled.sound m).crew]
    exact hs.crew
  · cases m with
    | work worker =>
      exact hs.grown_work hbodies hroom (Nat.lt_of_le_of_lt (Nat.le_add_right ..) hlimit) hblocks
    | call c => exact hs.grown_call hplain hroom hlimit
    | record => exact hplain.elim
    | stop =>
      obtain ⟨left, hg⟩ := hs.grown
      exact ⟨left, hg.of_same rfl (.refl _) (fun _ => rfl) rfl⟩

end

/-! ## Runs -/

theorem planted_cons (f : Growth → Nat) (grow : κ → Growth) (m : Move κ μ ρ) (moves : List (Move κ μ ρ)) :
    planted f grow (m :: moves) = planted f grow [m] + planted f grow moves := by
  unfold planted
  rw [← List.sum_append_nat, ← List.map_append, ← List.filterMap_append]
  rfl

theorem Thriving.play (hbodies : ∀ code, Program.Grows serves grow [] (body code) (grow code))
    {moves : List (Move κ μ ρ)} {es : List Posting} (hs : Thriving serves grow s es jobs panics)
    (hplain : Along body (Plain serves) s moves) (hroom : Along body Roomy s moves)
    (hlimit : jobs + planted Growth.jobs grow moves < Hub.recordLimit)
    (hblocks : Supplied (history body s moves)) : ∃ es',
    Thriving serves grow (play body s moves) es' (jobs + planted Growth.jobs grow moves)
      (panics + planted Growth.panicking grow moves) := by
  induction moves generalizing s es jobs panics with
  | nil => exact ⟨es, hs⟩
  | cons m moves ih =>
    rw [planted_cons, ← Nat.add_assoc] at hlimit ⊢
    rw [planted_cons Growth.panicking, ← Nat.add_assoc]
    obtain ⟨hnow, hnext⟩ := List.forall_mem_append.mp hblocks
    have hstep := hs.step hbodies hplain.now hroom.now (Nat.lt_of_le_of_lt (Nat.le_add_right ..) hlimit) hnow
    exact ih hstep hplain.next hroom.next hlimit hnext

theorem Thriving.room (hbodies : ∀ code, Program.Grows serves grow [] (body code) (grow code))
    {moves : List (Move κ μ ρ)} {es : List Posting} (hs : Thriving serves grow s es jobs panics)
    (hplain : Along body (Plain serves) s moves)
    (hfew : (jobs + planted Growth.jobs grow moves : Nat) < Int32.maxValue.toInt)
    (hblocks : Supplied (history body s moves)) : Along body Roomy s moves := by
  induction moves generalizing s es jobs panics with
  | nil =>
    intro before m after he
    cases before <;> cases he
  | cons m moves ih =>
    rw [planted_cons, ← Nat.add_assoc] at hfew
    obtain ⟨hnow, hnext⟩ := List.forall_mem_append.mp hblocks
    have hmax : Int32.maxValue.toInt = 2147483647 := rfl
    have h63 : Hub.recordLimit = 9223372036854775808 := rfl
    obtain ⟨left, hg⟩ := hs.grown
    have hsize := hg.tallied.size_le
    have hroom := hs.roomy hplain.now (by omega)
    exact .cons hroom (ih (hs.step hbodies hplain.now hroom (by omega) hnow) hplain.next hfew hnext)

theorem counters_of_new {hub : Hub κ} {mode : Mode} {config : Config} (h : Hub.new mode config = .ok hub) :
    hub.counters = .zero := by
  obtain ⟨fibers, -, h⟩ := bind_eq_ok h
  obtain ⟨-, -, h⟩ := bind_eq_ok h
  obtain ⟨groups, -, h⟩ := bind_eq_ok h
  cases h
  rfl

theorem New.thriving (h : New s) (hcounters : s.hub.counters = .zero)
    (hserves : ∀ a, serves a → s.hub.crew.serves a = true) (grow : κ → Growth) :
      Thriving serves grow s [] 0 0 where
  settled := h.even.settled
  unmoved := h.even.unmoved
  unshared := h.even.unshared
  crew := hserves
  grown := by
    refine ⟨fun _ => .returns, ?_⟩
    constructor
    case fresh =>
      intro job hin
      have hin : job ∈ s.pending := List.mem_append_left _ hin
      rw [h.pending] at hin
      cases hin
    case runs =>
      intro fiber run hrun
      rw [h.run?] at hrun
      cases hrun
    case tallied =>
      rw [hcounters, h.pending, h.hub.jobs]
      exact ⟨rfl, ⟨0, rfl, rfl⟩, ⟨0, rfl, rfl⟩, rfl⟩

/-! ## Totals -/

theorem planted_perm {f : Growth → Nat} {moves moves' : List (Move κ μ ρ)}
    (hp : (moves'.filterMap Move.root?).Perm (moves.filterMap Move.root?)) :
      planted f grow moves' = planted f grow moves :=
  (hp.map _).sum_nat

theorem planted_panicking_le (grow : κ → Growth) (moves : List (Move κ μ ρ)) :
    planted Growth.panicking grow moves ≤ planted Growth.jobs grow moves :=
  List.sum_le_sum fun code _ => (grow code).panicking_le_jobs

/-- Counters that tell the size of these trees, and groups that count nothing any more. -/
structure Totals (grow : κ → Growth) (moves : List (Move κ μ ρ)) (s : System κ μ ρ) : Prop where
  submitted : s.hub.counters.submitted.toNat = planted Growth.jobs grow moves
  executed : s.hub.counters.executed.toNat = planted Growth.jobs grow moves
  panicked : s.hub.counters.panicked.toNat = planted Growth.panicking grow moves
  groups : ∀ g state, s.hub.groups.get? g = some state → state.count = 0

theorem Thriving.totals {es : List Posting} {moves : List (Move κ μ ρ)}
    (hs : Thriving serves grow s es (planted Growth.jobs grow moves) (planted Growth.panicking grow moves))
    (hidle : s.pending = []) :
    Totals grow moves s := by
  obtain ⟨left, hg⟩ := hs.grown
  have h63 : Hub.recordLimit = 9223372036854775808 := rfl
  have hsize := hs.settled.sound.limit
  -- No count has gone round, since there are fewer jobs than a word can tell.
  have htoNat : ∀ n ≤ s.hub.jobs.size, (UInt64.ofNat n).toNat = n := by
    intro n hn
    rw [UInt64.toNat_ofNat', Nat.mod_eq_of_lt (by omega)]
  have htallied := hg.tallied
  rw [hidle] at htallied
  have hjobs : s.hub.jobs.size = planted Growth.jobs grow moves := htallied.owed
  obtain ⟨n, hn, hexecuted⟩ := htallied.executed
  obtain ⟨m, hm, hpanicked⟩ := htallied.panicked
  have hall : n = s.hub.jobs.size := hexecuted
  have hsome : m = planted Growth.panicking grow moves := hpanicked
  constructor
  case submitted => rw [htallied.submitted, htoNat _ (Nat.le_refl _), hjobs]
  case executed => rw [hn, htoNat n (Nat.le_of_eq hall), hall, hjobs]
  case panicked =>
    have hle := planted_panicking_le grow moves
    rw [hm, htoNat m (by omega), hsome]
  case groups =>
    intro g state hstate
    have hcount := hs.settled.accounted.balanced g state hstate
    rw [hidle, hs.even.account g] at hcount
    exact Int32.toInt_inj.mp hcount

/-- A run of growing bodies that comes to its end: it is started by plain moves, takes no count
past what it can hold, lacks no block for a group and no fiber for a worker, and the workers
that are joined in the end have all left. -/
structure Completes (body : κ → Program κ μ ρ Unit) (serves : Affinity → Prop) (s : System κ μ ρ)
    (moves : List (Move κ μ ρ)) : Prop where
  plain : Along body (Plain serves) s moves
  room : Along body Roomy s moves
  blocks : Supplied (history body s moves)
  fibers : (play body s moves).aborted = false
  ended : (play body s moves).isOver = true
  closed : ((close : Act ρ (System κ μ ρ) (Except Refusal Unit)) (play body s moves)).result = .ok (.ok ())

section
variable {mode : Mode} {host : Host} {config : Config} {memory : μ} {x : σ}
  (hnew : ((new mode host config memory : Act ρ σ (Except Refusal (System κ μ ρ))) x).result = .ok (.ok s))
  (hserves : ∀ a, serves a → s.hub.crew.serves a = true)
  (hbodies : ∀ code, Program.Grows serves grow [] (body code) (grow code)) {moves : List (Move κ μ ρ)}
  (hlimit : planted Growth.jobs grow moves < Hub.recordLimit)
include hnew hserves hbodies hlimit

theorem thriving_play (hplain : Along body (Plain serves) s moves) (hroom : Along body Roomy s moves)
    (hblocks : Supplied (history body s moves)) : ∃ es,
    Thriving serves grow (play body s moves) es (planted Growth.jobs grow moves)
      (planted Growth.panicking grow moves) := by
  have hstart := (new_of_ok hnew).thriving (counters_of_new (hub_of_ok hnew)) hserves grow
  have hplay := hstart.play hbodies hplain hroom (by omega) hblocks
  rwa [Nat.zero_add, Nat.zero_add] at hplay

theorem Completes.totals (hc : Completes body serves s moves) : Totals grow moves (play body s moves) := by
  obtain ⟨es, hs⟩ := thriving_play hnew hserves hbodies hlimit hc.plain hc.room hc.blocks
  have halive : (play body s moves).deaths = [] :=
    List.eq_nil_of_length_eq_zero (by rw [← length_dead, close_ok_iff.mp hc.closed]; rfl)
  exact hs.totals (hs.settled.sound.drained hc.ended hc.fibers halive).2.2.1

omit hlimit in
/-- A run of fewer jobs than a count can hold takes no count past that. -/
theorem room_of_few_jobs (hplain : Along body (Plain serves) s moves)
    (hblocks : Supplied (history body s moves))
    (hfew : (planted Growth.jobs grow moves : Int) < Int32.maxValue.toInt) : Along body Roomy s moves := by
  have hstart := (new_of_ok hnew).thriving (counters_of_new (hub_of_ok hnew)) hserves grow
  exact hstart.room hbodies hplain (by rwa [Nat.zero_add]) hblocks

/-- The totals of a run of growing bodies do not depend on its schedule. Once it is complete, as
many jobs were submitted and executed as there are nodes in the trees of the jobs it was started
with, as many panicked as have a body that ends in a panic, and every group that is left counts
zero. So any two runs that start the same jobs agree on these totals, whatever systems they are
run on. -/
theorem totals_independent_of_schedule (hc : Completes body serves s moves) :
    Totals grow moves (play body s moves) ∧
    ∀ {σ' : Type} (mode' : Mode) (host' : Host) (config' : Config) (memory' : μ) (y : σ') (s' : System κ μ ρ)
      (moves' : List (Move κ μ ρ)),
      ((new mode' host' config' memory' : Act ρ σ' (Except Refusal (System κ μ ρ))) y).result = .ok (.ok s') →
      (∀ a, serves a → s'.hub.crew.serves a = true) → Completes body serves s' moves' →
      (moves'.filterMap Move.root?).Perm (moves.filterMap Move.root?) →
      (play body s' moves').hub.counters.submitted = (play body s moves).hub.counters.submitted ∧
      (play body s' moves').hub.counters.executed = (play body s moves).hub.counters.executed ∧
      (play body s' moves').hub.counters.panicked = (play body s moves).hub.counters.panicked := by
  have htotals := hc.totals hnew hserves hbodies hlimit
  refine ⟨htotals, ?_⟩
  intro σ' mode' host' config' memory' y s' moves' hnew' hserves' hc' hp
  have hjobs : planted Growth.jobs grow moves' = planted Growth.jobs grow moves := planted_perm hp
  have hpanics : planted Growth.panicking grow moves' = planted Growth.panicking grow moves := planted_perm hp
  have htotals' := hc'.totals hnew' hserves' hbodies (by rwa [hjobs])
  refine ⟨UInt64.toNat_inj.mp ?_, UInt64.toNat_inj.mp ?_, UInt64.toNat_inj.mp ?_⟩
  · rw [htotals'.submitted, htotals.submitted, hjobs]
  · rw [htotals'.executed, htotals.executed, hjobs]
  · rw [htotals'.panicked, htotals.panicked, hpanics]

end

/-- What a complete run of a load counts: its jobs with their children, and the jobs that are
planned to panic. -/
theorem load_totals (load : Load) {σ : Type} {mode : Mode} {host : Host} {config : Config}
    {memory : UInt64} {x : σ} {s : System Load.Code UInt64 Empty} {moves : List (Move Load.Code UInt64 Empty)}
    (hnew : ((new mode host config memory :
      Act Empty σ (Except Refusal (System Load.Code UInt64 Empty))) x).result = .ok (.ok s))
    (hroots : (moves.filterMap Move.root?).Perm ((List.range load.count).map .parent))
    (hlimit : load.count * (load.children + 1) < Hub.recordLimit)
    (hc : Completes load.body (· = .any) s moves) :
    let counters := (play load.body s moves).hub.counters
    counters.submitted.toNat = load.count * (load.children + 1) ∧
      counters.executed.toNat = load.count * (load.children + 1) ∧
      counters.panicked.toNat = (List.range load.count).countP load.plansPanic := by
  have hplanted : ∀ f : Growth → Nat, planted f load.growth moves =
      ((List.range load.count).map fun index => f (load.growth (.parent index))).sum := fun f => by
    rw [planted, (hroots.map _).sum_nat, List.map_map]
    rfl
  have hjobs : planted Growth.jobs load.growth moves = load.count * (load.children + 1) := by
    simp only [hplanted, load.jobs_parent, List.map_const', List.sum_replicate_nat, List.length_range]
  have hpanics :
      planted Growth.panicking load.growth moves = (List.range load.count).countP load.plansPanic := by
    rw [hplanted, ← List.flatMap_singleton' (List.range load.count), List.countP_flatMap,
      List.flatMap_singleton']
    simp only [load.panicking_parent, Function.comp_def, List.countP_singleton]
  have hserves : ∀ a, a = .any → s.hub.crew.serves a = true := by
    rintro _ rfl
    have hstaffed := (new_of_ok hnew).staffed.1
    rw [← (new_of_ok hnew).hub.crew] at hstaffed
    exact Crew.serves_iff.mpr ⟨0, hstaffed, Crew.mem_sources_iff.mpr rfl⟩
  have htotals := hc.totals hnew hserves load.body_grows (by rwa [hjobs])
  exact ⟨htotals.submitted.trans hjobs, htotals.executed.trans hjobs, htotals.panicked.trans hpanics⟩

/-! ## Two runs of a fork -/

def forkBody : Bool → Program Bool Unit Unit Unit
  | true => Program.run false .normal .any >>= fun
    | .ok group => .wait group (.panic (.raised "boom"))
    | .error _ => .done ()
  | false => .done ()

def forkGrowth : Bool → Growth
  | true => .spawns .returns .panics
  | false => .returns

theorem forkBody_grows (code : Bool) :
    Program.Grows (· = .any) forkGrowth [] (forkBody code) (forkGrowth code) := by
  cases code with
  | true => exact .run false rfl fun group => .wait List.mem_cons_self (.panic _ _)
  | false => exact .done _

def newLone : Act Unit Unit (Except Refusal (System Bool Unit Unit)) :=
  new .lenient .standard { smallConfig with workerCount := 1, fiberCount := 2 } ()

def lone : System Bool Unit Unit :=
  (built (newLone ()).result).get (by decide +kernel)

theorem new_lone : (newLone ()).result = .ok (.ok lone) :=
  eq_of_built _

def forking (turns : List Nat) : List (Move Bool Unit Unit) :=
  [.call .newGroup, .call (.spawn true (some 0) .normal .any), .stop] ++ turns.map .work

/-- Two workers and one agree on the totals of a job that forks. -/
theorem forked_totals_agree :
    let two := play forkBody small (forking [0, 1, 0, 1, 0, 1, 0, 1, 0, 1, 0, 1, 0, 1, 0, 1, 0, 1])
    let one := play forkBody lone (forking [0, 0, 0, 0, 0, 0, 0, 0, 0, 0, 0])
    two.hub.counters.executed.toNat = 2 ∧ two.hub.counters.panicked.toNat = 1 ∧
      one.hub.counters.executed = two.hub.counters.executed ∧
        one.hub.counters.panicked = two.hub.counters.panicked := by
  have hserves : ∀ a, a = .any → small.hub.crew.serves a = true := by
    rintro _ rfl
    decide +kernel
  have hserves' : ∀ a, a = .any → lone.hub.crew.serves a = true := by
    rintro _ rfl
    decide +kernel
  have htwo :
      Completes forkBody (· = .any) small (forking [0, 1, 0, 1, 0, 1, 0, 1, 0, 1, 0, 1, 0, 1, 0, 1, 0, 1]) :=
    ⟨by decide +kernel, by decide +kernel, by decide +kernel, by decide +kernel, by decide +kernel,
      close_ok_iff.mpr (by decide +kernel)⟩
  have hone : Completes forkBody (· = .any) lone (forking [0, 0, 0, 0, 0, 0, 0, 0, 0, 0, 0]) :=
    ⟨by decide +kernel, by decide +kernel, by decide +kernel, by decide +kernel, by decide +kernel,
      close_ok_iff.mpr (by decide +kernel)⟩
  obtain ⟨htotals, hagree⟩ := totals_independent_of_schedule new_small hserves forkBody_grows
    (by decide +kernel) htwo
  obtain ⟨-, hexecuted, hpanicked⟩ := hagree _ _ _ _ _ _ _ new_lone hserves' hone (.refl _)
  exact ⟨htotals.executed, htotals.panicked, hexecuted, hpanicked⟩

/-- The largest count there is, and a job on the group besides. As many units as were added are
taken off again once the job has ended. -/
def crowding : List (Move Bool Unit Unit) :=
  [.call .newGroup, .call (.add 0 Int32.maxValue), .call (.spawn false (some 0) .normal .any), .work 0,
    .work 0, .work 0, .call (.add 0 (-Int32.maxValue)), .stop, .work 0]

/-- Not every group of a complete run counts zero in the end: one that counted past the largest
count is not signaled any more. -/
theorem crowded_group_left :
    let s := play forkBody lone crowding
    s.isOver = true ∧ s.aborted = false ∧
      ((close : Act Unit (System Bool Unit Unit) (Except Refusal Unit)) s).result = .ok (.ok ()) ∧
      s.pending = [] ∧ s.hub.counters.submitted = 1 ∧ s.hub.counters.executed = 1 ∧
      s.hub.groups.get? 0 = some ⟨Int32.minValue, 1, none⟩ :=
  ⟨by decide +kernel, by decide +kernel, close_ok_iff.mpr (by decide +kernel), by decide +kernel,
    by decide +kernel, by decide +kernel, by decide +kernel⟩

end System

end FiberScheduler
