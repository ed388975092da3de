import FiberScheduler.Proofs.Places

/-!
# Giving slots back

A run that ends gives the slot of its job back, unless the signal of its group is one too
many and the system is strict: then the worker dies, and the slot is lost.
-/

namespace FiberScheduler.System

open Act

variable {κ μ ρ σ : Type} {body : κ → Program κ μ ρ Unit} {s s' : System κ μ ρ} {worker fiber : Nat}
  {w : Worker} {run : Run κ μ ρ} {ds : List (Deed κ μ ρ)}

/-- The number of accepted jobs is what is pending and what workers died of. -/
theorem Sound.active_toNat (h : s.Sound) : s.hub.active.toNat = s.pending.length + s.deaths.length := by
  have hp := h.length_pending
  have hlimit := h.limit
  have hd : s.deaths.length ≤ s.workers.size := length_gather_le (fun w => by split <;> simp) _
  have hw := h.staffed.2
  have h32 : wordSize 32 = 4294967296 := rfl
  have h63 : Hub.recordLimit = 9223372036854775808 := rfl
  rw [h.active, UInt64.toNat_ofNat', Nat.mod_eq_of_lt (by omega)]

theorem length_dead (s : System κ μ ρ) : s.dead.length = s.deaths.length := by
  have hcount : ∀ l :
      List Worker, ((List.range l.length).filter fun i => (l[i]?).map (·.stage) == some .dead).length =
        (l.flatMap fun w => if w.stage = .dead then [()] else []).length := fun l => by
    induction l with
    | nil => rfl
    | cons w l ih =>
      rw [List.length_cons, List.range_succ_eq_map, List.filter_cons, List.filter_map, List.flatMap_cons,
        List.length_append, ← ih]
      by_cases hw : w.stage = .dead
      · simp [hw, Function.comp_def, Nat.add_comm]
      · simp [hw, Function.comp_def]
  have := hcount s.workers.toList
  unfold dead deaths gather stageOf
  simpa using this

/-- The only turn of a worker whose body is over ends the run, or the worker with it. -/
theorem Turn.over (hon : OnRun s worker w fiber run) (hover : run.rest.Over) (ht : Turn body s worker s' ds) :
    ∃ record panic r hub, s.hub.jobs[run.job]? = some record ∧
      (Hub.endRun (workerName worker) run.job run.held panic : Act ρ (Hub κ) Unit).Ends s.hub
        (fun r' h => r' = r ∧ h = hub) ∧
      ((r = .ok () ∧ s' = (s.putRun fiber none).setHub hub ∧ ds = [.ended run.job record.completion]) ∨
        (r ≠ .ok () ∧ s' = ((s.putRun fiber none).setHub hub).setWorker worker { w with stage := .dead } ∧
          ds = [])) := by
  cases ht with
  | rest hno => exact absurd hon (hno w fiber run)
  | exhausted hno => exact absurd hover (hno w fiber run hon)
  | started hw hstage =>
    obtain rfl := Option.some.inj (hw.symm.trans hon.here)
    rw [hon.stage] at hstage
    cases hstage
  | went hon' _ _ hdoes =>
    rw [(hon.unique hon').2.2] at hdoes
    generalize run.rest = p at hover hdoes
    cases hover <;> cases hdoes
  | parked hon' hrest =>
    rw [(hon.unique hon').2.2] at hrest
    rw [hrest] at hover
    cases hover
  | ended hon' _ hrec hend =>
    obtain ⟨rfl, rfl, rfl⟩ := hon.unique hon'
    exact ⟨_, _, _, _, hrec, hend, Or.inl ⟨rfl, rfl, rfl⟩⟩
  | died hon' _ hrec hend =>
    obtain ⟨rfl, rfl, rfl⟩ := hon.unique hon'
    exact ⟨_, _, _, _, hrec, hend, Or.inr ⟨by simp, rfl, rfl⟩⟩
  | began hon' | passed hon' | returned hon' | resumed hon' | left hon' => exact absurd hon hon'.not_onRun

/-! ## Taking slots and giving them back -/

def Deed.isAccepted : Deed κ μ ρ → Bool
  | .accepted .. => true
  | _ => false

def Deed.isEnded : Deed κ μ ρ → Bool
  | .ended .. => true
  | _ => false

def SlotsBy (s s' : System κ μ ρ) (ds : List (Deed κ μ ρ)) : Prop :=
  s'.hub.active.toNat + ds.countP Deed.isEnded = s.hub.active.toNat + ds.countP Deed.isAccepted

theorem slotsBy_of_active (hactive : s'.hub.active = s.hub.active) (hends : ds.countP Deed.isEnded = 0)
    (haccepts : ds.countP Deed.isAccepted = 0) : SlotsBy s s' ds := by
  rw [SlotsBy, hactive, hends, haccepts]

theorem Called.slotsBy {queued : Option (Nat × Option Nat)} (h : s.Sound) (hc : Called s s' queued) :
    SlotsBy s s' (acceptances queued) := by
  have htoNat := h.active_toNat
  have htoNat' := (hc.sound h).active_toNat
  have hpending : s'.pending = s'.hub.lanes.queued ++ s.handoffs ++ s.runJobs := by rw [hc.rest]; rfl
  have hdeaths : s'.deaths = s.deaths := by rw [hc.rest]; rfl
  have hqueues := hc.effect.queues
  cases hqueues with
  | none hqueued hactive => exact slotsBy_of_active hactive rfl rfl
  | some hqueued =>
    have hlen := hqueued.length_eq
    have hp : s.pending.length = _ := rfl
    rw [hpending, hdeaths] at htoNat'
    simp only [pending, System.unbegun, List.length_append, List.length_cons] at htoNat htoNat' hlen
    show s'.hub.active.toNat + 0 = s.hub.active.toNat + 1
    omega

theorem Turn.slotsBy (h : s.Sound) (ht : Turn body s worker s' ds) : SlotsBy s s' ds := by
  have hs' := ht.sound h
  have hunbegun := ht.unbegun h
  cases ht with
  | @went w fiber run run' s₁ queued action hon hjob hcalled =>
    have hslots := hcalled.slotsBy h
    unfold SlotsBy at hslots ⊢
    rw [List.countP_append, List.countP_append]
    exact hslots
  | @ended w fiber run record panic hub hon hover hrec hend =>
    have htoNat := h.active_toNat
    have htoNat' := hs'.active_toNat
    have hp : s.pending.Perm (run.job :: ((s.putRun fiber none).setHub hub).pending) :=
      pending_putRun_none hon.run hunbegun rfl
    have hlen := hp.length_eq
    have hdeaths : ((s.putRun fiber none).setHub hub).deaths = s.deaths := rfl
    rw [List.length_cons] at hlen
    rw [hdeaths] at htoNat'
    show ((s.putRun fiber none).setHub hub).hub.active.toNat + 1 = s.hub.active.toNat + 0
    omega
  | died hon _ hrec hend =>
    exact slotsBy_of_active (((Hub.ends_endRun h.tidy hrec).pin hend).cut (by simp)).2 rfl rfl
  | _ => exact slotsBy_of_active rfl rfl rfl

theorem slotsBy_move (body : κ → Program κ μ ρ Unit) (h : s.Sound) (m : Move κ μ ρ) :
    SlotsBy s (move body s m) (deeds s (move body s m) m) := by
  rcases called_move body h m with ⟨worker, rfl⟩ | rfl | ⟨queued, hcalled, hds⟩
  · exact (turn_of_sound h body worker).slotsBy h
  · exact slotsBy_of_active rfl rfl rfl
  · rw [hds]
    exact hcalled.slotsBy h

theorem slotsBy_play (h : s.Sound) (moves : List (Move κ μ ρ)) :
    SlotsBy s (play body s moves) (history body s moves) := by
  induction moves generalizing s with
  | nil => exact slotsBy_of_active rfl rfl rfl
  | cons m moves ih =>
    have hmove := slotsBy_move body h m
    have hrest := ih (sound_move body h m)
    unfold SlotsBy at hmove hrest ⊢
    rw [history, List.countP_append, List.countP_append]
    show (play body (move body s m) moves).hub.active.toNat + _ = _
    omega

/-! ## The end of a run -/

/-- A run that is over takes its job from the pending ones. Its slot is given back where
the worker survives that, and lost where it dies. -/
theorem slot_of_run (body : κ → Program κ μ ρ Unit) (h : s.Sound) (hon : OnRun s worker w fiber run)
    (hover : run.rest.Over) :
    let s' := move body s (.work worker)
    s.pending.Perm (run.job :: s'.pending) ∧
      ((s'.hub.active.toNat + 1 = s.hub.active.toNat ∧ s'.stageOf worker = some .running) ∨
        (s'.hub.active = s.hub.active ∧ s'.stageOf worker = some .dead)) := by
  have ht := turn_of_sound h body worker
  have hslots := ht.slotsBy h
  have hunbegun := ht.unbegun h
  simp only [move]
  generalize deeds s (step body worker s).state (.work worker) = ds at ht hslots hunbegun
  generalize (step body worker s).state = s' at ht hslots hunbegun
  obtain ⟨record, panic, r, hub, hrec, hend, hway⟩ := ht.over hon hover
  rcases hway with ⟨hr, rfl, rfl⟩ | ⟨hr, rfl, rfl⟩
  · refine ⟨pending_putRun_none hon.run hunbegun rfl, Or.inl ⟨hslots, ?_⟩⟩
    show (s.workers[worker]?).map (·.stage) = _
    rw [hon.here, Option.map_some, hon.stage]
  · refine ⟨pending_putRun_none hon.run hunbegun rfl,
      Or.inr ⟨(((Hub.ends_endRun h.tidy hrec).pin hend).cut hr).2, ?_⟩⟩
    exact (stageOf_setWorker hon.here worker).trans (if_pos rfl)

/-- A worker dies at the end of a run exactly when the signal of its group is one too many. -/
theorem dead_of_run (h : s.Sound) (hl : Ledger s) (hfew : FewHandles s) (hon : OnRun s worker w fiber run)
    (hover : run.rest.Over) : (move body s (.work worker)).stageOf worker = some .dead ↔
      s.hub.OverSignals ((s.hub.jobs[run.job]?).bind (·.completion)) := by
  have ht := turn_of_sound h body worker
  simp only [move]
  generalize deeds s (step body worker s).state (.work worker) = ds at ht
  generalize (step body worker s).state = s' at ht
  obtain ⟨record, panic, r, hub, hrec, hend, hway⟩ := ht.over hon hover
  obtain ⟨-, -, hr⟩ := (endRun_of_run h hl hfew hon panic hrec).pin hend
  rw [hrec, Option.bind_some]
  rcases hway with ⟨hok, rfl, -⟩ | ⟨hok, rfl, -⟩
  · refine iff_of_false ?_ (hr.mp hok)
    show (s.workers[worker]?).map (·.stage) ≠ _
    rw [hon.here, Option.map_some, hon.stage]
    decide
  · exact iff_of_true ((stageOf_setWorker hon.here worker).trans (if_pos rfl))
      (Classical.not_not.mp fun hn => hok (hr.mpr hn))

section
variable {mode : Mode} {host : Host} {config : Config} {memory : μ} {x : σ} {s₀ : System κ μ ρ}
  (hnew : ((new mode host config memory : Act ρ σ (Except Refusal (System κ μ ρ))) x).result = .ok (.ok s₀))
  {moves : List (Move κ μ ρ)} (hplay : play body s₀ moves = s)
include hnew hplay

/-- Throughout every run the number of accepted jobs is that of the pending ones and of the
workers that died, and each job takes one slot and gives it back once. A run that is over
gives its slot back or leaves a dead worker; so long as no group has too many handles, it
does the latter exactly when a strict system gets one signal too many. A slot that was lost
keeps a stopping system from its end. -/
theorem slot_given_back :
    s.hub.active.toNat = s.pending.length + s.dead.length ∧
    (history body s₀ moves).countP Deed.isAccepted = s.hub.active.toNat +
      (history body s₀ moves).countP Deed.isEnded ∧
    (s.dead ≠ [] → s.hub.shouldExit = false) ∧
    ∀ worker w fiber run, OnRun s worker w fiber run → run.rest.Over → ∀ s', move body s (.work worker) = s' →
      s.pending.Perm (run.job :: s'.pending) ∧
      ((s'.hub.active.toNat + 1 = s.hub.active.toNat ∧ s'.stageOf worker = some .running) ∨
        (s'.hub.active = s.hub.active ∧ s'.stageOf worker = some .dead)) ∧
      (Along body (fun s _ => FewHandles s) s₀ (moves ++ [.work worker]) → (s'.stageOf worker = some .dead ↔
        s.hub.OverSignals ((s.hub.jobs[run.job]?).bind (·.completion)))) := by
  have hs : s.Sound := hplay ▸ sound_play body (new_of_ok hnew).sound moves
  have hactive : s.hub.active.toNat = s.pending.length + s.dead.length := by rw [length_dead, hs.active_toNat]
  have hslots : SlotsBy s₀ s (history body s₀ moves) := hplay ▸ slotsBy_play (new_of_ok hnew).sound moves
  rw [SlotsBy, (new_of_ok hnew).hub.active] at hslots
  refine ⟨hactive, (hslots.trans (Nat.zero_add _)).symm, fun hdead => ?_,
    fun worker w fiber run hon hover s' hstep => ?_⟩
  -- The job a worker died of keeps its slot, so the counter stays above zero.
  · have hpos := List.length_pos_iff.mpr hdead
    refine Bool.eq_false_iff.mpr fun hexit => ?_
    have hzero : s.hub.active = 0 := by simpa [Hub.shouldExit] using (Bool.and_eq_true_iff.mp hexit).2
    rw [hzero] at hactive
    have : (0 : UInt64).toNat = 0 := rfl
    omega
  · subst hstep
    obtain ⟨hp, hway⟩ := slot_of_run body hs hon hover
    refine ⟨hp, hway, fun hfew => ?_⟩
    have hplaced : Placed s (history body s₀ moves) := hplay ▸ (new_of_ok hnew).placed_play hfew.left
    exact dead_of_run hs hplaced.ledger (hplay ▸ hfew moves _ [] rfl) hon hover

end

theorem small_slots_given_back :
    let s := play smallBody small draining
    (history smallBody small draining).countP Deed.isAccepted = 2 ∧
      s.hub.active.toNat = s.pending.length + s.dead.length ∧
      (history smallBody small draining).countP Deed.isAccepted =
        s.hub.active.toNat + (history smallBody small draining).countP Deed.isEnded := by
  have hplay : play smallBody small draining = play smallBody small draining := rfl
  obtain ⟨hactive, hslots, -⟩ := slot_given_back new_small hplay
  exact ⟨by decide +kernel, hactive, hslots⟩

/-- A body that signals the group its own end is to signal. -/
def strayBody (_ : Bool) : Program Bool Unit Unit Unit :=
  .call (.add 0 (-1)) fun _ => .done ()

def straying : List (Move Bool Unit Unit) :=
  [.call .newGroup, .call (.spawn true (some 0) .normal .any), .work 0, .work 0, .work 0, .work 0, .stop,
    .work 1, .work 1]

/-- The slot of a job whose end kills its worker is never given back: the other worker
finds nothing to do, and stays. -/
theorem stray_signal_loses_slot :
    let s := play strayBody small straying
    s.hub.stopping = true ∧ s.pending = [] ∧ s.hub.active = 1 ∧ s.hub.shouldExit = false ∧
      s.stageOf 0 = some .dead ∧ s.stageOf 1 = some .running ∧
        (step strayBody 1 s).state.stageOf 1 = some .running := by
  decide +kernel

end FiberScheduler.System
