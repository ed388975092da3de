import FiberScheduler.Proofs.Custody
import FiberScheduler.Proofs.Fresh

/-!
# Where a fiber is

While no group runs out of handle counts, every fiber of a run in which no worker dies
is in exactly one place: free, on one worker, on the list of one group, or in one queue.
-/

namespace FiberScheduler.System

open Act

variable {κ μ ρ σ : Type} {body : κ → Program κ μ ρ Unit} {s s' : System κ μ ρ} {fiber : Nat}

inductive Spot where
  | free
  /-- The fiber that a live worker runs. -/
  | on (worker : Nat)
  /-- Parked on the list of a group. -/
  | waiting (group : Nat)
  /-- In a queue of fibers whose wait is over. -/
  | ready (affinity : Affinity) (priority : Priority)

def timesAt (s : System κ μ ρ) (fiber : Nat) : Spot → Nat
  | .free => if s.pool.isFree fiber then 1 else 0
  | .on worker =>
    if ∃ w, s.workers[worker]? = some w ∧ w.stage = .running ∧ w.current = some fiber then 1 else 0
  | .waiting group => (s.hub.waitingOn group).count fiber
  | .ready a p => ((s.hub.lanes.tier a p).ready.map (·.fiber)).count fiber

theorem map_collect {α β : Type} (g : α → β) (f : Tier → List α) (ls : Lanes) :
    (ls.collect f).map g = ls.collect fun t => (f t).map g := by
  have hlane : ∀ l : Lane, (l.collect f).map g = l.collect fun t => (f t).map g := fun l => by
    simp only [Lane.collect, List.map_append]
  have hgather :
      (gather (Lane.collect f) ls.own).map g = gather (Lane.collect fun t => (f t).map g) ls.own := by
    unfold gather
    rw [List.map_flatMap]
    exact flatMap_congr_left fun l _ => hlane l
  simp only [Lanes.collect, List.map_append, hlane, hgather]

theorem mem_dead {worker : Nat} : worker ∈ s.dead ↔ s.stageOf worker = some .dead := by
  unfold dead
  rw [List.mem_filter, beq_iff_eq, List.mem_range]
  refine and_iff_right_of_imp fun hs => ?_
  obtain ⟨w, hw, -⟩ := Option.map_eq_some_iff.mp hs
  exact (Array.getElem?_eq_some_iff.mp hw).1

section
variable (h : s.Sound) (halive : s.dead = [])

include h halive in
theorem running_of_current {i : Nat} {w : Worker} (hw : s.workers[i]? = some w)
    (hcur : w.current = some fiber) :
    w.stage = .running := by
  have haway := (h.worker i w hw).away
  rw [hcur] at haway
  cases hs : w.stage with
  | running => rfl
  | starting => cases haway (Or.inl hs)
  | left => cases haway (Or.inr hs)
  | dead =>
    have hmem : i ∈ s.dead := mem_dead.mpr (by rw [stageOf, hw, Option.map_some, hs])
    rw [halive] at hmem
    cases hmem

include h halive in
theorem timesAt_on_of_current {i : Nat} {w : Worker} (hw : s.workers[i]? = some w)
    (hcur : w.current = some fiber) :
    s.timesAt fiber (.on i) = 1 :=
  if_pos ⟨w, hw, running_of_current h halive hw hcur, hcur⟩

theorem timesAt_on_eq_zero {i : Nat} (hno : ∀ w, s.workers[i]? = some w → fiber ∉ w.current.toList) :
    s.timesAt fiber (.on i) = 0 :=
  if_neg fun ⟨w, hw, _, hcur⟩ => hno w hw (by rw [hcur]; exact List.mem_singleton_self _)

theorem timesAt_waiting_eq_zero {g : Nat}
    (hno : ∀ o, s.hub.groups.cells[g]? = some o → fiber ∉ Hub.fibersOf s.hub.links o) :
    s.timesAt fiber (.waiting g) = 0 := by
  refine List.count_eq_zero.mpr fun hm => ?_
  unfold Hub.waitingOn at hm
  cases hg : s.hub.groups.get? g with
  | none => rw [hg] at hm; cases hm
  | some t =>
    rw [hg] at hm
    exact hno _ (Hub.block_of_get? hg) hm

theorem count_fibers (ls : Lanes) (x : Nat) :
    (ls.readied.map (·.fiber)).count x = (ls.collect fun t => t.ready.map (·.fiber)).count x := by
  unfold Lanes.readied
  rw [map_collect]

theorem timesAt_on_of_count (h0 : s.currents.count fiber = 0) (i : Nat) : s.timesAt fiber (.on i) = 0 :=
  timesAt_on_eq_zero fun w hw hm => List.count_eq_zero.mp h0 (mem_gather.mpr ⟨i, w, hw, hm⟩)

theorem timesAt_waiting_of_count (h0 : s.hub.parked.count fiber = 0) (g : Nat) :
    s.timesAt fiber (.waiting g) = 0 :=
  timesAt_waiting_eq_zero fun o ho hm => List.count_eq_zero.mp h0 (mem_gather.mpr ⟨g, o, ho, hm⟩)

theorem timesAt_ready_of_count (h0 : (s.hub.lanes.readied.map (·.fiber)).count fiber = 0) (a : Affinity)
    (p : Priority) :
    s.timesAt fiber (.ready a p) = 0 := by
  refine List.count_eq_zero.mpr fun hm => ?_
  rw [count_fibers] at h0
  refine List.count_eq_zero.mp h0 ?_
  by_cases ha : s.hub.lanes.Has a
  · exact (Lanes.collect_setTier_empty rfl ha p).subset (List.mem_append_right _ hm)
  · rw [Lanes.tier_of_not_has ha] at hm
    cases hm

theorem timesAt_eq_zero (h0 : s.places fiber = 0) (spot : Spot) : s.timesAt fiber spot = 0 := by
  unfold places at h0
  rw [Hub.count_idle] at h0
  cases spot with
  | free => exact Nat.eq_zero_of_add_eq_zero_right (Nat.eq_zero_of_add_eq_zero_right h0)
  | on i => exact timesAt_on_of_count (by omega) i
  | waiting g => exact timesAt_waiting_of_count (by omega) g
  | ready a p => exact timesAt_ready_of_count (by omega) a p

include h halive in
theorem spot_of_places (hp : s.places fiber = 1) :
    ∃ spot, s.timesAt fiber spot = 1 ∧ ∀ other, other ≠ spot → s.timesAt fiber other = 0 := by
  have hfree0 : s.pool.isFree fiber = false → s.timesAt fiber .free = 0 :=
    fun hf => if_neg (by rw [hf]; decide)
  unfold places at hp
  rw [Hub.count_idle] at hp
  cases hf : s.pool.isFree fiber with
  | true =>
    rw [hf, if_pos rfl] at hp
    refine ⟨.free, if_pos hf, fun other hne => ?_⟩
    cases other with
    | free => exact absurd rfl hne
    | on i => exact timesAt_on_of_count (by omega) i
    | waiting g => exact timesAt_waiting_of_count (by omega) g
    | ready a p => exact timesAt_ready_of_count (by omega) a p
  | false =>
    rw [hf, if_neg (by decide), Nat.zero_add] at hp
    rcases Nat.eq_zero_or_pos (s.currents.count fiber) with hc | hc
    · rcases Nat.eq_zero_or_pos (s.hub.parked.count fiber) with hk | hk
      · have hr : (s.hub.lanes.readied.map (·.fiber)).count fiber = 1 := by omega
        rw [count_fibers] at hr
        obtain ⟨a, p, hone, hrest⟩ := Lanes.collect_once rfl hr
        refine ⟨.ready a p, hone, fun other hne => ?_⟩
        cases other with
        | free => exact hfree0 hf
        | on i => exact timesAt_on_of_count hc i
        | waiting g => exact timesAt_waiting_of_count hk g
        | ready b q => exact List.count_eq_zero.mpr (hrest b q fun he => hne (by cases he; rfl))
      · obtain ⟨g, o, ho, hone, hrest⟩ := gather_once (show s.hub.parked.count fiber = 1 by omega)
        refine ⟨.waiting g, ?_, fun other hne => ?_⟩
        · show (Hub.fibersOf s.hub.links (s.hub.groups.get? g)).count fiber = 1
          rw [BlockPool.get?_eq_join, ho]
          exact hone
        · cases other with
          | free => exact hfree0 hf
          | on i => exact timesAt_on_of_count hc i
          | waiting k =>
            exact timesAt_waiting_eq_zero fun o ho => hrest k o ho fun he => hne (congrArg Spot.waiting he)
          | ready a p => exact timesAt_ready_of_count (by omega) a p
    · obtain ⟨i, w, hw, hone, hrest⟩ := gather_once (show s.currents.count fiber = 1 by omega)
      have hcur : w.current = some fiber :=
        Option.mem_toList.mp (List.count_pos_iff.mp (by rw [hone]; exact Nat.one_pos))
      refine ⟨.on i, timesAt_on_of_current h halive hw hcur, fun other hne => ?_⟩
      cases other with
      | free => exact hfree0 hf
      | on j => exact timesAt_on_eq_zero fun v hv => hrest j v hv fun he => hne (congrArg Spot.on he)
      | waiting g => exact timesAt_waiting_of_count (by omega) g
      | ready a p => exact timesAt_ready_of_count (by omega) a p

end

/-! ## Runs -/

/-- What a run keeps while no group has too many handles: every fiber has one place,
and a fiber is resumed once for each time it is parked. -/
structure Placed (s : System κ μ ρ) (ds : List (Deed κ μ ρ)) : Prop where
  sound : s.Sound
  ledger : Ledger s
  full : ∀ fiber, fiber < s.pool.slots.size → s.places fiber = 1
  parks : ∀ fiber, ds.countP (Deed.parks fiber) = ds.countP (Deed.resumes fiber) + s.hub.idle.count fiber

theorem New.placed (h : New s) : Placed s [] where
  sound := h.sound
  ledger := by
    have hnone : s.handles = [] := by
      unfold handles Hub.tracked
      rw [h.runs, gather_replicate heldBy _ rfl, h.kept, h.hub.jobs]
      rfl
    refine ⟨⟨fun g t ht => ?_, fun g _ => by rw [hnone]; exact List.not_mem_nil⟩, fun g x hx => ?_⟩
    · rw [h.get?_groups] at ht; cases ht
    · unfold Hub.waitingOn at hx
      rw [h.get?_groups] at hx; cases hx
  full := fun fiber hlt => by rw [h.places, if_pos hlt]
  parks := fun fiber => by rw [h.idle]; rfl

theorem places_move (h : s.Sound) (m : Move κ μ ρ)
    (hidle : IdleBy s (move body s m) (deeds s (move body s m) m)) :
    (move body s m).places fiber = s.places fiber := by
  rcases called_move body h m with ⟨worker, rfl⟩ | rfl | ⟨queued, hcalled, hds⟩
  · rcases ((turn_of_sound h body worker).moved h).2 with hsame | ⟨hstill, hplaces⟩
    · exact hsame fiber
    · have hbalance := hidle fiber
      obtain ⟨hparks, hresumes⟩ := hstill fiber
      have hplaces := hplaces fiber
      simp only [move] at hbalance ⊢
      rw [hparks, hresumes] at hbalance
      omega
  · rfl
  · have hplaces := hcalled.places fiber
    have hbalance := hidle fiber
    obtain ⟨hparks, hresumes⟩ := still_acceptances (κ := κ) (μ := μ) (ρ := ρ) queued fiber
    rw [hds, hparks, hresumes] at hbalance
    omega

theorem Placed.step {ds : List (Deed κ μ ρ)} (h : Placed s ds) (hfew : FewHandles s) (m : Move κ μ ρ) :
    Placed (move body s m) (ds ++ deeds s (move body s m) m) := by
  obtain ⟨hl, hidle⟩ := ledger_move body h.sound h.ledger hfew m
  refine ⟨sound_move body h.sound m, hl, fun fiber hlt => ?_, fun fiber => ?_⟩
  · rw [places_move h.sound m hidle]
    refine h.full fiber ?_
    rwa [(sameShape_move body h.sound m).pool.size] at hlt
  · have := h.parks fiber
    have := hidle fiber
    rw [List.countP_append, List.countP_append]
    omega

theorem New.placed_play (h : New s) {moves : List (Move κ μ ρ)}
    (hfew : Along body (fun s _ => FewHandles s) s moves) :
    Placed (play body s moves) (history body s moves) :=
  play_induction (fun _ _ m hfew hp => hp.step hfew m) hfew h.placed

/-! ## Resuming and renting -/

theorem ready_of_resumed (h : s.Sound) {worker : Nat}
    (hd : .resumed fiber ∈ deeds s (move body s (.work worker)) (.work worker)) :
    fiber ∈ s.hub.idle ∧ ∃ a p, 0 < s.timesAt fiber (.ready a p) := by
  have ht := turn_of_sound h body worker
  simp only [move] at hd
  generalize hds : deeds s (step body worker s).state (.work worker) = ds at ht hd
  generalize (step body worker s).state = s' at ht
  cases ht with
  | rest | exhausted | started | died | passed | returned | left => cases hd
  | @went w x run run' s₁ queued action hon hjob hcalled hdoes hsource =>
    rcases List.mem_append.mp hd with hd | hd
    · cases queued with
      | none => cases hd
      | some q => cases List.mem_singleton.mp hd
    · cases List.mem_singleton.mp hd
  | parked | ended | began => cases List.mem_singleton.mp hd
  | @resumed w x ready lanes slot old hon hno htake hx hold =>
    cases List.mem_singleton.mp hd
    have hm : ready ∈ s.hub.lanes.readied := (Lanes.take_fiber htake).1.mem_iff.mpr List.mem_cons_self
    obtain ⟨a, p, -, hr⟩ := Lanes.exists_tier_of_mem hm
    exact ⟨List.mem_append_right _ (List.mem_map.mpr ⟨ready, hm, rfl⟩), a, p,
      List.count_pos_iff.mpr (List.mem_map.mpr ⟨ready, hr, rfl⟩)⟩

theorem Called.aborted {queued : Option (Nat × Option Nat)} (hc : Called s s' queued) :
    s'.aborted = s.aborted := by
  rw [hc.rest]

/-- The process is ended by a worker that finds no free fiber in the normal tier. -/
theorem busy_of_aborted (h : s.Sound) {m : Move κ μ ρ} (hbefore : s.aborted = false)
    (hafter : (move body s m).aborted = true) (hlt : fiber < s.pool.normal) :
      s.pool.isFree fiber = false := by
  have hkept : (move body s m).aborted = s.aborted → s.pool.isFree fiber = false := fun he => by
    rw [he, hbefore] at hafter
    cases hafter
  rcases called_move body h m with ⟨worker, rfl⟩ | rfl | ⟨queued, hcalled, -⟩
  · have ht := turn_of_sound h body worker
    simp only [move] at hkept
    generalize deeds s (step body worker s).state (.work worker) = ds at ht
    generalize (step body worker s).state = s' at ht hkept
    cases ht with
    | exhausted _ hall => exact hall fiber hlt
    | went hon hjob hcalled => exact hkept hcalled.aborted
    | _ => exact hkept rfl
  · exact hkept rfl
  · exact hkept hcalled.aborted

theorem countP_currents (p : Nat → Bool) (s : System κ μ ρ) :
    s.currents.countP p = s.workers.toList.countP fun w => w.current.any p := by
  unfold currents gather
  induction s.workers.toList with
  | nil => rfl
  | cons w ws ih =>
    rw [List.flatMap_cons, List.countP_append, ih, List.countP_cons]
    cases w.current with
    | none => simp
    | some x =>
      rw [Option.toList_some, List.countP_singleton, Option.any_some]
      omega

theorem count_busy {ds : List (Deed κ μ ρ)} (h : Placed s ds)
    (hbusy : ∀ fiber, fiber < s.pool.normal → s.pool.isFree fiber = false) :
    s.workers.toList.countP (fun w => w.current.any fun x => decide (x < s.pool.normal)) +
      s.hub.idle.countP (fun x => decide (x < s.pool.normal)) = s.pool.normal := by
  have hperm :
      ((s.currents ++ s.hub.idle).filter fun x => decide (x < s.pool.normal)).Perm
      (List.range s.pool.normal) := by
    refine List.perm_iff_count.mpr fun x => ?_
    rw [List.count_range]
    by_cases hx : x < s.pool.normal
    · have hp := h.full x (by have := h.sound.pool.size; omega)
      unfold places at hp
      rw [hbusy x hx, if_neg (by decide)] at hp
      rw [List.count_filter (by simpa using hx), List.count_append, if_pos hx]
      omega
    · rw [if_neg hx]
      exact List.count_eq_zero.mpr fun hm => hx (by simpa using (List.mem_filter.mp hm).2)
  have hlen := hperm.length_eq
  rw [List.length_range, ← List.countP_eq_length_filter, List.countP_append] at hlen
  rw [← countP_currents]
  exact hlen

theorem normal_play (h : s.Sound) (moves : List (Move κ μ ρ)) :
    (play body s moves).pool.normal = s.pool.normal := by
  induction moves generalizing s with
  | nil => rfl
  | cons m moves ih => exact (ih (sound_move body h m)).trans (sameShape_move body h m).pool.normal

section
variable {mode : Mode} {host : Host} {config : Config} {memory : μ} {x : σ} {s₀ : System κ μ ρ}
  (hnew : ((new mode host config memory : Act ρ σ (Except Refusal (System κ μ ρ))) x).result = .ok (.ok s₀))
  {moves : List (Move κ μ ρ)} (hplay : play body s₀ moves = s)
  (hfew : Along body (fun s _ => FewHandles s) s₀ moves) (halive : s.dead = [])
include hnew hplay hfew halive

/-- Whatever the workers and the callers do, in a run without a dead worker every fiber is
in one place, and there once; it is marked as free exactly where that place is the pool.
Only a fiber in a queue is ever resumed, and once for each time it is parked. The process
is ended for want of a fiber only when each normal fiber is on a worker, parked or queued. -/
theorem fiber_in_one_place : (∀ fiber, fiber < s.pool.capacity → ∃ spot, s.timesAt fiber spot = 1 ∧
      (∀ other, other ≠ spot → s.timesAt fiber other = 0) ∧ (s.pool.isFree fiber = true ↔ spot = .free)) ∧
    (∀ worker fiber, .resumed fiber ∈ deeds s (move body s (.work worker)) (.work worker) →
      ∃ a p, s.timesAt fiber (.ready a p) = 1 ∧ ∀ other, other ≠ .ready a p → s.timesAt fiber other = 0) ∧
    (∀ fiber, (history body s₀ moves).countP (Deed.parks fiber) =
      (history body s₀ moves).countP (Deed.resumes fiber) + s.hub.idle.count fiber ∧
        s.hub.idle.count fiber ≤ 1) ∧
    (∀ m, s.aborted = false → (move body s m).aborted = true →
      s.workers.toList.countP (fun w => w.current.any fun fiber => decide (fiber < config.fiberCount.toNat)) +
        s.hub.idle.countP (fun fiber => decide (fiber < config.fiberCount.toNat)) =
          config.fiberCount.toNat) := by
  have hplaced : Placed s (history body s₀ moves) := hplay ▸ (new_of_ok hnew).placed_play hfew
  have hnormal : s.pool.normal = config.fiberCount.toNat :=
    hplay ▸ (normal_play (new_of_ok hnew).sound moves).trans (normal_of_ok hnew)
  have hspot : ∀ fiber, fiber < s.pool.capacity → ∃ spot, s.timesAt fiber spot = 1 ∧
      ∀ other, other ≠ spot → s.timesAt fiber other = 0 := fun fiber hlt =>
    spot_of_places hplaced.sound halive (hplaced.full fiber hlt)
  refine ⟨fun fiber hlt => ?_, fun worker fiber hd => ?_, fun fiber => ⟨hplaced.parks fiber, ?_⟩,
    fun m hbefore hafter => ?_⟩
  · obtain ⟨spot, hone, hrest⟩ := hspot fiber hlt
    refine ⟨spot, hone, hrest, fun hf => ?_, fun he => ?_⟩
    · refine Classical.byContradiction fun hne => ?_
      have h0 := hrest .free (Ne.symm hne)
      rw [timesAt, if_pos hf] at h0
      cases h0
    · subst he
      rw [timesAt] at hone
      split at hone
      · assumption
      · cases hone
  -- What is resumed was in a queue, so that is its one place.
  · obtain ⟨hidle, a, p, hpos⟩ := ready_of_resumed hplaced.sound hd
    have hlt : fiber < s.pool.capacity := by
      have := List.count_pos_iff.mpr hidle
      exact hplaced.sound.inside fiber (by unfold places; omega)
    obtain ⟨spot, hone, hrest⟩ := hspot fiber hlt
    have he : .ready a p = spot := Classical.byContradiction fun hne => by
      have := hrest _ hne
      omega
    subst he
    exact ⟨a, p, hone, hrest⟩
  · have := hplaced.sound.place fiber
    unfold places at this
    omega
  -- The rent failed, so no normal fiber is in the pool.
  · have := count_busy hplaced fun fiber hlt => busy_of_aborted hplaced.sound hbefore hafter hlt
    rwa [hnormal] at this

end

theorem waiting_fiber_in_one_place : (play smallBody small parking).timesAt 0 (.waiting 0) = 1 ∧
    ∃ spot, (play smallBody small parking).timesAt 0 spot = 1 ∧
      (∀ other, other ≠ spot → (play smallBody small parking).timesAt 0 other = 0) ∧
      ((play smallBody small parking).pool.isFree 0 = true ↔ spot = .free) :=
  ⟨by decide +kernel, (fiber_in_one_place new_small rfl (by decide +kernel) (by decide +kernel)).1 0
    (by decide +kernel)⟩

/-! ## Too many handles -/

theorem move_call {c : Call κ μ ρ} {a : c.Answer}
    (h : (perform none s.kept c : Act ρ (System κ μ ρ) c.Answer) s = ⟨.ok a, s', []⟩) :
    move body s (.call c) = { s' with kept := c.settle a s'.kept } := by
  show (ask c s).state = _
  unfold ask
  rw [get_bind, bind_quiet _ h]
  rfl

def holding (s : System κ μ ρ) (g : Nat) (t : Group) (kept : List Nat) : System κ μ ρ :=
  { s with hub := s.hub.store g (some t) s.hub.groups.free, kept }

theorem holding_holding (g : Nat) (t' t'' : Group) (kept kept' : List Nat) :
    (s.holding g t' kept).holding g t'' kept' = s.holding g t'' kept' := by
  unfold holding
  simp only [Hub.store_store]
  rfl

section
variable {g : Nat} {t : Group} (hs : s.hub.groups.get? g = some t)
include hs

theorem get?_holding (t' : Group) (kept : List Nat) : (s.holding g t' kept).hub.groups.get? g = some t' :=
  (Hub.get?_store (Hub.block_of_get? hs) g).trans (if_pos rfl)

variable (hg : g ∈ s.kept)
include hg

theorem move_cloneGroup :
    move body s (.call (.cloneGroup g)) = s.holding g { t with handles := t.handles + 1 } (g :: s.kept) := by
  have hanswer : (perform none s.kept (.cloneGroup g) : Act ρ (System κ μ ρ) Unit) s =
      ⟨.ok (), s.holding g { t with handles := t.handles + 1 } s.kept, []⟩ := by
    unfold perform
    rw [get_bind, if_pos (by simpa [Call.permits] using hg)]
    simp only [answer, onHub, zoom, Hub.cloneGroup_apply hs]
    rfl
  exact move_call hanswer

/-- The last handle to a group, as far as its count tells. -/
theorem move_dropGroup (hlast : t.handles = 1) : move body s (.call (.dropGroup g)) =
    { s with hub := s.hub.store g none (s.hub.groups.free ++ [g]), kept := s.kept.erase g } := by
  have hanswer : (perform none s.kept (.dropGroup g) : Act ρ (System κ μ ρ) Unit) s =
      ⟨.ok (), { s with hub := s.hub.store g none (s.hub.groups.free ++ [g]) }, []⟩ := by
    unfold perform
    rw [get_bind, if_pos (by simpa [Call.permits] using hg)]
    simp only [answer, onHub, zoom, Hub.dropGroup_apply hs, if_pos hlast]
  exact move_call hanswer

theorem play_cloneGroup (n : Nat) : play body s (List.replicate n (.call (.cloneGroup g))) =
    s.holding g { t with handles := t.handles + .ofNat n } (List.replicate n g ++ s.kept) := by
  induction n generalizing s t with
  | zero =>
    show s = s.holding g { t with handles := t.handles + 0 } s.kept
    rw [UInt32.add_zero, holding, Hub.store_self hs]
  | succ n ih =>
    have hcount : t.handles + 1 + UInt32.ofNat n = t.handles + UInt32.ofNat (n + 1) := by
      rw [UInt32.add_assoc, UInt32.ofNat_add, UInt32.add_comm 1]
      rfl
    have hkept : List.replicate n g ++ g :: s.kept = List.replicate (n + 1) g ++ s.kept := by
      rw [List.replicate_succ', List.append_assoc]
      rfl
    have hrest :
        play body (s.holding g { t with handles := t.handles + 1 } (g :: s.kept))
        (List.replicate n (.call (.cloneGroup g))) =
          (s.holding g _ _).holding g { t with handles := t.handles + 1 + .ofNat n }
            (List.replicate n g ++ g :: s.kept) :=
      ih (get?_holding hs _ _) List.mem_cons_self
    rw [List.replicate_succ, play, List.foldl_cons, move_cloneGroup hs hg]
    refine hrest.trans ?_
    rw [holding_holding, hcount, hkept]

/-- Enough handles that are kept make the next one given up look like the last. -/
theorem play_hoard (n : Nat) (hwrap : t.handles + .ofNat n = 1) :
    play body s (List.replicate n (.call (.cloneGroup g)) ++ [.call (.dropGroup g)]) =
      { s with
        hub := s.hub.store g none (s.hub.groups.free ++ [g])
        kept := (List.replicate n g ++ s.kept).erase g } := by
  -- All clones are one state; the count of handles comes around to one.
  rw [play_append, play_cloneGroup hs hg]
  show move body (s.holding g _ _) (.call (.dropGroup g)) = _
  rw [move_dropGroup (get?_holding hs _ _) (List.mem_append_right _ hg) hwrap]
  unfold holding
  simp only [Hub.store_store]
  rfl

end

def Lost (s : System κ μ ρ) (fiber : Nat) : Prop :=
  s.dead = [] ∧ fiber < s.pool.capacity ∧ ∀ spot, s.timesAt fiber spot = 0

/-- A job waits on group 0, which counts a unit and has a handle outside besides that of the job. -/
def lodging : List (Move Bool Unit Unit) :=
  [.call .newGroup, .call (.add 0 1), .call (.cloneGroup 0), .call (.spawn true none .normal .any), .work 0,
    .work 0, .work 0, .work 0]

def leaking (handles : Nat) : List (Move Bool Unit Unit) :=
  lodging ++ (List.replicate handles (.call (.cloneGroup 0)) ++ [.call (.dropGroup 0)])

theorem lost_of_freed {g : Nat} {kept : List Nat} (hdead : s.dead = []) (hlt : fiber < s.pool.capacity)
    (hnowhere : ({ s with hub := s.hub.store g none (s.hub.groups.free ++ [g]) } :
      System κ μ ρ).places fiber = 0) :
    Lost { s with hub := s.hub.store g none (s.hub.groups.free ++ [g]), kept } fiber :=
  ⟨hdead, hlt, timesAt_eq_zero hnowhere⟩

/-- Not every fiber has a place: 2^32 - 1 handles more make two look like one, and when that is
given up the block of the group is freed under the fiber that waits. -/
theorem fiber_lost_by_handles : Lost (play smallBody small (leaking 4294967295)) 0 := by
  have hs : (play smallBody small lodging).hub.groups.get? 0 = some ⟨1, 2, some 0⟩ := by decide +kernel
  rw [leaking, play_append, play_hoard hs (by decide +kernel) 4294967295 (by decide)]
  exact lost_of_freed (by decide +kernel) (by decide +kernel) (by decide +kernel)

end FiberScheduler.System
