import FiberScheduler.Proofs.Shapes

/-!
# The places of fibers

No step lets a fiber get into a second place, or drops one that holds no unfinished run.
-/

namespace FiberScheduler.System

variable {κ μ ρ : Type} {body : κ → Program κ μ ρ Unit} {s s' : System κ μ ρ} {worker : Nat}
  {ds : List (Deed κ μ ρ)}

theorem count_one (a b : Nat) : [a].count b = if a = b then 1 else 0 := by
  rw [List.count_singleton]
  by_cases h : a = b <;> simp [h]

theorem count_currents {i : Nat} {w : Worker} (hw : s.workers[i]? = some w) {c d : Option Nat}
    (hc : w.current = c) (new : Worker) (hd : new.current = d) (x : Nat) :
    (gather (·.current.toList) (s.workers.setIfInBounds i new)).count x + c.toList.count x =
      s.currents.count x + d.toList.count x := by
  have := count_gather_set (·.current.toList) new hw x
  rwa [hc, hd] at this

theorem Spots.of_le (h : Spots s) (hsize : s'.pool.slots.size = s.pool.slots.size)
    (hle : ∀ x, s'.places x ≤ s.places x) (nowhere : ∀ x, s'.places x < s.places x → (s'.run? x).isSome)
    (kept : ∀ x, s.places x = 0 → (s.run? x).isSome → (s'.run? x).isSome)
    (unused : ∀ x, s'.pool.isFree x = true → s'.run? x = none)
    (unfinished : ∀ x ∈ s'.hub.idle, (s'.run? x).isSome)
    (suspended : ∀ x ∈ s'.hub.idle, ∀ slot, s'.pool.slots[x]? = some slot → slot.suspended = true) :
    Spots s' where
  place := fun x => Nat.le_trans (hle x) (h.place x)
  inside := fun x hx => by rw [hsize]; exact h.inside x (Nat.lt_of_lt_of_le hx (hle x))
  nowhere := fun x hx h0 => by
    rcases Nat.eq_zero_or_pos (s.places x) with hp | hp
    · exact kept x hp (h.nowhere x (by rwa [hsize] at hx) hp)
    · exact nowhere x (by omega)
  unused := unused
  unfinished := unfinished
  suspended := suspended

theorem idle_of_take_fiber {sources : List Affinity} {ready : Ready} {h : Hub κ} {lanes : Lanes}
    (htake : h.lanes.take sources = some (.fiber ready, lanes)) (x : Nat) :
    ({ h with lanes } : Hub κ).idle.count x + [ready.fiber].count x = h.idle.count x := by
  have hr := ((Lanes.take_fiber htake).1.map (·.fiber)).count_eq x
  rw [List.map_cons, ← List.singleton_append, List.count_append] at hr
  rw [Hub.count_idle, Hub.count_idle]
  show h.parked.count x + (lanes.readied.map (·.fiber)).count x + _ = _
  omega

theorem idle_of_readied {h : Hub κ} {lanes : Lanes} (hr : lanes.readied = h.lanes.readied) :
    ({ h with lanes } : Hub κ).idle = h.idle := by
  unfold Hub.idle
  rw [show ({ h with lanes } : Hub κ).lanes.readied = h.lanes.readied from hr]
  rfl

theorem Spots.of_eq (h : Spots s) (hsize : s'.pool.slots.size = s.pool.slots.size)
    (hplaces : ∀ x, s'.places x = s.places x) (hruns : s'.runs = s.runs)
    (unused : ∀ x, s'.pool.isFree x = true → s.run? x = none)
    (unfinished : ∀ x ∈ s'.hub.idle, (s.run? x).isSome)
    (suspended : ∀ x ∈ s'.hub.idle, ∀ slot, s'.pool.slots[x]? = some slot → slot.suspended = true) :
    Spots s' := by
  have hrun : ∀ x, s'.run? x = s.run? x := fun x => by unfold run?; rw [hruns]
  refine h.of_le hsize (fun x => Nat.le_of_eq (hplaces x)) (fun x hx => ?_) (fun x _ hr => by rwa [hrun])
    (fun x hx => by rw [hrun]; exact unused x hx) (fun x hx => by rw [hrun]; exact unfinished x hx) suspended
  have := hplaces x
  omega

theorem Spots.of_putRun (h : s.Sound) {w : Worker} {fiber : Nat} {run : Option (Run κ μ ρ)}
    (hw : s.workers[worker]? = some w) (hcur : w.current = some fiber) (hpool : s'.pool = s.pool)
    (hruns : s'.runs = s.runs.setIfInBounds fiber run)
    (hcurrents : ∀ x, s'.currents.count x = s.currents.count x)
    (hidle : ∀ x, s'.hub.idle.count x ≤ s.hub.idle.count x) :
    Spots s' ∧ ∀ x, s'.places x + s.hub.idle.count x = s.places x + s'.hub.idle.count x := by
  obtain ⟨hpos, hbusy, hnot⟩ := h.of_current hw hcur
  have hsub : ∀ x ∈ s'.hub.idle, x ∈ s.hub.idle := fun x hx =>
    List.count_pos_iff.mp (Nat.lt_of_lt_of_le (List.count_pos_iff.mpr hx) (hidle x))
  have hother : ∀ x, x ≠ fiber → s'.run? x = s.run? x := fun x hx => by
    unfold run?
    rw [hruns, Array.getElem?_setIfInBounds, if_neg (Ne.symm hx)]
  have hne : ∀ x ∈ s.hub.idle, x ≠ fiber := fun x hx he => hnot (he ▸ hx)
  have hplaces : ∀ x, s'.places x + s.hub.idle.count x = s.places x + s'.hub.idle.count x := fun x => by
    unfold places
    rw [hpool, hcurrents]
    omega
  refine ⟨h.toSpots.of_le (by rw [hpool]) (fun x => ?_) (fun x hx => ?_) (fun x hx hr => ?_) (fun x hx => ?_)
    (fun x hx => ?_) (fun x hx => ?_), hplaces⟩
  · have := hplaces x
    have := hidle x
    omega
  · have hm : x ∈ s.hub.idle := List.count_pos_iff.mp (by have := hplaces x; omega)
    rw [hother x (hne x hm)]
    exact h.unfinished x hm
  · rwa [hother x]
    rintro rfl
    unfold places at hx
    omega
  · rw [hpool] at hx
    rw [hother x]
    · exact h.unused x hx
    · rintro rfl
      rw [hbusy] at hx
      cases hx
  · have hm := hsub x hx
    rw [hother x (hne x hm)]
    exact h.unfinished x hm
  · rw [hpool]
    exact h.suspended x (hsub x hx)

theorem Spots.of_switch (h : s.Sound) {w w' : Worker} {fiber next : Nat} {slot new old old' : Slot}
    (hw : s.workers[worker]? = some w) (hcur : w.current = some fiber) (hcur' : w'.current = some next)
    (hne : next ≠ fiber) (hx : s.pool.slots[next]? = some slot) (hold : s.pool.slots[fiber]? = some old)
    (hnew : new.free = false) (hslots : ∀ k,
      s'.pool.slots[k]? = if fiber = k then some old' else if next = k then some new else s.pool.slots[k]?)
    (hsize : s'.pool.slots.size = s.pool.slots.size)
    (hworkers : s'.workers = s.workers.setIfInBounds worker w') (hruns : s'.runs = s.runs)
    (hidle : ∀ x, s'.hub.idle.count x + [next].count x + (if old'.free then [fiber].count x else 0) =
      s.hub.idle.count x + (if slot.free then [next].count x else 0) + [fiber].count x)
    (hfree : old'.free = true → s.run? fiber = none)
    (hkept : old'.free = false → (s.run? fiber).isSome ∧ old'.suspended = true) :
    Spots s' ∧ ∀ x, s'.places x = s.places x := by
  obtain ⟨hpos, hbusy, hnot⟩ := h.of_current hw hcur
  have hfiber : s.hub.idle.count fiber = 0 := List.count_eq_zero.mpr hnot
  have hisFree : ∀ k, s'.pool.isFree k =
      if fiber = k then old'.free else if next = k then new.free else s.pool.isFree k := fun k => by
    rw [FiberPool.isFree, hslots]
    by_cases hfk : fiber = k
    · rw [if_pos hfk, if_pos hfk]; rfl
    · rw [if_neg hfk, if_neg hfk]
      by_cases hnk : next = k
      · rw [if_pos hnk, if_pos hnk]; rfl
      · rw [if_neg hnk, if_neg hnk]; rfl
  -- Who rests afterwards is the fiber that was left, or rested before.
  have hidle' : ∀ x ∈ s'.hub.idle, x ≠ next ∧ (x = fiber ∧ old'.free = false ∨ x ≠ fiber ∧ x ∈ s.hub.idle) :=
    fun x hm => by
    have hmem := List.count_pos_iff.mpr hm
    have hx' := hidle x
    rw [count_one, count_one] at hx'
    have hp := h.place x
    unfold places at hp
    refine ⟨?_, ?_⟩
    · rintro rfl
      rw [FiberPool.isFree_of_slot hx] at hp
      rw [if_pos rfl, if_neg (Ne.symm hne)] at hx'
      rw [ite_self] at hx'
      omega
    · by_cases hfx : fiber = x
      · subst hfx
        refine Or.inl ⟨rfl, ?_⟩
        cases hf : old'.free with
        | false => rfl
        | true =>
          rw [hf, if_pos rfl, if_pos rfl, if_neg hne, hfiber, ite_self] at hx'
          omega
      · refine Or.inr ⟨Ne.symm hfx, List.count_pos_iff.mp ?_⟩
        rw [if_neg hfx, ite_self] at hx'
        by_cases hnx : next = x
        · subst hnx
          rw [if_pos rfl] at hx'
          rw [FiberPool.isFree_of_slot hx] at hp
          omega
        · rw [if_neg hnx, ite_self] at hx'
          omega
  have hplaces : ∀ x, s'.places x = s.places x := fun x => by
    have hcurrents := count_gather_set (·.current.toList) w' hw x
    rw [hcur, hcur'] at hcurrents
    have hx' := hidle x
    simp only [Option.toList_some] at hcurrents
    rw [count_one, count_one] at hcurrents hx'
    unfold places currents
    rw [hworkers, hisFree]
    by_cases hfx : fiber = x
    · subst hfx
      rw [if_pos rfl, hbusy]
      rw [if_pos rfl, if_neg hne] at hcurrents hx'
      rw [ite_self] at hx'
      cases hf : old'.free <;> simp only [hf, if_true, Bool.false_eq_true, if_false] at hx' ⊢ <;> omega
    · rw [if_neg hfx]
      rw [if_neg hfx] at hcurrents hx'
      rw [ite_self] at hx'
      by_cases hnx : next = x
      · subst hnx
        rw [if_pos rfl, hnew, FiberPool.isFree_of_slot hx]
        rw [if_pos rfl] at hcurrents hx'
        cases hf : slot.free <;> simp only [hf, if_true, Bool.false_eq_true, if_false] at hx' ⊢ <;> omega
      · rw [if_neg hnx]
        rw [if_neg hnx] at hcurrents hx'
        rw [ite_self] at hx'
        omega
  refine ⟨h.toSpots.of_eq hsize hplaces hruns (fun x hf => ?_) (fun x hm => ?_) fun x hm slot' hs => ?_,
    hplaces⟩
  · rw [hisFree] at hf
    by_cases hfx : fiber = x
    · rw [if_pos hfx] at hf
      exact hfx ▸ hfree hf
    · rw [if_neg hfx] at hf
      by_cases hnx : next = x
      · rw [if_pos hnx, hnew] at hf; cases hf
      · rw [if_neg hnx] at hf
        exact h.unused x hf
  · rcases (hidle' x hm).2 with ⟨rfl, hf⟩ | ⟨-, hm⟩
    · exact (hkept hf).1
    · exact h.unfinished x hm
  · obtain ⟨hnx, hcase⟩ := hidle' x hm
    rw [hslots] at hs
    rcases hcase with ⟨rfl, hf⟩ | ⟨hfx, hm⟩
    · rw [if_pos rfl] at hs
      rw [← Option.some.inj hs]
      exact (hkept hf).2
    · rw [if_neg (Ne.symm hfx), if_neg (Ne.symm hnx)] at hs
      exact h.suspended x hm slot' hs

/-- A worker takes a fiber out of the pool, or brings one back to it. -/
theorem Spots.of_exchange (h : s.Sound) {w w' : Worker} {fiber : Nat} {old new : Slot}
    (hw : s.workers[worker]? = some w) (hold : s.pool.slots[fiber]? = some old)
    (hnot : fiber ∉ s.hub.idle) (hunused : new.free = true → s.run? fiber = none)
    (hslots : ∀ k, s'.pool.slots[k]? = if fiber = k then some new else s.pool.slots[k]?)
    (hsize : s'.pool.slots.size = s.pool.slots.size)
    (hworkers : s'.workers = s.workers.setIfInBounds worker w') (hruns : s'.runs = s.runs)
    (hhub : s'.hub = s.hub)
    (hcount : ∀ x, w'.current.toList.count x + (if new.free then [fiber].count x else 0) =
      w.current.toList.count x + (if old.free then [fiber].count x else 0)) :
    Spots s' ∧ ∀ x, s'.places x = s.places x := by
  have hisFree : ∀ k, s'.pool.isFree k = if fiber = k then new.free else s.pool.isFree k := fun k => by
    rw [FiberPool.isFree, hslots]
    by_cases hfk : fiber = k
    · rw [if_pos hfk, if_pos hfk]; rfl
    · rw [if_neg hfk, if_neg hfk]; rfl
  have hplaces : ∀ x, s'.places x = s.places x := fun x => by
    have hcurrents := count_gather_set (·.current.toList) w' hw x
    have hx := hcount x
    rw [count_one] at hx
    unfold places currents
    rw [hworkers, hisFree, hhub]
    by_cases hfx : fiber = x
    · subst hfx
      rw [if_pos rfl, FiberPool.isFree_of_slot hold]
      rw [if_pos rfl] at hx
      omega
    · rw [if_neg hfx]
      rw [if_neg hfx, ite_self, ite_self] at hx
      omega
  refine ⟨h.toSpots.of_eq hsize hplaces hruns (fun x hf => ?_) (fun x hm => ?_) fun x hm slot hs => ?_,
    hplaces⟩
  · rw [hisFree] at hf
    by_cases hfx : fiber = x
    · rw [if_pos hfx] at hf
      exact hfx ▸ hunused hf
    · rw [if_neg hfx] at hf
      exact h.unused x hf
  · rw [hhub] at hm
    exact h.unfinished x hm
  · rw [hhub] at hm
    have hne : fiber ≠ x := fun he => hnot (he ▸ hm)
    rw [hslots, if_neg hne] at hs
    exact h.suspended x hm slot hs

theorem slots_after {pool : FiberPool} {next fiber : Nat} {slot new old old' : Slot}
    (hx : pool.slots[next]? = some slot) (hold : pool.slots[fiber]? = some old) (hne : next ≠ fiber)
    (k : Nat) : ((pool.setSlot next new).setSlot fiber old').slots[k]? =
      if fiber = k then some old' else if next = k then some new else pool.slots[k]? := by
  rw [FiberPool.getElem?_setSlot (slot_after hx hold hne), FiberPool.getElem?_setSlot hx]

def Deed.parks (fiber : Nat) : Deed κ μ ρ → Bool
  | .parked x _ _ _ => x == fiber
  | _ => false

def Deed.resumes (fiber : Nat) : Deed κ μ ρ → Bool
  | .resumed x => x == fiber
  | _ => false

def Still (ds : List (Deed κ μ ρ)) : Prop :=
  ∀ fiber, ds.countP (Deed.parks fiber) = 0 ∧ ds.countP (Deed.resumes fiber) = 0

/-- Where the number of places of a fiber can change: parked fibers may get lost in an
action of a body, or at its end. -/
def Lossy (s s' : System κ μ ρ) (ds : List (Deed κ μ ρ)) : Prop :=
  Still ds ∧ ∀ fiber, s'.places fiber + s.hub.idle.count fiber = s.places fiber + s'.hub.idle.count fiber

theorem still_acceptances (queued : Option (Nat × Option Nat)) :
    Still (acceptances queued : List (Deed κ μ ρ)) := fun fiber => by
  cases queued <;> exact ⟨rfl, rfl⟩

theorem Still.append {ds es : List (Deed κ μ ρ)} (hd : Still ds) (he : Still es) : Still (ds ++ es) :=
    fun fiber => by
  rw [List.countP_append, List.countP_append, (hd fiber).1, (hd fiber).2, (he fiber).1, (he fiber).2]
  exact ⟨rfl, rfl⟩

theorem Turn.moved (h : s.Sound) (ht : Turn body s worker s' ds) :
    Spots s' ∧ ((∀ fiber, s'.places fiber = s.places fiber) ∨ Lossy s s' ds) := by
  have hsame := ht.sameShape h
  have hsize := hsame.pool.size
  have hkept : (Spots s' ∧ ∀ fiber, s'.places fiber = s.places fiber) →
      Spots s' ∧ ((∀ fiber, s'.places fiber = s.places fiber) ∨ Lossy s s' ds) :=
        fun hm => ⟨hm.1, Or.inl hm.2⟩
  -- A switch exchanges the places of two fibers, a run moves none.
  cases ht with
  | rest => exact ⟨h.toSpots, Or.inl fun _ => rfl⟩
  | exhausted _ hall seed =>
    exact ⟨⟨h.place, h.inside, h.nowhere, h.unused, h.unfinished, h.suspended⟩, Or.inl fun _ => rfl⟩
  | @started w fiber slot hw hstage htier hx hfree seed =>
    have hcur : w.current = none := (h.worker worker w hw).away (Or.inl hstage)
    have hx' : (s.pool.seeded seed).slots[fiber]? = some slot := hx
    have hfiber : s.pool.isFree fiber = true := by rw [FiberPool.isFree_of_slot hx]; exact hfree
    refine hkept (Spots.of_exchange h hw hx (h.of_free hfiber).2 (fun hf => by cases hf)
      (FiberPool.getElem?_setSlot hx' { slot with free := false }) hsize rfl rfl rfl fun x => ?_)
    rw [hcur, hfree, if_pos rfl]
    exact Nat.add_comm _ 0
  | @went w fiber run run' s₁ queued action hon hjob hcalled hdoes hsource =>
    obtain ⟨hub, kept, memory, rfl⟩ : ∃ hub kept memory, s₁ = { s with hub, kept, memory } :=
      ⟨_, _, _, hcalled.rest⟩
    exact And.imp id (fun hplaces => Or.inr ⟨(still_acceptances queued).append fun _ => ⟨rfl, rfl⟩, hplaces⟩)
      (Spots.of_putRun h hon.here hon.current rfl rfl (fun _ => rfl) hcalled.effect.calm.idle)
  | @parked w fiber next group run rest state slot old hon hrest hheld hs hcount htier hx hfree hold seed =>
    have hne := h.ne_of_free hon.here hon.current hx hfree
    have hnot := (h.of_current hon.here hon.current).2.2
    have hold' := FiberPool.isFree_of_slot hold
    rw [(h.of_current hon.here hon.current).2.1] at hold'
    have hx' : (s.pool.seeded seed).slots[next]? = some slot := hx
    refine hkept (Spots.of_switch h hon.here hon.current (by rfl) hne hx hold (by rfl)
      (slots_after hx' hold hne) hsize rfl rfl (fun x => ?_)
      (fun hf => by cases hold'.trans hf) fun _ => ⟨by rw [hon.run]; rfl, rfl⟩)
    have hparked := Hub.count_parked_withParked (a := w.affinity) w.priority h.tidy hs
      (fun hm => hnot (List.mem_append_left _ hm))
      (by rw [h.links]; exact (Array.getElem?_eq_some_iff.mp hold).1) x
    have hidle :
        (s.hub.withParked group state fiber w.priority w.affinity).idle.count x = s.hub.idle.count x +
        [fiber].count x := by
      rw [Hub.count_idle, Hub.count_idle, hparked]
      show _ + (s.hub.lanes.readied.map (·.fiber)).count x = _
      omega
    show (s.hub.withParked group state fiber w.priority w.affinity).idle.count x + _ +
      (if old.free then _ else _) = _
    rw [hidle, ← hold', hfree, if_pos rfl, if_neg (by decide)]
    omega
  | @ended w fiber run record panic hub hon hover hrec hend =>
    exact And.imp id (fun hplaces => Or.inr ⟨fun _ => ⟨rfl, rfl⟩, hplaces⟩)
      (Spots.of_putRun h hon.here hon.current rfl rfl (fun _ => rfl)
        ((Hub.ends_endRun h.tidy hrec).pin hend).calm.idle)
  | @died w fiber run record panic fault hub hon hover hrec hend =>
    refine And.imp id (fun hplaces => Or.inr ⟨fun _ => ⟨rfl, rfl⟩, hplaces⟩)
      (Spots.of_putRun h hon.here hon.current rfl rfl (fun x => ?_)
        ((Hub.ends_endRun h.tidy hrec).pin hend).calm.idle)
    exact Nat.add_right_cancel (count_currents hon.here hon.current { w with stage := .dead } hon.current x)
  | @began w w' fiber job record lanes hon hrec hway =>
    obtain ⟨hcur, hready⟩ : w'.current = some fiber ∧ lanes.readied = s.hub.lanes.readied := by
      rcases hway with ⟨-, rfl, rfl⟩ | ⟨p, a, -, htake, rfl, -⟩
      · exact ⟨hon.current, rfl⟩
      · exact ⟨hon.current, (Lanes.take_job htake).2.1⟩
    have hidle : ∀ x, ({ s.hub with lanes } : Hub κ).idle.count x = s.hub.idle.count x := fun x =>
      congrArg (List.count x) (idle_of_readied hready)
    refine And.imp id (fun hplaces => Or.inl fun x =>
      Nat.add_right_cancel ((hplaces x).trans (congrArg (_ + ·) (hidle x))))
      (Spots.of_putRun h hon.here hon.current rfl rfl (fun x => ?_) fun x => Nat.le_of_eq (hidle x))
    exact Nat.add_right_cancel (count_currents hon.here hon.current w' hcur x)
  | @passed w fiber next job p a lanes slot old hon hno htake hneeds hnormal htier hx hfree hold seed =>
    have hne := h.ne_of_free hon.here hon.current hx hfree
    have hold' := FiberPool.isFree_of_slot hold
    have hx' : (s.pool.seeded seed).slots[next]? = some slot := hx
    refine hkept (Spots.of_switch h hon.here hon.current (by rfl) hne hx hold (by rfl)
      (slots_after hx' hold hne) hsize rfl rfl (fun x => ?_)
      (fun _ => hon.run) fun hf => by cases hf)
    show ({ s.hub with lanes } : Hub κ).idle.count x + _ + _ = _
    rw [idle_of_readied (Lanes.take_job htake).2.1, hfree, if_pos rfl]
    rfl
  | @returned w fiber job p a lanes lanes' hon hno htake hneeds hnormal hall hput seed =>
    have hidle : ({ s.hub with lanes := lanes' } : Hub κ).idle = s.hub.idle :=
      idle_of_readied ((Lanes.pushJob_ok hput).2.1.trans (Lanes.take_job htake).2.1)
    have hmem : ∀ x ∈ ({ s.hub with lanes := lanes' } : Hub κ).idle, x ∈ s.hub.idle := fun x hm => hidle ▸ hm
    have hplaces :
        ∀ x, (((s.setPool (s.pool.seeded seed)).setHub { s.hub with lanes := lanes' }).setWorker worker
          { w with priority := p, affinity := a }).places x = s.places x := fun x => by
      have hcurrents := Nat.add_right_cancel
        (count_currents hon.here hon.current { w with priority := p, affinity := a } hon.current x)
      show _ + (gather (·.current.toList) (s.workers.setIfInBounds worker _)).count x +
        ({ s.hub with lanes := lanes' } : Hub κ).idle.count x = _
      rw [hidle, hcurrents]
      rfl
    exact ⟨h.toSpots.of_eq hsize hplaces rfl h.unused (fun x hm => h.unfinished x (hmem x hm))
      fun x hm => h.suspended x (hmem x hm), Or.inl hplaces⟩
  | @resumed w fiber ready lanes slot old hon hno htake hx hold =>
    have hidle := idle_of_take_fiber htake
    have hm : ready.fiber ∈ s.hub.idle := List.count_pos_iff.mp (by
      have := hidle ready.fiber
      rw [List.count_singleton_self] at this
      omega)
    have hne := h.ne_of_idle hon.here hon.current hm
    have hbusy := FiberPool.isFree_of_slot hx
    rw [(h.of_idle hm).2.2] at hbusy
    refine hkept (Spots.of_switch h hon.here hon.current (by rfl) hne hx hold (by exact hbusy.symm)
      (slots_after hx hold hne) hsize rfl rfl (fun x => ?_) (fun _ => hon.run) fun hf => by cases hf)
    show ({ s.hub with lanes } : Hub κ).idle.count x + [ready.fiber].count x + [fiber].count x =
      s.hub.idle.count x + (if slot.free then _ else 0) + _
    rw [hidle x, ← hbusy, if_neg (by decide), Nat.add_zero]
  | @left w fiber old hon hno hidle hexit hold =>
    obtain ⟨hpos, hbusy, hnot⟩ := h.of_current hon.here hon.current
    rw [FiberPool.isFree_of_slot hold] at hbusy
    refine hkept (Spots.of_exchange h hon.here hold hnot (fun _ => hon.run)
      (FiberPool.getElem?_setSlot hold { old with free := true }) hsize rfl rfl rfl fun x => ?_)
    rw [hon.current, hbusy, if_pos rfl, if_neg (by decide)]
    exact Nat.add_comm 0 _

end FiberScheduler.System
