import FiberScheduler.Proofs.Spots
import FiberScheduler.Proofs.Tallies

/-!
# Systems stay sound

Every move of a run, by a worker or from outside, leads from a sound system to a sound
one, and a new system is sound.
-/

namespace FiberScheduler

variable {κ μ ρ : Type}

theorem Hub.Tidy.of_lanes {h h' : Hub κ} (ht : h.Tidy) (hgroups : h'.groups = h.groups)
    (hlinks : h'.links = h.links) (hready : ∀ r ∈ h'.lanes.readied, r ∈ h.lanes.readied)
    (hsize : h'.lanes.own.size = h.lanes.own.size) : h'.Tidy := by
  have hwaiters : ∀ s, h'.waiters s = h.waiters s := fun s => by unfold Hub.waiters; rw [hlinks]
  have hparked : h'.parked = h.parked := by unfold Hub.parked; rw [hgroups, hlinks]
  refine ⟨by rw [hgroups]; exact ht.blocks, fun g s hs => ?_, fun x hx link hl => ?_, fun r hr => ?_⟩
  · rw [hwaiters, hlinks]
    exact ht.linked g s (by rwa [hgroups] at hs)
  · rw [hparked] at hx
    rw [hlinks] at hl
    exact (Lanes.has_of_size hsize _).mpr (ht.parked x hx link hl)
  · exact (Lanes.has_of_size hsize _).mpr (ht.ready r (hready r hr))

namespace System

variable {body : κ → Program κ μ ρ Unit} {s s' : System κ μ ρ} {worker : Nat} {ds : List (Deed κ μ ρ)}

/-! ## The shared state -/

/-- The affinity of the work at hand is read back from a link as it is. -/
theorem Sound.decode_encode (h : s.Sound) {i : Nat} {w : Worker} (hw : s.workers[i]? = some w) :
    Affinity.decode w.affinity.encode = w.affinity := Affinity.decode_encode fun k hk => by
  have hlane := (h.worker i w hw).lane
  rw [hk, Lanes.has_worker, h.lanes] at hlane
  have := h.staffed.2
  have h32 : wordSize 32 = 4294967296 := rfl
  have h64 : Affinity.maxCode = 18446744073709551615 := rfl
  omega

theorem Turn.tidy (h : s.Sound) (ht : Turn body s worker s' ds) : s'.hub.Tidy := by
  cases ht with
  | rest | exhausted | started | left => exact h.tidy
  | went hon hsame hcalled => exact hcalled.effect.calm.tidy
  | @parked w fiber next group run rest state slot old hon hrest hheld hs hcount htier hx hfree hold seed =>
    have hnot := (h.of_current hon.here hon.current).2.2
    have htidy := Hub.tidy_withParked (a := w.affinity) w.priority h.tidy hs
      (fun hm => hnot (List.mem_append_left _ hm))
      (by rw [h.links]; exact (Array.getElem?_eq_some_iff.mp hold).1)
      (by rw [h.decode_encode hon.here]; exact (h.worker worker w hon.here).lane)
    exact htidy.of_lanes rfl rfl (fun _ hr => hr) rfl
  | ended hon hover hrec hend => exact ((Hub.ends_endRun h.tidy hrec).pin hend).calm.tidy
  | died hon hover hrec hend => exact ((Hub.ends_endRun h.tidy hrec).pin hend).calm.tidy
  | began hon hrec hway =>
    rcases hway with ⟨-, -, rfl⟩ | ⟨p, a, -, htake, -, -⟩
    · exact h.tidy.of_lanes rfl rfl (fun _ hr => hr) rfl
    · obtain ⟨-, hready, hsize, -⟩ := Lanes.take_job htake
      exact h.tidy.of_lanes rfl rfl (fun r hr => hready ▸ hr) hsize
  | passed hon hno htake =>
    obtain ⟨-, hready, hsize, -⟩ := Lanes.take_job htake
    exact h.tidy.of_lanes rfl rfl (fun r hr => hready ▸ hr) hsize
  | returned hon hno htake hneeds hnormal hall hput =>
    obtain ⟨-, hready, hsize, -⟩ := Lanes.take_job htake
    obtain ⟨-, hready', hsize'⟩ := Lanes.pushJob_ok hput
    exact h.tidy.of_lanes rfl rfl (fun r hr => (hready'.trans hready) ▸ hr) (hsize'.trans hsize)
  | resumed hon hno htake =>
    obtain ⟨hready, -, hsize⟩ := Lanes.take_fiber htake
    exact h.tidy.of_lanes rfl rfl (fun r hr => hready.mem_iff.mpr (List.mem_cons_of_mem _ hr)) hsize

/-! ## Workers -/

theorem Sound.ne_current (h : s.Sound) {i j fiber : Nat} {v w : Worker} (hv : s.workers[i]? = some v)
    (hw : s.workers[j]? = some w) (hcur : w.current = some fiber) (hij : i ≠ j) : v.current ≠ some fiber :=
      fun hcv => by
  have hcount := count_currents hw hcur { w with current := none } rfl fiber
  rw [Option.toList_some, List.count_singleton_self, Option.toList_none, List.count_nil] at hcount
  have hp := h.place fiber
  have hm : fiber ∈ gather (·.current.toList) (s.workers.setIfInBounds j { w with current := none }) :=
    mem_gather.mpr ⟨i, v, by rw [getElem?_set _ hw, if_neg (Ne.symm hij)]; exact hv,
      by rw [hcv]; exact List.mem_singleton_self _⟩
  have := List.count_pos_iff.mpr hm
  unfold places at hp
  omega

/-- A worker that did not move notices the moves of another only where its own fiber is written. -/
theorem Fits.of_kept {v : Worker} (hfit : Fits s v)
    (hruns : ∀ fiber, v.current = some fiber → s'.run? fiber = s.run? fiber)
    (hsize : s'.hub.lanes.own.size = s.hub.lanes.own.size) : Fits s' v where
  away := hfit.away
  at_work := hfit.at_work
  handoff := fun hh => ⟨(hfit.handoff hh).1,
    fun fiber hf => by rw [hruns fiber hf]; exact (hfit.handoff hh).2 fiber hf⟩
  lane := (Lanes.has_of_size hsize _).mpr hfit.lane

section
variable (h : s.Sound) {w : Worker} (hw : s.workers[worker]? = some w) (new : Worker)
  (hworkers : s'.workers = s.workers.setIfInBounds worker new)
  (hsize : s'.hub.lanes.own.size = s.hub.lanes.own.size) (hnew : Fits s' new)
include h hw hworkers hsize hnew

theorem fits_of_set (hruns : ∀ x, w.current ≠ some x → s'.run? x = s.run? x) (i : Nat) (v : Worker)
    (hv : s'.workers[i]? = some v) : Fits s' v := by
  rw [hworkers, getElem?_set _ hw] at hv
  by_cases hi : worker = i
  · rw [if_pos hi] at hv
    exact Option.some.inj hv ▸ hnew
  · rw [if_neg hi] at hv
    exact (h.worker i v hv).of_kept (fun fiber hf => hruns fiber fun hc => h.ne_current hw hv hf hi hc) hsize

end

theorem Sound.no_handoff (h : s.Sound) {w : Worker} {fiber : Nat} {run : Run κ μ ρ}
    (hon : OnRun s worker w fiber run) :
    w.handoff = none := by
  cases hh : w.handoff with
  | none => rfl
  | some job =>
    have := ((h.worker worker w hon.here).handoff (by rw [hh]; rfl)).2 fiber hon.current
    rw [hon.run] at this
    cases this

theorem fits_at_work {v : Worker} (hstage : v.stage = .running) (hcur : v.current.isSome)
    (hhand : v.handoff = none) (hlane : s.hub.lanes.Has v.affinity) : Fits s v where
  away := fun ha => by rw [hstage] at ha; simp at ha
  at_work := fun _ => hcur
  handoff := fun hh => by rw [hhand] at hh; cases hh
  lane := hlane

theorem Turn.fits (h : s.Sound) (ht : Turn body s worker s' ds) (i : Nat) (v : Worker)
    (hv : s'.workers[i]? = some v) :
    Fits s' v := by
  have hsize := (ht.sameShape h).lanes
  have hlane : ∀ {a : Affinity}, s.hub.lanes.Has a → s'.hub.lanes.Has a := (Lanes.has_of_size hsize _).mpr
  have hrunsOf : ∀ {w : Worker} {fiber : Nat} {run : Option (Run κ μ ρ)}, w.current = some fiber →
      s'.runs = s.runs.setIfInBounds fiber run → ∀ x, w.current ≠ some x → s'.run? x = s.run? x :=
        fun hcur hruns x hx => by
    have hne : _ ≠ x := fun he => hx (he ▸ hcur)
    unfold run?
    rw [hruns, Array.getElem?_setIfInBounds, if_neg hne]
  cases ht with
  | rest => exact h.worker i v hv
  | exhausted _ hall seed => exact (h.worker i v hv).of_kept (fun _ _ => rfl) rfl
  | @started w fiber slot hw hstage htier hx hfree seed =>
    have hhand : w.handoff = none := by
      cases hh : w.handoff with
      | none => rfl
      | some job =>
        have := ((h.worker worker w hw).handoff (by rw [hh]; rfl)).1
        rw [hstage] at this; cases this
    have ha : s.hub.lanes.Has w.affinity := (h.worker worker w hw).lane
    exact fits_of_set h hw { w with stage := .running, current := some fiber, previous := none } rfl hsize
      (fits_at_work rfl rfl hhand (hlane ha)) (fun _ _ => rfl) i v hv
  | @went w fiber run run' s₁ queued action hon hsame hcalled hdoes hsource =>
    have ha : s.hub.lanes.Has w.affinity := (h.worker worker w hon.here).lane
    have hno := h.no_handoff hon
    obtain ⟨hub, kept, memory, rfl⟩ : ∃ hub kept memory, s₁ = { s with hub, kept, memory } :=
      ⟨_, _, _, hcalled.rest⟩
    exact fits_of_set h hon.here w (by exact (set_self hon.here).symm) hsize
      (fits_at_work hon.stage (by rw [hon.current]; rfl) hno (hlane ha)) (hrunsOf hon.current rfl) i v hv
  | @parked w fiber next group run rest state slot old hon hrest hheld hs hcount htier hx hfree hold seed =>
    have ha : s.hub.lanes.Has w.affinity := (h.worker worker w hon.here).lane
    have hno := h.no_handoff hon
    exact fits_of_set h hon.here { w with current := some next, previous := none, parking := false } rfl hsize
      (fits_at_work hon.stage rfl hno (hlane ha)) (fun _ _ => rfl) i v hv
  | @ended w fiber run record panic hub hon hover hrec hend =>
    have ha : s.hub.lanes.Has w.affinity := (h.worker worker w hon.here).lane
    have hno := h.no_handoff hon
    exact fits_of_set h hon.here w (by exact (set_self hon.here).symm) hsize
      (fits_at_work hon.stage (by rw [hon.current]; rfl) hno (hlane ha)) (hrunsOf hon.current rfl) i v hv
  | @died w fiber run record panic fault hub hon hover hrec hend =>
    have ha : s.hub.lanes.Has w.affinity := (h.worker worker w hon.here).lane
    have hno := h.no_handoff hon
    refine fits_of_set h hon.here { w with stage := .dead } rfl hsize
      ⟨fun ha => by simp at ha, fun ha => by simp at ha, fun hh => ?_, hlane ha⟩
        (hrunsOf hon.current rfl) i v hv
    rw [show ({ w with stage := .dead } : Worker).handoff = none from hno] at hh
    cases hh
  | @began w w' fiber job record lanes hon hrec hway =>
    have ha : s.hub.lanes.Has w.affinity := (h.worker worker w hon.here).lane
    have hfit :
        Fits (((s.setHub ({ s.hub with lanes }.setJob job
        { record with started := true })).setWorker worker w').putRun
          fiber (some ⟨job, [], bodyOf body record⟩)) w' := by
      rcases hway with ⟨-, rfl, -⟩ | ⟨p, a, hno, htake, rfl, -⟩
      · exact fits_at_work hon.stage (by rw [hon.current]; rfl) rfl (hlane ha)
      · exact fits_at_work hon.stage (by rw [hon.current]; rfl) hno (hlane (Lanes.take_job htake).2.2.2)
    exact fits_of_set h hon.here w' rfl hsize hfit (hrunsOf hon.current rfl) i v hv
  | @passed w fiber next job p a lanes slot old hon hno htake hneeds hnormal htier hx hfree hold seed =>
    let new : Worker := { w with
      priority := p, affinity := a, handoff := some job
      current := some next, previous := none, parking := false }
    refine fits_of_set h hon.here new rfl hsize
      ⟨fun hs => ?_, fun _ => rfl, fun _ => ⟨hon.stage, fun x hc => ?_⟩,
        hlane (Lanes.take_job htake).2.2.2⟩ (fun _ _ => rfl) i v hv
    · rw [show w.stage = .running from hon.stage] at hs
      simp at hs
    · obtain rfl : next = x := Option.some.inj hc
      exact h.unused next (by rw [FiberPool.isFree_of_slot hx]; exact hfree)
  | @returned w fiber job p a lanes lanes' hon hno htake hneeds hnormal hall hput seed =>
    exact fits_of_set h hon.here { w with priority := p, affinity := a } rfl hsize
      (fits_at_work hon.stage (by rw [hon.current]; rfl) hno (hlane (Lanes.take_job htake).2.2.2))
        (fun _ _ => rfl) i v hv
  | @resumed w fiber ready lanes slot old hon hno htake hx hold =>
    have ha := h.tidy.ready ready ((Lanes.take_fiber htake).1.mem_iff.mpr List.mem_cons_self)
    let new : Worker := { w with
      priority := ready.priority, affinity := ready.affinity
      current := some ready.fiber, previous := none, parking := false }
    exact fits_of_set h hon.here new rfl hsize (fits_at_work hon.stage rfl hno (hlane ha))
      (fun _ _ => rfl) i v hv
  | @left w fiber old hon hno hidle hexit hold =>
    have ha : s.hub.lanes.Has w.affinity := (h.worker worker w hon.here).lane
    refine fits_of_set h hon.here { w with stage := .left, current := none } rfl hsize
      ⟨fun _ => rfl, fun hs => by simp at hs, fun hh => ?_, hlane ha⟩ (fun _ _ => rfl) i v hv
    rw [show ({ w with stage := .left, current := none } : Worker).handoff = none from hno] at hh
    cases hh

/-! ## Moves -/

theorem Turn.sound (h : s.Sound) (ht : Turn body s worker s' ds) : s'.Sound :=
  { h.toShape.of_same (ht.sameShape h), (ht.moved h).1, ht.tally h with
    tidy := ht.tidy h
    worker := ht.fits h }

theorem Called.places {queued : Option (Nat × Option Nat)} (hc : Called s s' queued) (fiber : Nat) :
    s'.places fiber + s.hub.idle.count fiber = s.places fiber + s'.hub.idle.count fiber := by
  have hcurrents : s'.currents = s.currents := by rw [hc.rest]; rfl
  unfold System.places
  rw [hcurrents, show s'.pool = s.pool by rw [hc.rest]]
  omega

theorem Called.sound {queued : Option (Nat × Option Nat)} (h : s.Sound) (hc : Called s s' queued) :
    s'.Sound := by
  have hidle := hc.effect.calm.idle
  have hrest := hc.rest
  have hplaces := hc.places
  have hrun : ∀ x, s'.run? x = s.run? x := fun x => by rw [hrest]; rfl
  have hsub : ∀ x ∈ s'.hub.idle, x ∈ s.hub.idle := fun x hx =>
    List.count_pos_iff.mp (Nat.lt_of_lt_of_le (List.count_pos_iff.mpr hx) (hidle x))
  have hspots : Spots s' := by
    refine h.toSpots.of_le (by rw [hrest]) (fun x => ?_) (fun x hx => ?_) (fun x _ hr => by rwa [hrun])
      (fun x hx => ?_) (fun x hx => ?_) (fun x hx => ?_)
    · have := hplaces x
      have := hidle x
      omega
    · rw [hrun]
      exact h.unfinished x (List.count_pos_iff.mp (by have := hplaces x; omega))
    · rw [hrun]
      exact h.unused x (by rwa [hrest] at hx)
    · rw [hrun]
      exact h.unfinished x (hsub x hx)
    · rw [hrest]
      exact h.suspended x (hsub x hx)
  refine { h.toShape.of_same hc.sameShape, hspots, h.toTally.of_called hc with
    tidy := hc.effect.calm.tidy
    worker := fun i w hw => ?_ }
  exact (h.worker i w (by rwa [hrest] at hw)).of_kept (fun _ _ => hrun _) hc.effect.calm.size

theorem called_move (body : κ → Program κ μ ρ Unit) (h : s.Sound) (m : Move κ μ ρ) :
    (∃ worker, m = .work worker) ∨ m = .stop ∨
    ∃ queued, Called s (move body s m) queued ∧ deeds s (move body s m) m = acceptances queued := by
  cases m with
  | work worker => exact Or.inl ⟨worker, rfl⟩
  | stop => exact Or.inr (Or.inl rfl)
  | call c => exact Or.inr (Or.inr ⟨_, ask_called h.fit c, rfl⟩)
  | record code extended oneShot =>
    exact Or.inr (Or.inr ⟨none, record_called h.fit code extended oneShot, rfl⟩)

theorem sameShape_move (body : κ → Program κ μ ρ Unit) (h : s.Sound) (m : Move κ μ ρ) :
    SameShape s (move body s m) := by
  rcases called_move body h m with ⟨worker, rfl⟩ | rfl | ⟨queued, hcalled, -⟩
  · exact (turn_of_sound h body worker).sameShape h
  · exact ⟨rfl, rfl, rfl, rfl, rfl, .refl _⟩
  · exact hcalled.sameShape

theorem sound_move (body : κ → Program κ μ ρ Unit) (h : s.Sound) (m : Move κ μ ρ) :
    (move body s m).Sound := by
  rcases called_move body h m with ⟨worker, rfl⟩ | rfl | ⟨queued, hcalled, -⟩
  · exact (turn_of_sound h body worker).sound h
  · have htally : Tally (move body s .stop) :=
      ⟨h.once, h.cleared, h.limit, h.active, fun hs => ⟨rfl, (h.left hs).2⟩⟩
    exact { h.toShape.of_same (sameShape_move body h .stop),
      h.toSpots.of_eq rfl (fun _ => rfl) rfl h.unused h.unfinished h.suspended, htally with
      tidy := h.tidy.of_lanes rfl rfl (fun _ hr => hr) rfl
      worker := fun i w hw => (h.worker i w hw).of_kept (fun _ _ => rfl) rfl }
  · exact hcalled.sound h

theorem sound_play (body : κ → Program κ μ ρ Unit) (h : s.Sound) (moves : List (Move κ μ ρ)) :
    (play body s moves).Sound := by
  induction moves generalizing s with
  | nil => exact h
  | cons m moves ih => exact ih (sound_move body h m)

end System

end FiberScheduler
