import FiberScheduler.Proofs.Steps

/-!
# The shape of a system

No move changes how many workers, fibers and lanes there are, or where a fiber is
resumed.
-/

namespace FiberScheduler

namespace FiberPool

structure Alike (pool pool' : FiberPool) : Prop where
  size : pool'.slots.size = pool.slots.size
  normal : pool'.normal = pool.normal
  extended : pool'.extended = pool.extended
  context : ∀ fiber : Nat, (pool'.slots[fiber]?).map (·.context) = (pool.slots[fiber]?).map (·.context)

theorem Alike.refl (pool : FiberPool) : Alike pool pool :=
  ⟨rfl, rfl, rfl, fun _ => rfl⟩

theorem Alike.seeded {pool pool' : FiberPool} {seed : UInt32} (h : Alike (pool.seeded seed) pool') :
    Alike pool pool' :=
  ⟨h.size, h.normal, h.extended, h.context⟩

theorem Alike.setSlot {pool pool' : FiberPool} (h : Alike pool pool') {fiber : Nat} {slot new : Slot}
    (hx : pool'.slots[fiber]? = some slot) (hctx : new.context = slot.context) :
      Alike pool (pool'.setSlot fiber new) := by
  refine ⟨?_, h.normal, h.extended, fun k => ?_⟩
  · rw [← h.size]; exact Array.size_setIfInBounds
  · rw [← h.context, getElem?_setSlot hx]
    by_cases hk : fiber = k
    · subst hk
      rw [if_pos rfl, hx, Option.map_some, Option.map_some, hctx]
    · rw [if_neg hk]

end FiberPool

namespace System

variable {κ μ ρ : Type} {body : κ → Program κ μ ρ Unit} {s s' : System κ μ ρ} {worker : Nat}
  {ds : List (Deed κ μ ρ)}

structure SameShape (s s' : System κ μ ρ) : Prop where
  crew : s'.hub.crew = s.hub.crew
  lanes : s'.hub.lanes.own.size = s.hub.lanes.own.size
  links : s'.hub.links.size = s.hub.links.size
  workers : s'.workers.size = s.workers.size
  runs : s'.runs.size = s.runs.size
  pool : s.pool.Alike s'.pool

theorem Shape.of_same (h : Shape s) (hs : SameShape s s') : Shape s' where
  crew := by rw [hs.crew, hs.workers]; exact h.crew
  lanes := by rw [hs.lanes, hs.workers]; exact h.lanes
  links := by rw [hs.links, hs.pool.size]; exact h.links
  runs := by rw [hs.runs, hs.pool.size]; exact h.runs
  pool := ⟨by rw [hs.pool.size, hs.pool.normal, hs.pool.extended]; exact h.pool.size,
    by rw [hs.pool.size]; exact h.pool.bound⟩
  staffed := by rw [hs.workers]; exact h.staffed
  context := fun fiber slot hx => by
    have hc := hs.pool.context fiber
    rw [hx] at hc
    obtain ⟨old, hold, he⟩ := Option.map_eq_some_iff.mp hc.symm
    rw [← h.context fiber old hold]
    exact he.symm

theorem Called.sameShape {queued : Option (Nat × Option Nat)} (hc : Called s s' queued) : SameShape s s' where
  crew := by rw [hc.effect.calm.rest]
  lanes := hc.effect.calm.size
  links := by rw [hc.effect.calm.rest]
  workers := by rw [hc.rest]
  runs := by rw [hc.rest]
  pool := by rw [hc.rest]; exact .refl _

theorem Sound.ne_of_free (h : s.Sound) {w : Worker} {fiber next : Nat} {slot : Slot}
    (hw : s.workers[worker]? = some w) (hcur : w.current = some fiber) (hx : s.pool.slots[next]? = some slot)
    (hfree : slot.free = true) : next ≠ fiber := by
  rintro rfl
  have := (h.of_current hw hcur).2.1
  rw [FiberPool.isFree_of_slot hx, hfree] at this
  cases this

theorem Sound.ne_of_idle (h : s.Sound) {w : Worker} {fiber next : Nat} (hw : s.workers[worker]? = some w)
    (hcur : w.current = some fiber) (hidle : next ∈ s.hub.idle) : next ≠ fiber := by
  rintro rfl
  exact (h.of_current hw hcur).2.2 hidle

theorem slot_after {pool : FiberPool} {next fiber : Nat} {slot new old : Slot}
    (hx : pool.slots[next]? = some slot) (hold : pool.slots[fiber]? = some old) (hne : next ≠ fiber) :
    (pool.setSlot next new).slots[fiber]? = some old := by
  rw [FiberPool.getElem?_setSlot hx, if_neg hne]
  exact hold

theorem Turn.sameShape (h : s.Sound) (ht : Turn body s worker s' ds) : SameShape s s' := by
  have hsize : ∀ {α : Type} (xs : Array α) (i : Nat) (a : α), (xs.setIfInBounds i a).size = xs.size :=
    fun _ _ _ => Array.size_setIfInBounds
  have hseeded : ∀ seed, s.pool.Alike (s.pool.seeded seed) :=
    fun seed => (FiberPool.Alike.refl (s.pool.seeded seed)).seeded
  cases ht with
  | rest => exact ⟨rfl, rfl, rfl, rfl, rfl, .refl _⟩
  | exhausted _ hall seed => exact ⟨rfl, rfl, rfl, rfl, rfl, hseeded seed⟩
  | started hw hstage htier hx hfree seed =>
    exact ⟨rfl, rfl, rfl, hsize _ _ _, rfl, (hseeded seed).setSlot hx (by rfl)⟩
  | went hon hjob hcalled hdoes hsource =>
    have hs := hcalled.sameShape
    exact ⟨hs.crew, hs.lanes, hs.links, hs.workers, (hsize _ _ _).trans hs.runs, hs.pool⟩
  | parked hon hrest hheld hs hcount htier hx hfree hold seed =>
    have hne := h.ne_of_free hon.here hon.current hx hfree
    exact ⟨rfl, rfl, hsize _ _ _, hsize _ _ _, rfl,
      ((hseeded seed).setSlot hx (by rfl)).setSlot (by exact slot_after hx hold hne) (by rfl)⟩
  | ended hon hover hrec hend =>
    have hcalm := ((Hub.ends_endRun h.tidy hrec).pin hend).calm
    exact ⟨by rw [setHub, hcalm.rest], hcalm.size, by rw [setHub, hcalm.rest], rfl, hsize _ _ _, .refl _⟩
  | died hon hover hrec hend =>
    have hcalm := ((Hub.ends_endRun h.tidy hrec).pin hend).calm
    exact ⟨by rw [setWorker, setHub, hcalm.rest], hcalm.size, by rw [setWorker, setHub, hcalm.rest],
      hsize _ _ _, hsize _ _ _, .refl _⟩
  | began hon hrec hway =>
    refine ⟨rfl, ?_, rfl, hsize _ _ _, hsize _ _ _, .refl _⟩
    rcases hway with ⟨-, -, rfl⟩ | ⟨p, a, -, htake, -, -⟩
    · rfl
    · exact (Lanes.take_job htake).2.2.1
  | passed hon hno htake hneeds hnormal htier hx hfree hold seed =>
    have hne := h.ne_of_free hon.here hon.current hx hfree
    exact ⟨rfl, (Lanes.take_job htake).2.2.1, rfl, hsize _ _ _, rfl,
      ((hseeded seed).setSlot hx (by rfl)).setSlot (by exact slot_after hx hold hne) (by rfl)⟩
  | returned hon hno htake hneeds hnormal hall hput seed =>
    exact ⟨rfl, (Lanes.pushJob_ok hput).2.2.trans (Lanes.take_job htake).2.2.1, rfl, hsize _ _ _, rfl,
      hseeded seed⟩
  | resumed hon hno htake hx hold =>
    have hreadied := (Lanes.take_fiber htake).1
    have hne := h.ne_of_idle hon.here hon.current (List.mem_append_right _
      (List.mem_map.mpr ⟨_, hreadied.mem_iff.mpr List.mem_cons_self, rfl⟩))
    exact ⟨rfl, (Lanes.take_fiber htake).2.2, rfl, hsize _ _ _, rfl,
      ((FiberPool.Alike.refl s.pool).setSlot hx (by rfl)).setSlot (slot_after hx hold hne) (by rfl)⟩
  | left hon hno hidle hexit hold =>
    exact ⟨rfl, rfl, rfl, hsize _ _ _, rfl, (FiberPool.Alike.refl s.pool).setSlot hold (by rfl)⟩

end System

end FiberScheduler
