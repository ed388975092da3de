import FiberScheduler.Proofs.Fresh
import FiberScheduler.Proofs.Latches

/-!
# Wake-ups

In every run whose adds stay within what a count can hold, nobody waits for a group
without units, and a release that takes the last unit queues each fiber of the list once,
under the priority and the affinity it parked with.
-/

namespace FiberScheduler

variable {κ μ ρ : Type}

def Call.addition (h : Hub κ) : Call κ μ ρ → Option (Nat × Int32)
  | .add g n => some (g, n)
  | .schedule job (some g) .. => if (h.jobs[job]?).any (!·.scheduled) then some (g, 1) else none
  | .spawn _ (some g) .. => if h.jobs.size + 1 < Hub.recordLimit then some (g, 1) else none
  | _ => none

def Call.Roomy (h : Hub κ) (c : Call κ μ ρ) : Prop :=
  ∀ q ∈ c.addition h, h.Roomy q.1 q.2

instance (h : Hub κ) (c : Call κ μ ρ) : Decidable (c.Roomy h) :=
  inferInstanceAs (Decidable (∀ q ∈ c.addition h, h.Roomy q.1 q.2))

def Program.call? : Program κ μ ρ Unit → Option (Call κ μ ρ)
  | .call c _ => some c
  | _ => none

namespace System

open Act

variable {σ : Type} {body : κ → Program κ μ ρ Unit} {s s' : System κ μ ρ} {worker : Nat}
  {ds es : List (Deed κ μ ρ)}

def Roomy (s : System κ μ ρ) : Move κ μ ρ → Prop
  | .work worker =>
    s.aborted = false → ∀ run ∈ s.runOn? worker, ∀ c ∈ run.rest.call?, c.permits run.held s.kept = true →
    c.Roomy s.hub
  | .call c => c.permits s.kept s.kept = true → c.Roomy s.hub
  | _ => True

instance (s : System κ μ ρ) : ∀ m, Decidable (s.Roomy m)
  | .work worker => inferInstanceAs (Decidable (s.aborted = false →
      ∀ run ∈ s.runOn? worker, ∀ c ∈ run.rest.call?, c.permits run.held s.kept = true → c.Roomy s.hub))
  | .call c => inferInstanceAs (Decidable (c.permits s.kept s.kept = true → c.Roomy s.hub))
  | .record .. | .stop => .isTrue trivial

theorem OnRun.runOn? {w : Worker} {fiber : Nat} {run : Run κ μ ρ} (hon : OnRun s worker w fiber run) :
    s.runOn? worker = some run := by
  rw [System.runOn?, hon.here, Option.bind_eq_bind, Option.bind_some, hon.current, Option.bind_eq_bind,
    Option.bind_some, hon.run]

theorem run?_of_runOn? {run : Run κ μ ρ} (hrun : s.runOn? worker = some run) :
    ∃ fiber, s.run? fiber = some run := by
  obtain ⟨w, -, hrun⟩ := Option.bind_eq_some_iff.mp hrun
  obtain ⟨fiber, -, hrun⟩ := Option.bind_eq_some_iff.mp hrun
  exact ⟨fiber, hrun⟩

/-! ## Latches -/

theorem answer_latched (hfit : Fit s.hub) (hl : s.hub.Latched) (worker : Option Nat) {c : Call κ μ ρ}
    (hroom : c.Roomy s.hub) : (answer worker c).Ends s fun _ s' => s'.hub.Latched := by
  have hhub : ∀ {α : Type} {x : Act ρ (Hub κ) α}, x.Ends s.hub (fun _ h' => h'.Latched) →
      (onHub x : Act ρ (System κ μ ρ) α).Ends s fun _ s' => s'.hub.Latched := fun hx => hx
  obtain ⟨ht, hcleared, hserved⟩ := hfit
  cases c with
  | newGroup => exact hhub (Hub.newGroup_latched hl ht)
  | cloneGroup g => exact hhub (Hub.cloneGroup_latched hl g)
  | dropGroup g => exact hhub (Hub.dropGroup_latched hl g)
  | add g n => exact hhub (Hub.addGroup_latched hl ht (hroom (g, n) rfl))
  | count g =>
    refine hhub ?_
    rw [ends_bind]
    cases hs : s.hub.groups.get? g with
    | none => exact Hub.ends_group_dead hs fun _ => hl
    | some t => rw [Hub.ends_group hs]; exact hl
  | schedule job group p a =>
    refine hhub ((Hub.ends_schedule hcleared hserved job group p a).mono fun r h' hs => ?_)
    refine hs.latched hl ht fun record hrec hfree g hg => hroom (g, 1) ?_
    subst hg
    simp only [Call.addition, hrec, Option.any_some, hfree, Bool.not_false, if_true, Option.mem_def]
  | addJob job p a =>
    refine hhub ((Hub.ends_addJob hcleared hserved job p a).mono fun r h' hs => ?_)
    exact hs.latched hl ht fun _ _ _ g hg => by cases hg
  | spawn code group p a =>
    refine hhub ((Hub.ends_spawn hcleared hserved code group p a).mono fun r h' hs => ?_)
    refine hs.latched hl ht fun hlimit g hg => hroom (g, 1) ?_
    subst hg
    exact if_pos hlimit
  | giveGroup | takeGroup | isScheduled | place | counters | report | access => exact hl

theorem perform_latched (hfit : Fit s.hub) (hl : s.hub.Latched) (worker : Option Nat) {held : List Nat}
    {c : Call κ μ ρ} (hroom : c.permits held s.kept = true → c.Roomy s.hub) :
    (perform worker held c).Ends s fun _ s' => s'.hub.Latched := by
  exact perform_of_answer hl fun hpermits => answer_latched hfit hl worker (hroom hpermits)

theorem ask_latched (hfit : Fit s.hub) (hl : s.hub.Latched) {c : Call κ μ ρ}
    (hroom : c.permits s.kept s.kept = true → c.Roomy s.hub) : (ask c).Ends s fun _ s' => s'.hub.Latched := by
  exact ask_of_perform (fun _ _ _ => id) (perform_latched hfit hl none hroom)

theorem Turn.latched (h : s.Sound) (hl : s.hub.Latched) (hroom : s.Roomy (.work worker))
    (ht : Turn body s worker s' ds) :
    s'.hub.Latched := by
  cases ht with
  | @went w fiber run run' s₁ queued action hon hjob hcalled hdoes hsource =>
    rcases hsource with ⟨c, next, hrest, rfl, -⟩ | ⟨rfl, -⟩
    · exact perform_latched h.fit hl (some worker) (hroom hon.alive run hon.runOn? c (by rw [hrest]; rfl))
    · exact hl
  | @parked w fiber next group run rest state slot old hon hrest hheld hs hcount =>
    have hparked : (s.hub.withParked group state fiber w.priority w.affinity).Latched :=
      Hub.withParked_latched hl hs hcount
    exact hparked.of_groups rfl
  | ended hon hover hrec hend => exact (Hub.endRun_latched hl h.tidy hrec).pin hend
  | died hon hover hrec hend => exact (Hub.endRun_latched hl h.tidy hrec).pin hend
  | _ => exact hl.of_groups rfl

theorem latched_move (h : s.Sound) (hl : s.hub.Latched) {m : Move κ μ ρ} (hroom : s.Roomy m) :
    (move body s m).hub.Latched := by
  cases m with
  | work worker => exact (turn_of_sound h body worker).latched h hl hroom
  | call c => exact ask_latched h.fit hl hroom
  | record code extended oneShot =>
    refine hl.of_groups ?_
    show (onHub (Hub.addRecord (.new code extended oneShot)) s).state.hub.groups = _
    rw [record_rest s code extended oneShot]
  | stop => exact hl.of_groups rfl

/-! ## What links remember -/

def Deed.parking (fiber : Nat) : Deed κ μ ρ → Option (Nat × Priority × Affinity)
  | .parked x group p a => if x = fiber then some (group, p, a) else none
  | _ => none

def lastPark (fiber : Nat) (ds : List (Deed κ μ ρ)) : Option (Nat × Priority × Affinity) :=
  ds.reverse.findSome? (Deed.parking fiber)

theorem lastPark_append (fiber : Nat) (ds es : List (Deed κ μ ρ)) :
    lastPark fiber (ds ++ es) = (lastPark fiber es).or (lastPark fiber ds) := by
  unfold lastPark
  rw [List.reverse_append, List.findSome?_append]

def NoParks (ds : List (Deed κ μ ρ)) : Prop :=
  ∀ fiber, lastPark fiber ds = none

theorem noParks_acceptances (queued : Option (Nat × Option Nat)) :
    NoParks (acceptances queued : List (Deed κ μ ρ)) := fun fiber => by
  cases queued <;> rfl

/-- A parked fiber is on the list of the group it last parked on, and its link has the
priority and the affinity it parked with. -/
def Remembered (s : System κ μ ρ) (ds : List (Deed κ μ ρ)) : Prop :=
  ∀ g, ∀ x ∈ s.hub.waitingOn g, ∃ p a, lastPark x ds = some (g, p, a) ∧ Hub.readyOf s.hub.links x = ⟨x, p, a⟩

theorem Remembered.of_lists (hr : Remembered s ds)
    (hlists : ∀ g, s'.hub.waitingOn g = [] ∨ s'.hub.waitingOn g = s.hub.waitingOn g)
    (hlinks : s'.hub.links = s.hub.links) (hno : NoParks es) : Remembered s' (ds ++ es) := fun g x hx => by
  rcases hlists g with hn | he
  · rw [hn] at hx; cases hx
  · rw [he] at hx
    rw [lastPark_append, hno x, hlinks]
    exact hr g x hx

theorem Remembered.of_calm (hr : Remembered s ds) (hc : Hub.Calm s.hub s'.hub) (hno : NoParks es) :
    Remembered s' (ds ++ es) :=
  hr.of_lists hc.lists (by rw [hc.rest]) hno

theorem readyOf_withParked {h : Hub κ} {group fiber : Nat} {state : Group} (p : Priority) {a : Affinity}
    (hlt : fiber < h.links.size) (ha : Affinity.decode a.encode = a) (x : Nat) :
      Hub.readyOf (h.withParked group state fiber p a).links x =
      if fiber = x then ⟨x, p, a⟩ else Hub.readyOf h.links x := by
  unfold Hub.readyOf
  rw [show (h.withParked group state fiber p a).links = h.links.setIfInBounds fiber
    (.make state.head p a) from rfl, Array.getElem?_setIfInBounds]
  by_cases hx : fiber = x
  · rw [if_pos hx, if_pos hx, if_pos hlt, ← hx]
    simp only [Link.make, Priority.ofIndex_index, ha]
  · rw [if_neg hx, if_neg hx]

theorem Turn.remembered (h : s.Sound) (hr : Remembered s ds) (ht : Turn body s worker s' es) :
    Remembered s' (ds ++ es) := by
  have hsame : ∀ g, s.hub.waitingOn g = [] ∨ s.hub.waitingOn g = s.hub.waitingOn g := fun _ => Or.inr rfl
  cases ht with
  | went hon hjob hcalled =>
    refine hr.of_calm hcalled.effect.calm fun fiber => ?_
    rw [lastPark_append, noParks_acceptances]
    rfl
  | @parked w fiber next group run rest state slot old hon hrest hheld hs hcount htier hx hfree hold seed =>
    have hnot : fiber ∉ s.hub.parked :=
      fun hm => (h.of_current hon.here hon.current).2.2 (List.mem_append_left _ hm)
    have hlt : fiber < s.hub.links.size := by rw [h.links]; exact (Array.getElem?_eq_some_iff.mp hold).1
    intro g x hm
    have hm : x ∈ (s.hub.withParked group state fiber w.priority w.affinity).waitingOn g := hm
    have hready : Hub.readyOf (s.hub.withParked group state fiber w.priority w.affinity).links x = _ :=
      readyOf_withParked w.priority hlt (h.decode_encode hon.here) x
    have hpark : lastPark x [(.parked fiber group w.priority w.affinity : Deed κ μ ρ)] =
        if fiber = x then some (group, w.priority, w.affinity) else none := by
      by_cases hfx : fiber = x <;> simp [lastPark, Deed.parking, hfx]
    rw [lastPark_append, hpark]
    show ∃ p a, _ ∧ Hub.readyOf (s.hub.withParked group state fiber w.priority w.affinity).links x = _
    rw [hready]
    rw [Hub.waitingOn_withParked w.priority h.tidy hs hnot hlt] at hm
    by_cases hfx : fiber = x
    · have hg : group = g := Classical.byContradiction fun hne => by
        rw [if_neg hne, ← hfx] at hm
        exact hnot (Hub.mem_parked.mpr ⟨g, hm⟩)
      rw [if_pos hfx, if_pos hfx, hg]
      exact ⟨w.priority, w.affinity, rfl, rfl⟩
    · rw [if_neg hfx, if_neg hfx, Option.none_or]
      refine hr g x ?_
      split at hm
      · rcases List.mem_cons.mp hm with rfl | hm
        · exact absurd rfl hfx
        · exact ‹group = g› ▸ hm
      · exact hm
  | ended hon hover hrec hend => exact hr.of_calm ((Hub.ends_endRun h.tidy hrec).pin hend).calm fun _ => rfl
  | died hon hover hrec hend => exact hr.of_calm ((Hub.ends_endRun h.tidy hrec).pin hend).calm fun _ => rfl
  | _ => exact hr.of_lists hsame rfl fun _ => rfl

/-! ## Lists -/

structure Guarded (s : System κ μ ρ) (ds : List (Deed κ μ ρ)) : Prop where
  sound : s.Sound
  latched : s.hub.Latched
  remembered : Remembered s ds

theorem Guarded.step (h : Guarded s ds) {m : Move κ μ ρ} (hroom : s.Roomy m) :
    Guarded (move body s m) (ds ++ deeds s (move body s m) m) := by
  refine ⟨sound_move body h.sound m, latched_move h.sound h.latched hroom, ?_⟩
  rcases called_move body h.sound m with ⟨worker, rfl⟩ | rfl | ⟨queued, hcalled, hds⟩
  · exact (turn_of_sound h.sound body worker).remembered h.sound h.remembered
  · exact h.remembered.of_lists (fun _ => Or.inr rfl) rfl fun _ => rfl
  · rw [hds]
    exact h.remembered.of_calm hcalled.effect.calm (noParks_acceptances _)

theorem New.guarded (h : New s) : Guarded s [] where
  sound := h.sound
  latched := fun g t ht => by rw [h.get?_groups] at ht; cases ht
  remembered := fun g x hx => by
    unfold Hub.waitingOn at hx
    rw [h.get?_groups] at hx; cases hx

section
variable {h : Hub κ} {g : Nat} {t : Group} {n : Int32} (ht : h.Tidy) (hs : h.groups.get? g = some t)
include ht hs

end

section
variable {mode : Mode} {host : Host} {config : Config} {memory : μ} {x : σ} {s₀ : System κ μ ρ}
  (hnew : ((new mode host config memory : Act ρ σ (Except Refusal (System κ μ ρ))) x).result = .ok (.ok s₀))
  {moves : List (Move κ μ ρ)} (hplay : play body s₀ moves = s) (hroom : Along body Roomy s₀ moves)
include hnew hplay hroom

end

end System

end FiberScheduler
