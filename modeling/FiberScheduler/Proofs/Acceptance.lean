import FiberScheduler.Proofs.Traffic

/-!
# The acceptance of jobs

A hub takes jobs until it is stopping and every job it took has finished. The counter of
unfinished jobs decides both that and when the workers leave, so the two go together, and
neither is ever undone.
-/

namespace FiberScheduler

open Act

variable {ρ κ : Type}

namespace Traffic

def acceptances (history : List Event) : Nat :=
  history.countP Event.isAcceptance

def completions (history : List Event) : Nat :=
  history.count .finished

/-- Whether at no time more jobs were said to have finished than were accepted. -/
def FinishesOnce (history : List Event) : Prop :=
  ∀ past, past <+: history → completions past ≤ acceptances past

/-- Whether at no time there were more unfinished jobs than a word can count. -/
def FewUnfinished (history : List Event) : Prop :=
  ∀ past, past <+: history → acceptances past < completions past + wordSize 64

def Drained (history : List Event) : Prop :=
  .stopped ∈ history ∧ completions history = acceptances history

instance (history : List Event) : Decidable (Drained history) :=
  inferInstanceAs (Decidable (_ ∧ _))

theorem forall_prefix_iff {α : Type} {P : List α → Prop} {xs : List α} :
    (∀ past, past <+: xs → P past) ↔ ∀ n < xs.length + 1, P (xs.take n) := by
  constructor
  · exact fun h n _ => h _ (List.take_prefix n xs)
  · intro h past hpast
    rw [List.prefix_iff_eq_take.mp hpast]
    exact h _ (Nat.lt_succ_of_le hpast.length_le)

instance (history : List Event) : Decidable (FinishesOnce history) :=
  decidable_of_iff _ forall_prefix_iff.symm

instance (history : List Event) : Decidable (FewUnfinished history) :=
  decidable_of_iff _ forall_prefix_iff.symm

variable {t u : Traffic κ} {r : Request κ} {event : Option Event} {h h' : Hub κ} {requests : List (Request κ)}
  {earlier later history : List Event} {mode : Mode} {config : Config}

theorem FinishesOnce.before (hf : FinishesOnce later) (hearlier : earlier <+: later) : FinishesOnce earlier :=
  fun past hpast => hf past (hpast.trans hearlier)

theorem FewUnfinished.before (hf : FewUnfinished later) (hearlier : earlier <+: later) :
    FewUnfinished earlier :=
  fun past hpast => hf past (hpast.trans hearlier)

@[simp] theorem acceptances_snoc (history : List Event) (e : Event) :
    acceptances (history ++ [e]) = acceptances history + if e.isAcceptance then 1 else 0 := by
  rw [acceptances, List.countP_append, List.countP_singleton, acceptances]

@[simp] theorem completions_snoc (history : List Event) (e : Event) :
    completions (history ++ [e]) = completions history + if e = .finished then 1 else 0 := by
  rw [completions, List.count_append, List.count_singleton, completions]
  simp only [beq_iff_eq]

structure Counted (t : Traffic κ) : Prop where
  active : t.hub.active.toNat + completions t.history = acceptances t.history
  stopping : t.hub.stopping = true ↔ .stopped ∈ t.history

theorem Counted.active_eq_zero_iff (hc : Counted t) :
    t.hub.active = 0 ↔ completions t.history = acceptances t.history := by
  have hcount := hc.active
  rw [← UInt64.toNat_inj, UInt64.toNat_zero]
  omega

theorem Counted.drained_iff (hc : Counted t) :
    t.hub.active = 0 ∧ t.hub.stopping = true ↔ Drained t.history := by
  rw [hc.active_eq_zero_iff, hc.stopping]
  exact and_comm

theorem Counted.shouldExit_iff (hc : Counted t) : t.hub.shouldExit = true ↔ Drained t.history := by
  rw [← hc.drained_iff, Hub.shouldExit, Bool.and_eq_true, beq_iff_eq]
  exact and_comm

theorem Counted.one_left (hc : Counted u) (hf : FinishesOnce (u.history ++ [.finished])) :
    0 < u.hub.active.toNat := by
  have hle := hf _ (List.prefix_refl _)
  have hcount := hc.active
  simp only [acceptances_snoc, completions_snoc, Event.isAcceptance, if_true, Bool.false_eq_true,
    if_false] at hle
  omega

theorem Served.counted (hs : Served u.hub r event h') (hc : Counted u)
    (hf : FinishesOnce (u.history ++ event.toList)) (hfew : FewUnfinished (u.history ++ event.toList)) :
      Counted ⟨h', u.history ++ event.toList⟩ := by
  have hcount := hc.active
  cases hs with
  | nothing | recorded => exact ⟨by simpa using hcount, by simpa using hc.stopping⟩
  | requeued | resumed | fetched =>
    exact ⟨by simpa [Event.isAcceptance] using hcount, by simpa using hc.stopping⟩
  | stopped => exact ⟨by simpa [Event.isAcceptance] using hcount, by simp⟩
  | accepted _ _ _ =>
    refine ⟨?_, by simpa using hc.stopping⟩
    -- One more is still less than a word can hold, so the counter does not come around.
    have hlt := hfew _ (List.prefix_refl _)
    simp only [Option.toList_some, acceptances_snoc, completions_snoc, Event.isAcceptance, if_true,
      reduceCtorEq, if_false, wordSize_64] at hlt ⊢
    rw [UInt64.toNat_add, UInt64.toNat_one]
    omega
  | finished =>
    refine ⟨?_, by simpa using hc.stopping⟩
    have hpos := hc.one_left hf
    have hle : 1 ≤ u.hub.active := by rw [UInt64.le_iff_toNat_le, UInt64.toNat_one]; exact hpos
    simp only [Option.toList_some, acceptances_snoc, completions_snoc, Event.isAcceptance, if_true,
      Bool.false_eq_true, if_false]
    rw [UInt64.toNat_sub_of_le _ _ hle, UInt64.toNat_one]
    omega

theorem Counted.of_new (hnew : Hub.new mode config = .ok h) : Counted (start h) := by
  obtain ⟨fibers, -, hempty⟩ := Hub.empty_of_new hnew
  refine ⟨?_, ?_⟩
  · show h.active.toNat + 0 = 0
    rw [hempty.active]
    rfl
  · show h.stopping = true ↔ _
    rw [hempty.stopping]
    simp [start]

theorem counted_run (hsize : t.hub.lanes.own.size = t.hub.crew.size) (hc : Counted t)
    (hf : FinishesOnce (t.run requests).history) (hfew : FewUnfinished (t.run requests).history) :
    Counted (t.run requests) := by
  have hrun := run_induction (I := fun u => FinishesOnce u.history → FewUnfinished u.history → Counted u)
    requests hsize (fun _ _ => hc) fun u r event h' _ hs _ ih hf hfew =>
      hs.counted (ih (hf.before (List.prefix_append _ _)) (hfew.before (List.prefix_append _ _))) hf hfew
  exact hrun.1 hf hfew

/-- A hub that has drained stays as it is in this: no job can finish any more, and none is
accepted. -/
theorem Served.shut (hs : Served u.hub r event h') (hc : Counted u)
    (hshut : u.hub.active = 0 ∧ u.hub.stopping = true) (hf : FinishesOnce (u.history ++ event.toList)) :
    (h'.active = 0 ∧ h'.stopping = true) ∧ ∀ e ∈ event, e.isAcceptance = false := by
  cases hs with
  | nothing | recorded => exact ⟨hshut, fun _ he => by cases he⟩
  | requeued | resumed | fetched => exact ⟨hshut, fun _ he => by cases he; rfl⟩
  | accepted _ hopen _ => exact absurd hshut hopen
  | finished =>
    have hpos := hc.one_left hf
    rw [hshut.1] at hpos
    exact absurd hpos (by decide)
  | stopped => exact ⟨⟨hshut.1, rfl⟩, fun _ he => by cases he; rfl⟩

theorem shut_run (requests : List (Request κ)) (hsize : t.hub.lanes.own.size = t.hub.crew.size)
    (hc : Counted t) (hshut : t.hub.active = 0 ∧ t.hub.stopping = true)
    (hf : FinishesOnce (t.run requests).history) (hfew : FewUnfinished (t.run requests).history) :
    ((t.run requests).hub.active = 0 ∧ (t.run requests).hub.stopping = true) ∧
      ∃ later, (t.run requests).history = t.history ++ later ∧ ∀ e ∈ later, e.isAcceptance = false := by
  have hrun := run_induction
    (I := fun u => FinishesOnce u.history → FewUnfinished u.history → Counted u ∧
      (u.hub.active = 0 ∧ u.hub.stopping = true) ∧
      ∃ later, u.history = t.history ++ later ∧ ∀ e ∈ later, e.isAcceptance = false) requests hsize
    (fun _ _ => ⟨hc, hshut, [], (List.append_nil _).symm, fun _ he => by cases he⟩)
    fun u r event h' _ hs _ ih hf hfew => by
      obtain ⟨hu, hushut, later, hlater, hnone⟩ :=
        ih (hf.before (List.prefix_append _ _)) (hfew.before (List.prefix_append _ _))
      obtain ⟨hshut', hevent⟩ := hs.shut hu hushut hf
      refine ⟨hs.counted hu hf hfew, hshut', later ++ event.toList, ?_, fun e he => ?_⟩
      · rw [hlater, List.append_assoc]
      · rcases List.mem_append.mp he with he | he
        · exact hnone e he
        · exact hevent e (by simpa using he)
  exact (hrun.1 hf hfew).2

theorem accepts_until_drained (hnew : Hub.new mode config = .ok h) (requests : List (Request κ))
    (hfinishes : FinishesOnce ((start h).run requests).history)
    (hfew : FewUnfinished ((start h).run requests).history) :
    let t := (start h).run requests
    (t.hub.shouldExit = true ↔ Drained t.history) ∧
    (∀ job p a, h.crew.serves a = true → (t.hub.needsExtended job = true → h.extendedFibers = true) →
      (Hub.push job p a : Act ρ (Hub κ) (Except Refusal Unit)).Ends t.hub fun result _ =>
        (result = .ok (.error .stopped) ↔ Drained t.history) ∧ (¬Drained t.history → result = .ok (.ok ()))) ∧
    (∀ job p a, (Hub.requeue job p a : Act ρ (Hub κ) Unit).Ends t.hub fun _ h' =>
      h'.shouldExit = t.hub.shouldExit) ∧
    ∀ earlier later, requests = earlier ++ later → ((start h).run earlier).hub.shouldExit = true →
      t.hub.shouldExit = true ∧
        ∃ since, t.history = ((start h).run earlier).history ++ since ∧
          ∀ e ∈ since, e.isAcceptance = false := by
  intro t
  have hsize := size_of_new hnew
  have hc : Counted t := counted_run hsize (.of_new hnew) hfinishes hfew
  have hsteady : Steady h t.hub := steady_run (t := start h) hsize requests
  refine ⟨hc.shouldExit_iff, ?_, ?_, ?_⟩
  · intro job p a hserves hstack
    have hserved : t.hub.Served := Hub.served_of_size (size_run (t := start h) hsize requests)
    refine (Hub.ends_push_decided hserved job p a).mono fun result h' hr => ?_
    rw [← hsteady.crew] at hserves
    rw [← hsteady.extendedFibers] at hstack
    -- The counter and the flag tell of the history whether all is drained.
    by_cases hdrained : Drained t.history
    · have hwhy : t.hub.refusal? (t.hub.needsExtended job) a = some .stopped :=
        Hub.refusal?_stopped hserves hstack (hc.drained_iff.mpr hdrained)
      rw [hwhy] at hr
      exact ⟨⟨fun _ => hdrained, fun _ => hr.1⟩, fun hn => absurd hdrained hn⟩
    · have hwhy : t.hub.refusal? (t.hub.needsExtended job) a = none :=
        Hub.refusal?_eq_none_iff.mpr ⟨hserves, hstack, fun hclosed => hdrained (hc.drained_iff.mp hclosed)⟩
      rw [hwhy] at hr
      exact ⟨⟨fun hstopped => (by rw [hr.1] at hstopped; cases hstopped), fun hd => absurd hd hdrained⟩,
        fun _ => hr.1⟩
  · intro job p a
    rw [Hub.ends_requeue]
    cases t.hub.lanes.pushJob job p a <;> rfl
  · intro earlier later hsplit hexit
    have hrun : t = ((start h).run earlier).run later := by rw [← run_append, ← hsplit]
    have hbefore : ((start h).run earlier).history <+: t.history := by
      rw [hrun]
      exact history_run _ later
    have hc' : Counted ((start h).run earlier) :=
      counted_run hsize (.of_new hnew) (hfinishes.before hbefore) (hfew.before hbefore)
    have hshut := shut_run later (size_run (t := start h) hsize earlier) hc'
      (hc'.drained_iff.mpr (hc'.shouldExit_iff.mp hexit)) (by rw [← hrun]; exact hfinishes)
      (by rw [← hrun]; exact hfew)
    rw [← hrun] at hshut
    exact ⟨hc.shouldExit_iff.mpr (hc.drained_iff.mp hshut.1), hshut.2⟩

def draining : List (Request Unit) :=
  [.record () false false, .record () true false, .push 0 .normal .any, .fetch 0, .stop,
    .push 1 .high .background, .requeue 0 .normal .any, .fetch 1, .finish, .fetch 0]

theorem drain_takes_jobs_to_its_end :
    (let t := (start mixedHub).run draining
     ¬Drained t.history ∧ t.hub.shouldExit = false ∧
       (Hub.push 1 .low .foreground : Act Unit (Hub Unit) (Except Refusal Unit)).Ends t.hub fun result _ =>
         result = .ok (.ok ())) ∧
    let t := (start mixedHub).run (draining ++ [.finish])
    Drained t.history ∧ t.hub.shouldExit = true ∧
      (Hub.push 1 .low .foreground : Act Unit (Hub Unit) (Except Refusal Unit)).Ends t.hub fun result _ =>
        result = .ok (.error .stopped) := by
  obtain ⟨hexit, hpush, -, -⟩ := accepts_until_drained (ρ := Unit) new_mixedHub draining
    (by decide +kernel) (by decide +kernel)
  obtain ⟨hexit', hpush', -, -⟩ := accepts_until_drained (ρ := Unit) new_mixedHub (draining ++ [.finish])
    (by decide +kernel) (by decide +kernel)
  have hleft : ¬Drained ((start mixedHub).run draining).history := by decide +kernel
  have hdrained : Drained ((start mixedHub).run (draining ++ [.finish])).history := by decide +kernel
  refine ⟨⟨hleft, ?_, ?_⟩, hdrained, hexit'.mpr hdrained, ?_⟩
  · rw [Bool.eq_false_iff]
    exact fun he => hleft (hexit.mp he)
  · exact (hpush 1 .low .foreground (by decide +kernel) fun _ => by decide +kernel).mono
      fun _ _ hr => hr.2 hleft
  · exact (hpush' 1 .low .foreground (by decide +kernel) fun _ => by decide +kernel).mono fun _ _ hr =>
      hr.1.mpr hdrained

end Traffic

end FiberScheduler
