import FiberScheduler.Proofs.Balance
import FiberScheduler.Proofs.Requests
import FiberScheduler.Proofs.Slots
import FiberScheduler.Proofs.Wakeups

/-!
# Accounts along runs

What users add to groups and signal is entered in accounts, in the order of the moves of
a run. As long as no release takes more units than there are, every move keeps the count
of each group equal to its account and the number of pending jobs that it tracks.
-/

namespace FiberScheduler

variable {κ μ ρ : Type}

def Call.postings : (c : Call κ μ ρ) → Except Fault c.Answer → List Posting
  | .newGroup, r => Hub.opened r
  | .add g n, r => Hub.moved g n r
  | _, _ => []

theorem Call.postings_error (c : Call κ μ ρ) (fault : Fault) : c.postings (.error fault) = [] := by
  cases c <;> rfl

def Call.Covered (h : Hub κ) : Call κ μ ρ → Prop
  | .add g n => n < 0 → h.Covers g (-n.toInt)
  | _ => True

instance (h : Hub κ) : ∀ c : Call κ μ ρ, Decidable (c.Covered h)
  | .add g n => inferInstanceAs (Decidable (n < 0 → h.Covers g (-n.toInt)))
  | .newGroup | .cloneGroup _ | .dropGroup _ | .giveGroup _ | .takeGroup _ | .count _ | .schedule ..
  | .addJob .. | .isScheduled _ | .spawn .. | .place | .counters | .report _ | .access _ => .isTrue trivial

def Hub.CoversEnd (h : Hub κ) (job : Nat) : Prop :=
  ∀ g ∈ (h.jobs[job]?).bind (·.completion), h.Covers g 1

instance (h : Hub κ) (job : Nat) : Decidable (h.CoversEnd job) :=
  inferInstanceAs (Decidable (∀ g ∈ (h.jobs[job]?).bind (·.completion), h.Covers g 1))

instance Program.Over.decidable : ∀ p : Program κ μ ρ Unit, Decidable p.Over
  | .done () => .isTrue .done
  | .panic fault => .isTrue (.panic fault)
  | .wait .. => .isFalse fun h => by cases h
  | .call .. => .isFalse fun h => by cases h

namespace System

open Act

variable {σ : Type} {body : κ → Program κ μ ρ Unit} {s s' : System κ μ ρ} {worker : Nat} {m : Move κ μ ρ}
  {ds : List (Deed κ μ ρ)} {es : List Posting} {c : Call κ μ ρ} {r : Except Fault c.Answer} {i : Option Nat}
  {held : List Nat}

def postings (s : System κ μ ρ) (m : Move κ μ ρ) : List Posting :=
  ((s.callOf m).map fun q => q.1.postings q.2).getD []

/-- Whether no release of a move takes more units than there are. -/
def Covered (s : System κ μ ρ) : Move κ μ ρ → Prop
  | .work worker => ∀ run ∈ s.activeRun? worker, (run.rest.Over → s.hub.CoversEnd run.job) ∧
      ∀ c ∈ run.rest.call?, c.permits run.held s.kept = true → c.Covered s.hub
  | .call c => c.permits s.kept s.kept = true → c.Covered s.hub
  | _ => True

instance (s : System κ μ ρ) : ∀ m, Decidable (s.Covered m)
  | .work worker =>
    inferInstanceAs (Decidable (∀ run ∈ s.activeRun? worker, (run.rest.Over → s.hub.CoversEnd run.job) ∧
      ∀ c ∈ run.rest.call?, c.permits run.held s.kept = true → c.Covered s.hub))
  | .call c => inferInstanceAs (Decidable (c.permits s.kept s.kept = true → c.Covered s.hub))
  | .record .. | .stop => .isTrue trivial

/-! ## Calls -/

theorem Caller.mem_handles (hcaller : Caller s m c i held) {g : Nat} (hg : g ∈ held ∨ g ∈ s.kept) :
    g ∈ s.handles := by
  refine List.mem_append_left _ ?_
  rcases hg with hg | hg
  · cases hcaller with
    | inside hon hrest =>
      exact List.mem_append_left _ ((perm_others hon.run).mem_iff.mpr (List.mem_append_left _ hg))
    | outside c => exact List.mem_append_right _ hg
  · exact List.mem_append_right _ hg

section
variable (h : s.Sound) (hl : Ledger s) (hfew : FewHandles s) (hlatched : s.hub.Latched)
  (ha : s.hub.Accounted s.pending (accounts es)) (hheld : ∀ g, g ∈ held ∨ g ∈ s.kept → g ∈ s.handles)
include h hl hfew hlatched ha hheld

theorem answer_accounted (i : Option Nat) (hperm : c.permits held s.kept = true) (hroom : c.Roomy s.hub)
    (hcovered : c.Covered s.hub) : (answer i c).Ends s fun r t =>
      t.hub.Accounted (Hub.joined (c.accepted s.hub.jobs.size r) s.pending)
        (accounts (es ++ c.postings r)) := by
  have hlive : ∀ g, (held.contains g || s.kept.contains g) = true →
      ∃ state, s.hub.groups.get? g = some state := by
    intro g hg
    refine hl.books.get?_of_mem (hheld g ?_)
    simpa using hg
  have hreceptive : ∀ g, (held.contains g || s.kept.contains g) = true → s.hub.Roomy g 1 →
      s.hub.Receptive g := by
    intro g hg hr
    exact hl.books.receptive_of_roomy hfew hlatched (hheld g (by simpa using hg)) hr
  have hunscheduled : ∀ job record, s.hub.jobs[job]? = some record → record.scheduled = false →
      job ∉ s.pending := by
    intro job record hrec hfree hj
    obtain ⟨record', hrec', hscheduled⟩ := h.record hj
    obtain rfl := Option.some.inj (hrec.symm.trans hrec')
    rw [hfree] at hscheduled
    cases hscheduled
  have hsame : s.hub.Accounted s.pending (accounts (es ++ [])) := by rwa [List.append_nil]
  have hhub :
      ∀ {α : Type} {x : Act ρ (Hub κ) α} {q : Except Fault α → Option (Nat × Option Nat)}
      {e : Except Fault α → List Posting},
        (x.Ends s.hub fun r h' => h'.Accounted (Hub.joined (q r) s.pending) (accounts (es ++ e r))) →
        (onHub x : Act ρ (System κ μ ρ) α).Ends s fun r t =>
          t.hub.Accounted (Hub.joined (q r) s.pending) (accounts (es ++ e r)) := fun hx => hx
  obtain ⟨ht, hcleared, hserved⟩ := h.fit
  cases c with
  | newGroup =>
    have hnone : ∀ g, s.hub.groups.get? g = none → ∀ job ∈ s.pending, s.hub.tracks g job = false :=
      fun g hdead job _ => hl.books.tracks_eq_false hdead job
    exact hhub (q := fun _ => none) (Hub.newGroup_accounted ha ht hnone)
  | cloneGroup g => exact hhub (q := fun _ => none) (e := fun _ => []) (Hub.cloneGroup_accounted hsame g)
  | dropGroup g => exact hhub (q := fun _ => none) (e := fun _ => []) (Hub.dropGroup_accounted hsame ht g)
  | add g n =>
    obtain ⟨state, hs⟩ := hlive g hperm
    exact hhub (q := fun _ => none) (Hub.addGroup_accounted ha ht hlatched hs (hroom (g, n) rfl) hcovered)
  | count g =>
    refine hhub (q := fun _ => none) (e := fun _ => []) ?_
    obtain ⟨state, hs⟩ := hlive g hperm
    rw [ends_bind, Hub.ends_group hs]
    exact hsame
  | schedule job group p a =>
    refine hhub (e := fun _ => []) ((Hub.ends_schedule hcleared hserved job group p a).mono ?_)
    intro r h' hs
    refine hs.accounted ?_ ?_ hsame fun record => hunscheduled job record
    · rintro g rfl
      exact hlive g hperm
    · rintro record hrec hfree g rfl
      refine hreceptive g hperm (hroom (g, 1) ?_)
      simp only [Call.addition, hrec, Option.any_some, hfree, Bool.not_false, if_true, Option.mem_def]
  | addJob job p a =>
    refine hhub (e := fun _ => []) ((Hub.ends_addJob hcleared hserved job p a).mono ?_)
    intro r h' hs
    exact hs.accounted (fun g hg => by cases hg) (fun _ _ _ g hg => by cases hg) hsame fun record =>
      hunscheduled job record
  | spawn code group p a =>
    refine hhub (e := fun _ => []) ((Hub.ends_spawn hcleared hserved code group p a).mono ?_)
    intro r h' hs
    refine hs.accounted hsame ?_ ?_ ?_
    · intro job hj
      obtain ⟨record, hrec, -⟩ := h.record hj
      rw [hrec]
      rfl
    · rintro g rfl
      exact hlive g hperm
    · rintro hlimit g rfl
      exact hreceptive g hperm (hroom (g, 1) (if_pos hlimit))
  | giveGroup | takeGroup | isScheduled | place | counters | report | access => exact hsame

theorem perform_accounted (i : Option Nat) (hroom : c.permits held s.kept = true → c.Roomy s.hub)
    (hcovered : c.permits held s.kept = true → c.Covered s.hub) : (perform i held c).Ends s fun r t =>
      t.hub.Accounted (Hub.joined (c.accepted s.hub.jobs.size r) s.pending)
        (accounts (es ++ c.postings r)) := by
  refine perform_of_answer ?_ fun hperm =>
    answer_accounted h hl hfew hlatched ha hheld i hperm (hroom hperm) (hcovered hperm)
  rw [accepted_error, Call.postings_error, List.append_nil]
  exact ha

end

/-! ## Moves -/

theorem Asked.pending {queued : Option (Nat × Option Nat)} (hasked : Asked s s' m c r)
    (hqueues : Hub.Queues s.hub s'.hub queued) :
    s'.pending.Perm (Hub.joined queued s.pending) := by
  have hhandoffs : s'.handoffs = s.handoffs := by
    unfold handoffs
    rw [hasked.workers]
  have hruns : s'.runJobs = s.runJobs := by
    unfold runJobs
    rcases hasked.runs with hruns | ⟨i, w, fiber, run, run', hon, hjob, hruns⟩
    · rw [hruns]
    · rw [hruns]
      refine gather_set_of_eq jobOf (run?_eq_some_iff.mp hon.run) ?_
      simp only [jobOf, Option.map_some, hjob]
  have hpending : s'.pending = s'.hub.lanes.queued ++ (s.handoffs ++ s.runJobs) := by
    unfold System.pending unbegun
    rw [hhandoffs, hruns, List.append_assoc]
  have hbefore : s.pending = s.hub.lanes.queued ++ (s.handoffs ++ s.runJobs) := List.append_assoc ..
  rw [hpending, hbefore]
  cases hqueues with
  | none hqueued =>
    rw [hqueued]
    exact .refl _
  | some hqueued => exact hqueued.append_right _

section
variable (h : s.Sound) (hl : Ledger s) (hfew : FewHandles s) (hlatched : s.hub.Latched)
  (ha : s.hub.Accounted s.pending (accounts es))
include h hl hfew hlatched ha

theorem asked_accounted (hcall : s.callOf m = some ⟨c, r⟩) (hroom : s.Roomy m) (hcovered : s.Covered m) :
    (move body s m).hub.Accounted (move body s m).pending (accounts (es ++ postings s m)) := by
  have hasked := asked_of_callOf body h hcall
  obtain ⟨i, held, hcaller, hmade⟩ := hasked.made
  have hroom : c.permits held s.kept = true → c.Roomy s.hub := by
    cases hcaller with
    | inside hon hrest => exact hroom hon.alive _ hon.runOn? _ (by rw [hrest]; rfl)
    | outside c => exact hroom
  have hcovered : c.permits held s.kept = true → c.Covered s.hub := by
    cases hcaller with
    | inside hon hrest => exact (hcovered _ hon.activeRun?).2 _ (by rw [hrest]; rfl)
    | outside c => exact hcovered
  have hmem : ∀ g, g ∈ held ∨ g ∈ s.kept → g ∈ s.handles := fun g => hcaller.mem_handles
  obtain ⟨⟨hkept, hcalled⟩, hr, hhub⟩ :=
    ((perform_accounted h hl hfew hlatched ha hmem i hroom hcovered).and
      (perform_called h.fit i held c)).and hmade
  have hqueues := hcalled.effect.queues
  rw [hr, hhub] at hkept hqueues
  have hentries : postings s m = c.postings r := by
    unfold postings
    rw [hcall]
    rfl
  rw [hentries]
  exact hkept.perm (hasked.pending hqueues).symm

end

theorem endRun_succeeds (h : s.Sound) (hl : Ledger s) (hfew : FewHandles s) {w : Worker} {fiber : Nat}
    {run : Run κ μ ρ} {record : Job κ} (hon : OnRun s worker w fiber run) (panic : Option Fault)
    (hrec : s.hub.jobs[run.job]? = some record) (hcovers : s.hub.CoversEnd run.job) :
    (Hub.endRun (workerName worker) run.job run.held panic : Act ρ (Hub κ) Unit).Ends s.hub fun r _ =>
      r = .ok () := by
  refine (endRun_of_run h hl hfew hon panic hrec).mono fun r hub hr => hr.2.2.mpr ?_
  rintro ⟨-, g, state, hg, hstate, hlt⟩
  have hle : 1 ≤ state.count := Int32.le_iff_toInt_le.mpr (hcovers g (by rw [hrec]; exact hg) state hstate)
  exact absurd hle (Int32.not_le.mpr hlt)

section
variable {account : Nat → Int} (h : s.Sound) (hl : Ledger s) (hfew : FewHandles s)
  (ha : s.hub.Accounted s.pending account)
include h hl hfew ha

theorem Turn.accounted (hcall : s.callOf (.work worker) = none) (hcovered : s.Covered (.work worker))
    (ht : Turn body s worker s' ds) :
    s'.hub.Accounted s'.pending account := by
  have hunbegun := ht.unbegun h
  have hkept : Hub.Counted s.hub s'.hub (fun _ n => n) → s'.hub.jobs = s.hub.jobs →
    s'.pending.Perm s.pending →
      s'.hub.Accounted s'.pending account := fun hc hjobs hp => (ha.of_kept hc hjobs).perm hp.symm
  cases ht with
  | rest | exhausted => exact ha
  | started | passed | returned | resumed | left =>
    exact hkept (.refl _) rfl (perm_of_counts (pending_of_unbegun hunbegun rfl))
  | @went w fiber run run' s₁ queued action hon hjob hcalled hdoes hsource =>
    rcases hsource with ⟨c, next, hrest, -⟩ | ⟨rfl, -⟩
    · rw [callOf_work hon hrest] at hcall
      cases hcall
    · exact hkept (.refl _) rfl (.of_eq (pending_putRun hon.run hjob))
  | @parked w fiber next group run rest state slot old hon hrest hheld hs =>
    have hcounted :
        Hub.Counted s.hub (s.hub.withParked group state fiber w.priority w.affinity) fun _ n => n :=
      Hub.counted_store (o := some { state with head := some fiber }) hs
        (fun s' hs' => by rw [← Option.some.inj hs']) fun _ _ _ => rfl
    exact hkept hcounted rfl (perm_of_counts (pending_of_unbegun hunbegun rfl))
  | @ended w fiber run record panic hub hon hover hrec hend =>
    obtain ⟨hjobs, -⟩ := ((Hub.ends_endRun h.tidy hrec).pin hend).whole rfl
    have hcounted := (Hub.endRun_counted h.tidy hrec).pin hend rfl
    have hp : s.pending.Perm (run.job :: ((s.putRun fiber none).setHub hub).pending) :=
      pending_putRun_none hon.run hunbegun rfl
    refine ha.of_end hp (h.not_mem_of_perm hp) hrec hjobs hcounted fun g hg => ?_
    exact (hcovered run hon.activeRun?).1 hover g (by rw [hrec]; exact hg)
  | @died w fiber run record panic fault hub hon hover hrec hend =>
    have hok : Except.error fault = .ok () :=
      (endRun_succeeds h hl hfew hon panic hrec ((hcovered run hon.activeRun?).1 hover)).pin hend
    cases hok
  | @began w w' fiber job record lanes hon hrec hway =>
    refine Hub.Accounted.perm ?_ (perm_of_counts (pending_began (h.runs_of_loop hon) rfl hunbegun)).symm
    exact ha.started hrec lanes

theorem accounted_move (hlatched : s.hub.Latched) (hroom : s.Roomy m) (hcovered : s.Covered m)
    {es : List Posting} (hes : account = accounts es) :
    (move body s m).hub.Accounted (move body s m).pending (accounts (es ++ postings s m)) := by
  subst hes
  cases hcall : s.callOf m with
  | some q => exact asked_accounted h hl hfew hlatched ha hcall hroom hcovered
  | none =>
    have hentries : postings s m = [] := by
      unfold postings
      rw [hcall]
      rfl
    rw [hentries, List.append_nil]
    cases m with
    | work worker => exact Turn.accounted h hl hfew ha hcall hcovered (turn_of_sound h body worker)
    | call c => cases hcall
    | stop => exact ha.of_kept (.refl _) rfl
    | record code extended oneShot =>
      have hmade : (onHub (Hub.addRecord (.new code extended oneShot)) : Act ρ (System κ μ ρ) Nat).Ends s
          fun _ t => t.hub.Accounted t.pending (accounts es) := by
        refine (ends_zoom _ _ _).mpr ((Hub.ends_addRecord _ _).mpr ?_)
        split
        · refine ha.push ?_ rfl
          intro job hj
          obtain ⟨record, hrec, -⟩ := h.record hj
          rw [hrec]
          rfl
        · exact ha
      exact hmade

end

/-! ## Waits that return -/

theorem Turn.waited (ht : Turn body s worker s' ds) {job g : Nat} (hd : .acted job (.wait g) ∈ ds) :
    ∃ w fiber run next, OnRun s worker w fiber run ∧ run.rest = .wait g next := by
  cases ht with
  | @went w fiber run run' s₁ queued action hon hjob hcalled hdoes =>
    rcases List.mem_append.mp hd with hd | hd
    · cases queued with
      | none => cases hd
      | some q => cases List.mem_singleton.mp hd
    · cases List.mem_singleton.mp hd
      generalize hrest : run.rest = p at hdoes
      generalize run'.rest = q at hdoes
      cases hdoes with
      | wait => exact ⟨w, fiber, run, _, hon, hrest⟩
  | ended | began | parked | resumed => cases List.mem_singleton.mp hd
  | rest | exhausted | started | died | passed | returned | left => cases hd

theorem signaled_of_wait (h : s.Sound) {job g : Nat} (hd : .acted job (.wait g) ∈ deeds s (move body s m) m) :
    ∃ state, s.hub.groups.get? g = some state ∧ state.count = 0 := by
  rcases called_move body h m with ⟨worker, rfl⟩ | rfl | ⟨queued, -, hds⟩
  · obtain ⟨w, fiber, run, next, hon, hrest⟩ := (turn_of_sound h body worker).waited hd
    rw [deeds_onRun hon, deedsOfRun, hrest] at hd
    obtain ⟨-, ⟨fault, hr⟩ | ⟨state, hr, -, hs⟩⟩ := access_cases s run.held g
    · simp only [hr, List.mem_singleton] at hd
      cases hd
    · refine ⟨state, hs, ?_⟩
      simp only [hr] at hd
      split at hd
      · rename_i hsignaled
        simpa [Group.isSignaled] using hsignaled
      · split at hd
        · cases hd
        · cases List.mem_singleton.mp hd
  · cases hd
  · rw [hds] at hd
    cases queued with
    | none => cases hd
    | some q => cases List.mem_singleton.mp hd

/-! ## Runs -/

/-- What a run keeps while no count gets too large and no release takes too much. -/
structure Settled (s : System κ μ ρ) (es : List Posting) : Prop where
  sound : s.Sound
  ledger : Ledger s
  latched : s.hub.Latched
  accounted : s.hub.Accounted s.pending (accounts es)

theorem New.settled (h : New s) : Settled s [] where
  sound := h.sound
  ledger := h.placed.ledger
  latched := h.guarded.latched
  accounted := by
    rw [h.pending]
    exact h.hub.accounted _

theorem Settled.step (h : Settled s es) (hroom : s.Roomy m) (hcovered : s.Covered m) (hfew : FewHandles s) :
    Settled (move body s m) (es ++ postings s m) where
  sound := sound_move body h.sound m
  ledger := (ledger_move body h.sound h.ledger hfew m).1
  latched := latched_move h.sound h.latched hroom
  accounted := accounted_move h.sound h.ledger hfew h.accounted h.latched hroom hcovered rfl

theorem New.settled_play (h : New s) {moves : List (Move κ μ ρ)} (hroom : Along body Roomy s moves)
    (hcovered : Along body Covered s moves) (hfew : Along body (fun s _ => FewHandles s) s moves) :
    Settled (play body s moves) (trail body postings s moves) :=
  trail_induction (P := fun s m => s.Roomy m ∧ s.Covered m ∧ FewHandles s)
    (fun _ _ _ hfair hs => hs.step hfair.1 hfair.2.1 hfair.2.2)
    (fun before m after he => ⟨hroom before m after he, hcovered before m after he,
      hfew before m after he⟩) h.settled

theorem Settled.consistent (h : Settled s es) : s.hub.Consistent s.pending (accounts es) :=
  h.accounted.consistent h.sound.cleared h.sound.once

end System

end FiberScheduler
