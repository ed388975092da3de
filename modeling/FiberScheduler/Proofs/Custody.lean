import FiberScheduler.Proofs.Ledger

/-!
# The handles of a system

A system accounts for every handle there is. While no group has more handles than its
count can tell apart, a group somebody waits on is alive, and no parked fiber gets lost.
-/

namespace FiberScheduler

variable {κ μ ρ : Type}

def Call.gain : (c : Call κ μ ρ) → Except Fault c.Answer → List Nat → List Nat
  | .newGroup, .ok (.ok group), held => group :: held
  | .cloneGroup group, .ok _, held => group :: held
  | .dropGroup group, .ok _, held => held.erase group
  | _, _, held => held

def Call.leave : (c : Call κ μ ρ) → Except Fault c.Answer → List Nat → List Nat
  | .giveGroup group, .ok _, kept => group :: kept
  | .takeGroup group, .ok _, kept => kept.erase group
  | _, _, kept => kept

theorem Call.gain_error (c : Call κ μ ρ) (fault : Fault) (held : List Nat) :
    c.gain (.error fault) held = held := by
  cases c <;> rfl

theorem Call.leave_error (c : Call κ μ ρ) (fault : Fault) (kept : List Nat) :
    c.leave (.error fault) kept = kept := by
  cases c <;> rfl

theorem Call.settle_perm {c : Call κ μ ρ} {held kept : List Nat} (hperm : c.permits held kept = true)
    (a : c.Answer) : (c.settle a held ++ c.leave (.ok a) kept).Perm (c.gain (.ok a) held ++ kept) := by
  cases c with
  | newGroup => cases a <;> exact .refl _
  | giveGroup g =>
    have hg : g ∈ held := by simpa [permits] using hperm
    exact List.perm_middle.trans ((List.perm_cons_erase hg).symm.append_right kept)
  | takeGroup g =>
    have hg : g ∈ kept := by simpa [permits] using hperm
    exact List.perm_middle.symm.trans ((List.perm_cons_erase hg).symm.append_left held)
  | _ => exact .refl _

theorem Call.settle_leave {c : Call κ μ ρ} {kept : List Nat} (hperm : c.permits kept kept = true)
    (a : c.Answer) : (c.settle a (c.leave (.ok a) kept)).Perm (c.gain (.ok a) kept) := by
  cases c with
  | newGroup => cases a <;> exact .refl _
  | giveGroup g =>
    show ((g :: kept).erase g).Perm kept
    rw [List.erase_cons_head]
  | takeGroup g =>
    have hg : g ∈ kept := by simpa [permits] using hperm
    exact (List.perm_cons_erase hg).symm
  | _ => exact .refl _

namespace System

open Act

variable {s s' : System κ μ ρ} {worker : Option Nat} {held Y : List Nat}

/-! ## Calls -/

section
variable (hfit : Fit s.hub) (hb : s.hub.Books (held ++ Y ++ s.hub.tracked))
  (hfew : ∀ g, (held ++ Y ++ s.hub.tracked).count g < wordSize 32) (hkept : ∀ g ∈ s.kept, g ∈ held ++ Y)
  (hw : ∀ g ∈ held, s.hub.waitingOn g ≠ [] → g ∈ Y)
include hfit hb hfew hkept hw

theorem answer_books {c : Call κ μ ρ} (hperm : c.permits held s.kept = true) :
    (answer worker c).Ends s fun r s' =>
      s'.hub.Books (c.gain r held ++ Y ++ s'.hub.tracked) ∧ Hub.Whole s.hub s'.hub ∧
        s'.kept = c.leave r s.kept := by
  obtain ⟨ht, hcleared, hserved⟩ := hfit
  have hany : ∀ {g}, (held.contains g || s.kept.contains g) = true → g ∈ held ++ Y := fun {g} hg => by
    rcases Bool.or_eq_true_iff.mp hg with hg | hg
    · exact List.mem_append_left _ (List.contains_iff_mem.mp hg)
    · exact hkept g (List.contains_iff_mem.mp hg)
  have hhub : ∀ {α : Type} {x : Act ρ (Hub κ) α} {f : Except Fault α → List Nat},
      x.Ends s.hub (fun r h' => Hub.Books h' (f r ++ Y ++ h'.tracked) ∧ Hub.Whole s.hub h') →
      (onHub x : Act ρ (System κ μ ρ) α).Ends s fun r s' =>
        s'.hub.Books (f r ++ Y ++ s'.hub.tracked) ∧ Hub.Whole s.hub s'.hub ∧ s'.kept = s.kept :=
          fun hx => ⟨hx.1, hx.2, rfl⟩
  cases c with
  | newGroup =>
    refine hhub (((Hub.newGroup_books ht hb).and (Hub.newGroup_steady ht)).mono ?_)
    rintro _ h' ⟨⟨answer, rfl, hb'⟩, hst, hwh⟩
    rw [hst.tracked]
    cases answer <;> exact ⟨hb', hwh⟩
  | cloneGroup g =>
    refine hhub (((Hub.cloneGroup_books hb (List.mem_append_left _ (hany hperm))).and
      (Hub.cloneGroup_steady ht g)).mono ?_)
    rintro _ h' ⟨⟨rfl, hb'⟩, hst, hwh⟩
    rw [hst.tracked]
    exact ⟨hb', hwh⟩
  | dropGroup g =>
    have hg : g ∈ held := List.contains_iff_mem.mp hperm
    have hout : (held ++ Y ++ s.hub.tracked).Perm (g :: (held.erase g ++ Y ++ s.hub.tracked)) :=
      ((List.perm_cons_erase hg).append_right Y).append_right _
    have hfew' : (held.erase g ++ Y ++ s.hub.tracked).count g < wordSize 32 := by
      have := hfew g
      rw [hout.count_eq, List.count_cons_self] at this
      omega
    refine hhub ((Hub.dropGroup_books ht (hb.perm hout) hfew' fun hne =>
      List.mem_append_left _ (List.mem_append_right _ (hw g hg hne))).mono ?_)
    rintro _ h' ⟨rfl, hb', hst, hwh⟩
    rw [hst.tracked]
    exact ⟨hb', hwh⟩
  | add g n =>
    refine hhub ((Hub.addGroup_books ht hb (List.mem_append_left _ (hany hperm))).mono ?_)
    rintro r h' ⟨hb', hst, hwh⟩
    rw [hst.tracked]
    exact ⟨hb', hwh⟩
  | count g =>
    obtain ⟨t, ht'⟩ := hb.get?_of_mem (List.mem_append_left _ (hany hperm))
    refine hhub (f := fun _ => held) ?_
    rw [ends_bind, Hub.ends_group ht']
    exact ⟨hb, fun _ => rfl⟩
  | schedule job group p a =>
    refine hhub ((Hub.ends_schedule hcleared hserved job group p a).mono fun r h' hs => ?_)
    refine hs.books ht hcleared hb hfew fun g hg => ?_
    subst hg
    exact hany hperm
  | addJob job p a =>
    refine hhub ((Hub.ends_addJob hcleared hserved job p a).mono fun r h' hs => ?_)
    exact hs.books ht hcleared hb hfew fun g hg => by cases hg
  | spawn code group p a =>
    refine hhub ((Hub.ends_spawn hcleared hserved code group p a).mono fun r h' hs => ?_)
    refine hs.books ht hcleared hb hfew fun g hg => ?_
    subst hg
    exact hany hperm
  | giveGroup | takeGroup | isScheduled | place | counters | report | access =>
    exact ⟨hb, fun _ => rfl, rfl⟩

theorem perform_books (worker : Option Nat) (c : Call κ μ ρ) : (perform worker held c).Ends s fun r s' =>
    s'.hub.Books (c.gain r held ++ Y ++ s'.hub.tracked) ∧ Hub.Whole s.hub s'.hub ∧
      s'.kept = c.leave r s.kept ∧
      (∀ a, r = .ok a → c.permits held s.kept = true) := by
  refine perform_of_answer ?_ fun hperm => ?_
  · rw [Call.gain_error, Call.leave_error]
    exact ⟨hb, fun _ => rfl, rfl, fun _ hr => by cases hr⟩
  · refine (answer_books hfit hb hfew hkept hw hperm).mono ?_
    rintro r s' ⟨hb', hwh, hk⟩
    exact ⟨hb', hwh, hk, fun _ _ => hperm⟩

end

/-! ## Ledgers -/

def heldBy : Option (Run κ μ ρ) → List Nat
  | some run => run.held
  | none => []

def handles (s : System κ μ ρ) : List Nat :=
  gather heldBy s.runs ++ s.kept ++ s.hub.tracked

/-- No group has as many handles as would overflow its count of them. -/
def FewHandles (s : System κ μ ρ) : Prop :=
  ∀ g, s.handles.count g < wordSize 32

instance (s : System κ μ ρ) : Decidable (FewHandles s) :=
  decidable_of_iff (∀ g ∈ s.handles, s.handles.count g < wordSize 32) ⟨fun h g => by
    by_cases hg : g ∈ s.handles
    · exact h g hg
    · rw [List.count_eq_zero.mpr hg]
      exact Nat.two_pow_pos 32, fun h g _ => h g⟩

/-- The handles of a system are those the groups count, and who waits on a group has one. -/
structure Ledger (s : System κ μ ρ) : Prop where
  books : s.hub.Books s.handles
  waits : ∀ g, ∀ fiber ∈ s.hub.waitingOn g, ∃ run, s.run? fiber = some run ∧ g ∈ run.held

theorem mem_idle_of_waiting {h : Hub κ} {g fiber : Nat} (hm : fiber ∈ h.waitingOn g) : fiber ∈ h.idle :=
  List.mem_append_left _ (Hub.mem_parked.mpr ⟨g, hm⟩)

def others (s : System κ μ ρ) (fiber : Nat) : List Nat :=
  gather heldBy (s.runs.setIfInBounds fiber none)

theorem perm_others {fiber : Nat} {run : Run κ μ ρ} (hrun : s.run? fiber = some run) :
    (gather heldBy s.runs).Perm (run.held ++ s.others fiber) := by
  have hset := gather_set_perm heldBy none (run?_eq_some_iff.mp hrun)
  refine List.Perm.trans ?_ List.perm_append_comm
  have hset : (s.others fiber ++ run.held).Perm (gather heldBy s.runs ++ []) := hset
  rw [List.append_nil] at hset
  exact hset.symm

theorem perm_owned {fiber : Nat} {run : Run κ μ ρ} (hrun : s.run? fiber = some run) :
    (gather heldBy s.runs ++ s.kept).Perm (run.held ++ (s.others fiber ++ s.kept)) := by
  rw [← List.append_assoc]
  exact (perm_others hrun).append_right s.kept

theorem perm_putRun {fiber : Nat} {run : Run κ μ ρ} (hrun : s.run? fiber = some run)
    (new : Option (Run κ μ ρ)) :
    (gather heldBy (s.runs.setIfInBounds fiber new)).Perm (heldBy new ++ s.others fiber) := by
  have hlt := (Array.getElem?_eq_some_iff.mp (run?_eq_some_iff.mp hrun)).1
  have hnone : (s.runs.setIfInBounds fiber none)[fiber]? = some none := by
    rw [Array.getElem?_setIfInBounds, if_pos rfl, if_pos hlt]
  have hset := gather_set_perm heldBy new hnone
  rw [Array.setIfInBounds_setIfInBounds] at hset
  have hset :
      (gather heldBy (s.runs.setIfInBounds fiber new) ++ []).Perm (s.others fiber ++ heldBy new) := hset
  rw [List.append_nil] at hset
  exact hset.trans List.perm_append_comm

theorem mem_others {fiber x g : Nat} {run : Run κ μ ρ} (hrun : s.run? x = some run) (hg : g ∈ run.held)
    (hne : fiber ≠ x) :
    g ∈ s.others fiber := by
  refine mem_gather.mpr ⟨x, some run, ?_, hg⟩
  rw [Array.getElem?_setIfInBounds, if_neg hne]
  exact run?_eq_some_iff.mp hrun

/-- Who waits after a step waited before and has kept its handle. -/
theorem waits_of_lists (hl : Ledger s)
    (hlists : ∀ g, s'.hub.waitingOn g = [] ∨ s'.hub.waitingOn g = s.hub.waitingOn g)
    (hruns : ∀ fiber ∈ s.hub.idle, s'.run? fiber = s.run? fiber) (g fiber : Nat)
    (hm : fiber ∈ s'.hub.waitingOn g) :
    ∃ run, s'.run? fiber = some run ∧ g ∈ run.held := by
  rcases hlists g with hn | he
  · rw [hn] at hm; cases hm
  · rw [he] at hm
    rw [hruns fiber (mem_idle_of_waiting hm)]
    exact hl.waits g fiber hm

/-! ## Steps -/

theorem Ledger.of_groups (hl : Ledger s) (hgroups : s'.hub.groups = s.hub.groups)
    (hlinks : s'.hub.links = s.hub.links) (hhandles : s.handles.Perm s'.handles)
    (hruns : ∀ fiber ∈ s.hub.idle, s'.run? fiber = s.run? fiber) : Ledger s' where
  books := (hl.books.of_groups hgroups).perm hhandles
  waits := waits_of_lists hl (fun g => Or.inr (by unfold Hub.waitingOn; rw [hgroups, hlinks])) hruns

section
variable {body : κ → Program κ μ ρ Unit} {i : Nat} {w : Worker} {fiber : Nat} {run : Run κ μ ρ} (h : s.Sound)
  (hl : Ledger s) (hfew : FewHandles s) (hon : OnRun s i w fiber run)
include h hl hfew hon

omit hl hfew in
theorem run?_of_idle (new : Option (Run κ μ ρ)) (hruns : s'.runs = s.runs.setIfInBounds fiber new) (x : Nat)
    (hx : x ∈ s.hub.idle) :
    s'.run? x = s.run? x := by
  have hne : fiber ≠ x := fun he => (h.of_current hon.here hon.current).2.2 (he ▸ hx)
  unfold run?
  rw [hruns, Array.getElem?_setIfInBounds, if_neg hne]

omit h hfew in
theorem books_of_run : s.hub.Books (run.held ++ (s.others fiber ++ s.kept) ++ s.hub.tracked) :=
  hl.books.perm ((perm_owned hon.run).append_right s.hub.tracked)

omit h hl in
theorem few_of_run (g : Nat) : (run.held ++
    (s.others fiber ++ s.kept) ++ s.hub.tracked).count g < wordSize 32 := by
  rw [← ((perm_owned hon.run).append_right s.hub.tracked).count_eq]
  exact hfew g

omit hfew in
/-- A group somebody waits on has a handle besides those of a run on a worker. -/
theorem waited_of_run (g : Nat) (hne : s.hub.waitingOn g ≠ []) : g ∈ s.others fiber ++ s.kept := by
  obtain ⟨x, hx⟩ := List.exists_mem_of_ne_nil _ hne
  obtain ⟨run', hrun', hg⟩ := hl.waits g x hx
  have hfx : fiber ≠ x := fun he => (h.of_current hon.here hon.current).2.2 (he ▸ mem_idle_of_waiting hx)
  exact List.mem_append_left _ (mem_others hrun' hg hfx)

theorem call_of_run (c : Call κ μ ρ) : (perform (some i) run.held c).Ends s fun r s' =>
    s'.hub.Books (c.gain r run.held ++ (s.others fiber ++ s.kept) ++ s'.hub.tracked) ∧
      Hub.Whole s.hub s'.hub ∧
      s'.kept = c.leave r s.kept ∧ (∀ a, r = .ok a → c.permits run.held s.kept = true) := by
  have hany : ∀ g ∈ s.kept, g ∈ run.held ++ (s.others fiber ++ s.kept) := fun g hg =>
    List.mem_append_right _ (List.mem_append_right _ hg)
  exact perform_books h.fit (books_of_run hl hon) (few_of_run hfew hon) hany
    (fun g _ hne => waited_of_run h hl hon g hne) (some i) c

theorem owned_call {c : Call κ μ ρ} {run' : Run κ μ ρ} (hs' : s' = (perform (some i) run.held c s).state)
    (hcalled : ∃ queued, Called s s' queued)
    (hheld : run'.held = match (perform (some i) run.held c s).result with
      | .ok answer => c.settle answer run.held
      | .error _ => run.held) :
    (c.gain (perform (some i) run.held c s).result run.held ++ (s.others fiber ++ s.kept)).Perm
      (gather heldBy (s'.putRun fiber (some run')).runs ++ (s'.putRun fiber (some run')).kept) := by
  obtain ⟨queued, hcalled⟩ := hcalled
  have hend := call_of_run h hl hfew hon c
  unfold Ends at hend
  rw [← hs'] at hend
  obtain ⟨-, -, hk, hperm⟩ := hend
  have hruns : s'.runs = s.runs := by rw [hcalled.rest]
  have hput :
      (gather heldBy (s'.runs.setIfInBounds fiber (some run'))).Perm (run'.held ++ s.others fiber) := by
    rw [hruns]
    exact perm_putRun hon.run (some run')
  have hmoved :
      (run'.held ++ s'.kept).Perm (c.gain (perform (some i) run.held c s).result run.held ++ s.kept) := by
    rw [hheld, hk]
    cases hr : (perform (some i) run.held c s).result with
    | error fault => rw [Call.gain_error, Call.leave_error]
    | ok a => exact Call.settle_perm (hperm a hr) a
  refine List.Perm.symm ((hput.append_right s'.kept).trans ?_)
  refine List.perm_iff_count.mpr fun g => ?_
  have := hmoved.count_eq g
  simp only [List.count_append] at this ⊢
  omega

theorem ledger_call {c : Call κ μ ρ} {run' : Run κ μ ρ} (hs' : s' = (perform (some i) run.held c s).state)
    (hcalled : ∃ queued, Called s s' queued)
    (hheld : run'.held = match (perform (some i) run.held c s).result with
      | .ok answer => c.settle answer run.held
      | .error _ => run.held) :
    Ledger (s'.putRun fiber (some run')) ∧ Hub.Whole s.hub s'.hub := by
  have howned := owned_call h hl hfew hon hs' hcalled hheld
  obtain ⟨queued, hcalled⟩ := hcalled
  have hend := call_of_run h hl hfew hon c
  unfold Ends at hend
  rw [← hs'] at hend
  obtain ⟨hb', hwh, -⟩ := hend
  refine ⟨⟨hb'.perm (howned.append_right s'.hub.tracked), ?_⟩, hwh⟩
  refine waits_of_lists hl hcalled.effect.calm.lists (run?_of_idle h hon (some run') ?_)
  show s'.runs.setIfInBounds fiber (some run') = _
  rw [hcalled.rest]

/-- The end of a run on a worker leaves the handles of the others. It fails only by a signal
too many. -/
theorem endRun_of_run {record : Job κ} (panic : Option Fault) (hrec : s.hub.jobs[run.job]? = some record) :
    (Hub.endRun (workerName i) run.job run.held panic : Act ρ (Hub κ) Unit).Ends s.hub fun r h' =>
      h'.Books (s.others fiber ++ s.kept ++ h'.tracked) ∧ Hub.Whole s.hub h' ∧
        (r = .ok () ↔ ¬s.hub.OverSignals record.completion) := by
  have hbooks := books_of_run hl hon
  have hfew := few_of_run hfew hon
  simp only [List.append_assoc run.held] at hbooks hfew
  exact Hub.endRun_books h.tidy hrec hbooks hfew (waited_of_run h hl hon)

theorem ledger_end {record : Job κ} {panic : Option Fault} {r : Except Fault Unit} {hub : Hub κ}
    (hrec : s.hub.jobs[run.job]? = some record)
    (hend : (Hub.endRun (workerName i) run.job run.held panic : Act ρ (Hub κ) Unit).Ends s.hub fun r' h =>
      r' = r ∧ h = hub)
    (hhub : s'.hub = hub) (hkept : s'.kept = s.kept) (hruns : s'.runs = s.runs.setIfInBounds fiber none) :
    Ledger s' ∧ Hub.Whole s.hub s'.hub := by
  have hcalm := ((Hub.ends_endRun h.tidy hrec).pin hend).calm
  obtain ⟨hb', hwh, -⟩ := (endRun_of_run h hl hfew hon panic hrec).pin hend
  subst hhub
  refine ⟨⟨?_, waits_of_lists hl hcalm.lists (run?_of_idle h hon none hruns)⟩, hwh⟩
  unfold handles
  rw [hruns, hkept]
  exact hb'

end

def IdleBy (s s' : System κ μ ρ) (ds : List (Deed κ μ ρ)) : Prop :=
  ∀ fiber, s'.hub.idle.count fiber + ds.countP (Deed.resumes fiber) = s.hub.idle.count fiber + ds.countP
    (Deed.parks fiber)

theorem idleBy_of_whole {ds : List (Deed κ μ ρ)} (hwh : Hub.Whole s.hub s'.hub) (hstill : Still ds) :
    IdleBy s s' ds := fun fiber => by
  rw [(hstill fiber).1, (hstill fiber).2, hwh fiber]

theorem countP_parked (fiber group x : Nat) (p : Priority) (a : Affinity) :
    [(Deed.parked fiber group p a : Deed κ μ ρ)].countP (Deed.parks x) = [fiber].count x := rfl

theorem countP_resumed (fiber x : Nat) :
    [(Deed.resumed fiber : Deed κ μ ρ)].countP (Deed.resumes x) = [fiber].count x := rfl

/-- A step keeps the ledger, and only parking and resuming change which fibers are idle. -/
theorem Turn.ledger {body : κ → Program κ μ ρ Unit} {i : Nat} {ds : List (Deed κ μ ρ)} (h : s.Sound)
    (hl : Ledger s) (hfew : FewHandles s) (ht : Turn body s i s' ds) :
    Ledger s' ∧ IdleBy s s' ds := by
  cases ht with
  | rest => exact ⟨hl, fun _ => rfl⟩
  | exhausted | started | left => exact ⟨hl.of_groups rfl rfl (.refl _) fun _ _ => rfl, fun _ => rfl⟩
  | @went w fiber run run' s₁ queued action hon hjob hcalled hdoes hsource =>
    have hstill : Still (acceptances queued ++ [.acted run.job action]) :=
      (still_acceptances queued).append fun _ => ⟨rfl, rfl⟩
    rcases hsource with ⟨c, next, -, hs', hheld⟩ | ⟨rfl, hheld⟩
    · exact (ledger_call h hl hfew hon hs' ⟨queued, hcalled⟩ hheld).imp id fun hwh =>
        idleBy_of_whole hwh hstill
    · refine ⟨hl.of_groups rfl rfl ?_ (run?_of_idle h hon (some run') rfl),
        idleBy_of_whole (fun _ => rfl) hstill⟩
      refine List.Perm.append_right _ (List.Perm.append_right _ ?_)
      refine (perm_others hon.run).trans ?_
      have := (perm_putRun hon.run (some run')).symm
      rwa [show heldBy (some run') = run.held from hheld] at this
  | @parked w fiber next group run rest state slot old hon hrest hheld hs hcount htier hx hfree hold seed =>
    have hnot : fiber ∉ s.hub.parked :=
      fun hm => (h.of_current hon.here hon.current).2.2 (List.mem_append_left _ hm)
    have hlt : fiber < s.hub.links.size := by rw [h.links]; exact (Array.getElem?_eq_some_iff.mp hold).1
    refine ⟨⟨?_, fun g x hm => ?_⟩, fun x => ?_⟩
    -- Only the head of the list changed: the handles counted are those of before.
    · refine hl.books.of_handles fun g => ?_
      show ((s.hub.store group (some { state with head := some fiber })
        s.hub.groups.free).groups.get? g).map _ = _
      rw [Hub.get?_store (Hub.block_of_get? hs)]
      by_cases hgk : group = g
      · rw [if_pos hgk, ← hgk, hs]; rfl
      · rw [if_neg hgk]
    · have hw := Hub.waitingOn_withParked (a := w.affinity) w.priority h.tidy hs hnot hlt g
      have hm : x ∈ (s.hub.withParked group state fiber w.priority w.affinity).waitingOn g := hm
      rw [hw] at hm
      by_cases hgk : group = g
      · subst hgk
        rw [if_pos rfl] at hm
        rcases List.mem_cons.mp hm with rfl | hm
        · exact ⟨run, hon.run, hheld⟩
        · exact hl.waits _ x hm
      · rw [if_neg hgk] at hm
        exact hl.waits g x hm
    · have hparked := Hub.count_parked_withParked (a := w.affinity) w.priority h.tidy hs hnot hlt x
      show (s.hub.withParked group state fiber w.priority w.affinity).idle.count x + 0 = _ +
        [Deed.parked fiber group w.priority w.affinity].countP (Deed.parks x)
      rw [Hub.count_idle, Hub.count_idle, hparked, countP_parked]
      show _ + (s.hub.lanes.readied.map (·.fiber)).count x + 0 = _
      omega
  | @ended w fiber run record panic hub hon hover hrec hend =>
    exact And.imp id (fun hwh => idleBy_of_whole hwh fun _ => ⟨rfl, rfl⟩)
      (ledger_end h hl hfew hon hrec hend rfl rfl rfl)
  | @died w fiber run record panic fault hub hon hover hrec hend =>
    exact And.imp id (fun hwh => idleBy_of_whole hwh fun _ => ⟨rfl, rfl⟩)
      (ledger_end h hl hfew hon hrec hend rfl rfl rfl)
  | @began w w' fiber job record lanes hon hrec hway =>
    have hold := h.runs_of_loop hon
    have hnot := (h.of_current hon.here hon.current).2.2
    refine ⟨hl.of_groups rfl rfl ?_ fun x hx => ?_, fun x => ?_⟩
    -- A run just begun holds no handle, and its record tracks the group it tracked.
    · have hruns :
          gather heldBy (s.runs.setIfInBounds fiber (some ⟨job, [], bodyOf body record⟩)) =
          gather heldBy s.runs :=
        gather_set_of_eq heldBy hold rfl
      have hjobs :
          gather (·.completion.toList) (s.hub.jobs.setIfInBounds job { record with started := true }) =
          s.hub.tracked :=
        gather_set_of_eq _ hrec rfl
      show (gather heldBy s.runs ++ s.kept ++ s.hub.tracked).Perm
        (gather heldBy (s.runs.setIfInBounds fiber _) ++ s.kept ++ gather _ (s.hub.jobs.setIfInBounds job _))
      rw [hruns, hjobs]
    · have hne : fiber ≠ x := fun he => hnot (he ▸ hx)
      unfold run?
      show ((s.runs.setIfInBounds fiber _)[x]?).join = _
      rw [Array.getElem?_setIfInBounds, if_neg hne]
    · have hready : lanes.readied = s.hub.lanes.readied := by
        rcases hway with ⟨-, -, rfl⟩ | ⟨p, a, -, htake, -, -⟩
        · rfl
        · exact (Lanes.take_job htake).2.1
      exact congrArg (List.count x) (idle_of_readied hready)
  | passed hon hno htake =>
    exact ⟨hl.of_groups rfl rfl (.refl _) fun _ _ => rfl, fun x =>
      congrArg (List.count x) (idle_of_readied (Lanes.take_job htake).2.1)⟩
  | returned hon hno htake hneeds hnormal hall hput =>
    exact ⟨hl.of_groups rfl rfl (.refl _) fun _ _ => rfl, fun x =>
      congrArg (List.count x) (idle_of_readied
        ((Lanes.pushJob_ok hput).2.1.trans (Lanes.take_job htake).2.1))⟩
  | @resumed w fiber ready lanes slot old hon hno htake hx hold =>
    refine ⟨hl.of_groups rfl rfl (.refl _) fun _ _ => rfl, fun x => ?_⟩
    show ({ s.hub with lanes } : Hub κ).idle.count x + [Deed.resumed ready.fiber].countP
      (Deed.resumes x) = _ + 0
    rw [countP_resumed, Nat.add_zero]
    exact idle_of_take_fiber htake x

/-! ## Moves -/

section
variable (h : s.Sound) (hl : Ledger s) (hfew : FewHandles s) (c : Call κ μ ρ)
include h hl hfew

theorem call_outside : (perform none s.kept c).Ends s fun r s' =>
    s'.hub.Books (c.gain r s.kept ++ gather heldBy s.runs ++ s'.hub.tracked) ∧ Hub.Whole s.hub s'.hub ∧
      s'.kept = c.leave r s.kept ∧ (∀ a, r = .ok a → c.permits s.kept s.kept = true) := by
  have hp : s.handles.Perm (s.kept ++ gather heldBy s.runs ++ s.hub.tracked) :=
    List.perm_append_comm.append_right _
  have hfew' : ∀ g, (s.kept ++ gather heldBy s.runs ++ s.hub.tracked).count g < wordSize 32 := fun g => by
    rw [← hp.count_eq]
    exact hfew g
  have hw : ∀ g ∈ s.kept, s.hub.waitingOn g ≠ [] → g ∈ gather heldBy s.runs := fun g _ hne => by
    obtain ⟨x, hx⟩ := List.exists_mem_of_ne_nil _ hne
    obtain ⟨run, hrun, hg⟩ := hl.waits g x hx
    exact mem_gather.mpr ⟨x, some run, run?_eq_some_iff.mp hrun, hg⟩
  exact perform_books h.fit (hl.books.perm hp) hfew' (fun g hg => List.mem_append_left _ hg) hw none c

theorem ask_kept : ∃ kept, (ask c s).state = { (perform none s.kept c s).state with kept } ∧
    kept.Perm (c.gain (perform none s.kept c s).result s.kept) := by
  obtain ⟨-, -, hk, hperm⟩ := call_outside h hl hfew c
  have hask : (ask c).Ends s fun _ s' => s' = { (perform none s.kept c s).state with
      kept := match (perform none s.kept c s).result with
        | .ok a => c.settle a (perform none s.kept c s).state.kept
        | .error _ => (perform none s.kept c s).state.kept } := by
    simp only [ask, ends_bind, ends_get, after_ok]
    unfold Ends
    cases (perform none s.kept c s).result <;> rfl
  refine ⟨_, hask, ?_⟩
  rw [hk]
  cases hr : (perform none s.kept c s).result with
  | error fault => rw [Call.gain_error, Call.leave_error]
  | ok a => exact Call.settle_leave (hperm a hr) a

theorem ask_ledger : (ask c).Ends s fun _ s' => Ledger s' ∧ Hub.Whole s.hub s'.hub := by
  obtain ⟨hb', hwh, -⟩ := call_outside h hl hfew c
  have hcalled := perform_called h.fit none s.kept c
  obtain ⟨kept, hstate, hkept⟩ := ask_kept h hl hfew c
  unfold Ends at hcalled ⊢
  rw [hstate]
  generalize (perform none s.kept c s).result = r at hb' hcalled hkept
  generalize (perform none s.kept c s).state = s' at hb' hwh hcalled
  have hruns : s'.runs = s.runs := by rw [hcalled.rest]
  have hrun : ∀ x ∈ s.hub.idle, s'.run? x = s.run? x := fun x _ => by unfold run?; rw [hruns]
  refine ⟨⟨hb'.perm ?_, waits_of_lists hl hcalled.effect.calm.lists hrun⟩, hwh⟩
  have hhandles :
      ({ s' with kept } : System κ μ ρ).handles = gather heldBy s.runs ++ kept ++ s'.hub.tracked := by
    rw [← hruns]
    rfl
  rw [hhandles]
  exact (List.perm_append_comm.trans (hkept.symm.append_left _)).append_right _

end

theorem record_ledger (hl : Ledger s) (code : κ) (extended oneShot : Bool) :
    (onHub (Hub.addRecord (.new code extended oneShot)) : Act ρ (System κ μ ρ) Nat).Ends s fun _ s' =>
      Ledger s' ∧ Hub.Whole s.hub s'.hub := by
  refine (ends_zoom _ _ _).mpr ((Hub.ends_addRecord _ _).mpr ?_)
  split
  · refine ⟨hl.of_groups rfl rfl ?_ fun _ _ => rfl, fun _ => rfl⟩
    show (gather heldBy s.runs ++ s.kept ++ s.hub.tracked).Perm
      (gather heldBy s.runs ++ s.kept ++ Hub.tracked _)
    rw [Hub.tracked_push s.hub rfl]
  · exact ⟨hl, fun _ => rfl⟩

theorem ledger_move (body : κ → Program κ μ ρ Unit) (h : s.Sound) (hl : Ledger s) (hfew : FewHandles s)
    (m : Move κ μ ρ) :
    Ledger (move body s m) ∧ IdleBy s (move body s m) (deeds s (move body s m) m) := by
  cases m with
  | work worker => exact (turn_of_sound h body worker).ledger h hl hfew
  | call c =>
    obtain ⟨hl', hwh⟩ := ask_ledger h hl hfew c
    exact ⟨hl', idleBy_of_whole hwh (still_acceptances _)⟩
  | record code extended oneShot =>
    obtain ⟨hl', hwh⟩ := record_ledger hl code extended oneShot
    exact ⟨hl', idleBy_of_whole hwh fun _ => ⟨rfl, rfl⟩⟩
  | stop => exact ⟨hl.of_groups rfl rfl (.refl _) fun _ _ => rfl, fun _ => rfl⟩

end System

end FiberScheduler
