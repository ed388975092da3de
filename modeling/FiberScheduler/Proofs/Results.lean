import FiberScheduler.Proofs.Agreement
import FiberScheduler.Proofs.Drain
import FiberScheduler.Proofs.Halving

/-!
# Results of sorts

Sorts are submitted from outside, each with a cell of its own, and run on any workers and in any
order. What a sort leaves in its cell is then its values sorted, or a refusal that has a cause.
-/

open FiberScheduler.System

namespace FiberScheduler.Sorting

/-- What may be done from outside while sorts run: groups are made and dropped, and sorts are
submitted, each to a cell of its own and to a group with room. -/
def Orderly (n : Nat) (s : Sys) : System.Move Task Cells Empty → Prop
  | .work _ | .stop => True
  | .call (.spawn task group _ _) =>
    task.cell < n ∧ (∀ record ∈ s.hub.jobs, record.code.cell ≠ task.cell) ∧ ∀ g ∈ group, g ∈ s.kept ∧
      s.hub.Roomy g 1
  | .call c => c.Quiet ∧ ¬c.Accesses
  | .record .. => False

instance (n : Nat) (s : Sys) : ∀ m, Decidable (Orderly n s m)
  | .work _ | .stop => .isTrue trivial
  | .call (.spawn task group _ _) =>
    inferInstanceAs (Decidable (task.cell < n ∧ (∀ record ∈ s.hub.jobs, record.code.cell ≠ task.cell) ∧
      ∀ g ∈ group, g ∈ s.kept ∧ s.hub.Roomy g 1))
  | .call .newGroup | .call (.dropGroup _) | .call (.isScheduled _) | .call .place | .call .counters
  | .call (.report _) => .isTrue ⟨trivial, id⟩
  | .call (.access _) => .isFalse fun h => h.2 trivial
  | .call (.cloneGroup _) | .call (.giveGroup _) | .call (.takeGroup _) | .call (.add ..)
  | .call (.count _) | .call (.schedule ..) | .call (.addJob ..) => .isFalse fun h => h.1
  | .record .. => .isFalse id

section
variable {n : Nat} {s t : Sys} {ds : Story} {taken : List Nat} {ps : List Posting}
  {m : System.Move Task Cells Empty}

/-! ## Moves from outside -/

theorem Orderly.modest {c : Call Task Cells Empty} (ho : Orderly n s (.call c)) : c.Modest := by
  cases c with
  | spawn => trivial
  | newGroup | cloneGroup | dropGroup | giveGroup | takeGroup | add | count | schedule | addJob
  | isScheduled | place | counters | report | access => exact ho.1.modest

section
variable (hs : Even s ps) (hc : Coherent n s ds taken)
include hs hc

theorem Coherent.modest (ho : Orderly n s m) : s.Modest m := by
  cases m with
  | work worker => exact hc.modest_work hs worker
  | call c => exact ho.modest
  | record => exact ho.elim
  | stop => trivial

theorem Coherent.roomy (ho : Orderly n s m) : s.Roomy m := by
  cases m with
  | work worker =>
    intro _ run hrun c hcall _
    obtain ⟨fiber, hrun⟩ := run?_of_runOn? hrun
    exact (hc.next_call hs hrun c hcall).2
  | call c =>
    intro _ q hq
    cases c with
    | spawn task group =>
      cases group with
      | none => cases hq
      | some g =>
        obtain ⟨-, he⟩ := Option.ite_none_right_eq_some.mp hq
        cases he
        exact (ho.2.2 g rfl).2
    | schedule | add => exact ho.1.elim
    | newGroup | cloneGroup | dropGroup | giveGroup | takeGroup | count | addJob | isScheduled | place
    | counters | report | access => cases hq
  | record | stop => trivial

omit hs in
theorem Coherent.unasked (h' : t.Sound) (hcalled : Called s t none) (hjobs : t.hub.jobs = s.hub.jobs)
    (hmemory : t.memory = s.memory) :
    Coherent n t (ds ++ []) taken := by
  have hruns : t.runs = s.runs := by rw [hcalled.rest]
  have hp := perm_of_counts (pending_of_unbegun (fun job => hcalled.unbegun job) hruns)
  have hlater : Later s t := .of_same hjobs (fun job hin => hp.mem_iff.mp hin) fun job hin => by
    rw [← List.count_pos_iff, hcalled.unbegun job] at hin
    exact List.count_pos_iff.mp hin
  exact hc.still h' hlater hjobs hmemory hruns (fun job hin => hp.mem_iff.mpr hin) fun d hd => by cases hd

theorem Coherent.asked_quiet {c : Call Task Cells Empty} (hquiet : c.Quiet) (hno : ¬c.Accesses)
    (h' : (ask c s).state.Sound) :
    Coherent n (ask c s).state (ds ++ acceptances (c.accepted s.hub.jobs.size (ask c s).result)) taken := by
  have h := hs.settled.sound
  have hcalled : Called s (ask c s).state (c.accepted s.hub.jobs.size (ask c s).result) := ask_called h.fit c
  have hsame : (ask c).Ends s fun _ t => t.hub.jobs = s.hub.jobs ∧ t.memory = s.memory :=
    ask_of_perform (fun _ _ _ => id) <|
      ((perform_quiet h.fit none s.kept hquiet).and (perform_memory none s.kept hno)).mono fun r t ht =>
      ⟨ht.1.1, ht.2⟩
  rw [hquiet.accepted] at hcalled ⊢
  exact hc.unasked h' hcalled hsame.1 hsame.2

theorem Coherent.asked_spawn {task : Task} {group : Option Nat} {p : Priority} {a : Affinity}
    (ho : Orderly n s (.call (.spawn task group p a))) (h' : (ask (.spawn task group p a) s).state.Sound) :
      Coherent n (ask (.spawn task group p a) s).state
      (ds ++ acceptances ((Call.spawn task group p a).accepted s.hub.jobs.size
        (ask (.spawn task group p a) s).result)) taken := by
  have h := hs.settled.sound
  obtain ⟨hcell, hnew, hgroup⟩ := ho
  have hasked : (ask (.spawn task group p a : Call Task Cells Empty)).Ends s _ :=
    hs.ask_spawn (fun g hg => (hgroup g hg).1) fun g hg => (hgroup g hg).2
  have hcalled : Called s (ask (.spawn task group p a) s).state
    ((Call.spawn task group p a).accepted s.hub.jobs.size (ask (.spawn task group p a) s).result) :=
      ask_called h.fit _
  obtain ⟨hmemory, ⟨hnone, hjobs⟩ | ⟨hr, hjobs⟩⟩ := hasked
  · rw [hnone] at hcalled ⊢
    exact hc.unasked h' hcalled hjobs hmemory
  · rw [hr] at hcalled ⊢
    generalize (ask (.spawn task group p a) s).state = t at h' hmemory hjobs hcalled
    have hruns : t.runs = s.runs := by rw [hcalled.rest]
    have hsame : t.runJobs = s.runJobs := by rw [runJobs, hruns]; rfl
    have hcount : ∀ job, t.pending.count job = s.pending.count job + [s.hub.jobs.size].count job :=
      fun job => hcalled.counted_pending job
    have hlater : Later s t := hcalled.later h (fun q hq => by cases hq; rfl) rfl rfl fun job => by rw [hsame]
    refine hc.planted h' hlater hjobs hmemory hruns ?_ (fun job hin => ?_) hcell
      (fun k record hk => ?_) fun g hg k r hr hin => ?_
    · rw [← List.count_pos_iff, hcount, List.count_singleton_self]
      exact Nat.succ_pos _
    · rw [← List.count_pos_iff, hcount]
      exact Nat.lt_of_lt_of_le (List.count_pos_iff.mpr hin) (Nat.le_add_right _ _)
    · exact hnew record (Array.mem_of_getElem? hk)
    · exact (hs.unshared.held_once hr hin).1 (hgroup g hg).1

theorem Coherent.move (ho : Orderly n s m) :
    ∃ taken', Coherent n (System.move body s m) (ds ++ deeds s (System.move body s m) m) taken' := by
  have h := hs.settled.sound
  have h' : (System.move body s m).Sound := sound_move body h m
  cases m with
  | work worker => exact hc.step hs worker
  | call c =>
    refine ⟨taken, ?_⟩
    cases c with
    | spawn => exact hc.asked_spawn hs ho h'
    | newGroup | cloneGroup | dropGroup | giveGroup | takeGroup | add | count | schedule | addJob
    | isScheduled | place | counters | report | access => exact hc.asked_quiet hs ho.1 ho.2 h'
  | record => exact ho.elim
  | stop =>
    refine ⟨taken, hc.still h' ?_ rfl rfl rfl (fun _ => id) fun d hd => by cases hd⟩
    exact .of_same rfl (fun _ => id) fun _ => id
theorem Coherent.inherits_move (ho : Orderly n s m) {k : Nat} {record' : Job Task}
    (hk : (System.move body s m).hub.jobs[k]? = some record') :
    (∃ group p a, m = .call (.spawn record'.code group p a)) ∨ Inherited n s record'.code := by
  cases m with
  | work worker => exact .inr (hc.inherits hs worker hk)
  | record => exact ho.elim
  | stop => exact .inr (.kept hk)
  | call c =>
    have hquiet : c.Quiet → Inherited n s record'.code := fun hquiet => by
      have hsame : (ask c).Ends s fun _ t => t.hub.jobs = s.hub.jobs :=
        ask_of_perform (fun _ _ _ => id)
          ((perform_quiet hs.settled.sound.fit none s.kept hquiet).mono fun _ _ ht => ht.1)
      exact .kept (hsame ▸ hk)
    cases c with
    | spawn task group p a =>
      obtain ⟨-, ⟨-, hjobs⟩ | ⟨-, hjobs⟩⟩ : (ask (.spawn task group p a : Call Task Cells Empty)).Ends s _ :=
        hs.ask_spawn (fun g hg => (ho.2.2 g hg).1) fun g hg => (ho.2.2 g hg).2
      · exact .inr (.kept (hjobs ▸ hk))
      · obtain ⟨-, rfl⟩ | hk := getElem?_push_cases (hjobs ▸ hk)
        · exact .inl ⟨group, p, a, rfl⟩
        · exact .inr (.kept hk)
    | newGroup | cloneGroup | dropGroup | giveGroup | takeGroup | add | count | schedule | addJob
    | isScheduled | place | counters | report | access => exact .inr (hquiet ho.1)

end

/-! ## Runs -/

theorem Coherent.of_new (h : New s) (hmemory : s.memory = Array.replicate n none) : Coherent n s [] [] := by
  have hcells : cellsOf s = [] := by
    unfold cellsOf
    rw [h.hub.jobs, h.runs, gather_replicate promisedBy _ rfl]
    rfl
  have hsize : s.memory.size = n := by
    rw [hmemory, Array.size_replicate]
  constructor
  case room => exact Nat.le_of_eq hsize.symm
  case apart =>
    rw [hcells]
    exact List.nodup_nil
  case inside =>
    intro cell hcell
    rw [hcells] at hcell
    cases hcell
  case submitted =>
    rintro job task ⟨group, p, a, hd⟩
    cases hd
  case parent =>
    rintro job job' task task' ⟨group, p, a, hd⟩
    cases hd
  case untouched =>
    intro cell hcell
    cases hcell
  case fresh =>
    intro job hin
    have hin : job ∈ s.pending := mem_pending_of_unbegun hin
    rw [h.pending] at hin
    cases hin
  case runs =>
    intro fiber run hrun
    rw [h.run?] at hrun
    cases hrun
  case results =>
    intro cell r hr
    rw [hmemory, Array.getElem?_replicate] at hr
    split at hr <;> cases hr
  case done =>
    intro job group hd
    cases hd
  case failures =>
    intro job fault hd
    cases hd

/-- Throughout an orderly run the sorts are coherent, and no worker dies. -/
theorem Coherent.play {moves : List (System.Move Task Cells Empty)} (hs : Even s ps)
    (hc : Coherent n s ds taken) (halive : s.deaths = []) (ho : Along body (Orderly n) s moves) :
    (System.play body s moves).Sound ∧ (System.play body s moves).deaths = [] ∧
      ∃ taken', Coherent n (System.play body s moves) (ds ++ history body s moves) taken' := by
  have hplay : (∃ ps', Even (System.play body s moves) ps') ∧ (System.play body s moves).deaths = [] ∧
      ∃ taken', Coherent n (System.play body s moves) (ds ++ history body s moves) taken' := by
    refine play_induction (P := Orderly n)
      (I := fun s ds => (∃ ps, Even s ps) ∧ s.deaths = [] ∧ ∃ taken, Coherent n s ds taken) ?_ ho
      ⟨⟨ps, hs⟩, halive, taken, hc⟩
    rintro s ds m ho ⟨⟨ps, hs⟩, halive, taken, hc⟩
    exact ⟨⟨_, hs.step (hc.modest hs ho) (hc.roomy hs ho)⟩, (hs.deaths_move body m).trans halive,
      hc.move hs ho⟩
  obtain ⟨⟨ps', hs'⟩, halive', hcoherent⟩ := hplay
  exact ⟨hs'.settled.sound, halive', hcoherent⟩

/-- What holds of all lists from outside and passes on to halves holds of what any job sorts. -/
theorem Coherent.inherits_play {F : Task → Prop} {moves : List (System.Move Task Cells Empty)}
    (hs : Even s ps) (hc : Coherent n s ds taken) (ho : Along body (Orderly n) s moves)
    (hplanted : ∀ task group p a, .call (.spawn task group p a) ∈ moves → F task)
    (hhalf : ∀ (task : Task) (half : List Int32) (cell : Nat), F task → ¬task.values.length ≤ leafLength →
      half ∈ [leftHalf task.values, rightHalf task.values] → n ≤ cell → F ⟨half, cell⟩)
    (hall : ∀ (k : Nat) (record : Job Task), s.hub.jobs[k]? = some record → F record.code) :
    ∀ (k : Nat) (record : Job Task), (System.play body s moves).hub.jobs[k]? = some record →
      F record.code := by
  induction moves generalizing s ps ds taken with
  | nil => exact hall
  | cons m moves ih =>
    obtain ⟨taken', hc'⟩ := hc.move hs ho.now
    refine ih (hs.step (hc.modest hs ho.now) (hc.roomy hs ho.now)) hc' ho.next
      (fun task group p a hm => hplanted task group p a (List.mem_cons_of_mem _ hm)) fun k record' hk => ?_
    obtain ⟨group, p, a, rfl⟩ | hinherited := hc.inherits_move hs ho.now hk
    · exact hplanted _ group p a List.mem_cons_self
    · generalize record'.code = task at hinherited
      cases hinherited with
      | kept hk => exact hall _ _ hk
      | half hk hlong hhalves hcell => exact hhalf _ _ _ (hall _ _ hk) hlong hhalves hcell

/-- Halves of halves come to an end, since each is shorter. -/
theorem Coherent.wellFounded (hc : Coherent n s ds taken) : WellFounded fun k job =>
    ∃ record, s.hub.jobs[k]? = some record ∧ Submits ds job record.code := by
  refine Subrelation.wf ?_ (measure fun job => ((s.hub.jobs[job]?).map (·.code.values.length)).getD 0).wf
  rintro k job ⟨child, hk, hsub⟩
  obtain ⟨-, ⟨record, hrec, hlt⟩, -⟩ := hc.submitted job _ hsub
  show ((s.hub.jobs[k]?).map _).getD 0 < ((s.hub.jobs[job]?).map _).getD 0
  rw [hk, hrec]
  exact hlt

end

/-! ## Results -/

section
variable {σ : Type} {mode : Mode} {host : Host} {config : Config} {x : σ} {n : Nat} {s₀ s : Sys} {ds : Story}
  {moves : List (System.Move Task Cells Empty)}

/-- What a sort leaves in its cell is its values in order, or a refusal: it got no group, a half
was not accepted, or the sort of a half was refused or left nothing. Whatever it is, the sort has
left it only after all the halves it submitted had ended. Every half is shorter than what it is a
half of, so that there is an end to it. A sort that is submitted from outside leaves a result when
it ends, unless a request of it failed, for which the jobs have to reach the limit; and once all
workers have left, all sorts have ended. -/
theorem sorts_or_tells_why
    (hnew : ((System.new mode host config (Array.replicate n none) :
      Act Empty σ (Except Refusal Sys)) x).result = .ok (.ok s₀))
    (ho : Along body (Orderly n) s₀ moves) (hs : System.play body s₀ moves = s)
    (hds : history body s₀ moves = ds) :
    (∀ (job : Nat) (record : Job Task) (r : Sorted), s.hub.jobs[job]? = some record →
      s.memory[record.code.cell]? = some (some r) →
      Right s ds job record.code.values r ∧ Alone s ds job) ∧
    (∀ (job : Nat) (task : Task), Submits ds job task →
      ∃ record, s.hub.jobs[job]? = some record ∧ task.values.length < record.code.values.length) ∧
    (WellFounded fun k job => ∃ record, s.hub.jobs[k]? = some record ∧ Submits ds job record.code) ∧
    (∀ (job : Nat) (group : Option Nat), .accepted job group ∈ ds → ∃ record, s.hub.jobs[job]? = some record ∧
      (record.code.cell < n → job ∉ s.pending → (∃ r, s.memory[record.code.cell]? = some (some r)) ∨
        Failed ds job)) ∧
    (∀ job, Failed ds job → Hub.recordLimit ≤ s.hub.jobs.size + 1) ∧
    (s.isOver = true → s.aborted = false → s.pending = []) := by
  have h := new_of_ok hnew
  obtain ⟨hsound, halive, taken, hc⟩ :=
    (Coherent.of_new h (memory_of_ok hnew)).play h.even (h.gather_workers _ rfl) ho
  rw [List.nil_append, hds, hs] at hc
  rw [hs] at hsound halive
  refine ⟨fun job record r hrec hr => ?_, fun job task hsub => ?_, hc.wellFounded,
    fun job group haccepted => ?_, fun job hfailed => ?_,
    fun hover hrunning => (hsound.drained hover hrunning halive).2.2.1⟩
  · obtain ⟨k, record', hk, hcell, -, halone, hright⟩ := hc.results _ r hr
    obtain rfl := hc.unique hk hrec hcell
    obtain rfl := Option.some.inj (hk.symm.trans hrec)
    exact ⟨hright, halone⟩
  · exact (hc.submitted job task hsub).2.1
  · obtain ⟨record, hrec, hleaves⟩ := hc.done job group haccepted
    refine ⟨record, hrec, fun hcell hended => ?_⟩
    -- Only halves have their results taken, and their cells are not among these.
    obtain hr | hfailed | htaken := hleaves hended
    · exact .inl hr
    · exact .inr hfailed
    · exact absurd (hc.untouched _ htaken).1 (Nat.not_le.mpr hcell)
  · obtain ⟨fault, hd⟩ := hfailed
    exact hc.failures job fault hd

end

/-! ## Two sorts -/

def newDesk : Act Empty Unit (Except Refusal Sys) :=
  System.new .strict .standard smallConfig (Array.replicate 2 none)

def desk : Sys :=
  (built (newDesk ()).result).get (by decide +kernel)

theorem new_desk : (newDesk ()).result = .ok (.ok desk) :=
  eq_of_built _

def longList : List Int32 :=
  List.replicate (leafLength + 1) 7

def rounds (n : Nat) : List (System.Move Task Cells Empty) :=
  (List.range n).map fun i => .work (i % 2)

def twoLists : List (System.Move Task Cells Empty) :=
  .call .newGroup :: .call (.spawn ⟨longList, 1⟩ (some 0) .normal .any) :: .call
    (.spawn ⟨[5, 4], 0⟩ none .high .any) :: .stop :: rounds 60

theorem mem_rounds {k : Nat} {m : System.Move Task Cells Empty} (hm : m ∈ rounds k) :
    ∃ worker, m = .work worker := by
  obtain ⟨i, -, rfl⟩ := List.mem_map.mp hm
  exact ⟨_, rfl⟩

theorem orderly_twoLists : Along body (Orderly 2) desk twoLists := by
  refine .cons (by decide +kernel)
    (.cons (by decide +kernel) (.cons (by decide +kernel) (.cons trivial (.of_mem fun m hm _ => ?_))))
  obtain ⟨worker, rfl⟩ := mem_rounds hm
  exact trivial

/-- What is sorted into each cell: the two lists, and halves of the long one. -/
def Expected : Task → Prop
  | ⟨values, 0⟩ => values = [5, 4]
  | ⟨values, 1⟩ => values = longList
  | ⟨values, _⟩ => values.length ≤ leafLength

theorem expected_twoLists {before after : List (System.Move Task Cells Empty)}
    (he : twoLists = before ++ after) (k : Nat) (record : Job Task)
    (hk : (System.play body desk before).hub.jobs[k]? = some record) : Expected record.code := by
  have h := new_of_ok new_desk
  have hlength : longList.length = leafLength + 1 := List.length_replicate
  refine (Coherent.of_new h (memory_of_ok new_desk)).inherits_play h.even
    (he ▸ orderly_twoLists).left ?_ ?_ ?_ k record hk
  · intro task group p a hm
    have hm : .call (.spawn task group p a) ∈ twoLists := he ▸ List.mem_append_left after hm
    simp only [twoLists, List.mem_cons] at hm
    obtain hm | hm | hm | hm | hm := hm
    · cases hm
    · cases hm
      rfl
    · cases hm
      rfl
    · cases hm
    · obtain ⟨worker, hm⟩ := mem_rounds hm
      cases hm
  -- Only the long list is halved, and a single job sorts what comes of it.
  · rintro ⟨values, cell⟩ half (_ | _ | other) hexpected hlong hhalf hcell
    · omega
    · omega
    · have hshorter := half_shorter hlong hhalf
      match cell, hexpected with
      | 0, hexpected => exact absurd (show values.length ≤ leafLength from hexpected ▸ by decide) hlong
      | 1, hexpected =>
        rw [show values = longList from hexpected, hlength] at hshorter
        exact Nat.le_of_lt_succ hshorter
      | _ + 2, hexpected => exact absurd hexpected hlong
  · intro k record hk
    rw [h.hub.jobs] at hk
    cases hk

/-- What the bodies do here, told by the cell alone. -/
def byCell (task : Task) : Body Unit :=
  if task.cell = 1 then .call .newGroup (halve task) else store task
    (.ok (task.values.mergeSort fun a b => decide (a ≤ b)))

theorem byCell_eq {task : Task} (h : Expected task) : body task = byCell task := by
  have hlength : longList.length = leafLength + 1 := List.length_replicate
  match task, h with
  | ⟨_, 0⟩, rfl => exact body_of_short (by decide)
  | ⟨_, 1⟩, rfl => exact body_of_long (by dsimp only; omega)
  | ⟨_, _ + 2⟩, h => exact body_of_short h

theorem play_twoLists : System.play body desk twoLists = System.play byCell desk twoLists :=
  play_congr fun _ _ _ he job record hrec => byCell_eq (expected_twoLists he job record hrec)

/-- Both lists are sorted, each into its own cell. The long one is halved, and its sort waits
for the halves. -/
theorem two_lists_sorted : ∃ left right, let s := System.play body desk twoLists
    s.isOver = true ∧ s.hub.jobs.size = 4 ∧ s.hub.counters.suspensions = 1 ∧
    s.memory[1]? = some (some (.ok left)) ∧ s.memory[0]? = some (some (.ok right)) ∧
    Sorts left longList ∧ Sorts right [5, 4] := by
  obtain ⟨hright, -⟩ := sorts_or_tells_why new_desk orderly_twoLists rfl rfl
  have hexpected := expected_twoLists (List.append_nil twoLists).symm
  rw [play_twoLists] at hright hexpected ⊢
  have hsorted : ∀ job cell : Nat,
      ((System.play byCell desk twoLists).hub.jobs[job]?).map (·.code.cell) = some cell →
      (((System.play byCell desk twoLists).memory[cell]?).join).map (·.isOk) = some true →
      ∃ values sorted, Expected ⟨values, cell⟩ ∧
        (System.play byCell desk twoLists).memory[cell]? = some (some (.ok sorted)) ∧
        Sorts sorted values := by
    intro job cell hjob hok
    obtain ⟨record, hrec, rfl⟩ := Option.map_eq_some_iff.mp hjob
    obtain ⟨r, hr, hr'⟩ := Option.map_eq_some_iff.mp hok
    have hcell := Option.join_eq_some_iff.mp hr
    cases r with
    | error refusal => cases hr'
    | ok sorted =>
      exact ⟨record.code.values, sorted, hexpected job record hrec, hcell, (hright job record _ hrec hcell).1⟩
  obtain ⟨_, left, rfl, hleft, hl⟩ := hsorted 0 1 (by decide +kernel) (by decide +kernel)
  obtain ⟨_, right, rfl, hright', hr⟩ := hsorted 1 0 (by decide +kernel) (by decide +kernel)
  exact ⟨left, right, by decide +kernel, by decide +kernel, by decide +kernel, hleft, hright', hl, hr⟩

end FiberScheduler.Sorting
