import FiberScheduler.Proofs.Coherence

/-!
# Conduct of sorts

What the actions of a sort do to all sorts. It gets a group and a cell for each half, submits
the halves, waits for them, takes what they left, and leaves its own result.
-/

open FiberScheduler.System

namespace FiberScheduler.Sorting

section
variable {n : Nat} {s s' : Sys} {ds es : Story} {taken taken' : List Nat} {fiber : Nat}
  {run run' : Run Task Cells Empty} {record : Job Task}

/-! ## Runs that go on -/

theorem promised_nodup (p : Body Unit) : (promised p).Nodup := by
  unfold promised
  split <;> simp

structure Goes (s s' : Sys) (fiber : Nat) (run run' : Run Task Cells Empty) : Prop where
  before : s.Sound
  after : s'.Sound
  later : Later s s'
  here : s.run? fiber = some run
  job : run'.job = run.job
  busy : run.rest ≠ .done ()
  runs : s'.runs = s.runs.setIfInBounds fiber (some run')
  pending : ∀ job ∈ s.pending, job ∈ s'.pending

section
variable (hg : Goes s s' fiber run run')
include hg

theorem Goes.not_past : ¬Past s run.job :=
  fun hpast => hg.busy (hpast.2 fiber run hg.here rfl)

theorem Goes.not_unbegun : run.job ∉ s.unbegun :=
  hg.before.not_unbegun hg.here

theorem Goes.run?_of {k : Nat} {r : Run Task Cells Empty} (hr : s'.run? k = some r) :
    (k = fiber ∧ r = run') ∨ (s.run? k = some r ∧ r.job ≠ run.job) := by
  rw [run?_of_set (run?_eq_some_iff.mp hg.here) hg.runs] at hr
  by_cases hk : fiber = k
  · rw [if_pos hk] at hr
    exact .inl ⟨hk.symm, (Option.some.inj hr).symm⟩
  · rw [if_neg hk] at hr
    exact .inr ⟨hr, fun he => hk (hg.before.run_unique hg.here hr he).1.symm⟩

theorem Goes.runs_of_stage (hrec : s'.hub.jobs[run.job]? = some record)
    (hstage : Stage n s' ds taken run.job record.code run'.held run'.rest) :
      RunsOn n s s' ds taken (some run.job) := by
  intro k r hr
  obtain ⟨-, rfl⟩ | ⟨hr, hne⟩ := hg.run?_of hr
  · unfold Staged
    rw [hg.job]
    exact .inr ⟨hg.not_past, record, hrec, hstage⟩
  · exact .inl ⟨hr, fun he => hne (Option.some.inj he)⟩

theorem Goes.advance (hc : Coherent n s ds taken) (hes : Unsubmitting s' es)
    (hjobs : s'.hub.jobs = s.hub.jobs) (ho : Onward s ds taken s' (ds ++ es) taken')
    (hroom : s.memory.size ≤ s'.memory.size)
    (hpromised : ∀ cell ∈ promised run'.rest, s.memory.size ≤ cell ∧ cell < s'.memory.size)
    (htakes : TakesOwn ds taken taken' (some run.job)) (hresults : ResultsOn s s' (ds ++ es))
    (hrec : s.hub.jobs[run.job]? = some record)
    (hstage : Stage n s' (ds ++ es) taken' run.job record.code run'.held run'.rest) :
    Coherent n s' (ds ++ es) taken' := by
  have hcount :
      ∀ cell, (cellsOf s').count cell ≤ (cellsOf s).count cell + (promised run'.rest).count cell := by
    intro cell
    have hcount := count_cellsOf [] (by rw [hjobs, List.append_nil])
      (run?_eq_some_iff.mp hg.here) hg.runs cell
    change _ = _ + _ + (promised run'.rest).count cell at hcount
    rw [List.count_nil] at hcount
    omega
  have ha : Advance n s ds taken s' (ds ++ es) taken' (some run.job) := by
    refine .of_unsubmitting hes (congrArg Array.size hjobs) ho hroom ?_ ?_ htakes
      (hg.runs_of_stage (by rwa [hjobs]) hstage) hresults fun job record hin hno =>
        absurd (hg.pending job hin) hno
    · refine List.nodup_iff_count.mpr fun cell => Nat.le_trans (hcount cell) ?_
      by_cases hin : cell ∈ promised run'.rest
      · have hno : cell ∉ cellsOf s := fun hold => Nat.not_lt.mpr (hpromised cell hin).1 (hc.inside cell hold)
        rw [List.count_eq_zero.mpr hno, Nat.zero_add]
        exact List.nodup_iff_count.mp (promised_nodup run'.rest) cell
      · rw [List.count_eq_zero.mpr hin]
        exact List.nodup_iff_count.mp hc.apart cell
    · intro cell hcell
      by_cases hin : cell ∈ promised run'.rest
      · exact (hpromised cell hin).2
      · have hle := hcount cell
        rw [List.count_eq_zero.mpr hin] at hle
        have hold : cell ∈ cellsOf s :=
          List.count_pos_iff.mp (Nat.lt_of_lt_of_le (List.count_pos_iff.mpr hcell) hle)
        exact Nat.lt_of_lt_of_le (hc.inside cell hold) hroom
  exact hc.advance hg.after ha

end

theorem Spared.of_same {job : Nat} {held : List Nat} (hes : Unsubmitting s' es)
    (hjobs : s'.hub.jobs = s.hub.jobs) :
    Spared s ds taken s' (ds ++ es) taken job held where
  silent := fun task => hes.submits
  untaken := fun task _ => id
  unjoined := by
    intro g _ k record' _ hrec _
    rw [hjobs] at hrec
    exact ⟨record', hrec⟩

section
variable (hc : Coherent n s ds taken) (hg : Goes s s' fiber run run') (hes : Unsubmitting s' es)
  (hjobs : s'.hub.jobs = s.hub.jobs) (hrec : s.hub.jobs[run.job]? = some record)
include hc hg hes hjobs hrec

theorem Coherent.went (hmemory : s'.memory = s.memory) (hpromised : promised run'.rest = [])
    (hstage : Stage n s' (ds ++ es) taken run.job record.code run'.held run'.rest) :
      Coherent n s' (ds ++ es) taken := by
  refine hg.advance hc hes hjobs (.of_memory hg.later hmemory) ?_ ?_
    (fun cell hcell => .inl hcell) ?_ hrec hstage
  · exact Nat.le_of_eq (by rw [hmemory])
  · intro cell hcell
    rw [hpromised] at hcell
    cases hcell
  · intro cell r hr
    rw [hmemory] at hr
    exact .inl hr

theorem Coherent.extended (hmemory : s'.memory = s.memory.push none)
    (hpromised : promised run'.rest = [s.memory.size])
    (hstage : Stage n s ds taken run.job record.code run'.held run'.rest) :
    Coherent n s' (ds ++ es) taken := by
  have ho : Onward s ds taken s' (ds ++ es) taken := by
    refine ⟨hg.later, fun d hd => List.mem_append_left _ hd, fun _ => id, fun cell r hr => .inl ⟨r, ?_⟩⟩
    rw [hmemory]
    exact Hub.getElem?_push_lt hr
  refine hg.advance hc hes hjobs ho ?_ ?_ (fun cell hcell => .inl hcell) ?_ hrec
    (hstage.onward ho (.of_same hes hjobs))
  · rw [hmemory, Array.size_push]
    exact Nat.le_succ _
  · intro cell hcell
    rw [hpromised] at hcell
    obtain rfl := List.mem_singleton.mp hcell
    rw [hmemory, Array.size_push]
    exact ⟨Nat.le_refl _, Nat.lt_succ_self _⟩
  · intro cell r hr
    rw [hmemory, Array.getElem?_push] at hr
    split at hr
    · cases hr
    · exact .inl hr

theorem Coherent.took {half : List Int32} {cell : Nat}
    (hmemory : s'.memory = s.memory.setIfInBounds cell none) (hsub : Submits ds run.job ⟨half, cell⟩)
    (hpromised : promised run'.rest = []) (hstage : Onward s ds taken s' (ds ++ es) (cell :: taken) →
      Stage n s' (ds ++ es) (cell :: taken) run.job record.code run'.held run'.rest) : Coherent n s'
        (ds ++ es) (cell :: taken) := by
  have ho : Onward s ds taken s' (ds ++ es) (cell :: taken) := by
    refine ⟨hg.later, fun d hd => List.mem_append_left _ hd, fun _ => List.mem_cons_of_mem _,
      fun k r hr => ?_⟩
    by_cases hcell : cell = k
    · exact .inr (hcell ▸ List.mem_cons_self)
    · refine .inl ⟨r, ?_⟩
      rwa [hmemory, Array.getElem?_setIfInBounds_ne hcell]
  refine hg.advance hc hes hjobs ho ?_ ?_ ?_ ?_ hrec (hstage ho)
  · exact Nat.le_of_eq (by rw [hmemory, Array.size_setIfInBounds])
  · intro k hk
    rw [hpromised] at hk
    cases hk
  · intro k hk
    obtain rfl | hk := List.mem_cons.mp hk
    · exact .inr ⟨run.job, ⟨half, k⟩, rfl, hsub, rfl⟩
    · exact .inl hk
  · intro k r hr
    by_cases hcell : cell = k
    · rw [hmemory, hcell, Array.getElem?_setIfInBounds] at hr
      split at hr
      · split at hr <;> cases hr
      · exact .inl hr
    · rw [hmemory, Array.getElem?_setIfInBounds_ne hcell] at hr
      exact .inl hr

theorem Coherent.stored {r : Sorted} (hmemory : s'.memory = s.memory.setIfInBounds record.code.cell (some r))
    (hdone : run'.rest = .done ()) (halone : Alone s ds run.job)
    (hr : Right s ds run.job record.code.values r) :
    Coherent n s' (ds ++ es) taken := by
  have hlt : record.code.cell < s.memory.size := hc.inside _ (mem_cellsOf hrec)
  have hget :
      ∀ cell, s'.memory[cell]? = if record.code.cell = cell then some (some r) else s.memory[cell]? := by
    intro cell
    rw [hmemory]
    exact getElem?_set _ (Array.getElem?_eq_getElem hlt) cell
  have ho : Onward s ds taken s' (ds ++ es) taken := by
    refine ⟨hg.later, fun d hd => List.mem_append_left _ hd, fun _ => id, fun cell old hold => .inl ?_⟩
    rw [hget]
    split
    · exact ⟨r, rfl⟩
    · exact ⟨old, hold⟩
  have hpast : Past s' run.job := by
    refine ⟨fun hin => ?_, fun k q hq hjob => ?_⟩
    · obtain ⟨_, -, -, -, hunbegun⟩ := hg.later.kept _ _ hrec
      exact hg.not_unbegun (hunbegun hin).1
    · obtain ⟨-, rfl⟩ | ⟨-, hne⟩ := hg.run?_of hq
      · exact hdone
      · exact absurd hjob hne
  refine hg.advance hc hes hjobs ho ?_ ?_ (fun cell hcell => .inl hcell) ?_ hrec ?_
  · exact Nat.le_of_eq (by rw [hmemory, Array.size_setIfInBounds])
  · intro cell hcell
    rw [hdone] at hcell
    cases hcell
  · intro cell old hold
    rw [hget] at hold
    by_cases hcell : record.code.cell = cell
    · rw [if_pos hcell] at hold
      cases hold
      refine .inr ⟨run.job, record, ?_, hcell, hpast, halone.onward ho fun task => hes.submits, hr.onward ho⟩
      rwa [hjobs]
    · rw [if_neg hcell] at hold
      exact .inl hold
  · rw [hdone]
    refine .done (.inl ⟨r, ?_⟩)
    rw [hget, if_pos rfl]

end

/-! ## New jobs -/

theorem getElem?_push_cases {jobs : Array (Job Task)} {new : Job Task} {k : Nat}
    (hk : (jobs.push new)[k]? = some record) : (k = jobs.size ∧ record = new) ∨ jobs[k]? = some record := by
  rw [Array.getElem?_push] at hk
  split at hk
  · rename_i he
    exact .inl ⟨he, (Option.some.inj hk).symm⟩
  · exact .inr hk

theorem Advance.of_push (actor : Option Nat) {new : Job Task} (hjobs : s'.hub.jobs = s.hub.jobs.push new)
    (hmemory : s'.memory = s.memory) (hlater : Later s s') (hin : s.hub.jobs.size ∈ s'.pending)
    (hpending : ∀ job ∈ s.pending, job ∈ s'.pending)
    (hes : ∀ d ∈ es, (∀ job group, d = .accepted job group → job = s.hub.jobs.size) ∧
    ∀ job fault, d ≠ .acted job (.failed fault))
    (hapart : (cellsOf s').Nodup) (hinside : ∀ cell ∈ cellsOf s', cell < s'.memory.size)
    (hsubmits : ∀ (job : Nat) (task : Task), Submits (ds ++ es) job task →
      Submits ds job task ∨ (some job = actor ∧ Begets n s s' (ds ++ es) job task))
    (hruns : RunsOn n s s' (ds ++ es) taken actor)
    (hgroup : ∀ (fiber : Nat) (run : Run Task Cells Empty), s.run? fiber = some run → some run.job ≠ actor →
      ∀ g ∈ run.held, new.completion ≠ some g) : Advance n s ds taken s' (ds ++ es) taken actor where
  onward := .of_memory hlater hmemory
  room := Nat.le_of_eq (by rw [hmemory])
  apart := hapart
  inside := hinside
  submits := hsubmits
  takes := fun cell hcell => .inl hcell
  runs := hruns
  unjoined := by
    intro fiber run hrun hne g hg k record hk hrec hcompletion
    rw [hjobs] at hrec
    obtain ⟨-, rfl⟩ | hrec := getElem?_push_cases hrec
    · exact absurd hcompletion (hgroup fiber run hrun hne g hg)
    · exact ⟨record, hrec⟩
  results := by
    intro cell r hr
    rw [hmemory] at hr
    exact .inl hr
  accepts := by
    intro job group hd
    obtain hd | hd := List.mem_append.mp hd
    · exact .inl hd
    · exact .inr ((hes _ hd).1 job group rfl ▸ hin)
  ends := fun job record hin hno => absurd (hpending job hin) hno
  fails := by
    intro job fault hd
    obtain hd | hd := List.mem_append.mp hd
    · exact .inl hd
    · exact absurd rfl ((hes _ hd).2 job fault)

def handover (fresh job : Nat) (task : Task) (g : Nat) (p : Priority) (a : Affinity) : Story :=
  [.accepted fresh (some g), .acted job (.call (.spawn task (some g) p a) (.ok ()))]

theorem submits_handover {fresh job j g : Nat} {task t : Task} {p : Priority} {a : Affinity}
    (h : Submits (ds ++ handover fresh job task g p a) j t) : Submits ds j t ∨ (j = job ∧ t = task) := by
  obtain ⟨group, p, a, hd⟩ := h
  obtain hd | hd := List.mem_append.mp hd
  · exact .inl ⟨group, p, a, hd⟩
  · obtain hd | hd := List.mem_cons.mp hd
    · cases hd
    · cases List.mem_singleton.mp hd
      exact .inr ⟨rfl, rfl⟩

theorem handover_submits (ds : Story) (fresh job : Nat) (task : Task) (g : Nat) (p : Priority)
    (a : Affinity) :
    Submits (ds ++ handover fresh job task g p a) job task :=
  ⟨some g, p, a, List.mem_append_right _ (List.mem_cons_of_mem _ (List.mem_singleton_self _))⟩

theorem Coherent.le_promised (hc : Coherent n s ds taken) (hrun : s.run? fiber = some run) {cell : Nat}
    (hcell : cell ∈ promised run.rest) :
    n ≤ cell := by
  obtain ⟨record, -, hstage⟩ := hc.runs fiber run hrun
  generalize run.held = held at hstage
  generalize run.rest = rest at hstage hcell
  cases hstage with
  | handLeft _ hn | handRight _ hn =>
    cases List.mem_singleton.mp hcell
    exact hn
  | halves | openLeft | openRight | join | takeLeft | takeRight | finish | store | done | panic => cases hcell

theorem Coherent.joined (hc : Coherent n s ds taken) (hg : Goes s s' fiber run run')
    (hrec : s.hub.jobs[run.job]? = some record) {task : Task} {g : Nat} {p : Priority} {a : Affinity}
    (hrest : promised run.rest = [task.cell]) (hpromised : promised run'.rest = [])
    (hjobs : s'.hub.jobs = s.hub.jobs.push ⟨task, false, true, false, true, some g⟩)
    (hmemory : s'.memory = s.memory) (hin : s.hub.jobs.size ∈ s'.pending)
    (hshorter : task.values.length < record.code.values.length)
    (hgroup : ∀ (k : Nat) (r : Run Task Cells Empty), s.run? k = some r → r.job ≠ run.job → g ∉ r.held)
    (hstage : Stage n s' (ds ++ handover s.hub.jobs.size run.job task g p a) taken run.job record.code
      run'.held run'.rest) :
    Coherent n s' (ds ++ handover s.hub.jobs.size run.job task g p a) taken := by
  have hcell : task.cell ∈ promised run.rest := hrest ▸ List.mem_singleton_self _
  have hcount : ∀ cell, (cellsOf s').count cell = (cellsOf s).count cell := by
    intro cell
    have hcount := count_cellsOf [task.cell] (by rw [hjobs, Array.toList_push, List.map_append]; rfl)
      (run?_eq_some_iff.mp hg.here) hg.runs cell
    change _ + (promised run.rest).count cell = _ + _ + (promised run'.rest).count cell at hcount
    rw [hrest, hpromised, List.count_nil] at hcount
    omega
  refine hc.advance hg.after (.of_push (some run.job) hjobs hmemory hg.later hin hg.pending ?_ ?_ ?_ ?_ ?_ ?_)
  · intro d hd
    obtain rfl | hd := List.mem_cons.mp hd
    · simp
    · cases List.mem_singleton.mp hd
      simp
  · exact List.nodup_iff_count.mpr fun cell => hcount cell ▸ List.nodup_iff_count.mp hc.apart cell
  · intro cell hin
    rw [hmemory]
    exact hc.inside cell (List.count_pos_iff.mp (hcount cell ▸ List.count_pos_iff.mpr hin))
  · intro job t hsub
    obtain hsub | ⟨rfl, rfl⟩ := submits_handover hsub
    · exact .inl hsub
    · refine .inr ⟨rfl, hg.not_unbegun, hg.not_past, hc.le_promised hg.here hcell,
        fun k record => hc.promised_ne hg.here hcell,
        ⟨record, hrec, hshorter⟩, s.hub.jobs.size, ⟨t, false, true, false, true, some g⟩, some g, ?_, rfl,
        List.mem_append_right _ List.mem_cons_self⟩
      rw [hjobs, Array.getElem?_push_size]
  · refine hg.runs_of_stage ?_ hstage
    rw [hjobs]
    exact Hub.getElem?_push_lt hrec
  · intro k r hr hne j hj he
    cases he
    exact hgroup k r hr (fun he => hne (congrArg some he)) hj

theorem Coherent.planted (hc : Coherent n s ds taken) (h' : s'.Sound) (hlater : Later s s') {task : Task}
    {group : Option Nat} (hjobs : s'.hub.jobs = s.hub.jobs.push ⟨task, false, true, false, true, group⟩)
    (hmemory : s'.memory = s.memory) (hruns : s'.runs = s.runs) (hin : s.hub.jobs.size ∈ s'.pending)
    (hpending : ∀ job ∈ s.pending, job ∈ s'.pending) (hcell : task.cell < n)
    (hnew : ∀ (k : Nat) (record : Job Task), s.hub.jobs[k]? = some record → record.code.cell ≠ task.cell)
    (hgroup : ∀ g ∈ group, ∀ (k : Nat) (r : Run Task Cells Empty), s.run? k = some r → g ∉ r.held) :
    Coherent n s' (ds ++ [.accepted s.hub.jobs.size group]) taken := by
  have hcells : (cellsOf s').Perm (task.cell :: cellsOf s) := by
    unfold cellsOf
    rw [hjobs, hruns, Array.toList_push, List.map_append, List.append_assoc]
    exact List.perm_middle
  have hno : task.cell ∉ cellsOf s := by
    intro hold
    obtain hold | hold := List.mem_append.mp hold
    · obtain ⟨record, hrec, he⟩ := List.mem_map.mp hold
      obtain ⟨k, hk⟩ := List.mem_iff_getElem?.mp hrec
      rw [Array.getElem?_toList] at hk
      exact hnew k record hk he
    · obtain ⟨fiber, o, ho, hpromised⟩ := mem_gather.mp hold
      cases o with
      | none => cases hpromised
      | some run => exact Nat.not_lt.mpr (hc.le_promised (run?_eq_some_iff.mpr ho) hpromised) hcell
  refine hc.advance h' (.of_push none hjobs hmemory hlater hin hpending ?_ ?_ ?_ ?_ ?_ ?_)
  · intro d hd
    cases List.mem_singleton.mp hd
    simp
  · exact hcells.nodup_iff.mpr (List.nodup_cons.mpr ⟨hno, hc.apart⟩)
  · intro cell hold
    rw [hmemory]
    obtain rfl | hold := List.mem_cons.mp (hcells.mem_iff.mp hold)
    · exact Nat.lt_of_lt_of_le hcell hc.room
    · exact hc.inside cell hold
  · rintro job t ⟨k, p, a, hd⟩
    obtain hd | hd := List.mem_append.mp hd
    · exact .inl ⟨k, p, a, hd⟩
    · cases List.mem_singleton.mp hd
  · intro fiber run hrun
    rw [run?, hruns] at hrun
    exact .inl ⟨hrun, by simp⟩
  · rintro fiber run hrun - g hg he
    exact hgroup g he fiber run hrun hg

end

end FiberScheduler.Sorting
