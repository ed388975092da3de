import FiberScheduler.Proofs.Stages

/-!
# Coherence of sorts

What holds of all sorts at every moment of a run: each has a cell of its own, a result in a
cell is right, and what is missing was taken or never left.
-/

open FiberScheduler.System

namespace FiberScheduler.Sorting

/-! ## Cells in use -/

/-- The cell of the job that a body submits next. -/
def promised : Body Unit → List Nat
  | .call (.spawn task ..) _ => [task.cell]
  | _ => []

def promisedBy (run : Option (Run Task Cells Empty)) : List Nat :=
  (run.map fun run => promised run.rest).getD []

def cellsOf (s : Sys) : List Nat :=
  s.hub.jobs.toList.map (·.code.cell) ++ gather promisedBy s.runs

/-- A job that has nothing left to do, whether its run has ended or not. -/
def Past (s : Sys) (job : Nat) : Prop :=
  job ∉ s.unbegun ∧ ∀ (fiber : Nat) (run : Run Task Cells Empty), s.run? fiber = some run → run.job = job →
    run.rest = .done ()

def Result (s : Sys) (ds : Story) (cell : Nat) (r : Sorted) : Prop :=
  ∃ (job : Nat) (record : Job Task), s.hub.jobs[job]? = some record ∧ record.code.cell = cell ∧ Past s job ∧
    Alone s ds job ∧
    Right s ds job record.code.values r

def Staged (n : Nat) (s : Sys) (ds : Story) (taken : List Nat) (run : Run Task Cells Empty) : Prop :=
  ∃ record, s.hub.jobs[run.job]? = some record ∧ Stage n s ds taken run.job record.code run.held run.rest

structure Coherent (n : Nat) (s : Sys) (ds : Story) (taken : List Nat) : Prop where
  room : n ≤ s.memory.size
  apart : (cellsOf s).Nodup
  inside : ∀ cell ∈ cellsOf s, cell < s.memory.size
  submitted : ∀ (job : Nat) (task : Task), Submits ds job task → n ≤ task.cell ∧
    (∃ record, s.hub.jobs[job]? = some record ∧ task.values.length < record.code.values.length) ∧
    ∃ (k : Nat) (record : Job Task) (group : Option Nat), s.hub.jobs[k]? = some record ∧ record.code = task ∧
      .accepted k group ∈ ds
  parent : ∀ (job job' : Nat) (task task' : Task), Submits ds job task → Submits ds job' task' →
    task.cell = task'.cell → job = job'
  untouched : ∀ cell ∈ taken, n ≤ cell ∧ ∃ (k : Nat) (record : Job Task), s.hub.jobs[k]? = some record ∧
    record.code.cell = cell
  fresh : ∀ job ∈ s.unbegun, (∀ record, s.hub.jobs[job]? = some record → record.started = false) ∧
    ∀ task, ¬Submits ds job task
  runs : ∀ (fiber : Nat) (run : Run Task Cells Empty), s.run? fiber = some run → Staged n s ds taken run
  results : ∀ (cell : Nat) (r : Sorted), s.memory[cell]? = some (some r) → Result s ds cell r
  done : ∀ (job : Nat) (group : Option Nat), .accepted job group ∈ ds →
    ∃ record, s.hub.jobs[job]? = some record ∧
    (job ∉ s.pending → Leaves s ds taken job record.code)
  failures : ∀ (job : Nat) (fault : Fault), .acted job (.failed fault) ∈ ds →
    Hub.recordLimit ≤ s.hub.jobs.size + 1

section
variable {n : Nat} {s s' : Sys} {ds ds' : Story} {taken taken' : List Nat} {actor : Option Nat}

theorem Coherent.unique (hc : Coherent n s ds taken) {j k : Nat} {record record' : Job Task}
    (hj : s.hub.jobs[j]? = some record) (hk : s.hub.jobs[k]? = some record')
    (hcell : record.code.cell = record'.code.cell) : j = k := by
  have hnodup := (List.nodup_append.mp hc.apart).1
  have hlt : j < (s.hub.jobs.toList.map
      (·.code.cell)).length := by simpa using (Array.getElem?_eq_some_iff.mp hj).1
  refine (List.getElem?_inj hlt hnodup).mp ?_
  simp [hj, hk, hcell]

theorem Coherent.promised_ne (hc : Coherent n s ds taken) {fiber k : Nat} {run : Run Task Cells Empty}
    {record : Job Task} {cell : Nat} (hrun : s.run? fiber = some run) (hcell : cell ∈ promised run.rest)
    (hk : s.hub.jobs[k]? = some record) : record.code.cell ≠ cell := by
  refine (List.nodup_append.mp hc.apart).2.2 _ ?_ _
    (mem_gather.mpr ⟨fiber, some run, run?_eq_some_iff.mp hrun, hcell⟩)
  exact List.mem_map.mpr ⟨record, Array.mem_toList_iff.mpr (Array.mem_of_getElem? hk), rfl⟩

theorem Coherent.submitted_ne (hc : Coherent n s ds taken) {fiber job : Nat} {run : Run Task Cells Empty}
    {task : Task} {cell : Nat} (hrun : s.run? fiber = some run) (hcell : cell ∈ promised run.rest)
    (hsub : Submits ds job task) : task.cell ≠ cell := by
  obtain ⟨-, -, k, child, group, hk, rfl, -⟩ := hc.submitted job task hsub
  exact hc.promised_ne hrun hcell hk

theorem mem_cellsOf {k : Nat} {record : Job Task} (hk : s.hub.jobs[k]? = some record) :
    record.code.cell ∈ cellsOf s :=
  List.mem_append_left _ (List.mem_map.mpr ⟨record, Array.mem_toList_iff.mpr (Array.mem_of_getElem? hk), rfl⟩)

structure Begets (n : Nat) (s s' : Sys) (ds' : Story) (job : Nat) (task : Task) : Prop where
  begun : job ∉ s.unbegun
  busy : ¬Past s job
  own : n ≤ task.cell
  new : ∀ (k : Nat) (record : Job Task), s.hub.jobs[k]? = some record → record.code.cell ≠ task.cell
  shorter : ∃ record, s.hub.jobs[job]? = some record ∧ task.values.length < record.code.values.length
  child : ∃ (k : Nat) (record : Job Task) (group : Option Nat), s'.hub.jobs[k]? = some record ∧
    record.code = task ∧ .accepted k group ∈ ds'

def TakesOwn (ds : Story) (taken taken' : List Nat) (actor : Option Nat) : Prop :=
  ∀ cell ∈ taken', cell ∈ taken ∨ ∃ (job : Nat) (task : Task), some job = actor ∧ Submits ds job task ∧
    task.cell = cell

def RunsOn (n : Nat) (s s' : Sys) (ds' : Story) (taken' : List Nat) (actor : Option Nat) : Prop :=
  ∀ (fiber : Nat) (run : Run Task Cells Empty), s'.run? fiber = some run →
    (s.run? fiber = some run ∧ some run.job ≠ actor) ∨ (¬Past s run.job ∧ Staged n s' ds' taken' run)

def ResultsOn (s s' : Sys) (ds' : Story) : Prop :=
  ∀ (cell : Nat) (r : Sorted), s'.memory[cell]? = some (some r) → s.memory[cell]? = some (some r) ∨
    Result s' ds' cell r

def EndsWell (s : Sys) (ds : Story) (taken : List Nat) (s' : Sys) : Prop :=
  ∀ (job : Nat) (record : Job Task), job ∈ s.pending → job ∉ s'.pending → s.hub.jobs[job]? = some record →
    Leaves s ds taken job record.code

structure Advance (n : Nat) (s : Sys) (ds : Story) (taken : List Nat) (s' : Sys) (ds' : Story)
    (taken' : List Nat) (actor : Option Nat) :
    Prop where
  onward : Onward s ds taken s' ds' taken'
  room : s.memory.size ≤ s'.memory.size
  apart : (cellsOf s').Nodup
  inside : ∀ cell ∈ cellsOf s', cell < s'.memory.size
  submits : ∀ (job : Nat) (task : Task), Submits ds' job task → Submits ds job task ∨
    (some job = actor ∧ Begets n s s' ds' job task)
  takes : TakesOwn ds taken taken' actor
  runs : RunsOn n s s' ds' taken' actor
  unjoined : ∀ (fiber : Nat) (run : Run Task Cells Empty), s.run? fiber = some run → some run.job ≠ actor →
    ∀ g ∈ run.held,
    ∀ (k : Nat) (record' : Job Task), k ∈ s'.pending → s'.hub.jobs[k]? = some record' →
      record'.completion = some g →
    ∃ record, s.hub.jobs[k]? = some record
  results : ResultsOn s s' ds'
  accepts : ∀ (job : Nat) (group : Option Nat), .accepted job group ∈ ds' → .accepted job group ∈ ds ∨
    job ∈ s'.pending
  ends : EndsWell s ds taken s'
  fails : ∀ (job : Nat) (fault : Fault), .acted job (.failed fault) ∈ ds' → .acted job (.failed fault) ∈ ds ∨
    Hub.recordLimit ≤ s'.hub.jobs.size + 1

theorem Coherent.advance (hc : Coherent n s ds taken) (h' : s'.Sound)
    (ha : Advance n s ds taken s' ds' taken' actor) :
    Coherent n s' ds' taken' := by
  have ho := ha.onward
  have hsilent : ∀ job, some job ≠ actor → ∀ task, Submits ds' job task → Submits ds job task :=
    fun job hne task h =>
    (ha.submits job task h).resolve_right fun hnew => hne hnew.1
  constructor
  case room => exact Nat.le_trans hc.room ha.room
  case apart => exact ha.apart
  case inside => exact ha.inside
  case submitted =>
    intro job task h
    obtain h | ⟨-, hbegets⟩ := ha.submits job task h
    · obtain ⟨hn, ⟨record, hrec, hlt⟩, k, child, group, hk, hcode, haccepted⟩ := hc.submitted job task h
      obtain ⟨record', hrec', hsame, -⟩ := ho.later.kept job record hrec
      obtain ⟨child', hk', hsame', -⟩ := ho.later.kept k child hk
      exact ⟨hn, ⟨record', hrec', hsame ▸ hlt⟩, k, child', group, hk', hsame'.trans hcode,
        ho.told _ haccepted⟩
    · obtain ⟨record, hrec, hlt⟩ := hbegets.shorter
      obtain ⟨record', hrec', hsame, -⟩ := ho.later.kept job record hrec
      exact ⟨hbegets.own, ⟨record', hrec', hsame ▸ hlt⟩, hbegets.child⟩
  case parent =>
    intro job job' task task' h h' hcell
    have hnew : ∀ (job job' : Nat) (task task' : Task), Submits ds job task → Begets n s s' ds' job' task' →
        task.cell ≠ task'.cell := by
      intro job job' task task' h hbegets
      obtain ⟨-, -, k, child, group, hk, rfl, -⟩ := hc.submitted job task h
      exact hbegets.new k child hk
    obtain h | ⟨hactor, hbegets⟩ := ha.submits job task h
    · obtain h' | ⟨-, hbegets'⟩ := ha.submits job' task' h'
      · exact hc.parent job job' task task' h h' hcell
      · exact absurd hcell (hnew job job' task task' h hbegets')
    · obtain h' | ⟨hactor', -⟩ := ha.submits job' task' h'
      · exact absurd hcell.symm (hnew job' job task' task h' hbegets)
      · exact Option.some.inj (hactor.trans hactor'.symm)
  case untouched =>
    intro cell hcell
    have htask : n ≤ cell ∧ ∃ (k : Nat) (record : Job Task), s.hub.jobs[k]? = some record ∧
        record.code.cell = cell := by
      obtain hcell | ⟨job, task, -, hsub, rfl⟩ := ha.takes cell hcell
      · exact hc.untouched cell hcell
      · obtain ⟨hn, -, k, child, group, hk, rfl, -⟩ := hc.submitted job task hsub
        exact ⟨hn, k, child, hk, rfl⟩
    obtain ⟨hn, k, record, hk, rfl⟩ := htask
    obtain ⟨record', hk', hsame, -⟩ := ho.later.kept k record hk
    exact ⟨hn, k, record', hk', by rw [hsame]⟩
  case fresh =>
    intro job hin
    refine ⟨fun record' hrec' => ?_, fun task hsub => ?_⟩
    · cases hrec : s.hub.jobs[job]? with
      | none => exact ho.later.fresh job record' hrec' hrec
      | some record =>
        obtain ⟨record₁, hrec₁, -, -, hunbegun⟩ := ho.later.kept job record hrec
        obtain rfl := Option.some.inj (hrec'.symm.trans hrec₁)
        obtain ⟨hin, hsame⟩ := hunbegun hin
        rw [hsame]
        exact (hc.fresh job hin).1 record hrec
    · obtain hsub | ⟨-, hbegets⟩ := ha.submits job task hsub
      · obtain ⟨-, ⟨record, hrec, -⟩, -⟩ := hc.submitted job task hsub
        obtain ⟨_, -, -, -, hunbegun⟩ := ho.later.kept job record hrec
        exact (hc.fresh job (hunbegun hin).1).2 task hsub
      · obtain ⟨record, hrec, -⟩ := hbegets.shorter
        obtain ⟨_, -, -, -, hunbegun⟩ := ho.later.kept job record hrec
        exact hbegets.begun (hunbegun hin).1
  case runs =>
    intro fiber run hrun
    obtain ⟨hrun, hne⟩ | ⟨-, hstage⟩ := ha.runs fiber run hrun
    · obtain ⟨record, hrec, hstage⟩ := hc.runs fiber run hrun
      obtain ⟨record', hrec', hcode, -⟩ := ho.later.kept run.job record hrec
      rw [← hcode] at hstage
      refine ⟨record', hrec', hstage.onward ho ⟨hsilent run.job hne, fun task hsub huntaken htaken => ?_, ?_⟩⟩
      · -- Nobody takes what the halves of another job have left.
        obtain htaken | ⟨job, task', hactor, hsub', hcell⟩ := ha.takes task.cell htaken
        · exact huntaken htaken
        · exact hne ((congrArg some (hc.parent run.job job task task' hsub hsub' hcell.symm)).trans hactor)
      · exact ha.unjoined fiber run hrun hne
    · exact hstage
  case results =>
    intro cell r hr
    obtain hr | hnew := ha.results cell r hr
    · obtain ⟨job, record, hrec, hcell, hpast, halone, hright⟩ := hc.results cell r hr
      obtain ⟨record', hrec', hcode, -, hunbegun⟩ := ho.later.kept job record hrec
      rw [← hcode] at hcell hright
      refine ⟨job, record', hrec', hcell, ⟨fun hin => hpast.1 (hunbegun hin).1, ?_⟩, ?_, hright.onward ho⟩
      · rintro fiber run hrun rfl
        obtain ⟨hrun, -⟩ | ⟨hno, -⟩ := ha.runs fiber run hrun
        · exact hpast.2 fiber run hrun rfl
        · exact absurd hpast hno
      · refine halone.onward ho fun task hsub => (ha.submits job task hsub).resolve_right fun hnew => ?_
        exact hnew.2.busy hpast
    · exact hnew
  case done =>
    intro job group haccepted
    obtain haccepted | hin := ha.accepts job group haccepted
    · obtain ⟨record, hrec, hleaves⟩ := hc.done job group haccepted
      obtain ⟨record', hrec', hcode, -⟩ := ho.later.kept job record hrec
      refine ⟨record', hrec', fun hno => ?_⟩
      rw [hcode]
      by_cases hin : job ∈ s.pending
      · exact (ha.ends job record hin hno hrec).onward ho
      · exact (hleaves hin).onward ho
    · obtain ⟨record, hrec, -⟩ := h'.record hin
      exact ⟨record, hrec, fun hno => absurd hin hno⟩
  case failures =>
    intro job fault hfailed
    obtain hfailed | hlimit := ha.fails job fault hfailed
    · exact Nat.le_trans (hc.failures job fault hfailed) (Nat.succ_le_succ ho.later.size)
    · exact hlimit

end

/-! ## Moves without submissions -/

def Unsubmitting (s' : Sys) (es : Story) : Prop :=
  ∀ d ∈ es, (∀ job task group p a, d ≠ .acted job (.call (.spawn task group p a) (.ok ()))) ∧
    (∀ job group, d ≠ .accepted job group) ∧
    ∀ job fault, d = .acted job (.failed fault) → Hub.recordLimit ≤ s'.hub.jobs.size + 1

theorem Unsubmitting.submits {s' : Sys} {ds es : Story} (hes : Unsubmitting s' es) {job : Nat} {task : Task}
    (h : Submits (ds ++ es) job task) :
    Submits ds job task := by
  obtain ⟨group, p, a, hd⟩ := h
  obtain hd | hd := List.mem_append.mp hd
  · exact ⟨group, p, a, hd⟩
  · exact absurd rfl ((hes _ hd).1 job task group p a)

section
variable {n : Nat} {s s' : Sys} {ds es : Story} {taken taken' : List Nat} {actor : Option Nat} {fiber : Nat}
  {run run' : Run Task Cells Empty} {before after : Option (Run Task Cells Empty)}

theorem Advance.of_unsubmitting (hes : Unsubmitting s' es) (hsize : s'.hub.jobs.size = s.hub.jobs.size)
    (ho : Onward s ds taken s' (ds ++ es) taken') (hroom : s.memory.size ≤ s'.memory.size)
    (hapart : (cellsOf s').Nodup) (hinside : ∀ cell ∈ cellsOf s', cell < s'.memory.size)
    (htakes : TakesOwn ds taken taken' actor) (hruns : RunsOn n s s' (ds ++ es) taken' actor)
    (hresults : ResultsOn s s' (ds ++ es)) (hends : EndsWell s ds taken s') :
      Advance n s ds taken s' (ds ++ es) taken' actor where
  onward := ho
  room := hroom
  apart := hapart
  inside := hinside
  submits := fun job task hsub => .inl (hes.submits hsub)
  takes := htakes
  runs := hruns
  unjoined := by
    intro _ _ _ _ _ _ k record' _ hrec' _
    have hlt := (Array.getElem?_eq_some_iff.mp hrec').1
    rw [hsize] at hlt
    exact ⟨_, Array.getElem?_eq_getElem hlt⟩
  results := hresults
  accepts := by
    intro job group hd
    obtain hd | hd := List.mem_append.mp hd
    · exact .inl hd
    · exact absurd rfl ((hes _ hd).2.1 job group)
  ends := hends
  fails := by
    intro job fault hd
    obtain hd | hd := List.mem_append.mp hd
    · exact .inl hd
    · exact .inr ((hes _ hd).2.2 job fault rfl)

theorem Onward.of_memory (hlater : Later s s') (hmemory : s'.memory = s.memory) :
    Onward s ds taken s' (ds ++ es) taken where
  later := hlater
  told := fun d hd => List.mem_append_left _ hd
  taken := fun _ => id
  remains := by
    intro cell r hr
    rw [← hmemory] at hr
    exact .inl ⟨r, hr⟩

theorem Advance.of_memory (hc : Coherent n s ds taken) (hes : Unsubmitting s' es) (hlater : Later s s')
    (hsize : s'.hub.jobs.size = s.hub.jobs.size) (hmemory : s'.memory = s.memory)
    (hcells : ∀ cell, (cellsOf s').count cell ≤ (cellsOf s).count cell)
    (hruns : RunsOn n s s' (ds ++ es) taken actor) (hends : EndsWell s ds taken s') :
      Advance n s ds taken s' (ds ++ es) taken actor := by
  refine .of_unsubmitting hes hsize (.of_memory hlater hmemory) ?_ ?_ ?_
    (fun cell hcell => .inl hcell) hruns ?_ hends
  · exact Nat.le_of_eq (by rw [hmemory])
  · exact List.nodup_iff_count.mpr fun cell =>
      Nat.le_trans (hcells cell) (List.nodup_iff_count.mp hc.apart cell)
  · intro cell hcell
    rw [hmemory]
    exact hc.inside cell (List.count_pos_iff.mp
      (Nat.lt_of_lt_of_le (List.count_pos_iff.mpr hcell) (hcells cell)))
  · intro cell r hr
    rw [hmemory] at hr
    exact .inl hr

theorem count_cellsOf (joined : List Nat)
    (hjobs : s'.hub.jobs.toList.map (·.code.cell) = s.hub.jobs.toList.map (·.code.cell) ++ joined)
    (hbefore : s.runs[fiber]? = some before) (hruns : s'.runs = s.runs.setIfInBounds fiber after)
    (cell : Nat) : (cellsOf s').count cell + (promisedBy before).count cell =
      (cellsOf s).count cell + joined.count cell + (promisedBy after).count cell := by
  have hcount := count_gather_set promisedBy after hbefore cell
  rw [← hruns] at hcount
  unfold cellsOf
  rw [hjobs, List.count_append, List.count_append, List.count_append]
  omega

theorem count_cellsOf_le (hjobs : s'.hub.jobs.toList.map (·.code.cell) = s.hub.jobs.toList.map (·.code.cell))
    (hbefore : s.runs[fiber]? = some before) (hruns : s'.runs = s.runs.setIfInBounds fiber after)
    (hpromised : promisedBy after = []) (cell : Nat) : (cellsOf s').count cell ≤ (cellsOf s).count cell := by
  have hcount := count_cellsOf [] (by rw [hjobs, List.append_nil]) hbefore hruns cell
  rw [hpromised, List.count_nil] at hcount
  omega

theorem map_cell_set {jobs : Array (Job Task)} {job : Nat} {old new : Job Task} (hrec : jobs[job]? = some old)
    (hcode : new.code = old.code) :
    (jobs.setIfInBounds job new).toList.map (·.code.cell) = jobs.toList.map (·.code.cell) := by
  refine List.ext_getElem? fun k => ?_
  rw [List.getElem?_map, List.getElem?_map, Array.getElem?_toList, Array.getElem?_toList,
    getElem?_set new hrec k]
  by_cases hk : job = k
  · rw [if_pos hk, ← hk, hrec, Option.map_some, Option.map_some, hcode]
  · rw [if_neg hk]

theorem promised_body (t : Task) : promised (body t) = [] := by
  by_cases hshort : t.values.length ≤ leafLength
  · rw [body_of_short hshort]
    rfl
  · rw [body_of_long hshort]
    rfl

theorem run?_of_set (hbefore : s.runs[fiber]? = some before)
    (hruns : s'.runs = s.runs.setIfInBounds fiber after) (k : Nat) :
    s'.run? k = if fiber = k then after else s.run? k := by
  rw [← run?_putRun (Array.getElem?_eq_some_iff.mp hbefore).1 after k, run?, hruns]
  rfl

section
variable (hc : Coherent n s ds taken) (h' : s'.Sound) (hlater : Later s s')
include hc h' hlater

theorem Coherent.still (hjobs : s'.hub.jobs = s.hub.jobs) (hmemory : s'.memory = s.memory)
    (hruns : s'.runs = s.runs) (hpending : ∀ job ∈ s.pending, job ∈ s'.pending) (hes : Unsubmitting s' es) :
      Coherent n s' (ds ++ es) taken := by
  have ha : Advance n s ds taken s' (ds ++ es) taken none := by
    refine .of_memory hc hes hlater (congrArg Array.size hjobs) hmemory ?_
      (fun fiber run hrun => .inl ⟨?_, by simp⟩) ?_
    · intro cell
      exact Nat.le_of_eq (by rw [cellsOf, cellsOf, hjobs, hruns])
    · rwa [run?, hruns] at hrun
    · exact fun job record hin hno => absurd (hpending job hin) hno
  exact hc.advance h' ha

theorem Coherent.began {job : Nat} {record : Job Task} (hrec : s.hub.jobs[job]? = some record)
    (hnone : s.runs[fiber]? = some none)
    (hjobs : s'.hub.jobs = s.hub.jobs.setIfInBounds job { record with started := true })
    (hmemory : s'.memory = s.memory)
    (hruns : s'.runs = s.runs.setIfInBounds fiber (some ⟨job, [], bodyOf body record⟩))
    (hunbegun : UnbegunBy s s' [.began job]) :
    Coherent n s' (ds ++ [.began job]) taken := by
  have hin : job ∈ s.unbegun := by
    have hbegan : s'.unbegun.count job + [job].count job = s.unbegun.count job + 0 := hunbegun job
    rw [List.count_singleton_self] at hbegan
    exact List.count_pos_iff.mp (by omega)
  obtain ⟨hfresh, hnever⟩ := hc.fresh job hin
  have hbody : bodyOf body record = body record.code := by
    rw [bodyOf, Job.spent, hfresh record hrec, Bool.and_false]
    rfl
  have hes : Unsubmitting s' [.began job] := fun d hd => by
    cases List.mem_singleton.mp hd
    simp
  have hp := perm_of_counts (pending_began hnone hruns hunbegun)
  have ha : Advance n s ds taken s' (ds ++ [.began job]) taken none := by
    refine .of_memory hc hes hlater (by rw [hjobs, Array.size_setIfInBounds]) hmemory
      (count_cellsOf_le ?_ hnone hruns ?_) ?_ ?_
    · rw [hjobs]
      exact map_cell_set hrec rfl
    · show promised (bodyOf body record) = []
      rw [hbody, promised_body]
    · intro k r hr
      rw [run?_of_set hnone hruns] at hr
      by_cases hk : fiber = k
      · rw [if_pos hk] at hr
        obtain rfl := Option.some.inj hr
        refine .inr ⟨fun hpast => hpast.1 hin, { record with started := true }, ?_, ?_⟩
        · rw [hjobs, getElem?_set _ hrec, if_pos rfl]
        · dsimp only
          rw [hbody]
          exact .begun fun task hsub => hnever task (hes.submits hsub)
      · rw [if_neg hk] at hr
        exact .inl ⟨hr, by simp⟩
    · exact fun k old hpending hno => absurd (hp.mem_iff.mpr hpending) hno
  exact hc.advance h' ha

theorem Coherent.ended {group : Option Nat} {record : Job Task} (hrun : s.run? fiber = some run)
    (hover : run.rest.Over) (hrec : s.hub.jobs[run.job]? = some record)
    (hjobs : s'.hub.jobs = s.hub.jobs.setIfInBounds run.job (Hub.closed record))
    (hmemory : s'.memory = s.memory) (hruns : s'.runs = s.runs.setIfInBounds fiber none)
    (hunbegun : ∀ job, s'.unbegun.count job = s.unbegun.count job) :
    Coherent n s' (ds ++ [.ended run.job group]) taken := by
  have hes : Unsubmitting s' [.ended run.job group] := fun d hd => by
    cases List.mem_singleton.mp hd
    simp
  have hp := pending_putRun_none hrun hunbegun hruns
  have ha : Advance n s ds taken s' (ds ++ [.ended run.job group]) taken none := by
    refine .of_memory hc hes hlater (by rw [hjobs, Array.size_setIfInBounds]) hmemory
      (count_cellsOf_le ?_ (run?_eq_some_iff.mp hrun) hruns rfl) ?_ ?_
    · rw [hjobs]
      exact map_cell_set hrec rfl
    · intro k r hr
      rw [run?_of_set (run?_eq_some_iff.mp hrun) hruns] at hr
      by_cases hk : fiber = k
      · rw [if_pos hk] at hr
        cases hr
      · rw [if_neg hk] at hr
        exact .inl ⟨hr, by simp⟩
    · intro k old hin hno hold
      obtain rfl : k = run.job := (List.mem_cons.mp (hp.mem_iff.mp hin)).resolve_right hno
      obtain ⟨record', hrec', hstage⟩ := hc.runs fiber run hrun
      obtain rfl := Option.some.inj (hrec'.symm.trans hold)
      -- A body that is over has left its result, or it has failed.
      generalize run.held = held at hstage
      cases hover' : run.rest with
      | done =>
        rw [hover'] at hstage
        cases hstage with
        | done hleaves => exact hleaves
      | panic fault =>
        rw [hover'] at hstage
        cases hstage with
        | panic _ hfailed => exact .inr (.inl hfailed)
      | wait | call =>
        rw [hover'] at hover
        cases hover
  exact hc.advance h' ha

end

end

end FiberScheduler.Sorting
