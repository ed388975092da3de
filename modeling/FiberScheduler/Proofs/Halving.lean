import FiberScheduler.Proofs.Conduct

/-!
# Halving

A sort that halves its values waits until both halves have ended, and finds their results, or
learns why there is none. So every step of a worker leaves all sorts coherent.
-/

open FiberScheduler.System

namespace FiberScheduler.Sorting

section
variable {n : Nat} {s s' t : Sys} {ds ds' es : Story} {taken taken' : List Nat} {ps : List Posting}
  {worker fiber job g : Nat} {w : Worker} {run : Run Task Cells Empty} {record : Job Task} {task : Task}

/-! ## Halves -/

/-- What a sort finds in the cell of a half that has ended is right. -/
theorem Coherent.right_found (hc : Coherent n s ds taken) {half : List Int32} {cell : Nat}
    (halone : Alone s ds job) (hhalf : Handed s ds taken job half (.ok cell)) :
      Right s ds job half (found s.memory cell) := by
  obtain ⟨hsub, huntaken⟩ := hhalf
  obtain ⟨k, child, hk, hcode, hended⟩ := halone _ hsub
  cases hcell : (s.memory[cell]?).join with
  | some r =>
    obtain ⟨k', child', hk', hsame, -, -, hright⟩ := hc.results cell r (Option.join_eq_some_iff.mp hcell)
    obtain rfl := hc.unique hk' hk (by rw [hsame, hcode])
    obtain rfl := Option.some.inj (hk'.symm.trans hk)
    rw [hcode] at hright
    unfold found
    rw [hcell]
    cases r with
    | error refusal => exact .half (hcode ▸ hsub) hk hright
    | ok sorted => exact hright
  | none =>
    obtain ⟨-, -, k', child', group, hk', hcode', haccepted⟩ := hc.submitted job _ hsub
    obtain rfl := hc.unique hk' hk (by rw [hcode', hcode])
    obtain ⟨child'', hk'', hleaves⟩ := hc.done k' group haccepted
    obtain rfl := Option.some.inj (hk''.symm.trans hk)
    unfold found
    rw [hcell]
    obtain ⟨r, hr⟩ | hfailed | htaken := hleaves hended
    · rw [hcode] at hr
      rw [hr] at hcell
      cases hcell
    · exact .lost (hcode ▸ hsub) hk hfailed
    · rw [hcode] at htaken
      exact absurd htaken huntaken

theorem Wards.joined (ho : Onward s ds taken s' ds' taken')
    (hjobs : s'.hub.jobs = s.hub.jobs.push ⟨task, false, true, false, true, some g⟩)
    (hsubs : ∀ t, Submits ds' job t → Submits ds job t ∨ t = task) (hnew : Submits ds' job task)
    (hw : Wards s ds job g) :
    Wards s' ds' job g where
  tracked := by
    intro t hsub
    obtain hsub | rfl := hsubs t hsub
    · obtain ⟨k, record, hrec, rfl, htracked⟩ := hw.tracked t hsub
      obtain ⟨record', hrec', hcode, hpending, -⟩ := ho.later.kept k record hrec
      refine ⟨k, record', hrec', hcode, fun hin => ?_⟩
      rw [(hpending hin).2]
      exact htracked (hpending hin).1
    · refine ⟨s.hub.jobs.size, ⟨t, false, true, false, true, some g⟩, ?_, rfl, fun _ => rfl⟩
      rw [hjobs, Array.getElem?_push_size]
  only := by
    intro k record' hin hrec' hcompletion
    have hrec := hrec'
    rw [hjobs] at hrec
    obtain ⟨-, rfl⟩ | hrec := getElem?_push_cases hrec
    · exact hnew
    · obtain ⟨record₁, hrec₁, -, hpending, -⟩ := ho.later.kept k record' hrec
      obtain rfl := Option.some.inj (hrec₁.symm.trans hrec')
      exact (hw.only k record₁ (hpending hin).1 hrec hcompletion).onward ho

/-- A group that tracks the halves of a sort has room for one more, if those have one cell. -/
theorem Wards.roomy (hs : Even s ps) (hc : Coherent n s ds taken) (hw : Wards s ds job g)
    (hsame : ∀ t t', Submits ds job t → Submits ds job t' → t.cell = t'.cell) : s.hub.Roomy g 1 := by
  have hward : ∀ k ∈ s.pending, s.hub.tracks g k = true → ∃ record, s.hub.jobs[k]? = some record ∧
      Submits ds job record.code := by
    intro k hin htracked
    obtain ⟨record, hrec, hcompletion⟩ := (Option.any_eq_true ..).mp htracked
    exact ⟨record, hrec, hw.only k record hin hrec (beq_iff_eq.mp hcompletion)⟩
  refine hs.roomy fun j hj k hk htracked htracked' => ?_
  obtain ⟨record, hrec, hsub⟩ := hward j hj htracked
  obtain ⟨record', hrec', hsub'⟩ := hward k hk htracked'
  exact hc.unique hrec hrec' (hsame _ _ hsub hsub')

/-! ## Calls -/

theorem call?_eq_some {p : Body Unit} {c : Call Task Cells Empty} (hc : c ∈ p.call?) :
    ∃ next, p = .call c next := by
  cases p with
  | call c' next =>
    cases hc
    exact ⟨next, rfl⟩
  | done | panic | wait => cases hc

theorem Coherent.next_call (hs : Even s ps) (hc : Coherent n s ds taken) (hrun : s.run? fiber = some run) :
    ∀ c ∈ run.rest.call?, c.Modest ∧ c.Roomy s.hub := by
  intro c hcall
  obtain ⟨next, hrest⟩ := call?_eq_some hcall
  obtain ⟨record, hrec, hstage⟩ := hc.runs fiber run hrun
  have hspawn : ∀ {task : Task} {g : Nat}, s.hub.Roomy g 1 →
      (Call.spawn task (some g) .normal .any : Call Task Cells Empty).Roomy s.hub := by
    rintro task g hroom q hq
    obtain ⟨-, he⟩ := Option.ite_none_right_eq_some.mp hq
    cases he
    exact hroom
  generalize run.held = held at hstage
  rw [hrest] at hstage
  cases hstage with
  | handLeft hlong hn hw hnone =>
    exact ⟨trivial, hspawn (hw.roomy hs hc fun t t' hsub => absurd hsub (hnone t))⟩
  | handRight hlong hn hw hleft honly =>
    refine ⟨trivial, hspawn (hw.roomy hs hc fun t t' hsub hsub' => ?_)⟩
    exact Except.ok.inj ((honly t hsub).symm.trans (honly t' hsub'))
  | halves | openLeft | openRight | takeLeft | takeRight | finish | store =>
    exact ⟨trivial, fun q hq => by cases hq⟩

structure Calls (s : Sys) (worker : Nat) (w : Worker) (fiber : Nat) (run : Run Task Cells Empty)
    (c : Call Task Cells Empty) (next : c.Answer → Body Unit) (r : Except Fault c.Answer) (t : Sys) :
      Prop where
  on : OnRun s worker w fiber run
  rest : run.rest = .call c next
  ends : (perform (some worker) run.held c).Ends s fun r' t' => r' = r ∧ t' = t
  after : (t.putRun fiber (some (run.after c next r))).Sound
  later : Later s (t.putRun fiber (some (run.after c next r)))

section
variable {c : Call Task Cells Empty} {next : c.Answer → Body Unit} {r : Except Fault c.Answer}

abbrev Calls.state (_ : Calls s worker w fiber run c next r t) : Sys :=
  t.putRun fiber (some (run.after c next r))

abbrev Calls.deeds (_ : Calls s worker w fiber run c next r t) : Story :=
  acceptances (c.accepted s.hub.jobs.size r) ++ [.acted run.job (.ofCall c r)]

theorem Calls.goes (h : s.Sound) (hcall : Calls s worker w fiber run c next r t) :
    Goes s hcall.state fiber run (run.after c next r) where
  before := h
  after := hcall.after
  later := hcall.later
  here := hcall.on.run
  job := run.after_job c next r
  busy := by
    rw [hcall.rest]
    exact fun he => by cases he
  runs := by
    have hcalled := (perform_called h.fit (some worker) run.held c).pin hcall.ends
    show t.runs.setIfInBounds fiber _ = _
    rw [hcalled.rest]
  pending := by
    intro j hin
    have hcalled := (perform_called h.fit (some worker) run.held c).pin hcall.ends
    rw [← List.count_pos_iff, hcalled.pending_putRun hcall.on.run (run.after_job c next r)]
    exact Nat.lt_of_lt_of_le (List.count_pos_iff.mpr hin) (Nat.le_add_right _ _)

theorem unsubmitting_acted {answer : c.Answer} (hc : ∀ task group p a, c ≠ .spawn task group p a) :
    Unsubmitting s' [.acted job (.call c answer)] := by
  intro d hd
  obtain rfl := List.mem_singleton.mp hd
  refine ⟨fun j task group p a he => ?_, fun j group he => ?_, fun j fault he => ?_⟩
  · injection he with _ he
    injection he with he
    exact hc task group p a he
  · cases he
  · cases he

end

section
variable (hs : Even s ps) (hc : Coherent n s ds taken) (hrec : s.hub.jobs[run.job]? = some record)
include hs hc hrec

theorem Coherent.calls_newGroup {r : Except Fault (Except Refusal Nat)}
    (hcall : Calls s worker w fiber run .newGroup (halve record.code) r t) (hheld : run.held = [])
    (hlong : ¬record.code.values.length ≤ leafLength) (hnone : ∀ task, ¬Submits ds run.job task) :
    Coherent n hcall.state (ds ++ hcall.deeds) taken := by
  have h := hs.settled.sound
  have hg := hcall.goes h
  obtain ⟨answer, rfl⟩ := (perform_newGroup _ _).pin hcall.ends
  obtain ⟨hjobs, -⟩ := (perform_quiet h.fit (some worker) run.held (c := .newGroup) trivial).pin hcall.ends
  have hmemory := (perform_memory _ _ id).pin hcall.ends
  have hdead := (perform_newGroup_dead h _ _).pin hcall.ends
  have hes : Unsubmitting hcall.state hcall.deeds := unsubmitting_acted (by simp)
  cases answer with
  | error refusal =>
    refine hc.went hg hes hjobs hrec hmemory rfl ?_
    show Stage n _ _ taken run.job record.code run.held (store record.code (.error refusal))
    rw [hheld]
    refine .store (fun task hsub => absurd (hes.submits hsub) (hnone task)) (.noGroup ?_)
    exact List.mem_append_right _ (List.mem_singleton_self _)
  | ok g =>
    refine hc.went hg hes hjobs hrec hmemory rfl ?_
    show Stage n _ _ taken run.job record.code (g :: run.held) (openLeft record.code g)
    rw [hheld]
    -- The block of the new group was nobody's, so that no job is tracked yet.
    have hwards : Wards s ds run.job g := by
      refine ⟨fun task hsub => absurd hsub (hnone task), fun k record _ hk hcompletion => ?_⟩
      have htracked := tracks_of_record hk hcompletion
      rw [hs.settled.ledger.books.tracks_eq_false (hdead g rfl) k] at htracked
      cases htracked
    exact (Stage.openLeft hlong hwards hnone).onward (.of_memory hg.later hmemory) (.of_same hes hjobs)

theorem Coherent.calls_dropGroup {sorted : Sorted} {r : Except Fault Unit}
    (hcall : Calls s worker w fiber run (.dropGroup g) (fun _ => store record.code sorted) r t)
    (hheld : run.held = [g]) (hstage : Stage n s ds taken run.job record.code [] (store record.code sorted)) :
    Coherent n hcall.state (ds ++ hcall.deeds) taken := by
  have h := hs.settled.sound
  have hg := hcall.goes h
  have hin : g ∈ run.held := hheld ▸ List.mem_cons_self
  obtain rfl := (perform_dropGroup hs.settled.ledger _ hin
    (mem_handles_of_run hcall.on.run hin)).pin hcall.ends
  obtain ⟨hjobs, -⟩ := (perform_quiet h.fit (some worker) run.held (c := .dropGroup g) trivial).pin hcall.ends
  have hmemory := (perform_memory _ _ id).pin hcall.ends
  have hes : Unsubmitting hcall.state hcall.deeds := unsubmitting_acted (by simp)
  refine hc.went hg hes hjobs hrec hmemory rfl ?_
  show Stage n _ _ taken run.job record.code (run.held.erase g) (store record.code sorted)
  rw [hheld, List.erase_cons_head]
  exact hstage.onward (.of_memory hg.later hmemory) (.of_same hes hjobs)

theorem Coherent.calls_push {next : Cells → Body Unit} {r : Except Fault Cells}
    (hcall : Calls s worker w fiber run (.access fun cells => cells.push none) next r t)
    (hpromised : promised (next s.memory) = [s.memory.size])
    (hstage : Stage n s ds taken run.job record.code run.held (next s.memory)) :
    Coherent n hcall.state (ds ++ hcall.deeds) taken := by
  have hg := hcall.goes hs.settled.sound
  obtain ⟨rfl, rfl⟩ := (perform_access _ _ _).pin hcall.ends
  exact hc.extended hg (unsubmitting_acted (by simp)) rfl hrec rfl hpromised hstage

theorem Coherent.calls_take {half : List Int32} {cell : Nat} {next : Cells → Body Unit}
    {r : Except Fault Cells} (hcall : Calls s worker w fiber run
      (.access fun cells => cells.setIfInBounds cell none) next r t)
    (hsub : Submits ds run.job ⟨half, cell⟩) (hpromised : promised (next s.memory) = [])
    (hstage : ∀ s' es, Unsubmitting s' es → Onward s ds taken s' (ds ++ es) (cell :: taken) →
      Stage n s' (ds ++ es) (cell :: taken) run.job record.code run.held (next s.memory)) :
    Coherent n hcall.state (ds ++ hcall.deeds) (cell :: taken) := by
  have hg := hcall.goes hs.settled.sound
  obtain ⟨rfl, rfl⟩ := (perform_access _ _ _).pin hcall.ends
  have hes : Unsubmitting hcall.state hcall.deeds := unsubmitting_acted (by simp)
  exact hc.took hg hes rfl hrec rfl hsub hpromised (hstage _ _ hes)

theorem Coherent.calls_store {sorted : Sorted} {r : Except Fault Cells}
    (hcall : Calls s worker w fiber run
      (.access fun cells => cells.setIfInBounds record.code.cell (some sorted)) (fun _ => .done ()) r t)
    (halone : Alone s ds run.job) (hr : Right s ds run.job record.code.values sorted) :
    Coherent n hcall.state (ds ++ hcall.deeds) taken := by
  have hg := hcall.goes hs.settled.sound
  obtain ⟨rfl, rfl⟩ := (perform_access _ _ _).pin hcall.ends
  exact hc.stored hg (unsubmitting_acted (by simp)) rfl hrec rfl rfl halone hr

end

/-! ## Offers -/

theorem Coherent.spawned (hs : Even s ps) (hc : Coherent n s ds taken)
    {next : Except Refusal Unit → Body Unit} {r : Except Fault (Except Refusal Unit)}
    (hcall : Calls s worker w fiber run (.spawn task (some g) .normal .any) next r t) (hheld : g ∈ run.held) :
      match s.hub.freshFailure? .any with
      | some why => r = why ∧ t = s
      | none => r = .ok (.ok ()) ∧ t.hub.jobs = s.hub.jobs.push ⟨task, false, true, false, true, some g⟩ ∧
          t.hub.counters = s.hub.counters.bump .submitted := by
  obtain ⟨h, hl, hlatched, -⟩ := hs.settled
  refine (perform_spawned h hl hs.fewHandles hlatched (some worker) (fun k hk => Option.some.inj hk ▸ hheld)
    (fun k => mem_handles_of_run hcall.on.run) ?_).pin hcall.ends
  rintro hlimit k he
  cases he
  have hnext : (Call.spawn task (some g) .normal .any : Call Task Cells Empty) ∈ run.rest.call? := by
    rw [hcall.rest]
    rfl
  exact (hc.next_call hs hcall.on.run _ hnext).2 (g, 1) (if_pos hlimit)

structure Offers (n : Nat) (s : Sys) (ds : Story) (taken : List Nat) (run : Run Task Cells Empty)
    (record : Job Task) (task : Task) (g : Nat) (next : Except Refusal Unit → Body Unit) : Prop where
  held : run.held = [g]
  wards : Wards s ds run.job g
  shorter : task.values.length < record.code.values.length
  unpromised : ∀ answer, promised (next answer) = []
  goesOn : ∀ answer s' es, Onward s ds taken s' (ds ++ es) taken → Wards s' (ds ++ es) run.job g →
    Handed s' (ds ++ es) taken run.job task.values (handed task.cell answer) →
    (∀ t, Submits (ds ++ es) run.job t → Submits ds run.job t ∨ handed task.cell answer = .ok t.cell) →
    Stage n s' (ds ++ es) taken run.job record.code [g] (next answer)

section
variable {next : Except Refusal Unit → Body Unit} (hoffers : Offers n s ds taken run record task g next)
  (hs : Even s ps) (hc : Coherent n s ds taken) (hrec : s.hub.jobs[run.job]? = some record)
include hoffers hs hc hrec

theorem Offers.accepted (hcall : Calls s worker w fiber run (.spawn task (some g) .normal .any) next
    (.ok (.ok ())) t) (hjobs : t.hub.jobs = s.hub.jobs.push ⟨task, false, true, false, true, some g⟩) :
      Coherent n hcall.state (ds ++ hcall.deeds) taken := by
  have h := hs.settled.sound
  have hg := hcall.goes h
  have hrun := hcall.on.run
  have hin : g ∈ run.held := hoffers.held ▸ List.mem_cons_self
  have hcell : task.cell ∈ promised run.rest := by
    rw [hcall.rest]
    exact List.mem_singleton_self _
  have hcalled := (perform_called h.fit (some worker) run.held _).pin hcall.ends
  have hmemory := (perform_memory _ _ id).pin hcall.ends
  have ho : Onward s ds taken hcall.state (ds ++ hcall.deeds) taken := .of_memory hg.later hmemory
  have hnew : Submits (ds ++ hcall.deeds) run.job task := handover_submits ds _ _ _ _ _ _
  refine hc.joined hg hrec (by rw [hcall.rest]; rfl)
    (hoffers.unpromised _) hjobs hmemory ?_ hoffers.shorter ?_ ?_
  · have hcount := hcalled.pending_putRun hrun hg.job s.hub.jobs.size
    change _ = _ + [s.hub.jobs.size].count s.hub.jobs.size at hcount
    rw [List.count_singleton_self] at hcount
    exact List.count_pos_iff.mp (hcount ▸ Nat.succ_pos _)
  · intro k r hr hne hgr
    obtain rfl := (hs.unshared.held_once hrun hin).2 k r hr hgr
    exact hne (congrArg Run.job (Option.some.inj (hr.symm.trans hrun)))
  · show Stage n _ _ taken run.job record.code run.held (next (.ok ()))
    rw [hoffers.held]
    refine hoffers.goesOn (.ok ()) _ _ ho (hoffers.wards.joined ho hjobs (fun t hsub => ?_) hnew)
      ⟨hnew, fun htaken => ?_⟩ fun t hsub => ?_
    · exact (submits_handover hsub).imp_right And.right
    · obtain ⟨-, k, child, hk, hsame⟩ := hc.untouched task.cell htaken
      exact hc.promised_ne hrun hcell hk hsame
    · obtain hsub | ⟨-, rfl⟩ := submits_handover hsub
      · exact .inl hsub
      · exact .inr rfl

theorem Offers.refused {refusal : Refusal}
    (hcall : Calls s worker w fiber run (.spawn task (some g) .normal .any) next (.ok (.error refusal)) s) :
    Coherent n hcall.state (ds ++ hcall.deeds) taken := by
  have hg := hcall.goes hs.settled.sound
  have hes : Unsubmitting hcall.state hcall.deeds := by
    intro d hd
    obtain rfl := List.mem_singleton.mp hd
    simp [Action.ofCall]
  have ho : Onward s ds taken hcall.state (ds ++ hcall.deeds) taken := .of_memory hg.later rfl
  refine hc.went hg hes rfl hrec rfl (hoffers.unpromised _) ?_
  show Stage n _ _ taken run.job record.code run.held (next (.error refusal))
  rw [hoffers.held]
  refine hoffers.goesOn (.error refusal) _ _ ho
    (hoffers.wards.onward ho (.of_same hes rfl) (List.mem_singleton_self g)) ?_ fun t hsub =>
    .inl (hes.submits hsub)
  exact .notAccepted (List.mem_append_right _ (List.mem_singleton_self _))

theorem Offers.calls {r : Except Fault (Except Refusal Unit)}
    (hcall : Calls s worker w fiber run (.spawn task (some g) .normal .any) next r t) :
    Coherent n hcall.state (ds ++ hcall.deeds) taken := by
  have h := hs.settled.sound
  have hspawned := hc.spawned hs hcall (hoffers.held ▸ List.mem_cons_self)
  unfold Hub.freshFailure? at hspawned
  by_cases hlimit : s.hub.jobs.size + 1 < Hub.recordLimit
  · rw [if_pos hlimit] at hspawned
    cases hno : s.hub.refusal? false .any with
    | none =>
      rw [hno] at hspawned
      obtain ⟨rfl, hjobs, -⟩ := hspawned
      exact hoffers.accepted hs hc hrec hcall hjobs
    | some refusal =>
      rw [hno] at hspawned
      obtain ⟨rfl, rfl⟩ := hspawned
      exact hoffers.refused hs hc hrec hcall
  · rw [if_neg hlimit] at hspawned
    obtain ⟨rfl, rfl⟩ := hspawned
    have hes : Unsubmitting hcall.state hcall.deeds := by
      intro d hd
      obtain rfl := List.mem_singleton.mp hd
      refine ⟨fun j task group p a he => ?_, fun j group he => ?_, fun _ _ _ => Nat.le_of_not_lt hlimit⟩
      · injection he with _ he
        cases he
      · cases he
    exact hc.went (hcall.goes h) hes rfl hrec rfl rfl
      (.panic _ ⟨_, List.mem_append_right _ (List.mem_singleton_self _)⟩)

end

/-! ## Steps -/

theorem promised_afterLeft (t : Task) (g : Nat) (left : Sorted) (rightCell : Except Refusal Nat) :
    promised (afterLeft t g left rightCell) = [] := by
  rcases left with refusal | left
  · rfl
  · cases rightCell <;> rfl

theorem promised_collect (t : Task) (g : Nat) (leftCell rightCell : Except Refusal Nat) :
    promised (collect t g leftCell rightCell) = [] := by
  cases leftCell <;> rfl

section
variable (hs : Even s ps) (hc : Coherent n s ds taken)
include hs hc

theorem Coherent.called {c : Call Task Cells Empty} {next : c.Answer → Body Unit} {r : Except Fault c.Answer}
    (hcall : Calls s worker w fiber run c next r t) :
      ∃ taken', Coherent n hcall.state (ds ++ hcall.deeds) taken' := by
  obtain ⟨record, hrec, hstage⟩ := hc.runs fiber run hcall.on.run
  have hpromised : ∀ cell ∈ promised (.call c next), ∀ task, Submits ds run.job task → task.cell ≠ cell := by
    intro cell hcell task hsub
    rw [← hcall.rest] at hcell
    exact hc.submitted_ne hcall.on.run hcell hsub
  rw [hcall.rest] at hstage
  generalize hheld : run.held = held at hstage
  cases hstage with
  | halves hlong hnone => exact ⟨taken, hc.calls_newGroup hs hrec hcall hheld hlong hnone⟩
  | openLeft hlong hw hnone =>
    refine ⟨taken, hc.calls_push hs hrec hcall rfl ?_⟩
    rw [hheld]
    exact .handLeft hlong hc.room hw hnone
  | openRight hlong hw hleft honly =>
    refine ⟨taken, hc.calls_push hs hrec hcall rfl ?_⟩
    rw [hheld]
    exact .handRight hlong hc.room hw hleft honly
  | handLeft hlong hn hw hnone =>
    refine ⟨taken, Offers.calls ⟨hheld, hw, leftHalf_shorter hlong, fun _ => rfl,
      fun answer s' es ho hw' hleft hsubs => ?_⟩ hs hc hrec hcall⟩
    exact .openRight hlong hw' hleft fun t hsub => (hsubs t hsub).resolve_left (hnone t)
  | @handRight g cell leftCell hlong hn hw hleft honly =>
    refine ⟨taken, Offers.calls ⟨hheld, hw, rightHalf_shorter hlong, fun _ => rfl,
      fun answer s' es ho hw' hright hsubs => ?_⟩ hs hc hrec hcall⟩
    refine .join hw' (hleft.onward ho fun _ _ => id) hright fun k hk he => ?_
    subst hk
    cases answer with
    | error refusal => cases he
    | ok =>
      cases he
      exact hpromised cell (List.mem_singleton_self _) _ hleft.1 rfl
  | @takeLeft g cell rightCell halone hleft hright hne =>
    refine ⟨cell :: taken, hc.calls_take hs hrec hcall hleft.1 (promised_afterLeft ..) fun s' es hes ho => ?_⟩
    rw [hheld]
    refine .afterLeft (halone.onward ho fun _ => hes.submits) ((hc.right_found halone hleft).onward ho) ?_
    cases rightCell with
    | error refusal => exact Cause.onward ho hright
    | ok other =>
      refine ⟨hright.1.onward ho, fun hin => ?_⟩
      obtain rfl | hin := List.mem_cons.mp hin
      · exact hne rfl
      · exact hright.2 hin
  | @takeRight g cell left halone hleft hright =>
    refine ⟨cell :: taken, hc.calls_take hs hrec hcall hright.1 rfl fun s' es hes ho => ?_⟩
    rw [hheld]
    refine .finish (halone.onward ho fun _ => hes.submits) ?_
    have hfound := (hc.right_found halone hright).onward ho
    generalize found s.memory cell = r at hfound
    cases r with
    | error refusal => exact hfound
    | ok right =>
      have hsorts : Sorts (merge left right) (leftHalf record.code.values ++ rightHalf record.code.values) :=
        merge_sorts hleft hfound
      rwa [halves_append] at hsorts
  | finish halone hr => exact ⟨taken, hc.calls_dropGroup hs hrec hcall hheld (.store halone hr)⟩
  | store halone hr => exact ⟨taken, hc.calls_store hs hrec hcall halone hr⟩

/-- A wait of a sort is over once its halves have ended. -/
theorem Coherent.waited {next : Body Unit} {state : Group} (hrun : s.run? fiber = some run)
    (hrest : run.rest = .wait g next) (hstate : s.hub.groups.get? g = some state) (hcount : state.count = 0)
    (h' : (s.putRun fiber (some { run with rest := next })).Sound)
    (hlater : Later s (s.putRun fiber (some { run with rest := next }))) :
    Coherent n (s.putRun fiber (some { run with rest := next }))
      (ds ++ [.acted run.job (.wait g)]) taken := by
  obtain ⟨record, hrec, hstage⟩ := hc.runs fiber run hrun
  have hpending : (s.putRun fiber (some { run with rest := next })).pending = s.pending :=
    pending_putRun hrun rfl
  have hg : Goes s (s.putRun fiber (some { run with rest := next })) fiber run { run with rest := next } := by
    refine ⟨hs.settled.sound, h', hlater, hrun, rfl, ?_, rfl, fun job hin => hpending ▸ hin⟩
    rw [hrest]
    exact fun he => by cases he
  have hes : Unsubmitting (s.putRun fiber (some { run with rest := next })) [.acted run.job (.wait g)] := by
    intro d hd
    obtain rfl := List.mem_singleton.mp hd
    simp
  have ho : Onward s ds taken (s.putRun fiber (some { run with rest := next }))
      (ds ++ [.acted run.job (.wait g)]) taken :=
    .of_memory hlater rfl
  have hnobody : ∀ k ∈ s.pending, s.hub.tracks g k = false := by
    intro k hin
    have hzero := hs.count hstate
    rw [hcount] at hzero
    have hnone : s.pending.countP (s.hub.tracks g) = 0 := by
      have hzero' : (0 : Int32).toInt = 0 := rfl
      omega
    simpa using List.countP_eq_zero.mp hnone k hin
  have hnext : Stage n s ds taken run.job record.code run.held next ∧ promised next = [] := by
    generalize run.held = held at hstage ⊢
    rw [hrest] at hstage
    cases hstage with
    | join hw hleft hright hne =>
      refine ⟨.collect (fun task hsub => ?_) hleft hright hne, promised_collect ..⟩
      obtain ⟨k, child, hk, hcode, htracked⟩ := hw.tracked task hsub
      refine ⟨k, child, hk, hcode, fun hin => ?_⟩
      have hyes := tracks_of_record hk (htracked hin)
      rw [hnobody k hin] at hyes
      cases hyes
  exact hc.went hg hes rfl hrec rfl hnext.2 (hnext.1.onward ho (.of_same hes rfl))

omit hs in
theorem Coherent.held {next : Body Unit} (hrun : s.run? fiber = some run) (hrest : run.rest = .wait g next) :
    g ∈ run.held := by
  obtain ⟨record, hrec, hstage⟩ := hc.runs fiber run hrun
  generalize run.held = held at hstage
  rw [hrest] at hstage
  cases hstage with
  | join => exact List.mem_singleton_self _

theorem Coherent.modest_work (worker : Nat) : s.Modest (.work worker) := by
  intro run hrun c hcall
  obtain ⟨w, fiber, hon⟩ := onRun_of_activeRun? hrun
  exact (hc.next_call hs hon.run c hcall).1

theorem Coherent.stride (worker : Nat) : Stride body s worker (System.step body worker s).state
    (System.deeds s (System.step body worker s).state (.work worker)) :=
  hs.stride fun run hrun g next hrest => by
    obtain ⟨w, fiber, hon⟩ := onRun_of_activeRun? hrun
    exact hc.held hon.run hrest

theorem Coherent.step (worker : Nat) : ∃ taken', Coherent n (System.step body worker s).state
    (ds ++ System.deeds s (System.step body worker s).state (.work worker)) taken' := by
  have h := hs.settled.sound
  have hm := hc.modest_work hs worker
  have hstride := hc.stride hs worker
  have h' : (System.step body worker s).state.Sound := sound_move body h (.work worker)
  have hlater := hstride.later h hm
  generalize System.deeds s (System.step body worker s).state (.work worker) = es at hstride
  generalize (System.step body worker s).state = s' at hstride h' hlater
  cases hstride with
  | still hjobs hmemory hruns hunbegun hstill =>
    have hp := perm_of_counts (pending_of_unbegun hunbegun hruns)
    refine ⟨taken, hc.still h' hlater hjobs hmemory hruns (fun job hin => hp.mem_iff.mpr hin) fun d hd => ?_⟩
    obtain ⟨hacted, haccepted⟩ := hstill d hd
    exact ⟨fun _ _ _ _ _ => hacted _ _, haccepted, fun job fault he => absurd he (hacted _ _)⟩
  | began hrec hnone hjobs hmemory hruns hunbegun =>
    exact ⟨taken, hc.began h' hlater hrec hnone hjobs hmemory hruns hunbegun⟩
  | ended hon hover hrec hjobs hmemory hruns hunbegun =>
    exact ⟨taken, hc.ended h' hlater hon.run hover hrec hjobs hmemory hruns hunbegun⟩
  | waited hon hrest hstate hcount => exact ⟨taken, hc.waited hs hon.run hrest hstate hcount h' hlater⟩
  | called hon hrest hends => exact hc.called hs ⟨hon, hrest, hends, h', hlater⟩

end

/-! ## Codes -/

/-- What the jobs of a later system sort: what they sorted before, or half of a list too long for
one. -/
inductive Inherited (n : Nat) (s : Sys) : Task → Prop
  | kept {k : Nat} {record : Job Task} (hk : s.hub.jobs[k]? = some record) : Inherited n s record.code
  | half {k cell : Nat} {record : Job Task} {half : List Int32} (hk : s.hub.jobs[k]? = some record)
      (hlong : ¬record.code.values.length ≤ leafLength)
      (hhalf : half ∈ [leftHalf record.code.values, rightHalf record.code.values]) (hcell : n ≤ cell) :
        Inherited n s ⟨half, cell⟩

theorem Inherited.of_set {jobs : Array (Job Task)} {k : Nat} {old new record' : Job Task}
    (hrec : s.hub.jobs[job]? = some old) (hjobs : jobs = s.hub.jobs.setIfInBounds job new)
    (hcode : new.code = old.code) (hk : jobs[k]? = some record') :
    Inherited n s record'.code := by
  rw [hjobs, getElem?_set new hrec] at hk
  split at hk
  · obtain rfl := Option.some.inj hk
    exact hcode ▸ .kept hrec
  · exact .kept hk

theorem Inherited.of_spawned {c : Option (Except Fault (Except Refusal Unit))}
    {r : Except Fault (Except Refusal Unit)} {k : Nat} {record' : Job Task} {counters : Counters}
    (hspawned : match c with
      | some why => r = why ∧ t = s
      | none =>
        r = .ok (.ok ()) ∧ t.hub.jobs = s.hub.jobs.push ⟨task, false, true, false, true, some g⟩ ∧
        t.hub.counters = counters)
    (hk : t.hub.jobs[k]? = some record') (htask : Inherited n s task) : Inherited n s record'.code := by
  cases c with
  | some why => exact .kept (hspawned.2 ▸ hk)
  | none =>
    rw [hspawned.2.1] at hk
    obtain ⟨-, rfl⟩ | hk := getElem?_push_cases hk
    · exact htask
    · exact .kept hk

section
variable (hs : Even s ps) (hc : Coherent n s ds taken) {k : Nat} {record' : Job Task}
include hs hc

theorem Coherent.called_inherits {c : Call Task Cells Empty} {next : c.Answer → Body Unit}
    {r : Except Fault c.Answer} (hcall : Calls s worker w fiber run c next r t)
    (hk : t.hub.jobs[k]? = some record') : Inherited n s record'.code := by
  obtain ⟨record, hrec, hstage⟩ := hc.runs fiber run hcall.on.run
  rw [hcall.rest] at hstage
  generalize hheld : run.held = held at hstage
  have hquiet : c.Quiet → Inherited n s record'.code := fun hquiet => by
    obtain ⟨hjobs, -⟩ := (perform_quiet hs.settled.sound.fit (some worker) run.held hquiet).pin hcall.ends
    exact .kept (hjobs ▸ hk)
  cases hstage with
  | handLeft hlong hn =>
    exact .of_spawned (hc.spawned hs hcall (hheld ▸ List.mem_cons_self)) hk
      (.half hrec hlong List.mem_cons_self hn)
  | handRight hlong hn =>
    exact .of_spawned (hc.spawned hs hcall (hheld ▸ List.mem_cons_self)) hk (.half hrec hlong (by simp) hn)
  | halves | openLeft | openRight | takeLeft | takeRight | finish | store => exact hquiet trivial

theorem Coherent.inherits (worker : Nat)
    (hk : (System.step body worker s).state.hub.jobs[k]? = some record') :
    Inherited n s record'.code := by
  have h' : (System.step body worker s).state.Sound := sound_move body hs.settled.sound (.work worker)
  have hstride := hc.stride hs worker
  have hlater := hstride.later hs.settled.sound (hc.modest_work hs worker)
  generalize System.deeds s (System.step body worker s).state (.work worker) = es at hstride
  generalize (System.step body worker s).state = s' at hstride h' hlater hk
  cases hstride with
  | still hjobs => exact .kept (hjobs ▸ hk)
  | began hrec _ hjobs => exact .of_set hrec hjobs rfl hk
  | ended _ _ hrec hjobs => exact .of_set hrec hjobs rfl hk
  | waited => exact .kept hk
  | called hon hrest hends => exact hc.called_inherits hs ⟨hon, hrest, hends, h', hlater⟩ hk

end

end

end FiberScheduler.Sorting
