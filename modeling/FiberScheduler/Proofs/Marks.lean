import FiberScheduler.Proofs.Switching

/-!
# Marks

A context is marked as running while a thread resumes it, and one thread alone does so.
Every step keeps this, and so does whatever happens to a machine between its steps.
-/

namespace FiberScheduler

variable {ρ τ ω : Type}

namespace Machine

variable {turn : Turn ρ τ ω} {m : Machine τ ω} {root i : Nat} {wake : Wake} {target : Handle}
  {transfer : Transfer} {rest : List Thread} {body : τ} {result : Except Fault Transfer}

/-! ## Every step keeps the marks -/

theorem resumes?_seeking (root : Nat) (target : Handle) (transfer : Transfer) :
    (⟨root, .seeking target transfer⟩ : Thread).resumes? = none := rfl

theorem resumes?_inside (root i : Nat) (wake : Wake) :
    (⟨root, .inside i wake⟩ : Thread).resumes? = some i := rfl

theorem running_of_not_mem {k : Nat} :
    ∀ {threads : List Thread}, k ∉ threads.map (·.root) → running threads k = .invalid
  | [], _ => rfl
  | thread :: rest, h => by
    rw [List.map_cons, List.mem_cons, not_or] at h
    rw [running, if_neg h.1, running_of_not_mem h.2]

section
variable (houter : ∀ outer ∈ rest, ∃ context, outer.phase = .joining context)
include houter

theorem stacked_seeking (root : Nat) (target : Handle) (transfer : Transfer) :
    Stacked (⟨root, .seeking target transfer⟩ :: rest) := by
  refine ⟨?_, houter⟩
  intro context hphase
  cases hphase

theorem stacked_inside (root i : Nat) (wake : Wake) : Stacked (⟨root, .inside i wake⟩ :: rest) := by
  refine ⟨?_, houter⟩
  intro context hphase
  cases hphase

theorem resumes_woken : (woken result rest).filterMap Thread.resumes? = rest.filterMap Thread.resumes? := by
  rcases outer_cases houter with rfl | ⟨root, i, inner, rfl, -⟩ <;> rfl

theorem roots_woken : (woken result rest).map (·.root) = rest.map (·.root) := by
  rcases outer_cases houter with rfl | ⟨root, i, inner, rfl, -⟩ <;> rfl

theorem running_woken : running (woken result rest) = running rest := by
  rcases outer_cases houter with rfl | ⟨root, i, inner, rfl, -⟩ <;> rfl

theorem stacked_woken : Stacked (woken result rest) := by
  rcases outer_cases houter with rfl | ⟨root, i, inner, rfl, hinner⟩
  · trivial
  · exact stacked_inside hinner _ _ _

end

theorem Marked.finished (hm : Marked m) (h : m.threads = ⟨root, .seeking target transfer⟩ :: rest) :
    Marked (m.finished result rest) := by
  have houter := (h ▸ hm.stacked : Stacked (_ :: rest)).2
  have hresumed : (m.finished result rest).resumed = m.resumed := by
    rw [resumed, resumed, h, List.filterMap_cons, resumes?_seeking]
    exact resumes_woken houter
  have hdescending := hm.descending
  rw [h, List.map_cons, List.pairwise_cons] at hdescending
  refine ⟨fun i => ?_, ?_, fun i hi => ?_, stacked_woken houter, ?_, fun k => ?_⟩
  · rw [hresumed]
    exact hm.marked_iff i
  · rw [hresumed]
    exact hm.nodup
  · rw [hresumed] at hi
    exact hm.alive i hi
  · show ((woken result rest).map (·.root)).Pairwise (· > ·)
    rw [roots_woken houter]
    exact hdescending.2
  · show m.locals k = ⟨true, running (woken result rest) k⟩
    rw [running_woken houter, hm.locals, h, running]
    by_cases hk : k = root
    · have hnot : root ∉ rest.map (·.root) := fun hmem => Nat.lt_irrefl _ (hdescending.1 root hmem)
      rw [hk, if_pos rfl, running_of_not_mem hnot]
      rfl
    · rw [if_neg hk]

section
variable (m' : Machine τ ω) {record record' : ContextRecord τ} (hrecord : m.records[i]? = some record)
  (hset : m'.records = m.records.setIfInBounds i record')
include hrecord hset

theorem marked_set (j : Nat) : m'.marked j = if i = j then record'.running else m.marked j := by
  unfold marked
  rw [hset, getElem?_set _ hrecord]
  by_cases hij : i = j <;> simp [hij]

theorem alive?_set (j : Nat) : m'.alive? j =
    if i = j then (if record'.ended then none else some record'.body) else m.alive? j := by
  unfold alive?
  rw [hset, getElem?_set _ hrecord]
  by_cases hij : i = j <;> simp [hij]

end

theorem Marked.locals_modify {phase : Phase} {now : Handle} (hm : Marked m)
    (h : m.threads = ⟨root, phase⟩ :: rest) (k : Nat) :
    (m.modifyLocals root fun l => { l with running := now }).locals k =
      ⟨true, if k = root then now else running rest k⟩ := by
  have hk := hm.locals k
  rw [h, running] at hk
  show (if k = root then _ else m.locals k) = _
  rw [hk]
  by_cases hroot : k = root <;> simp [hroot]

theorem Marked.entered (hm : Marked m) (h : m.threads = ⟨root, .seeking target transfer⟩ :: rest)
    (hrecord : m.records[i]? = some ⟨false, false, body⟩) : Marked (m.entered root i transfer rest body) := by
  have hresumed : (m.entered root i transfer rest body).resumed = i :: m.resumed := by
    rw [resumed, resumed, h]
    rfl
  have hfree : i ∉ m.resumed := by
    rw [← hm.marked_iff, marked, hrecord]
    simp
  have hmarked := marked_set (m.entered root i transfer rest body) hrecord rfl
  have halive := alive?_set (m.entered root i transfer rest body) hrecord rfl
  have hstacked : Stacked (_ :: rest) := h ▸ hm.stacked
  refine ⟨fun j => ?_, ?_, fun j hj => ?_, stacked_inside hstacked.2 _ _ _, ?_, hm.locals_modify h⟩
  · rw [hmarked, hresumed, List.mem_cons, ← hm.marked_iff]
    by_cases hij : i = j <;> simp [hij, Ne.symm]
  · rw [hresumed]
    exact List.nodup_cons.mpr ⟨hfree, hm.nodup⟩
  · rw [halive]
    rw [hresumed, List.mem_cons] at hj
    by_cases hij : i = j
    · exact ⟨body, by simp [hij]⟩
    · rw [if_neg hij]
      exact hm.alive j (hj.resolve_left (Ne.symm hij))
  · have hdescending := hm.descending
    rw [h] at hdescending
    exact hdescending

section
variable {body' : τ} {world : ω} (hm : Marked m) (h : m.threads = ⟨root, .inside i wake⟩ :: rest)
  (hrecord : m.records[i]? = some ⟨true, false, body⟩)
include hm h hrecord

theorem Marked.released (ended : Bool) (target : Handle) (transfer : Transfer) (body' : τ) (world : ω) :
    Marked (m.released root i ended (.seeking target transfer) rest body' world) := by
  have hresumed :
      m.resumed = i :: (m.released root i ended (.seeking target transfer) rest body' world).resumed := by
    rw [resumed, resumed, h]
    rfl
  have hnodup := hm.nodup
  -- Nobody else resumes it, so its mark may go.
  rw [hresumed, List.nodup_cons] at hnodup
  have hmarked := marked_set (m.released root i ended (.seeking target transfer) rest body' world) hrecord rfl
  have halive := alive?_set (m.released root i ended (.seeking target transfer) rest body' world) hrecord rfl
  have hstacked : Stacked (_ :: rest) := h ▸ hm.stacked
  refine ⟨fun j => ?_, hnodup.2, fun j hj => ?_, stacked_seeking hstacked.2 _ _ _, ?_, hm.locals_modify h⟩
  · rw [hmarked]
    by_cases hij : i = j
    · simp [← hij, hnodup.1]
    · rw [if_neg hij, hm.marked_iff, hresumed, List.mem_cons]
      simp [Ne.symm hij]
  · have hij : i ≠ j := fun hij => hnodup.1 (hij ▸ hj)
    rw [halive, if_neg hij]
    apply hm.alive
    rw [hresumed]
    exact List.mem_cons_of_mem _ hj
  · have hdescending := hm.descending
    rw [h] at hdescending
    exact hdescending

theorem Marked.started (target : Handle) (data : UInt64) (body' : τ) (world : ω) :
    Marked (m.started root i target data rest body' world) := by
  have hresumed : (m.started root i target data rest body' world).resumed = m.resumed := by
    rw [resumed, resumed, h]
    rfl
  have hmem : i ∈ m.resumed := by
    rw [resumed, h]
    exact List.mem_cons_self
  have hmarked := marked_set (m.started root i target data rest body' world) hrecord rfl
  have halive := alive?_set (m.started root i target data rest body' world) hrecord rfl
  have hstacked : Stacked (_ :: rest) := h ▸ hm.stacked
  have hdescending := hm.descending
  rw [h, List.map_cons, List.pairwise_cons] at hdescending
  refine ⟨fun j => ?_, ?_, fun j hj => ?_, stacked_seeking ?_ _ _ _, ?_, fun k => ?_⟩
  · rw [hmarked, hresumed]
    by_cases hij : i = j
    · simp [← hij, hmem]
    · rw [if_neg hij, hm.marked_iff]
  · rw [hresumed]
    exact hm.nodup
  · rw [hresumed] at hj
    rw [halive]
    by_cases hij : i = j
    · exact ⟨body', by simp [hij]⟩
    · rw [if_neg hij]
      exact hm.alive j hj
  · intro outer houter
    rcases List.mem_cons.mp houter with rfl | houter
    · exact ⟨i, rfl⟩
    · exact hstacked.2 outer houter
  · show ((root + 1) :: root :: rest.map (·.root)).Pairwise (· > ·)
    rw [List.pairwise_cons, List.pairwise_cons]
    refine ⟨fun k hk => ?_, hdescending⟩
    rcases List.mem_cons.mp hk with rfl | hk
    · exact Nat.lt_succ_self _
    · exact Nat.lt_succ_of_lt (hdescending.1 k hk)
  · show (if k = root + 1 then _ else m.locals k) =
      (⟨true, if k = root + 1 then _ else if k = root then _ else _⟩ : Locals)
    have hk := hm.locals k
    rw [h, running] at hk
    rw [hk]
    by_cases hroot : k = root + 1
    · rw [if_pos hroot, if_pos hroot]
      rfl
    · rw [if_neg hroot, if_neg hroot]
      rfl

end

theorem Stepped.marked {answer : Option (Except Fault Transfer)} {m' : Machine τ ω} {log : List (Entry ρ)}
    (hm : Marked m) (hs : Stepped turn m answer m' log) : Marked m' := by
  cases hs with
  | rested => exact hm
  | returned h => exact hm.finished h
  | refused h => exact hm.finished h
  | entered h hrecord => exact hm.entered h hrecord
  | switched h hrecord => exact hm.released h hrecord false _ _ _ _
  | started h hrecord => exact hm.started h hrecord _ _ _ _
  | ended h hrecord => exact (hm.released h hrecord true _ _ _ _).finished rfl

/-! ## What runs on a thread -/

theorem running_of_mem {thread : Thread} :
    ∀ {threads : List Thread}, (threads.map (·.root)).Pairwise (· > ·) → thread ∈ threads →
    running threads thread.root = (thread.resumes?.map .context).getD .invalid
  | first :: rest, hdescending, hmem => by
    rw [List.map_cons, List.pairwise_cons] at hdescending
    rw [running]
    rcases List.mem_cons.mp hmem with rfl | hmem
    · rw [if_pos rfl]
    · have hless := hdescending.1 thread.root (List.mem_map_of_mem hmem)
      rw [if_neg (Nat.ne_of_lt hless)]
      exact running_of_mem hdescending.2 hmem

theorem Marked.current_of_mem {thread : Thread} (hm : Marked m) (hmem : thread ∈ m.threads) :
    m.current thread.root = (thread.resumes?.map .context).getD (.root thread.root) := by
  rw [current, inContext, hm.locals, running_of_mem hm.descending hmem]
  cases thread.resumes? <;> rfl

theorem Marked.inContext_of_not_mem {k : Nat} (hm : Marked m) (hk : k ∉ m.threads.map (·.root)) :
    m.inContext k = false := by
  rw [inContext, hm.locals, running_of_not_mem hk]
  rfl

/-! ## Courses of events -/

end Machine

inductive Deed (τ ω : Type) where
  | create (body : τ)
  | destroy (handle : Handle)
  /-- What the callbacks share is changed. -/
  | assign (world : ω)
  /-- A switch begins on the root of a thread, if no other is under way. -/
  | launch (root : Nat) (target : Handle) (data : UInt64)
  | step

namespace Machine

variable {m m' : Machine τ ω} {i : Nat} {deeds : List (Deed τ ω)}

def act (turn : Turn ρ τ ω) (m : Machine τ ω) : Deed τ ω → Machine τ ω
  | .create body => ((create body : Act ρ (Machine τ ω) Handle) m).state
  | .destroy handle => ((destroy handle : Act ρ (Machine τ ω) Unit) m).state
  | .assign world => { m with world }
  | .launch root target data => if m.threads.isEmpty then
    ((launch root target data : Act ρ (Machine τ ω) Unit) m).state else m
  | .step => (step turn m).state

def run (turn : Turn ρ τ ω) (m : Machine τ ω) (deeds : List (Deed τ ω)) : Machine τ ω :=
  deeds.foldl (act turn) m

theorem act_step (turn : Turn ρ τ ω) (hm : Marked m) :
    ∃ answer log, Stepped turn m answer (m.act turn .step) log := by
  obtain ⟨answer, m', log, hstep, hs⟩ := step_cases turn hm
  refine ⟨answer, log, ?_⟩
  rw [act, hstep]
  exact hs

theorem act_destroy (turn : Turn ρ τ ω) (m : Machine τ ω) (handle : Handle) :
    m.act turn (.destroy handle) = m ∧ (∀ i, handle = .context i → m.marked i = true ∨ m.records[i]? = none) ∨
    ∃ i record, handle = .context i ∧ m.records[i]? = some record ∧ record.running = false ∧
      m.act turn (.destroy handle) =
        { m with records := m.records.setIfInBounds i { record with ended := true } } := by
  rw [act]
  unfold destroy
  rw [Act.get_bind]
  cases hflag : m.flag? handle with
  | none =>
    refine .inl ⟨rfl, fun i hi => .inr ?_⟩
    rw [hi] at hflag
    exact Option.map_eq_none_iff.mp hflag
  | some flag =>
    cases flag with
    | true =>
      refine .inl ⟨rfl, fun i hi => .inl ?_⟩
      rw [hi] at hflag
      obtain ⟨record, hrecord, hrunning⟩ := Option.map_eq_some_iff.mp hflag
      rw [marked, hrecord]
      exact hrunning
    | false =>
      cases handle with
      | invalid => exact .inl ⟨rfl, nofun⟩
      | root thread => exact .inl ⟨rfl, nofun⟩
      | context i =>
        obtain ⟨record, hrecord, hrunning⟩ := Option.map_eq_some_iff.mp hflag
        refine .inr ⟨i, record, rfl, hrecord, hrunning, ?_⟩
        rw [← modify_eq_set (fun r => { r with ended := true }) hrecord]
        rfl

theorem Marked.created (hm : Marked m) (body : τ) :
    Marked { m with records := m.records.push ⟨false, false, body⟩ } := by
  have hlt : ∀ j ∈ m.resumed, j < m.records.size := fun j hj => by
    obtain ⟨body, halive⟩ := hm.alive j hj
    exact (Array.getElem?_eq_some_iff.mp (record_of_alive halive)).1
  refine ⟨fun j => ?_, hm.nodup, fun j hj => ?_, hm.stacked, hm.descending, hm.locals⟩
  · show ((m.records.push _)[j]?).any _ = true ↔ j ∈ m.resumed
    rw [Array.getElem?_push]
    by_cases hj : j = m.records.size
    · have hnot : j ∉ m.resumed := fun hmem => by
        have := hlt j hmem
        omega
      simp [hj ▸ hnot, hj]
    · rw [if_neg hj]
      exact hm.marked_iff j
  · obtain ⟨body', halive⟩ := hm.alive j hj
    refine ⟨body', ?_⟩
    show ((m.records.push _)[j]?).bind _ = some body'
    rw [Array.getElem?_push, if_neg (Nat.ne_of_lt (hlt j hj))]
    exact halive

theorem Marked.retired (hm : Marked m) {record : ContextRecord τ}
    (hrecord : m.records[i]? = some record) (hfree : record.running = false) :
    Marked { m with records := m.records.setIfInBounds i { record with ended := true } } := by
  let m' : Machine τ ω := { m with records := m.records.setIfInBounds i { record with ended := true } }
  have hmarked := marked_set m' hrecord rfl
  have halive := alive?_set m' hrecord rfl
  have hnot : i ∉ m.resumed := by
    rw [← hm.marked_iff, marked, hrecord]
    simp [hfree]
  refine ⟨fun j => ?_, hm.nodup, fun j hj => ?_, hm.stacked, hm.descending, hm.locals⟩
  · rw [hmarked]
    by_cases hij : i = j
    · rw [if_pos hij]
      exact iff_of_false (by simp [hfree]) (hij ▸ hnot)
    · rw [if_neg hij]
      exact hm.marked_iff j
  · have hij : i ≠ j := fun hij => hnot (hij ▸ hj)
    rw [halive, if_neg hij]
    exact hm.alive j hj

theorem Marked.launched (hm : Marked m) (h : m.threads = []) (root : Nat) (target : Handle) (data : UInt64) :
    Marked { m with threads := [⟨root, .seeking target ⟨.root root, data⟩⟩] } := by
  have hresumed : m.resumed = [] := by rw [resumed, h]; rfl
  refine ⟨fun j => ?_, List.nodup_nil, fun j hj => (by cases hj),
    stacked_seeking (fun _ hmem => (by cases hmem)) _ _ _, List.pairwise_singleton _ _, fun k => ?_⟩
  · have := hm.marked_iff j
    rw [hresumed] at this
    exact this
  · have hk := hm.locals k
    rw [h] at hk
    show m.locals k = _
    rw [hk, running]
    by_cases hroot : k = root <;> simp [hroot, running, Thread.resumes?]

theorem Marked.act {turn : Turn ρ τ ω} (hm : Marked m) (d : Deed τ ω) : Marked (m.act turn d) := by
  cases d with
  | create body => exact hm.created body
  | destroy handle =>
    rcases act_destroy turn m handle with ⟨heq, -⟩ | ⟨i, record, -, hrecord, hfree, heq⟩
    · rw [heq]
      exact hm
    · rw [heq]
      exact hm.retired hrecord hfree
  | assign world => exact ⟨hm.marked_iff, hm.nodup, hm.alive, hm.stacked, hm.descending, hm.locals⟩
  | launch root target data =>
    rw [Machine.act]
    split
    · rename_i hempty
      exact hm.launched (List.isEmpty_iff.mp hempty) root target data
    · exact hm
  | step =>
    obtain ⟨answer, log, hs⟩ := act_step turn hm
    exact hs.marked hm

theorem marked_new (world : ω) : Marked (new world : Machine τ ω) := by
  refine ⟨fun i => ?_, List.nodup_nil, fun i hi => (by cases hi), trivial, List.Pairwise.nil, fun k => rfl⟩
  simp [marked, new, resumed]

theorem Marked.run {turn : Turn ρ τ ω} (hm : Marked m) (deeds : List (Deed τ ω)) :
    Marked (m.run turn deeds) := by
  induction deeds generalizing m with
  | nil => exact hm
  | cons d deeds ih => exact ih (hm.act d)

end Machine

end FiberScheduler
