import FiberScheduler.Context.Script
import FiberScheduler.Proofs.Marks

/-!
# Symmetric switching

The machine of contexts resumes and suspends: every switch goes through the loop of a
thread. Here is a machine that has no loops and no flags, in which a context that switches
away hands control to the one it names. The two do the same, switch by switch.
-/

namespace FiberScheduler

variable {ρ τ ω α β : Type}

structure Control (τ : Type) where
  thread : Nat
  context : Nat
  body : τ
  wake : Wake

structure Join (τ : Type) where
  thread : Nat
  context : Nat
  body : τ

structure Symmetric (τ ω : Type) where
  /-- Where each callback waits for a switch to it, at its entry or at a switch of its own. -/
  waiting : Array (Option τ)
  control : Option (Control τ)
  joins : List (Join τ)
  world : ω

namespace Symmetric

/-- The switch on the root of a thread ends. Whoever joins the thread gets control. -/
def close (result : Except Fault Transfer) : Act ρ (Symmetric τ ω) (Option (Except Fault Transfer)) := do
  match (← Act.get).joins with
  | [] => return some result
  | join :: joins =>
    Act.modify fun s =>
      { s with control := some ⟨join.thread, join.context, join.body, .joined result⟩, joins }
    return none

/-- Control goes to a target, with what is passed. It ends the switch of the thread if that
is its root, and also if the target is none that waits. -/
def transfer (thread : Nat) (target : Handle) (passed : Transfer) :
    Act ρ (Symmetric τ ω) (Option (Except Fault Transfer)) := do
  match target with
  | .invalid => close (.error .invalidTarget)
  | .root other => close (if other = thread then .ok passed else .error .alreadyRunning)
  | .context i =>
    let s ← Act.get
    match s.waiting[i]? with
    | none => close (.error .invalidTarget)
    | some none => close (.error (if s.joins.any (·.context = i) then .alreadyRunning else .alreadyEnded))
    | some (some body) =>
      Act.modify fun s =>
        { s with
          waiting := s.waiting.setIfInBounds i none
          control := some ⟨thread, i, body, .switched passed⟩ }
      return none

/-- What becomes of a context with its move: one that switches away waits where it is. -/
def follow (c : Control τ) (body : τ) :
    Except Fault Move → Act ρ (Symmetric τ ω) (Option (Except Fault Transfer))
  | .ok (.switch target data) => do
    Act.modify fun s => { s with waiting := s.waiting.setIfInBounds c.context (some body) }
    transfer c.thread target ⟨.context c.context, data⟩
  | .ok (.thread target data) => do
    Act.modify fun s => { s with joins := ⟨c.thread, c.context, body⟩ :: s.joins }
    transfer (c.thread + 1) target ⟨.root (c.thread + 1), data⟩
  | .ok .leave => close (.error .callbackReturned)
  | .error fault => close (.error fault)

def play (turn : Turn ρ τ ω) (c : Control τ) : Act ρ (Symmetric τ ω) (τ × Except Fault Move) := fun s =>
  let played := turn ⟨c.context, c.thread⟩ c.wake (c.body, s.world)
  ⟨.ok (played.state.1, played.result), { s with control := none, world := played.state.2 }, played.log⟩

def step (turn : Turn ρ τ ω) : Act ρ (Symmetric τ ω) (Option (Except Fault Transfer)) := do
  match (← Act.get).control with
  | none => return none
  | some c =>
    let (body, move) ← play turn c
    follow c body move

def loop (turn : Turn ρ τ ω) : (turns : Nat) → Act ρ (Symmetric τ ω) (Option (Except Fault Transfer))
  | 0 => return none
  | turns + 1 => do
    match ← step turn with
    | some result => return some result
    | none => loop turn turns

def switch (turn : Turn ρ τ ω) (turns : Nat) (thread : Nat) (target : Handle) (data : UInt64) :
    Act ρ (Symmetric τ ω) (Option (Except Fault Transfer)) := do
  match ← transfer thread target ⟨.root thread, data⟩ with
  | some result => return some result
  | none => loop turn turns

end Symmetric

/-! ## What the machine looks like -/

def ContextRecord.waits? (r : ContextRecord τ) : Option τ :=
  if r.running || r.ended then none else some r.body

namespace Machine

def control? (m : Machine τ ω) : Option (Control τ) :=
  match m.threads with
  | ⟨root, .inside i wake⟩ :: _ => (m.records[i]?).map fun r => ⟨root, i, r.body, wake⟩
  | _ => none

def join? (records : Array (ContextRecord τ)) (thread : Thread) : Option (Join τ) :=
  match thread.phase with
  | .joining i => (records[i]?).map fun r => ⟨thread.root, i, r.body⟩
  | _ => none

def view (m : Machine τ ω) : Symmetric τ ω where
  waiting := m.records.map ContextRecord.waits?
  control := m.control?
  joins := m.threads.filterMap (join? m.records)
  world := m.world

end Machine

def Outcome.view (o : Outcome ρ (Machine τ ω) α) : Outcome ρ (Symmetric τ ω) α :=
  ⟨o.result, o.state.view, o.log⟩

namespace Machine

variable {turn : Turn ρ τ ω} {m m' : Machine τ ω} {root i : Nat} {wake : Wake} {target : Handle}
  {passed : Transfer} {rest : List Thread} {body : τ}

theorem join?_joining {records : Array (ContextRecord τ)} {record : ContextRecord τ} (root : Nat)
    (hrecord : records[i]? = some record) :
      join? records ⟨root, .joining i⟩ = some ⟨root, i, record.body⟩ := by
  unfold join?
  dsimp only
  rw [hrecord]
  rfl

theorem join?_set {record record' : ContextRecord τ} {thread : Thread} (hrecord : m.records[i]? = some record)
    (hother : thread.resumes? ≠ some i) :
    join? (m.records.setIfInBounds i record') thread = join? m.records thread := by
  obtain ⟨root, phase⟩ := thread
  cases phase with
  | joining j =>
    have hij : i ≠ j := fun hij => hother (congrArg some hij.symm)
    unfold join?
    dsimp only
    rw [getElem?_set _ hrecord, if_neg hij]
  | seeking => rfl
  | inside => rfl

theorem joins_set {record record' : ContextRecord τ} (hrecord : m.records[i]? = some record) :
    ∀ {rest : List Thread}, i ∉ rest.filterMap Thread.resumes? →
      rest.filterMap (join? (m.records.setIfInBounds i record')) = rest.filterMap (join? m.records)
  | [], _ => rfl
  | thread :: rest, hother => by
    have hthread : thread.resumes? ≠ some i :=
      fun heq => hother (List.mem_filterMap.mpr ⟨thread, List.mem_cons_self, heq⟩)
    have hrest : i ∉ rest.filterMap Thread.resumes? := fun hmem => by
      obtain ⟨other, hmem, heq⟩ := List.mem_filterMap.mp hmem
      exact hother (List.mem_filterMap.mpr ⟨other, List.mem_cons_of_mem _ hmem, heq⟩)
    rw [List.filterMap_cons, List.filterMap_cons, join?_set hrecord hthread, joins_set hrecord hrest]

theorem waiting_set (m : Machine τ ω) (i : Nat) (record : ContextRecord τ) :
    (m.records.setIfInBounds i record).map ContextRecord.waits? =
      m.view.waiting.setIfInBounds i record.waits? :=
  Array.map_setIfInBounds

theorem waiting_eq (m : Machine τ ω) (i : Nat) :
    m.view.waiting[i]? = (m.records[i]?).map ContextRecord.waits? :=
  Array.getElem?_map

theorem joins_seeking (h : m.threads = ⟨root, .seeking target passed⟩ :: rest) :
    m.view.joins = rest.filterMap (join? m.records) := by
  show m.threads.filterMap _ = _
  rw [h]
  rfl

theorem resumed_seeking (h : m.threads = ⟨root, .seeking target passed⟩ :: rest) :
    m.resumed = rest.filterMap Thread.resumes? := by
  rw [resumed, h]
  rfl

theorem close_view (hm : Marked m)
    (h : m.threads = ⟨root, .seeking target passed⟩ :: rest) (result : Except Fault Transfer) :
    (Symmetric.close result : Act ρ (Symmetric τ ω) _) m.view =
      ⟨.ok (answer? result rest), (m.finished result rest).view, []⟩ := by
  have hstacked : Stacked (_ :: rest) := h ▸ hm.stacked
  unfold Symmetric.close
  rw [Act.get_bind, joins_seeking h]
  rcases outer_cases hstacked.2 with rfl | ⟨root', i, inner, rfl, -⟩
  · show (⟨.ok (some result), m.view, []⟩ : Outcome ρ (Symmetric τ ω) _) = _
    have hview : m.view = (m.finished result []).view := by
      unfold view control?
      rw [h]
      rfl
    rw [hview]
    rfl
  · have hmem : i ∈ m.resumed := by
      rw [resumed, h]
      exact List.mem_cons_self
    obtain ⟨body, halive⟩ := hm.alive i hmem
    have hrecord := record_of_alive halive
    have hcontrol : (m.finished result (⟨root', .joining i⟩ :: inner)).control? =
        some ⟨root', i, body, .joined result⟩ := by
      show (m.records[i]?).map _ = _
      rw [hrecord]
      rfl
    rw [List.filterMap_cons, join?_joining root' hrecord]
    show (⟨.ok none, ⟨m.view.waiting, some ⟨root', i, body, .joined result⟩,
      inner.filterMap (join? m.records), m.world⟩, []⟩ : Outcome ρ (Symmetric τ ω) _) = _
    rw [← hcontrol]
    rfl

/-- The contexts that join a thread are those that the threads behind it resume. -/
theorem contexts_joins {records : Array (ContextRecord τ)} : ∀ {rest : List Thread},
    (∀ outer ∈ rest, ∃ context, outer.phase = .joining context) →
      (∀ j ∈ rest.filterMap Thread.resumes?, ∃ record, records[j]? = some record) →
      (rest.filterMap (join? records)).map (·.context) = rest.filterMap Thread.resumes?
  | [], _, _ => rfl
  | ⟨root, phase⟩ :: rest, houter, hrecords => by
    obtain ⟨j, rfl⟩ : ∃ j, phase = .joining j := houter _ List.mem_cons_self
    obtain ⟨record, hrecord⟩ := hrecords j List.mem_cons_self
    have hrest := contexts_joins (fun outer hmem => houter outer (List.mem_cons_of_mem _ hmem))
      fun k hk => hrecords k (List.mem_cons_of_mem j hk)
    rw [List.filterMap_cons, join?_joining root hrecord, List.map_cons, hrest]
    rfl

theorem any_joins (hm : Marked m) (h : m.threads = ⟨root, .seeking target passed⟩ :: rest) (i : Nat) :
    m.view.joins.any (·.context = i) = m.marked i := by
  have hstacked : Stacked (_ :: rest) := h ▸ hm.stacked
  have hcontexts : m.view.joins.map (·.context) = m.resumed := by
    rw [joins_seeking h, resumed_seeking h]
    apply contexts_joins hstacked.2
    intro j hj
    rw [← resumed_seeking h] at hj
    obtain ⟨body, halive⟩ := hm.alive j hj
    exact ⟨_, record_of_alive halive⟩
  rw [Bool.eq_iff_iff, hm.marked_iff, ← hcontexts, List.mem_map, List.any_eq_true]
  simp

theorem transfer_refused {fault : Fault} (hm : Marked m)
    (h : m.threads = ⟨root, .seeking target passed⟩ :: rest) (hwhy : m.refusal? root target = some fault) :
    (Symmetric.transfer root target passed : Act ρ (Symmetric τ ω) _) m.view =
      Symmetric.close (.error fault) m.view := by
  cases target with
  | invalid =>
    obtain rfl : Fault.invalidTarget = fault := Option.some.inj hwhy
    rfl
  | root other =>
    have hroot : other ≠ root := fun heq => by simp [refusal?, heq] at hwhy
    obtain rfl : Fault.alreadyRunning = fault := by simpa [refusal?, hroot] using hwhy
    show (Symmetric.close (if other = root then _ else _) : Act ρ (Symmetric τ ω) _) m.view = _
    rw [if_neg hroot]
  | context i =>
    have hany := any_joins hm h i
    unfold Symmetric.transfer
    dsimp only
    rw [Act.get_bind, waiting_eq]
    cases hrecord : m.records[i]? with
    | none =>
      obtain rfl : Fault.invalidTarget = fault := by simpa [refusal?, hrecord] using hwhy
      rfl
    | some record =>
      obtain ⟨flag, ended, body⟩ := record
      rw [marked, hrecord] at hany
      cases flag with
      | true =>
        obtain rfl : Fault.alreadyRunning = fault := by simpa [refusal?, hrecord] using hwhy
        show (Symmetric.close (.error (if _ then _ else _)) : Act ρ (Symmetric τ ω) _) m.view = _
        have hjoined : m.view.joins.any (·.context = i) = true := hany
        rw [if_pos hjoined]
      | false =>
        cases ended with
        | false => simp [refusal?, hrecord] at hwhy
        | true =>
          obtain rfl : Fault.alreadyEnded = fault := by simpa [refusal?, hrecord] using hwhy
          show (Symmetric.close (.error (if _ then _ else _)) : Act ρ (Symmetric τ ω) _) m.view = _
          rw [if_neg (by rw [hany]; exact Bool.false_ne_true)]

theorem view_entered (hm : Marked m) (h : m.threads = ⟨root, .seeking (.context i) passed⟩ :: rest)
    (hrecord : m.records[i]? = some ⟨false, false, body⟩) :
    (m.entered root i passed rest body).view =
      ⟨m.view.waiting.setIfInBounds i none, some ⟨root, i, body, .switched passed⟩, m.view.joins,
        m.world⟩ := by
  have hfree : i ∉ rest.filterMap Thread.resumes? := by
    rw [← resumed_seeking h, ← hm.marked_iff, marked, hrecord]
    simp
  have hcontrol : (m.entered root i passed rest body).control? = some ⟨root, i, body, .switched passed⟩ := by
    show ((m.records.setIfInBounds i ⟨true, false, body⟩)[i]?).map _ = _
    rw [getElem?_set _ hrecord, if_pos rfl]
    rfl
  have hjoins : rest.filterMap (join? (m.records.setIfInBounds i ⟨true, false, body⟩)) = m.view.joins := by
    rw [joins_set hrecord hfree, joins_seeking h]
  show (⟨(m.records.setIfInBounds i ⟨true, false, body⟩).map ContextRecord.waits?,
    (m.entered root i passed rest body).control?,
    rest.filterMap (join? (m.records.setIfInBounds i ⟨true, false, body⟩)), m.world⟩ : Symmetric τ ω) = _
  rw [waiting_set, hcontrol, hjoins]
  rfl

theorem transfer_entered (hm : Marked m) (h : m.threads = ⟨root, .seeking (.context i) passed⟩ :: rest)
    (hrecord : m.records[i]? = some ⟨false, false, body⟩) :
    (Symmetric.transfer root (.context i) passed : Act ρ (Symmetric τ ω) _) m.view =
      ⟨.ok none, (m.entered root i passed rest body).view, []⟩ := by
  unfold Symmetric.transfer
  dsimp only
  rw [Act.get_bind, waiting_eq, hrecord, view_entered hm h hrecord]
  rfl

def Settled (answer : Option (Except Fault Transfer)) (m : Machine τ ω) : Prop :=
  Marked m ∧ (answer = none → ∃ root i wake rest, m.threads = ⟨root, .inside i wake⟩ :: rest)

theorem settled_finished (hm : Marked m)
    (h : m.threads = ⟨root, .seeking target passed⟩ :: rest) (result : Except Fault Transfer) :
    Settled (answer? result rest) (m.finished result rest) := by
  refine ⟨hm.finished h, fun hnone => ?_⟩
  have hstacked : Stacked (_ :: rest) := h ▸ hm.stacked
  rcases outer_cases hstacked.2 with rfl | ⟨root', i, inner, rfl, -⟩
  · cases hnone
  · exact ⟨root', i, .joined result, inner, rfl⟩

theorem seek_view (turn : Turn ρ τ ω) (hm : Marked m)
    (h : m.threads = ⟨root, .seeking target passed⟩ :: rest) :
    ∃ answer m', step turn m = ⟨.ok answer, m', []⟩ ∧
      (Symmetric.transfer root target passed : Act ρ (Symmetric τ ω) _) m.view = ⟨.ok answer, m'.view, []⟩ ∧
        Settled answer m' := by
  obtain ⟨answer, m', log, hstep, hs⟩ := step_cases turn hm
  cases hs with
  | rested h' =>
    rw [h] at h'
    cases h'
  | returned h' =>
    rw [h] at h'
    cases h'
    refine ⟨_, _, hstep, ?_, settled_finished hm h _⟩
    show (Symmetric.close (if root = root then .ok passed else .error .alreadyRunning) :
      Act ρ (Symmetric τ ω) _) m.view = _
    rw [if_pos rfl, close_view hm h]
  | refused h' hwhy =>
    rw [h] at h'
    cases h'
    refine ⟨_, _, hstep, ?_, settled_finished hm h _⟩
    rw [transfer_refused hm h hwhy, close_view hm h]
  | entered h' hrecord =>
    rw [h] at h'
    cases h'
    exact ⟨_, _, hstep, transfer_entered hm h hrecord, hm.entered h hrecord, fun _ => ⟨_, _, _, _, rfl⟩⟩
  | switched h' | started h' | ended h' =>
    rw [h] at h'
    cases h'

/-! ## One turn -/

theorem step_of_control {s : Symmetric τ ω} {c : Control τ} (hcontrol : s.control = some c)
    {move : Except Fault Move} {body : τ} {world : ω} {log : List (Entry ρ)}
    (hplayed : turn ⟨c.context, c.thread⟩ c.wake (c.body, s.world) = ⟨move, (body, world), log⟩)
    {answer : Option (Except Fault Transfer)} {s' : Symmetric τ ω}
    (hfollow : (Symmetric.follow c body move : Act ρ (Symmetric τ ω) _) ⟨s.waiting, none, s.joins, world⟩ =
      ⟨.ok answer, s', []⟩) :
    Symmetric.step turn s = ⟨.ok answer, s', log⟩ := by
  have hplay : Symmetric.play turn c s = ⟨.ok (body, move), ⟨s.waiting, none, s.joins, world⟩, log⟩ := by
    unfold Symmetric.play
    rw [hplayed]
  unfold Symmetric.step
  rw [Act.get_bind, hcontrol]
  exact Act.bind_logged _ hplay hfollow

theorem not_mem_outer (hm : Marked m) (h : m.threads = ⟨root, .inside i wake⟩ :: rest) :
    i ∉ rest.filterMap Thread.resumes? := by
  have hnodup := hm.nodup
  rw [resumed, h, List.filterMap_cons, resumes?_inside] at hnodup
  exact (List.nodup_cons.mp hnodup).1

section
variable (hm : Marked m) (h : m.threads = ⟨root, .inside i wake⟩ :: rest)
  (hrecord : m.records[i]? = some ⟨true, false, body⟩)
include hrecord

theorem waiting_self : m.view.waiting.setIfInBounds i none = m.view.waiting := by
  apply set_self
  rw [waiting_eq, hrecord]
  rfl

include h

theorem control_inside : m.view.control = some ⟨root, i, body, wake⟩ := by
  show m.control? = _
  unfold control?
  rw [h]
  dsimp only
  rw [hrecord]
  rfl

include hm

theorem joins_inside (record' : ContextRecord τ) :
    rest.filterMap (join? (m.records.setIfInBounds i record')) = m.view.joins := by
  have hjoins : m.view.joins = rest.filterMap (join? m.records) := by
    show m.threads.filterMap _ = _
    rw [h]
    rfl
  rw [hjoins, joins_set hrecord (not_mem_outer hm h)]

theorem view_released (ended : Bool) (target : Handle) (passed : Transfer) (body' : τ) (world : ω) :
    (m.released root i ended (.seeking target passed) rest body' world).view =
      ⟨m.view.waiting.setIfInBounds i (if ended then none else some body'), none, m.view.joins, world⟩ := by
  show (⟨(m.records.setIfInBounds i ⟨false, ended, body'⟩).map _, none,
    rest.filterMap (join? (m.records.setIfInBounds i ⟨false, ended, body'⟩)), world⟩ : Symmetric τ ω) = _
  rw [waiting_set, joins_inside hm h hrecord]
  rfl

theorem view_started (target : Handle) (data : UInt64) (body' : τ) (world : ω) :
    (m.started root i target data rest body' world).view =
      ⟨m.view.waiting, none, ⟨root, i, body'⟩ :: m.view.joins, world⟩ := by
  have hwaiting :
      (m.records.setIfInBounds i ⟨true, false, body'⟩).map ContextRecord.waits? = m.view.waiting := by
    rw [waiting_set]
    exact waiting_self hrecord
  have hset : (m.records.setIfInBounds i ⟨true, false, body'⟩)[i]? = some ⟨true, false, body'⟩ := by
    rw [getElem?_set _ hrecord, if_pos rfl]
  have hjoins :
      (⟨root, .joining i⟩ :: rest).filterMap (join? (m.records.setIfInBounds i ⟨true, false, body'⟩)) =
        ⟨root, i, body'⟩ :: m.view.joins := by
    rw [List.filterMap_cons, join?_joining root hset, joins_inside hm h hrecord]
  show (⟨(m.records.setIfInBounds i ⟨true, false, body'⟩).map ContextRecord.waits?, none,
    (⟨root, .joining i⟩ :: rest).filterMap (join? (m.records.setIfInBounds i ⟨true, false, body'⟩)), world⟩ :
      Symmetric τ ω) = _
  rw [hwaiting, hjoins]

end

/-- One turn, with the step after it in which the loop finds the next target, if there is one. -/
theorem turn_view (turn : Turn ρ τ ω) (hm : Marked m) (h : m.threads = ⟨root, .inside i wake⟩ :: rest) :
    ∃ answer m' log, Symmetric.step turn m.view = ⟨.ok answer, m'.view, log⟩ ∧ Settled answer m' ∧
      (step turn m = ⟨.ok answer, m', log⟩ ∨ ∃ between, step turn m = ⟨.ok none, between, log⟩ ∧
        step turn between = ⟨.ok answer, m', []⟩) := by
  obtain ⟨answer, m', log, hstep, hs⟩ := step_cases turn hm
  cases hs with
  | rested h' | returned h' | refused h' | entered h' =>
    rw [h] at h'
    cases h'
  | @switched _ _ _ _ body body' target data world log h' hrecord hplayed =>
    rw [h] at h'
    cases h'
    -- The loop needs a step of its own to find the target.
    obtain ⟨answer, m', hseek, htransfer, hsettled⟩ :=
      seek_view turn (hm.released h hrecord false target ⟨.context i, data⟩ body' world) rfl
    rw [view_released hm h hrecord] at htransfer
    exact ⟨answer, m', log, step_of_control (control_inside h hrecord) hplayed htransfer, hsettled,
      .inr ⟨_, hstep, hseek⟩⟩
  | @started _ _ _ _ body body' target data world log h' hrecord hplayed =>
    rw [h] at h'
    cases h'
    obtain ⟨answer, m', hseek, htransfer, hsettled⟩ :=
      seek_view turn (hm.started h hrecord target data body' world) rfl
    rw [view_started hm h hrecord] at htransfer
    exact ⟨answer, m', log, step_of_control (control_inside h hrecord) hplayed htransfer, hsettled,
      .inr ⟨_, hstep, hseek⟩⟩
  | @ended _ _ _ _ body body' move fault world log h' hrecord hplayed hend =>
    rw [h] at h'
    cases h'
    have hreleased := hm.released h hrecord true .invalid ⟨.context i, 0⟩ body' world
    have hclose := close_view (ρ := ρ) hreleased rfl (.error fault)
    rw [view_released hm h hrecord, if_pos rfl, waiting_self hrecord] at hclose
    have hfollow : (Symmetric.follow ⟨root, i, body, wake⟩ body' move : Act ρ (Symmetric τ ω) _) =
        Symmetric.close (.error fault) := by
      rcases hend with ⟨rfl, rfl⟩ | rfl <;> rfl
    refine ⟨_, _, log, step_of_control (control_inside h hrecord) hplayed ?_,
      settled_finished hreleased rfl _, .inl hstep⟩
    rw [hfollow]
    exact hclose

/-! ## Runs -/

section
variable {answer : Option (Except Fault Transfer)} {result : Except Fault Transfer} {log : List (Entry ρ)}

theorem loop_of_some (h : step turn m = ⟨.ok (some result), m', log⟩) (fuel : Nat) :
    loop turn (fuel + 1) m = ⟨.ok (some result), m', log⟩ := by
  rw [loop]
  exact Act.bind_logged _ h rfl

theorem loop_of_none (h : step turn m = ⟨.ok none, m', log⟩) (fuel : Nat) :
    loop turn (fuel + 1) m = ⟨(loop turn fuel m').result, (loop turn fuel m').state,
      log ++ (loop turn fuel m').log⟩ := by
  rw [loop, Act.bind_of_ok m h]

variable {s s' : Symmetric τ ω}

theorem symmetric_loop_of_some (h : Symmetric.step turn s = ⟨.ok (some result), s', log⟩) (turns : Nat) :
    Symmetric.loop turn (turns + 1) s = ⟨.ok (some result), s', log⟩ := by
  rw [Symmetric.loop]
  exact Act.bind_logged _ h rfl

theorem symmetric_loop_of_none (h : Symmetric.step turn s = ⟨.ok none, s', log⟩) (turns : Nat) :
    Symmetric.loop turn (turns + 1) s =
      ⟨(Symmetric.loop turn turns s').result, (Symmetric.loop turn turns s').state,
        log ++ (Symmetric.loop turn turns s').log⟩ := by
  rw [Symmetric.loop, Act.bind_of_ok s h]

end

theorem loop_view (turn : Turn ρ τ ω) (turns : Nat) (hm : Settled none m) :
    ∃ fuel, Symmetric.loop turn turns m.view = (loop turn fuel m).view := by
  induction turns generalizing m with
  | zero => exact ⟨0, rfl⟩
  | succ turns ih =>
    obtain ⟨root, i, wake, rest, h⟩ := hm.2 rfl
    obtain ⟨answer, m', log, hturn, hsettled, hsteps⟩ := turn_view turn hm.1 h
    cases answer with
    | some result =>
      rw [symmetric_loop_of_some hturn]
      rcases hsteps with hstep | ⟨between, hfirst, hsecond⟩
      · exact ⟨1, by rw [loop_of_some hstep]; rfl⟩
      · exact ⟨2, by rw [loop_of_none hfirst, loop_of_some hsecond, List.append_nil]; rfl⟩
    | none =>
      obtain ⟨fuel, hfuel⟩ := ih hsettled
      rw [symmetric_loop_of_none hturn, hfuel]
      rcases hsteps with hstep | ⟨between, hfirst, hsecond⟩
      · exact ⟨fuel + 1, by rw [loop_of_none hstep]; rfl⟩
      · exact ⟨fuel + 2, by rw [loop_of_none hfirst, loop_of_none hsecond]; rfl⟩

/-- Every number of steps is some number of turns, up to the search for a target. -/
theorem loop_back (turn : Turn ρ τ ω) (fuel : Nat) (hm : Settled none m) :
    ∃ turns, (Symmetric.loop turn turns m.view).log = (loop turn fuel m).log ∧
      ∀ result, (loop turn fuel m).result = .ok (some result) →
        Symmetric.loop turn turns m.view = (loop turn fuel m).view := by
  induction fuel using Nat.strongRecOn generalizing m with
  | ind fuel ih =>
    cases fuel with
    | zero => exact ⟨0, rfl, fun _ hresult => by cases hresult⟩
    | succ fuel =>
      obtain ⟨root, i, wake, rest, h⟩ := hm.2 rfl
      obtain ⟨answer, m', log, hturn, hsettled, hstep | ⟨between, hfirst, hsecond⟩⟩ := turn_view turn hm.1 h
      · cases answer with
        | some result =>
          refine ⟨1, ?_⟩
          rw [symmetric_loop_of_some hturn, loop_of_some hstep]
          exact ⟨rfl, fun _ _ => rfl⟩
        | none =>
          obtain ⟨turns, hlog, hview⟩ := ih fuel (Nat.lt_succ_self _) hsettled
          refine ⟨turns + 1, ?_⟩
          rw [symmetric_loop_of_none hturn, loop_of_none hstep, hlog]
          exact ⟨rfl, fun result hresult => by rw [hview result hresult]; rfl⟩
      · rw [loop_of_none hfirst]
        cases fuel with
        | zero =>
          -- The loop has still to look for the target, which logs nothing.
          refine ⟨1, ?_, fun _ hresult => by cases hresult⟩
          cases answer with
          | some result =>
            rw [symmetric_loop_of_some hturn]
            exact (List.append_nil log).symm
          | none =>
            rw [symmetric_loop_of_none hturn]
            rfl
        | succ fuel =>
          cases answer with
          | some result =>
            refine ⟨1, ?_⟩
            rw [symmetric_loop_of_some hturn, loop_of_some hsecond, List.append_nil]
            exact ⟨rfl, fun _ _ => rfl⟩
          | none =>
            obtain ⟨turns, hlog, hview⟩ := ih fuel (Nat.lt_succ_of_lt (Nat.lt_succ_self _)) hsettled
            refine ⟨turns + 1, ?_⟩
            rw [symmetric_loop_of_none hturn, loop_of_none hsecond, hlog]
            exact ⟨rfl, fun result hresult => by rw [hview result hresult]; rfl⟩

theorem view_launched (h : m.threads = []) (root : Nat) (target : Handle) (data : UInt64) :
    ({ m with threads := [⟨root, .seeking target ⟨.root root, data⟩⟩] } : Machine τ ω).view = m.view := by
  unfold view control?
  rw [h]
  rfl

theorem switch_is_symmetric (turn : Turn ρ τ ω) (world : ω) (deeds : List (Deed τ ω))
    (hrest : ((new world).run turn deeds).threads = []) (thread : Nat) (target : Handle) (data : UInt64) :
    let m := (new world).run turn deeds
    (∀ turns, ∃ fuel,
      Symmetric.switch turn turns thread target data m.view = (switch turn fuel thread target data m).view) ∧
    ∀ fuel, ∃ turns,
      (Symmetric.switch turn turns thread target data m.view).log =
        (switch turn fuel thread target data m).log ∧
      ∀ result, (switch turn fuel thread target data m).result = .ok (some result) →
        Symmetric.switch turn turns thread target data m.view =
          (switch turn fuel thread target data m).view := by
  intro m
  have hm : Marked m := (marked_new world).run deeds
  have hlaunched := hm.launched hrest thread target data
  obtain ⟨answer, m', hseek, htransfer, hsettled⟩ := seek_view turn hlaunched rfl
  rw [view_launched hrest] at htransfer
  have hswitch : ∀ fuel, switch turn fuel thread target data m =
      loop turn fuel { m with threads := [⟨thread, .seeking target ⟨.root thread, data⟩⟩] } := fun _ => rfl
  simp only [hswitch]
  -- Finding the target either is the whole switch or gives control to a context.
  cases answer with
  | some result =>
    have hdirect : ∀ turns, Symmetric.switch turn turns thread target data m.view =
        ⟨.ok (some result), m'.view, []⟩ := by
      intro turns
      unfold Symmetric.switch
      exact Act.bind_logged _ htransfer rfl
    simp only [hdirect]
    refine ⟨fun _ => ⟨1, by rw [loop_of_some hseek]; rfl⟩, fun fuel => ⟨0, ?_⟩⟩
    cases fuel with
    | zero => exact ⟨rfl, fun _ hresult => by cases hresult⟩
    | succ fuel =>
      rw [loop_of_some hseek]
      exact ⟨rfl, fun _ _ => rfl⟩
  | none =>
    have hdirect : ∀ turns, Symmetric.switch turn turns thread target data m.view =
        Symmetric.loop turn turns m'.view := by
      intro turns
      unfold Symmetric.switch
      exact Act.bind_quiet _ htransfer
    simp only [hdirect]
    constructor
    · intro turns
      obtain ⟨fuel, hfuel⟩ := loop_view turn turns hsettled
      exact ⟨fuel + 1, by rw [loop_of_none hseek, hfuel]; rfl⟩
    · intro fuel
      cases fuel with
      | zero => exact ⟨0, rfl, fun _ hresult => by cases hresult⟩
      | succ fuel =>
        rw [loop_of_none hseek]
        exact loop_back turn fuel hsettled

/-- Two contexts: the first one switches to the second, gets control back, switches to itself
and then to the root. -/
def relay : List (Deed Context.Actor Context.Cast) :=
  [.create (.new [.switch (.context 1) (.data 5), .switch .self (.data 6), .switch .home (.data 7)]),
    .create (.new [.switch .source (.data 8)]), .assign ⟨#[.context 0, .context 1]⟩]

theorem relay_comes_home :
    let m := (new ⟨#[]⟩).run Context.turn relay
    m.threads = [] ∧ ∃ fuel,
      (switch Context.turn fuel 0 (.context 0) 3 m).result = .ok (some (.ok ⟨.context 0, 7⟩)) ∧
      (switch Context.turn fuel 0 (.context 0) 3 m).log =
        [.report (.resumed 0 ⟨.root 0, 3⟩ 1), .report (.resumed 1 ⟨.context 0, 5⟩ 1),
          .report (.resumed 0 ⟨.context 1, 8⟩ 2), .report (.resumed 0 ⟨.context 0, 6⟩ 3)] := by
  obtain ⟨hturns, -⟩ := switch_is_symmetric Context.turn ⟨#[]⟩ relay rfl 0 (.context 0) 3
  obtain ⟨fuel, hfuel⟩ := hturns 4
  have hview : ((new ⟨#[]⟩).run Context.turn relay).view =
      ⟨#[some (.new [.switch (.context 1) (.data 5), .switch .self (.data 6), .switch .home (.data 7)]),
        some (.new [.switch .source (.data 8)])], none, [], ⟨#[.context 0, .context 1]⟩⟩ := by
    unfold view
    rw [show ((new ⟨#[]⟩ : Context.ScriptMachine).run Context.turn relay).records =
      #[⟨false, false, _⟩, ⟨false, false, _⟩] from rfl, List.map_toArray]
    rfl
  rw [hview] at hfuel
  refine ⟨rfl, fuel, ?_, ?_⟩
  · exact (congrArg Outcome.result hfuel).symm.trans rfl
  · exact (congrArg Outcome.log hfuel).symm.trans rfl

end Machine

end FiberScheduler
