import FiberScheduler.Context.Machine
import FiberScheduler.Proofs.Acts
import FiberScheduler.Proofs.Gather

/-!
# Switching

What the running flags of a machine of contexts mean, and what one step of it can do.
-/

namespace FiberScheduler

variable {ρ τ ω : Type}

/-- The context that a thread resumes, also while that joins another thread. -/
def Thread.resumes? (thread : Thread) : Option Nat :=
  match thread.phase with
  | .seeking _ _ => none
  | .inside context _ => some context
  | .joining context => some context

def Stacked : List Thread → Prop
  | [] => True
  | thread :: rest => (∀ context, thread.phase ≠ .joining context) ∧
    ∀ outer ∈ rest, ∃ context, outer.phase = .joining context

theorem outer_cases {rest : List Thread}
    (houter : ∀ outer ∈ rest, ∃ context, outer.phase = .joining context) :
    rest = [] ∨ ∃ root i inner, rest = ⟨root, .joining i⟩ :: inner ∧
      ∀ outer ∈ inner, ∃ context, outer.phase = .joining context := by
  cases rest with
  | nil => exact .inl rfl
  | cons outer inner =>
    obtain ⟨root, phase⟩ := outer
    obtain ⟨i, rfl⟩ : ∃ i, phase = .joining i := houter _ List.mem_cons_self
    exact .inr ⟨root, i, inner, rfl, fun outer hmem => houter outer (List.mem_cons_of_mem _ hmem)⟩

def running (threads : List Thread) (k : Nat) : Handle :=
  match threads with
  | [] => .invalid
  | thread :: rest => if k = thread.root then (thread.resumes?.map .context).getD .invalid else running rest k

def woken (result : Except Fault Transfer) : List Thread → List Thread
  | ⟨root, .joining context⟩ :: rest => ⟨root, .inside context (.joined result)⟩ :: rest
  | _ => []

def answer? (result : Except Fault Transfer) (rest : List Thread) : Option (Except Fault Transfer) :=
  if rest.isEmpty then some result else none

namespace Machine

variable {turn : Turn ρ τ ω} {m : Machine τ ω} {root i : Nat} {wake : Wake} {target : Handle}
  {transfer : Transfer} {rest : List Thread} {body : τ} {result : Except Fault Transfer}

/-! ## What the flags say -/

def marked (m : Machine τ ω) (index : Nat) : Bool :=
  (m.records[index]?).any (·.running)

def resumed (m : Machine τ ω) : List Nat :=
  m.threads.filterMap Thread.resumes?

def alive? (m : Machine τ ω) (index : Nat) : Option τ :=
  (m.records[index]?).bind fun r => if r.ended then none else some r.body

structure Marked (m : Machine τ ω) : Prop where
  marked_iff : ∀ i, m.marked i = true ↔ i ∈ m.resumed
  nodup : m.resumed.Nodup
  alive : ∀ i ∈ m.resumed, ∃ body, m.alive? i = some body
  stacked : Stacked m.threads
  descending : (m.threads.map (·.root)).Pairwise (· > ·)
  locals : ∀ k, m.locals k = ⟨true, running m.threads k⟩

theorem record_of_alive (halive : m.alive? i = some body) :
    m.records[i]? = some ⟨m.marked i, false, body⟩ := by
  unfold alive? at halive
  unfold marked
  cases hrecord : m.records[i]? with
  | none => simp [hrecord] at halive
  | some record =>
    obtain ⟨flag, ended, body'⟩ := record
    rw [hrecord] at halive
    cases ended with
    | true => cases halive
    | false => rw [show body' = body from Option.some.inj halive, Option.any_some]

def refusal? (m : Machine τ ω) (root : Nat) : Handle → Option Fault
  | .invalid => some .invalidTarget
  | .root thread => if thread = root then none else some .alreadyRunning
  | .context index =>
    match m.records[index]? with
    | none => some .invalidTarget
    | some record =>
      if record.running then some .alreadyRunning else if record.ended then some .alreadyEnded else none

/-! ## One step -/

def finished (m : Machine τ ω) (result : Except Fault Transfer) (rest : List Thread) : Machine τ ω :=
  { m with threads := woken result rest }

def entered (m : Machine τ ω) (root i : Nat) (transfer : Transfer) (rest : List Thread) (body : τ) :
    Machine τ ω :=
  { m with
    records := m.records.setIfInBounds i ⟨true, false, body⟩
    threads := ⟨root, .inside i (.switched transfer)⟩ :: rest
    locals := (m.modifyLocals root fun l => { l with running := .context i }).locals }

def released (m : Machine τ ω) (root i : Nat) (ended : Bool) (phase : Phase) (rest : List Thread) (body : τ)
    (world : ω) : Machine τ ω where
  records := m.records.setIfInBounds i ⟨false, ended, body⟩
  threads := ⟨root, phase⟩ :: rest
  locals := (m.modifyLocals root fun l => { l with running := .invalid }).locals
  world

def started (m : Machine τ ω) (root i : Nat) (target : Handle) (data : UInt64) (rest : List Thread) (body : τ)
    (world : ω) : Machine τ ω where
  records := m.records.setIfInBounds i ⟨true, false, body⟩
  threads := ⟨root + 1, .seeking target ⟨.root (root + 1), data⟩⟩ :: ⟨root, .joining i⟩ :: rest
  locals := (m.modifyLocals (root + 1) fun _ => .new).locals
  world

inductive Stepped (turn : Turn ρ τ ω) (m : Machine τ ω) :
    Option (Except Fault Transfer) → Machine τ ω → List (Entry ρ) → Prop
  | rested (h : m.threads = []) : Stepped turn m none m []
  | returned {root : Nat} {transfer : Transfer} {rest : List Thread}
      (h : m.threads = ⟨root, .seeking (.root root) transfer⟩ :: rest) :
      Stepped turn m (answer? (.ok transfer) rest) (m.finished (.ok transfer) rest) []
  | refused {root : Nat} {target : Handle} {transfer : Transfer} {rest : List Thread} {fault : Fault}
      (h : m.threads = ⟨root, .seeking target transfer⟩ :: rest)
      (hwhy : m.refusal? root target = some fault) :
      Stepped turn m (answer? (.error fault) rest) (m.finished (.error fault) rest) []
  | entered {root i : Nat} {transfer : Transfer} {rest : List Thread} {body : τ}
      (h : m.threads = ⟨root, .seeking (.context i) transfer⟩ :: rest)
      (hrecord : m.records[i]? = some ⟨false, false, body⟩) :
      Stepped turn m none (m.entered root i transfer rest body) []
  | switched {root i : Nat} {wake : Wake} {rest : List Thread} {body body' : τ} {target : Handle}
      {data : UInt64} {world : ω} {log : List (Entry ρ)} (h : m.threads = ⟨root, .inside i wake⟩ :: rest)
      (hrecord : m.records[i]? = some ⟨true, false, body⟩)
      (hplayed : turn ⟨i, root⟩ wake (body, m.world) = ⟨.ok (.switch target data), (body', world), log⟩) :
      Stepped turn m none (m.released root i false (.seeking target ⟨.context i, data⟩) rest body' world) log
  | started {root i : Nat} {wake : Wake} {rest : List Thread} {body body' : τ} {target : Handle}
      {data : UInt64} {world : ω} {log : List (Entry ρ)} (h : m.threads = ⟨root, .inside i wake⟩ :: rest)
      (hrecord : m.records[i]? = some ⟨true, false, body⟩)
      (hplayed : turn ⟨i, root⟩ wake (body, m.world) = ⟨.ok (.thread target data), (body', world), log⟩) :
      Stepped turn m none (m.started root i target data rest body' world) log
  | ended {root i : Nat} {wake : Wake} {rest : List Thread} {body body' : τ} {move : Except Fault Move}
      {fault : Fault} {world : ω} {log : List (Entry ρ)} (h : m.threads = ⟨root, .inside i wake⟩ :: rest)
      (hrecord : m.records[i]? = some ⟨true, false, body⟩)
      (hplayed : turn ⟨i, root⟩ wake (body, m.world) = ⟨move, (body', world), log⟩)
      (hend : move = .ok .leave ∧ fault = .callbackReturned ∨ move = .error fault) :
      Stepped turn m (answer? (.error fault) rest)
        ((m.released root i true (.seeking .invalid ⟨.context i, 0⟩) rest body' world).finished
          (.error fault) rest) log

theorem finish_eq {phase : Phase} (hstacked : Stacked (⟨root, phase⟩ :: rest))
    (h : m.threads = ⟨root, phase⟩ :: rest) (result : Except Fault Transfer) :
    (finish result : Act ρ (Machine τ ω) _) m = ⟨.ok (answer? result rest), m.finished result rest, []⟩ := by
  unfold finish
  rw [Act.get_bind, h]
  rcases outer_cases hstacked.2 with rfl | ⟨outer, i, inner, rfl, -⟩ <;> rfl

/-! ### Marks -/

theorem flag?_context {record : ContextRecord τ} (hrecord : m.records[i]? = some record) :
    m.flag? (.context i) = some record.running := by
  rw [flag?, hrecord]
  rfl

theorem modifyLocals_self {thread : Nat} {f : Locals → Locals} (h : f (m.locals thread) = m.locals thread) :
    m.modifyLocals thread f = m := by
  have hlocals : (fun k => if k = thread then f (m.locals k) else m.locals k) = m.locals := by
    funext k
    by_cases hk : k = thread
    · rw [if_pos hk, hk, h]
    · rw [if_neg hk]
  unfold modifyLocals
  rw [hlocals]

theorem setFlag_self {handle : Handle} {flag : Bool} (h : m.flag? handle = some flag) :
    m.setFlag flag handle = m := by
  cases handle with
  | invalid => rfl
  | root thread =>
    have hflag : (m.locals thread).rootRunning = flag := Option.some.inj h
    show m.modifyLocals thread (fun l => { l with rootRunning := flag }) = m
    apply modifyLocals_self
    rw [← hflag]
  | context i =>
    obtain ⟨record, hrecord, rfl⟩ := Option.map_eq_some_iff.mp h
    show { m with records := m.records.modify i _ } = m
    rw [modify_eq_set _ hrecord, set_self hrecord]

theorem modifyLocals_modifyLocals (m : Machine τ ω) (thread : Nat) (f g : Locals → Locals) :
    (m.modifyLocals thread f).modifyLocals thread g = m.modifyLocals thread fun l => g (f l) := by
  unfold modifyLocals
  dsimp only
  congr 1
  funext k
  by_cases hk : k = thread <;> simp [hk]

theorem setFlag_setFlag (m : Machine τ ω) (i : Nat) (earlier later : Bool) :
    (m.setFlag earlier (.context i)).setFlag later (.context i) = m.setFlag later (.context i) := by
  unfold setFlag
  dsimp only
  congr 1
  apply Array.ext_getElem?
  intro j
  rw [Array.getElem?_modify, Array.getElem?_modify, Array.getElem?_modify]
  by_cases hij : i = j
  · cases m.records[j]? <;> simp [hij]
  · simp [hij]

section
variable {thread : Nat} {handle : Handle}

theorem enter_none (h : m.flag? handle = none) :
    (enter thread handle : Act ρ (Machine τ ω) Unit).attempt m = ⟨.ok (.error .invalidTarget), m, []⟩ := by
  unfold enter Act.attempt
  rw [Act.get_bind, h]
  rfl

theorem enter_marked (h : m.flag? handle = some true) :
    (enter thread handle : Act ρ (Machine τ ω) Unit).attempt m = ⟨.ok (.error .alreadyRunning), m, []⟩ := by
  unfold enter Act.attempt
  rw [Act.get_bind, h]
  dsimp only
  rw [Act.modify_bind, setFlag_self h]
  rfl

theorem enter_free (h : m.flag? handle = some false) :
    (enter thread handle : Act ρ (Machine τ ω) Unit).attempt m =
      ⟨.ok (.ok ()), (m.setFlag true handle).modifyLocals thread fun l => { l with running := handle },
        []⟩ := by
  unfold enter Act.attempt
  rw [Act.get_bind, h]
  rfl

end

/-! ### The loop looks for its target -/

theorem visit_failed {fault : Fault}
    (h : (enter root target : Act ρ (Machine τ ω) Unit).attempt m = ⟨.ok (.error fault), m, []⟩) :
    (visit root target transfer : Act ρ (Machine τ ω) _) m = finish (.error fault) m := by
  unfold visit
  rw [Act.bind_quiet _ h]

theorem leave_apply (root : Nat) (target : Handle) (m : Machine τ ω) :
    (leave root target : Act ρ (Machine τ ω) Unit) m =
    ⟨.ok (), (m.modifyLocals root fun l => { l with running := .invalid }).setFlag false target, []⟩ := rfl

theorem setPhase_apply {phase : Phase} (h : m.threads = ⟨root, phase⟩ :: rest) (next : Phase) :
    (setPhase next : Act ρ (Machine τ ω) Unit) m =
      ⟨.ok (), { m with threads := ⟨root, next⟩ :: rest }, []⟩ := by
  unfold setPhase Act.modify
  dsimp only
  rw [h]

def claimed (m : Machine τ ω) (root i : Nat) : Machine τ ω :=
  (m.setFlag true (.context i)).modifyLocals root fun l => { l with running := .context i }

theorem leave_claimed (hrunning : (m.locals root).running = .invalid)
    (hflag : m.flag? (.context i) = some false) :
    (leave root (.context i) : Act ρ (Machine τ ω) Unit) (m.claimed root i) = ⟨.ok (), m, []⟩ := by
  have hback := calc
    ((m.claimed root i).modifyLocals root fun l => { l with running := .invalid }).setFlag false (.context i)
    _ = (((m.modifyLocals root fun l => { l with running := .context i }).modifyLocals root fun l =>
          { l with running := .invalid }).setFlag true (.context i)).setFlag false (.context i) := rfl
    _ = m := by
      rw [setFlag_setFlag, modifyLocals_modifyLocals, modifyLocals_self, setFlag_self hflag]
      rw [← hrunning]
  rw [leave_apply, hback]

theorem visit_ended (hrunning : (m.locals root).running = .invalid)
    (hrecord : m.records[i]? = some ⟨false, true, body⟩) :
    (visit root (.context i) transfer : Act ρ (Machine τ ω) _) m = finish (.error .alreadyEnded) m := by
  have hflag : m.flag? (.context i) = some false := flag?_context hrecord
  have hended : (m.claimed root i).resumable? (.context i) = .error .alreadyEnded := by
    simp [resumable?, claimed, modifyLocals, setFlag, Array.getElem?_modify, hrecord]
  unfold visit
  rw [Act.bind_quiet _ (enter_free hflag)]
  dsimp only
  -- The mark is set before it turns out that the callback has ended, and taken off again.
  rw [Act.get_bind, ← claimed, hended]
  exact Act.bind_quiet _ (leave_claimed hrunning hflag)

theorem visit_free (hrecord : m.records[i]? = some ⟨false, false, body⟩)
    (h : m.threads = ⟨root, .seeking (.context i) transfer⟩ :: rest) :
    (visit root (.context i) transfer : Act ρ (Machine τ ω) _) m =
      ⟨.ok none, m.entered root i transfer rest body, []⟩ := by
  have hflag : m.flag? (.context i) = some false := flag?_context hrecord
  have hfree : (m.claimed root i).resumable? (.context i) = .ok i := by
    simp [resumable?, claimed, modifyLocals, setFlag, Array.getElem?_modify, hrecord]
  unfold visit
  rw [Act.bind_quiet _ (enter_free hflag)]
  dsimp only
  rw [Act.get_bind, ← claimed, hfree]
  have hthreads : (m.claimed root i).threads = ⟨root, .seeking (.context i) transfer⟩ :: rest := h
  show (setPhase (.inside i (.switched transfer)) >>= fun _ => pure none) (m.claimed root i) = _
  rw [Act.bind_quiet _ (setPhase_apply hthreads _), entered,
    ← modify_eq_set (fun r => { r with running := true }) hrecord]
  rfl

theorem seek_home (root : Nat) (transfer : Transfer) :
    (seek root (.root root) transfer : Act ρ (Machine τ ω) _) = finish (.ok transfer) :=
  if_pos rfl

theorem seek_refused {fault : Fault} (hm : Marked m)
    (hthreads : m.threads = ⟨root, .seeking target transfer⟩ :: rest)
    (hwhy : m.refusal? root target = some fault) :
    (seek root target transfer : Act ρ (Machine τ ω) _) m = finish (.error fault) m := by
  have hrunning : (m.locals root).running = .invalid := by
    rw [hm.locals, hthreads, running]
    simp [Thread.resumes?]
  cases target with
  | invalid =>
    obtain rfl : Fault.invalidTarget = fault := Option.some.inj hwhy
    rfl
  | root thread =>
    have hroot : thread ≠ root := fun heq => by simp [refusal?, heq] at hwhy
    obtain rfl : Fault.alreadyRunning = fault := by simpa [refusal?, hroot] using hwhy
    have hflag : m.flag? (.root thread) = some true := by rw [flag?, hm.locals]
    have hseek :
        (seek root (.root thread) transfer : Act ρ (Machine τ ω) _) = visit root (.root thread) transfer :=
      if_neg (by simpa using hroot)
    rw [hseek, visit_failed (enter_marked hflag)]
  | context i =>
    show (visit root (.context i) transfer : Act ρ (Machine τ ω) _) m = _
    cases hrecord : m.records[i]? with
    | none =>
      obtain rfl : Fault.invalidTarget = fault := by simpa [refusal?, hrecord] using hwhy
      exact visit_failed (enter_none (by rw [flag?, hrecord]; rfl))
    | some record =>
      obtain ⟨flag, ended, body⟩ := record
      cases flag with
      | true =>
        obtain rfl : Fault.alreadyRunning = fault := by simpa [refusal?, hrecord] using hwhy
        exact visit_failed (enter_marked (flag?_context hrecord))
      | false =>
        cases ended with
        | false => simp [refusal?, hrecord] at hwhy
        | true =>
          obtain rfl : Fault.alreadyEnded = fault := by simpa [refusal?, hrecord] using hwhy
          exact visit_ended hrunning hrecord

/-! ### A context has its turn -/

def played (m : Machine τ ω) (i : Nat) (ended : Bool) (body : τ) (world : ω) : Machine τ ω :=
  { m with records := m.records.setIfInBounds i ⟨true, ended, body⟩, world }

theorem getElem?_played {record : ContextRecord τ} {ended : Bool} {world : ω}
    (hrecord : m.records[i]? = some record) :
    (m.played i ended body world).records[i]? = some ⟨true, ended, body⟩ := by
  rw [played, getElem?_set _ hrecord, if_pos rfl]

theorem modify_played {record : ContextRecord τ}
    (hrecord : m.records[i]? = some record) (ended : Bool) (body : τ) (world : ω)
    (f : ContextRecord τ → ContextRecord τ) :
    (m.played i ended body world).records.modify i f = m.records.setIfInBounds i (f ⟨true, ended, body⟩) := by
  rw [modify_eq_set f (getElem?_played hrecord)]
  exact Array.setIfInBounds_setIfInBounds _

theorem leave_played {record : ContextRecord τ} {ended : Bool} {world : ω}
    (hrecord : m.records[i]? = some record) :
    (leave root (.context i) : Act ρ (Machine τ ω) Unit) (m.played i ended body world) =
      ⟨.ok (), ⟨m.records.setIfInBounds i ⟨false, ended, body⟩, m.threads,
        (m.modifyLocals root fun l => { l with running := .invalid }).locals, world⟩, []⟩ := by
  have hrecords := modify_played hrecord ended body world fun r => { r with running := false }
  rw [leave_apply]
  show (⟨.ok (), ⟨(m.played i ended body world).records.modify i _, m.threads, _, world⟩, []⟩ :
    Outcome ρ (Machine τ ω) Unit) = _
  rw [hrecords]
  rfl

section
variable {move : Except Fault Move} {body' : τ} {world : ω} {log : List (Entry ρ)}

theorem play_apply (hrecord : m.records[i]? = some ⟨true, false, body⟩)
    (hplayed : turn ⟨i, root⟩ wake (body, m.world) = ⟨move, (body', world), log⟩) :
    play turn ⟨i, root⟩ wake body m = ⟨.ok move, m.played i false body' world, log⟩ := by
  unfold play Act.attempt Act.zoom
  dsimp only
  rw [hplayed]
  dsimp only
  rw [modify_eq_set _ hrecord]
  rfl

theorem conclude_played (hstacked : Stacked (⟨root, .inside i wake⟩ :: rest))
    (h : m.threads = ⟨root, .inside i wake⟩ :: rest)
    (hrecord : m.records[i]? = some ⟨true, false, body⟩) (fault : Fault) :
    (conclude root i fault : Act ρ (Machine τ ω) _) (m.played i false body' world) =
      ⟨.ok (answer? (.error fault) rest),
        (m.released root i true (.seeking .invalid ⟨.context i, 0⟩) rest body' world).finished (.error fault)
          rest, []⟩ := by
  have hmodify : (modifyRecord i (fun r => { r with ended := true }) : Act ρ (Machine τ ω) Unit)
    (m.played i false body' world) =
      ⟨.ok (), m.played i true body' world, []⟩ := by
    show (⟨.ok (), { m with records := (m.played i false body' world).records.modify i _, world }, []⟩ :
      Outcome ρ (Machine τ ω) Unit) = _
    rw [modify_played hrecord]
    rfl
  unfold conclude
  rw [Act.bind_quiet _ hmodify, Act.bind_quiet _ (leave_played hrecord)]
  exact finish_eq (m := ⟨_, m.threads, _, world⟩) hstacked h (.error fault)

theorem follow_switch (h : m.threads = ⟨root, .inside i wake⟩ :: rest)
    (hrecord : m.records[i]? = some ⟨true, false, body⟩) (target : Handle) (data : UInt64) :
    (follow root i (.ok (.switch target data)) : Act ρ (Machine τ ω) _) (m.played i false body' world) =
      ⟨.ok none, m.released root i false (.seeking target ⟨.context i, data⟩) rest body' world, []⟩ := by
  rw [follow, Act.bind_quiet _ (leave_played hrecord),
    Act.bind_quiet _ (setPhase_apply (m := ⟨_, m.threads, _, world⟩) h _)]
  rfl

theorem follow_thread (h : m.threads = ⟨root, .inside i wake⟩ :: rest) (target : Handle) (data : UInt64) :
    (follow root i (.ok (.thread target data)) : Act ρ (Machine τ ω) _) (m.played i false body' world) =
      ⟨.ok none, m.started root i target data rest body' world, []⟩ := by
  have hthreads : (m.played i false body' world).threads = ⟨root, .inside i wake⟩ :: rest := h
  rw [follow, Act.bind_quiet _ (setPhase_apply hthreads _)]
  rfl

theorem takeTurn_cases (hstacked : Stacked (⟨root, .inside i wake⟩ :: rest))
    (h : m.threads = ⟨root, .inside i wake⟩ :: rest) (hrecord : m.records[i]? = some ⟨true, false, body⟩) :
    ∃ answer m' log, takeTurn turn root i wake m = ⟨.ok answer, m', log⟩ ∧ Stepped turn m answer m' log := by
  cases hplayed : turn ⟨i, root⟩ wake (body, m.world) with | mk move state log =>
  obtain ⟨body', world⟩ := state
  unfold takeTurn
  rw [Act.get_bind, hrecord]
  have hplay := play_apply hrecord hplayed
  cases move with
  | error fault =>
    exact ⟨_, _, _, Act.bind_logged _ hplay (conclude_played hstacked h hrecord fault),
      .ended h hrecord hplayed (.inr rfl)⟩
  | ok move =>
    cases move with
    | switch target data => exact ⟨_, _, _, Act.bind_logged _ hplay (follow_switch h hrecord target data),
      .switched h hrecord hplayed⟩
    | thread target data => exact ⟨_, _, _, Act.bind_logged _ hplay (follow_thread h target data),
      .started h hrecord hplayed⟩
    | leave =>
      exact ⟨_, _, _, Act.bind_logged _ hplay (conclude_played hstacked h hrecord .callbackReturned),
        .ended h hrecord hplayed (.inl ⟨rfl, rfl⟩)⟩

end

theorem step_cases (turn : Turn ρ τ ω) (hm : Marked m) :
    ∃ answer m' log, step turn m = ⟨.ok answer, m', log⟩ ∧ Stepped turn m answer m' log := by
  unfold step
  rw [Act.get_bind]
  cases hthreads : m.threads with
  | nil => exact ⟨none, m, [], rfl, .rested hthreads⟩
  | cons thread rest =>
    obtain ⟨root, phase⟩ := thread
    have hstacked : Stacked (⟨root, phase⟩ :: rest) := hthreads ▸ hm.stacked
    cases phase with
    | joining context => exact absurd rfl (hstacked.1 context)
    | seeking target transfer =>
      show ∃ answer m' log, seek root target transfer m = _ ∧ _
      cases hwhy : m.refusal? root target with
      | some fault =>
        rw [seek_refused hm hthreads hwhy, finish_eq hstacked hthreads]
        exact ⟨_, _, _, rfl, .refused hthreads hwhy⟩
      | none =>
        cases target with
        | invalid => cases hwhy
        | root thread =>
          obtain rfl : thread = root := by simpa [refusal?] using hwhy
          rw [seek_home, finish_eq hstacked hthreads]
          exact ⟨_, _, _, rfl, .returned hthreads⟩
        | context i =>
          obtain ⟨body, hrecord⟩ : ∃ body, m.records[i]? = some ⟨false, false, body⟩ := by
            cases hrecord : m.records[i]? with
            | none => simp [refusal?, hrecord] at hwhy
            | some record =>
              obtain ⟨flag, ended, body⟩ := record
              cases flag <;> cases ended <;> simp [refusal?, hrecord] at hwhy ⊢
          exact ⟨_, _, _, visit_free hrecord hthreads, .entered hthreads hrecord⟩
    | inside i wake =>
      have hmem : i ∈ m.resumed := by rw [resumed, hthreads]; exact List.mem_cons_self
      obtain ⟨body, halive⟩ := hm.alive i hmem
      have hrecord := record_of_alive halive
      rw [(hm.marked_iff i).mpr hmem] at hrecord
      exact takeTurn_cases hstacked hthreads hrecord

end Machine

end FiberScheduler
