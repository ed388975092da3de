import FiberScheduler.Context.Script
import FiberScheduler.Proofs.Marks

/-!
# Recovery

However the switch of a thread ends, its marks are gone with it, and a callback that has
neither returned nor panicked waits where it was: the next switch to its context reaches
it there. What a callback did is read off the history, not off the machine.
-/

namespace FiberScheduler

variable {ρ τ ω : Type}

inductive Occurrence (τ : Type) where
  | created (context : Nat) (body : τ)
  | destroyed (context : Nat)
  /-- It got control with this wake and in this state, and made a move that left it in another. -/
  | turn (site : Site) (wake : Wake) (body : τ) (move : Except Fault Move) (after : τ)

namespace Occurrence

def context : Occurrence τ → Nat
  | .created i _ => i
  | .destroyed i => i
  | .turn site .. => site.self

def leaves : Occurrence τ → Option τ
  | .created _ body => some body
  | .destroyed _ => none
  | .turn _ _ _ move after =>
    match move with
    | .ok (.switch _ _) => some after
    | .ok (.thread _ _) => some after
    | .ok .leave => none
    | .error _ => none

end Occurrence

/-- The state in which the callback of a context waits, as the history tells it; none if
it has returned or panicked, or the context was destroyed. -/
def pending (history : List (Occurrence τ)) (i : Nat) : Option τ :=
  history.foldl (fun was o => if o.context = i then o.leaves else was) none

theorem pending_append_of_ne (history since : List (Occurrence τ)) {i : Nat}
    (h : ∀ o ∈ since, o.context ≠ i) :
    pending (history ++ since) i = pending history i := by
  unfold pending
  rw [List.foldl_append]
  generalize List.foldl _ none history = was
  induction since with
  | nil => rfl
  | cons o since ih =>
    rw [List.foldl_cons, if_neg (h o List.mem_cons_self)]
    exact ih fun o ho => h o (List.mem_cons_of_mem _ ho)

theorem pending_snoc (history : List (Occurrence τ)) (o : Occurrence τ) (i : Nat) :
    pending (history ++ [o]) i = if o.context = i then o.leaves else pending history i := by
  unfold pending
  rw [List.foldl_append, List.foldl_cons, List.foldl_nil]

def Machine.occurrence? (turn : Turn ρ τ ω) (m : Machine τ ω) : Deed τ ω → Option (Occurrence τ)
  | .create body => some (.created m.records.size body)
  | .destroy (.context i) => if m.marked i then none else some (.destroyed i)
  | .step =>
    match m.threads with
    | ⟨root, .inside i wake⟩ :: _ =>
      (m.records[i]?).map fun r =>
        let played := turn ⟨i, root⟩ wake (r.body, m.world)
        .turn ⟨i, root⟩ wake r.body played.result played.state.1
    | _ => none
  | _ => none

structure Chronicle (τ ω : Type) where
  machine : Machine τ ω
  history : List (Occurrence τ)

namespace Chronicle

def new (world : ω) : Chronicle τ ω :=
  ⟨.new world, []⟩

def act (turn : Turn ρ τ ω) (c : Chronicle τ ω) (d : Deed τ ω) : Chronicle τ ω :=
  ⟨c.machine.act turn d, c.history ++ (c.machine.occurrence? turn d).toList⟩

def run (turn : Turn ρ τ ω) (c : Chronicle τ ω) (deeds : List (Deed τ ω)) : Chronicle τ ω :=
  deeds.foldl (act turn) c

end Chronicle

namespace Machine

variable {turn : Turn ρ τ ω} {m m' : Machine τ ω} {root i : Nat} {wake : Wake} {target : Handle}
  {transfer : Transfer} {rest : List Thread} {body : τ} {result : Except Fault Transfer}

/-! ## The history and the machine agree -/

def Tells (m : Machine τ ω) (o : Option (Occurrence τ)) (m' : Machine τ ω) : Prop :=
  ∀ i, m'.alive? i = match o with
    | some o => if o.context = i then o.leaves else m.alive? i
    | none => m.alive? i

theorem alive?_create (m : Machine τ ω) (body : τ) (i : Nat) :
    alive? { m with records := m.records.push ⟨false, false, body⟩ } i =
      if m.records.size = i then some body else m.alive? i := by
  unfold alive?
  dsimp only
  rw [Array.getElem?_push]
  by_cases hi : i = m.records.size
  · simp [hi]
  · rw [if_neg hi, if_neg (Ne.symm hi)]

theorem occurrence?_inside (h : m.threads = ⟨root, .inside i wake⟩ :: rest)
    (hrecord : m.records[i]? = some ⟨true, false, body⟩) {move : Except Fault Move} {body' : τ} {world : ω}
    {log : List (Entry ρ)} (hplayed : turn ⟨i, root⟩ wake (body, m.world) = ⟨move, (body', world), log⟩) :
    m.occurrence? turn .step = some (.turn ⟨i, root⟩ wake body move body') := by
  simp only [occurrence?, h, hrecord, Option.map_some, hplayed]

theorem occurrence?_seeking (h : m.threads = ⟨root, .seeking target transfer⟩ :: rest) :
    m.occurrence? turn .step = none := by
  simp only [occurrence?, h]

theorem Stepped.tells {answer : Option (Except Fault Transfer)} {log : List (Entry ρ)}
    (hs : Stepped turn m answer m' log) :
    m.Tells (m.occurrence? turn .step) m' := by
  intro j
  cases hs with
  | rested h => simp only [occurrence?, h]
  | returned h =>
    rw [occurrence?_seeking h]
    rfl
  | refused h =>
    rw [occurrence?_seeking h]
    rfl
  | @entered root i transfer rest body h hrecord =>
    rw [occurrence?_seeking h, alive?_set (m.entered root i transfer rest body) hrecord rfl]
    by_cases hij : i = j
    · rw [if_pos hij, ← hij, alive?, hrecord]
      rfl
    · rw [if_neg hij]
  | switched h hrecord hplayed =>
    rw [occurrence?_inside h hrecord hplayed]
    refine (alive?_set _ hrecord rfl j).trans ?_
    rfl
  | started h hrecord hplayed =>
    rw [occurrence?_inside h hrecord hplayed]
    refine (alive?_set _ hrecord rfl j).trans ?_
    rfl
  | ended h hrecord hplayed hend =>
    rw [occurrence?_inside h hrecord hplayed]
    refine (alive?_set _ hrecord rfl j).trans ?_
    rcases hend with ⟨rfl, -⟩ | rfl <;> rfl

theorem act_tells (hm : Marked m) (d : Deed τ ω) : m.Tells (m.occurrence? turn d) (m.act turn d) := by
  cases d with
  | create body => exact m.alive?_create body
  | destroy handle =>
    intro j
    rcases act_destroy turn m handle with ⟨heq, hwhy⟩ | ⟨i, record, rfl, hrecord, hfree, heq⟩
    · rw [heq]
      cases handle with
      | invalid => rfl
      | root thread => rfl
      | context i =>
        by_cases hmarked : m.marked i = true
        · simp [occurrence?, hmarked]
        · have hnone : m.alive? i = none := by rw [alive?, (hwhy i rfl).resolve_left hmarked]; rfl
          by_cases hij : i = j
          · simp [occurrence?, hmarked, Occurrence.context, Occurrence.leaves, ← hij, hnone]
          · simp [occurrence?, hmarked, Occurrence.context, hij]
    · have hmarked : ¬m.marked i = true := by simp [marked, hrecord, hfree]
      rw [heq, occurrence?, if_neg hmarked]
      refine (alive?_set _ hrecord rfl j).trans ?_
      rfl
  | assign world => exact fun _ => rfl
  | launch root target data =>
    intro i
    show alive? (if _ then _ else _) i = m.alive? i
    split <;> rfl
  | step =>
    obtain ⟨answer, log, hs⟩ := act_step turn hm
    exact hs.tells

/-! ## A switch is under way -/

/-- Whether a thread is among the threads, with these behind it. -/
def Under (root : Nat) (rest : List Thread) (m : Machine τ ω) : Prop :=
  ∃ phase, (⟨root, phase⟩ :: rest) <:+ m.threads

def Left (rest : List Thread) (m : Machine τ ω) : Prop :=
  m.threads.map (·.root) = rest.map (·.root) ∧ m.resumed = rest.filterMap Thread.resumes?

theorem Under.length_lt (hu : Under root rest m) : rest.length < m.threads.length := by
  obtain ⟨phase, hsuffix⟩ := hu
  exact hsuffix.length_le

theorem Under.outer (hu : Under root rest m) (hm : Marked m) :
    ∀ outer ∈ rest, ∃ context, outer.phase = .joining context := by
  obtain ⟨phase, above, hthreads⟩ := hu
  have hstacked := hm.stacked
  rw [← hthreads] at hstacked
  cases above with
  | nil => exact hstacked.2
  | cons thread above =>
    intro outer hmem
    exact hstacked.2 outer (List.mem_append_right _ (List.mem_cons_of_mem _ hmem))

theorem Under.not_mem (hu : Under root rest m) (hm : Marked m) : root ∉ rest.map (·.root) := by
  obtain ⟨phase, hsuffix⟩ := hu
  have hroots : (root :: rest.map (·.root)) <:+ m.threads.map (·.root) :=
    List.IsSuffix.map Thread.root hsuffix
  have hdescending := hm.descending.sublist hroots.sublist
  exact fun hmem => Nat.lt_irrefl _ ((List.pairwise_cons.mp hdescending).1 root hmem)

theorem Under.rephase {k : Nat} {phase next : Phase} {inner : List Thread} (hu : Under root rest m)
    (h : m.threads = ⟨k, phase⟩ :: inner) (hnext : m'.threads = ⟨k, next⟩ :: inner) : Under root rest m' := by
  obtain ⟨phase, hsuffix⟩ := hu
  rw [h, List.suffix_cons_iff] at hsuffix
  rcases hsuffix with heq | hsuffix
  · obtain ⟨⟨rfl, -⟩, rfl⟩ : (root = k ∧ _) ∧ rest = inner := by simpa using heq
    exact ⟨next, [], hnext.symm⟩
  · exact ⟨phase, hnext ▸ hsuffix.trans (List.suffix_cons _ _)⟩

/-- The innermost thread ends: the one in question, or another one in front of it. -/
theorem Under.finished {k : Nat} {phase : Phase} {inner : List Thread} (hu : Under root rest m)
    (hm : Marked m) (h : m.threads = ⟨k, phase⟩ :: inner) (hnext : m'.threads = woken result inner) :
    Under root rest m' ∨ Left rest m' := by
  have houter := hu.outer hm
  have hinner := (h ▸ hm.stacked : Stacked (_ :: inner)).2
  obtain ⟨phase, hsuffix⟩ := hu
  rw [h, List.suffix_cons_iff] at hsuffix
  rcases hsuffix with heq | hsuffix
  · obtain ⟨-, rfl⟩ : _ ∧ rest = inner := by simpa using heq
    right
    rw [Left, resumed, hnext]
    exact ⟨roots_woken houter, resumes_woken houter⟩
  · left
    have hu' : Under root rest { m with threads := inner } := ⟨phase, hsuffix⟩
    rcases outer_cases hinner with rfl | ⟨k', context, inner, rfl, -⟩
    · exact absurd (List.suffix_nil.mp hsuffix) (by simp)
    · exact hu'.rephase (m := { m with threads := _ }) rfl hnext

theorem Under.step {answer : Option (Except Fault Transfer)} {log : List (Entry ρ)} (hu : Under root rest m)
    (hm : Marked m) (hs : Stepped turn m answer m' log) : Under root rest m' ∨ Left rest m' := by
  cases hs with
  | rested => exact .inl hu
  | returned h => exact hu.finished hm h rfl
  | refused h => exact hu.finished hm h rfl
  | entered h => exact .inl (hu.rephase h rfl)
  | switched h => exact .inl (hu.rephase h rfl)
  | @started k i wake inner body body' target data world log h =>
    obtain ⟨phase, hsuffix⟩ := hu.rephase h
      (rfl : ({ m with threads := ⟨k, .joining i⟩ :: inner } : Machine τ ω).threads = _)
    exact .inl ⟨phase, hsuffix.trans (List.suffix_cons _ _)⟩
  | ended h => exact hu.finished hm h rfl

theorem Under.act (turn : Turn ρ τ ω) (hu : Under root rest m) (hm : Marked m) (d : Deed τ ω) :
    Under root rest (m.act turn d) ∨ Left rest (m.act turn d) := by
  cases d with
  | create body => exact .inl hu
  | destroy handle =>
    rcases act_destroy turn m handle with ⟨heq, -⟩ | ⟨i, record, -, -, -, heq⟩ <;> rw [heq] <;> exact .inl hu
  | assign world => exact .inl hu
  | launch k target data =>
    have hbusy : ¬m.threads.isEmpty = true := by
      have := hu.length_lt
      cases hthreads : m.threads <;> simp [hthreads] at this ⊢
    rw [Machine.act, if_neg hbusy]
    exact .inl hu
  | step =>
    obtain ⟨answer, log, hs⟩ := act_step turn hm
    exact hu.step hm hs

/-! ## A callback is left alone -/

def Untouched (i : Nat) (m : Machine τ ω) : Prop :=
  m.marked i = false ∨ ∃ root transfer rest, m.threads = ⟨root, .inside i (.switched transfer)⟩ :: rest

theorem Untouched.of_seeking (hu : Untouched i m) (h : m.threads = ⟨root, .seeking target transfer⟩ :: rest) :
    m.marked i = false := by
  rcases hu with hfree | ⟨root', transfer', rest', h'⟩
  · exact hfree
  · rw [h] at h'
    cases h'

theorem Untouched.of_inside {j : Nat} (hu : Untouched i m)
    (h : m.threads = ⟨root, .inside j wake⟩ :: rest) (hne : j ≠ i) :
    m.marked i = false := by
  rcases hu with hfree | ⟨root', transfer', rest', h'⟩
  · exact hfree
  · rw [h] at h'
    cases h'
    exact absurd rfl hne

theorem ne_of_other {j : Nat} (h : m.threads = ⟨root, .inside j wake⟩ :: rest)
    (hrecord : m.records[j]? = some ⟨true, false, body⟩) {move : Except Fault Move} {body' : τ} {world : ω}
    {log : List (Entry ρ)} (hplayed : turn ⟨j, root⟩ wake (body, m.world) = ⟨move, (body', world), log⟩)
    (hother : ∀ o ∈ m.occurrence? turn .step, o.context ≠ i) : j ≠ i :=
  hother _ (occurrence?_inside h hrecord hplayed)

theorem Untouched.step {answer : Option (Except Fault Transfer)} {log : List (Entry ρ)} (hu : Untouched i m)
    (hs : Stepped turn m answer m' log) (hother : ∀ o ∈ m.occurrence? turn .step, o.context ≠ i) :
    Untouched i m' := by
  cases hs with
  | rested => exact hu
  | returned h => exact .inl (hu.of_seeking h)
  | refused h => exact .inl (hu.of_seeking h)
  | @entered root j transfer rest body h hrecord =>
    by_cases hij : j = i
    · exact .inr ⟨root, transfer, rest, by rw [← hij]; rfl⟩
    · left
      rw [marked_set _ hrecord rfl, if_neg hij]
      exact hu.of_seeking h
  | switched h hrecord hplayed =>
    have hne := ne_of_other h hrecord hplayed hother
    left
    rw [marked_set _ hrecord rfl, if_neg hne]
    exact hu.of_inside h hne
  | started h hrecord hplayed =>
    have hne := ne_of_other h hrecord hplayed hother
    left
    rw [marked_set _ hrecord rfl, if_neg hne]
    exact hu.of_inside h hne
  | ended h hrecord hplayed =>
    have hne := ne_of_other h hrecord hplayed hother
    left
    refine (marked_set _ hrecord rfl i).trans ?_
    rw [if_neg hne]
    exact hu.of_inside h hne

theorem Untouched.act (hu : Untouched i m) (hm : Marked m) (d : Deed τ ω)
    (hother : ∀ o ∈ m.occurrence? turn d, o.context ≠ i) :
    Untouched i (m.act turn d) := by
  cases d with
  | create body =>
    have hne : i ≠ m.records.size := Ne.symm (hother _ rfl)
    rcases hu with hfree | hthreads
    · left
      show ((m.records.push _)[i]?).any _ = false
      rw [Array.getElem?_push, if_neg hne]
      exact hfree
    · exact .inr hthreads
  | destroy handle =>
    rcases act_destroy turn m handle with ⟨heq, -⟩ | ⟨j, record, -, hrecord, hfree, heq⟩
    · rw [heq]
      exact hu
    · rw [heq]
      rcases hu with hu | hthreads
      · left
        rw [marked_set _ hrecord rfl]
        split
        · exact hfree
        · exact hu
      · exact .inr hthreads
  | assign world => exact hu
  | launch root target data =>
    rw [Machine.act]
    split
    · rename_i hempty
      rcases hu with hfree | ⟨root', transfer', rest', hthreads⟩
      · exact .inl hfree
      · rw [hthreads] at hempty
        cases hempty
    · exact hu
  | step =>
    obtain ⟨answer, log, hs⟩ := act_step turn hm
    exact hu.step hs hother

theorem act_entered (h : m.threads = ⟨root, .seeking (.context i) transfer⟩ :: rest)
    (hrecord : m.records[i]? = some ⟨false, false, body⟩) :
    m.act turn .step = m.entered root i transfer rest body := by
  have hstep : step turn m = ⟨.ok none, m.entered root i transfer rest body, []⟩ := by
    unfold step
    rw [Act.get_bind, h]
    exact visit_free hrecord h
  rw [act, hstep]

end Machine

namespace Chronicle

open Machine

variable {turn : Turn ρ τ ω} {c u : Chronicle τ ω} {root i : Nat} {rest : List Thread} {body : τ}
  {deeds later : List (Deed τ ω)}

structure Faithful (c : Chronicle τ ω) : Prop where
  marked : Marked c.machine
  told : ∀ i, pending c.history i = c.machine.alive? i

theorem Faithful.act (hc : Faithful c) (d : Deed τ ω) : Faithful (c.act turn d) := by
  refine ⟨hc.marked.act d, fun i => ?_⟩
  have htells : c.machine.Tells (c.machine.occurrence? turn d) (c.machine.act turn d) := act_tells hc.marked d
  show pending (c.history ++ (c.machine.occurrence? turn d).toList) i = (c.machine.act turn d).alive? i
  rw [htells i]
  cases c.machine.occurrence? turn d with
  | none =>
    rw [Option.toList_none, List.append_nil]
    exact hc.told i
  | some o =>
    rw [Option.toList_some, pending_snoc, hc.told]

theorem faithful_new (world : ω) : Faithful (new world : Chronicle τ ω) :=
  ⟨marked_new world, fun _ => rfl⟩

theorem Faithful.run (hc : Faithful c) (deeds : List (Deed τ ω)) : Faithful (c.run turn deeds) := by
  induction deeds generalizing c with
  | nil => exact hc
  | cons d deeds ih => exact ih (hc.act d)

theorem run_append (turn : Turn ρ τ ω) (c : Chronicle τ ω) (earlier later : List (Deed τ ω)) :
    c.run turn (earlier ++ later) = (c.run turn earlier).run turn later :=
  List.foldl_append

theorem history_run (turn : Turn ρ τ ω) (c : Chronicle τ ω) (deeds : List (Deed τ ω)) :
    ∃ since, (c.run turn deeds).history = c.history ++ since := by
  induction deeds generalizing c with
  | nil => exact ⟨[], (List.append_nil _).symm⟩
  | cons d deeds ih =>
    obtain ⟨since, hsince⟩ := ih (c.act turn d)
    refine ⟨(c.machine.occurrence? turn d).toList ++ since, ?_⟩
    rw [← List.append_assoc]
    exact hsince

/-- Whether a callback waits in a state for the next switch to its context: whoever
switches there next, it gets control with what was passed, in that state. -/
def Resumable (turn : Turn ρ τ ω) (c : Chronicle τ ω) (i : Nat) (body : τ) : Prop :=
  ∀ later since root transfer rest, (c.run turn later).history = c.history ++ since →
    (∀ o ∈ since, o.context ≠ i) →
    (c.run turn later).machine.threads = ⟨root, .seeking (.context i) transfer⟩ :: rest →
    let played := turn ⟨i, root⟩ (.switched transfer) (body, (c.run turn later).machine.world)
    (c.run turn (later ++ [.step, .step])).history =
      c.history ++ since ++ [.turn ⟨i, root⟩ (.switched transfer) body played.result played.state.1]

theorem Faithful.untouched (hc : Faithful c) (hu : Untouched i c.machine) {since : List (Occurrence τ)}
    (hhistory : (c.run turn later).history = c.history ++ since) (hother : ∀ o ∈ since, o.context ≠ i) :
    Untouched i (c.run turn later).machine := by
  induction later generalizing c since with
  | nil => exact hu
  | cons d later ih =>
    obtain ⟨rest, hrest⟩ := history_run turn (c.act turn d) later
    have hsplit : since = (c.machine.occurrence? turn d).toList ++ rest := by
      have happend : c.history ++ since = c.history ++ ((c.machine.occurrence? turn d).toList ++ rest) := by
        rw [← hhistory, ← List.append_assoc]
        exact hrest
      exact List.append_cancel_left happend
    rw [hsplit] at hother
    refine ih (hc.act d) (hu.act hc.marked d fun o ho => ?_) hrest fun o ho =>
      hother o (List.mem_append_right _ ho)
    exact hother o (List.mem_append_left _ (Option.mem_toList.mpr ho))

theorem resumable_of_free (hc : Faithful c) (hpending : pending c.history i = some body)
    (hfree : c.machine.marked i = false) :
    Resumable turn c i body := by
  intro later since root transfer rest hhistory hother hthreads played
  have hlater : Faithful (c.run turn later) := hc.run later
  have hunmarked := (hc.untouched (.inl hfree) hhistory hother).of_seeking hthreads
  have halive : (c.run turn later).machine.alive? i = some body := by
    rw [← hlater.told, hhistory, pending_append_of_ne _ _ hother, hpending]
  have hrecord := record_of_alive halive
  rw [hunmarked] at hrecord
  have hfirst : (c.run turn later).act turn .step =
      ⟨(c.run turn later).machine.entered root i transfer rest body, (c.run turn later).history⟩ := by
    rw [act, act_entered hthreads hrecord, occurrence?_seeking hthreads, Option.toList_none, List.append_nil]
  have hinside : ((c.run turn later).machine.entered root i transfer rest body).records[i]? =
      some ⟨true, false, body⟩ := by
    rw [entered, getElem?_set _ hrecord, if_pos rfl]
  -- With the first step the loop resumes the context, with the second its callback has its turn.
  calc (c.run turn (later ++ [.step, .step])).history
    _ = (((c.run turn later).act turn .step).act turn .step).history := by rw [run_append]; rfl
    _ = c.history ++ since ++ [.turn ⟨i, root⟩ (.switched transfer) body played.result played.state.1] := by
      rw [hfirst, act, hhistory, occurrence?_inside rfl hinside rfl]
      rfl

theorem left_of_end (hc : Faithful c) (hu : Under root rest c.machine)
    (hlasts : ∀ earlier, earlier <+: later → earlier ≠ later →
      rest.length < (c.run turn earlier).machine.threads.length)
    (hend : (c.run turn later).machine.threads.length ≤ rest.length) :
      Left rest (c.run turn later).machine := by
  -- The thread stays where it is until it leaves, and with that the course is at its end.
  induction later generalizing c with
  | nil => exact absurd hend (Nat.not_le_of_lt hu.length_lt)
  | cons d later ih =>
    rcases hu.act turn hc.marked d with hu' | hleft
    · refine ih (hc.act d) hu' (fun earlier hprefix hne => ?_) hend
      exact hlasts (d :: earlier) (List.cons_prefix_cons.mpr ⟨rfl, hprefix⟩) fun heq =>
        hne (List.cons.inj heq).2
    · cases later with
      | nil => exact hleft
      | cons d' later =>
        have hlength : (c.act turn d).machine.threads.length = rest.length := by
          have := congrArg List.length hleft.1
          rwa [List.length_map, List.length_map] at this
        have := hlasts [d] (List.cons_prefix_cons.mpr ⟨rfl, List.nil_prefix⟩) (by simp)
        exact absurd hlength.symm (Nat.ne_of_lt this)

theorem switches_recover (turn : Turn ρ τ ω) (world : ω) (deeds : List (Deed τ ω)) :
    let c := (Chronicle.new world).run turn deeds
    ((∀ i, c.machine.marked i = true ↔ ∃ thread ∈ c.machine.threads, thread.resumes? = some i) ∧
      (c.machine.threads.filterMap Thread.resumes?).Nodup ∧
      (∀ k, (c.machine.locals k).rootRunning = true) ∧
      (∀ thread ∈ c.machine.threads,
        c.machine.current thread.root = (thread.resumes?.map .context).getD (.root thread.root)) ∧
      ∀ k, k ∉ c.machine.threads.map (·.root) → c.machine.inContext k = false) ∧
    ∀ root target data rest later,
      c.machine.threads = ⟨root, .seeking target ⟨.root root, data⟩⟩ :: rest →
      (∀ earlier, earlier <+: later → earlier ≠ later →
        rest.length < (c.run turn earlier).machine.threads.length) →
      (c.run turn later).machine.threads.length ≤ rest.length →
      let c' := c.run turn later
      c'.machine.inContext root = false ∧ (∀ i, c'.machine.marked i = c.machine.marked i) ∧
        (∀ k, (c'.machine.locals k).rootRunning = true) ∧
        ∀ i body, pending c'.history i = some body → c'.machine.marked i = false →
          Resumable turn c' i body := by
  intro c
  have hc : Faithful c := (faithful_new world).run deeds
  refine ⟨⟨fun i => ?_, hc.marked.nodup, fun k => ?_, fun thread hmem => ?_, fun k hk => ?_⟩, ?_⟩
  · rw [hc.marked.marked_iff, resumed, List.mem_filterMap]
  · rw [hc.marked.locals]
  · exact hc.marked.current_of_mem hmem
  · exact hc.marked.inContext_of_not_mem hk
  · intro root target data rest later hthreads hlasts hend c'
    have hu : Under root rest c.machine := ⟨.seeking target ⟨.root root, data⟩, [], hthreads.symm⟩
    -- The course begins and ends on the root, and all below it is untouched.
    have hleft : Left rest c'.machine := left_of_end hc hu hlasts hend
    have hc' : Faithful c' := hc.run later
    refine ⟨?_, fun i => ?_, fun k => ?_, fun i body hpending hfree => resumable_of_free hc' hpending hfree⟩
    · apply hc'.marked.inContext_of_not_mem
      rw [hleft.1]
      exact hu.not_mem hc.marked
    · rw [Bool.eq_iff_iff, hc'.marked.marked_iff, hc.marked.marked_iff, hleft.2, resumed, hthreads]
      rfl
    · rw [hc'.marked.locals]

/-! ## Two threads -/

open Context

/-- The first context starts a thread that resumes the second one, and that asks for the
first, which waits for the thread. -/
def nested : List (Deed Actor Cast) :=
  [.create (.new [.thread (.context 1) (.data 5), .switch .home (.data 1)]),
    .create (.new [.switch (.context 0) (.data 7), .switch .home (.data 9)]),
    .assign ⟨#[.context 0, .context 1]⟩, .launch 0 (.context 0) 3, .step, .step]

/-- The thread fails, since the first context waits for it; the second one, whose request that
was, gets what the first thread passes to it later. -/
theorem refused_context_goes_on :
    let c := ((new ⟨#[]⟩).run Context.turn nested).run Context.turn [.step, .step, .step]
    c.machine.inContext 1 = false ∧ c.machine.marked 0 = true ∧ c.machine.marked 1 = false ∧
      ∃ move after, (c.run Context.turn [.step, .step, .launch 0 (.context 1) 4, .step, .step]).history =
        (c.run Context.turn [.step, .step, .launch 0 (.context 1) 4]).history ++
          [.turn ⟨1, 0⟩ (.switched ⟨.root 0, 4⟩)
            ⟨[.switch .home (.data 9)], 1, ⟨.root 1, 5⟩⟩ move after] := by
  obtain ⟨⟨hmarked, -⟩, hends⟩ := switches_recover Context.turn (⟨#[]⟩ : Cast) nested
  have hlasts : ∀ earlier, earlier <+: [.step, .step, .step] → earlier ≠ [.step, .step, .step] →
      1 < (((new ⟨#[]⟩).run Context.turn nested).run Context.turn earlier).machine.threads.length := by
    intro earlier hprefix hne
    rw [List.prefix_iff_eq_take] at hprefix
    generalize earlier.length = n at hprefix
    subst hprefix
    match n with
    | 0 | 1 | 2 => decide +kernel
    | n + 3 => exact absurd (List.take_of_length_le (Nat.le_add_left 3 n)) hne
  obtain ⟨hout, hsame, -, hresumable⟩ :=
    hends 1 (.context 1) 5 [⟨0, .joining 0⟩] [.step, .step, .step] rfl hlasts (by decide +kernel)
  refine ⟨hout, ?_, ?_, ?_⟩
  · rw [hsame, hmarked]
    exact ⟨⟨0, .joining 0⟩, List.mem_cons_of_mem _ List.mem_cons_self, rfl⟩
  · rw [hsame]
    decide +kernel
  · have hnext := hresumable 1 ⟨[.switch .home (.data 9)], 1, ⟨.root 1, 5⟩⟩ rfl (by decide +kernel)
      [.step, .step, .launch 0 (.context 1) 4]
      [.turn ⟨0, 0⟩ (.joined (.error .alreadyRunning)) ⟨[.switch .home (.data 1)], 1, ⟨.root 0, 3⟩⟩
        (.ok (.switch (.root 0) 1))
        ⟨[], 1, ⟨.root 0, 3⟩⟩] 0 ⟨.root 0, 4⟩ [] rfl (by simp [Occurrence.context]) rfl
    exact ⟨_, _, hnext⟩

end Chronicle

end FiberScheduler
