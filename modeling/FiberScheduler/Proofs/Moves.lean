import FiberScheduler.System.Lifecycle
import FiberScheduler.Proofs.Calls

/-!
# Moves

What the moves of a run lead to. Each move leaves deeds behind, the history of the run.
-/

namespace FiberScheduler

variable {κ μ ρ : Type}

inductive System.Action (κ μ ρ : Type) where
  | call (c : Call κ μ ρ) (answer : c.Answer)
  | wait (group : Nat)
  | failed (fault : Fault)

inductive System.Deed (κ μ ρ : Type) where
  | accepted (job : Nat) (group : Option Nat)
  | began (job : Nat)
  | acted (job : Nat) (action : System.Action κ μ ρ)
  | ended (job : Nat) (group : Option Nat)
  /-- Parked on a group, under a priority and an affinity. -/
  | parked (fiber group : Nat) (priority : Priority) (affinity : Affinity)
  | resumed (fiber : Nat)

/-- The job that a call with this answer got into a queue; a fresh one has the index given. -/
def Call.accepted (fresh : Nat) : (c : Call κ μ ρ) → Except Fault c.Answer → Option (Nat × Option Nat)
  | .schedule job group _ _, r => Hub.taken job group r
  | .addJob job _ _, r => Hub.taken job none r
  | .spawn _ group _ _, r => Hub.taken fresh group r
  | _, _ => none

inductive Program.Step : Program κ μ ρ Unit → System.Action κ μ ρ → Program κ μ ρ Unit → Prop
  | call (c : Call κ μ ρ) (next : c.Answer → Program κ μ ρ Unit) (answer : c.Answer) :
      Step (.call c next) (.call c answer) (next answer)
  | wait (group : Nat) (next : Program κ μ ρ Unit) : Step (.wait group next) (.wait group) next
  | failedCall (c : Call κ μ ρ) (next : c.Answer → Program κ μ ρ Unit) (fault : Fault) :
      Step (.call c next) (.failed fault) (.panic fault)
  | failedWait (group : Nat) (next : Program κ μ ρ Unit) (fault : Fault) :
      Step (.wait group next) (.failed fault) (.panic fault)

inductive Program.Does : Program κ μ ρ Unit → List (System.Action κ μ ρ) → Program κ μ ρ Unit → Prop
  | nil (p : Program κ μ ρ Unit) : Does p [] p
  | snoc {p q r : Program κ μ ρ Unit} {as : List (System.Action κ μ ρ)} {a : System.Action κ μ ρ}
      (h : Does p as q) (ha : q.Step a r) : Does p (as ++ [a]) r

inductive Program.Over : Program κ μ ρ Unit → Prop
  | done : Over (.done ())
  | panic (fault : Fault) : Over (.panic fault)

def bodyOf (body : κ → Program κ μ ρ Unit) (record : Job κ) : Program κ μ ρ Unit :=
  if record.spent then .done () else body record.code

namespace System

/-! ## Deeds -/

def acceptances : Option (Nat × Option Nat) → List (Deed κ μ ρ)
  | some (job, group) => [.accepted job group]
  | none => []

section
variable (s s' : System κ μ ρ)

def deedsOfRun (worker : Nat) (w : Worker) (fiber : Nat) (run : Run κ μ ρ) : List (Deed κ μ ρ) :=
  match run.rest with
  | .done () | .panic _ =>
    if s'.stageOf worker = some .dead then []
    else [.ended run.job ((s.hub.jobs[run.job]?).bind (·.completion))]
  | .wait group _ =>
    match (access run.held group s).result with
    | .error fault => [.acted run.job (.failed fault)]
    | .ok state =>
      if state.isSignaled then [.acted run.job (.wait group)]
      else if s'.aborted then [] else [.parked fiber group w.priority w.affinity]
  | .call c _ =>
    let result := (perform (some worker) run.held c s).result
    acceptances (c.accepted s.hub.jobs.size result) ++
      match result with
      | .ok answer => [.acted run.job (.call c answer)]
      | .error fault => [.acted run.job (.failed fault)]

def deedsOfLoop (worker fiber : Nat) : List (Deed κ μ ρ) :=
  match s'.run? fiber with
  | some run => [.began run.job]
  | none =>
    match (s'.workers[worker]?).bind (·.current) with
    | some next => if (s.run? next).isSome then [.resumed next] else []
    | none => []

def deeds : Move κ μ ρ → List (Deed κ μ ρ)
  | .work worker =>
    match s.workers[worker]? with
    | none => []
    | some w =>
      match w.stage, w.current with
      | .running, some fiber =>
        if s.aborted then []
        else match s.run? fiber with
          | some run => deedsOfRun s s' worker w fiber run
          | none => deedsOfLoop s s' worker fiber
      | _, _ => []
  | .call c => acceptances (c.accepted s.hub.jobs.size (ask c s).result)
  | _ => []

end

/-! ## Runs -/

section
variable (body : κ → Program κ μ ρ Unit)

def move (s : System κ μ ρ) : Move κ μ ρ → System κ μ ρ
  | .work worker => (step body worker s).state
  | .call c => (ask c s).state
  | .record code extended oneShot => (onHub (Hub.addRecord (.new code extended oneShot)) s).state
  | .stop => (onHub Hub.beginStop s).state

theorem follow_state (s : System κ μ ρ) (m : Move κ μ ρ) : (follow body m s).state = move body s m := by
  have hdiscard : ∀ {α : Type} (x : Act ρ (System κ μ ρ) α), (discard x).Ends s fun _ t => t = (x s).state :=
    fun x => by
    rw [Act.ends_discard]
    unfold Act.Ends
    cases (x s).result <;> rfl
  cases m with
  | work worker => rfl
  | call c => exact hdiscard (ask c)
  | record code extended oneShot => exact hdiscard (onHub (Hub.addRecord (.new code extended oneShot)))
  | stop => rfl

def play (s : System κ μ ρ) (moves : List (Move κ μ ρ)) : System κ μ ρ :=
  moves.foldl (move body) s

def history : System κ μ ρ → List (Move κ μ ρ) → List (Deed κ μ ρ)
  | _, [] => []
  | s, m :: moves => deeds s (move body s m) m ++ history (move body s m) moves

def told (s : System κ μ ρ) : Move κ μ ρ → List (Entry ρ)
  | .work worker => (step body worker s).log
  | .call c => (ask c s).log
  | .record code extended oneShot => (onHub (Hub.addRecord (.new code extended oneShot)) s).log
  | .stop => (onHub Hub.beginStop s).log

def journal : System κ μ ρ → List (Move κ μ ρ) → List (Entry ρ)
  | _, [] => []
  | s, m :: moves => told body s m ++ journal (move body s m) moves

theorem play_append (s : System κ μ ρ) (before after : List (Move κ μ ρ)) :
    play body s (before ++ after) = play body (play body s before) after :=
  List.foldl_append

/-- What holds of each move of a run and the state before it. -/
def Along (P : System κ μ ρ → Move κ μ ρ → Prop) (s : System κ μ ρ) (moves : List (Move κ μ ρ)) : Prop :=
  ∀ before m after, moves = before ++ m :: after → P (play body s before) m

variable {body}

section
variable {P : System κ μ ρ → Move κ μ ρ → Prop} {s : System κ μ ρ} {m : Move κ μ ρ}
  {moves : List (Move κ μ ρ)} (h : Along body P s (m :: moves))
include h

theorem Along.now : P s m :=
  h [] m moves rfl

theorem Along.next : Along body P (move body s m) moves :=
  fun before m' after he => h (m :: before) m' after (by rw [he]; rfl)

end

theorem Along.cons {P : System κ μ ρ → Move κ μ ρ → Prop} {s : System κ μ ρ} {m : Move κ μ ρ}
    {moves : List (Move κ μ ρ)} (hnow : P s m) (hnext : Along body P (move body s m) moves) :
      Along body P s (m :: moves)
  | [], _, _, he => by
    cases he
    exact hnow
  | _ :: before, m', after, he => by
    cases he
    exact hnext before m' after rfl

theorem Along.left {P : System κ μ ρ → Move κ μ ρ → Prop} {s : System κ μ ρ} {moves later : List (Move κ μ ρ)}
    (h : Along body P s (moves ++ later)) : Along body P s moves :=
  fun before m after he => h before m (after ++ later) (by rw [he, List.append_assoc]; rfl)

theorem Along.of_mem {P : System κ μ ρ → Move κ μ ρ → Prop} {s : System κ μ ρ} {moves : List (Move κ μ ρ)}
    (h : ∀ m ∈ moves, ∀ s, P s m) :
    Along body P s moves :=
  fun _ m _ he => h m (he ▸ List.mem_append_right _ List.mem_cons_self) _

instance Along.decidable {P : System κ μ ρ → Move κ μ ρ → Prop} [∀ s m, Decidable (P s m)] :
    ∀ (moves : List (Move κ μ ρ)) (s : System κ μ ρ), Decidable (Along body P s moves)
  | [], _ => .isTrue fun before _ _ he => by cases before <;> cases he
  | m :: moves, s =>
    have : Decidable (Along body P (move body s m) moves) := Along.decidable moves (move body s m)
    decidable_of_iff (P s m ∧ Along body P (move body s m) moves)
      ⟨fun h => .cons h.1 h.2, fun h => ⟨h.now, h.next⟩⟩

theorem play_induction {P : System κ μ ρ → Move κ μ ρ → Prop} {I : System κ μ ρ → List (Deed κ μ ρ) → Prop}
    (hstep : ∀ s ds m, P s m → I s ds → I (move body s m) (ds ++ deeds s (move body s m) m)) :
    ∀ {moves : List (Move κ μ ρ)} {s : System κ μ ρ} {ds : List (Deed κ μ ρ)}, Along body P s moves → I s ds →
      I (play body s moves) (ds ++ history body s moves)
  | [], s, ds, _, h => by rw [history, List.append_nil]; exact h
  | m :: moves, s, ds, hP, h => by
    rw [history, ← List.append_assoc]
    exact play_induction hstep hP.next (hstep s ds m hP.now h)

end

end System

end FiberScheduler
