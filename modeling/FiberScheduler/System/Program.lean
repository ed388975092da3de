import FiberScheduler.Counters
import FiberScheduler.Refusal
import FiberScheduler.Priority

/-!
# Programs

What the body of a job does, as a tree of calls to the system that runs it. A wait
is the only point where a body can be parked; a panic ends it at once.
-/

namespace FiberScheduler

structure Place where
  worker : Nat
  fiber : String
  priority : Priority
  affinity : Affinity
  extended : Bool
  deriving DecidableEq, Repr

inductive Call (κ μ ρ : Type) where
  | newGroup
  | cloneGroup (group : Nat)
  | dropGroup (group : Nat)
  /-- Hands a handle over to whoever reads the memory. -/
  | giveGroup (group : Nat)
  /-- Takes over a handle that was kept in the memory. -/
  | takeGroup (group : Nat)
  | add (group : Nat) (n : Int32)
  | count (group : Nat)
  | schedule (job : Nat) (group : Option Nat) (priority : Priority) (affinity : Affinity)
  | addJob (job : Nat) (priority : Priority) (affinity : Affinity)
  | isScheduled (job : Nat)
  /-- Submits a fresh job that can run once. -/
  | spawn (code : κ) (group : Option Nat) (priority : Priority) (affinity : Affinity)
  | place
  | counters
  | report (report : ρ)
  /-- Changes the memory and gives what it was. -/
  | access (f : μ → μ)

@[reducible] def Call.Answer {κ μ ρ : Type} : Call κ μ ρ → Type
  | .newGroup => Except Refusal Nat
  | .cloneGroup _ | .dropGroup _ | .giveGroup _ | .takeGroup _ | .add .. | .report _ => Unit
  | .count _ => Int32
  | .schedule .. | .addJob .. | .spawn .. => Except Refusal Unit
  | .isScheduled _ => Bool
  | .place => Option Place
  | .counters => Counters
  | .access _ => μ

/-- Whether a caller with these handles may make a call, where others have left handles
for anybody to use. Only one's own handle can be given away, and only one that was left
can be taken over. -/
def Call.permits {κ μ ρ : Type} (held kept : List Nat) : Call κ μ ρ → Bool
  | .dropGroup group | .giveGroup group => held.contains group
  | .takeGroup group => kept.contains group
  | .cloneGroup group | .add group _ | .count group
  | .schedule _ (some group) .. | .spawn _ (some group) .. =>
    held.contains group || kept.contains group
  | _ => true

def Call.settle {κ μ ρ : Type} : (c : Call κ μ ρ) → c.Answer → List Nat → List Nat
  | .newGroup, .ok group, held => group :: held
  | .cloneGroup group, _, held | .takeGroup group, _, held => group :: held
  | .dropGroup group, _, held | .giveGroup group, _, held => held.erase group
  | _, _, held => held

inductive Program (κ μ ρ α : Type) where
  | done (value : α)
  | panic (fault : Fault)
  | wait (group : Nat) (next : Program κ μ ρ α)
  | call (c : Call κ μ ρ) (next : c.Answer → Program κ μ ρ α)

namespace Program

variable {κ μ ρ α β γ : Type}

protected def bind : Program κ μ ρ α → (α → Program κ μ ρ β) → Program κ μ ρ β
  | .done value, f => f value
  | .panic fault, _ => .panic fault
  | .wait group next, f => .wait group (next.bind f)
  | .call c next, f => .call c fun answer => (next answer).bind f

instance : Monad (Program κ μ ρ) where
  pure := .done
  bind := Program.bind

theorem bind_done (p : Program κ μ ρ α) : p.bind .done = p := by
  induction p with
  | done | panic => rfl
  | wait group next ih => simp [Program.bind, ih]
  | call c next ih => simp [Program.bind, ih]

theorem bind_bind (p : Program κ μ ρ α) (f : α → Program κ μ ρ β) (g : β → Program κ μ ρ γ) :
    (p.bind f).bind g = p.bind fun a => (f a).bind g := by
  induction p with
  | done | panic => rfl
  | wait group next ih => simp [Program.bind, ih]
  | call c next ih => simp [Program.bind, ih]

instance : LawfulMonad (Program κ μ ρ) :=
  LawfulMonad.mk' _ bind_done (fun _ _ => rfl) bind_bind

/-! ## The calls as programs -/

def ask (c : Call κ μ ρ) : Program κ μ ρ c.Answer :=
  .call c .done

def await (group : Nat) : Program κ μ ρ Unit :=
  .wait group (.done ())

/-- Submits a fresh job to be run by any worker, counted by a group of its own. -/
def run (code : κ) (priority : Priority) (affinity : Affinity) :
    Program κ μ ρ (Except Refusal Nat) := do
  match ← ask .newGroup with
  | .error refusal => return .error refusal
  | .ok group =>
    match ← ask (.spawn code (some group) priority affinity) with
    | .ok () => return .ok group
    | .error refusal =>
      ask (.dropGroup group)
      return .error refusal

def spawnAll (group : Nat) (priority : Priority) : List κ → Program κ μ ρ (Except Refusal Unit)
  | [] => return .ok ()
  | code :: codes => do
    match ← ask (.spawn code (some group) priority .any) with
    | .ok () => spawnAll group priority codes
    | .error refusal => return .error refusal

def runMultiple (codes : List κ) (priority : Priority) : Program κ μ ρ (Except Refusal Nat) := do
  match ← ask .newGroup with
  | .error refusal => return .error refusal
  | .ok group =>
    match ← spawnAll group priority codes with
    | .ok () => return .ok group
    | .error refusal =>
      ask (.dropGroup group)
      return .error refusal

end Program

end FiberScheduler
