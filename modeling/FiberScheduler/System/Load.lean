import FiberScheduler.System.Lifecycle

/-!
# Load

A load of jobs with children, run by all workers at once. Only the totals are of
interest; they do not depend on the order of the steps.
-/

namespace FiberScheduler

/-- How much work there is: `count` jobs with so many `children` each, which have the
same priority. Every `panicEvery`-th job panics in the end. -/
structure Load where
  count : Nat
  children : Nat
  priority : Priority
  affinity : Affinity
  extended : Bool
  panicEvery : Option Nat

namespace Load

inductive Code where
  | parent (index : Nat)
  | child (index child : Nat)
  deriving DecidableEq, Repr

/-- The memory is the sum of what all jobs have added. -/
abbrev Body : Type → Type := Program Code UInt64 Empty

open Program (ask await)

def add (n : Nat) : Body Unit := do
  discard <| ask (.access (· + n.toUInt64))

def body (load : Load) : Code → Body Unit
  | .child index child => add (index * 1000 + child)
  | .parent index => do
    match ← Program.runMultiple ((List.range load.children).map (.child index)) load.priority with
    | .error refusal => Program.panic (.unhandled refusal.describe)
    | .ok group =>
      await group
      ask (.dropGroup group)
      add 1
      match load.panicEvery with
      | none => return ()
      | some n => if 0 < n ∧ index % n = 0 then Program.panic (.raised "planned") else return ()

def expect {α : Type} (answer : Except Refusal α) : Act Empty (System Code UInt64 Empty) α :=
  match answer with
  | .ok a => return a
  | .error refusal => Act.fail (.unhandled refusal.describe)

def submit (load : Load) (group : Nat) :
    (indices : List Nat) → Act Empty (System Code UInt64 Empty) Unit
  | [] => return ()
  | index :: indices => do
    let job ← System.onHub (Hub.addRecord (.new (.parent index) load.extended true))
    expect (← System.ask (.schedule job (some group) load.priority load.affinity))
    submit load group indices

structure Totals where
  sum : UInt64
  counters : Counters
  notices : Nat
  stop : Option (Except Refusal Unit)
  lastWords : Option String

def patience : Nat := 1000000000

def runOn (mode : Mode) (host : Host) (config : Config) (load : Load) :
    Act Empty Unit (Except Refusal Totals) := fun _ =>
  match System.new mode host config (0 : UInt64) () with
  | ⟨.error fault, _, log⟩ => ⟨.error fault, (), log⟩
  | ⟨.ok (.error refusal), _, log⟩ => ⟨.ok (.error refusal), (), log⟩
  | ⟨.ok (.ok system), _, log⟩ =>
    let whole : Act Empty (System Code UInt64 Empty) (Option (Except Refusal Unit)) := do
      let group ← expect (← System.ask .newGroup)
      submit load group (List.range load.count)
      System.stop load.body (System.inTurn system.workers.size) patience
    match whole system with
    | ⟨.error fault, _, log'⟩ => ⟨.error fault, (), log ++ log'⟩
    | ⟨.ok stop, s, log'⟩ =>
      ⟨.ok (.ok ⟨s.memory, s.hub.counters, log.length + log'.length, stop, s.lastWords?⟩), (), []⟩

end Load

end FiberScheduler
