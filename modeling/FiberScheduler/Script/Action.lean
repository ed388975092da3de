import FiberScheduler.Directory
import FiberScheduler.System.Program

/-!
# Script actions

Job bodies given as lists of actions, and what they report. Wait groups are known by
name: a directory keeps one handle for each name. It is locked while it is used, and
stays locked when that goes wrong.
-/

namespace FiberScheduler.Script

/-- The name of a group as it was given; what is no text is no name. -/
abbrev Name : Type := Option String

inductive GroupRequest where
  | add (n : Int32)
  | signal
  | count
  /-- Takes the whole count off, if there is one. -/
  | zero
  | schedule (job : Nat) (priority : Priority) (affinity : Affinity)
  | runIn (job : Nat) (priority : Priority)
  /-- A request that could not be read any further. -/
  | malformed
  deriving Repr

inductive Request where
  | group (name : Name)
  | dropGroup (name : Name)
  /-- The group is looked up first. -/
  | about (name : Name) (request : GroupRequest)
  | schedule (job : Nat) (priority : Priority) (affinity : Affinity)
  | addJob (job : Nat) (priority : Priority) (affinity : Affinity)
  | isScheduled (job : Nat)
  | run (job : Nat) (priority : Priority) (affinity : Affinity) (name : Name)
  | runMultiple (jobs : List Nat) (priority : Priority) (name : Name)
  | affinity
  /-- The affinity of the caller in another system. -/
  | foreignAffinity
  /-- Runs an empty job on another system and waits for it. -/
  | foreignRun
  | counters
  | describe
  /-- A request that could not be read. -/
  | malformed
  deriving Repr

inductive Action where
  | request (request : Request)
  | wait (name : Name)
  | waitForEach (names : List Name)
  | panic (fault : Fault)
  /-- Adds to a local variable of the run. -/
  | local (slot : Nat) (amount : Int64)
  | who
  deriving Repr

inductive Reply where
  | ok
  /-- Whether there was something to do. -/
  | had (answer : Bool)
  | refused (refusal : Refusal)
  | noGroup
  | malformed
  | count (count : Int32)
  | scheduled (answer : Bool)
  | affinity (affinity : Option Affinity)
  | counters (counters : Counters)
  | text (text : String)
  | value (value : Int64)
  /-- The fiber is named only where a single worker makes that repeatable. -/
  | place (place : Place) (named : Bool)
  deriving Repr

inductive Report where
  | reply (job : String) (index : Nat) (reply : Reply)
  | ended (job : String)
  deriving Repr

structure Spec where
  name : String
  extended : Bool
  body : List Action
  deriving Repr

inductive Code where
  | job (index : Nat)
  /-- The empty body by which the supervisor stops a worker. -/
  | gate
  deriving DecidableEq, Repr

/-- What the bodies of a script share: the directory, and how many gates were
submitted and executed. -/
structure Notebook where
  directory : Directory
  /-- Whether the directory was left locked. -/
  poisoned : Bool
  gatesSubmitted : UInt64
  gatesExecuted : UInt64

def Notebook.new : Notebook :=
  ⟨[], false, 0, 0⟩

end FiberScheduler.Script
