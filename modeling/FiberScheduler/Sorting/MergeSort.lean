import FiberScheduler.System.Lifecycle

/-!
# Merge sort on fibers

A long list is halved, each half is sorted by a job of its own, and the fiber of the
caller is parked until both are done. A job leaves its result in a cell.
-/

namespace FiberScheduler.Sorting

/-- Merges two lists; of two equal heads the right one goes first. -/
def merge (left right : List Int32) : List Int32 :=
  List.merge left right fun a b => decide (a < b)

def descents (values : List Int32) : Nat :=
  (values.zip values.tail).countP fun (a, b) => b < a

def leafLength : Nat := 128 * 1024

abbrev Sorted : Type := Except Refusal (List Int32)

structure Task where
  values : List Int32
  cell : Nat

abbrev Cells : Type := Array (Option Sorted)

abbrev Body : Type → Type := Program Task Cells Empty

open Program (ask await)

def sortHalf (group : Nat) (values : List Int32) : Body (Except Refusal Nat) := do
  let cell := (← ask (.access fun cells => cells.push none)).size
  match ← ask (.spawn ⟨values, cell⟩ (some group) .normal .any) with
  | .ok () => return .ok cell
  | .error refusal => return .error refusal

/-- Takes the result out of a cell; a job that left none was stopped. -/
def takeSorted (cell : Nat) : Body Sorted := do
  let cells ← ask (.access fun cells => cells.setIfInBounds cell none)
  return (cells[cell]?).join.getD (.error .stopped)

def takeHalf : Except Refusal Nat → Body Sorted
  | .error refusal => return .error refusal
  | .ok cell => takeSorted cell

def mergeSort (values : List Int32) : Body Sorted := do
  if values.length ≤ leafLength then return .ok (values.mergeSort fun a b => decide (a ≤ b))
  else
    match ← ask .newGroup with
    | .error refusal => return .error refusal
    | .ok group =>
      let (left, right) := values.splitAt ((values.length + 1) / 2)
      let leftCell ← sortHalf group left
      let rightCell ← sortHalf group right
      await group
      let sorted ← show Body Sorted from do
        match ← takeHalf leftCell with
        | .error refusal => return .error refusal
        | .ok left =>
          match ← takeHalf rightCell with
          | .error refusal => return .error refusal
          | .ok right => return .ok (merge left right)
      ask (.dropGroup group)
      return sorted

def body (task : Task) : Body Unit := do
  let sorted ← mergeSort task.values
  discard <| ask (.access fun cells => cells.setIfInBounds task.cell (some sorted))

structure Outcome where
  sorted : Sorted
  counters : Counters
  stop : Option (Except Refusal Unit)
  lastWords : Option String

def patience : Nat := 1000000000

def sortOn (mode : Mode) (host : Host) (config : Config) (priority : Priority) (values : List Int32) :
    Act Empty Unit Outcome := fun _ =>
  match System.new mode host config (#[none] : Cells) () with
  | ⟨.error fault, _, log⟩ => ⟨.error fault, (), log⟩
  | ⟨.ok (.error refusal), _, log⟩ => ⟨.error (.unhandled refusal.describe), (), log⟩
  | ⟨.ok (.ok system), _, log⟩ =>
    let whole : Act Empty (System Task Cells Empty) Outcome := do
      let submitted ← System.execute (Program.run ⟨values, 0⟩ priority .any) []
      let stop ← System.stop body (System.inTurn system.workers.size) patience
      let s ← Act.get
      let sorted := match submitted with
        | some (.error refusal) => .error refusal
        | _ => (s.memory[0]?).join.getD (.error .stopped)
      return ⟨sorted, s.hub.counters, stop, s.lastWords?⟩
    match whole system with
    | ⟨.error fault, _, log'⟩ => ⟨.error fault, (), log ++ log'⟩
    | ⟨.ok outcome, s, log'⟩ =>
      -- A process that is ended leaves no log.
      ⟨.ok outcome, (), if s.aborted then [] else log ++ log'⟩

end FiberScheduler.Sorting
