/-!
# Priorities

Work is drained tier by tier, from the highest to the lowest.
-/

namespace FiberScheduler

inductive Priority where
  | low
  | normal
  | high
  deriving DecidableEq, Repr, Inhabited

namespace Priority

def default : Priority := .normal

def index : Priority → Nat
  | .low => 0
  | .normal => 1
  | .high => 2

/-- Reads an index back; every unknown index means the middle tier. -/
def ofIndex : Nat → Priority
  | 0 => .low
  | 2 => .high
  | _ => .normal

@[simp] theorem ofIndex_index (p : Priority) : ofIndex p.index = p := by
  cases p <;> rfl

def scanOrder : List Priority :=
  [.high, .normal, .low]

theorem mem_scanOrder (p : Priority) : p ∈ scanOrder := by
  cases p <;> decide

def order (p q : Priority) : Ordering :=
  compare p.index q.index

def compareName (p q : Priority) : String :=
  match p.order q with
  | .lt => "Less"
  | .eq => "Equal"
  | .gt => "Greater"

def name : Priority → String
  | .low => "Low"
  | .normal => "Normal"
  | .high => "High"

def ofName? : String → Option Priority
  | "Low" => some .low
  | "Normal" => some .normal
  | "High" => some .high
  | _ => none

end Priority

end FiberScheduler
