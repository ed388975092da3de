/-!
# Pinning

The core each worker thread is bound to. Workers wrap around when there are more
of them than cores.
-/

namespace FiberScheduler

inductive Pinning where
  /-- Threads go wherever the operating system puts them. -/
  | none
  /-- Worker `i` goes to core `i`. -/
  | linear
  /-- Workers go to every other core, the first of each physical pair. -/
  | avoidSMT
  deriving DecidableEq, Repr, Inhabited

namespace Pinning

def default : Pinning := .none

def coreFor (pinning : Pinning) (worker : Nat) (cores : List Nat) : Option Nat :=
  match pinning with
  | .none => Option.none
  | .linear => cores[worker % cores.length]?
  | .avoidSMT =>
    let physical := (cores.length + 1) / 2
    cores[worker % physical * 2]?

def name : Pinning → String
  | .none => "None"
  | .linear => "Linear"
  | .avoidSMT => "AvoidSMT"

def ofName? : String → Option Pinning
  | "None" => some .none
  | "Linear" => some .linear
  | "AvoidSMT" => some .avoidSMT
  | _ => Option.none

end Pinning

end FiberScheduler
