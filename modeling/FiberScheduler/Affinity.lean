import FiberScheduler.Word

/-!
# Affinities

An affinity restricts work to one worker or to one of the two pools of workers. It
travels in one word: the three unrestricted forms take the first codes, and worker
`i` takes code `i + 3`.
-/

namespace FiberScheduler

inductive Affinity where
  | any
  | foreground
  | background
  | worker (index : Nat)
  deriving DecidableEq, Repr, Inhabited

namespace Affinity

def default : Affinity := .any

def maxCode : Nat := wordSize 64 - 1

/-- Codes saturate, so the last workers of a word-sized range share one. -/
def encode : Affinity → Nat
  | .any => 0
  | .foreground => 1
  | .background => 2
  | .worker index => min (index + 3) maxCode

def decode : Nat → Affinity
  | 0 => .any
  | 1 => .foreground
  | 2 => .background
  | code + 3 => .worker code

theorem decode_encode {a : Affinity} (h : ∀ i, a = .worker i → i + 3 ≤ maxCode) :
    decode a.encode = a := by
  cases a with
  | worker i => simp [encode, decode, Nat.min_eq_left (h i rfl)]
  | _ => rfl

def describe : Affinity → String
  | .any => "Any"
  | .foreground => "Foreground"
  | .background => "Background"
  | .worker index => s!"Worker({index})"

end Affinity

end FiberScheduler
