/-!
# Scrambled values

A sequence of 32-bit words, each scrambled from the one before by three shifts and
exclusive ors.
-/

namespace FiberScheduler.Sorting

def scramble (w : UInt32) : UInt32 :=
  let w := w ^^^ (w <<< 13)
  let w := w ^^^ (w >>> 17)
  w ^^^ (w <<< 5)

def randomValues.go : (n : Nat) → UInt32 → List Int32 → List Int32
  | 0, _, values => values
  | n + 1, w, values => go n (scramble w) ((scramble w).toInt32 :: values)

def randomValues (n : Nat) (seed : UInt32) : List Int32 :=
  (randomValues.go n seed []).reverse

end FiberScheduler.Sorting
