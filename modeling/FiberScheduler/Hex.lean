/-!
# Hexadecimal words

Words of 64 bits written with sixteen digits, and read with any number of them.
-/

namespace FiberScheduler.Hex

def digits : List Char :=
  "0123456789abcdef".toList

def ofWord (word : UInt64) : String :=
  let short := Nat.toDigits 16 word.toNat
  String.ofList (List.replicate (16 - short.length) '0' ++ short)

def value? (text : List Char) : Option Nat :=
  text.foldlM (fun n c => (digits.idxOf? c.toLower).map (n * 16 + ·)) 0

/-- The word that a text writes: digits, at least one, perhaps behind a plus. -/
def toWord? (text : String) : Option UInt64 := do
  let digits := match text.toList with
    | '+' :: rest => rest
    | all => all
  if digits.isEmpty then none
  let n ← value? digits
  if n < UInt64.size then some n.toUInt64 else none

end FiberScheduler.Hex
