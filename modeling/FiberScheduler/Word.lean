/-!
# Words

Sizes, counts and codes are words: numbers below a power of two.
-/

namespace FiberScheduler

def wordSize (bits : Nat) : Nat :=
  Nat.pow 2 bits

@[simp] theorem wordSize_32 : wordSize 32 = 4294967296 := rfl

@[simp] theorem wordSize_63 : wordSize 63 = 9223372036854775808 := rfl

@[simp] theorem wordSize_64 : wordSize 64 = 18446744073709551616 := rfl

theorem wordSize_pos (bits : Nat) : 0 < wordSize bits :=
  Nat.pow_pos (by decide)

theorem toNat_lt_wordSize_64 (w : UInt64) : w.toNat < wordSize 64 :=
  w.toNat_lt

end FiberScheduler
