import FiberScheduler.Context.Region
import FiberScheduler.Proofs.Acts

/-!
# Carved regions

A region that is carved holds its stack and its record apart from each other, and
every region that is large enough is carved, however it is aligned. The words that
the carving computes with do not overflow, except where a region of a few bytes
begins in the last row of the address space.
-/

namespace FiberScheduler.Stack

open Act

variable {ρ σ : Type} {start size : Nat} {x : σ}

structure Fits (stack : Stack) (start size : Nat) : Prop where
  record : alignment ∣ stack.record
  aligned : alignment ∣ stack.base ∧ alignment ∣ stack.limit
  above : start ≤ stack.limit
  nonempty : stack.limit < stack.base
  below : stack.base ≤ stack.record
  room : minStackSize ≤ stack.base - stack.limit
  inside : stack.record + recordSize ≤ start + size

def layout (start size : Nat) : Stack where
  record := alignDown (start + size - recordSize)
  base := alignDown (alignDown (start + size - recordSize))
  limit := alignDown (start + alignment - 1)

/-! ## Rounding to the alignment -/

theorem alignment_dvd_alignDown (address : Nat) : alignment ∣ alignDown address :=
  Nat.dvd_mul_left _ _

theorem alignDown_le (address : Nat) : alignDown address ≤ address :=
  Nat.div_mul_le_self _ _

theorem lt_alignDown_add (address : Nat) : address < alignDown address + alignment := by
  unfold alignDown alignment
  omega

/-- Rounding an address up, from the address past the last one in its row. -/
theorem le_alignDown_pred (address : Nat) : address ≤ alignDown (address + alignment - 1) := by
  unfold alignDown alignment
  omega

theorem alignDown_alignDown (address : Nat) : alignDown (alignDown address) = alignDown address :=
  congrArg (· * alignment) (Nat.mul_div_cancel _ (by decide))

/-! ## Carving -/

theorem carve_apply (mode : Mode) (x : σ) (hstart : 0 < start)
    (hroom : start + alignment < wordSize 64 ∨ wordSize 64 ≤ start + size) :
    (carve mode start size : Act ρ σ (Option Stack)) x =
      if wordSize 64 ≤ start + size ∨ start + size < recordSize then ⟨.ok none, x, []⟩
      else if (layout start size).record < start ∨
        (layout start size).base < (layout start size).limit + minStackSize then
        ⟨.ok none, x, [.notice (.stackTooSmall size)]⟩
      else ⟨.ok (some (layout start size)), x, []⟩ := by
  unfold carve
  by_cases hend : wordSize 64 ≤ start + size ∨ start + size < recordSize
  · simp only [hend, if_true]
    rfl
  · have hadd : mode.word .add 64 (start + alignment) = .ok (start + alignment) := Mode.word_of_lt (by omega)
    have hsub : mode.difference 64 (start + alignment) 1 = .ok (start + alignment - 1) := by
      unfold Mode.difference
      rw [if_pos (by unfold alignment; omega)]
    simp only [hend, if_false]
    rw [lift_bind _ _ hadd, lift_bind _ _ hsub]
    change (if (layout start size).record < start ∨
      (layout start size).base ≤ (layout start size).limit then refuse size
      else do
        let room ← Act.lift (mode.difference 64 (layout start size).base (layout start size).limit)
        if room < minStackSize then refuse size
        else if (layout start size).limit = 0 then pure none
        else pure (some (layout start size)) : Act ρ σ (Option Stack)) x = _
    have hpositive : 0 < (layout start size).limit := Nat.lt_of_lt_of_le hstart (le_alignDown_pred start)
    have hmin : 0 < minStackSize := by decide
    by_cases hlow : (layout start size).record < start ∨ (layout start size).base ≤ (layout start size).limit
    · rw [if_pos hlow, if_pos (by omega)]
      rfl
    · have hdiff : mode.difference 64 (layout start size).base (layout start size).limit =
          .ok ((layout start size).base - (layout start size).limit) := by
        unfold Mode.difference
        rw [if_pos (by omega)]
      rw [if_neg hlow, lift_bind _ _ hdiff]
      by_cases hshort : (layout start size).base - (layout start size).limit < minStackSize
      · rw [if_pos hshort, if_pos (by omega)]
        rfl
      · rw [if_neg hshort, if_neg (by omega), if_neg (by omega)]
        rfl

theorem yields_carve {mode : Mode} (x : σ) :
    (carve mode start size : Act ρ σ (Option Stack)).Yields x fun carved =>
    carved.isSome = true → start + size < wordSize 64 ∧ 0 < size := by
  unfold carve
  dsimp only
  by_cases hend : wordSize 64 ≤ start + size ∨ start + size < recordSize
  · rw [if_pos hend]
    exact yields_pure fun h => by cases h
  rw [if_neg hend]
  refine (yields_any _ x).bind fun padded y _ => (yields_any _ y).bind fun rounded z _ => ?_
  by_cases hlow : alignDown (start + size - recordSize) < start ∨
    alignDown (alignDown (start + size - recordSize)) ≤ alignDown rounded
  · rw [if_pos hlow]
    exact (yields_any _ z).bind fun _ _ _ => yields_pure fun h => by cases h
  · have hle := alignDown_le (start + size - recordSize)
    have hrecord : 0 < recordSize := by decide
    exact fun _ _ _ => ⟨by omega, by omega⟩

theorem fits_layout (hend : recordSize ≤ start + size)
    (hbase : (layout start size).limit + minStackSize ≤ (layout start size).base) :
    (layout start size).Fits start size where
  record := alignment_dvd_alignDown _
  aligned := ⟨alignment_dvd_alignDown _, alignment_dvd_alignDown _⟩
  above := le_alignDown_pred start
  nonempty := by
    have hmin : 0 < minStackSize := by decide
    omega
  below := alignDown_le _
  room := by omega
  inside := by
    have hrec : (layout start size).record ≤ start + size - recordSize := alignDown_le _
    omega

/-- A region that leaves room for the rounding at both ends is large enough. -/
theorem layout_of_large (start : Nat) (hsize : minStackSize + recordSize + 30 ≤ size) :
    start ≤ (layout start size).record ∧
      (layout start size).limit + minStackSize ≤ (layout start size).base := by
  have hrecord := lt_alignDown_add (start + size - recordSize)
  have hlimit : (layout start size).limit ≤ start + alignment - 1 := alignDown_le _
  have hbase : (layout start size).base = alignDown (start + size - recordSize) := alignDown_alignDown _
  have hmin : minStackSize = 16384 := rfl
  have halign : alignment = 16 := rfl
  have hrec : recordSize = 56 := rfl
  constructor
  · show start ≤ alignDown (start + size - recordSize)
    omega
  · omega

theorem carve_of_large (mode : Mode) (x : σ) (hstart : 0 < start) (hend : start + size < wordSize 64)
    (hsize : minStackSize + recordSize + 30 ≤ size) :
    (carve mode start size : Act ρ σ (Option Stack)) x = ⟨.ok (some (layout start size)), x, []⟩ := by
  have halign : alignment = 16 := rfl
  have hrecord : recordSize = 56 := rfl
  have hmin : minStackSize = 16384 := rfl
  obtain ⟨hrec, hroom⟩ := layout_of_large start hsize
  rw [carve_apply mode x hstart (Or.inl (by omega)), if_neg (by omega), if_neg (by omega)]

/-! ## The end of the address space -/

section
variable (x : σ) (hpadded : wordSize 64 ≤ start + alignment) (hend : start + size < wordSize 64)
include hpadded hend

theorem carve_at_end : (carve .strict start size : Act ρ σ (Option Stack)) x =
    ⟨.error (.overflow .add), x, []⟩ := by
  have hadd : Mode.strict.word .add 64 (start + alignment) = .error (.overflow .add) := if_neg (by omega)
  have halign : alignment = 16 := rfl
  have hrecord : recordSize = 56 := rfl
  have hword : wordSize 64 = 18446744073709551616 := rfl
  unfold carve
  rw [if_neg (by omega), lift_bind_error _ _ hadd]

/-- A region there is too small in any case. -/
theorem no_stack_at_end (mode : Mode) (stack : Stack) :
    ((carve mode start size : Act ρ σ (Option Stack)) x).result ≠ .ok (some stack) := by
  cases mode with
  | strict =>
    rw [carve_at_end x hpadded hend]
    intro h
    cases h
  | lenient =>
    have halign : alignment = 16 := rfl
    have hrecord : recordSize = 56 := rfl
    have hword : wordSize 64 = 18446744073709551616 := rfl
    have hle := alignDown_le (start + size - recordSize)
    have hlow : alignDown (start + size - recordSize) < start := by omega
    obtain ⟨padded, hadd⟩ := Mode.word_lenient .add 64 (start + alignment)
    obtain ⟨rounded, hsub⟩ := Mode.difference_lenient 64 padded 1
    unfold carve
    rw [if_neg (by omega), lift_bind _ _ hadd, lift_bind _ _ hsub, if_pos (Or.inl hlow)]
    intro h
    cases h

end

section
variable (x : σ) (hstart : 0 < start)
include hstart

theorem carve_agrees (hroom : start + alignment < wordSize 64 ∨ wordSize 64 ≤ start + size) :
    ∃ carved log, ∀ mode, (carve mode start size : Act ρ σ (Option Stack)) x = ⟨.ok carved, x, log⟩ := by
  by_cases hend : wordSize 64 ≤ start + size ∨ start + size < recordSize
  · refine ⟨none, [], fun mode => ?_⟩
    rw [carve_apply mode x hstart hroom, if_pos hend]
  by_cases hsmall : (layout start size).record < start ∨
    (layout start size).base < (layout start size).limit + minStackSize
  · refine ⟨none, [.notice (.stackTooSmall size)], fun mode => ?_⟩
    rw [carve_apply mode x hstart hroom, if_neg hend, if_pos hsmall]
  · refine ⟨some (layout start size), [], fun mode => ?_⟩
    rw [carve_apply mode x hstart hroom, if_neg hend, if_neg hsmall]

theorem fits_of_carve {mode : Mode} {stack : Stack}
    (hcarved : ((carve mode start size : Act ρ σ (Option Stack)) x).result = .ok (some stack)) :
      stack.Fits start size := by
  by_cases hroom : start + alignment < wordSize 64 ∨ wordSize 64 ≤ start + size
  · rw [carve_apply mode x hstart hroom] at hcarved
    split at hcarved
    · cases hcarved
    split at hcarved
    · cases hcarved
    · cases hcarved
      exact fits_layout (by omega) (by omega)
  · exact absurd hcarved (no_stack_at_end x (by omega) (by omega) mode stack)

/-- Carving a region, at any address and of any size. Nothing overflows, and both modes come to
the same, exactly where the first address past the row of the start is a word, or the region
wraps; a strict carving stops at the overflow otherwise. Every stack that is carved fits its
region, and a region that is large enough gets one. -/
theorem regions_carved_soundly :
    ((∃ carved log, ∀ mode, (carve mode start size : Act ρ σ (Option Stack)) x = ⟨.ok carved, x, log⟩) ↔
      start + alignment < wordSize 64 ∨ wordSize 64 ≤ start + size) ∧
    (((carve .strict start size : Act ρ σ (Option Stack)) x).result = .error (.overflow .add) ↔
      wordSize 64 ≤ start + alignment ∧ start + size < wordSize 64) ∧
    (∀ mode stack, ((carve mode start size : Act ρ σ (Option Stack)) x).result = .ok (some stack) →
      stack.Fits start size) ∧
    (start + size < wordSize 64 → minStackSize + recordSize + 30 ≤ size →
      ∃ stack, ∀ mode, (carve mode start size : Act ρ σ (Option Stack)) x = ⟨.ok (some stack), x, []⟩) := by
  have hcalm :
      (∃ carved log, ∀ mode, (carve mode start size : Act ρ σ (Option Stack)) x = ⟨.ok carved, x, log⟩) →
        ((carve .strict start size : Act ρ σ (Option Stack)) x).result ≠ .error (.overflow .add) := by
    rintro ⟨carved, log, hcarve⟩ hfault
    rw [hcarve] at hfault
    cases hfault
  -- In the last row the padded start is past the address space.
  have hedge : ¬(start + alignment < wordSize 64 ∨ wordSize 64 ≤ start + size) →
      ((carve .strict start size : Act ρ σ (Option Stack)) x).result = .error (.overflow .add) := by
    intro hno
    rw [carve_at_end x (by omega) (by omega)]
  refine ⟨⟨fun hagree => ?_, carve_agrees x hstart⟩, ⟨fun hfault => ?_, fun h => hedge (by omega)⟩,
    fun mode stack => fits_of_carve x hstart,
    fun hend hsize => ⟨layout start size, fun mode => carve_of_large mode x hstart hend hsize⟩⟩
  · exact Classical.byContradiction fun hno => hcalm hagree (hedge hno)
  · exact Classical.byContradiction fun hno => hcalm (carve_agrees x hstart (by omega)) hfault

end

/-- One byte past an aligned address, a region of the least size that is always enough. -/
theorem misaligned_region_carved :
    0 < 65537 ∧ 65537 + alignment < wordSize 64 ∧ minStackSize + recordSize + 30 = 16470 ∧
    ∃ stack, (∀ mode, (carve mode 65537 16470 : Act Unit Unit (Option Stack))
      () = ⟨.ok (some stack), (), []⟩) ∧
      stack.Fits 65537 16470 := by
  obtain ⟨-, -, hfits, hlarge⟩ := @regions_carved_soundly Unit Unit 65537 16470 () (by decide)
  obtain ⟨stack, hcarved⟩ := hlarge (by decide) (by decide)
  refine ⟨by decide, by decide, by decide, stack, hcarved, hfits .strict stack ?_⟩
  rw [hcarved]

/-- A byte in the last row of the address space is not turned down everywhere. -/
theorem last_row_overflows : 0 < 18446744073709551600 ∧ 18446744073709551600 = wordSize 64 - alignment ∧
    (carve .strict 18446744073709551600 1 : Act Unit Unit (Option Stack))
    () = ⟨.error (.overflow .add), (), []⟩ ∧
      (carve .lenient 18446744073709551600 1 : Act Unit Unit (Option Stack))
      () = ⟨.ok none, (), [.notice (.stackTooSmall 1)]⟩ :=
  ⟨by decide, by decide, carve_at_end () (by decide) (by decide), by rfl⟩

end FiberScheduler.Stack
