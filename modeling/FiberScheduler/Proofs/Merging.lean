import FiberScheduler.Sorting.MergeSort

/-!
# Merging and halving

What a sort does to its values besides submitting jobs: it halves them, merges sorted halves,
and sorts a short list in one go.
-/

namespace FiberScheduler.Sorting

variable {left right values a b : List Int32}

structure Sorts (sorted values : List Int32) : Prop where
  ordered : sorted.Pairwise (· ≤ ·)
  perm : sorted.Perm values

theorem le_trans_decide (x y z : Int32) (hxy : decide (x ≤ y)) (hyz : decide (y ≤ z)) : decide (x ≤ z) := by
  rw [decide_eq_true_eq] at hxy hyz ⊢
  exact Int32.le_trans hxy hyz

theorem le_total_decide (x y : Int32) : decide (x ≤ y) || decide (y ≤ x) := by
  simpa using Int32.le_total x y

/-! ## Merging -/

theorem merge_perm (left right : List Int32) : (merge left right).Perm (left ++ right) := by
  unfold merge
  apply List.merge_perm_append

/-- To let the right head go first among equals is to merge in the other order. -/
theorem merge_eq_flip (left right : List Int32) :
    merge left right = List.merge right left fun a b => decide (a ≤ b) := by
  induction left generalizing right with
  | nil => simp [merge]
  | cons a left ih =>
    induction right with
    | nil => simp [merge]
    | cons b right ihr =>
      unfold merge at ih ihr ⊢
      rw [List.cons_merge_cons, List.cons_merge_cons]
      by_cases hab : a < b
      · have hba : ¬b ≤ a := Int32.not_le.mpr hab
        simp [hab, hba, ih]
      · have hba : b ≤ a := Int32.not_lt.mp hab
        simp [hab, hba, ihr]

theorem merge_sorts (ha : Sorts a left) (hb : Sorts b right) : Sorts (merge a b) (left ++ right) where
  ordered := by
    have hmerged := List.pairwise_merge le_trans_decide le_total_decide b a (by simpa using hb.ordered)
      (by simpa using ha.ordered)
    rw [merge_eq_flip]
    simpa using hmerged
  perm := (merge_perm a b).trans (ha.perm.append hb.perm)

theorem leaf_sorts (values : List Int32) : Sorts (values.mergeSort fun a b => decide (a ≤ b)) values where
  ordered := by simpa using List.pairwise_mergeSort le_trans_decide le_total_decide values
  perm := List.mergeSort_perm ..

/-! ## Halving -/

/-- The first half, which has the one more value of an odd number. -/
def leftHalf (values : List Int32) : List Int32 :=
  values.take ((values.length + 1) / 2)

def rightHalf (values : List Int32) : List Int32 :=
  values.drop ((values.length + 1) / 2)

theorem halves_append (values : List Int32) : leftHalf values ++ rightHalf values = values :=
  List.take_append_drop ..

theorem one_lt_length (hlong : ¬values.length ≤ leafLength) : 1 < values.length := by
  unfold leafLength at hlong
  omega

theorem leftHalf_shorter (hlong : ¬values.length ≤ leafLength) :
    (leftHalf values).length < values.length := by
  have hmany := one_lt_length hlong
  rw [leftHalf, List.length_take]
  omega

theorem rightHalf_shorter (hlong : ¬values.length ≤ leafLength) :
    (rightHalf values).length < values.length := by
  have hmany := one_lt_length hlong
  rw [rightHalf, List.length_drop]
  omega

theorem half_shorter {half : List Int32} (hlong : ¬values.length ≤ leafLength)
    (h : half ∈ [leftHalf values, rightHalf values]) :
    half.length < values.length := by
  obtain rfl | h := List.mem_cons.mp h
  · exact leftHalf_shorter hlong
  · obtain rfl := List.mem_singleton.mp h
    exact rightHalf_shorter hlong

end FiberScheduler.Sorting
