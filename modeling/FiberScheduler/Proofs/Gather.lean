/-!
# Collecting from arrays

`gather f xs` lists what `f` finds in the elements of an array. Writing one element
replaces what was found there, up to the order of the list.
-/

namespace FiberScheduler

variable {α β : Type}

def gather (f : α → List β) (xs : Array α) : List β :=
  xs.toList.flatMap f

theorem mem_gather {f : α → List β} {xs : Array α} {b : β} :
    b ∈ gather f xs ↔ ∃ (i : Nat) (a : α), xs[i]? = some a ∧ b ∈ f a := by
  unfold gather
  rw [List.mem_flatMap]
  constructor
  · rintro ⟨a, ha, hb⟩
    obtain ⟨i, hi⟩ := List.mem_iff_getElem?.mp ha
    exact ⟨i, a, by simpa using hi, hb⟩
  · rintro ⟨i, a, hi, hb⟩
    exact ⟨a, List.mem_iff_getElem?.mpr ⟨i, by simpa using hi⟩, hb⟩

theorem gather_push (f : α → List β) (xs : Array α) (a : α) : gather f (xs.push a) = gather f xs ++ f a := by
  simp [gather]

theorem gather_replicate (f : α → List β) (n : Nat) {a : α} (ha : f a = []) :
    gather f (Array.replicate n a) = [] := by
  simp only [gather, Array.toList_replicate, List.flatMap_eq_nil_iff]
  intro b hb
  rw [(List.mem_replicate.mp hb).2, ha]

theorem flatMap_set_perm (f : α → List β) : ∀ {l : List α} {i : Nat} {a : α} (b : α), l[i]? = some a →
    ((l.set i b).flatMap f ++ f a).Perm (l.flatMap f ++ f b)
  | c :: l, 0, a, b, h => by
    obtain rfl : c = a := by simpa using h
    rw [List.set_cons_zero, List.flatMap_cons, List.flatMap_cons]
    refine List.perm_append_comm.trans ?_
    rw [← List.append_assoc, List.append_assoc]
    refine (List.Perm.append_left _ List.perm_append_comm).trans ?_
    rw [← List.append_assoc]
  | c :: l, i + 1, a, b, h => by
    rw [List.set_cons_succ, List.flatMap_cons, List.flatMap_cons, List.append_assoc, List.append_assoc]
    exact List.Perm.append_left _ (flatMap_set_perm f b (by simpa using h))

theorem modify_eq_set {xs : Array α} {i : Nat} {a : α} (g : α → α) (h : xs[i]? = some a) :
    xs.modify i g = xs.setIfInBounds i (g a) := by
  apply Array.ext_getElem?
  intro j
  rw [Array.getElem?_modify, Array.getElem?_setIfInBounds]
  by_cases hij : i = j
  · subst hij
    obtain ⟨hi, rfl⟩ := Array.getElem?_eq_some_iff.mp h
    simp [hi]
  · simp [hij]

theorem modify_eq_self {xs : Array α} {i : Nat} (g : α → α) (h : xs[i]? = none) : xs.modify i g = xs := by
  apply Array.ext_getElem?
  intro j
  rw [Array.getElem?_modify]
  by_cases hij : i = j
  · subst hij; simp [h]
  · simp [hij]

theorem getElem?_set {xs : Array α} {i : Nat} {a : α} (b : α) (h : xs[i]? = some a) (j : Nat) :
    (xs.setIfInBounds i b)[j]? = if i = j then some b else xs[j]? := by
  obtain ⟨hi, _⟩ := Array.getElem?_eq_some_iff.mp h
  rw [Array.getElem?_setIfInBounds]
  by_cases hij : i = j
  · subst hij; simp [hi]
  · simp [hij]

theorem set_self {xs : Array α} {i : Nat} {a : α} (h : xs[i]? = some a) : xs.setIfInBounds i a = xs := by
  apply Array.ext_getElem?
  intro k
  rw [getElem?_set a h]
  by_cases hk : i = k
  · rw [if_pos hk, ← hk, h]
  · rw [if_neg hk]

section
variable (f : α → List β) {xs : Array α} {i : Nat} {a : α} (b : α) (h : xs[i]? = some a)
include h

theorem gather_set_perm : (gather f (xs.setIfInBounds i b) ++ f a).Perm (gather f xs ++ f b) := by
  unfold gather
  rw [Array.toList_setIfInBounds]
  exact flatMap_set_perm f b (by simpa using h)

theorem count_gather_set [BEq β] [LawfulBEq β] (x : β) :
    (gather f (xs.setIfInBounds i b)).count x + (f a).count x = (gather f xs).count x + (f b).count x := by
  have := (gather_set_perm f b h).count_eq x
  rwa [List.count_append, List.count_append] at this

theorem length_gather_set :
    (gather f (xs.setIfInBounds i b)).length + (f a).length = (gather f xs).length + (f b).length := by
  have := (gather_set_perm f b h).length_eq
  rwa [List.length_append, List.length_append] at this

end

theorem gather_set_of_eq (f : α → List β) {xs : Array α} {i : Nat} {a b : α} (h : xs[i]? = some a)
    (hf : f b = f a) :
    gather f (xs.setIfInBounds i b) = gather f xs := by
  unfold gather
  rw [Array.toList_setIfInBounds, List.flatMap_def, List.flatMap_def, List.map_set, hf]
  congr 1
  apply List.ext_getElem?
  intro j
  rw [List.getElem?_set]
  by_cases hij : i = j
  · subst hij
    obtain ⟨hi, rfl⟩ := Array.getElem?_eq_some_iff.mp h
    simp [hi]
  · simp [hij]

theorem flatMap_congr_left {f g : α → List β} {l : List α} (h : ∀ a ∈ l, f a = g a) :
    l.flatMap f = l.flatMap g := by
  induction l with
  | nil => rfl
  | cons a l ih =>
    rw [List.flatMap_cons, List.flatMap_cons, h a List.mem_cons_self,
      ih fun b hb => h b (List.mem_cons_of_mem a hb)]

theorem gather_congr {f g : α → List β} {xs : Array α}
    (h : ∀ (i : Nat) (a : α), xs[i]? = some a → f a = g a) :
    gather f xs = gather g xs :=
  flatMap_congr_left fun a ha => by
    obtain ⟨i, hi⟩ := List.mem_iff_getElem?.mp ha
    exact h i a (by simpa using hi)

theorem flatMap_once [BEq β] [LawfulBEq β] {f : α → List β} {x : β} :
    ∀ {l : List α}, (l.flatMap f).count x = 1 →
    ∃ (i : Nat) (a : α), l[i]? = some a ∧ (f a).count x = 1 ∧ ∀ (j : Nat) (b : α), l[j]? = some b →
      j ≠ i → x ∉ f b
  | c :: l, h => by
    rw [List.flatMap_cons, List.count_append] at h
    by_cases hx : x ∈ f c
    · have hpos := List.count_pos_iff.mpr hx
      have hrest : x ∉ l.flatMap f := List.count_eq_zero.mp (by omega)
      refine ⟨0, c, rfl, by omega, fun j b hj hne hb => ?_⟩
      cases j with
      | zero => exact hne rfl
      | succ j => exact hrest (List.mem_flatMap.mpr ⟨b, List.mem_of_getElem? hj, hb⟩)
    · rw [List.count_eq_zero.mpr hx, Nat.zero_add] at h
      obtain ⟨i, a, hi, ha, hall⟩ := flatMap_once h
      refine ⟨i + 1, a, hi, ha, fun j b hj hne => ?_⟩
      cases j with
      | zero => rwa [← Option.some.inj hj]
      | succ j => exact hall j b hj fun he => hne (congrArg (· + 1) he)

theorem gather_once [BEq β] [LawfulBEq β] {f : α → List β} {x : β} {xs : Array α}
    (h : (gather f xs).count x = 1) :
    ∃ (i : Nat) (a : α), xs[i]? = some a ∧ (f a).count x = 1 ∧
      ∀ (j : Nat) (b : α), xs[j]? = some b → j ≠ i → x ∉ f b := by
  obtain ⟨i, a, hi, ha, hall⟩ := flatMap_once h
  exact ⟨i, a, by simpa using hi, ha, fun j b hj => hall j b (by simpa using hj)⟩

end FiberScheduler
