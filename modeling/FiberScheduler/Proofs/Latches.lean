import FiberScheduler.Proofs.Custody

/-!
# Latches

No group counts below zero, and a group that counts zero has nobody on its list. Every
act on groups keeps that, unless an add takes a count past what it can hold.
-/

namespace FiberScheduler

structure Group.Latched (s : Group) : Prop where
  count : 0 ≤ s.count.toInt
  head : s.count = 0 → s.head = none

namespace Hub

open Act

variable {ρ κ : Type} {h h' : Hub κ} {g : Nat} {s : Group} {n : Int32} {job : Nat} {group : Option Nat}
  {p : Priority} {a : Affinity}

def Latched (h : Hub κ) : Prop :=
  ∀ g s, h.groups.get? g = some s → s.Latched

def Roomy (h : Hub κ) (g : Nat) (n : Int32) : Prop :=
  ∀ s ∈ h.groups.get? g, s.count.toInt + n.toInt ≤ Int32.maxValue.toInt

instance (h : Hub κ) (g : Nat) (n : Int32) : Decidable (h.Roomy g n) :=
  inferInstanceAs (Decidable (∀ s ∈ h.groups.get? g, s.count.toInt + n.toInt ≤ Int32.maxValue.toInt))

theorem Latched.of_groups (hl : h.Latched) (hg : h'.groups = h.groups) : h'.Latched := fun g s hs =>
  hl g s (by rwa [hg] at hs)

theorem Latched.store {o₀ o : Option Group} {free : List Nat} (hl : h.Latched)
    (hb : h.groups.cells[g]? = some o₀) (ho : ∀ s, o = some s → s.Latched) : (h.store g o free).Latched :=
      fun k s hk => by
  rw [get?_store hb] at hk
  by_cases hgk : g = k
  · rw [if_pos hgk] at hk
    exact ho s hk
  · rw [if_neg hgk] at hk
    exact hl k s hk

section
variable (hl : h.Latched) (hs : h.groups.get? g = some s)
include hl hs

theorem Latched.handles (handles : UInt32) : (h.store g (some { s with handles }) h.groups.free).Latched :=
  hl.store (block_of_get? hs) fun _ ht => by
    rw [← Option.some.inj ht]
    exact ⟨(hl g s hs).count, (hl g s hs).head⟩

theorem Latched.add (handles : UInt32) (hn : 0 < n) (hroom : h.Roomy g n) :
    (h.store g (some ⟨s.count + n, handles, s.head⟩) h.groups.free).Latched :=
  hl.store (block_of_get? hs) fun _ ht => by
    have hcount := (hl g s hs).count
    have hroom := hroom s hs
    have hmax : Int32.maxValue.toInt = 2147483647 := rfl
    rw [Int32.lt_iff_toInt_lt, Int32.toInt_zero] at hn
    have hsum : (s.count + n).toInt = s.count.toInt + n.toInt := by
      rw [Int32.toInt_add]
      exact Int.bmod_eq_of_le (by omega) (by omega)
    rw [← Option.some.inj ht]
    refine ⟨by rw [hsum]; omega, fun (hzero : s.count + n = 0) => ?_⟩
    rw [hzero, Int32.toInt_zero] at hsum
    omega

theorem Released.latched {r : Except Fault Unit} (hr : Released h g s n r h') (hn : 0 < n) : h'.Latched := by
  cases hr with
  | refused | ignored => exact hl
  | counted hlt =>
    have hsub : (s.count - n).toInt = s.count.toInt - n.toInt :=
      Int32.toInt_sub_of_le _ _ (Int32.le_of_lt hn) (Int32.le_of_lt hlt)
    refine hl.store (block_of_get? hs) fun _ ht => ?_
    rw [Int32.lt_iff_toInt_lt] at hlt
    rw [← Option.some.inj ht]
    refine ⟨by rw [hsub]; omega, fun (hzero : s.count - n = 0) => ?_⟩
    rw [hzero, Int32.toInt_zero] at hsub
    omega
  | woken =>
    exact Latched.of_groups (h := h.store g (some { s with count := 0, head := none }) h.groups.free)
      (hl.store (block_of_get? hs) fun _ ht => by
        rw [← Option.some.inj ht]
        exact ⟨Int.le_refl _, fun _ => rfl⟩) rfl

end

/-! ## Acts on groups -/

/-- A negative step releases the units it asks for, unless they are one more than a count has. -/
theorem toInt_units (hn : n.toInt < 0) (hmin : n ≠ Int32.minValue) : (Group.units n).toInt = -n.toInt := by
  have hne : n.toInt ≠ -2147483648 := fun he => hmin (Int32.toInt_inj.mp he)
  have hle := n.le_toInt
  rw [Group.units, if_neg hmin, Int32.toInt_neg, Int.bmod_eq_of_le (by omega) (by omega)]

theorem units_pos (hn : n < 0) : 0 < Group.units n := by
  rw [Int32.lt_iff_toInt_lt, Int32.toInt_zero] at hn ⊢
  by_cases hmin : n = Int32.minValue
  · rw [hmin]
    decide
  · rw [toInt_units hn hmin]
    omega

section
variable (hl : h.Latched)
include hl

theorem newGroup_latched (ht : h.Tidy) :
    (newGroup : Act ρ (Hub κ) (Except Refusal Nat)).Ends h fun _ h' => h'.Latched := by
  rw [ends_newGroup]
  split
  · exact hl
  · rename_i hf
    refine hl.store (ht.blocks.empty _ (by rw [hf]; exact List.mem_cons_self)) fun _ hs => ?_
    rw [← Option.some.inj hs]
    exact ⟨Int.le_refl _, fun _ => rfl⟩

theorem cloneGroup_latched (g : Nat) : (cloneGroup g : Act ρ (Hub κ) Unit).Ends h fun _ h' => h'.Latched := by
  cases hs : h.groups.get? g with
  | none => exact ends_cloneGroup_dead hs fun _ => hl
  | some s =>
    rw [ends_cloneGroup hs]
    exact hl.handles hs _

theorem dropGroup_latched (g : Nat) : (dropGroup g : Act ρ (Hub κ) Unit).Ends h fun _ h' => h'.Latched := by
  cases hs : h.groups.get? g with
  | none => exact ends_dropGroup_dead hs fun _ => hl
  | some s =>
    rw [ends_dropGroup hs]
    split
    · exact hl.store (block_of_get? hs) fun _ hn => by cases hn
    · exact hl.handles hs _

theorem dropGroups_latched (gs : List Nat) :
    (dropGroups gs : Act ρ (Hub κ) Unit).Ends h fun _ h' => h'.Latched :=
  ends_forM (I := Latched) hl fun g _ _ hl => dropGroup_latched hl g

theorem releaseGroup_latched (ht : h.Tidy) (g : Nat) (hn : 0 < n) :
    (releaseGroup g n : Act ρ (Hub κ) Unit).Ends h fun _ h' => h'.Latched := by
  cases hs : h.groups.get? g with
  | none => exact ends_releaseGroup_dead hs fun _ => hl
  | some s => exact (ends_releaseGroup_cases ht hs).mono fun _ _ hr => hr.latched hl hs hn

theorem addGroup_latched (ht : h.Tidy) (hroom : h.Roomy g n) :
    (addGroup g n : Act ρ (Hub κ) Unit).Ends h fun _ h' => h'.Latched := by
  cases hs : h.groups.get? g with
  | none =>
    simp only [addGroup, ends_ite, ends_bind, ends_discard]
    split
    · exact ends_group_dead hs fun _ => hl
    · split
      · exact ends_releaseGroup_dead hs fun _ => hl
      · exact hl
  | some s =>
    rw [ends_addGroup hs]
    split
    · exact hl.add hs s.handles ‹0 < n› hroom
    · split
      · exact releaseGroup_latched hl ht g (units_pos ‹n < 0›)
      · exact hl

theorem signalAndDrop_latched (ht : h.Tidy) (g : Nat) :
    (signalAndDrop g : Act ρ (Hub κ) Unit).Ends h fun _ h' => h'.Latched := by
  simp only [signalAndDrop, ends_bind, ends_attempt, after_ok]
  refine (releaseGroup_latched hl ht g (by decide)).mono fun r h₁ hl₁ => ?_
  refine (dropGroup_latched hl₁ g).mono fun r' h₂ hl₂ => ?_
  cases r' with
  | error fault => exact hl₂
  | ok _ => exact hl₂

end

/-! ## Submissions and ends of runs -/

theorem enroll_latched (hl : h.Latched) (hroom : ∀ g, group = some g → h.Roomy g 1) :
    (h.enroll group).Latched := by
  cases group with
  | none => exact hl
  | some g =>
    cases hs : h.groups.get? g with
    | none => simpa only [enroll, hs] using hl
    | some s =>
      simp only [enroll, hs]
      exact hl.add hs _ (by decide) (hroom g rfl)

theorem withdraw_latched (hl : h.Latched) (ht : h.Tidy) (group : Option Nat) :
    (withdraw group : Act ρ (Hub κ) Unit).Ends h fun _ h' => h'.Latched := by
  cases group with
  | none => exact hl
  | some g => exact signalAndDrop_latched hl ht g

theorem Scheduled.latched {r : Except Fault (Except Refusal Unit)} (hs : Scheduled ρ h job group p a r h')
    (hl : h.Latched) (ht : h.Tidy) (hroom : ∀ record, h.jobs[job]? = some record → record.scheduled = false →
      ∀ g, group = some g → h.Roomy g 1) :
    h'.Latched := by
  cases hs with
  | declined => exact hl
  | stuck => exact hl.of_groups rfl
  | refused hrec hfree =>
    exact withdraw_latched (ρ := ρ) (enroll_latched hl (hroom _ hrec hfree))
      (steady_enroll ht group).1.tidy group
  | accepted hrec hfree =>
    exact Latched.of_groups (h := h.enroll group) (enroll_latched hl (hroom _ hrec hfree)) rfl

theorem Spawned.latched {code : κ} {r : Except Fault (Except Refusal Unit)}
    (hs : Spawned ρ h code group p a r h') (hl : h.Latched) (ht : h.Tidy)
    (hroom : h.jobs.size + 1 < recordLimit → ∀ g, group = some g → h.Roomy g 1) : h'.Latched := by
  have hnew := (calm_push ht (.new code false true)).1
  cases hs with
  | full => exact hl
  | kept _ hlimit hs => exact hs.latched (hl.of_groups rfl) hnew.tidy fun _ _ _ => hroom hlimit
  | @forgotten refusal h' hlimit hs =>
    exact Latched.of_groups (h := h') (hs.latched (hl.of_groups rfl) hnew.tidy fun _ _ _ => hroom hlimit) rfl

theorem endRun_latched {worker : String} {held : List Nat} {panic : Option Fault} {record : Job κ}
    (hl : h.Latched) (ht : h.Tidy) (hrec : h.jobs[job]? = some record) :
    (endRun worker job held panic : Act ρ (Hub κ) Unit).Ends h fun _ h' => h'.Latched := by
  rw [endRun_eq, ends_bind]
  refine ((dropGroups_latched hl held).and (dropGroups_steady ht held)).mono ?_
  rintro r h₁ ⟨hl₁, hst⟩
  cases r with
  | error fault => exact hl₁
  | ok _ =>
    have hrec₁ : h₁.jobs[job]? = some record := by rw [hst.rest]; exact hrec
    rw [after_ok, ends_finish hrec₁]
    refine (withdraw_latched ?_ ?_ _).mono fun r h₂ hl₂ => ?_
    · exact hl₁.of_groups rfl
    · exact hst.tidy.of_lanes rfl rfl (fun _ hr => hr) rfl
    · cases r with
      | error fault => exact hl₂
      | ok _ => exact hl₂.of_groups rfl

theorem withParked_latched {state : Group} {fiber : Nat} (hl : h.Latched) (hs : h.groups.get? g = some state)
    (hcount : state.count ≠ 0) : (h.withParked g state fiber p a).Latched :=
  Latched.of_groups (h := h.store g (some { state with head := some fiber }) h.groups.free)
    (hl.store (block_of_get? hs) fun _ ht => by
      rw [← Option.some.inj ht]
      exact ⟨(hl g state hs).count, fun hzero => absurd hzero hcount⟩) rfl

end Hub

end FiberScheduler
