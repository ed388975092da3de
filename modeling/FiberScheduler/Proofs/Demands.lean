import FiberScheduler.Proofs.Wakeups

/-!
# Exact counts

An add or a signal changes the count of a group by exactly what it asks for, or it is
refused: just where the exact result is no count. There are two exceptions, both at the
largest count. An add past it wraps, and an add of the least number, which stands for one
unit more than a count can have, takes the largest count to zero.
-/

namespace FiberScheduler

inductive Demand where
  | add (n : Int32)
  | signal
  deriving DecidableEq, Repr

def Countable (n : Int) : Prop :=
  0 ≤ n ∧ n ≤ Int32.maxValue.toInt

instance (n : Int) : Decidable (Countable n) :=
  inferInstanceAs (Decidable (0 ≤ n ∧ n ≤ Int32.maxValue.toInt))

namespace Demand

def amount : Demand → Int
  | .add n => n.toInt
  | .signal => -1

def units : Demand → Int32
  | .add n => Group.units n
  | .signal => 1

def next (count : Int) (d : Demand) : Int :=
  if Countable (count + d.amount) then count + d.amount else count

/-- A demand that is not one of the two exceptions. -/
def Fits (count : Int) : Demand → Prop
  | .add n => count + n.toInt ≤ Int32.maxValue.toInt ∧ ¬(n = Int32.minValue ∧ count = Int32.maxValue.toInt)
  | .signal => True

instance (count : Int) : ∀ d : Demand, Decidable (d.Fits count)
  | .add n => inferInstanceAs (Decidable (count + n.toInt ≤ Int32.maxValue.toInt ∧
      ¬(n = Int32.minValue ∧ count = Int32.maxValue.toInt)))
  | .signal => .isTrue trivial

def FitAll : (count : Int) → List Demand → Prop
  | _, [] => True
  | count, d :: ds => d.Fits count ∧ FitAll (d.next count) ds

instance FitAll.decidable : ∀ (ds : List Demand) (count : Int), Decidable (FitAll count ds)
  | [], _ => .isTrue trivial
  | d :: ds, count =>
    have : Decidable (FitAll (d.next count) ds) := FitAll.decidable ds (d.next count)
    inferInstanceAs (Decidable (d.Fits count ∧ FitAll (d.next count) ds))

variable {ρ κ : Type}

def act (g : Nat) : Demand → Act ρ (Hub κ) Unit
  | .add n => Hub.addGroup g n
  | .signal => Hub.signal g

def actAll (g : Nat) (ds : List Demand) : Act ρ (Hub κ) Unit :=
  ds.forM fun d => discard (d.act g).attempt

/-- The law of exact counts for one demand on a group: it is granted in full and without
a notice where the result is a count; otherwise it is refused, as the mode has it, and
nothing changes. -/
structure Exact (h : Hub κ) (g : Nat) (t : Group) (d : Demand) (o : Outcome ρ (Hub κ) Unit) : Prop where
  granted : Countable (t.count.toInt + d.amount) → o.result = .ok () ∧ o.log = [] ∧
    (∃ t', o.state.groups.get? g = some t' ∧ t'.count.toInt = t.count.toInt + d.amount ∧
      t'.handles = t.handles) ∧
    ∀ k, k ≠ g → o.state.groups.get? k = h.groups.get? k
  refused : ¬Countable (t.count.toInt + d.amount) → o =
    ⟨if h.mode = .strict then .error (.overSignaled t.count.toInt d.units.toInt) else .ok (), h,
      [.notice (.overSignaled t.count.toInt d.units.toInt)]⟩

end Demand

/-! ## Acts without notices -/

namespace Act

variable {ρ σ τ α β : Type}

def Quiet (x : Act ρ σ α) : Prop :=
  ∀ s, (x s).log = []

theorem Quiet.bind {x : Act ρ σ α} {f : α → Act ρ σ β} (hx : x.Quiet) (hf : ∀ a, (f a).Quiet) :
    (x >>= f).Quiet := fun s => by
  have hlog := hx s
  rcases h : x s with ⟨fault | a, t, log⟩
  · rw [bind_of_error s h]
    rwa [h] at hlog
  · rw [h] at hlog
    rw [bind_of_ok s h, hf a t, List.append_nil]
    exact hlog

theorem Quiet.discard {x : Act ρ σ α} (hx : x.Quiet) : (Functor.discard x).Quiet :=
  Quiet.bind (f := fun _ => pure ()) hx fun _ _ => rfl

theorem Quiet.zoom {view : σ → τ} {put : σ → τ → σ} {x : Act ρ τ α} (hx : x.Quiet) :
    (zoom view put x).Quiet :=
  fun s => hx (view s)

theorem Quiet.forM {f : α → Act ρ σ Unit} (hf : ∀ a, (f a).Quiet) (xs : List α) :
    (xs.forM f : Act ρ σ PUnit).Quiet := by
  induction xs with
  | nil => exact fun _ => rfl
  | cons a xs ih => exact (hf a).bind fun _ => ih

end Act

namespace Hub

open Act

variable {ρ κ : Type} {h : Hub κ} {g : Nat} {t : Group} {n : Int32}

theorem quiet_group (g : Nat) : (group g : Act ρ (Hub κ) Group).Quiet := by
  refine Quiet.zoom (Quiet.bind (fun _ => rfl) fun pool => ?_)
  rcases pool.live[g]? with _ | _ | _ <;> rcases (pool.blocks[g]?).join with _ | s <;> exact fun _ => rfl

theorem quiet_makeReady (fiber : Nat) : (makeReady fiber : Act ρ (Hub κ) Unit).Quiet := by
  refine Quiet.bind (fun _ => rfl) fun h => ?_
  rcases h.links[fiber]? with _ | link
  · exact fun _ => rfl
  · exact Quiet.bind (fun _ => rfl) fun _ _ => rfl

theorem quiet_wake (g : Nat) : (wake g : Act ρ (Hub κ) Unit).Quiet :=
  (quiet_group g).bind fun _ => Quiet.bind (fun _ => rfl) fun _ => Quiet.bind (fun _ => rfl) fun _ =>
    Quiet.forM quiet_makeReady _

section
variable (hs : h.groups.get? g = some t)
include hs

theorem log_releaseGroup (hn : n ≤ t.count) : ((releaseGroup g n : Act ρ (Hub κ) Unit) h).log = [] := by
  have hnot : ¬t.count < n := fun hlt => Int32.lt_irrefl (Int32.lt_of_le_of_lt hn hlt)
  unfold releaseGroup
  rw [bind_quiet _ (group_apply hs), if_neg hnot]
  refine Quiet.bind (fun _ => rfl) (fun _ => ?_) h
  split
  · exact quiet_wake g
  · exact fun _ => rfl

omit hs in
theorem log_addGroup (hn : 0 < n) : ((addGroup g n : Act ρ (Hub κ) Unit) h).log = [] := by
  unfold addGroup
  rw [if_pos hn]
  exact Quiet.bind (quiet_group g).discard (fun _ _ => rfl) h

theorem releaseGroup_granted (ht : h.Tidy) (hpos : 0 < n) (hn : n ≤ t.count) :
    (releaseGroup g n : Act ρ (Hub κ) Unit).Ends h fun r h' => r = .ok () ∧
      (∃ t', h'.groups.get? g = some t' ∧ t'.count.toInt = t.count.toInt - n.toInt ∧ t'.handles = t.handles) ∧
      ∀ k, k ≠ g → h'.groups.get? k = h.groups.get? k := by
  have hb := block_of_get? hs
  refine (ends_releaseGroup_cases ht hs).mono fun r h' hr => ?_
  cases hr with
  | refused hlt | ignored hlt => exact absurd (Int32.lt_of_lt_of_le hlt hn) Int32.lt_irrefl
  | counted =>
    refine ⟨rfl, ⟨_, (get?_store hb g).trans (if_pos rfl), ?_, rfl⟩,
      fun k hk => (get?_store hb k).trans (if_neg (Ne.symm hk))⟩
    exact Int32.toInt_sub_of_le _ _ (Int32.le_of_lt hpos) hn
  | woken heq =>
    refine ⟨rfl, ⟨_, (get?_store hb g).trans (if_pos rfl), ?_, rfl⟩,
      fun k hk => (get?_store hb k).trans (if_neg (Ne.symm hk))⟩
    show (0 : Int) = _
    rw [heq]
    omega

end

end Hub

/-! ## One demand -/

namespace Demand

open Act Hub

variable {ρ κ : Type} {h : Hub κ} {g : Nat} {t : Group} {n : Int32}

/-- Where a negative add fits, the units it takes off are those it asks for, or there are
not as many in either case. -/
theorem units_of_fits (hn : n.toInt < 0) (hd : (Demand.add n).Fits t.count.toInt) :
    (Group.units n ≤ t.count → n.toInt = -(Group.units n).toInt) ∧
      (Group.units n ≤ t.count ↔ 0 ≤ t.count.toInt + n.toInt) := by
  have hmax : Int32.maxValue.toInt = 2147483647 := rfl
  have hle := t.count.toInt_le
  rw [Int32.le_iff_toInt_le]
  by_cases hmin : n = Int32.minValue
  · have hne : t.count.toInt ≠ Int32.maxValue.toInt := fun he => hd.2 ⟨hmin, he⟩
    have hlow : n.toInt = -2147483648 := by rw [hmin]; rfl
    rw [Group.units, if_pos hmin]
    constructor <;> omega
  · rw [toInt_units hn hmin]
    constructor <;> omega

section
variable (hs : h.groups.get? g = some t)
include hs

theorem exact_release (ht : h.Tidy) {d : Demand}
    (hact : (d.act g : Act ρ (Hub κ) Unit) = releaseGroup g d.units) (hpos : 0 < d.units)
    (hamount : d.units ≤ t.count → d.amount = -d.units.toInt)
    (hcover : d.units ≤ t.count ↔ Countable (t.count.toInt + d.amount)) :
    Exact h g t d ((d.act g : Act ρ (Hub κ) Unit) h) := by
  rw [hact]
  refine ⟨fun hc => ?_, fun hc => releaseGroup_over hs ?_⟩
  · have hle := hcover.mpr hc
    obtain ⟨hr, ⟨t', ht', htake, hh⟩, hothers⟩ := releaseGroup_granted (ρ := ρ) hs ht hpos hle
    refine ⟨hr, log_releaseGroup hs hle, ⟨t', ht', ?_, hh⟩, hothers⟩
    have := hamount hle
    omega
  · have hnot := mt hcover.mp hc
    rwa [Int32.not_le] at hnot

theorem addGroup_gives (hpos : 0 < n) : (addGroup g n : Act ρ (Hub κ) Unit).Gives h ()
    (h.store g (some { t with count := t.count + n }) h.groups.free) := by
  refine (ends_addGroup hs _).mpr ?_
  rw [if_pos hpos]
  exact ⟨rfl, rfl⟩

section
variable (hcount : 0 ≤ t.count.toInt)
include hcount

theorem exact_add (hpos : 0 < n) (hroom : t.count.toInt + n.toInt ≤ Int32.maxValue.toInt) :
    Exact h g t (.add n) ((addGroup g n : Act ρ (Hub κ) Unit) h) := by
  have hb := block_of_get? hs
  have hn : 0 < n.toInt := by rwa [Int32.lt_iff_toInt_lt] at hpos
  have hmax : Int32.maxValue.toInt = 2147483647 := rfl
  obtain ⟨hr, hstate⟩ := addGroup_gives (ρ := ρ) hs hpos
  refine ⟨fun _ => ⟨hr, log_addGroup hpos, ?_, fun k hk => ?_⟩, fun hc => absurd ⟨?_, hroom⟩ hc⟩
  · rw [hstate]
    refine ⟨_, (get?_store hb g).trans (if_pos rfl), ?_, rfl⟩
    rw [Int32.toInt_add]
    exact Int.bmod_eq_of_le (by omega) (by omega)
  · rw [hstate]
    exact (get?_store hb k).trans (if_neg (Ne.symm hk))
  · show 0 ≤ t.count.toInt + n.toInt
    omega

theorem exact_zero : Exact h g t (.add 0) ((addGroup g 0 : Act ρ (Hub κ) Unit) h) where
  granted := fun _ => ⟨rfl, rfl, ⟨t, hs, (Int.add_zero _).symm, rfl⟩, fun _ _ => rfl⟩
  refused := fun hc => absurd (show Countable (t.count.toInt + 0) from (Int.add_zero _).symm ▸
    ⟨hcount, t.count.toInt_le⟩) hc

theorem exact_of_fits (ht : h.Tidy) {d : Demand} (hd : d.Fits t.count.toInt) :
    Exact h g t d ((d.act g : Act ρ (Hub κ) Unit) h) := by
  have hmax : Int32.maxValue.toInt = 2147483647 := rfl
  have hle := t.count.toInt_le
  cases d with
  | signal =>
    refine exact_release hs ht rfl (show (0 : Int32) < 1 by decide) (fun _ => rfl) ?_
    rw [Int32.le_iff_toInt_le]
    show (1 : Int) ≤ t.count.toInt ↔ Countable (t.count.toInt + -1)
    unfold Countable
    omega
  | add n =>
    rcases Int.lt_trichotomy n.toInt 0 with hneg | hzero | hpos
    · have hn : n < 0 := by rwa [Int32.lt_iff_toInt_lt]
      have hnot : ¬0 < n := by
        rw [Int32.lt_iff_toInt_lt, Int32.toInt_zero]
        omega
      have hact : (act g (.add n) : Act ρ (Hub κ) Unit) = releaseGroup g (Group.units n) := by
        rw [act, addGroup, if_neg hnot, if_pos hn]
      obtain ⟨hamount, hcover⟩ := units_of_fits hneg hd
      refine exact_release hs ht hact (units_pos hn) hamount (hcover.trans ?_)
      show _ ↔ Countable (t.count.toInt + n.toInt)
      unfold Countable
      omega
    · obtain rfl : n = 0 := Int32.toInt_inj.mp hzero
      exact exact_zero hs hcount
    · exact exact_add hs hcount (by rwa [Int32.lt_iff_toInt_lt]) hd.1

end

/-- A demand that follows the law fits: the exceptions are granted without a notice, though
the exact result is no count. -/
theorem fits_of_exact {d : Demand} (hd : Exact h g t d ((d.act g : Act ρ (Hub κ) Unit) h)) :
    d.Fits t.count.toInt := by
  have hmax : Int32.maxValue.toInt = 2147483647 := rfl
  -- a refusal leaves a notice
  have hgranted : ((d.act g : Act ρ (Hub κ) Unit) h).log = [] → Countable (t.count.toInt + d.amount) :=
    fun hlog =>
    Decidable.byContradiction fun hc => by rw [hd.refused hc] at hlog; cases hlog
  cases d with
  | signal => trivial
  | add n =>
    refine ⟨?_, ?_⟩
    · rcases Int.lt_or_le 0 n.toInt with hpos | hneg
      · exact (hgranted (log_addGroup (by rwa [Int32.lt_iff_toInt_lt]))).2
      · have := t.count.toInt_le
        omega
    · rintro ⟨rfl, hc⟩
      have hcover : Int32.maxValue ≤ t.count := Int32.le_iff_toInt_le.mpr (Int.le_of_eq hc.symm)
      have := (hgranted (log_releaseGroup (ρ := ρ) hs (n := Int32.maxValue) hcover)).1
      rw [hc] at this
      exact absurd this (by decide)

end

/-! ## Rows of demands -/

theorem countable_next {count : Int} (hc : Countable count) (d : Demand) : Countable (d.next count) := by
  unfold next
  split
  · assumption
  · exact hc

theorem act_tidy (ht : h.Tidy) (g : Nat) (d : Demand) :
    (d.act g : Act ρ (Hub κ) Unit).Ends h fun _ h' => h'.Tidy := by
  cases d with
  | add n => exact (addGroup_steady ht g n).mono fun _ _ hst => hst.1.tidy
  | signal => exact (releaseGroup_steady ht g 1).mono fun _ _ hst => hst.1.tidy

theorem Exact.next {d : Demand} {o : Outcome ρ (Hub κ) Unit} (hs : h.groups.get? g = some t)
    (hd : Exact h g t d o) :
    ∃ t', o.state.groups.get? g = some t' ∧ t'.count.toInt = d.next t.count.toInt := by
  unfold Demand.next
  split
  · obtain ⟨-, -, ⟨t', ht', hcount, -⟩, -⟩ := hd.granted ‹_›
    exact ⟨t', ht', hcount⟩
  · rw [hd.refused ‹_›]
    exact ⟨t, hs, rfl⟩

theorem actAll_exact {ds : List Demand} (ht : h.Tidy) (hs : h.groups.get? g = some t)
    (hcount : Countable t.count.toInt) (hfit : FitAll t.count.toInt ds) :
    (actAll g ds : Act ρ (Hub κ) Unit).Ends h fun r h' => r = .ok () ∧
      Countable (ds.foldl next t.count.toInt) ∧ ∃ t', h'.groups.get? g = some t' ∧
        t'.count.toInt = ds.foldl next t.count.toInt := by
  induction ds generalizing h t with
  | nil => exact ⟨rfl, hcount, t, hs, rfl⟩
  | cons d ds ih =>
    obtain ⟨hd, hrest⟩ := hfit
    obtain ⟨t₁, hs₁, hcount₁⟩ := (exact_of_fits (ρ := ρ) hs hcount.1 ht hd).next hs
    refine (ends_bind (discard (d.act g).attempt) (fun _ => actAll g ds) _).mpr ?_
    rw [ends_discard, ends_attempt]
    have hends := ih (act_tidy (ρ := ρ) ht g d) hs₁ (hcount₁ ▸ countable_next hcount d) (hcount₁ ▸ hrest)
    rw [hcount₁] at hends
    exact hends

end Demand

namespace System

variable {κ μ ρ σ : Type} {body : κ → Program κ μ ρ Unit} {s s₀ : System κ μ ρ} {mode : Mode} {host : Host}
  {config : Config} {memory : μ} {x : σ}

section
variable (hnew : ((new mode host config memory : Act ρ σ (Except Refusal (System κ μ ρ))) x).result =
    .ok (.ok s₀)) {moves : List (Move κ μ ρ)} (hplay : play body s₀ moves = s)
  (hroom : Along body Roomy s₀ moves)
include hnew hplay hroom

/-- In every run whose adds stay within what a count can hold, every group counts between
zero and the largest count, and one demand on it follows the law of exact counts just where
it fits. A row of demands that fit one after the other, granted or refused, leaves the count
of exact reckoning. -/
theorem demands_counted_exactly : ∀ g t, s.hub.groups.get? g = some t → Countable t.count.toInt ∧
    (∀ (d : Demand) o, (d.act g : Act ρ (Hub κ) Unit) s.hub = o →
      (d.Exact s.hub g t o ↔ d.Fits t.count.toInt)) ∧
    ∀ ds, Demand.FitAll t.count.toInt ds → ∀ o, (Demand.actAll g ds : Act ρ (Hub κ) Unit) s.hub = o →
      o.result = .ok () ∧
      Countable (ds.foldl Demand.next t.count.toInt) ∧
      ∃ t', o.state.groups.get? g = some t' ∧ t'.count.toInt = ds.foldl Demand.next t.count.toInt := by
  have hguard : Guarded s (history body s₀ moves) := hplay ▸
    play_induction (fun _ _ _ hroom h => h.step hroom) hroom (new_of_ok hnew).guarded
  have ht := hguard.sound.tidy
  intro g t hs
  have hcount : Countable t.count.toInt := ⟨(hguard.latched g t hs).count, t.count.toInt_le⟩
  refine ⟨hcount, fun d o ho => ho ▸ ⟨Demand.fits_of_exact hs, Demand.exact_of_fits hs hcount.1 ht⟩,
    fun ds hfit o ho => ?_⟩
  exact ho ▸ Demand.actAll_exact ht hs hcount hfit

end

/-- One unit on the group, then more, fewer, and twice more units than there are taken off. -/
theorem small_demands_counted :
    ∃ t, (play smallBody small [.call .newGroup, .call (.add 0 1)]).hub.groups.get? 0 = some t ∧
    Along smallBody Roomy small [.call .newGroup, .call (.add 0 1)] ∧
    ∃ t', ((Demand.actAll 0 [.add 3, .signal, .add (-4), .add Int32.minValue, .add (-2)] :
      Act Unit (Hub Bool) Unit)
      (play smallBody small [.call .newGroup, .call (.add 0 1)]).hub).state.groups.get? 0 = some t' ∧
        t'.count.toInt = 1 := by
  have hs : (play smallBody small [.call .newGroup, .call (.add 0 1)]).hub.groups.get? 0 =
      some ⟨1, 1, none⟩ := by decide +kernel
  have hroom : Along smallBody Roomy small [.call .newGroup, .call (.add 0 1)] := by decide +kernel
  obtain ⟨-, -, hrow⟩ := demands_counted_exactly new_small rfl hroom 0 _ hs
  obtain ⟨-, -, t', ht', hcount⟩ :=
    hrow [.add 3, .signal, .add (-4), .add Int32.minValue, .add (-2)] (by decide) _ rfl
  exact ⟨_, hs, hroom, t', ht', hcount⟩

/-- At the largest count one unit more is granted, and the count is the least number then;
so is the add of the least number, and the count is zero then. -/
theorem largest_count_breaks_law :
    let h := (play smallBody small [.call .newGroup, .call (.add 0 Int32.maxValue)]).hub
    let more := (Hub.addGroup 0 1 : Act Unit (Hub Bool) Unit) h
    let least := (Hub.addGroup 0 Int32.minValue : Act Unit (Hub Bool) Unit) h
    h.groups.get? 0 = some ⟨Int32.maxValue, 1, none⟩ ∧
      more.result = .ok () ∧ more.log.isEmpty ∧ more.state.groups.get? 0 = some ⟨Int32.minValue, 1, none⟩ ∧
      least.result = .ok () ∧ least.log.isEmpty ∧ least.state.groups.get? 0 = some ⟨0, 1, none⟩ ∧
      ¬(Demand.add 1).Exact h 0 ⟨Int32.maxValue, 1, none⟩ more ∧
      ¬(Demand.add Int32.minValue).Exact h 0 ⟨Int32.maxValue, 1, none⟩ least := by
  intro h more least
  have hs : h.groups.get? 0 = some ⟨Int32.maxValue, 1, none⟩ := by decide +kernel
  refine ⟨hs, rfl, by decide +kernel, by decide +kernel, rfl, by decide +kernel, by decide +kernel,
    fun hmore => ?_, fun hleast => ?_⟩
  · exact absurd (Demand.fits_of_exact hs hmore) (by decide)
  · exact absurd (Demand.fits_of_exact hs hleast) (by decide)

end System

end FiberScheduler
