import FiberScheduler.Hub
import FiberScheduler.Proofs.Pools
import FiberScheduler.Proofs.Queues

/-!
# Waiting lists

The fibers parked on a group form a list through the links, one link for each fiber,
which all groups share. The list of a group is determined by its head, has no cycle,
and does not notice a write to the link of a fiber that is not on it.
-/

namespace FiberScheduler

variable {κ : Type}

/-! ## Links -/

inductive Linked (links : Array Link) : Option Nat → List Nat → Prop
  | nil : Linked links none []
  | cons {fiber : Nat} {link : Link} {rest : List Nat} (hlink : links[fiber]? = some link)
      (hrest : Linked links link.next rest) : Linked links (some fiber) (fiber :: rest)

namespace Linked

variable {links : Array Link} {head : Option Nat} {xs ys : List Nat}

theorem unique (hx : Linked links head xs) (hy : Linked links head ys) : xs = ys := by
  induction hx generalizing ys with
  | nil => cases hy; rfl
  | cons hlink _ ih =>
    cases hy with
    | cons hlink' hrest' =>
      obtain rfl := Option.some.inj (hlink.symm.trans hlink')
      rw [ih hrest']

theorem lt_size (h : Linked links head xs) : ∀ x ∈ xs, x < links.size := by
  induction h with
  | nil => exact fun x hx => by cases hx
  | cons hlink _ ih =>
    intro x hx
    rcases List.mem_cons.mp hx with rfl | hx
    · exact (Array.getElem?_eq_some_iff.mp hlink).1
    · exact ih x hx

theorem suffix (h : Linked links head xs) {x : Nat} (hx : x ∈ xs) :
    ∃ ys, Linked links (some x) (x :: ys) ∧ ys.length < xs.length := by
  induction h with
  | nil => cases hx
  | cons hlink hrest ih =>
    rcases List.mem_cons.mp hx with rfl | hx
    · exact ⟨_, Linked.cons hlink hrest, Nat.lt_succ_self _⟩
    · obtain ⟨ys, hys, hlt⟩ := ih hx
      exact ⟨ys, hys, Nat.lt_succ_of_lt hlt⟩

theorem nodup (h : Linked links head xs) : xs.Nodup := by
  induction h with
  | nil => exact List.nodup_nil
  | cons hlink hrest ih =>
    refine List.nodup_cons.mpr ⟨fun hx => ?_, ih⟩
    obtain ⟨ys, hys, hlt⟩ := hrest.suffix hx
    have := congrArg List.length (hys.unique (Linked.cons hlink hrest))
    rw [List.length_cons, List.length_cons] at this
    omega

theorem length_le (h : Linked links head xs) : xs.length ≤ links.size := by
  have hsub : xs ⊆ List.range links.size := fun x hx => List.mem_range.mpr (h.lt_size x hx)
  have hlen := h.nodup.length_le_of_subset hsub
  rwa [List.length_range] at hlen

theorem chain_eq (h : Linked links head xs) :
    ∀ {bound : Nat}, xs.length ≤ bound → Hub.chain links bound head = xs := by
  induction h with
  | nil => intro bound _; cases bound <;> rfl
  | cons hlink _ ih =>
    intro bound hb
    cases bound with
    | zero => cases hb
    | succ bound =>
      rw [Hub.chain, hlink]
      exact congrArg _ (ih (Nat.le_of_succ_le_succ hb))

theorem set (h : Linked links head xs) {x : Nat} (link : Link) (hx : x ∉ xs) :
    Linked (links.setIfInBounds x link) head xs := by
  induction h with
  | nil => exact .nil
  | cons hlink _ ih =>
    rw [List.mem_cons, not_or] at hx
    refine .cons ?_ (ih hx.2)
    rw [Array.getElem?_setIfInBounds, if_neg hx.1, hlink]

end Linked

namespace Hub

def fibersOf (links : Array Link) : Option Group → List Nat
  | some s => chain links links.size s.head
  | none => []

def parked (h : Hub κ) : List Nat :=
  gather (fibersOf h.links) h.groups.cells

def waitingOn (h : Hub κ) (g : Nat) : List Nat :=
  fibersOf h.links (h.groups.get? g)

theorem waitingOn_of_get? {h : Hub κ} {g : Nat} {s : Group} (hs : h.groups.get? g = some s) :
    h.waitingOn g = h.waiters s := by
  unfold waitingOn
  rw [hs]; rfl

theorem mem_waitingOn {h : Hub κ} {g x : Nat} :
    x ∈ h.waitingOn g ↔ ∃ o, h.groups.cells[g]? = some o ∧ x ∈ fibersOf h.links o := by
  unfold waitingOn
  rw [BlockPool.get?_eq_join]
  cases hg : h.groups.cells[g]? with
  | none => simp [fibersOf]
  | some o => simp

theorem mem_parked {h : Hub κ} {x : Nat} : x ∈ h.parked ↔ ∃ g, x ∈ h.waitingOn g := by
  simp only [parked, mem_gather, mem_waitingOn]

theorem chain_none (links : Array Link) (bound : Nat) : chain links bound none = [] := by
  cases bound <;> rfl

/-- Fibers that are neither free nor run by a worker: parked ones and queued ones. -/
def idle (h : Hub κ) : List Nat :=
  h.parked ++ h.lanes.readied.map (·.fiber)

theorem count_idle (h : Hub κ) (x : Nat) :
    h.idle.count x = h.parked.count x + (h.lanes.readied.map (·.fiber)).count x :=
  List.count_append

/-- The lists of all groups end, and every parked or queued fiber has a lane to go to. -/
structure Tidy (h : Hub κ) : Prop where
  blocks : h.groups.Sound
  linked : ∀ g s, h.groups.get? g = some s → Linked h.links s.head (h.waiters s)
  parked : ∀ x ∈ h.parked, ∀ link, h.links[x]? = some link → h.lanes.Has (.decode link.affinity)
  ready : ∀ r ∈ h.lanes.readied, h.lanes.Has r.affinity

/-- What acts on groups keep. A list stays or is gone, and fibers are lost only where
the group of their list is freed. -/
structure Steady (h h' : Hub κ) : Prop where
  rest : h' = { h with groups := h'.groups, lanes := h'.lanes }
  queued : h'.lanes.queued = h.lanes.queued
  size : h'.lanes.own.size = h.lanes.own.size
  tidy : h'.Tidy
  lists : ∀ g, h'.waitingOn g = [] ∨ h'.waitingOn g = h.waitingOn g
  idle : ∀ x, h'.idle.count x ≤ h.idle.count x

theorem Steady.refl {h : Hub κ} (ht : h.Tidy) : Steady h h :=
  ⟨rfl, rfl, rfl, ht, fun _ => Or.inr rfl, fun _ => Nat.le_refl _⟩

theorem Steady.trans {h h' h'' : Hub κ} (a : Steady h h') (b : Steady h' h'') : Steady h h'' where
  rest := by rw [b.rest, a.rest]
  queued := b.queued.trans a.queued
  size := b.size.trans a.size
  tidy := b.tidy
  lists := fun g => by
    rcases b.lists g with hb | hb
    · exact Or.inl hb
    · rw [hb]; exact a.lists g
  idle := fun x => Nat.le_trans (b.idle x) (a.idle x)

def Whole (h h' : Hub κ) : Prop :=
  ∀ x, h'.idle.count x = h.idle.count x

/-! ## Writing to a block -/

def store (h : Hub κ) (g : Nat) (o : Option Group) (free : List Nat) : Hub κ :=
  { h with groups := h.groups.store g o free }

section
variable {h : Hub κ} {g : Nat} {o₀ o : Option Group} {free : List Nat} (hb : h.groups.cells[g]? = some o₀)
include hb

theorem count_parked_store (x : Nat) :
    (h.store g o free).parked.count x + (fibersOf h.links o₀).count x =
      h.parked.count x + (fibersOf h.links o).count x := by
  show (gather (fibersOf h.links) (h.groups.store g o free).cells).count x + _ = _
  rw [BlockPool.cells_store]
  exact count_gather_set (fibersOf h.links) o hb x

theorem get?_store (k : Nat) : (h.store g o free).groups.get? k = if g = k then o else h.groups.get? k :=
  BlockPool.get?_store (Array.getElem?_eq_some_iff.mp hb).1

theorem waitingOn_store (k : Nat) :
    (h.store g o free).waitingOn k = if g = k then fibersOf h.links o else h.waitingOn k := by
  unfold waitingOn
  rw [get?_store hb]
  show fibersOf h.links _ = _
  split <;> rfl

theorem tidy_store (ht : h.Tidy) (hfree : (h.groups.store g o free).Sound)
    (ho : ∀ s, o = some s → s.head = none ∨ ∃ s₀, o₀ = some s₀ ∧ s.head = s₀.head) :
    (h.store g o free).Tidy ∧ (fibersOf h.links o = [] ∨ fibersOf h.links o = fibersOf h.links o₀) := by
  have hof : fibersOf h.links o = [] ∨ fibersOf h.links o = fibersOf h.links o₀ := by
    cases o with
    | none => exact Or.inl rfl
    | some s =>
      rcases ho s rfl with hn | ⟨s₀, rfl, hs⟩
      · exact Or.inl (by rw [fibersOf, hn, chain_none])
      · exact Or.inr (by rw [fibersOf, fibersOf, hs])
  refine ⟨⟨hfree, fun k s hk => ?_, fun x hx => ht.parked x ?_, ht.ready⟩, hof⟩
  · rw [get?_store hb] at hk
    by_cases hgk : g = k
    · subst hgk
      rw [if_pos rfl] at hk
      show Linked h.links s.head (chain h.links h.links.size s.head)
      rcases ho s hk with hn | ⟨s₀, rfl, hs⟩
      · rw [hn, chain_none]; exact .nil
      · rw [hs]; exact ht.linked g s₀ (BlockPool.get?_eq_some_iff.mpr hb)
    · rw [if_neg hgk] at hk
      exact ht.linked k s hk
  · rw [mem_parked] at hx ⊢
    obtain ⟨k, hk⟩ := hx
    rw [waitingOn_store hb] at hk
    refine ⟨k, ?_⟩
    by_cases hgk : g = k
    · subst hgk
      rw [if_pos rfl] at hk
      rcases hof with hn | he
      · rw [hn] at hk; cases hk
      · rw [he] at hk
        unfold waitingOn
        rw [BlockPool.get?_eq_join, hb]; exact hk
    · rw [if_neg hgk] at hk
      exact hk

theorem steady_store (ht : h.Tidy) (hfree : (h.groups.store g o free).Sound)
    (ho : ∀ s, o = some s → s.head = none ∨ ∃ s₀, o₀ = some s₀ ∧ s.head = s₀.head) :
      Steady h (h.store g o free) := by
  obtain ⟨htidy, hof⟩ := tidy_store hb ht hfree ho
  refine ⟨rfl, rfl, rfl, htidy, fun k => ?_, fun x => ?_⟩
  · rw [waitingOn_store hb]
    by_cases hgk : g = k
    · subst hgk
      rw [if_pos rfl]
      refine hof.imp_right fun he => he.trans ?_
      unfold waitingOn
      rw [BlockPool.get?_eq_join, hb]; rfl
    · rw [if_neg hgk]; exact Or.inr rfl
  · have hcount : (h.store g o free).parked.count x + _ = h.parked.count x + _ := count_parked_store hb x
    have : (fibersOf h.links o).count x ≤ (fibersOf h.links o₀).count x := by
      rcases hof with hn | he
      · rw [hn]; exact Nat.zero_le _
      · exact Nat.le_of_eq (by rw [he])
    rw [count_idle, count_idle]
    show _ + (h.lanes.readied.map (·.fiber)).count x ≤ _
    omega

theorem whole_store (ho : fibersOf h.links o = fibersOf h.links o₀) : Whole h (h.store g o free) :=
    fun x => by
  have hcount : (h.store g o free).parked.count x + _ = h.parked.count x + _ := count_parked_store hb x
  rw [ho] at hcount
  rw [count_idle, count_idle]
  exact congrArg (· + _) (Nat.add_right_cancel hcount)

end

def withParked (h : Hub κ) (group : Nat) (state : Group) (fiber : Nat) (p : Priority) (a : Affinity) :
    Hub κ :=
  { h.store group (some { state with head := some fiber }) h.groups.free with
    links := h.links.setIfInBounds fiber (.make state.head p a) }

section
variable {h : Hub κ} {g fiber : Nat} {state : Group} (p : Priority) {a : Affinity} (ht : h.Tidy)
  (hs : h.groups.get? g = some state) (hx : fiber ∉ h.parked) (hlt : fiber < h.links.size)
include ht hs hx hlt

omit hs hlt in
theorem fibersOf_withParked {k : Nat} {s : Group} (hk : h.groups.get? k = some s) :
    fibersOf (h.withParked g state fiber p a).links (some s) = h.waiters s ∧
      Linked (h.withParked g state fiber p a).links s.head (h.waiters s) := by
  have hlinked := ht.linked k s hk
  have hset : Linked (h.withParked g state fiber p a).links s.head (h.waiters s) := hlinked.set _ fun hm =>
    hx (mem_parked.mpr ⟨k, by rwa [waitingOn_of_get? hk]⟩)
  exact ⟨hset.chain_eq hset.length_le, hset⟩

theorem linked_withParked :
    Linked (h.withParked g state fiber p a).links (some fiber) (fiber :: h.waiters state) := by
  have hlink :
      (h.links.setIfInBounds fiber (.make state.head p a))[fiber]? = some (.make state.head p a) := by
    rw [Array.getElem?_setIfInBounds, if_pos rfl, if_pos hlt]
  exact .cons hlink (fibersOf_withParked p ht hx hs).2

omit ht hx hlt in
theorem get?_withParked (k : Nat) : (h.withParked g state fiber p a).groups.get? k =
    if g = k then some { state with head := some fiber } else h.groups.get? k :=
  get?_store (BlockPool.get?_eq_some_iff.mp hs) k

theorem waitingOn_withParked (k : Nat) :
    (h.withParked g state fiber p a).waitingOn k =
      if g = k then fiber :: h.waitingOn g else h.waitingOn k := by
  unfold waitingOn
  rw [get?_withParked p hs k]
  by_cases hgk : g = k
  · rw [if_pos hgk, if_pos hgk, hs]
    have hl := linked_withParked (a := a) p ht hs hx hlt
    exact hl.chain_eq hl.length_le
  · rw [if_neg hgk, if_neg hgk]
    cases hk : h.groups.get? k with
    | none => rfl
    | some s => exact (fibersOf_withParked p ht hx hk).1

theorem count_parked_withParked (x : Nat) :
    (h.withParked g state fiber p a).parked.count x = h.parked.count x + [fiber].count x := by
  have hb := BlockPool.get?_eq_some_iff.mp hs
  have hcount := count_gather_set (fibersOf (h.withParked g state fiber p a).links)
    (some { state with head := some fiber }) hb x
  have hrest : gather (fibersOf (h.withParked g state fiber p a).links) h.groups.cells = h.parked :=
    gather_congr fun k o hk => by
    cases o with
    | none => rfl
    | some s => exact (fibersOf_withParked p ht hx (BlockPool.get?_eq_some_iff.mpr hk)).1
  have hold : fibersOf (h.withParked g state fiber p a).links (some state) = h.waiters state :=
    (fibersOf_withParked p ht hx hs).1
  have hl := linked_withParked (a := a) p ht hs hx hlt
  have hnew :
      fibersOf (h.withParked g state fiber p a).links
      (some { state with head := some fiber }) = fiber :: h.waiters state :=
    hl.chain_eq hl.length_le
  have hone : (fiber :: h.waiters state).count x = [fiber].count x + (h.waiters state).count x := by
    rw [← List.singleton_append, List.count_append]
  rw [hrest, hold, hnew, hone] at hcount
  have : (h.withParked g state fiber p a).parked.count x =
    (gather (fibersOf (h.withParked g state fiber p a).links)
      (h.groups.store g (some { state with head := some fiber }) h.groups.free).cells).count x := rfl
  rw [BlockPool.cells_store] at this
  omega

theorem tidy_withParked (ha : h.lanes.Has (.decode a.encode)) : (h.withParked g state fiber p a).Tidy := by
  refine ⟨ht.blocks.store_of_live hs _, fun k s hk => ?_, fun x hm link hl => ?_, ht.ready⟩
  · rw [get?_withParked p hs k] at hk
    by_cases hgk : g = k
    · rw [if_pos hgk] at hk
      obtain rfl := Option.some.inj hk
      have hlinked := linked_withParked (a := a) p ht hs hx hlt
      rw [show (h.withParked g state fiber p a).waiters { state with head := some fiber } = _ from
        hlinked.chain_eq hlinked.length_le]
      exact hlinked
    · rw [if_neg hgk] at hk
      obtain ⟨he, hlinked⟩ : (h.withParked g state fiber p a).waiters s = h.waiters s ∧ Linked _ _ _ :=
        fibersOf_withParked p ht hx hk
      rw [he]
      exact hlinked
  · have hl' : (h.links.setIfInBounds fiber (.make state.head p a))[x]? = some link := hl
    rw [Array.getElem?_setIfInBounds] at hl'
    by_cases hfx : fiber = x
    · rw [if_pos hfx, if_pos hlt] at hl'
      rw [← Option.some.inj hl']
      exact ha
    · rw [if_neg hfx] at hl'
      refine ht.parked x ?_ link hl'
      have hcount := count_parked_withParked (a := a) p ht hs hx hlt x
      rw [List.count_cons_of_ne hfx, List.count_nil] at hcount
      have := List.count_pos_iff.mpr hm
      exact List.count_pos_iff.mp (by omega)

end

end Hub

end FiberScheduler
