import FiberScheduler.Crew
import FiberScheduler.Fault
import FiberScheduler.Priority

/-!
# Lanes

Queued work waits in lanes, one for each affinity. A lane has three tiers, and a
tier has a queue of resumed fibers and a queue of jobs, first come first served.
-/

namespace FiberScheduler

structure Ready where
  fiber : Nat
  priority : Priority
  affinity : Affinity
  deriving DecidableEq, Repr

structure Tier where
  ready : List Ready
  jobs : List Nat
  deriving DecidableEq, Repr

namespace Tier

def empty : Tier := ⟨[], []⟩

def isEmpty (t : Tier) : Bool :=
  t.ready.isEmpty && t.jobs.isEmpty

end Tier

structure Lane where
  low : Tier
  normal : Tier
  high : Tier
  deriving DecidableEq, Repr

namespace Lane

def empty : Lane := ⟨.empty, .empty, .empty⟩

def tier (l : Lane) : Priority → Tier
  | .low => l.low
  | .normal => l.normal
  | .high => l.high

def setTier (l : Lane) (p : Priority) (t : Tier) : Lane :=
  match p with
  | .low => { l with low := t }
  | .normal => { l with normal := t }
  | .high => { l with high := t }

@[simp] theorem tier_setTier (l : Lane) (p q : Priority) (t : Tier) :
    (l.setTier p t).tier q = if q = p then t else l.tier q := by
  cases p <;> cases q <;> rfl

def isEmpty (l : Lane) : Bool :=
  Priority.scanOrder.all fun p => (l.tier p).isEmpty

end Lane

structure Lanes where
  any : Lane
  foreground : Lane
  background : Lane
  /-- The lane of each worker, for work that no other worker may take. -/
  own : Array Lane
  deriving Repr

inductive Work where
  | fiber (ready : Ready)
  | job (job : Nat) (priority : Priority) (affinity : Affinity)
  deriving DecidableEq, Repr

namespace Lanes

def empty (workers : Nat) : Lanes :=
  ⟨.empty, .empty, .empty, Array.replicate workers .empty⟩

def lane? (ls : Lanes) : Affinity → Option Lane
  | .any => some ls.any
  | .foreground => some ls.foreground
  | .background => some ls.background
  | .worker index => ls.own[index]?

def tier (ls : Lanes) (a : Affinity) (p : Priority) : Tier :=
  match ls.lane? a with
  | some lane => lane.tier p
  | none => .empty

def setTier (ls : Lanes) (a : Affinity) (p : Priority) (t : Tier) : Lanes :=
  match a with
  | .any => { ls with any := ls.any.setTier p t }
  | .foreground => { ls with foreground := ls.foreground.setTier p t }
  | .background => { ls with background := ls.background.setTier p t }
  | .worker index => { ls with own := ls.own.modify index (·.setTier p t) }

def check (ls : Lanes) : Affinity → Except Fault Unit
  | .worker index => if index < ls.own.size then .ok () else .error (.outOfBounds ls.own.size index)
  | _ => .ok ()

def pushJob (ls : Lanes) (job : Nat) (p : Priority) (a : Affinity) : Except Fault Lanes := do
  ls.check a
  let t := ls.tier a p
  return ls.setTier a p { t with jobs := t.jobs ++ [job] }

def pushReady (ls : Lanes) (ready : Ready) : Except Fault Lanes := do
  ls.check ready.affinity
  let t := ls.tier ready.affinity ready.priority
  return ls.setTier ready.affinity ready.priority { t with ready := t.ready ++ [ready] }

/-! ## Fetching -/

def takeReady (ls : Lanes) (p : Priority) (a : Affinity) : Option (Work × Lanes) :=
  match (ls.tier a p).ready with
  | [] => none
  | ready :: rest => some (.fiber ready, ls.setTier a p { ls.tier a p with ready := rest })

def takeJob (ls : Lanes) (p : Priority) (a : Affinity) : Option (Work × Lanes) :=
  match (ls.tier a p).jobs with
  | [] => none
  | job :: rest => some (.job job p a, ls.setTier a p { ls.tier a p with jobs := rest })

/-- Takes the next work from the given sources: the highest tier first, in a tier
resumed fibers before jobs, and for each the sources in their order. -/
def take (ls : Lanes) (sources : List Affinity) : Option (Work × Lanes) :=
  Priority.scanOrder.findSome? fun p =>
    (sources.findSome? (ls.takeReady p)).or (sources.findSome? (ls.takeJob p))

def hasWork (ls : Lanes) (sources : List Affinity) : Bool :=
  sources.any fun a => Priority.scanOrder.any fun p => !(ls.tier a p).isEmpty

theorem takeReady_eq_none_iff {ls : Lanes} {p : Priority} {a : Affinity} :
    ls.takeReady p a = none ↔ (ls.tier a p).ready = [] := by
  unfold takeReady
  cases (ls.tier a p).ready <;> simp

theorem takeJob_eq_none_iff {ls : Lanes} {p : Priority} {a : Affinity} :
    ls.takeJob p a = none ↔ (ls.tier a p).jobs = [] := by
  unfold takeJob
  cases (ls.tier a p).jobs <;> simp

end Lanes

end FiberScheduler
