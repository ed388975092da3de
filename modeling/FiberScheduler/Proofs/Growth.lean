import FiberScheduler.Proofs.Moves
import FiberScheduler.System.Load
import Mathlib.Algebra.Ring.Nat

/-!
# Growing programs

Bodies that submit fresh jobs, wait for groups of their own and return or panic in the
end. The jobs that come of such a body form a tree, which depends on nothing but the body.
-/

namespace FiberScheduler

variable {κ μ ρ : Type}

inductive Growth where
  | returns
  | panics
  | spawns (child rest : Growth)
  deriving DecidableEq, Repr

namespace Growth

def jobs : Growth → Nat
  | returns | panics => 1
  | spawns child rest => child.jobs + rest.jobs

def panicking : Growth → Nat
  | returns => 0
  | panics => 1
  | spawns child rest => child.panicking + rest.panicking

@[simp] theorem jobs_spawns (child rest : Growth) : (spawns child rest).jobs = child.jobs + rest.jobs := rfl

@[simp] theorem panicking_spawns (child rest : Growth) :
    (spawns child rest).panicking = child.panicking + rest.panicking := rfl

theorem jobs_pos (t : Growth) : 0 < t.jobs := by
  induction t with
  | returns | panics => exact Nat.one_pos
  | spawns child rest ihc => exact Nat.add_pos_left ihc _

theorem panicking_le_jobs (t : Growth) : t.panicking ≤ t.jobs := by
  induction t with
  | returns => exact Nat.zero_le _
  | panics => exact Nat.le_refl 1
  | spawns child rest ihc ihr => exact Nat.add_le_add ihc ihr

def ofEnd : Option Fault → Growth
  | some _ => panics
  | none => returns

def spawnsAll (children : List Growth) (rest : Growth) : Growth :=
  children.foldr spawns rest

theorem jobs_spawnsAll (children : List Growth) (rest : Growth) :
    (spawnsAll children rest).jobs = (children.map jobs).sum + rest.jobs := by
  induction children with
  | nil => exact (Nat.zero_add _).symm
  | cons child children ih =>
    show child.jobs + (spawnsAll children rest).jobs = _
    rw [ih, List.map_cons, List.sum_cons, Nat.add_assoc]

theorem panicking_spawnsAll (children : List Growth) (rest : Growth) :
    (spawnsAll children rest).panicking = (children.map panicking).sum + rest.panicking := by
  induction children with
  | nil => exact (Nat.zero_add _).symm
  | cons child children ih =>
    show child.panicking + (spawnsAll children rest).panicking = _
    rw [ih, List.map_cons, List.sum_cons, Nat.add_assoc]

end Growth

def Call.Quiet : Call κ μ ρ → Prop
  | .newGroup | .dropGroup _ | .isScheduled _ | .place | .counters | .report _ | .access _ => True
  | _ => False

instance : ∀ c : Call κ μ ρ, Decidable c.Quiet
  | .newGroup | .dropGroup _ | .isScheduled _ | .place | .counters | .report _ | .access _ => .isTrue trivial
  | .cloneGroup _ | .giveGroup _ | .takeGroup _ | .add .. | .count _ | .schedule .. | .addJob ..
  | .spawn .. => .isFalse id

theorem Call.Quiet.accepted {c : Call κ μ ρ} (h : c.Quiet) (fresh : Nat) (r : Except Fault c.Answer) :
    c.accepted fresh r = none := by
  cases c <;> first | rfl | exact h.elim

def Call.Idle : Call κ μ ρ → Prop
  | .isScheduled _ | .place | .counters | .report _ | .access _ => True
  | _ => False

theorem Call.Idle.quiet {c : Call κ μ ρ} (h : c.Idle) : c.Quiet := by
  cases c <;> trivial

theorem Call.Idle.settle {c : Call κ μ ρ} (h : c.Idle) (answer : c.Answer) (held : List Nat) :
    c.settle answer held = held := by
  cases c <;> first | rfl | exact h.elim

/-- What a body that owns these handles grows to. It asks only for affinities that are served,
waits only for groups it has a handle of, and does the same whatever numbers its groups have. -/
inductive Program.Grows (serves : Affinity → Prop) (grow : κ → Growth) :
    List Nat → Program κ μ ρ Unit → Growth → Prop
  | done (held : List Nat) : Grows serves grow held (.done ()) .returns
  | panic (held : List Nat) (fault : Fault) : Grows serves grow held (.panic fault) .panics
  | wait {held : List Nat} {group : Nat} {next : Program κ μ ρ Unit} {t : Growth} (hg : group ∈ held)
      (h : Grows serves grow held next t) : Grows serves grow held (.wait group next) t
  | newGroup {held : List Nat} {next : Except Refusal Nat → Program κ μ ρ Unit} {t : Growth}
      (h : ∀ group, Grows serves grow (group :: held) (next (.ok group)) t) :
        Grows serves grow held (.call .newGroup next) t
  | dropGroup {held : List Nat} {group : Nat} {next : Unit → Program κ μ ρ Unit} {t : Growth}
      (hg : group ∈ held) (h : Grows serves grow (held.erase group) (next ()) t) :
        Grows serves grow held (.call (.dropGroup group) next) t
  | spawn {held : List Nat} {group : Option Nat} {p : Priority} {a : Affinity}
      {next : Except Refusal Unit → Program κ μ ρ Unit} {t : Growth} (code : κ)
      (hg : ∀ g, group = some g → g ∈ held) (ha : serves a) (h : Grows serves grow held (next (.ok ())) t) :
      Grows serves grow held (.call (.spawn code group p a) next) (.spawns (grow code) t)
  | ask {held : List Nat} {c : Call κ μ ρ} {next : c.Answer → Program κ μ ρ Unit} {t : Growth} (hc : c.Idle)
      (h : ∀ answer, Grows serves grow held (next answer) t) : Grows serves grow held (.call c next) t

namespace Program.Grows

variable {serves : Affinity → Prop} {grow : κ → Growth} {held : List Nat} {p : Priority} {a : Affinity}
  {t : Growth}

theorem run {k : Except Refusal Nat → Program κ μ ρ Unit} (code : κ) (ha : serves a)
    (h : ∀ group, Grows serves grow (group :: held) (k (.ok group)) t) :
    Grows serves grow held (Program.run code p a >>= k) (.spawns (grow code) t) :=
  .newGroup fun group => .spawn code (fun g hg => by cases hg; exact List.mem_cons_self) ha (h group)

theorem spawnAll {k : Except Refusal Unit → Program κ μ ρ Unit} {group : Nat} (codes : List κ)
    (hg : group ∈ held) (hany : serves .any) (h : Grows serves grow held (k (.ok ())) t) :
    Grows serves grow held (Program.spawnAll group p codes >>= k) (.spawnsAll (codes.map grow) t) := by
  induction codes with
  | nil => exact h
  | cons code codes ih => exact .spawn code (fun g he => by cases he; exact hg) hany ih

theorem runMultiple {k : Except Refusal Nat → Program κ μ ρ Unit} (codes : List κ) (hany : serves .any)
    (h : ∀ group, Grows serves grow (group :: held) (k (.ok group)) t) :
    Grows serves grow held (Program.runMultiple codes p >>= k) (.spawnsAll (codes.map grow) t) := by
  refine .newGroup fun group => ?_
  show Grows serves grow (group :: held) (((Program.spawnAll group p codes).bind _).bind k) _
  rw [Program.bind_bind]
  exact spawnAll codes List.mem_cons_self hany (h group)

end Program.Grows

namespace Load

variable (load : Load)

def plansPanic (index : Nat) : Bool :=
  load.panicEvery.any fun n => 0 < n && index % n == 0

def growth : Code → Growth
  | .child .. => .returns
  | .parent index =>
    .spawnsAll (List.replicate load.children .returns) (if load.plansPanic index then .panics else .returns)

theorem body_grows (code : Code) :
    Program.Grows (· = .any) load.growth [] (load.body code) (load.growth code) := by
  cases code with
  | child index child => exact .ask trivial fun _ => .done _
  | parent index =>
    have hchildren :
        ((List.range load.children).map (.child index)).map load.growth =
        List.replicate load.children .returns := by
      rw [List.map_map, List.eq_replicate_iff]
      simp [growth]
    rw [growth, ← hchildren]
    refine Program.Grows.runMultiple _ rfl fun group =>
      .wait List.mem_cons_self (.dropGroup List.mem_cons_self ?_)
    rw [List.erase_cons_head]
    refine .ask trivial fun _ => ?_
    unfold plansPanic
    cases load.panicEvery with
    | none => exact .done _
    | some n =>
      by_cases hplanned : 0 < n ∧ index % n = 0
      · simp only [hplanned, and_self, Option.any_some, decide_true, Bool.true_and, beq_self_eq_true, if_true]
        exact .panic _ _
      · have hno : (decide (0 < n) && index % n == 0) = false := by simpa using hplanned
        simp only [hplanned, Option.any_some, hno, if_false]
        exact .done _

theorem jobs_parent (index : Nat) : (load.growth (.parent index)).jobs = load.children + 1 := by
  have hown : (if load.plansPanic index then Growth.panics else .returns).jobs = 1 := by
    split <;> rfl
  rw [growth, Growth.jobs_spawnsAll, hown, List.map_replicate, List.sum_replicate_nat]
  exact congrArg (· + 1) (Nat.mul_one _)

theorem panicking_parent (index : Nat) :
    (load.growth (.parent index)).panicking = if load.plansPanic index then 1 else 0 := by
  rw [growth, Growth.panicking_spawnsAll, List.map_replicate, List.sum_replicate_nat]
  show load.children * 0 + _ = _
  rw [Nat.mul_zero, Nat.zero_add]
  split <;> rfl

end Load

end FiberScheduler
