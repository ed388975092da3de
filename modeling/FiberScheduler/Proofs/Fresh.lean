import FiberScheduler.Proofs.Keeping

/-!
# New systems

A system that was built is sound: all its fibers are free, and nothing is pending.
-/

namespace FiberScheduler

variable {κ μ ρ σ : Type}

theorem bind_eq_ok {ε α β : Type} {x : Except ε α} {f : α → Except ε β} {b : β} (h : x >>= f = .ok b) :
    ∃ a, x = .ok a ∧ f a = .ok b := by
  cases x with
  | error e => cases h
  | ok a => exact ⟨a, rfl, h⟩

theorem eq_of_toOption {α : Type} {r : Except Fault α} (h : r.toOption.isSome = true) :
    r = .ok (r.toOption.get h) := by
  cases r with
  | error fault => cases h
  | ok a => rfl

namespace FiberPool

open Act

variable {mode : Mode} {host : Host} {plan : Arena} {config : Config} {x : σ}

theorem arena_of_plan (h : Arena.plan mode host config = .ok (some plan)) :
    plan.normal = config.fiberCount.toNat ∧ plan.extended = config.extendedFiberCount.toNat := by
  obtain ⟨normalSize, -, h⟩ := bind_eq_ok h
  obtain ⟨extendedSize, -, h⟩ := bind_eq_ok h
  obtain ⟨normalStride, -, h⟩ := bind_eq_ok h
  obtain ⟨extendedStride, -, h⟩ := bind_eq_ok h
  obtain ⟨normalTotal, -, h⟩ := Option.bind_eq_some_iff.mp (Except.ok.inj h)
  obtain ⟨extendedTotal, -, h⟩ := Option.bind_eq_some_iff.mp h
  obtain ⟨total, -, h⟩ := Option.bind_eq_some_iff.mp h
  split at h
  · cases h
  · cases h
    exact ⟨rfl, rfl⟩

structure Formatted (host : Host) (slots : Array Slot) : Prop where
  granted : slots.size ≤ host.stackCount
  slot : ∀ fiber < slots.size, slots[fiber]? = some ⟨true, false, .context fiber⟩

theorem Formatted.push {slots : Array Slot} (h : Formatted host slots) (hlt : slots.size < host.stackCount) :
    Formatted host (slots.push ⟨true, false, .context slots.size⟩) := by
  refine ⟨by rw [Array.size_push]; exact hlt, fun k hk => ?_⟩
  rw [Array.size_push] at hk
  rw [Array.getElem?_push]
  by_cases hks : k = slots.size
  · rw [if_pos hks, hks]
  · rw [if_neg hks]
    exact h.slot k (by omega)

theorem yields_commit (arena : StackArena) (offset size : Nat) (x : σ) :
    (arena.commit mode host offset size : Act ρ σ _).Yields x fun r => ∀ arena', r = .ok arena' →
      (arena.opened.size < host.stackCount ∧ host.commits offset size arena.size = true) ∧
        arena' = { arena with opened := arena.opened.push ⟨offset, size⟩ } := by
  refine (yields_any _ x).bind fun _ y _ => ?_
  split
  · rename_i hgranted
    simp only [Bool.and_eq_true, decide_eq_true_eq] at hgranted
    exact yields_pure fun arena' hr => ⟨hgranted, (Except.ok.inj hr).symm⟩
  · exact (yields_any _ y).bind fun _ _ _ => yields_pure fun _ hr => by cases hr

theorem yields_format : ∀ {remaining offset : Nat} {arena : StackArena}
    {slots : Array Slot}, Formatted host slots →
    arena.opened.size = slots.size → ∀ x : σ,
    (format mode host plan remaining slots.size offset arena slots : Act ρ σ _).Yields x fun r =>
      ∀ arena' slots', r = .ok (arena', slots') → slots'.size = slots.size + remaining ∧ Formatted host slots'
  | 0, _, _, slots, h, _, x => yields_pure fun _ slots' hr => by cases hr; exact ⟨rfl, h⟩
  | remaining + 1, offset, arena, slots, h, hopened, x => by
    refine (yields_any _ x).bind fun stack y _ =>
      (yields_commit arena stack _ y).bind fun committed z hcommit => ?_
    cases committed with
    | error refusal => exact yields_pure fun _ _ hr => by cases hr
    | ok arena₁ =>
      obtain ⟨⟨hlt, -⟩, rfl⟩ := hcommit arena₁ rfl
      refine (yields_any _ z).bind fun carved z _ => ?_
      cases carved with
      | none => exact yields_pure fun _ _ hr => by cases hr
      | some _ =>
        refine (yields_any _ z).bind fun next u _ => ?_
        let arena₁ : StackArena :=
          { arena with opened := arena.opened.push ⟨stack, plan.stackSize slots.size⟩ }
        have hopened₁ : arena₁.opened.size = (slots.push ⟨true, false, .context slots.size⟩).size := by
          rw [Array.size_push, Array.size_push, hopened]
        have hrest :
            (format mode host plan remaining
              (slots.push ⟨true, false, .context slots.size⟩).size next arena₁ _ :
            Act ρ σ _).Yields u _ := yields_format (h.push (hopened ▸ hlt)) hopened₁ u
        rw [Array.size_push] at hrest
        refine hrest.mono fun r _ hr slots₁ hs arena' slots' hs' => ?_
        obtain ⟨hsize', hformatted⟩ := hr slots₁ hs arena' slots' hs'
        exact ⟨by omega, hformatted⟩

theorem yields_formatted (x : σ) : (new mode host config : Act ρ σ _).Yields x fun r => ∀ pool, r = .ok pool →
    ∃ plan start count arena slots, ∃ y :
      σ, Arena.plan mode host config = .ok (some plan) ∧ host.map plan.total = some (start + 1) ∧
      mode.word .add 32 (plan.normal + plan.extended) = .ok count ∧
      ((format mode host plan count 0 0 ⟨start + 1, plan.total, #[]⟩ #[] : Act ρ σ _) y).result =
        .ok (.ok (arena, slots)) ∧
      pool = ⟨slots, plan.normal, plan.extended, 0, arena⟩ := by
  refine (yields_lift _).bind fun planned y hplan => ?_
  cases planned with
  | none => exact yields_pure fun _ hr => by cases hr
  | some plan =>
    rcases hmap : host.map plan.total with _ | _ | start <;> simp only [hmap]
    · exact (yields_any _ y).bind fun _ _ _ => yields_pure fun _ hr => by cases hr
    · exact yields_pure fun _ hr => by cases hr
    · refine (yields_lift _).bind fun count z hcount => (yields_result _ z).bind fun formatted u hformat => ?_
      cases formatted with
      | error refusal => exact yields_pure fun _ hr => by cases hr
      | ok made =>
        refine yields_pure fun pool hr => ?_
        cases hr
        exact ⟨plan, start, count, made.1, made.2, z, hplan, hmap, hcount, hformat, rfl⟩

theorem yields_new (x : σ) : (new mode host config : Act ρ σ _).Yields x fun r => ∀ pool, r = .ok pool →
    Formatted host pool.slots ∧ pool.normal = config.fiberCount.toNat ∧
      pool.extended = config.extendedFiberCount.toNat ∧
      mode.word .add 32 (pool.normal + pool.extended) = .ok pool.slots.size := by
  refine (yields_formatted x).mono fun _ _ hr r hr' pool hpool => ?_
  obtain ⟨plan, start, count, arena, slots, y, hplan, -, hcount, hformat, rfl⟩ := hr r hr' pool hpool
  obtain ⟨hnormal, hextended⟩ := arena_of_plan hplan
  have hempty : Formatted host #[] := ⟨Nat.zero_le _, fun _ h => by cases h⟩
  obtain ⟨hsize, hformatted⟩ := yields_format hempty rfl y _ hformat arena slots rfl
  refine ⟨hformatted, hnormal, hextended, ?_⟩
  rw [hcount, hsize, Array.size_empty, Nat.zero_add]

/-! ## A small pool -/

def smallConfig : Config where
  workerCount := 1
  backgroundWorkerCount := 0
  fiberCount := 3
  extendedFiberCount := 1
  stackSize := 40000
  extendedStackSize := 70001
  blockCount := 1
  pinning := .none

def small : FiberPool where
  slots := #[⟨true, false, .context 0⟩, ⟨true, false, .context 1⟩, ⟨true, false, .context 2⟩,
    ⟨true, false, .context 3⟩]
  normal := 3
  extended := 1
  seed := 0
  arena := ⟨0x10000, 212992, #[⟨4096, 40960⟩, ⟨49152, 40960⟩, ⟨94208, 40960⟩, ⟨139264, 73728⟩]⟩

theorem new_small : ((new .lenient .standard smallConfig : Act Unit Unit (Except Refusal FiberPool))
    ()).result = .ok (.ok small) := by
  rfl

end FiberPool

namespace Config

theorem of_validate {c : Config} (h : c.validate = .ok ()) :
    0 < c.workerCount.toNat ∧ c.workerCount.toNat < c.fiberCount.toNat ∧
    c.fiberCount.toNat + c.extendedFiberCount.toNat < wordSize 32 := by
  unfold validate problem? at h
  dsimp only at h
  split at h <;> rename_i hp
  · cases h
  · repeat' split at hp
    all_goals first | contradiction | omega

end Config

structure Hub.Empty (h : Hub κ) (workers fibers : Nat) : Prop where
  crew : h.crew.size = workers
  lanes : h.lanes = .empty workers
  links : h.links = Array.replicate fibers .empty
  groups : ∃ capacity, h.groups = .vacant capacity
  jobs : h.jobs = #[]
  active : h.active = 0
  stopping : h.stopping = false

theorem Hub.empty_of_new {mode : Mode} {config : Config} {h : Hub κ} (hnew : Hub.new mode config = .ok h) :
    ∃ fibers, mode.word .add 32 (config.fiberCount.toNat + config.extendedFiberCount.toNat) = .ok fibers ∧
      h.Empty config.workerCount.toNat fibers := by
  obtain ⟨fibers, hfibers, hnew⟩ := bind_eq_ok hnew
  obtain ⟨-, -, hnew⟩ := bind_eq_ok hnew
  obtain ⟨groups, hgroups, hnew⟩ := bind_eq_ok hnew
  cases hnew
  refine ⟨fibers, hfibers, rfl, rfl, rfl, ⟨config.blockCount.toNat, ?_⟩, rfl, rfl, rfl⟩
  exact BlockPool.eq_of_new hgroups

section
variable {h : Hub κ} {workers fibers : Nat} (he : h.Empty workers fibers)
include he

theorem Hub.Empty.get?_groups (g : Nat) : h.groups.get? g = none := by
  obtain ⟨capacity, hgroups⟩ := he.groups
  rw [hgroups]
  exact BlockPool.get?_vacant g

theorem Hub.Empty.parked : h.parked = [] := by
  obtain ⟨capacity, hgroups⟩ := he.groups
  unfold Hub.parked
  rw [hgroups, BlockPool.cells_vacant]
  exact gather_replicate _ _ rfl

theorem Hub.Empty.tidy : h.Tidy := by
  refine ⟨?_, fun g t ht => ?_, fun x hx => ?_, fun r hr => ?_⟩
  · obtain ⟨capacity, hgroups⟩ := he.groups
    rw [hgroups]
    exact BlockPool.sound_vacant
  · rw [he.get?_groups] at ht; cases ht
  · rw [he.parked] at hx; cases hx
  · rw [he.lanes, Lanes.readied_empty] at hr; cases hr

end

namespace System

open Act

structure New (s : System κ μ ρ) : Prop where
  hub : s.hub.Empty s.workers.size s.pool.slots.size
  slot : ∀ fiber < s.pool.slots.size, s.pool.slots[fiber]? = some ⟨true, false, .context fiber⟩
  sized : s.pool.Sized
  kept : s.kept = []
  runs : s.runs = Array.replicate s.pool.slots.size none
  workers : s.workers = Array.replicate s.workers.size .new
  staffed : 0 < s.workers.size ∧ s.workers.size < s.pool.normal
  aborted : s.aborted = false

theorem yields_new (mode : Mode) (host : Host) (config : Config) (memory : μ) (x : σ) :
    (new mode host config memory : Act ρ σ (Except Refusal (System κ μ ρ))).Yields x fun r => ∀ s, r = .ok s →
      New s ∧ s.pool.normal = config.fiberCount.toNat := by
  unfold new
  cases hvalid : config.validate with
  | error refusal => exact yields_pure fun _ hr => by cases hr
  | ok _ =>
    obtain ⟨hpos, hlt, hfit⟩ := Config.of_validate hvalid
    refine (yields_lift _).bind fun hub y hhub => (FiberPool.yields_new y).bind fun pool z hpool => ?_
    cases pool with
    | error refusal => exact yields_pure fun _ hr => by cases hr
    | ok pool =>
      refine yields_pure fun s hs => ?_
      cases hs
      obtain ⟨fibers, hfibers, hempty⟩ := Hub.empty_of_new hhub
      obtain ⟨hformatted, hnormal, hextended, hsize⟩ := hpool pool rfl
      rw [hnormal, hextended, hfibers] at hsize
      rw [Mode.word_of_lt hfit] at hfibers
      obtain rfl := Except.ok.inj hsize
      have hcount := Except.ok.inj hfibers
      refine ⟨⟨?_, hformatted.slot, ⟨?_, Nat.le_trans hformatted.granted host.stackCount_le⟩, rfl, rfl, ?_,
        ?_, rfl⟩, hnormal⟩
      · rwa [Array.size_replicate]
      · rw [hnormal, hextended, hcount]
      · rw [Array.size_replicate]
      · rw [Array.size_replicate, hnormal]
        exact ⟨hpos, hlt⟩

section
variable {s : System κ μ ρ} (h : New s)
include h

theorem New.worker {i : Nat} {w : Worker} (hw : s.workers[i]? = some w) : w = .new := by
  rw [h.workers, Array.getElem?_replicate] at hw
  split at hw <;> simp_all

theorem New.gather_workers {α : Type} (f : Worker → List α) (hf : f .new = []) : gather f s.workers = [] := by
  rw [h.workers]
  exact gather_replicate f _ hf

theorem New.isFree (fiber : Nat) : s.pool.isFree fiber = decide (fiber < s.pool.slots.size) := by
  unfold FiberPool.isFree
  by_cases hlt : fiber < s.pool.slots.size
  · rw [h.slot fiber hlt]
    simp [hlt]
  · rw [Array.getElem?_eq_none (by omega)]
    simp [hlt]

theorem New.get?_groups (g : Nat) : s.hub.groups.get? g = none :=
  h.hub.get?_groups g

theorem New.parked : s.hub.parked = [] :=
  h.hub.parked

theorem New.idle : s.hub.idle = [] := by
  unfold Hub.idle
  rw [h.parked, h.hub.lanes, Lanes.readied_empty]
  rfl

theorem New.run? (fiber : Nat) : s.run? fiber = none := by
  unfold System.run?
  rw [h.runs, Array.getElem?_replicate]
  split <;> rfl

theorem New.pending : s.pending = [] := by
  unfold System.pending System.unbegun handoffs runJobs
  rw [h.hub.lanes, Lanes.queued_empty, h.gather_workers _ rfl, h.runs, gather_replicate _ _ rfl]
  rfl

theorem New.places (fiber : Nat) : s.places fiber = if fiber < s.pool.slots.size then 1 else 0 := by
  unfold System.places currents
  rw [h.gather_workers _ rfl, h.idle, h.isFree]
  by_cases hlt : fiber < s.pool.slots.size <;> simp [hlt]

theorem New.tidy : s.hub.Tidy :=
  h.hub.tidy

theorem New.sound : s.Sound where
  crew := h.hub.crew
  lanes := by rw [h.hub.lanes]; exact Array.size_replicate
  links := by rw [h.hub.links]; exact Array.size_replicate
  runs := by rw [h.runs]; exact Array.size_replicate
  pool := h.sized
  staffed := by
    have := h.staffed
    have := h.sized.size
    have := h.sized.bound
    have h31 : wordSize 31 = 2147483648 := rfl
    have h32 : wordSize 32 = 4294967296 := rfl
    omega
  context := fun fiber slot hx => by
    have hlt := (Array.getElem?_eq_some_iff.mp hx).1
    rw [h.slot fiber hlt] at hx
    rw [← Option.some.inj hx]
  place := fun fiber => by rw [h.places]; split <;> omega
  inside := fun fiber hp => by rw [h.places] at hp; split at hp <;> omega
  nowhere := fun fiber hlt hp => by rw [h.places, if_pos hlt] at hp; cases hp
  unused := fun fiber _ => h.run? fiber
  unfinished := fun fiber hm => by rw [h.idle] at hm; cases hm
  suspended := fun fiber hm => by rw [h.idle] at hm; cases hm
  once := fun job => by rw [h.pending]; exact Nat.zero_le _
  cleared := fun j r hr => by rw [h.hub.jobs] at hr; cases hr
  limit := by rw [h.hub.jobs]; exact Nat.pow_pos (by decide)
  active := by rw [h.hub.active, h.pending, deaths, h.gather_workers _ rfl]; rfl
  left := fun ⟨i, hi⟩ => by
    unfold stageOf at hi
    obtain ⟨w, hw, hs⟩ := Option.map_eq_some_iff.mp hi
    rw [h.worker hw] at hs; cases hs
  tidy := h.tidy
  worker := fun i w hw => by
    rw [h.worker hw]
    exact ⟨fun _ => rfl, (fun hs => by cases hs), (fun hh => by cases hh), rfl⟩

end

section
variable {mode : Mode} {host : Host} {config : Config} {memory : μ} {x : σ} {s : System κ μ ρ}
  (hnew : ((new mode host config memory : Act ρ σ (Except Refusal (System κ μ ρ))) x).result = .ok (.ok s))
include hnew

theorem new_of_ok : New s :=
  (yields_new mode host config memory x _ hnew s rfl).1

theorem normal_of_ok : s.pool.normal = config.fiberCount.toNat :=
  (yields_new mode host config memory x _ hnew s rfl).2

theorem parts_of_ok : Hub.new mode config = .ok s.hub ∧ s.memory = memory := by
  have hyields :
    (new mode host config memory : Act ρ σ (Except Refusal (System κ μ ρ))).Yields x fun r => ∀ s, r = .ok s →
      Hub.new mode config = .ok s.hub ∧ s.memory = memory := by
    unfold new
    split
    · exact yields_pure fun _ hr => by cases hr
    · refine (yields_lift _).bind fun hub y hhub => (yields_any _ y).bind fun pool z _ => ?_
      cases pool with
      | error refusal => exact yields_pure fun _ hr => by cases hr
      | ok pool =>
        refine yields_pure fun s hs => ?_
        cases hs
        exact ⟨hhub, rfl⟩
  exact hyields _ hnew s rfl

theorem hub_of_ok : Hub.new mode config = .ok s.hub :=
  (parts_of_ok hnew).1

theorem memory_of_ok : s.memory = memory :=
  (parts_of_ok hnew).2

end

/-! ## A small system -/

def built (r : Except Fault (Except Refusal (System κ μ ρ))) : Option (System κ μ ρ) :=
  match r with
  | .ok (.ok s) => some s
  | _ => none

theorem eq_of_built {r : Except Fault (Except Refusal (System κ μ ρ))} (h : (built r).isSome = true) :
    r = .ok (.ok ((built r).get h)) := by
  rcases r with fault | refusal | s
  · cases h
  · cases h
  · rfl

def smallConfig : Config where
  workerCount := 2
  backgroundWorkerCount := 0
  fiberCount := 3
  extendedFiberCount := 0
  stackSize := 65536
  extendedStackSize := 65536
  blockCount := 2
  pinning := .none

def newSmall : Act Unit Unit (Except Refusal (System Bool Unit Unit)) :=
  new .strict .standard smallConfig ()

/-- A strict system with two workers, three fibers and two jobs to choose from. -/
def small : System Bool Unit Unit :=
  (built (newSmall ()).result).get (by decide +kernel)

theorem new_small : (newSmall ()).result = .ok (.ok small) :=
  eq_of_built _

def smallBody : Bool → Program Bool Unit Unit Unit
  | true => .call (.takeGroup 0) fun _ => .wait 0 (.done ())
  | false => .done ()

/-- Submits both jobs, the second one on group 0, and lets worker 0 run the first up to
its wait. -/
def parking : List (Move Bool Unit Unit) :=
  [.call .newGroup, .call (.spawn true none .normal .any), .call (.spawn false (some 0) .normal .any),
    .work 0, .work 0, .work 0, .work 0]

def draining : List (Move Bool Unit Unit) :=
  parking ++ [.work 1, .work 1, .work 1, .work 1, .work 1, .work 1, .stop, .work 0, .work 1]

end System

end FiberScheduler
