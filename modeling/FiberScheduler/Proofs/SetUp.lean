import FiberScheduler.Proofs.Layout

/-!
# Setting up

What a checked configuration is set up to, computed with exact numbers. Every mode comes
to the same, as long as the sizes of the stacks leave room for the rounding to pages and a
guard page: the checks of a configuration bound the sizes of the stacks from below only.
-/

namespace FiberScheduler

open Act

variable {ρ σ κ : Type} {mode : Mode} {host : Host} {config : Config} {plan : Arena}

/-! ## Sizes that fit -/

namespace Host

def Holds (host : Host) (size : Nat) : Prop :=
  size + 2 * host.pageSize ≤ wordSize 64

instance (host : Host) (size : Nat) : Decidable (host.Holds size) :=
  inferInstanceAs (Decidable (_ ≤ _))

theorem holds_iff {size : Nat} : host.Holds size ↔ host.pageSize + host.wholePages size < wordSize 64 := by
  have hpos := host.pageSize_pos
  unfold Holds
  constructor
  · intro hholds
    have hlt := host.wholePages_lt size
    omega
  · intro hfit
    have hle := host.le_wholePages size
    have hdvd : host.pageSize ∣ host.pageSize + host.wholePages size + host.pageSize :=
      Nat.dvd_add (Nat.dvd_add (Nat.dvd_refl _) (host.pageSize_dvd_wholePages size)) (Nat.dvd_refl _)
    have hroom : host.pageSize + host.wholePages size + host.pageSize ≤ wordSize 64 :=
      Nat.le_of_lt_add_of_dvd (by omega) hdvd host.pageSize_dvd_wordSize
    omega

def grants (host : Host) (plan : Arena) (fiber : Nat) : Bool :=
  let row := plan.row host.pageSize fiber
  fiber < host.stackCount && host.commits row.offset row.size plan.total

def refused (host : Host) (plan : Arena) : Option Nat :=
  (List.range (plan.normal + plan.extended)).find? fun fiber => !host.grants plan fiber

end Host

/-- The sizes with which nothing wraps. A lenient mode computes with the size of a tier
without fibers too, but what that comes to is not used. -/
structure Config.Bounded (config : Config) (host : Host) (mode : Mode) : Prop where
  normal : host.Holds config.stackSize.toNat
  extended : host.Holds config.extendedStackSize.toNat ∨ mode = .lenient ∧ config.extendedFiberCount.toNat = 0

/-! ## The exact outcome -/

namespace Arena

/-- The plan of a configuration in exact numbers. The size of a tier without fibers is left out. -/
def exact (host : Host) (config : Config) : Arena :=
  let normal := config.fiberCount.toNat
  let extended := config.extendedFiberCount.toNat
  let normalSize := host.wholePages config.stackSize.toNat
  let extendedSize := if extended = 0 then 0 else host.wholePages config.extendedStackSize.toNat
  let total := normal * (host.pageSize + normalSize) + extended * (host.pageSize + extendedSize)
  { normalSize, extendedSize, normal, extended, total }

def rows (plan : Arena) (page count : Nat) : Array Extent :=
  ((List.range count).map (plan.row page)).toArray

theorem push_rows (page count : Nat) :
    (plan.rows page count).push (plan.row page count) = plan.rows page (count + 1) := by
  unfold rows
  rw [List.push_toArray, List.range_succ, List.map_append]
  rfl

@[simp] theorem size_rows (page count : Nat) : (plan.rows page count).size = count := by
  simp [rows]

end Arena

namespace FiberPool

def fresh (count : Nat) : Array Slot :=
  ((List.range count).map fun fiber => ⟨true, false, .context fiber⟩).toArray

theorem push_fresh (count : Nat) : (fresh count).push ⟨true, false, .context count⟩ = fresh (count + 1) := by
  unfold fresh
  rw [List.push_toArray, List.range_succ, List.map_append]
  rfl

/-- What a host makes of a plan: it maps the arena and opens up the stacks one by one, up to
the first that it refuses. -/
def allot (host : Host) (plan : Arena) (x : σ) : Outcome ρ σ (Except Refusal FiberPool) :=
  if wordSize 64 ≤ plan.total then ⟨.ok (.error (.invalidConfig .arenaOverflow)), x, []⟩
  else match host.map plan.total with
  | none => ⟨.ok (.error (.stackAllocation plan.total)), x, [.notice (.mappingFailed plan.total)]⟩
  | some 0 => ⟨.ok (.error (.stackAllocation plan.total)), x, []⟩
  | some start =>
    match host.refused plan with
    | some fiber =>
      let row := plan.row host.pageSize fiber
      ⟨.ok (.error (.stackAllocation row.size)), x, [.notice (.commitFailed row.offset row.size)]⟩
    | none =>
      let rows := plan.rows host.pageSize (plan.normal + plan.extended)
      ⟨.ok (.ok ⟨fresh (plan.normal + plan.extended), plan.normal, plan.extended, 0,
        ⟨start, plan.total, rows⟩⟩), x, []⟩

end FiberPool

/-! ## Opening up the stacks -/

theorem StackArena.commit_apply (mode : Mode) {arena : StackArena} {offset size : Nat} (x : σ)
    (hfits : arena.size < wordSize 64) (hinside : offset + size ≤ arena.size) :
    (arena.commit mode host offset size : Act ρ σ (Except Refusal StackArena)) x =
      if arena.opened.size < host.stackCount && host.commits offset size arena.size then
        ⟨.ok (.ok { arena with opened := arena.opened.push ⟨offset, size⟩ }), x, []⟩
      else ⟨.ok (.error (.stackAllocation size)), x, [.notice (.commitFailed offset size)]⟩ := by
  have hcheck : arena.check mode offset size = .ok () := by
    unfold check
    cases mode with
    | lenient => rfl
    | strict =>
      have hstop : Mode.strict.word .add 64 (offset + size) = .ok (offset + size) :=
        Mode.word_of_lt (by omega)
      simp only [hstop, bind, Except.bind, if_neg (Nat.not_lt.mpr hinside)]
  unfold commit
  rw [lift_bind _ _ hcheck]
  split <;> rfl

section
variable {used : Arena} {start count : Nat}
  (hused : ∀ fiber < count, used.stackSize fiber = plan.stackSize fiber) (hstart : 0 < start)
  (hend : start + plan.total < wordSize 64) (hinside : plan.frontier host.pageSize count ≤ plan.total)
  (hlarge : ∀ fiber < count, minStackSize + Stack.recordSize + 30 ≤ plan.stackSize fiber)
include hused hstart hend hinside hlarge

/-- The stacks that are left are opened up, or the first of them that the host refuses is
reported. -/
theorem FiberPool.format_apply (mode : Mode) (x : σ) : ∀ {remaining fiber : Nat}, fiber + remaining = count →
    (format mode host used remaining fiber (plan.frontier host.pageSize fiber)
      ⟨start, plan.total, plan.rows host.pageSize fiber⟩ (fresh fiber) : Act ρ σ _) x =
      match (List.range' fiber remaining).find? fun fiber => !host.grants plan fiber with
      | some fiber =>
        let row := plan.row host.pageSize fiber
        ⟨.ok (.error (.stackAllocation row.size)), x, [.notice (.commitFailed row.offset row.size)]⟩
      | none => ⟨.ok (.ok (⟨start, plan.total, plan.rows host.pageSize count⟩, fresh count)), x, []⟩
  | 0, fiber, hcount => by
    obtain rfl : fiber = count := hcount
    rfl
  | remaining + 1, fiber, hcount => by
    have hstep := plan.frontier_succ host.pageSize fiber
    have hle : plan.frontier host.pageSize (fiber + 1) ≤ plan.total :=
      Nat.le_trans (Arena.frontier_mono (by omega)) hinside
    have hstack : mode.word .add 64 (plan.frontier host.pageSize fiber + host.pageSize) =
      .ok (plan.frontier host.pageSize fiber + host.pageSize) := Mode.word_of_lt (by omega)
    have hnext :
        mode.word .add 64 (plan.frontier host.pageSize fiber + host.pageSize + plan.stackSize fiber) =
        .ok (plan.frontier host.pageSize (fiber + 1)) := Mode.word_of_lt (by omega)
    have hcommit : (StackArena.commit mode host ⟨start, plan.total, plan.rows host.pageSize fiber⟩
        (plan.frontier host.pageSize fiber + host.pageSize) (plan.stackSize fiber) :
          Act ρ σ (Except Refusal StackArena)) x =
          if host.grants plan fiber = true then
            ⟨.ok (.ok ⟨start, plan.total, plan.rows host.pageSize (fiber + 1)⟩), x, []⟩
          else ⟨.ok (.error (.stackAllocation (plan.stackSize fiber))), x,
            [.notice (.commitFailed (plan.frontier host.pageSize fiber + host.pageSize)
              (plan.stackSize fiber))]⟩ := by
      rw [StackArena.commit_apply mode x (show plan.total < wordSize 64 by omega)
        (by rw [← hstep]; exact hle)]
      simp only [Arena.size_rows]
      rw [← Arena.push_rows]
      rfl
    have hcarve :
      (Stack.carve mode (start + (plan.frontier host.pageSize fiber + host.pageSize)) (plan.stackSize fiber) :
        Act ρ σ (Option Stack)) x = ⟨.ok (some _), x, []⟩ :=
      Stack.carve_of_large mode x (by omega) (by omega) (hlarge fiber (by omega))
    unfold format
    simp only [hused fiber (by omega)]
    rw [lift_bind _ _ hstack, List.range'_succ, List.find?_cons]
    cases hgrants : host.grants plan fiber with
    | false =>
      rw [hgrants, if_neg Bool.false_ne_true] at hcommit
      rw [bind_of_ok x hcommit]
      rfl
    | true =>
      rw [hgrants, if_pos rfl] at hcommit
      rw [bind_quiet _ hcommit]
      dsimp only
      rw [bind_quiet _ hcarve]
      dsimp only
      rw [lift_bind _ _ hnext, push_fresh]
      exact format_apply mode x (by omega)

end

/-! ## The plan of a checked configuration -/

namespace Arena

theorem word?_sum {α : Type} (m n : Nat) (f : Nat → α) :
    ((word? m).bind fun m => (word? n).bind fun n => (word? (m + n)).bind fun total =>
      if total = 0 then none else some (f total)) = if wordSize 64 ≤ m + n ∨
        m + n = 0 then none else some (f (m + n)) := by
  by_cases hlong : wordSize 64 ≤ m + n
  · rw [if_pos (Or.inl hlong)]
    cases hm : word? m with
    | none => rfl
    | some m' =>
      cases hn : word? n with
      | none => rfl
      | some n' =>
        obtain ⟨-, rfl⟩ := word?_eq_some_iff.mp hm
        obtain ⟨-, rfl⟩ := word?_eq_some_iff.mp hn
        have hsum : word? (m + n) = none := if_neg (by omega)
        rw [Option.bind_some, Option.bind_some, hsum]
        rfl
  · have hm : word? m = some m := if_pos (by omega)
    have hn : word? n = some n := if_pos (by omega)
    have hsum : word? (m + n) = some (m + n) := if_pos (by omega)
    rw [hm, Option.bind_some, hn, Option.bind_some, hsum, Option.bind_some]
    simp only [hlong, false_or]

/-- A plan in which nothing that is used wraps is exact. -/
theorem plan_of_bounded (h : config.Bounded host mode) :
    ∃ size, (config.extendedFiberCount.toNat = 0 ∨ size = host.wholePages config.extendedStackSize.toNat) ∧
      Arena.plan mode host config =
        .ok (if wordSize 64 ≤ (exact host config).total ∨ (exact host config).total = 0 then none
          else some { exact host config with extendedSize := size }) := by
  have hfit := Host.holds_iff.mp h.normal
  have hnormal :
      mode.roundToPage host config.stackSize.toNat = .ok (host.wholePages config.stackSize.toNat) :=
    Mode.word_of_lt (by omega)
  have hnormalStride : mode.word .add 64 (host.pageSize + host.wholePages config.stackSize.toNat) = .ok _ :=
    Mode.word_of_lt hfit
  obtain ⟨size, stride, hextended, hextendedStride, hexact⟩ :
      ∃ size stride, mode.roundToPage host config.extendedStackSize.toNat = .ok size ∧
        mode.word .add 64 (host.pageSize + size) = .ok stride ∧ (config.extendedFiberCount.toNat = 0 ∨
          size = host.wholePages config.extendedStackSize.toNat ∧
            stride = host.pageSize + host.wholePages config.extendedStackSize.toNat) := by
    rcases h.extended with hholds | ⟨rfl, hnone⟩
    · have hfit' := Host.holds_iff.mp hholds
      exact ⟨_, _, Mode.word_of_lt (by omega), Mode.word_of_lt hfit', Or.inr ⟨rfl, rfl⟩⟩
    · -- Whatever the size of a tier without fibers comes to, it is multiplied by zero.
      obtain ⟨size, hsize⟩ := Mode.word_lenient .multiply 64 (host.wholePages config.extendedStackSize.toNat)
      obtain ⟨stride, hstride⟩ := Mode.word_lenient .add 64 (host.pageSize + size)
      exact ⟨size, stride, hsize, hstride, Or.inl hnone⟩
  have htotal : config.fiberCount.toNat * (host.pageSize + host.wholePages config.stackSize.toNat) +
      config.extendedFiberCount.toNat * stride = (exact host config).total := by
    unfold exact
    dsimp only
    by_cases hnone : config.extendedFiberCount.toNat = 0
    · rw [hnone, Nat.zero_mul, Nat.zero_mul]
    · rw [if_neg hnone, (hexact.resolve_left hnone).2]
  refine ⟨size, hexact.imp_right And.left, ?_⟩
  unfold Arena.plan
  simp only [hnormal, hextended, hnormalStride, hextendedStride, bind, Except.bind, pure, Except.pure]
  rw [← htotal, word?_sum _ _ fun total => (⟨_, size, _, _, total⟩ : Arena)]
  rfl

end Arena

/-! ## Checked configurations -/

namespace Config

theorem sizes_of_validate (h : config.validate = .ok ()) : minStackSize * 2 ≤ config.stackSize.toNat ∧
    (config.extendedFiberCount.toNat = 0 ∨ config.stackSize.toNat ≤ config.extendedStackSize.toNat) ∧
      config.blockCount.toNat ≠ 0 := by
  unfold validate problem? at h
  dsimp only at h
  split at h <;> rename_i hp
  · cases h
  · repeat' split at hp
    all_goals first | contradiction | (refine ⟨?_, ?_, ?_⟩ <;> omega)

theorem problem?_of_no_extended (hnone : config.extendedFiberCount.toNat = 0) (size : UInt64) :
    { config with extendedStackSize := size }.problem? = config.problem? := by
  unfold problem?
  simp only [hnone, Nat.lt_irrefl, false_and, if_false]

end Config

theorem Hub.new_of_valid (hvalid : config.validate = .ok ()) : ∃ hub :
    Hub κ, ∀ mode, Hub.new mode config = .ok { hub with mode } := by
  obtain ⟨-, hworkers, hcounts⟩ := Config.of_validate hvalid
  obtain ⟨-, -, hblocks⟩ := Config.sizes_of_validate hvalid
  have hfibers : ∀ mode :
      Mode, mode.word .add 32 (config.fiberCount.toNat + config.extendedFiberCount.toNat) = .ok _ :=
    fun mode => Mode.word_of_lt hcounts
  have hlanes : checkLanes config.workerCount.toNat = .ok () := by
    have h32 : wordSize 32 = 4294967296 := rfl
    have h63 : wordSize 63 = 9223372036854775808 := rfl
    have hbytes : laneBytes = 1536 := rfl
    have halign : laneAlignment = 128 := rfl
    unfold checkLanes
    rw [hbytes, halign, if_pos (by omega)]
  have hgroups : BlockPool.new config.blockCount.toNat = .ok (_ : BlockPool Group) := if_neg hblocks
  refine ⟨⟨.strict, ⟨config.workerCount.toNat, config.workerCount.toNat - config.backgroundWorkerCount.toNat⟩,
    0 < config.extendedFiberCount, .empty config.workerCount.toNat,
    .vacant config.blockCount.toNat,
      Array.replicate (config.fiberCount.toNat + config.extendedFiberCount.toNat) .empty, #[], false, 0,
      .zero⟩, fun mode => ?_⟩
  unfold Hub.new
  simp only [hfibers, hlanes, hgroups, bind, Except.bind, pure, Except.pure]

/-! ## The exact plan -/

namespace Arena

theorem frontier_exact (host : Host) (config : Config) :
    (exact host config).frontier host.pageSize
      ((exact host config).normal + (exact host config).extended) = (exact host config).total :=
  frontier_extended _

theorem stackSize_exact {size fiber : Nat}
    (hsize : config.extendedFiberCount.toNat = 0 ∨ size = host.wholePages config.extendedStackSize.toNat)
    (hfiber : fiber < (exact host config).normal + (exact host config).extended) :
    ({ exact host config with extendedSize := size } : Arena).stackSize fiber =
      (exact host config).stackSize fiber := by
  unfold stackSize
  by_cases hnormal : fiber < (exact host config).normal
  · rw [if_pos hnormal, if_pos hnormal]
  · have hsome : config.extendedFiberCount.toNat ≠ 0 := by
      have hextended : (exact host config).extended = config.extendedFiberCount.toNat := rfl
      omega
    rw [if_neg hnormal, if_neg hnormal, hsize.resolve_left hsome]
    exact (if_neg hsome).symm

section
variable (hvalid : config.validate = .ok ())
include hvalid

theorem exact_positive (host : Host) : (exact host config).total ≠ 0 := by
  obtain ⟨-, hworkers, -⟩ := Config.of_validate hvalid
  have hpage := host.pageSize_pos
  have hproduct : 0 < config.fiberCount.toNat * (host.pageSize + host.wholePages config.stackSize.toNat) :=
    Nat.mul_pos (by omega) (by omega)
  exact Nat.ne_of_gt (Nat.add_pos_left hproduct _)

/-- A checked stack is always large enough for a context. -/
theorem exact_large {fiber : Nat}
    (hfiber : fiber < (exact host config).normal + (exact host config).extended) :
    minStackSize + Stack.recordSize + 30 ≤ (exact host config).stackSize fiber := by
  obtain ⟨hstack, hextendedStack, -⟩ := Config.sizes_of_validate hvalid
  have hmin : minStackSize = 16384 := rfl
  have hrecord : Stack.recordSize = 56 := rfl
  unfold stackSize
  by_cases hnormal : fiber < (exact host config).normal
  · rw [if_pos hnormal]
    have hle : config.stackSize.toNat ≤ (exact host config).normalSize := host.le_wholePages _
    omega
  · have hsome : config.extendedFiberCount.toNat ≠ 0 := by
      have hextended : (exact host config).extended = config.extendedFiberCount.toNat := rfl
      omega
    rw [if_neg hnormal]
    have hle : config.extendedStackSize.toNat ≤ (exact host config).extendedSize := by
      unfold exact
      dsimp only
      rw [if_neg hsome]
      exact host.le_wholePages _
    omega

end

end Arena

/-! ## Setting up a pool -/

namespace FiberPool

theorem new_of_bounded (hvalid : config.validate = .ok ())
    (hrange : ∀ size start, host.map size = some start → start + size < wordSize 64)
    (hbounded : config.Bounded host mode) (x : σ) :
    (new mode host config : Act ρ σ (Except Refusal FiberPool)) x = allot host (.exact host config) x := by
  obtain ⟨-, -, hcounts⟩ := Config.of_validate hvalid
  obtain ⟨size, hsize, hplan⟩ := Arena.plan_of_bounded hbounded
  unfold new
  rw [lift_bind _ _ hplan]
  unfold allot
  by_cases hlong : wordSize 64 ≤ (Arena.exact host config).total
  · rw [if_pos hlong, if_pos (Or.inl hlong)]
    rfl
  rw [if_neg hlong, if_neg (not_or.mpr ⟨hlong, Arena.exact_positive hvalid host⟩)]
  dsimp only
  rcases hmap : host.map (Arena.exact host config).total with _ | _ | start
  · rfl
  · rfl
  · have hcount :
        mode.word .add 32 ((Arena.exact host config).normal + (Arena.exact host config).extended) = .ok _ :=
      Mode.word_of_lt hcounts
    have hformat := @format_apply ρ σ host _ _ _ _ (fun _ => Arena.stackSize_exact hsize) (Nat.succ_pos start)
      (hrange _ _ hmap)
      (Nat.le_of_eq (Arena.frontier_exact host config)) (fun _ => Arena.exact_large hvalid) mode x _ _
        (Nat.zero_add _)
    rw [← List.range_eq_range', ← Host.refused] at hformat
    refine (lift_bind _ _ hcount).trans ?_
    cases hrefused : host.refused (Arena.exact host config) with
    | some fiber =>
      rw [hrefused] at hformat
      exact bind_of_ok x hformat
    | none =>
      rw [hrefused] at hformat
      exact bind_quiet _ hformat

theorem allot_ends (host : Host) (plan : Arena) (x : σ) :
    ∃ r log, (allot host plan x : Outcome ρ σ _) = ⟨.ok r, x, log⟩ := by
  unfold allot
  repeat' split
  all_goals exact ⟨_, _, rfl⟩

theorem bounded_of_plan {planned : Option Arena} (h : Arena.plan .strict host config = .ok planned) :
    config.Bounded host .strict := by
  obtain ⟨normalSize, hnormalSize, h⟩ := bind_eq_ok h
  obtain ⟨extendedSize, hextendedSize, h⟩ := bind_eq_ok h
  obtain ⟨normalStride, hnormalStride, h⟩ := bind_eq_ok h
  obtain ⟨extendedStride, hextendedStride, -⟩ := bind_eq_ok h
  obtain ⟨-, rfl⟩ := Mode.word_strict_eq_ok_iff.mp hnormalSize
  obtain ⟨-, rfl⟩ := Mode.word_strict_eq_ok_iff.mp hextendedSize
  obtain ⟨hnormal, -⟩ := Mode.word_strict_eq_ok_iff.mp hnormalStride
  obtain ⟨hextended, -⟩ := Mode.word_strict_eq_ok_iff.mp hextendedStride
  exact ⟨Host.holds_iff.mpr hnormal, Or.inl (Host.holds_iff.mpr hextended)⟩

/-- What a checked configuration is set up to. The hub is built, the same in every mode. The pool
is built or refused as computed with exact numbers, in every mode in which the sizes are bounded;
a strict mode stops at an overflow in all other cases. Sizes of a tier without fibers make no
difference where they are bounded. -/
theorem checked_config_sets_up (hvalid : config.validate = .ok ())
    (hrange : ∀ size start, host.map size = some start → start + size < wordSize 64) (x : σ) :
    (∃ hub : Hub κ, ∀ mode, Hub.new mode config = .ok { hub with mode }) ∧
      (∀ mode, config.Bounded host mode →
        (new mode host config : Act ρ σ (Except Refusal FiberPool)) x = allot host (.exact host config) x) ∧
      ((∃ fault, ((new .strict host config : Act ρ σ (Except Refusal FiberPool)) x).result = .error fault) ↔
        ¬ config.Bounded host .strict) ∧
      (config.extendedFiberCount.toNat = 0 → ∀ mode size, config.Bounded host mode →
        Config.Bounded { config with extendedStackSize := size } host mode →
          (new mode host { config with extendedStackSize := size } : Act ρ σ (Except Refusal FiberPool)) x =
            new mode host config x) := by
  refine ⟨Hub.new_of_valid hvalid, fun _ hbounded => new_of_bounded hvalid hrange hbounded x, ⟨?_, ?_⟩, ?_⟩
  · intro ⟨fault, hfault⟩ hbounded
    obtain ⟨r, log, hends⟩ := allot_ends (ρ := ρ) host (.exact host config) x
    rw [new_of_bounded hvalid hrange hbounded, hends] at hfault
    cases hfault
  · intro hlarge
    -- A strict mode has a plan only where no sum wraps.
    cases hplan : Arena.plan .strict host config with
    | error fault =>
      refine ⟨fault, ?_⟩
      unfold new
      rw [lift_bind_error _ _ hplan]
    | ok planned => exact absurd (bounded_of_plan hplan) hlarge
  · intro hnone mode size hbounded hbounded'
    have hvalid' : Config.validate { config with extendedStackSize := size } = .ok () := by
      unfold Config.validate
      rw [Config.problem?_of_no_extended hnone]
      exact hvalid
    have hexact : Arena.exact host { config with extendedStackSize := size } = Arena.exact host config := by
      unfold Arena.exact
      simp only [hnone, if_true]
    rw [new_of_bounded hvalid' hrange hbounded', new_of_bounded hvalid hrange hbounded, hexact]

/-- The largest size that leaves room for a guard page, for the stacks of a tier without fibers. -/
def edgeConfig : Config :=
  { System.smallConfig with extendedStackSize := 0xFFFFFFFFFFFFE000 }

theorem edge_config_sets_up : edgeConfig.validate = .ok () ∧ edgeConfig.Bounded .standard .strict ∧
    ∀ size, Config.Bounded { edgeConfig with extendedStackSize := size } .standard .strict →
      ∃ pool, (new .strict .standard { edgeConfig with extendedStackSize := size } : Act Unit Unit
        (Except Refusal FiberPool)) () =
        ⟨.ok (.ok pool), (), []⟩ := by
  have hbounded : edgeConfig.Bounded .standard .strict := ⟨by decide, Or.inl (by decide)⟩
  have hrange : ∀ size start, Host.standard.map size = some start → start + size < wordSize 64 := by
    intro size start hmap
    simp only [Host.standard] at hmap
    split at hmap
    · rw [← Option.some.inj hmap, wordSize_64]
      omega
    · cases hmap
  obtain ⟨-, hnew, -, hunused⟩ := @checked_config_sets_up Unit Unit Unit .standard edgeConfig rfl hrange ()
  refine ⟨rfl, hbounded, ?_⟩
  intro size hbounded'
  rw [hunused (by decide) .strict size hbounded hbounded', hnew .strict hbounded]
  exact ⟨_, rfl⟩

/-- The checks let stack sizes pass that overflow when they are rounded: a strict mode stops at
one that is not even used, and a lenient mode finds that the stacks have no bytes at all. -/
theorem large_stacks_overflow :
    Config.validate { System.smallConfig with extendedStackSize := 0xFFFFFFFFFFFFFFFF } = .ok () ∧
      ((new .strict .standard { System.smallConfig with extendedStackSize := 0xFFFFFFFFFFFFFFFF } :
        Act Unit Unit (Except Refusal FiberPool)) ()).result = .error (.overflow .multiply) ∧
      Config.validate { System.smallConfig with stackSize := 0xFFFFFFFFFFFFFFFF } = .ok () ∧
      ((new .lenient .standard { System.smallConfig with stackSize := 0xFFFFFFFFFFFFFFFF } :
        Act Unit Unit (Except Refusal FiberPool)) ()).result =
          .ok (.error (.invalidConfig (.fiberStackTooSmall 0))) :=
  ⟨rfl, by rfl, rfl, by rfl⟩

end FiberPool

end FiberScheduler
