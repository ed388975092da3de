import FiberScheduler.Proofs.Merging
import FiberScheduler.Proofs.Strides

/-!
# Stages of a sort

The body of a sort, cut at the points where it calls.
-/

open FiberScheduler.System

namespace FiberScheduler.Sorting

/-! ## The body in parts -/

section
variable (t : Task) (g : Nat)

def store (sorted : Sorted) : Body Unit :=
  .call (.access fun cells => cells.setIfInBounds t.cell (some sorted)) fun _ => .done ()

def finish (sorted : Sorted) : Body Unit :=
  .call (.dropGroup g) fun _ => store t sorted

def found (cells : Cells) (cell : Nat) : Sorted :=
  (cells[cell]?).join.getD (.error .stopped)

def takeRight (left : List Int32) (cell : Nat) : Body Unit :=
  .call (.access fun cells => cells.setIfInBounds cell none) fun cells => finish t g <|
    match found cells cell with
    | .error refusal => .error refusal
    | .ok right => .ok (merge left right)

def afterLeft (left : Sorted) (rightCell : Except Refusal Nat) : Body Unit :=
  match left, rightCell with
  | .error refusal, _ | .ok _, .error refusal => finish t g (.error refusal)
  | .ok left, .ok cell => takeRight t g left cell

def takeLeft (cell : Nat) (rightCell : Except Refusal Nat) : Body Unit :=
  .call (.access fun cells => cells.setIfInBounds cell none) fun cells =>
    afterLeft t g (found cells cell) rightCell

def collect (leftCell rightCell : Except Refusal Nat) : Body Unit :=
  match leftCell with
  | .error refusal => finish t g (.error refusal)
  | .ok cell => takeLeft t g cell rightCell

def join (leftCell rightCell : Except Refusal Nat) : Body Unit :=
  .wait g (collect t g leftCell rightCell)

def handed (cell : Nat) : Except Refusal Unit → Except Refusal Nat
  | .ok () => .ok cell
  | .error refusal => .error refusal

def handRight (leftCell : Except Refusal Nat) (cell : Nat) : Body Unit :=
  .call (.spawn ⟨rightHalf t.values, cell⟩ (some g) .normal .any) fun r => join t g leftCell (handed cell r)

def openRight (leftCell : Except Refusal Nat) : Body Unit :=
  .call (.access fun cells => cells.push none) fun cells => handRight t g leftCell cells.size

def handLeft (cell : Nat) : Body Unit :=
  .call (.spawn ⟨leftHalf t.values, cell⟩ (some g) .normal .any) fun r => openRight t g (handed cell r)

def openLeft : Body Unit :=
  .call (.access fun cells => cells.push none) fun cells => handLeft t g cells.size

end

def halve (t : Task) : Except Refusal Nat → Body Unit
  | .error refusal => store t (.error refusal)
  | .ok group => openLeft t group

theorem body_of_short {t : Task} (hshort : t.values.length ≤ leafLength) :
    body t = store t (.ok (t.values.mergeSort fun a b => decide (a ≤ b))) := by
  unfold body mergeSort
  rw [if_pos hshort]
  rfl

theorem call_congr {α : Type} {c : Call Task Cells Empty} {f g : c.Answer → Body α}
    (h : ∀ answer, f answer = g answer) :
    Program.call c f = .call c g :=
  congrArg (Program.call c) (funext h)

theorem sortHalf_bind {α : Type} (g : Nat) (values : List Int32) (k : Except Refusal Nat → Body α) :
    (sortHalf g values).bind k =
    .call (.access fun cells => cells.push none) fun cells =>
      .call (.spawn ⟨values, cells.size⟩ (some g) .normal .any) fun r => k (handed cells.size r) :=
  call_congr fun cells => call_congr fun r => by rcases r with refusal | ⟨⟩ <;> rfl

theorem body_of_long {t : Task} (hlong : ¬t.values.length ≤ leafLength) :
    body t = .call .newGroup (halve t) := by
  unfold body mergeSort
  rw [if_neg hlong, List.splitAt_eq]
  refine call_congr fun r => ?_
  rcases r with refusal | g
  · rfl
  refine Eq.trans (Program.bind_bind (sortHalf g (leftHalf t.values)) _ _) ?_
  rw [sortHalf_bind]
  refine call_congr fun cells => call_congr fun left => ?_
  refine Eq.trans (Program.bind_bind (sortHalf g (rightHalf t.values)) _ _) ?_
  rw [sortHalf_bind]
  refine call_congr fun cells' => call_congr fun right => congrArg (Program.wait g) ?_
  rcases handed cells.size left with refusal | leftCell
  · rfl
  refine call_congr fun cells => ?_
  unfold found
  dsimp only [Program.bind, pure]
  rcases (cells[leftCell]?).join.getD (.error .stopped) with refusal | sorted
  · rfl
  rcases handed cells'.size right with refusal | rightCell
  · rfl
  refine call_congr fun cells => ?_
  unfold found
  dsimp only [Program.bind, pure]
  rcases (cells[rightCell]?).join.getD (.error .stopped) with refusal | sorted' <;> rfl

/-! ## What the history tells of a sort -/

abbrev Sys : Type := System Task Cells Empty

abbrev Story : Type := List (System.Deed Task Cells Empty)

def Submits (ds : Story) (job : Nat) (task : Task) : Prop :=
  ∃ group p a, .acted job (.call (.spawn task group p a) (.ok ())) ∈ ds

def Failed (ds : Story) (job : Nat) : Prop :=
  ∃ fault, .acted job (.failed fault) ∈ ds

/-- Why a sort is refused: it got no group, a half was not accepted, the sort of a half was refused
or left nothing. -/
inductive Cause (s : Sys) (ds : Story) : Nat → Refusal → Prop
  | noGroup {job : Nat} {refusal : Refusal} (h : .acted job (.call .newGroup (.error refusal)) ∈ ds) :
      Cause s ds job refusal
  | notAccepted {job : Nat} {task : Task} {group : Option Nat} {p : Priority} {a : Affinity}
      {refusal : Refusal} (h : .acted job (.call (.spawn task group p a) (.error refusal)) ∈ ds) :
        Cause s ds job refusal
  | half {job k : Nat} {record : Job Task} {refusal : Refusal} (hsubmits : Submits ds job record.code)
      (hrec : s.hub.jobs[k]? = some record) (h : Cause s ds k refusal) : Cause s ds job refusal
  | lost {job k : Nat} {record : Job Task} (hsubmits : Submits ds job record.code)
      (hrec : s.hub.jobs[k]? = some record) (h : Failed ds k) : Cause s ds job .stopped

def Alone (s : Sys) (ds : Story) (job : Nat) : Prop :=
  ∀ task, Submits ds job task → ∃ (k : Nat) (record : Job Task), s.hub.jobs[k]? = some record ∧
    record.code = task ∧ k ∉ s.pending

def Right (s : Sys) (ds : Story) (job : Nat) (values : List Int32) : Sorted → Prop
  | .ok sorted => Sorts sorted values
  | .error refusal => Cause s ds job refusal

/-- The pending jobs that a group counts are those that a job has submitted. -/
structure Wards (s : Sys) (ds : Story) (job g : Nat) : Prop where
  tracked : ∀ task, Submits ds job task → ∃ (k : Nat) (record : Job Task), s.hub.jobs[k]? = some record ∧
    record.code = task ∧
    (k ∈ s.pending → record.completion = some g)
  only : ∀ (k : Nat) (record : Job Task), k ∈ s.pending → s.hub.jobs[k]? = some record →
    record.completion = some g →
    Submits ds job record.code

/-- What is known of a half whose job was offered: it was submitted and its result not taken yet, or
the sort is refused for that. -/
def Handed (s : Sys) (ds : Story) (taken : List Nat) (job : Nat) (half : List Int32) :
    Except Refusal Nat → Prop
  | .ok cell => Submits ds job ⟨half, cell⟩ ∧ cell ∉ taken
  | .error refusal => Cause s ds job refusal

def Leaves (s : Sys) (ds : Story) (taken : List Nat) (job : Nat) (t : Task) : Prop :=
  (∃ r, s.memory[t.cell]? = some (some r)) ∨ Failed ds job ∨ t.cell ∈ taken

/-! ## Stages -/

/-- Where the body of a sort is, with the handles it has, and what holds there. -/
inductive Stage (n : Nat) (s : Sys) (ds : Story) (taken : List Nat) (job : Nat) (t : Task) :
    List Nat → Body Unit → Prop
  | halves (hlong : ¬t.values.length ≤ leafLength) (hnone : ∀ task, ¬Submits ds job task) :
      Stage n s ds taken job t [] (.call .newGroup (halve t))
  | openLeft {g : Nat} (hlong : ¬t.values.length ≤ leafLength) (hwards : Wards s ds job g)
      (hnone : ∀ task, ¬Submits ds job task) :
      Stage n s ds taken job t [g] (openLeft t g)
  | handLeft {g cell : Nat} (hlong : ¬t.values.length ≤ leafLength) (hn : n ≤ cell)
      (hwards : Wards s ds job g) (hnone : ∀ task, ¬Submits ds job task) :
        Stage n s ds taken job t [g] (handLeft t g cell)
  | openRight {g : Nat} {leftCell : Except Refusal Nat} (hlong : ¬t.values.length ≤ leafLength)
      (hwards : Wards s ds job g) (hleft : Handed s ds taken job (leftHalf t.values) leftCell)
      (honly : ∀ task, Submits ds job task → leftCell = .ok task.cell) :
      Stage n s ds taken job t [g] (openRight t g leftCell)
  | handRight {g cell : Nat} {leftCell : Except Refusal Nat} (hlong : ¬t.values.length ≤ leafLength)
      (hn : n ≤ cell) (hwards : Wards s ds job g) (hleft : Handed s ds taken job (leftHalf t.values) leftCell)
      (honly : ∀ task, Submits ds job task → leftCell = .ok task.cell) :
      Stage n s ds taken job t [g] (handRight t g leftCell cell)
  | join {g : Nat} {leftCell rightCell : Except Refusal Nat} (hwards : Wards s ds job g)
      (hleft : Handed s ds taken job (leftHalf t.values) leftCell)
      (hright : Handed s ds taken job (rightHalf t.values) rightCell)
      (hne : ∀ cell, leftCell = .ok cell → rightCell ≠ .ok cell) :
      Stage n s ds taken job t [g] (join t g leftCell rightCell)
  | takeLeft {g cell : Nat} {rightCell : Except Refusal Nat} (halone : Alone s ds job)
      (hleft : Handed s ds taken job (leftHalf t.values) (.ok cell))
      (hright : Handed s ds taken job (rightHalf t.values) rightCell) (hne : rightCell ≠ .ok cell) :
        Stage n s ds taken job t [g] (takeLeft t g cell rightCell)
  | takeRight {g cell : Nat} {left : List Int32} (halone : Alone s ds job)
      (hleft : Sorts left (leftHalf t.values))
      (hright : Handed s ds taken job (rightHalf t.values) (.ok cell)) :
      Stage n s ds taken job t [g] (takeRight t g left cell)
  | finish {g : Nat} {r : Sorted} (halone : Alone s ds job) (hr : Right s ds job t.values r) :
      Stage n s ds taken job t [g] (finish t g r)
  | store {r : Sorted} (halone : Alone s ds job) (hr : Right s ds job t.values r) :
      Stage n s ds taken job t [] (store t r)
  | done {held : List Nat} (hleaves : Leaves s ds taken job t) : Stage n s ds taken job t held (.done ())
  | panic {held : List Nat} (fault : Fault) (hfailed : Failed ds job) :
      Stage n s ds taken job t held (.panic fault)

section
variable {n : Nat} {s s' : Sys} {ds ds' : Story} {taken taken' : List Nat} {job g : Nat} {t : Task}
  {held : List Nat} {rest : Body Unit} {leftCell rightCell : Except Refusal Nat} {refusal : Refusal}
  {r : Sorted} {values : List Int32}

theorem Stage.begun (hnone : ∀ task, ¬Submits ds job task) : Stage n s ds taken job t [] (body t) := by
  by_cases hshort : t.values.length ≤ leafLength
  · rw [body_of_short hshort]
    exact .store (fun task h => absurd h (hnone task)) (leaf_sorts t.values)
  · rw [body_of_long hshort]
    exact .halves hshort hnone

theorem Stage.collect (halone : Alone s ds job) (hleft : Handed s ds taken job (leftHalf t.values) leftCell)
    (hright : Handed s ds taken job (rightHalf t.values) rightCell)
    (hne : ∀ cell, leftCell = .ok cell → rightCell ≠ .ok cell) :
    Stage n s ds taken job t [g] (collect t g leftCell rightCell) := by
  cases leftCell with
  | error refusal => exact .finish halone hleft
  | ok cell => exact .takeLeft halone hleft hright (hne cell rfl)

theorem Stage.afterLeft {left : Sorted} (halone : Alone s ds job)
    (hleft : Right s ds job (leftHalf t.values) left)
    (hright : Handed s ds taken job (rightHalf t.values) rightCell) :
    Stage n s ds taken job t [g] (afterLeft t g left rightCell) := by
  rcases left with refusal | left
  · exact .finish halone hleft
  rcases rightCell with refusal | cell
  · exact .finish halone hright
  · exact .takeRight halone hleft hright

/-! ## Stages of other jobs -/

structure Onward (s : Sys) (ds : Story) (taken : List Nat) (s' : Sys) (ds' : Story) (taken' : List Nat) :
    Prop where
  later : Later s s'
  told : ∀ d ∈ ds, d ∈ ds'
  taken : ∀ cell ∈ taken, cell ∈ taken'
  remains : ∀ (cell : Nat) (r : Sorted), s.memory[cell]? = some (some r) →
    (∃ r', s'.memory[cell]? = some (some r')) ∨ cell ∈ taken'

/-- A job that has submitted nothing meanwhile: no new job has joined its groups, and nobody has
taken what its halves leave. -/
structure Spared (s : Sys) (ds : Story) (taken : List Nat) (s' : Sys) (ds' : Story) (taken' : List Nat)
    (job : Nat) (held : List Nat) : Prop where
  silent : ∀ task, Submits ds' job task → Submits ds job task
  untaken : ∀ task, Submits ds job task → task.cell ∉ taken → task.cell ∉ taken'
  unjoined : ∀ g ∈ held, ∀ (k : Nat) (record' : Job Task), k ∈ s'.pending → s'.hub.jobs[k]? = some record' →
    record'.completion = some g →
    ∃ record, s.hub.jobs[k]? = some record

section
variable (ho : Onward s ds taken s' ds' taken')
include ho

theorem Submits.onward {task : Task} (h : Submits ds job task) : Submits ds' job task := by
  obtain ⟨g, p, a, hd⟩ := h
  exact ⟨g, p, a, ho.told _ hd⟩

theorem Failed.onward (h : Failed ds job) : Failed ds' job := by
  obtain ⟨fault, hd⟩ := h
  exact ⟨fault, ho.told _ hd⟩

theorem Cause.onward (h : Cause s ds job refusal) : Cause s' ds' job refusal := by
  induction h with
  | noGroup h => exact .noGroup (ho.told _ h)
  | notAccepted h => exact .notAccepted (ho.told _ h)
  | half hsubmits hrec _ ih =>
    obtain ⟨record', hrec', hcode, -⟩ := ho.later.kept _ _ hrec
    exact .half (hcode ▸ hsubmits.onward ho) hrec' ih
  | lost hsubmits hrec h =>
    obtain ⟨record', hrec', hcode, -⟩ := ho.later.kept _ _ hrec
    exact .lost (hcode ▸ hsubmits.onward ho) hrec' (h.onward ho)

theorem Right.onward (h : Right s ds job values r) : Right s' ds' job values r := by
  cases r with
  | error refusal => exact Cause.onward ho h
  | ok sorted => exact h

theorem Leaves.onward (h : Leaves s ds taken job t) : Leaves s' ds' taken' job t := by
  obtain ⟨r, hr⟩ | hfailed | htaken := h
  · obtain hr | htaken := ho.remains _ r hr
    · exact .inl hr
    · exact .inr (.inr htaken)
  · exact .inr (.inl (hfailed.onward ho))
  · exact .inr (.inr (ho.taken _ htaken))

theorem Alone.onward (hsilent : ∀ task, Submits ds' job task → Submits ds job task) (h : Alone s ds job) :
    Alone s' ds' job := by
  intro task hsubmits
  obtain ⟨k, record, hrec, rfl, hended⟩ := h task (hsilent task hsubmits)
  obtain ⟨record', hrec', hcode, hpending, -⟩ := ho.later.kept k record hrec
  exact ⟨k, record', hrec', hcode, fun hin => hended (hpending hin).1⟩

theorem Handed.onward {half : List Int32} {cell : Except Refusal Nat}
    (huntaken : ∀ task, Submits ds job task → task.cell ∉ taken → task.cell ∉ taken')
    (h : Handed s ds taken job half cell) :
    Handed s' ds' taken' job half cell := by
  cases cell with
  | error refusal => exact Cause.onward ho h
  | ok cell => exact ⟨h.1.onward ho, huntaken _ h.1 h.2⟩

theorem Wards.onward (hsp : Spared s ds taken s' ds' taken' job held) (hg : g ∈ held) (h : Wards s ds job g) :
    Wards s' ds' job g where
  tracked := by
    intro task hsubmits
    obtain ⟨k, record, hrec, rfl, htracked⟩ := h.tracked task (hsp.silent task hsubmits)
    obtain ⟨record', hrec', hcode, hpending, -⟩ := ho.later.kept k record hrec
    refine ⟨k, record', hrec', hcode, fun hin => ?_⟩
    rw [(hpending hin).2]
    exact htracked (hpending hin).1
  only := by
    intro k record' hin hrec' hcompletion
    obtain ⟨record, hrec⟩ := hsp.unjoined g hg k record' hin hrec' hcompletion
    obtain ⟨record₁, hrec₁, hcode, hpending, -⟩ := ho.later.kept k record hrec
    obtain rfl := Option.some.inj (hrec'.symm.trans hrec₁)
    obtain ⟨hin, hsame⟩ := hpending hin
    rw [hcode]
    exact (h.only k record hin hrec (hsame ▸ hcompletion)).onward ho

theorem Stage.onward (hsp : Spared s ds taken s' ds' taken' job held)
    (h : Stage n s ds taken job t held rest) :
    Stage n s' ds' taken' job t held rest := by
  have hsilent := hsp.silent
  have hwards : ∀ g, g ∈ held → Wards s ds job g → Wards s' ds' job g := fun g hg hw => hw.onward ho hsp hg
  cases h with
  | halves hlong hnone => exact .halves hlong fun task h => hnone task (hsilent task h)
  | openLeft hlong hw hnone =>
    exact .openLeft hlong (hwards _ List.mem_cons_self hw) fun task h => hnone task (hsilent task h)
  | handLeft hlong hn hw hnone =>
    exact .handLeft hlong hn (hwards _ List.mem_cons_self hw) fun task h => hnone task (hsilent task h)
  | openRight hlong hw hleft honly =>
    exact .openRight hlong (hwards _ List.mem_cons_self hw) (hleft.onward ho hsp.untaken) fun task h =>
      honly task (hsilent task h)
  | handRight hlong hn hw hleft honly =>
    exact .handRight hlong hn (hwards _ List.mem_cons_self hw) (hleft.onward ho hsp.untaken) fun task h =>
      honly task (hsilent task h)
  | join hw hleft hright hne =>
    exact .join (hwards _ List.mem_cons_self hw) (hleft.onward ho hsp.untaken)
      (hright.onward ho hsp.untaken) hne
  | takeLeft halone hleft hright hne =>
    exact .takeLeft (halone.onward ho hsilent) (hleft.onward ho hsp.untaken)
      (hright.onward ho hsp.untaken) hne
  | takeRight halone hleft hright =>
    exact .takeRight (halone.onward ho hsilent) hleft (hright.onward ho hsp.untaken)
  | finish halone hr => exact .finish (halone.onward ho hsilent) (hr.onward ho)
  | store halone hr => exact .store (halone.onward ho hsilent) (hr.onward ho)
  | done hleaves => exact .done (hleaves.onward ho)
  | panic fault hfailed => exact .panic fault (hfailed.onward ho)

end

end

end FiberScheduler.Sorting
