import FiberScheduler.Act

/-!
# Block pools

A fixed number of blocks, handed out by index. The block that has been free the
longest is handed out next. Beside each block stands a flag that says whether it is
handed out; what the flag says decides whether the content of the block is read and
dropped.
-/

namespace FiberScheduler

structure BlockPool (α : Type) where
  /-- The contents. A block is empty until it is written and again once its value is dropped. -/
  blocks : Array (Option α)
  live : Array Bool
  /-- The free indices, the one freed first in front. -/
  free : List Nat

namespace BlockPool

variable {ρ α : Type}

def vacant (capacity : Nat) : BlockPool α :=
  ⟨Array.replicate capacity none, Array.replicate capacity false, List.range capacity⟩

def new (capacity : Nat) : Except Fault (BlockPool α) :=
  if capacity = 0 then .error .zeroCapacity else .ok (vacant capacity)

def capacity (pool : BlockPool α) : Nat :=
  pool.blocks.size

def get? (pool : BlockPool α) (index : Nat) : Option α :=
  if pool.live[index]? = some true then (pool.blocks[index]?).join else none

def Live (pool : BlockPool α) (index : Nat) : Prop :=
  (pool.get? index).isSome

def toList (pool : BlockPool α) : List α :=
  (List.range pool.capacity).filterMap pool.get?

def allocate (value : α) : Act ρ (BlockPool α) (Option Nat) := do
  match (← Act.get).free with
  | [] => pure none
  | index :: free =>
    Act.modify fun pool => ⟨pool.blocks.setIfInBounds index (some value),
      pool.live.setIfInBounds index true, free⟩
    pure (some index)

def get (index : Nat) : Act ρ (BlockPool α) α := do
  let pool ← Act.get
  match pool.live[index]?, (pool.blocks[index]?).join with
  | none, _ => Act.fail (.outOfBounds pool.capacity index)
  | some true, some value => pure value
  | some _, _ => Act.fail (.blockNotAllocated index)

def modify (index : Nat) (f : α → α) : Act ρ (BlockPool α) Unit :=
  Act.modify fun pool => { pool with blocks := pool.blocks.modify index (·.map f) }

/-- Empties a block and hands over what it held. Freeing a block that is not handed
out is a programming error and changes nothing. -/
def release (mode : Mode) (index : Nat) : Act ρ (BlockPool α) (Option α) := do
  let pool ← Act.get
  match pool.live[index]? with
  | none => Act.fail (.outOfBounds pool.capacity index)
  | some false =>
    Act.blame mode (.blockFreedTwice index) (.blockFreedTwice index)
    pure none
  | some true =>
    Act.modify fun pool => ⟨pool.blocks.setIfInBounds index none, pool.live.setIfInBounds index false,
      pool.free ++ [index]⟩
    pure (pool.blocks[index]?).join

/-- What is dropped with the pool: going through blocks and flags side by side, the
value in each block that is handed out. -/
def drop (pool : BlockPool α) : List α :=
  (pool.blocks.zip pool.live).toList.filterMap fun (block, live) => if live then block else none

end BlockPool

end FiberScheduler
