import BoundaryTag.Heap.Free
import BoundaryTag.Heap.Malloc

/-!
# Reallocation

A block that is already large enough stays as it is. Otherwise it grows over a free block before it,
after it, or both, in this order of preference; growing over the block before moves the payload down.
Failing that, the payload moves to a new block. Running out of memory at that point is a fault, since
an answer would leave the caller with a handle to less than it asked for.
-/

namespace BoundaryTag

inductive Growth where
  | down
  | up
  | both
deriving DecidableEq, Repr

/-- How a block of `size` bytes between `before` and `after` can come to hold `need` bytes. -/
def Growth.plan (size need : Nat) (before after : Tag) : Option Growth :=
  if !before.allocated ∧ need ≤ size + before.size then some down
  else if !after.allocated ∧ need ≤ size + after.size then some up
  else if !before.allocated ∧ !after.allocated ∧ need ≤ size + before.size + after.size then
    some both
  else none

namespace Heap

open HeapM

/-- Takes the `gained` bytes before the allocated `block`, and the `above` bytes after it, into the
block. -/
def growDown (block size gained above : Nat) : HeapM Nat := do
  let prev ← Address.sub block gained
  let _ ← unlist prev
  move block (← Address.sub size overhead) prev
  setBlock prev (gained + size + above) true
  tell (.grewDown block prev)
  return prev

def grow (block size : Nat) (before after : Tag) : Growth → HeapM Nat
  | .down => growDown block size before.size 0
  | .up => do
    let _ ← unlist (block + size)
    setBlock block (size + after.size) true
    return block
  | .both => do
    let _ ← unlist (block + size)
    growDown block size before.size after.size

def relocate (p : Handle) (payload size : Nat) : HeapM Handle := do
  selfCheck .malloc
  match ← serve payload with
  | .error e =>
    tell (.relocationFailed p payload e)
    fail (.relocation p payload e)
  | .ok q =>
    move p.offset (← Address.sub size overhead) q.offset
    free p
    tell (.moved p q)
    return q

def enlarge (p : Handle) (payload need : Nat) : HeapM Handle := do
  let block := p.offset
  let size ← read (·.blockSize block)
  if need ≤ size then return p
  else
    let before ← read (·.tagBefore block)
    let after ← read (·.header (block + size))
    match Growth.plan size need before after with
    | none => relocate p payload size
    | some growth =>
      let grown ← grow block size before after growth
      let old ← Address.sub size overhead
      let new ← Address.sub (← read (·.blockSize grown)) overhead
      account (Counters.recordGrowth old new)
      return ⟨grown⟩

def resize (p : Handle) (payload : Nat) : HeapM (Option Handle) := do
  if ← read (·.owns p.offset) then
    match blockSizeFor payload with
    | .error e =>
      tell (.reallocFailed p payload e)
      return none
    | .ok need => return some (← enlarge p payload need)
  else
    tell (.reallocIgnored p payload)
    return none

/-- Resizes an allocation to at least `payload` bytes and keeps its contents. Without a handle this
is `malloc`; for no bytes it is `free`. -/
def realloc (p : Option Handle) (payload : Nat) : HeapM (Option Handle) :=
  match p with
  | none => if payload = 0 then return none else malloc payload
  | some p =>
    if payload = 0 then do
      free p
      return none
    else resize p payload

end Heap

end BoundaryTag
