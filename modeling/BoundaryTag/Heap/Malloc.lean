import BoundaryTag.Heap.Check
import BoundaryTag.Heap.Grow

/-!
# Allocation

A request is rounded up to a block size, placed into a free block that is picked from the free list
in list order, and served from new memory only if no listed block is large enough.
-/

namespace BoundaryTag.Heap

open HeapM

/-- Searches `candidates` for a block that wastes less than `best`, a block with its waste. The first
improvement within the policy's threshold settles the search. -/
def betterFit (h : Heap) (size : Nat) (best : Option (Nat × Nat)) :
    List Nat → Except Fault (Option Nat)
  | [] => .ok (best.map (·.1))
  | block :: rest => do
    let tag ← h.header block
    if tag.allocated ∨ tag.size < size then h.betterFit size best rest
    else
      let surplus := tag.size - size
      if best.all (surplus < ·.2) then
        if surplus ≤ h.policy.fitThreshold then .ok (some block)
        else h.betterFit size (some (block, surplus)) rest
      else h.betterFit size best rest

def findFit (h : Heap) (size : Nat) : Except Fault (Option Nat) :=
  h.betterFit size none h.freeList.toList

/-- Allocates `size` bytes at the start of the free `block`, and splits the rest off if the policy
finds it large enough. -/
def place (block size : Nat) : HeapM Unit := do
  let whole ← read (·.blockSize block)
  require (size ≤ whole) (.undersized block)
  require (← unlist block) (.notListed block)
  if (← view (·.policy.splitThreshold)) ≤ whole - size then
    setBlock block size true
    setBlock (block + size) (whole - size) false
    enlist (block + size)
    let _ ← coalesce (block + size)
    tell (.split size block (whole - size))
  else
    setBlock block whole true
    tell (.filled size block whole)
  let payload ← Address.sub (← read (·.blockSize block)) overhead
  account (Counters.recordAlloc payload)

/-- A free block of at least `size` bytes, from the free list or from new memory. -/
def obtain (size : Nat) : HeapM (Except AllocError Nat) := do
  match ← read (·.findFit size) with
  | some block => return .ok block
  | none => extend (max size (← view (·.policy.chunkSize)))

def serve (payload : Nat) : HeapM (Except AllocError Handle) := do
  if ← view (·.initialized) then
    match blockSizeFor payload with
    | .error e => return .error e
    | .ok size =>
      match ← obtain size with
      | .error e => return .error e
      | .ok block =>
        place block size
        return .ok ⟨block⟩
  else return .error .uninitialized

/-- Allocates at least `payload` bytes. A request of no bytes has no handle. -/
def tryMalloc (payload : Nat) : HeapM (Except AllocError (Option Handle)) := do
  selfCheck .malloc
  if payload = 0 then return .ok none
  else return (← serve payload).map some

def malloc (payload : Nat) : HeapM (Option Handle) := do
  match ← tryMalloc payload with
  | .ok p => return p
  | .error e =>
    tell (.mallocFailed payload e)
    return none

end BoundaryTag.Heap
