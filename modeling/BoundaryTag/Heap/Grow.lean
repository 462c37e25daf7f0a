import BoundaryTag.Heap.Update

/-!
# Laying out and growing a heap

Initialization writes the sentinels and adds one chunk of free memory. Growing adds a free block
whose header takes the place of the old epilogue, and merges it with a free block before it.
-/

namespace BoundaryTag.Heap

open HeapM

/-- Merges the free, listed `block` with its free neighbours. The survivor, which is returned, stays
in the free list; what it absorbs leaves the list. -/
def coalesce (block : Nat) : HeapM Nat := do
  let before ← read (·.tagBefore block)
  let next ← read (·.nextBlock block)
  let after ← read (·.header next)
  let size ← read (·.blockSize block)
  match before.allocated, after.allocated with
  | true, true => return block
  | true, false =>
    let _ ← unlist next
    setBlock block (size + after.size) false
    return block
  | false, true =>
    let prev ← read (·.prevBlock block)
    let _ ← unlist block
    setBlock prev ((← read (·.blockSize prev)) + size) false
    return prev
  | false, false =>
    let prev ← read (·.prevBlock block)
    let _ ← unlist next
    let _ ← unlist block
    setBlock prev ((← read (·.blockSize prev)) + size + after.size) false
    return prev

/-- Grows the arena by a free block of at least `bytes`, and returns the free block that now ends the
heap. -/
def extend (bytes : Nat) : HeapM (Except AllocError Nat) := do
  let size := alignUp bytes
  let top ← view (·.arena.top)
  if maxBlockSize < size then return .error (.sizeOverflow bytes)
  else if Arena.maxSize < top + size then
    return .error (.arenaExhausted size (Arena.maxSize - top))
  else
    match ← claim size with
    | .error e => return .error e
    | .ok block =>
      tell (.extended size (← view (·.arena.top)))
      setBlock block size false
      putTag (block + size - wordBytes) Tag.epilogue
      enlist block
      return .ok (← coalesce block)

def putSentinels : HeapM Unit := do
  putTag 0 ⟨0⟩
  putTag wordBytes (Tag.make overhead true)
  putTag prologueOffset (Tag.make overhead true)
  putTag (prologueOffset + wordBytes) Tag.epilogue

/-- Makes the heap one chunk of free memory, whatever it was before. -/
def init : HeapM (Except AllocError Unit) := do
  update fun h => { h with initialized := false, freeList := FreeList.empty, counters := {} }
  resetArena
  match ← claim sentinelBytes with
  | .error e => return .error e
  | .ok _ =>
    putSentinels
    update fun h => { h with initialized := true }
    match ← extend (← view (·.policy.chunkSize)) with
    | .error e =>
      update fun h => { h with initialized := false }
      return .error e
    | .ok _ =>
      tell (.initialized (← view (·.arena.top)))
      return .ok ()

end BoundaryTag.Heap
