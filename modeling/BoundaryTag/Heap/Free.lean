import BoundaryTag.Heap.Check
import BoundaryTag.Heap.Grow

/-!
# Freeing

A block goes back to the front of the free list and merges with its free neighbours. Handles that are
no block of the heap, or whose block is free already, are ignored.
-/

namespace BoundaryTag.Heap

open HeapM

def free (p : Handle) : HeapM Unit := do
  selfCheck .free
  if ← read (·.owns p.offset) then
    let tag ← read (·.header p.offset)
    if tag.allocated then
      let payload ← Address.sub tag.size overhead
      account (Counters.recordFree payload)
      setBlock p.offset tag.size false
      enlist p.offset
      let _ ← coalesce p.offset
    else tell (.alreadyFree p)
  else tell (.freeIgnored p)

end BoundaryTag.Heap
