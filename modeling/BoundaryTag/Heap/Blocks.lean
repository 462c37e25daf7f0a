import BoundaryTag.Block
import BoundaryTag.Heap.Basic

/-!
# The blocks of a heap

The walk from block to block in address order. It ends at a tag of size zero, or before a block that
would pass the arena's end.
-/

namespace BoundaryTag.Heap

def blocksFrom (h : Heap) (block : Nat) : Except Fault (List Block) :=
  match h.header block with
  | .error e => .error e
  | .ok tag =>
    if _ : tag.size = 0 ∨ h.arena.top < block + tag.size then .ok []
    else
      match h.blocksFrom (block + tag.size) with
      | .error e => .error e
      | .ok rest => .ok (⟨block, tag.size, tag.allocated⟩ :: rest)
termination_by h.arena.top + 1 - block
decreasing_by omega

def blocks (h : Heap) : Except Fault (List Block) :=
  if h.initialized then h.blocksFrom firstBlock else .ok []

/-- The counters, with the figures that are taken from the free list. -/
def usage (h : Heap) : Except Fault Counters := do
  let sizes ← h.freeList.toList.mapM fun block => do
    Address.sub (← h.blockSize block) overhead
  return { h.counters with
    available := sizes.foldr (· + ·) 0
    fragments := sizes.length
    tableBytes := h.freeList.tableBytes }

end BoundaryTag.Heap
