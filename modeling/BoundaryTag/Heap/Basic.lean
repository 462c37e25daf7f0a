import BoundaryTag.Counters
import BoundaryTag.FreeList
import BoundaryTag.Policy
import BoundaryTag.Span

/-!
# Heaps

A heap is an arena cut into blocks by boundary tags, with a list of the free blocks beside it. Since
every block repeats its tag at its end, both neighbours of a block are found without a search.

The functions here read the tags. A read outside the arena is a fault.
-/

namespace BoundaryTag

structure Heap where
  arena : Arena
  policy : Policy
  initialized : Bool
  freeList : FreeList
  counters : Counters

namespace Heap

/-- A heap with no blocks yet, which refuses every request. -/
def new (arena : Arena) (policy : Policy) : Heap := ⟨arena, policy, false, FreeList.empty, {}⟩

def withCheck (h : Heap) (level : CheckLevel) : Heap :=
  { h with policy := h.policy.withCheck level }

def span (h : Heap) : Except Fault Span :=
  if h.initialized then do
    return ⟨prologueOffset + wordBytes, ← Address.sub h.arena.top wordBytes⟩
  else .ok Span.empty

def tagAt (h : Heap) (i : Nat) : Except Fault Tag :=
  match h.arena.tag? i with
  | some t => .ok t
  | none => .error .outOfRange

def header (h : Heap) (block : Nat) : Except Fault Tag := do
  h.tagAt (← Address.sub block wordBytes)

def blockSize (h : Heap) (block : Nat) : Except Fault Nat := do return (← h.header block).size

def footer (h : Heap) (block : Nat) : Except Fault Tag := do
  h.tagAt (← Address.sub (block + (← h.blockSize block)) overhead)

/-- The footer of the block that ends where `block` begins. -/
def tagBefore (h : Heap) (block : Nat) : Except Fault Tag := do
  h.tagAt (← Address.sub block overhead)

def nextBlock (h : Heap) (block : Nat) : Except Fault Nat := do return block + (← h.blockSize block)

def prevBlock (h : Heap) (block : Nat) : Except Fault Nat := do
  Address.sub block (← h.tagBefore block).size

/-- Whether `block` could be a block of this heap, going by its offset alone. -/
def owns (h : Heap) (block : Nat) : Except Fault Bool :=
  if block % alignment = 0 then do return (← h.span).contains block else .ok false

def dump (h : Heap) : String :=
  record "Heap" [("config", h.policy.dump),
    ("prologue", optional (if h.initialized then some prologueOffset else none)),
    ("arena_end", hex h.arena.top), ("free_blocks", toString h.freeList.length),
    ("free_list_bytes", toString h.freeList.tableBytes)]

end Heap

end BoundaryTag
