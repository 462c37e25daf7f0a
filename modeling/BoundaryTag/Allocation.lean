import BoundaryTag.Heap.Payload
import BoundaryTag.Heap.Realloc

/-!
# Allocations

An allocation that remembers the size it was asked for, in a heap with an arena of a fixed limit. It
is only resized where the heap cannot run out of memory while it moves the payload.
-/

namespace BoundaryTag

structure Allocation where
  handle : Handle
  size : Nat
deriving DecidableEq, Repr

namespace Allocation

open HeapM

/-- The heap of an allocation has an arena that never grows beyond this. -/
def heapLimit : Nat := Arena.defaultLimit

def heap (policy : Policy) : Heap := Heap.new (Arena.growable heapLimit) policy

def mark : UInt8 := 0xab

def marks (n : Nat) : ByteArray := n.repeat (·.push mark) ByteArray.empty

def new (size : Nat) : HeapM (Option Allocation) := do
  match ← Heap.malloc size with
  | none => return none
  | some p =>
    Heap.splice (← read (·.payloadAt p 0 size)) (marks size)
    return some ⟨p, size⟩

/-- Bytes that the arena may have to grow by before a block can hold `size` bytes. -/
def growthFor (size : Nat) (policy : Policy) : Nat :=
  match blockSizeFor size with
  | .ok need => max need policy.chunkSize
  | .error _ => addressSpace - 1

/-- Whether the arena may be too small to move the allocation to a block for `size` bytes. -/
def mayExhaust (a : Allocation) (size : Nat) (h : Heap) : Except Fault Bool := do
  let needed := growthFor size h.policy
  let remaining ← Address.sub heapLimit h.arena.top
  if needed ≤ remaining then return false
  else return decide ((← h.usableSize a.handle) < needed)

def resize (a : Allocation) (size : Nat) : HeapM (Bool × Allocation) := do
  if ← read (a.mayExhaust size) then return (false, a)
  else
    match ← Heap.realloc (some a.handle) size with
    | some p => return (true, ⟨p, size⟩)
    | none => return (false, a)

def release (a : Allocation) : HeapM Unit := Heap.free a.handle

end Allocation

end BoundaryTag
