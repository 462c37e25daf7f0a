import BoundaryTag.Heap.Update

/-!
# Payloads

What the holder of a handle may use: the bytes between the block's header and footer.
-/

namespace BoundaryTag.Heap

open HeapM

def usableSize (h : Heap) (p : Handle) : Except Fault Nat := do
  Address.sub (← h.blockSize p.offset) overhead

def payloadSpan (h : Heap) (p : Handle) : Except Fault Span := do
  Span.ofSize p.offset (← h.usableSize p)

/-- The payload's span, which must lie in the arena. -/
def accessible (h : Heap) (p : Handle) : Except Fault Span := do
  let s ← h.payloadSpan p
  h.inArena s.base s.size
  return s

def payloadAt (h : Heap) (p : Handle) (i n : Nat) : Except Fault Nat := do
  let s ← h.accessible p
  if i + n ≤ s.size then return s.base + i else throw .outOfRange

def readPayload (h : Heap) (p : Handle) (i n : Nat) : Except Fault ByteArray := do
  let start ← h.payloadAt p i n
  return h.arena.bytes.extract start (start + n)

def payload (h : Heap) (p : Handle) : Except Fault ByteArray := do
  h.readPayload p 0 (← h.usableSize p)

def writePayload (p : Handle) (i : Nat) (src : ByteArray) : HeapM Unit := do
  splice (← read (·.payloadAt p i src.size)) src

end BoundaryTag.Heap
