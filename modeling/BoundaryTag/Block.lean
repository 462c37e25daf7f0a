import BoundaryTag.Span

/-!
# Blocks

A snapshot of one block, as a walk of the heap finds it: where its payload starts, its whole size,
header and footer included, and whether it is allocated.
-/

namespace BoundaryTag

structure Block where
  offset : Nat
  size : Nat
  allocated : Bool
deriving DecidableEq, Repr

namespace Block

def span (b : Block) : Except Fault Span := do
  Span.ofSize (← Address.sub b.offset wordBytes) b.size

def payloadSize (b : Block) : Except Fault Nat := Address.sub b.size overhead

def dump (b : Block) : String :=
  record "BlockInfo" [("offset", toString b.offset), ("size", toString b.size),
    ("allocated", toString b.allocated)]

end Block

end BoundaryTag
