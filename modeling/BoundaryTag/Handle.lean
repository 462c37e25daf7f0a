import BoundaryTag.Text

/-!
# Handles

What a client holds of an allocation: the arena offset of its first payload byte.
-/

namespace BoundaryTag

structure Handle where
  offset : Nat
deriving DecidableEq, Repr

namespace Handle

def text (p : Handle) : String := hex p.offset

def dump (p : Handle) : String := "Payload(" ++ toString p.offset ++ ")"

end Handle

end BoundaryTag
