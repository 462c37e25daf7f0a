import BoundaryTag.Text

/-!
# Refused requests

An `AllocError` is an ordinary answer: the request could not be met, and nothing was changed.
Misuse that no answer can describe is a `Fault` instead.
-/

namespace BoundaryTag

inductive AllocError where
  | arenaExhausted (requested remaining : Nat)
  | sizeOverflow (requested : Nat)
  | uninitialized
deriving DecidableEq, Repr

namespace AllocError

def message : AllocError → String
  | arenaExhausted requested remaining =>
    s!"arena exhausted: requested {requested} bytes with {remaining} remaining"
  | sizeOverflow requested => s!"request of {requested} bytes exceeds the maximum block size"
  | uninitialized => "heap is not initialized"

def dump : AllocError → String
  | arenaExhausted requested remaining =>
    record "ArenaExhausted" [("requested", toString requested), ("remaining", toString remaining)]
  | sizeOverflow requested => record "SizeOverflow" [("requested", toString requested)]
  | uninitialized => "Uninitialized"

end AllocError

end BoundaryTag
