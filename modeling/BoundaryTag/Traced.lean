import BoundaryTag.Event

/-!
# Traced computations

A computation that may tell events on its way and may end in a fault. What was told before a fault
stays told.

Main statement: `bind_of_ok`, by which a computation of several steps is taken apart.
-/

namespace BoundaryTag

structure Traced (α : Type) where
  result : Except Fault α
  events : List Event

namespace Traced

variable {α β : Type}

def bind (m : Traced α) (f : α → Traced β) : Traced β :=
  match m with
  | ⟨.ok a, events⟩ => let t := f a; ⟨t.result, events ++ t.events⟩
  | ⟨.error e, events⟩ => ⟨.error e, events⟩

instance : Monad Traced where
  pure a := ⟨.ok a, []⟩
  bind := bind

instance : MonadLift (Except Fault) Traced := ⟨fun x => ⟨x, []⟩⟩

def fail (e : Fault) : Traced α := ⟨.error e, []⟩

def tell (events : List Event) : Traced Unit := ⟨.ok (), events⟩

/-- Tells an event that only a verbose run wants to hear. -/
def note (verbose : Bool) (e : Event) : Traced Unit := tell (if verbose then [e] else [])

def flag (violations : List Violation) : Traced Unit := tell (violations.map .violated)

theorem bind_of_ok (a : α) (es : List Event) (f : α → Traced β) :
    (⟨.ok a, es⟩ : Traced α) >>= f = ⟨(f a).result, es ++ (f a).events⟩ := rfl

end Traced

end BoundaryTag
