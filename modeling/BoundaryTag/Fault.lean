import BoundaryTag.Handle
import BoundaryTag.Layout

/-!
# Faults

A `Fault` ends a run: the memory or the caller broke a rule that the heap relies on. Each
constructor is a cause; `message` words the causes that have something to tell beyond "a bound was
passed".

Sizes and offsets live in a 64-bit address space, and `Address.sub` and `Address.within` fault where
a result would leave it.
-/

namespace BoundaryTag

inductive Fault where
  /-- Bytes outside the arena were touched. -/
  | outOfRange
  /-- A size, an offset or a count would leave the 64-bit range. -/
  | overflow
  /-- A block too large for its size to fit a boundary tag. -/
  | oversized (size : Nat)
  /-- A request placed into a smaller block. -/
  | undersized (block : Nat)
  | flagBits (size : Nat)
  | misaligned (block : Nat)
  | unreserved (block : Nat)
  | unaddressable (block : Nat)
  | sharedSlot (block : Nat)
  | unlinked (block : Nat)
  | notListed (block : Nat)
  | relocation (handle : Handle) (size : Nat) (cause : AllocError)
deriving DecidableEq, Repr

def Fault.message : Fault → Option String
  | outOfRange => none
  | overflow => none
  | oversized _ => none
  | undersized _ => none
  | flagBits size => some s!"size {size} collides with flag bits"
  | misaligned block => some s!"block {hex block} is not aligned"
  | unreserved block => some s!"block {hex block} is beyond the reserved arena"
  | unaddressable block => some s!"block {hex block} is beyond the addressable arena"
  | sharedSlot block => some s!"block {hex block} shares its slot with a member"
  | unlinked block =>
    some s!"internal error: entered unreachable code: free list member {hex block} has no link"
  | notListed block => some s!"placing into {hex block} which isn't in the free list"
  | relocation handle size cause =>
    some s!"realloc({handle.text}, {size}): out of memory while relocating payload: {cause.message}"

theorem exists_of_bind_ok {α β : Type} {x : Except Fault α} {f : α → Except Fault β} {b : β}
    (h : x >>= f = .ok b) : ∃ a, x = .ok a ∧ f a = .ok b := by
  cases x with
  | error e => cases h
  | ok a => exact ⟨a, rfl, h⟩

namespace Address

def sub (a b : Nat) : Except Fault Nat := if b ≤ a then .ok (a - b) else .error .overflow

def within (a : Nat) : Except Fault Nat := if a < addressSpace then .ok a else .error .overflow

theorem sub_eq_ok_iff {a b c : Nat} : sub a b = .ok c ↔ b ≤ a ∧ c = a - b := by
  by_cases h : b ≤ a
  · simp [sub, h, eq_comm]
  · simp [sub, h]

end Address

end BoundaryTag
