import BoundaryTag.Fault

/-!
# Spans

A half-open range of arena offsets. A span whose top is not above its base is empty, wherever it
lies, and all empty spans are the same span.

Main statement: `same_iff` (two spans are the same exactly if they contain the same offsets).
-/

namespace BoundaryTag

structure Span where
  base : Nat
  top : Nat
deriving DecidableEq, Repr

namespace Span

def empty : Span := ⟨0, 0⟩

def ofSize (base size : Nat) : Except Fault Span := do
  return ⟨base, ← Address.within (base + size)⟩

def size (s : Span) : Nat := s.top - s.base

def isEmpty (s : Span) : Bool := decide (s.top ≤ s.base)

def contains (s : Span) (offset : Nat) : Bool := decide (s.base ≤ offset ∧ offset < s.top)

def overlaps (s t : Span) : Bool :=
  !s.isEmpty && !t.isEmpty && decide (s.base < t.top ∧ t.base < s.top)

def same (s t : Span) : Bool := s.isEmpty && t.isEmpty || decide (s = t)

def text (s : Span) : String := hex s.base ++ ".." ++ hex s.top

def dump (s : Span) : String := record "Span" [("base", toString s.base), ("acme", toString s.top)]

theorem same_iff {s t : Span} : s.same t = true ↔ ∀ x, s.contains x = t.contains x := by
  obtain ⟨a, b⟩ := s
  obtain ⟨c, d⟩ := t
  simp only [same, isEmpty, contains, Bool.or_eq_true, Bool.and_eq_true, decide_eq_true_eq,
    Span.mk.injEq, decide_eq_decide]
  constructor
  · rintro (⟨_, _⟩ | ⟨rfl, rfl⟩) x <;> omega
  · intro h
    have h₁ := h a
    have h₂ := h c
    have h₃ := h (b - 1)
    have h₄ := h (d - 1)
    omega

theorem overlaps_iff {s t : Span} :
    s.overlaps t = true ↔ ∃ x, s.contains x = true ∧ t.contains x = true := by
  obtain ⟨a, b⟩ := s
  obtain ⟨c, d⟩ := t
  simp only [overlaps, isEmpty, contains, Bool.and_eq_true, Bool.not_eq_true', decide_eq_false_iff_not,
    decide_eq_true_eq]
  constructor
  · intro h
    exact ⟨max a c, by omega⟩
  · intro hq
    obtain ⟨x, hx⟩ := hq
    omega

end Span

end BoundaryTag
