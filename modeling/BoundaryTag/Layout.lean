import BoundaryTag.AllocError

/-!
# Block layout

A block is a header word, a payload and a footer word. Block offsets point at the payload, and
offsets and sizes are multiples of eight, so a word has three bits to spare for flags.

An initialized heap begins with a padding word and the two words of the prologue, and ends with the
epilogue word. Prologue and epilogue count as allocated, so every real block has an allocated
neighbour at either end of the heap:

    pad | prologue header, footer | header payload footer | ... | epilogue
    0     4                8        12     16

Main statements: `alignUp_dvd`, `le_alignUp` and `alignUp_lt` (the least multiple that is not
smaller), `blockSizeFor_eq_ok_iff` (which payloads have a block, and of what size).
-/

namespace BoundaryTag

def wordBytes : Nat := 4
def alignment : Nat := 8
/-- Header and footer of one block. -/
def overhead : Nat := 8
def minBlockSize : Nat := 16
/-- The largest multiple of eight below `2 ^ 32`. -/
def maxBlockSize : Nat := 4294967288
/-- The padding word, the prologue and the epilogue. -/
def sentinelBytes : Nat := 16
/-- Where the prologue's payload would be. -/
def prologueOffset : Nat := 8
def firstBlock : Nat := 16
/-- Sizes, offsets and counts are 64-bit quantities. -/
def addressSpace : Nat := 18446744073709551616
/-- The longest run of memory that there can be: distances within it are signed. -/
def maxExtent : Nat := 9223372036854775807

/-! ## Rounding up -/

def alignUp (n : Nat) : Nat := (n + 7) / 8 * 8

theorem alignUp_dvd (n : Nat) : 8 ∣ alignUp n := Nat.dvd_mul_left 8 _

theorem le_alignUp (n : Nat) : n ≤ alignUp n := by unfold alignUp; omega

theorem alignUp_lt (n : Nat) : alignUp n < n + 8 := by unfold alignUp; omega

theorem alignUp_eq_self {n : Nat} (h : 8 ∣ n) : alignUp n = n := by unfold alignUp; omega

/-! ## Block sizes -/

/-- The size of the smallest block whose payload holds `payload` bytes. -/
def blockSizeFor (payload : Nat) : Except AllocError Nat :=
  if alignUp (payload + overhead) ≤ maxBlockSize then .ok (alignUp (payload + overhead))
  else .error (.sizeOverflow payload)

theorem blockSizeFor_eq_ok_iff {payload size : Nat} :
    blockSizeFor payload = .ok size ↔
      size = alignUp (payload + overhead) ∧ size ≤ maxBlockSize := by
  unfold blockSizeFor
  split
  · constructor
    · intro h; cases h; exact ⟨rfl, by assumption⟩
    · intro hq
      obtain ⟨rfl, _⟩ := hq
      rfl
  · constructor
    · intro h; cases h
    · intro hq
      obtain ⟨rfl, _⟩ := hq
      contradiction

end BoundaryTag
