import BoundaryTag.Fault

/-!
# Boundary tags

The word at either end of a block: the block's size, with the allocation flag in the lowest bit. It
is stored as four bytes, least significant first.

Main statements: `ofBytes_toBytes` and `toBytes_ofBytes` (the stored form loses nothing and has no
second spelling), `dvd_size` and `size_or` (a size is a multiple of eight whatever the flag bits hold, and
they do not change it), `size_make` and `allocated_make` (a packed word reads back).
-/

namespace BoundaryTag

structure Tag where
  word : UInt32
deriving DecidableEq, Repr

namespace Tag

def allocatedFlag : Nat := 1
def flagMask : Nat := 7

def size (t : Tag) : Nat := t.word.toNat / 8 * 8

def allocated (t : Tag) : Bool := t.word.toNat % 2 == 1

/-- The word at the end of the heap: allocated and of size zero. -/
def epilogue : Tag := ⟨1⟩

/-- The word of a block, for sizes that are multiples of eight and at most `maxBlockSize`. -/
def make (size : Nat) (allocated : Bool) : Tag :=
  ⟨UInt32.ofNat (size + if allocated then 1 else 0)⟩

def pack (size : Nat) (allocated : Bool) : Except Fault Tag :=
  if size % 8 ≠ 0 then .error (.flagBits size)
  else if maxBlockSize < size then .error (.oversized size)
  else .ok (make size allocated)

def text (t : Tag) : String :=
  "[" ++ toString t.size ++ ":" ++ (if t.allocated then "a" else "f") ++ "]"

def dump (t : Tag) : String :=
  record "Tag" [("size", toString t.size), ("is_allocated", toString t.allocated)]

/-! ## Stored form -/

def toBytes (t : Tag) : Vector UInt8 4 :=
  #v[UInt8.ofNat t.word.toNat, UInt8.ofNat (t.word.toNat / 256),
    UInt8.ofNat (t.word.toNat / 65536), UInt8.ofNat (t.word.toNat / 16777216)]

def ofBytes (b : Vector UInt8 4) : Tag :=
  ⟨UInt32.ofNat (b.foldr (fun byte n => byte.toNat + 256 * n) 0)⟩

theorem ofBytes_toBytes (t : Tag) : ofBytes t.toBytes = t := by
  have h := t.word.toNat_lt
  cases t with
  | mk w =>
    simp only [ofBytes, toBytes, mk.injEq]
    apply UInt32.toNat_inj.mp
    simp
    simp at h
    omega

theorem toBytes_ofBytes (b : Vector UInt8 4) : (ofBytes b).toBytes = b := by
  obtain ⟨⟨l⟩, hl⟩ := b
  match l, hl with
  | [b0, b1, b2, b3], _ =>
    have h0 := b0.toNat_lt
    have h1 := b1.toNat_lt
    have h2 := b2.toNat_lt
    have h3 := b3.toNat_lt
    simp only [ofBytes, toBytes, Vector.mk_eq, Array.mk.injEq, List.cons.injEq, and_true]
    refine ⟨?_, ?_, ?_, ?_⟩ <;> apply UInt8.toNat_inj.mp <;> simp <;> omega

/-! ## Size and flag -/

theorem dvd_size (t : Tag) : 8 ∣ t.size := Nat.dvd_mul_left 8 _

theorem size_or (t : Tag) {flags : UInt32} (h : flags.toNat ≤ flagMask) :
    size ⟨t.word ||| flags⟩ = t.size := by
  have hz : flags.toNat / 2 ^ 3 = 0 := Nat.div_eq_of_lt (Nat.lt_succ_of_le h)
  have hw : (t.word.toNat ||| flags.toNat) / 2 ^ 3 = t.word.toNat / 2 ^ 3 := by
    rw [Nat.or_div_two_pow, hz, Nat.or_zero]
  rw [size, UInt32.toNat_or]
  exact congrArg (· * 8) hw

theorem size_le (t : Tag) : t.size ≤ maxBlockSize := by
  have h := t.word.toNat_lt
  simp only [size, maxBlockSize]
  omega

theorem size_make {n : Nat} (h : 8 ∣ n) (hn : n ≤ maxBlockSize) (a : Bool) :
    (make n a).size = n := by
  simp only [maxBlockSize] at hn
  cases a <;> simp [make, size] <;> omega

theorem allocated_make {n : Nat} (h : 8 ∣ n) (a : Bool) : (make n a).allocated = a := by
  cases a <;> simp [make, allocated] <;> omega

theorem pack_eq_ok_iff {n : Nat} {a : Bool} {t : Tag} :
    pack n a = .ok t ↔ 8 ∣ n ∧ n ≤ maxBlockSize ∧ t = make n a := by
  unfold pack
  by_cases h : 8 ∣ n
  · by_cases hn : n ≤ maxBlockSize
    · simp [Nat.mod_eq_zero_of_dvd h, Nat.not_lt.mpr hn, h, hn, eq_comm]
    · simp [Nat.mod_eq_zero_of_dvd h, Nat.not_le.mp hn, hn]
  · have : n % 8 ≠ 0 := fun e => h (Nat.dvd_of_mod_eq_zero e)
    simp [this, h]

end Tag

end BoundaryTag
