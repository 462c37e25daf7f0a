/-!
# Byte arrays

The few operations that an arena needs of a byte array: reading and writing four bytes at a time,
writing one array over a part of another, and growing by zeros. `byte?` is the view that the laws are
stated on.

Main statements: `byte?_setWord`, `byte?_splice` and `byte?_appendZeros` (what each operation does to
every single byte), `word?_setWord` (a word reads back as written) and `word?_congr` (a word depends
on its four bytes only).
-/

namespace BoundaryTag.Bytes

def byte? (b : ByteArray) (i : Nat) : Option UInt8 :=
  if h : i < b.size then some b[i] else none

def word? (b : ByteArray) (i : Nat) : Option (Vector UInt8 4) :=
  if h : i + 4 ≤ b.size then some #v[b[i], b[i + 1], b[i + 2], b[i + 3]] else none

/-- Writes four bytes from position `i`, which must all lie inside `b`. -/
def setWord (b : ByteArray) (i : Nat) (w : Vector UInt8 4) : ByteArray :=
  (((b.set! i w[0]).set! (i + 1) w[1]).set! (i + 2) w[2]).set! (i + 3) w[3]

/-- Writes `src` over `b` from position `i`, where it must fit. -/
def splice (b : ByteArray) (i : Nat) (src : ByteArray) : ByteArray := src.copySlice 0 b i src.size

/-- The same bytes, with memory for `n` of them. -/
def reserve (b : ByteArray) (n : Nat) : ByteArray := splice (.emptyWithCapacity n) 0 b

def pushZeros (b : ByteArray) : Nat → ByteArray
  | 0 => b
  | n + 1 => pushZeros (b.push 0) n

-- Without the reservation, the array would be moved each time that its memory is full.
def appendZeros (b : ByteArray) (n : Nat) : ByteArray := pushZeros (reserve b (b.size + n)) n

/-! ## Single bytes -/

theorem byte?_eq_data (b : ByteArray) (i : Nat) : byte? b i = b.data[i]? := by
  unfold byte?
  split
  · next h => rw [ByteArray.getElem_eq_getElem_data, Array.getElem?_eq_getElem]
  · next h => exact (Array.getElem?_eq_none (Nat.le_of_not_lt h)).symm

theorem byte?_eq_none_iff {b : ByteArray} {i : Nat} : byte? b i = none ↔ b.size ≤ i := by
  unfold byte?
  split <;> simp <;> omega

theorem data_set! (b : ByteArray) (i : Nat) (v : UInt8) :
    (b.set! i v).data = b.data.setIfInBounds i v := by
  cases b
  rfl

theorem size_set! (b : ByteArray) (i : Nat) (v : UInt8) : (b.set! i v).size = b.size := by
  rw [← ByteArray.size_data, ← ByteArray.size_data, data_set!, Array.size_setIfInBounds]

theorem byte?_set! {b : ByteArray} {i : Nat} (v : UInt8) (j : Nat) (h : i < b.size) :
    byte? (b.set! i v) j = if j = i then some v else byte? b j := by
  rw [byte?_eq_data, byte?_eq_data, data_set!, Array.getElem?_setIfInBounds]
  have : i < b.data.size := h
  by_cases e : i = j
  · rw [if_pos e, if_pos this, if_pos e.symm]
  · rw [if_neg e, if_neg (Ne.symm e)]

/-! ## Words -/

theorem size_setWord (b : ByteArray) (i : Nat) (w : Vector UInt8 4) :
    (setWord b i w).size = b.size := by
  simp only [setWord, size_set!]

theorem byte?_setWord {b : ByteArray} {i : Nat} (w : Vector UInt8 4) (j : Nat)
    (h : i + 4 ≤ b.size) :
    byte? (setWord b i w) j =
      if i ≤ j ∧ j < i + 4 then w[j - i]? else byte? b j := by
  unfold setWord
  rw [byte?_set! _ _ (by simp only [size_set!]; omega), byte?_set! _ _ (by simp only [size_set!]; omega),
    byte?_set! _ _ (by simp only [size_set!]; omega), byte?_set! _ _ (by omega)]
  by_cases hj : i ≤ j ∧ j < i + 4
  · obtain ⟨k, rfl⟩ := Nat.exists_eq_add_of_le hj.1
    have hk : k < 4 := by omega
    match k, hk with
    | 0, _ => simp
    | 1, _ => simp
    | 2, _ => simp
    | 3, _ => simp
  · rw [if_neg (by omega), if_neg (by omega), if_neg (by omega), if_neg (by omega), if_neg hj]

theorem word?_eq_none_iff {b : ByteArray} {i : Nat} : word? b i = none ↔ b.size < i + 4 := by
  unfold word?
  split <;> simp <;> omega

theorem word?_eq_some_iff {b : ByteArray} {i : Nat} {w : Vector UInt8 4} :
    word? b i = some w ↔ ∀ k (h : k < 4), byte? b (i + k) = some w[k] := by
  unfold word? byte?
  constructor
  · intro e k hk
    split at e
    · cases e
      rw [dif_pos (by omega)]
      match k, hk with
      | 0, _ => rfl
      | 1, _ => rfl
      | 2, _ => rfl
      | 3, _ => rfl
    · cases e
  · intro e
    have h : i + 4 ≤ b.size := by
      have := e 3 (by omega)
      split at this
      · omega
      · cases this
    rw [dif_pos h]
    congr 1
    apply Vector.ext
    intro k hk
    have := e k hk
    rw [dif_pos (by omega)] at this
    have := Option.some.inj this
    match k, hk with
    | 0, _ => exact this
    | 1, _ => exact this
    | 2, _ => exact this
    | 3, _ => exact this

theorem word?_congr {b c : ByteArray} {i : Nat} (h : ∀ k < 4, byte? b (i + k) = byte? c (i + k)) :
    word? b i = word? c i := by
  cases e : word? c i with
  | none =>
    have := word?_eq_none_iff.mp e
    have := byte?_eq_none_iff.mp ((h 3 (by omega)).trans (byte?_eq_none_iff.mpr (by omega)))
    exact word?_eq_none_iff.mpr (by omega)
  | some w =>
    rw [word?_eq_some_iff] at e ⊢
    exact fun k hk => (h k hk).trans (e k hk)

theorem word?_setWord {b : ByteArray} {i : Nat} (w : Vector UInt8 4) (h : i + 4 ≤ b.size) :
    word? (setWord b i w) i = some w := by
  rw [word?_eq_some_iff]
  intro k hk
  rw [byte?_setWord w _ h, if_pos (by omega), Nat.add_sub_cancel_left, Vector.getElem?_eq_getElem hk]

theorem word?_setWord_of_disjoint {b : ByteArray} {i j : Nat} (w : Vector UInt8 4)
    (h : i + 4 ≤ b.size) (hd : j + 4 ≤ i ∨ i + 4 ≤ j) : word? (setWord b i w) j = word? b j :=
  word?_congr fun k hk => by rw [byte?_setWord w _ h, if_neg (by omega)]

/-! ## Splicing and growing -/

theorem byte?_splice {b src : ByteArray} {i : Nat} (j : Nat) (h : i + src.size ≤ b.size) :
    byte? (splice b i src) j = if i ≤ j ∧ j < i + src.size then byte? src (j - i) else byte? b j := by
  simp only [byte?_eq_data, splice, ByteArray.copySlice]
  have hs : src.data.size = src.size := rfl
  have hb : b.data.size = b.size := rfl
  simp only [Array.getElem?_append, Array.getElem?_extract, Array.size_append, Array.size_extract]
  rw [hs, hb]
  by_cases h₁ : j < i
  · rw [if_pos (by omega), if_pos (by omega), if_pos (by omega), if_neg (by omega), Nat.zero_add]
  · by_cases h₂ : j < i + src.size
    · rw [if_pos (by omega), if_neg (by omega), if_pos (by omega), if_pos (by omega)]
      congr 1
      omega
    · rw [if_neg (by omega)]
      by_cases h₃ : j < b.size
      · rw [if_pos (by omega), if_neg (by omega)]
        congr 1
        omega
      · rw [if_neg (by omega), if_neg (by omega)]
        exact (Array.getElem?_eq_none (by omega)).symm

theorem byte?_extract (b : ByteArray) (i n j : Nat) :
    byte? (b.extract i (i + n)) j = if j < n then byte? b (i + j) else none := by
  simp only [byte?_eq_data, ByteArray.data_extract, Array.getElem?_extract]
  have hb : b.data.size = b.size := rfl
  by_cases hj : j < n
  · by_cases hs : j < min (i + n) b.data.size - i
    · rw [if_pos hs, if_pos hj]
    · rw [if_neg hs, if_pos hj, Array.getElem?_eq_none (by omega)]
  · rw [if_neg (by omega), if_neg hj]

theorem size_splice {b src : ByteArray} {i : Nat} (h : i + src.size ≤ b.size) :
    (splice b i src).size = b.size := by
  have hs : src.data.size = src.size := rfl
  have hb : b.data.size = b.size := rfl
  rw [← ByteArray.size_data]
  simp only [splice, ByteArray.copySlice, Array.size_append, Array.size_extract]
  omega

theorem size_splice_front (b src : ByteArray) : (splice b 0 src).size = max src.size b.size := by
  simp only [← ByteArray.size_data, splice, ByteArray.copySlice, Array.size_append, Array.size_extract]
  omega

theorem size_append_slice (b src : ByteArray) (i n : Nat) :
    (src.copySlice i b b.size n).size = b.size + min n (src.size - i) := by
  simp only [← ByteArray.size_data, ByteArray.copySlice, Array.size_append, Array.size_extract]
  omega

theorem byte?_append_slice {b src : ByteArray} {i n j : Nat} (h : j < b.size) :
    byte? (src.copySlice i b b.size n) j = byte? b j := by
  have hb : b.data.size = b.size := rfl
  rw [byte?_eq_data, byte?_eq_data]
  simp only [ByteArray.copySlice, Array.getElem?_append, Array.size_append, Array.size_extract,
    Array.getElem?_extract]
  grind

theorem reserve_eq (b : ByteArray) (n : Nat) : reserve b n = b := by
  apply ByteArray.ext
  show #[].extract 0 0 ++ b.data.extract 0 (0 + b.data.size) ++ #[].extract (0 + _) 0 = b.data
  simp

theorem pushZeros_data (b : ByteArray) (n : Nat) :
    (pushZeros b n).data = b.data ++ Array.replicate n 0 := by
  induction n generalizing b with
  | zero => simp [pushZeros]
  | succ n ih =>
    rw [pushZeros, ih, ByteArray.data_push]
    apply Array.ext'
    simp [List.replicate_succ]

theorem appendZeros_data (b : ByteArray) (n : Nat) :
    (appendZeros b n).data = b.data ++ Array.replicate n 0 := by
  rw [appendZeros, reserve_eq, pushZeros_data]

theorem size_appendZeros (b : ByteArray) (n : Nat) : (appendZeros b n).size = b.size + n := by
  rw [← ByteArray.size_data, appendZeros_data, Array.size_append, Array.size_replicate]
  rfl

theorem byte?_appendZeros (b : ByteArray) (n j : Nat) :
    byte? (appendZeros b n) j =
      if j < b.size then byte? b j else if j < b.size + n then some 0 else none := by
  have hb : b.data.size = b.size := rfl
  rw [byte?_eq_data, byte?_eq_data, appendZeros_data, Array.getElem?_append, Array.getElem?_replicate, hb]
  by_cases h : j < b.size
  · rw [if_pos h, if_pos h]
  · rw [if_neg h, if_neg h]
    by_cases h' : j < b.size + n
    · rw [if_pos h', if_pos (by omega)]
    · rw [if_neg h', if_neg (by omega)]

end BoundaryTag.Bytes
