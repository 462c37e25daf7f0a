import BoundaryTag.Bytes
import BoundaryTag.Tag

/-!
# Arenas

The memory that a heap lives in: one run of bytes, addressed from zero, that only grows until it is
reset. New bytes are either fresh zeros, up to a limit, or the next bytes of a given buffer, which
keep what they held.

An arena answers for its end (`top`). It may announce another end than its true one, as an arena does
whose owner holds the tail back; growing or resetting it ends the announcement.

Main statements: `tag?_setTag` and `tag?_setTag_of_disjoint` (a word reads back as written, and leaves
the others alone), `byte?_grow` (growing keeps every byte), `ceiling_grow` and `ceiling_reset`.
-/

namespace BoundaryTag

inductive Supply where
  /-- Zeros, as long as the arena holds at most `limit` bytes. -/
  | zeros (limit : Nat)
  /-- A given buffer. The arena has the first bytes of it, and what they hold now is in the arena. -/
  | buffer (memory : ByteArray)

structure Arena where
  bytes : ByteArray
  supply : Supply
  announced : Option Nat := none

namespace Arena

def defaultLimit : Nat := 20971520
/-- Offsets below this have a place in the free list. -/
def maxSize : Nat := 17179869176

def growable (limit : Nat) : Arena := ⟨ByteArray.empty, .zeros limit, none⟩

def ofBuffer (buffer : ByteArray) : Arena := ⟨ByteArray.empty, .buffer buffer, none⟩

def size (a : Arena) : Nat := a.bytes.size

def top (a : Arena) : Nat := a.announced.getD a.size

def remaining (a : Arena) : Nat :=
  match a.supply with
  | .zeros limit => limit - a.size
  | .buffer memory => memory.size - a.size

/-- The size that the arena can never pass. -/
def ceiling (a : Arena) : Nat :=
  match a.supply with
  | .zeros limit => limit
  | .buffer memory => max a.size memory.size

def announce (a : Arena) (offset : Option Nat) : Arena := { a with announced := offset }

/-! ## Growing and resetting -/

def refusal? (a : Arena) (n : Nat) : Option AllocError :=
  if a.remaining < n then some (.arenaExhausted n a.remaining) else none

/-- The arena with `n` more bytes, for an `n` that is not refused. -/
def grow (a : Arena) (n : Nat) : Arena :=
  match a with
  | ⟨bytes, .zeros limit, _⟩ => ⟨Bytes.appendZeros bytes n, .zeros limit, none⟩
  | ⟨bytes, .buffer memory, _⟩ =>
    ⟨memory.copySlice bytes.size bytes bytes.size n, .buffer memory, none⟩

/-- Faults on a growth that is not refused, but is more than memory can hold. -/
def checkGrow (a : Arena) (n : Nat) : Except Fault Unit :=
  if n ≤ a.remaining ∧ maxExtent < a.size + n then .error .overflow else .ok ()

def extend (a : Arena) (n : Nat) : Except Fault (Except AllocError Nat × Arena) := do
  a.checkGrow n
  match a.refusal? n with
  | some e => return (.error e, a)
  | none => return (.ok a.size, a.grow n)

def reset (a : Arena) : Arena :=
  match a.supply with
  | .zeros limit => ⟨ByteArray.empty, .zeros limit, none⟩
  | .buffer memory => ⟨ByteArray.empty, .buffer (Bytes.splice memory 0 a.bytes), none⟩

/-! ## Reading and writing -/

def byte? (a : Arena) (i : Nat) : Option UInt8 := Bytes.byte? a.bytes i

def tag? (a : Arena) (i : Nat) : Option Tag := (Bytes.word? a.bytes i).map Tag.ofBytes

def setTag (a : Arena) (i : Nat) (t : Tag) : Arena :=
  { a with bytes := Bytes.setWord a.bytes i t.toBytes }

def slice? (a : Arena) (i n : Nat) : Option ByteArray :=
  if i + n ≤ a.size then some (a.bytes.extract i (i + n)) else none

def splice (a : Arena) (i : Nat) (src : ByteArray) : Arena :=
  { a with bytes := Bytes.splice a.bytes i src }

def move (a : Arena) (src n dst : Nat) : Arena := a.splice dst (a.bytes.extract src (src + n))

/-! ## Laws -/

theorem size_setTag (a : Arena) (i : Nat) (t : Tag) : (a.setTag i t).size = a.size :=
  Bytes.size_setWord _ _ _

theorem tag?_eq_none_iff {a : Arena} {i : Nat} : a.tag? i = none ↔ a.size < i + 4 := by
  rw [tag?, Option.map_eq_none_iff, Bytes.word?_eq_none_iff, size]

theorem tag?_setTag {a : Arena} {i : Nat} (t : Tag) (h : i + 4 ≤ a.size) :
    (a.setTag i t).tag? i = some t := by
  rw [tag?, setTag, Bytes.word?_setWord _ h, Option.map_some, Tag.ofBytes_toBytes]

theorem tag?_setTag_of_disjoint {a : Arena} {i j : Nat} (t : Tag) (h : i + 4 ≤ a.size)
    (hd : j + 4 ≤ i ∨ i + 4 ≤ j) : (a.setTag i t).tag? j = a.tag? j := by
  rw [tag?, setTag, Bytes.word?_setWord_of_disjoint _ h hd, tag?]

theorem byte?_setTag_of_disjoint {a : Arena} {i j : Nat} (t : Tag) (h : i + 4 ≤ a.size)
    (hd : j < i ∨ i + 4 ≤ j) : (a.setTag i t).byte? j = a.byte? j := by
  rw [byte?, setTag, Bytes.byte?_setWord _ _ h, if_neg (by omega), byte?]

theorem size_splice {a : Arena} {i : Nat} {src : ByteArray} (h : i + src.size ≤ a.size) :
    (a.splice i src).size = a.size := Bytes.size_splice h

theorem byte?_splice {a : Arena} {i : Nat} {src : ByteArray} (j : Nat)
    (h : i + src.size ≤ a.size) :
    (a.splice i src).byte? j =
      if i ≤ j ∧ j < i + src.size then Bytes.byte? src (j - i) else a.byte? j :=
  Bytes.byte?_splice j h

theorem size_extract {a : Arena} {src n : Nat} (h : src + n ≤ a.size) :
    (a.bytes.extract src (src + n)).size = n := by
  simp only [size] at h
  rw [ByteArray.size_extract]
  omega

/-- What is copied is read before anything is written. -/
theorem byte?_move {a : Arena} {src n dst : Nat} (hs : src + n ≤ a.size) (hd : dst + n ≤ a.size)
    (j : Nat) :
    (a.move src n dst).byte? j =
      if dst ≤ j ∧ j < dst + n then a.byte? (src + (j - dst)) else a.byte? j := by
  have hn := size_extract hs
  rw [move, byte?_splice j (by omega), hn]
  split
  · rw [Bytes.byte?_extract, if_pos (by omega), byte?]
  · rfl

theorem refusal?_eq_none_iff {a : Arena} {n : Nat} : a.refusal? n = none ↔ n ≤ a.remaining := by
  unfold refusal?
  split <;> simp <;> omega

theorem size_grow {a : Arena} {n : Nat} (h : n ≤ a.remaining) : (a.grow n).size = a.size + n := by
  obtain ⟨bytes, supply, announced⟩ := a
  cases supply with
  | zeros limit => exact Bytes.size_appendZeros _ _
  | buffer memory =>
    simp only [remaining, size] at h
    simp only [grow, size, Bytes.size_append_slice]
    omega

theorem ceiling_grow {a : Arena} {n : Nat} (h : n ≤ a.remaining) :
    (a.grow n).ceiling = a.ceiling := by
  have hs := size_grow h
  obtain ⟨bytes, supply, announced⟩ := a
  cases supply with
  | zeros limit => rfl
  | buffer memory =>
    simp only [remaining, grow, size] at h hs
    simp only [ceiling, grow, size, hs]
    omega

theorem ceiling_reset (a : Arena) : a.reset.ceiling = a.ceiling := by
  obtain ⟨bytes, supply, announced⟩ := a
  cases supply with
  | zeros limit => rfl
  | buffer memory => simp [reset, ceiling, size, Bytes.size_splice_front]

theorem byte?_grow {a : Arena} {n i : Nat} (h : i < a.size) : (a.grow n).byte? i = a.byte? i := by
  obtain ⟨bytes, supply, announced⟩ := a
  cases supply with
  | zeros limit =>
    have h : i < bytes.size := h
    simp only [grow, byte?, Bytes.byte?_appendZeros, if_pos h]
  | buffer memory => exact Bytes.byte?_append_slice h

theorem tag?_congr {a a' : Arena} {i : Nat} (h : ∀ k < 4, a'.byte? (i + k) = a.byte? (i + k)) :
    a'.tag? i = a.tag? i := by
  rw [tag?, tag?, Bytes.word?_congr h]

theorem remaining_eq (a : Arena) : a.remaining = a.ceiling - a.size := by
  obtain ⟨bytes, supply, announced⟩ := a
  cases supply with
  | zeros limit => rfl
  | buffer memory =>
    simp only [remaining, ceiling, size]
    omega

theorem announced_grow (a : Arena) (n : Nat) : (a.grow n).announced = none := by
  obtain ⟨bytes, supply, announced⟩ := a
  cases supply <;> rfl

theorem top_grow {a : Arena} {n : Nat} (h : n ≤ a.remaining) : (a.grow n).top = a.size + n := by
  rw [top, announced_grow]
  exact size_grow h

theorem size_reset (a : Arena) : a.reset.size = 0 := by
  obtain ⟨bytes, supply, announced⟩ := a
  cases supply <;> rfl

theorem announced_reset (a : Arena) : a.reset.announced = none := by
  obtain ⟨bytes, supply, announced⟩ := a
  cases supply <;> rfl

theorem supply_setTag (a : Arena) (i : Nat) (t : Tag) : (a.setTag i t).supply = a.supply := rfl

theorem announced_setTag (a : Arena) (i : Nat) (t : Tag) :
    (a.setTag i t).announced = a.announced := rfl

theorem supply_splice (a : Arena) (i : Nat) (src : ByteArray) :
    (a.splice i src).supply = a.supply := rfl

theorem announced_splice (a : Arena) (i : Nat) (src : ByteArray) :
    (a.splice i src).announced = a.announced := rfl

-- From here on these laws tell what an arena holds.
attribute [irreducible] setTag splice grow reset

end Arena

end BoundaryTag
