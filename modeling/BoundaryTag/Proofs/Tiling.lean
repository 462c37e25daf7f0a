import BoundaryTag.Block
import BoundaryTag.FreeList
import Mathlib.Algebra.GroupWithZero.Nat
import Mathlib.Data.List.Chain
import Mathlib.Data.List.Nodup

/-!
# Tilings

`Tiling i bs e` says that the blocks `bs` follow each other without a gap from offset `i` to offset
`e`, each of a size that a block may have. This is the geometry alone: what the arena's tags say about
the blocks is `Tiled`.

`Settled bs` says that no two blocks in a row are both free.
-/

namespace BoundaryTag

namespace Block

/-- Sizes that a block of the heap may have. -/
structure Proper (b : Block) : Prop where
  dvd : 8 ∣ b.size
  least : 16 ≤ b.size
  most : b.size ≤ maxBlockSize

def stop (b : Block) : Nat := b.offset + b.size

theorem Proper.sub_overhead {b : Block} (hb : b.Proper) :
    Address.sub b.size overhead = .ok (b.size - 8) :=
  Address.sub_eq_ok_iff.mpr ⟨Nat.le_trans (show overhead ≤ 16 by decide) hb.least, rfl⟩

end Block

def Tiling : Nat → List Block → Nat → Prop
  | i, [], e => i = e
  | i, b :: bs, e => b.offset = i ∧ b.Proper ∧ Tiling b.stop bs e

def allocatedBlocks (bs : List Block) : List Block := bs.filter (·.allocated)

def freeBlocks (bs : List Block) : List Block := bs.filter (!·.allocated)

def freeOffsets (bs : List Block) : List Nat := (freeBlocks bs).map (·.offset)

def Settled (bs : List Block) : Prop :=
  bs.IsChain fun b c => b.allocated = true ∨ c.allocated = true

/-! ## Geometry -/

section
variable {i j e : Nat} {b c : Block} {bs xs ys : List Block}

theorem tiling_cons : Tiling i (b :: bs) e ↔ b.offset = i ∧ b.Proper ∧ Tiling b.stop bs e := Iff.rfl

theorem tiling_append : Tiling i (xs ++ ys) e ↔ ∃ m, Tiling i xs m ∧ Tiling m ys e := by
  induction xs generalizing i with
  | nil =>
    constructor
    · exact fun h => ⟨i, rfl, h⟩
    · intro hq
      obtain ⟨m, rfl, h⟩ := hq
      exact h
  | cons b xs ih =>
    simp only [List.cons_append, tiling_cons, ih]
    constructor
    · intro hq
      obtain ⟨h₁, h₂, m, h₃, h₄⟩ := hq
      exact ⟨m, ⟨h₁, h₂, h₃⟩, h₄⟩
    · intro hq
      obtain ⟨m, ⟨h₁, h₂, h₃⟩, h₄⟩ := hq
      exact ⟨h₁, h₂, m, h₃, h₄⟩

theorem Tiling.end_unique (h : Tiling i bs e) (h' : Tiling i bs j) : e = j := by
  induction bs generalizing i with
  | nil => exact (Eq.symm h).trans h'
  | cons b bs ih => exact ih h.2.2 h'.2.2

theorem Tiling.end_eq (h : Tiling i bs e) : e = i + (bs.map (·.size)).sum := by
  induction bs generalizing i with
  | nil => exact Eq.symm h
  | cons b bs ih =>
    have := ih h.2.2
    have := h.1
    simp only [List.map_cons, List.sum_cons, Block.stop] at *
    omega

theorem Tiling.le (h : Tiling i bs e) : i ≤ e := by
  rw [h.end_eq]
  exact Nat.le_add_right _ _

theorem Tiling.dvd (h : Tiling i bs e) (h8 : 8 ∣ i) : 8 ∣ e := by
  induction bs generalizing i with
  | nil => exact h ▸ h8
  | cons b bs ih =>
    apply ih h.2.2
    have := h.2.1.dvd
    have := h.1
    simp only [Block.stop]
    omega

theorem Tiling.split (h : Tiling i (xs ++ b :: ys) e) :
    Tiling i xs b.offset ∧ b.Proper ∧ Tiling b.stop ys e := by
  obtain ⟨m, h₁, h₂⟩ := tiling_append.mp h
  obtain ⟨rfl, h₃, h₄⟩ := h₂
  exact ⟨h₁, h₃, h₄⟩

theorem Tiling.bounds (h : Tiling i bs e) (hb : b ∈ bs) : i ≤ b.offset ∧ b.stop ≤ e := by
  obtain ⟨xs, ys, rfl⟩ := List.append_of_mem hb
  obtain ⟨h₁, _, h₃⟩ := h.split
  exact ⟨h₁.le, h₃.le⟩

theorem Tiling.proper (h : Tiling i bs e) (hb : b ∈ bs) : b.Proper := by
  obtain ⟨xs, ys, rfl⟩ := List.append_of_mem hb
  exact h.split.2.1

theorem Tiling.dvd_offset (h : Tiling i bs e) (h8 : 8 ∣ i) (hb : b ∈ bs) : 8 ∣ b.offset := by
  obtain ⟨xs, ys, rfl⟩ := List.append_of_mem hb
  exact h.split.1.dvd h8

theorem Tiling.pairwise (h : Tiling i bs e) : bs.Pairwise fun b c => b.stop ≤ c.offset := by
  induction bs generalizing i with
  | nil => exact List.Pairwise.nil
  | cons b bs ih =>
    exact List.pairwise_cons.mpr ⟨fun c hc => (h.2.2.bounds hc).1, ih h.2.2⟩

theorem Tiling.nodup_offsets (h : Tiling i bs e) : (bs.map (·.offset)).Nodup := by
  refine List.pairwise_map.mpr (h.pairwise.imp_of_mem fun {b c} hb _ hbc he => ?_)
  have := (h.proper hb).least
  simp only [Block.stop] at hbc
  omega

theorem Tiling.eq_of_offset (h : Tiling i bs e) (hb : b ∈ bs) (hc : c ∈ bs)
    (he : b.offset = c.offset) : b = c := List.inj_on_of_nodup_map h.nodup_offsets hb hc he

theorem split_unique_of_nodup {xs' ys' : List Block} {b' : Block}
    (hn : ((xs ++ b :: ys).map (·.offset)).Nodup) (he : xs ++ b :: ys = xs' ++ b' :: ys')
    (ho : b.offset = b'.offset) : xs' = xs ∧ b' = b ∧ ys' = ys := by
  have hb' : b' ∈ xs ++ b :: ys := he ▸ List.mem_append_cons_self
  obtain rfl := List.inj_on_of_nodup_map hn List.mem_append_cons_self hb' ho
  have hn := hn.of_map
  rw [List.nodup_middle, List.nodup_cons, List.mem_append, not_or] at hn
  obtain ⟨rfl, _, rfl⟩ := (List.append_cons_inj_of_notMem hn.1.1 hn.1.2).mp he
  exact ⟨rfl, rfl, rfl⟩

theorem Tiling.beside (h : Tiling i (xs ++ b :: ys) e) (hc : c ∈ xs ++ ys) :
    c.stop ≤ b.offset ∨ b.stop ≤ c.offset := by
  obtain ⟨h₁, _, h₂⟩ := h.split
  exact (List.mem_append.mp hc).imp (fun hx => (h₁.bounds hx).2) (fun hy => (h₂.bounds hy).1)

theorem Tiling.apart (h : Tiling i bs e) (hb : b ∈ bs) (hc : c ∈ bs) (hne : b.offset ≠ c.offset) :
    b.stop ≤ c.offset ∨ c.stop ≤ b.offset := by
  have hs : bs.Pairwise fun b c => b.stop ≤ c.offset ∨ c.stop ≤ b.offset := h.pairwise.imp Or.inl
  have : Std.Symm fun b c : Block => b.stop ≤ c.offset ∨ c.stop ≤ b.offset := ⟨fun _ _ => Or.symm⟩
  exact hs.forall hb hc (fun e => hne (e ▸ rfl))

/-- Blocks are large enough that no two of them share a slot of the free list. -/
theorem Tiling.slot_inj (h : Tiling i bs e) (hb : b ∈ bs) (hc : c ∈ bs)
    (hs : FreeList.slotOf b.offset = FreeList.slotOf c.offset) : b.offset = c.offset := by
  by_contra hne
  have := (h.proper hb).least
  have := (h.proper hc).least
  have := h.apart hb hc hne
  simp only [Block.stop, FreeList.slotOf, minBlockSize] at *
  omega

end

/-! ## Settled rows -/

section
variable {b : Block} {xs ys : List Block}

theorem Settled.of_append (h : Settled (xs ++ ys)) : Settled xs ∧ Settled ys :=
  ⟨(List.isChain_append.mp h).1, (List.isChain_append.mp h).2.1⟩

theorem Settled.beside (h : Settled (xs ++ b :: ys)) : Settled xs ∧ Settled ys :=
  ⟨h.of_append.1, (List.isChain_cons.mp h.of_append.2).2⟩

theorem Settled.insert (hx : Settled xs) (hy : Settled ys) (hb : b.allocated = true) :
    Settled (xs ++ b :: ys) :=
  List.isChain_append.mpr ⟨hx, List.isChain_cons.mpr ⟨fun _ _ => Or.inl hb, hy⟩,
    fun _ _ _ hc => Or.inr (Option.some.inj hc ▸ hb)⟩

end

/-! ## Allocated and free blocks -/

section
variable {b : Block} {bs xs ys : List Block}

theorem mem_allocatedBlocks : b ∈ allocatedBlocks bs ↔ b ∈ bs ∧ b.allocated = true := List.mem_filter

theorem mem_freeBlocks : b ∈ freeBlocks bs ↔ b ∈ bs ∧ b.allocated = false := by
  rw [freeBlocks, List.mem_filter, Bool.not_eq_true']

theorem allocatedBlocks_append_freeBlocks_perm (bs : List Block) :
    (allocatedBlocks bs ++ freeBlocks bs).Perm bs := List.filter_append_perm ..

theorem mem_freeOffsets {o : Nat} :
    o ∈ freeOffsets bs ↔ ∃ b ∈ bs, b.allocated = false ∧ b.offset = o := by
  simp only [freeOffsets, List.mem_map, mem_freeBlocks, and_assoc]

@[simp] theorem allocatedBlocks_append :
    allocatedBlocks (xs ++ ys) = allocatedBlocks xs ++ allocatedBlocks ys := List.filter_append ..

@[simp] theorem freeOffsets_append : freeOffsets (xs ++ ys) = freeOffsets xs ++ freeOffsets ys := by
  simp only [freeOffsets, freeBlocks, List.filter_append, List.map_append]

@[simp] theorem allocatedBlocks_nil : allocatedBlocks [] = [] := rfl

@[simp] theorem freeOffsets_nil : freeOffsets [] = [] := rfl

theorem allocatedBlocks_cons_of_allocated (h : b.allocated = true) :
    allocatedBlocks (b :: bs) = b :: allocatedBlocks bs := List.filter_cons_of_pos h

theorem allocatedBlocks_cons_of_free (h : b.allocated = false) :
    allocatedBlocks (b :: bs) = allocatedBlocks bs :=
  List.filter_cons_of_neg (by simp [h])

theorem allocatedBlocks_middle_perm (xs ys : List Block) (h : b.allocated = true) :
    (allocatedBlocks (xs ++ b :: ys)).Perm (b :: allocatedBlocks (xs ++ ys)) := by
  rw [allocatedBlocks_append, allocatedBlocks_append, allocatedBlocks_cons_of_allocated h]
  exact List.perm_middle

theorem allocatedBlocks_middle_of_free (h : b.allocated = false) :
    allocatedBlocks (xs ++ b :: ys) = allocatedBlocks (xs ++ ys) := by
  rw [allocatedBlocks_append, allocatedBlocks_append, allocatedBlocks_cons_of_free h]

theorem freeOffsets_cons_of_allocated (h : b.allocated = true) :
    freeOffsets (b :: bs) = freeOffsets bs := by
  rw [freeOffsets, freeBlocks, List.filter_cons_of_neg (by simp [h])]
  rfl

theorem freeOffsets_cons_of_free (h : b.allocated = false) :
    freeOffsets (b :: bs) = b.offset :: freeOffsets bs := by
  rw [freeOffsets, freeBlocks, List.filter_cons_of_pos (by simp [h])]
  rfl

theorem allocatedBlocks_of_free (h : ∀ b ∈ bs, b.allocated = false) : allocatedBlocks bs = [] :=
  List.filter_eq_nil_iff.mpr fun b hb => by simp [h b hb]

theorem Tiling.nodup_freeOffsets {i e : Nat} (h : Tiling i bs e) : (freeOffsets bs).Nodup :=
  h.nodup_offsets.sublist (List.Sublist.map _ List.filter_sublist)

end

end BoundaryTag
