import BoundaryTag.Heap.Payload
import BoundaryTag.Proofs.InPlace

/-!
# Payloads

The holder of a handle to an allocated block can use the bytes between the block's two words, and
nothing else. Writing there leaves the heap sound and every other payload alone.

Main statements: `Laid.payloadAt_eq`, `Laid.payload_eq`, `Heap.writePayload_meets`.
-/

namespace BoundaryTag

section
variable {h : Heap} {bs xs ys : List Block} {b : Block} {L : List Nat} {p : Handle}

theorem Laid.usableSize_eq (hl : Laid h bs L) (hb : b ∈ bs) (hp : p.offset = b.offset) :
    h.usableSize p = .ok (b.size - 8) := by
  rw [Heap.usableSize, hp, hl.tiled.blockSize hb]
  exact (hl.tiled.tiling.proper hb).sub_overhead

theorem Laid.accessible_eq (hl : Laid h bs L) (hb : b ∈ bs) (hp : p.offset = b.offset) :
    h.accessible p = .ok ⟨b.offset, b.offset + (b.size - 8)⟩ := by
  have hend := hl.tiled.payload_le hb
  have hbound := hl.tiled.bounded
  have hmx : Arena.maxSize < addressSpace := by decide
  have hw : Address.within (b.offset + (b.size - 8)) = .ok (b.offset + (b.size - 8)) :=
    if_pos (by omega)
  have hspan : h.payloadSpan p = .ok ⟨b.offset, b.offset + (b.size - 8)⟩ := by
    rw [Heap.payloadSpan, hl.usableSize_eq hb hp, hp]
    show (Span.ofSize b.offset (b.size - 8)) = _
    rw [Span.ofSize, hw]
    rfl
  have hin : h.inArena b.offset (Span.size ⟨b.offset, b.offset + (b.size - 8)⟩) = .ok () :=
    if_pos (by simp only [Span.size]; omega)
  rw [Heap.accessible, hspan]
  show ((h.inArena b.offset (Span.size ⟨b.offset, b.offset + (b.size - 8)⟩)).bind _) = _
  rw [hin]
  rfl

theorem Laid.payloadAt_eq (hl : Laid h bs L) (hb : b ∈ bs) (hp : p.offset = b.offset) (i n : Nat) :
    h.payloadAt p i n = if i + n ≤ b.size - 8 then .ok (b.offset + i) else .error .outOfRange := by
  rw [Heap.payloadAt, hl.accessible_eq hb hp]
  show (if i + n ≤ Span.size ⟨b.offset, b.offset + (b.size - 8)⟩ then _ else _) = _
  rw [Span.size, Nat.add_sub_cancel_left]
  rfl

theorem Laid.readPayload_eq (hl : Laid h bs L) (hb : b ∈ bs) (hp : p.offset = b.offset)
    {i n : Nat} (hi : i + n ≤ b.size - 8) :
    ∃ bytes, h.readPayload p i n = .ok bytes ∧ bytes.size = n ∧
      ∀ j < n, Bytes.byte? bytes j = h.arena.byte? (b.offset + i + j) := by
  have hend := hl.tiled.payload_le hb
  refine ⟨h.arena.bytes.extract (b.offset + i) (b.offset + i + n), ?_, ?_, fun j hj => ?_⟩
  · rw [Heap.readPayload, hl.payloadAt_eq hb hp, if_pos hi]
    rfl
  · exact Arena.size_extract (by omega)
  · rw [Bytes.byte?_extract, if_pos hj, Arena.byte?]

theorem Laid.payload_eq (hl : Laid h bs L) (hb : b ∈ bs) (hp : p.offset = b.offset) :
    ∃ bytes, h.payload p = .ok bytes ∧ bytes.size = b.size - 8 ∧
      ∀ j < b.size - 8, Bytes.byte? bytes j = h.arena.byte? (b.offset + j) := by
  have := hl.readPayload_eq hb hp (i := 0) (n := b.size - 8) (by omega)
  rw [Heap.payload, hl.usableSize_eq hb hp]
  exact this

namespace Heap

open HeapM

theorem writePayload_splices (hl : Laid h bs L) (hb : b ∈ bs) (hp : p.offset = b.offset) {i : Nat}
    {src : ByteArray} (hi : i + src.size ≤ b.size - 8) :
    Meets (writePayload p i src) h
      (fun _ h' => h' = { h with arena := h.arena.splice (b.offset + i) src }) NoFault := by
  have hend := hl.tiled.payload_le hb
  have hat : h.payloadAt p i src.size = .ok (b.offset + i) := by
    rw [hl.payloadAt_eq hb hp, if_pos hi]
  have hin : h.inArena (b.offset + i) src.size = .ok () := if_pos (by omega)
  exact Meets.read_bind hat (Meets.read_bind hin (Meets.of_update rfl))

theorem writePayload_meets (hs : Sound h (xs ++ b :: ys) L) (hp : p.offset = b.offset) {i : Nat}
    {src : ByteArray} (hi : i + src.size ≤ b.size - 8) :
    Meets (writePayload p i src) h
      (fun _ h' => (Sound h' (xs ++ b :: ys) L ∧ h'.counters = h.counters) ∧ Frame h h' (xs ++ ys) ∧
        ∀ j, h'.arena.byte? (b.offset + j) =
          if i ≤ j ∧ j < i + src.size then Bytes.byte? src (j - i)
          else h.arena.byte? (b.offset + j))
      NoFault := by
  have hb : b ∈ xs ++ b :: ys := List.mem_append_cons_self
  have hend := hs.laid.tiled.payload_le hb
  have hleast := (hs.laid.tiled.tiling.proper hb).least
  have hbs : b.stop = b.offset + b.size := rfl
  have hin : b.offset + i + src.size ≤ h.arena.size := by omega
  refine (writePayload_splices hs.laid hb hp hi).mono ?_ fun _ _ => id
  rintro _ _ rfl
  obtain ⟨hs', hf⟩ := hs.repaint ((Arena.patch_splice hin).mono (by omega) (by omega))
  refine ⟨⟨hs', rfl⟩, hf, fun j => ?_⟩
  show (h.arena.splice (b.offset + i) src).byte? (b.offset + j) = _
  rw [Arena.byte?_splice _ hin]
  by_cases hj : i ≤ j ∧ j < i + src.size
  · rw [if_pos hj, if_pos (by omega), Nat.add_sub_add_left]
  · rw [if_neg hj, if_neg (by omega)]

end Heap

end

end BoundaryTag
