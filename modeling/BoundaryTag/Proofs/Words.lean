import BoundaryTag.Proofs.Laid

/-!
# The words of a block

A block is written as two equal words, one in front of its payload and one behind it. Whoever comes from
either side finds the whole block by them, wherever in the arena it lies and whatever was there before.

Main statement: `tags_read_back`. A block of eight bytes is the smallest: its words touch.
-/

namespace BoundaryTag

/-- The heap `h'` is the heap `h` with the words of the block `b` written. -/
structure Heap.Marked (h h' : Heap) (b : Block) : Prop where
  elsewhere : h' = { h with arena := h'.arena }
  words : h.arena.Retagged h'.arena b
  tag : ∃ t, h'.header b.offset = .ok t ∧ h'.footer b.offset = .ok t ∧ t.size = b.size ∧
    t.allocated = b.allocated
  next : h'.nextBlock b.offset = .ok b.stop
  prev : h'.prevBlock b.stop = .ok b.offset

section
variable {h : Heap} {b : Block}

theorem Heap.marked_setBlock (h8 : 8 ∣ b.size) (hs : 8 ≤ b.size) (hm : b.size ≤ maxBlockSize)
    (hb : 4 ≤ b.offset) (he : b.stop ≤ h.arena.size + 4) :
    h.Marked { h with arena := h.arena.setBlock b } b := by
  have hz : b.tag.size = b.size := Tag.size_make h8 hm _
  have hstop : 8 ≤ b.stop := Nat.le_trans hs (Nat.le_add_left _ _)
  have ht : (h.arena.setBlock b).Tagged b := Arena.tagged_setBlock hs hb he
  exact
    { elsewhere := rfl
      words := Arena.retagged_setBlock hs hb he
      tag := ⟨b.tag, Heap.header_of_tagged ht hb, Heap.footer_of_tagged ht hb hz hstop, hz,
        Tag.allocated_make h8 _⟩
      next := Heap.nextBlock_of_tagged ht hb hz
      prev := Heap.prevBlock_of_tagged ht hz hstop }

end

/-- What is written as a block is read as that block from both sides, and a word is the same after it was
stored. Nothing but the two words is touched. -/
theorem tags_read_back :
    (∀ (h : Heap) (b : Block), 8 ∣ b.size → 8 ≤ b.size → b.size ≤ maxBlockSize → 4 ≤ b.offset →
      b.stop - 4 ≤ h.arena.size →
        ((Heap.setBlock b.offset b.size b.allocated).run h).result = .ok () ∧
          h.Marked ((Heap.setBlock b.offset b.size b.allocated).run h).heap b) ∧
    (∀ t : Tag, Tag.ofBytes t.toBytes = t) ∧ (∀ w, (Tag.ofBytes w).toBytes = w) ∧
    ∀ t : Tag, 8 ∣ t.size ∧
      ∀ flags : UInt32, flags.toNat ≤ Tag.flagMask → Tag.size ⟨t.word ||| flags⟩ = t.size := by
  refine ⟨?block, Tag.ofBytes_toBytes, Tag.toBytes_ofBytes, fun t => ⟨t.dvd_size, fun _ => t.size_or⟩⟩
  case block =>
    intro h b h8 hs hm hb he
    have hend : b.stop ≤ h.arena.size + 4 := by omega
    have hrun : HeapM.Meets (Heap.setBlock b.offset b.size b.allocated) h
        (fun _ h' => h' = { h with arena := h.arena.setBlock b }) HeapM.NoFault :=
      Heap.setBlock_meets_of_le h8 hs hm hb hend
    obtain ⟨_, hres, hh⟩ := hrun.exists_ok
    refine ⟨hres, ?_⟩
    rw [hh]
    exact Heap.marked_setBlock h8 hs hm hb hend

/-- A sentinel of eight bytes at the very end of an arena full of set bits. -/
theorem tags_read_back_sentinel : ∃ h h' : Heap,
    h.arena.bytes.data = Array.replicate 12 255 ∧ ((Heap.setBlock 8 8 true).run h).result = .ok () ∧
      ((Heap.setBlock 8 8 true).run h).heap = h' ∧ h.Marked h' ⟨8, 8, true⟩ ∧
      h'.arena.bytes.data = #[255, 255, 255, 255, 9, 0, 0, 0, 9, 0, 0, 0] := by
  let h := Heap.new ⟨⟨.replicate 12 255⟩, .zeros 12, none⟩ .standard
  obtain ⟨hres, hm⟩ := tags_read_back.1 h ⟨8, 8, true⟩ (by decide) (by decide) (by decide) (by decide)
    (by decide +kernel)
  exact ⟨h, _, rfl, hres, rfl, hm, by decide +kernel⟩

end BoundaryTag
