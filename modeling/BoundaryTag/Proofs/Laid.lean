import BoundaryTag.Heap.Grow
import BoundaryTag.Proofs.FreeList
import BoundaryTag.Proofs.Meets
import BoundaryTag.Proofs.Tiled

/-!
# Heaps laid out as blocks

`Laid h bs L` says that the heap `h` consists of the blocks `bs`, and that its free list holds the
offsets of the free ones, in the order `L`. Two free blocks may still lie side by side: that they do
not is `Settled bs`.

The lemmas here read a laid out heap, and write its list and its tags. `Laid.refit` puts the two sides
of an update together.
-/

namespace BoundaryTag

structure Laid (h : Heap) (bs : List Block) (L : List Nat) : Prop where
  initialized : h.initialized = true
  tiled : Tiled h.arena bs
  list : h.freeList.Represents L
  table : h.freeList.slots.size = FreeList.slotOf h.arena.size + 1
  listed : L.Perm (freeOffsets bs)

/-! ## Reading -/

namespace Heap

variable {h : Heap} {b : Block} {i : Nat} {t : Tag}

theorem tagAt_of_tag? (ht : h.arena.tag? i = some t) : h.tagAt i = .ok t := by
  rw [tagAt, ht]

theorem header_of_tag? (h4 : 4 ≤ i) (ht : h.arena.tag? (i - 4) = some t) : h.header i = .ok t := by
  have hs : Address.sub i wordBytes = .ok (i - 4) := Address.sub_eq_ok_iff.mpr ⟨h4, rfl⟩
  rw [header, hs]
  exact tagAt_of_tag? ht

theorem tagBefore_of_tag? (h8 : 8 ≤ i) (ht : h.arena.tag? (i - 8) = some t) :
    h.tagBefore i = .ok t := by
  have hs : Address.sub i overhead = .ok (i - 8) := Address.sub_eq_ok_iff.mpr ⟨h8, rfl⟩
  rw [tagBefore, hs]
  exact tagAt_of_tag? ht

theorem footer_of_tag? {t' : Tag} (h4 : 4 ≤ i) (ht : h.arena.tag? (i - 4) = some t)
    (h8 : 8 ≤ i + t.size) (ht' : h.arena.tag? (i + t.size - 8) = some t') : h.footer i = .ok t' := by
  have hs : Address.sub (i + t.size) overhead = .ok (i + t.size - 8) :=
    Address.sub_eq_ok_iff.mpr ⟨h8, rfl⟩
  rw [footer, blockSize, header_of_tag? h4 ht]
  show ((Address.sub (i + t.size) overhead).bind fun i => h.tagAt i) = _
  rw [hs]
  exact tagAt_of_tag? ht'

theorem header_of_tagged (ht : h.arena.Tagged b) (h4 : 4 ≤ b.offset) : h.header b.offset = .ok b.tag :=
  header_of_tag? h4 ht.1

theorem blockSize_of_tagged (ht : h.arena.Tagged b) (h4 : 4 ≤ b.offset) (hz : b.tag.size = b.size) :
    h.blockSize b.offset = .ok b.size := by
  rw [blockSize, header_of_tagged ht h4]
  exact congrArg Except.ok hz

theorem footer_of_tagged (ht : h.arena.Tagged b) (h4 : 4 ≤ b.offset) (hz : b.tag.size = b.size)
    (hs : 8 ≤ b.stop) : h.footer b.offset = .ok b.tag := by
  obtain ⟨hh, hf⟩ := ht
  rw [Block.stop, ← hz] at hs hf
  exact footer_of_tag? h4 hh hs hf

theorem nextBlock_of_tagged (ht : h.arena.Tagged b) (h4 : 4 ≤ b.offset) (hz : b.tag.size = b.size) :
    h.nextBlock b.offset = .ok b.stop := by
  rw [nextBlock, blockSize_of_tagged ht h4 hz]
  rfl

theorem prevBlock_of_tagged (ht : h.arena.Tagged b) (hz : b.tag.size = b.size) (hs : 8 ≤ b.stop) :
    h.prevBlock b.stop = .ok b.offset := by
  have hsub : Address.sub b.stop b.size = .ok b.offset :=
    Address.sub_eq_ok_iff.mpr ⟨Nat.le_add_left _ _, (Nat.add_sub_cancel _ _).symm⟩
  rw [prevBlock, tagBefore_of_tag? hs ht.2]
  show Address.sub b.stop b.tag.size = _
  rw [hz, hsub]

end Heap

namespace Tiled

section
variable {h : Heap} {bs xs ys : List Block} {b p : Block} {m : Nat}

theorem header_above (ht : Tiled h.arena (xs ++ ys)) (hm : Tiling 16 xs m) :
    h.header m = .ok (tagAbove ys) := by
  have := hm.le
  exact Heap.header_of_tag? (by omega) (ht.tag_above hm)

theorem tagBefore_below (ht : Tiled h.arena (xs ++ ys)) (hm : Tiling 16 xs m) :
    h.tagBefore m = .ok (tagBelow xs) := by
  have := hm.le
  exact Heap.tagBefore_of_tag? (by omega) (ht.tag_below hm)

theorem offset_ge (ht : Tiled h.arena bs) (hb : b ∈ bs) : 16 ≤ b.offset := (ht.tiling.bounds hb).1

theorem header (ht : Tiled h.arena bs) (hb : b ∈ bs) : h.header b.offset = .ok b.tag := by
  have := ht.offset_ge hb
  exact Heap.header_of_tagged (ht.tagged b hb) (by omega)

theorem blockSize (ht : Tiled h.arena bs) (hb : b ∈ bs) : h.blockSize b.offset = .ok b.size := by
  have := ht.offset_ge hb
  exact Heap.blockSize_of_tagged (ht.tagged b hb) (by omega) (ht.tiling.proper hb).size_tag

theorem footer (ht : Tiled h.arena bs) (hb : b ∈ bs) : h.footer b.offset = .ok b.tag := by
  have := ht.offset_ge hb
  exact Heap.footer_of_tagged (ht.tagged b hb) (by omega) (ht.tiling.proper hb).size_tag
    (by simp only [Block.stop]; omega)

theorem nextBlock (ht : Tiled h.arena bs) (hb : b ∈ bs) : h.nextBlock b.offset = .ok b.stop := by
  have := ht.offset_ge hb
  exact Heap.nextBlock_of_tagged (ht.tagged b hb) (by omega) (ht.tiling.proper hb).size_tag

theorem header_stop (ht : Tiled h.arena (xs ++ b :: ys)) : h.header b.stop = .ok (tagAbove ys) := by
  obtain ⟨hxs, hb, _⟩ := ht.tiling.split
  have hm : Tiling 16 (xs ++ [b]) b.stop := tiling_append.mpr ⟨b.offset, hxs, rfl, hb, rfl⟩
  have ht' : Tiled h.arena ((xs ++ [b]) ++ ys) := by
    rw [List.append_assoc]
    exact ht
  exact ht'.header_above hm

theorem tagBefore (ht : Tiled h.arena (xs ++ b :: ys)) :
    h.tagBefore b.offset = .ok (tagBelow xs) := ht.tagBefore_below ht.tiling.split.1

theorem prevBlock (ht : Tiled h.arena (xs ++ p :: b :: ys)) : h.prevBlock b.offset = .ok p.offset := by
  obtain ⟨_, hp, hb, _⟩ := ht.tiling.split
  have hleast := hp.least
  rw [hb]
  exact Heap.prevBlock_of_tagged (ht.tagged p (by simp)) hp.size_tag (by simp only [Block.stop]; omega)

end

end Tiled

/-! ## Writing -/

namespace Heap

open HeapM

variable {h : Heap}

theorem setBlock_meets {o s : Nat} {al : Bool} (h8 : 8 ∣ s) (hs : 8 ≤ s) (ho : 4 ≤ o)
    (he : o + s ≤ h.arena.size + 4) :
    Meets (setBlock o s al) h
      (fun _ h' => s ≤ maxBlockSize ∧ h' = { h with arena := h.arena.setBlock ⟨o, s, al⟩ })
      (fun e h' => e = .oversized s ∧ maxBlockSize < s ∧ h' = h) := by
  by_cases hm : s ≤ maxBlockSize
  · exact Meets.of_run (setBlock_run al h8 hs hm ho he) ⟨hm, rfl⟩
  · have hp : Tag.pack s al = .error (.oversized s) := by
      rw [Tag.pack, if_neg (by omega), if_pos (Nat.not_le.mp hm)]
    have hr : (setBlock o s al).run h = ⟨⟨.error (.oversized s), []⟩, h⟩ := by
      unfold setBlock
      rw [hp]
      rfl
    exact Meets.of_run_error hr ⟨rfl, Nat.not_le.mp hm, rfl⟩

theorem setBlock_meets_of_le {o s : Nat} {al : Bool} (h8 : 8 ∣ s) (hs : 8 ≤ s) (hm : s ≤ maxBlockSize)
    (ho : 4 ≤ o) (he : o + s ≤ h.arena.size + 4) :
    Meets (setBlock o s al) h
      (fun _ h' => h' = { h with arena := h.arena.setBlock ⟨o, s, al⟩ }) NoFault :=
  Meets.of_run (setBlock_run al h8 hs hm ho he) rfl

theorem putTag_meets {i : Nat} (t : Tag) (hi : i + 4 ≤ h.arena.size) :
    Meets (putTag i t) h (fun _ h' => h' = { h with arena := h.arena.setTag i t }) NoFault :=
  Meets.of_run (putTag_run t hi) rfl

theorem enlist_meets {L : List Nat} (hr : h.freeList.Represents L) {b : Nat} (hb : Storable b)
    (hs : FreeList.slotOf b < h.freeList.slots.size)
    (hv : ∀ c ∈ L, FreeList.slotOf c ≠ FreeList.slotOf b) :
    Meets (enlist b) h (fun _ h' => ∃ l, h' = { h with freeList := l } ∧ l.Represents (b :: L) ∧
      l.slots.size = h.freeList.slots.size) NoFault := by
  have ho : h.freeList.occupied b = false := by
    cases ho : h.freeList.occupied b with
    | false => rfl
    | true =>
      obtain ⟨c, hc, hcb⟩ := (hr.occupied b).mp ho
      exact absurd hcb (hv c hc)
  have hc : h.freeList.checkInsert b = .ok () := by
    rw [hr.checkInsert_eq hb, if_neg (Nat.not_le.mpr hs), ho]
    rfl
  refine Meets.read_bind hc (Meets.of_update ?_)
  exact ⟨_, rfl, hr.insertFront hb hs ho, FreeList.size_insertFront _ _⟩

theorem unlist_meets {L : List Nat} (hr : h.freeList.Represents L) {b : Nat} (h8 : 8 ∣ b) :
    Meets (unlist b) h (fun listed h' => listed = decide (b ∈ L) ∧
      ∃ l, h' = { h with freeList := l } ∧ l.Represents (L.erase b) ∧
        l.slots.size = h.freeList.slots.size) NoFault := by
  refine Meets.read_bind (hr.checkErase_eq h8) (Meets.view_bind
    (Meets.update_bind (Meets.pure ?_)))
  exact ⟨hr.link?_isSome h8, _, rfl, hr.erase h8, FreeList.size_erase _ _⟩

end Heap

/-! ## Replacing blocks -/

section
variable {h h' : Heap} {bs xs ys mid mid' : List Block} {L L' : List Nat} {m e : Nat} {b : Block}

theorem Laid.refit (hl : Laid h (xs ++ mid ++ ys) L) (hs : Tiling 16 xs m) (hm : Tiling m mid e)
    (hm' : Tiling m mid' e) (hi : h'.initialized = true)
    (hp : h.arena.Patch h'.arena (m - 4) (e - 4)) (ht : ∀ b ∈ mid', h'.arena.Tagged b)
    (hr : h'.freeList.Represents L') (hz : h'.freeList.slots.size = h.freeList.slots.size)
    (hL : L'.Perm (freeOffsets (xs ++ mid' ++ ys))) : Laid h' (xs ++ mid' ++ ys) L' where
  initialized := hi
  tiled := hl.tiled.refit hs hm hm' hp ht
  list := hr
  table := by rw [hz, hl.table, hp.alike.size]
  listed := hL

theorem Laid.storable (hl : Laid h bs L) (hb : b ∈ bs) : Storable b.offset := by
  have := (hl.tiled.tiling.bounds hb).2
  have := (hl.tiled.tiling.proper hb).least
  have := hl.tiled.bounded
  refine ⟨hl.tiled.tiling.dvd_offset (by decide) hb, ?_⟩
  simp only [Block.stop] at *
  omega

theorem Laid.slot_lt (hl : Laid h bs L) {i : Nat} (hi : i ≤ h.arena.size) :
    FreeList.slotOf i < h.freeList.slots.size := by
  rw [hl.table]
  simp only [FreeList.slotOf]
  have := Nat.div_le_div_right (c := minBlockSize) hi
  omega

theorem Laid.mem_list (hl : Laid h bs L) {o : Nat} :
    o ∈ L ↔ ∃ b ∈ bs, b.allocated = false ∧ b.offset = o := by
  rw [hl.listed.mem_iff, mem_freeOffsets]

theorem Laid.offset_mem_list (hl : Laid h bs L) (hb : b ∈ bs) :
    b.offset ∈ L ↔ b.allocated = false := by
  rw [hl.mem_list]
  constructor
  · intro hq
    obtain ⟨c, hc, hf, he⟩ := hq
    rw [← hl.tiled.tiling.eq_of_offset hc hb he]
    exact hf
  · exact fun hf => ⟨b, hb, hf, rfl⟩

end

end BoundaryTag
