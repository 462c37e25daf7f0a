import BoundaryTag.Heap.Free
import BoundaryTag.Proofs.Serve

/-!
# Freeing

An allocated block of a sound heap is turned into a free one and joined with its free neighbours. Every
other payload stays.

Main statements: `Heap.free_retags`, `Heap.free_meets`.
-/

namespace BoundaryTag

def Block.freed (b : Block) : Block := ⟨b.offset, b.size, false⟩

section
variable {h h' : Heap} {xs ys : List Block} {b : Block} {L L' : List Nat}

theorem Laid.owns_of_inside {bs : List Block} {o : Nat} (hl : Laid h bs L) (h8 : 8 ∣ o)
    (hin : 16 ≤ o ∧ o + 16 ≤ h.arena.size) : h.owns o = .ok true := by
  have h8 : o % alignment = 0 := Nat.mod_eq_zero_of_dvd h8
  have ho : Span.contains ⟨12, h.arena.size - 4⟩ o = true := by
    simp only [Span.contains, decide_eq_true_eq]
    omega
  rw [Heap.owns, if_pos h8, hl.span_eq, ← ho]
  rfl

theorem Laid.inside {bs : List Block} (hl : Laid h bs L) (hb : b ∈ bs) :
    16 ≤ b.offset ∧ b.offset + 16 ≤ h.arena.size := by
  have := hl.tiled.tiling.bounds hb
  have := (hl.tiled.tiling.proper hb).least
  simp only [Block.stop] at *
  omega

theorem Laid.owns_eq (hl : Laid h (xs ++ b :: ys) L) : h.owns b.offset = .ok true :=
  hl.owns_of_inside (hl.storable List.mem_append_cons_self).1 (hl.inside List.mem_append_cons_self)

theorem Laid.slot_ne (hl : Laid h (xs ++ b :: ys) L) (hb : b.allocated = true) {c : Nat}
    (hc : c ∈ L) : FreeList.slotOf c ≠ FreeList.slotOf b.offset := by
  obtain ⟨d, hd, hf, rfl⟩ := hl.mem_list.mp hc
  have hbm : b ∈ xs ++ b :: ys := List.mem_append_cons_self
  intro hslot
  rw [hl.tiled.tiling.eq_of_offset hd hbm (hl.tiled.tiling.slot_inj hd hbm hslot), hb] at hf
  cases hf

theorem Laid.freed_listed (hl : Laid h (xs ++ b :: ys) L) (hb : b.allocated = true) :
    (b.offset :: L).Perm (freeOffsets (xs ++ [b.freed] ++ ys)) := by
  have hp := hl.listed
  rw [freeOffsets_append, freeOffsets_cons_of_allocated hb] at hp
  rw [freeOffsets_append, freeOffsets_append, freeOffsets_cons_of_free rfl, freeOffsets_nil,
    List.append_assoc]
  exact (hp.cons _).trans List.perm_middle.symm

/-- A block that is given back may lie beside free blocks until it is merged with them, which `Laid` allows. -/
theorem Laid.freed (hl : Laid h (xs ++ b :: ys) L) (hb : b.allocated = true)
    (hi : h'.initialized = true) (ha : h'.arena = h.arena.setBlock b.freed)
    (hr : h'.freeList.Represents (b.offset :: L)) (hz : h'.freeList.slots.size = h.freeList.slots.size) :
    Laid h' (xs ++ b.freed :: ys) (b.offset :: L) := by
  obtain ⟨hxs, hbp, hys⟩ := hl.tiled.tiling.split
  have hge := hxs.le
  have hend := hys.le
  have hfree : Tiling b.offset [b.freed] b.stop := ⟨rfl, ⟨hbp.dvd, hbp.least, hbp.most⟩, rfl⟩
  obtain ⟨hpatch, htagged⟩ := Arena.tagged_setBlocks (a := h.arena) hfree (by omega) (by omega)
  have hlisted := hl.freed_listed hb
  rw [List.append_cons] at hl ⊢
  refine hl.refit hxs ⟨rfl, hbp, rfl⟩ hfree hi ?_ ?_ hr hz hlisted
  · rw [ha]
    exact hpatch
  · rw [ha]
    exact htagged

theorem Sound.released (hs : Sound h (xs ++ b :: ys) L) (hb : b.allocated = true)
    (hp : (h.arena.setBlock b.freed).Retagged h'.arena (joined (freeRun xs b.freed ys)))
    (hl : Laid h' (belowFree xs ++ [joined (freeRun xs b.freed ys)] ++ aboveFree ys) L')
    (hpol : h'.policy = h.policy) (hc : h'.counters = h.counters.released (b.size - 8)) :
    Sound h' (belowFree xs ++ [joined (freeRun xs b.freed ys)] ++ aboveFree ys) L' ∧
      Frame h h' (xs ++ ys) := by
  obtain ⟨hxs, hbp, hys⟩ := hs.laid.tiled.tiling.split
  have hge := hxs.le
  have hend := hys.le
  have hleast := hbp.least
  have hstop : b.stop = b.offset + b.size := rfl
  have hrow : Tiling 16 (xs ++ b.freed :: ys) h.arena.size :=
    tiling_append.mpr ⟨b.offset, hxs, rfl, ⟨hbp.dvd, hleast, hbp.most⟩, hys⟩
  have hcov : (joined (freeRun xs b.freed ys)).offset ≤ b.offset ∧
    b.stop ≤ (joined (freeRun xs b.freed ys)).stop := hrow.joined_covers
  have hjoined := hrow.least_joined
  have hfreed : h.arena.Patch (h.arena.setBlock b.freed) (b.offset - 4) (b.stop - 4) :=
    Arena.patch_setBlock (show 8 ≤ b.size by omega) (show 4 ≤ b.offset by omega)
      (show b.stop ≤ _ by omega)
  have hpatch := (hfreed.mono (by omega) (by omega)).trans (hp.patch (by omega))
  have ht := hl.tiled.tiling
  rw [← List.append_cons] at ht
  have hkeeps := hpatch.keeps ht
  have hperm := allocatedBlocks_middle_perm xs ys hb
  rw [← allocatedBlocks_coalesced xs b.freed ys] at hperm
  obtain ⟨hsx, hsy⟩ := hs.settled.beside
  refine ⟨⟨hl, hsx.coalesced hsy _, hs.counted.released hc hpatch.alike.size hperm⟩,
    ⟨hpol, hpatch.alike.ceiling, hkeeps.mono fun c hm => ?_⟩⟩
  rw [allocatedBlocks_append, allocatedBlocks_belowFree, allocatedBlocks_aboveFree,
    ← allocatedBlocks_append]
  exact hm

end

namespace Heap

open HeapM

variable {h : Heap} {bs xs ys : List Block} {b : Block} {L : List Nat} {p : Handle}

/-- What freeing comes to for a block that is allocated, with `tag` in front of it. -/
def giveBack (block : Nat) (tag : Tag) : HeapM Unit := do
  let payload ← Address.sub tag.size overhead
  account (Counters.recordFree payload)
  setBlock block tag.size false
  enlist block
  let _ ← coalesce block

/-- Whether the handle is that of a block or not, the word in front of it is taken for a tag. -/
theorem free_meets_of_tag {Q : Unit → Heap → Prop} {E : Fault → Heap → Prop} {t : Tag} (hl : Laid h bs L)
    (hset : Settled bs) (h8 : 8 ∣ p.offset) (hin : 16 ≤ p.offset ∧ p.offset + 16 ≤ h.arena.size)
    (ht : h.arena.tag? (p.offset - 4) = some t)
    (back : t.allocated = true → Meets (giveBack p.offset t) h Q E)
    (ignore : t.allocated = false → Q () h) : Meets (free p) h Q E := by
  apply (selfCheck_meets hl hset .free).then
  rintro _ h rfl
  apply Meets.read_bind (hl.owns_of_inside h8 hin)
  rw [if_pos rfl]
  apply Meets.read_bind (header_of_tag? (by omega) ht)
  cases ha : t.allocated with
  | true => exact back ha
  | false => exact Meets.tell_bind (Meets.pure (ignore ha))

theorem free_retags (hs : Sound h (xs ++ b :: ys) L) (hb : b.allocated = true)
    (hp : p.offset = b.offset) :
    Meets (free p) h
      (fun _ h' => (Sound h' (belowFree xs ++ [joined (freeRun xs b.freed ys)] ++ aboveFree ys)
          ((b.offset :: L).diff ((freeRun xs b.freed ys).tail.map (·.offset))) ∧
        Frame h h' (xs ++ ys) ∧ h'.counters = h.counters.released (b.size - 8)) ∧
        ∃ a, h.arena.Retagged a b.freed ∧ a.Tagged b.freed ∧
          a.Retagged h'.arena (joined (freeRun xs b.freed ys)))
      (fun e _ => Oversize h e) := by
  have hbm : b ∈ xs ++ b :: ys := List.mem_append_cons_self
  obtain ⟨hxs, hbp, hys⟩ := hs.laid.tiled.tiling.split
  have hst := hs.laid.storable hbm
  have hge := hxs.le
  have hend := hys.le
  have hstop : b.stop = b.offset + b.size := rfl
  have hleast := hbp.least
  have hmost := hbp.most
  have hin : 8 ≤ b.size ∧ 4 ≤ b.offset ∧ b.stop ≤ h.arena.size + 4 := by omega
  have hwords : h.arena.Retagged (h.arena.setBlock b.freed) b.freed :=
    Arena.retagged_setBlock hin.1 hin.2.1 hin.2.2
  have htagged : (h.arena.setBlock b.freed).Tagged b.freed :=
    Arena.tagged_setBlock hin.1 hin.2.1 hin.2.2
  have hsub : Address.sub b.tag.size overhead = .ok (b.size - 8) := by
    rw [hbp.size_tag, hbp.sub_overhead]
  have hrel := hs.counted.recordFree_run (allocatedBlocks_middle_perm xs ys hb)
  obtain rfl : p = ⟨b.offset⟩ := congrArg Handle.mk hp
  refine free_meets_of_tag hs.laid hs.settled hst.1 (hs.laid.inside hbm) (hs.laid.tiled.tagged b hbm).1
    (fun _ => ?_) fun hf => absurd (hbp.allocated_tag.symm.trans hf) (by simp [hb])
  refine Meets.lift_bind hsub ((account_meets hrel).then ?_)
  intro _ _ he
  subst he
  rw [hbp.size_tag]
  apply (setBlock_meets_of_le hbp.dvd (by omega) (by omega) (by omega) (by simp only; omega)).then
  intro _ _ he
  subst he
  let g : Heap := { h with
    arena := h.arena.setBlock b.freed
    counters := h.counters.released (b.size - 8) }
  refine (enlist_meets (h := g) hs.laid.list hst (hs.laid.slot_lt (by omega))
    (fun c hc => hs.laid.slot_ne hb hc)).then ?_
  intro _ _ hq
  obtain ⟨l, rfl, hr, hz⟩ := hq
  have hl₁ : Laid { g with freeList := l } (xs ++ b.freed :: ys) (b.offset :: L) :=
    hs.laid.freed hb hs.laid.initialized rfl hr hz
  refine Meets.bind ((coalesce_meets hl₁ rfl).mono ?_ ?_)
  · intro _ _ hq
    obtain ⟨_, a, l', rfl, hp', hl₂⟩ := hq
    obtain ⟨hsound, hframe⟩ := hs.released hb hp' hl₂ rfl rfl
    exact Meets.pure ⟨⟨hsound, hframe, rfl⟩, _, hwords, htagged, hp'⟩
  · intro _ _ hq
    obtain ⟨rfl, hlt⟩ := hq
    have hsize : g.arena.size = h.arena.size := hwords.alike.size
    have hle : 16 + _ ≤ g.arena.size := hl₁.tiled.tiling.joined_size_le
    have := hs.laid.tiled.within
    exact ⟨_, rfl, hlt, hl₁.tiled.tiling.dvd_joined, by omega⟩

theorem free_meets (hs : Sound h (xs ++ b :: ys) L) (hb : b.allocated = true)
    (hp : p.offset = b.offset) :
    Meets (free p) h
      (fun _ h' => Sound h' (belowFree xs ++ [joined (freeRun xs b.freed ys)] ++ aboveFree ys)
          ((b.offset :: L).diff ((freeRun xs b.freed ys).tail.map (·.offset))) ∧
        Frame h h' (xs ++ ys) ∧ h'.counters = h.counters.released (b.size - 8))
      (fun e _ => Oversize h e) :=
  (free_retags hs hb hp).mono (fun _ _ => And.left) fun _ _ => id

end Heap

end BoundaryTag
