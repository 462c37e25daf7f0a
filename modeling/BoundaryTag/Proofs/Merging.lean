import BoundaryTag.Proofs.Sessions
import BoundaryTag.Proofs.Release

/-!
# Merging

A block that was just given back may have a free block below it, above it, or both, and no other two free
blocks lie side by side: that is the heap between two steps of `free`, and of `extend`. Coalescing puts
the heap in order again.

Main statement: `coalesce_restores`. The free blocks around the one that is coalesced become one block, and
of the rest of the heap nothing is touched.
-/

namespace BoundaryTag

/-- No two free blocks lie side by side, but for the block at the offset `o` and those beside it. -/
def SettledBut (o : Nat) (bs : List Block) : Prop :=
  bs.IsChain fun b c => b.allocated = true ∨ c.allocated = true ∨ b.offset = o ∨ c.offset = o

/-- A run of free blocks, with no free block on either side. -/
structure FullRun (xs run ys : List Block) : Prop where
  free : ∀ c ∈ run, c.allocated = false
  below : ∀ c ∈ xs.getLast?, c.allocated = true
  above : ∀ c ∈ ys.head?, c.allocated = true

/-- The heap `h'` is the heap `h` with the blocks `r :: rest` made one, which has the place of `r` in the
free list. -/
structure Heap.Merged (h h' : Heap) (xs : List Block) (r : Block) (rest ys : List Block) (L L' : List Nat) :
    Prop where
  elsewhere : h' = { h with arena := h'.arena, freeList := h'.freeList }
  words : h.arena.Retagged h'.arena (joined (r :: rest))
  laid : Laid h' (xs ++ [joined (r :: rest)] ++ ys) L'
  settled : Settled (xs ++ [joined (r :: rest)] ++ ys)
  unlisted : L.Perm (rest.map (·.offset) ++ L')
  kept : L' = L.filter (· ∉ rest.map (·.offset))

section
variable {h h' : Heap} {xs ys bs rest : List Block} {b r : Block} {L : List Nat} {i e : Nat}

theorem SettledBut.beside (hs : SettledBut b.offset (xs ++ b :: ys)) (ht : Tiling i (xs ++ b :: ys) e) :
    Settled xs ∧ Settled ys := by
  have hn := ht.nodup_offsets
  rw [List.map_append, List.map_cons, List.nodup_middle, List.nodup_cons, ← List.map_append] at hn
  have hne : ∀ c ∈ xs ++ ys, c.offset ≠ b.offset := fun c hc ho => hn.1 (List.mem_map.mpr ⟨c, hc, ho⟩)
  have settled : ∀ zs ⊆ xs ++ ys, SettledBut b.offset zs → Settled zs := by
    intro zs hzs hz
    refine hz.imp_of_mem_imp fun c d hc hd hcd => ?_
    obtain ha | ha | ho | ho := hcd
    · exact Or.inl ha
    · exact Or.inr ha
    · exact absurd ho (hne c (hzs hc))
    · exact absurd ho (hne d (hzs hd))
  obtain ⟨hx, hby, -⟩ := List.isChain_append.mp hs
  exact ⟨settled xs (List.subset_append_left _ _) hx,
    settled ys (List.subset_append_right _ _) (List.isChain_cons.mp hby).2⟩

theorem freeRun_fullRun (hx : Settled xs) (hy : Settled ys) (hb : b.allocated = false) :
    FullRun (belowFree xs) (freeRun xs b ys) (aboveFree ys) where
  free c hc := by
    rcases List.mem_append.mp hc with hc | hc
    · exact free_of_mem_freeLast hc
    · rcases List.mem_cons.mp hc with rfl | hc
      · exact hb
      · exact free_of_mem_freeFirst hc
  below := hx.belowFree.2
  above := hy.aboveFree.2

theorem FullRun.whole {run : List Block} (hr : FullRun xs run ys)
    (hf : ∀ c ∈ xs ++ run ++ ys, c.allocated = false) : xs = [] ∧ ys = [] := by
  constructor
  · refine List.getLast?_eq_none_iff.mp (Option.eq_none_iff_forall_ne_some.mpr fun c hc => ?_)
    have hc' := hf c (by simp [List.mem_of_getLast? hc])
    exact absurd (hr.below c hc) (by simp [hc'])
  · refine List.head?_eq_none_iff.mp (Option.eq_none_iff_forall_ne_some.mpr fun c hc => ?_)
    have hc' := hf c (by simp [List.mem_of_head? hc])
    exact absurd (hr.above c hc) (by simp [hc'])

theorem perm_append_diff {A : List Nat} (hA : A.Nodup) (hsub : A ⊆ L) : L.Perm (A ++ L.diff A) :=
  (List.subperm_append_diff_self_of_count_le
    (List.subperm_ext_iff.mp (List.subperm_of_subset hA hsub))).symm

theorem Laid.unlisted (hl : Laid h (xs ++ (r :: rest) ++ ys) L)
    (hf : ∀ c ∈ r :: rest, c.allocated = false) :
    L.Perm (rest.map (·.offset) ++ L.diff (rest.map (·.offset))) := by
  have hsub : rest.Sublist (xs ++ (r :: rest) ++ ys) :=
    (List.sublist_cons_self r rest).trans
      ((List.sublist_append_right _ _).trans (List.sublist_append_left _ _))
  refine perm_append_diff (hl.tiled.tiling.nodup_offsets.sublist (hsub.map _)) fun o ho => ?_
  obtain ⟨c, hc, rfl⟩ := List.mem_map.mp ho
  exact (hl.offset_mem_list (hsub.subset hc)).mpr (hf c (List.mem_cons_of_mem _ hc))

/-- A heap that is in order but for the neighbours of one free block is in order after that block was
coalesced. -/
theorem coalesce_restores (hl : Laid h bs L) (hs : SettledBut b.offset bs) (hb : b ∈ bs)
    (hf : b.allocated = false) :
    ∃ (xs : List Block) (r : Block) (rest ys : List Block),
      bs = xs ++ (r :: rest) ++ ys ∧ b ∈ r :: rest ∧ FullRun xs (r :: rest) ys ∧
        ((joined (r :: rest)).size ≤ maxBlockSize →
          ((Heap.coalesce b.offset).run h).result = .ok r.offset ∧
            ∃ L', h.Merged ((Heap.coalesce b.offset).run h).heap xs r rest ys L L') := by
  obtain ⟨xs, ys, rfl⟩ := List.append_of_mem hb
  obtain ⟨hx, hy⟩ := hs.beside hl.tiled.tiling
  have hm := Heap.coalesce_meets hl hf
  -- `Laid` does not ask for a settled row, so the contract applies; what is new is that the run it merges is full
  have hfull := freeRun_fullRun hx hy hf
  have hsettled := hx.coalesced hy b
  have hcovers := freeRun_covers xs b ys
  have hmem : b ∈ freeRun xs b ys := List.mem_append_cons_self
  rw [← hcovers] at hl
  obtain ⟨r, rest, hrun⟩ : ∃ r rest, freeRun xs b ys = r :: rest :=
    List.exists_cons_of_ne_nil (List.ne_nil_of_mem hmem)
  rw [hrun] at hm hfull hsettled hcovers hmem hl
  refine ⟨_, r, rest, _, hcovers.symm, hmem, hfull, fun hsize => ?_⟩
  obtain ⟨o, ho, hr, a, l, hh, hwords, hl'⟩ :=
    (hm.mono (fun _ _ => id) fun _ _ he => absurd he.2 (Nat.not_lt.mpr hsize)).exists_ok
  refine ⟨ho.trans (congrArg Except.ok hr), _,
    { elsewhere := by rw [hh]
      words := by rw [hh]; exact hwords
      laid := hl'
      settled := hsettled
      unlisted := hl.unlisted hfull.free
      kept := hl.list.nodup.sdiff_eq_filter }⟩

/-- The middle one of three blocks in a row was the last to be given back. -/
theorem coalesce_restores_middle : ∃ (h : Heap) (L : List Nat),
    Laid h [⟨16, 16, false⟩, ⟨32, 16, false⟩, ⟨48, 32, false⟩] L ∧ L = [32, 16, 48] ∧
      ((Heap.coalesce 32).run h).result = .ok 16 ∧
      ((Heap.coalesce 32).run h).heap.freeList.toList = [16] ∧
      ((Heap.coalesce 32).run h).heap.blocks = .ok [⟨16, 64, false⟩] := by
  let s := Session.pairHeld.next (.free ⟨16⟩) .done
  have hr : Reachable (Heap.new (Arena.growable 100) .fineGrained) s := .step Session.reachable_pairHeld
    ⟨{ handle := ⟨16⟩, size := 8 }, .tail _ (.head _), rfl⟩ (by decide +kernel)
  obtain ⟨bs, L, hs, -⟩ := (hr.valid (.growable _ _)).1.sound (by decide +kernel)
  have hbs : bs = [⟨16, 16, false⟩, ⟨32, 16, true⟩, ⟨48, 32, false⟩] :=
    Except.ok.inj (hs.laid.blocks_eq.symm.trans (by decide +kernel))
  have hL : L = [16, 48] := hs.laid.list.toList_eq.symm.trans (by decide +kernel)
  subst hbs hL
  let h : Heap := { s.heap with
    arena := s.heap.arena.setBlock ⟨32, 16, false⟩
    freeList := s.heap.freeList.insertFront 32 }
  have hlist : h.freeList.Represents [32, 16, 48] :=
    hs.laid.list.insertFront (hs.laid.storable (b := ⟨32, 16, true⟩) (by simp))
      (hs.laid.slot_lt (by decide +kernel)) (by decide +kernel)
  have hbefore : Laid s.heap ([⟨16, 16, false⟩] ++ ⟨32, 16, true⟩ :: [⟨48, 32, false⟩]) [16, 48] := hs.laid
  have hafter : Laid h _ _ := hbefore.freed rfl hs.laid.initialized rfl hlist (FreeList.size_insertFront _ _)
  have hl : Laid h [⟨16, 16, false⟩, ⟨32, 16, false⟩, ⟨48, 32, false⟩] [32, 16, 48] := hafter
  have hbut : SettledBut 32 [⟨16, 16, false⟩, ⟨32, 16, false⟩, ⟨48, 32, false⟩] := by
    simp [SettledBut]
  obtain ⟨xs, r, rest, ys, hrow, -, hrun, hmerge⟩ :=
    coalesce_restores (b := ⟨32, 16, false⟩) hl hbut (by simp) rfl
  obtain ⟨rfl, rfl⟩ := hrun.whole (by rw [← hrow]; decide)
  rw [List.nil_append, List.append_nil] at hrow
  obtain ⟨rfl, rfl⟩ := List.cons.inj hrow
  obtain ⟨hres, L', hm⟩ := hmerge (by decide)
  have hkept : L' = [16] := hm.kept.trans (by decide)
  exact ⟨h, _, hl, rfl, hres, hm.laid.list.toList_eq.trans hkept, hm.laid.blocks_eq⟩

end

end BoundaryTag
