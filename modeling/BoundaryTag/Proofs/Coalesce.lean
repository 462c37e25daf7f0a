import BoundaryTag.Proofs.Laid

/-!
# Coalescing

A free block and the free blocks beside it form a run (`freeRun`). Coalescing makes it one block, which
keeps the place in the free list of the lowest of them.

Main statement: `Heap.coalesce_meets`, for a heap whose free blocks may lie side by side. The only fault
is a run too large for a tag.
-/

namespace BoundaryTag

/-! ## Runs of free blocks -/

/-- The free block that ends a row of blocks, if one does. -/
def freeLast (xs : List Block) : List Block := (xs.getLast?.filter (!·.allocated)).toList

/-- The row below the free block that ends it. -/
def belowFree (xs : List Block) : List Block :=
  if freeLast xs = [] then xs else xs.dropLast

def freeFirst : List Block → List Block
  | b :: _ => if b.allocated then [] else [b]
  | [] => []

def aboveFree : List Block → List Block
  | b :: ys => if b.allocated then b :: ys else ys
  | [] => []

def freeRun (xs : List Block) (b : Block) (ys : List Block) : List Block :=
  freeLast xs ++ b :: freeFirst ys

/-- A free block in the place of a row of blocks. -/
def joined (bs : List Block) : Block :=
  ⟨(bs.head?.map (·.offset)).getD 0, (bs.map (·.size)).sum, false⟩

section
variable {xs ys bs : List Block} {b c p : Block} {i e : Nat}

theorem freeLast_concat_of_free (h : p.allocated = false) : freeLast (xs ++ [p]) = [p] := by
  simp [freeLast, h]

theorem freeLast_concat_of_allocated (h : p.allocated = true) : freeLast (xs ++ [p]) = [] := by
  simp [freeLast, h]

theorem allocated_of_freeLast (h : freeLast xs = []) : ∀ c ∈ xs.getLast?, c.allocated = true := by
  intro c hc
  rw [freeLast, Option.mem_def.mp hc] at h
  simpa using h

theorem freeLast_of_allocated (h : ∀ c ∈ xs.getLast?, c.allocated = true) : freeLast xs = [] := by
  rcases List.eq_nil_or_concat' xs with rfl | ⟨zs, c, rfl⟩
  · rfl
  · exact freeLast_concat_of_allocated (h c List.getLast?_concat)

theorem belowFree_concat_of_free (h : p.allocated = false) : belowFree (xs ++ [p]) = xs := by
  simp [belowFree, freeLast_concat_of_free h]

theorem belowFree_of_freeLast (h : freeLast xs = []) : belowFree xs = xs := if_pos h

theorem freeFirst_cons_of_free (h : b.allocated = false) : freeFirst (b :: ys) = [b] := by
  simp [freeFirst, h]

theorem aboveFree_cons_of_free (h : b.allocated = false) : aboveFree (b :: ys) = ys := by
  simp [aboveFree, h]

theorem aboveFree_of_freeFirst (h : freeFirst ys = []) : aboveFree ys = ys := by
  cases ys with
  | nil => rfl
  | cons b ys =>
    cases hb : b.allocated with
    | true => simp [aboveFree, hb]
    | false => simp [freeFirst, hb] at h

theorem freeLast_cases (h : Tiling i xs e) :
    (freeLast xs = [] ∧ (tagBelow xs).allocated = true) ∨
      ∃ zs p, xs = zs ++ [p] ∧ p.allocated = false := by
  rcases List.eq_nil_or_concat xs with rfl | ⟨zs, p, rfl⟩
  · exact Or.inl ⟨rfl, rfl⟩
  · rw [List.concat_eq_append] at *
    cases hp : p.allocated with
    | true =>
      refine Or.inl ⟨freeLast_concat_of_allocated hp, ?_⟩
      rw [tagBelow_concat]
      exact h.split.2.1.allocated_tag.trans hp
    | false => exact Or.inr ⟨zs, p, rfl, hp⟩

theorem freeFirst_cases (h : Tiling i ys e) :
    (freeFirst ys = [] ∧ (tagAbove ys).allocated = true) ∨
      ∃ n zs, ys = n :: zs ∧ n.allocated = false := by
  cases ys with
  | nil => exact Or.inl ⟨rfl, rfl⟩
  | cons n zs =>
    cases hn : n.allocated with
    | true =>
      refine Or.inl ⟨?_, h.2.1.allocated_tag.trans hn⟩
      simp [freeFirst, hn]
    | false => exact Or.inr ⟨n, zs, rfl, hn⟩

theorem joined_singleton (h : b.allocated = false) : joined [b] = b := by
  cases b with
  | mk o s a =>
    obtain rfl : a = false := h
    simp [joined]

theorem Tiling.dvd_sum (h : Tiling i bs e) : 8 ∣ (bs.map (·.size)).sum := by
  induction bs generalizing i with
  | nil => exact Nat.dvd_zero 8
  | cons b bs ih => exact Nat.dvd_add h.2.1.dvd (ih h.2.2)

theorem Tiling.joined_offset (h : Tiling i bs e) (hne : bs ≠ []) : (joined bs).offset = i := by
  cases bs with
  | nil => exact absurd rfl hne
  | cons b bs => exact h.1

theorem Tiling.joined_stop (h : Tiling i bs e) (hne : bs ≠ []) : (joined bs).stop = e := by
  rw [h.end_eq, Block.stop, h.joined_offset hne]
  rfl

theorem Tiling.proper_joined (h : Tiling i bs e) (hne : bs ≠ [])
    (hm : (joined bs).size ≤ maxBlockSize) : (joined bs).Proper := by
  refine ⟨h.dvd_sum, ?_, hm⟩
  cases bs with
  | nil => exact absurd rfl hne
  | cons b bs =>
    have := h.2.1.least
    simp only [joined, List.map_cons, List.sum_cons]
    omega

theorem Tiling.join (h : Tiling i bs e) (hne : bs ≠ []) (hm : (joined bs).size ≤ maxBlockSize) :
    Tiling i [joined bs] e := ⟨h.joined_offset hne, h.proper_joined hne hm, h.joined_stop hne⟩

theorem belowFree_append_freeLast (xs : List Block) : belowFree xs ++ freeLast xs = xs := by
  rcases List.eq_nil_or_concat xs with rfl | ⟨zs, p, rfl⟩
  · rfl
  · rw [List.concat_eq_append]
    cases hp : p.allocated with
    | true =>
      rw [belowFree_of_freeLast (freeLast_concat_of_allocated hp), freeLast_concat_of_allocated hp,
        List.append_nil]
    | false => rw [belowFree_concat_of_free hp, freeLast_concat_of_free hp]

theorem freeFirst_append_aboveFree (ys : List Block) : freeFirst ys ++ aboveFree ys = ys := by
  cases ys with
  | nil => rfl
  | cons n zs => cases hn : n.allocated <;> simp [freeFirst, aboveFree, hn]

theorem free_of_mem_freeLast (h : c ∈ freeLast xs) : c.allocated = false := by
  simp only [freeLast, Option.mem_toList, Option.filter_eq_some_iff] at h
  simpa using h.2

theorem free_of_mem_freeFirst (h : c ∈ freeFirst ys) : c.allocated = false := by
  cases ys with
  | nil => cases h
  | cons n zs =>
    cases hn : n.allocated with
    | true => simp [freeFirst, hn] at h
    | false =>
      rw [freeFirst_cons_of_free hn, List.mem_singleton] at h
      rw [h, hn]

theorem allocatedBlocks_belowFree (xs : List Block) :
    allocatedBlocks (belowFree xs) = allocatedBlocks xs := by
  conv => rhs; rw [← belowFree_append_freeLast xs]
  rw [allocatedBlocks_append, allocatedBlocks_of_free fun _ => free_of_mem_freeLast, List.append_nil]

theorem allocatedBlocks_aboveFree (ys : List Block) :
    allocatedBlocks (aboveFree ys) = allocatedBlocks ys := by
  conv => rhs; rw [← freeFirst_append_aboveFree ys]
  rw [allocatedBlocks_append, allocatedBlocks_of_free fun _ => free_of_mem_freeFirst, List.nil_append]

theorem allocatedBlocks_coalesced (xs : List Block) (b : Block) (ys : List Block) :
    allocatedBlocks (belowFree xs ++ [joined (freeRun xs b ys)] ++ aboveFree ys) =
      allocatedBlocks (xs ++ ys) := by
  rw [allocatedBlocks_append, allocatedBlocks_append, allocatedBlocks_append, allocatedBlocks_belowFree,
    allocatedBlocks_aboveFree, allocatedBlocks_cons_of_free (b := joined _) rfl,
    allocatedBlocks_nil, List.append_nil]

theorem Settled.belowFree (h : Settled xs) :
    Settled (belowFree xs) ∧ ∀ c ∈ (BoundaryTag.belowFree xs).getLast?, c.allocated = true := by
  rcases List.eq_nil_or_concat xs with rfl | ⟨zs, p, rfl⟩
  · exact ⟨h, fun c hc => nomatch hc⟩
  · rw [List.concat_eq_append] at *
    cases hp : p.allocated with
    | true =>
      rw [belowFree_of_freeLast (freeLast_concat_of_allocated hp), List.getLast?_concat]
      exact ⟨h, fun c hc => Option.some.inj hc ▸ hp⟩
    | false =>
      rw [belowFree_concat_of_free hp]
      refine ⟨h.of_append.1, fun c hc => ?_⟩
      rcases (List.isChain_append.mp h).2.2 c hc p rfl with hc | hc
      · exact hc
      · exact absurd hc (by simp [hp])

theorem Settled.aboveFree (h : Settled ys) :
    Settled (aboveFree ys) ∧ ∀ c ∈ (BoundaryTag.aboveFree ys).head?, c.allocated = true := by
  cases ys with
  | nil => exact ⟨h, fun c hc => nomatch hc⟩
  | cons n zs =>
    cases hn : n.allocated with
    | true =>
      rw [aboveFree_of_freeFirst (by simp [freeFirst, hn])]
      exact ⟨h, fun c hc => Option.some.inj hc ▸ hn⟩
    | false =>
      rw [aboveFree_cons_of_free hn]
      have h : Settled ([n] ++ zs) := h
      refine ⟨h.of_append.2, fun c hc => ?_⟩
      rcases (List.isChain_append.mp h).2.2 n rfl c hc with hc | hc
      · exact absurd hc (by simp [hn])
      · exact hc

theorem Settled.coalesced (hx : Settled xs) (hy : Settled ys) (b : Block) :
    Settled (BoundaryTag.belowFree xs ++ [joined (freeRun xs b ys)] ++ BoundaryTag.aboveFree ys) := by
  obtain ⟨hx, hlast⟩ := hx.belowFree
  obtain ⟨hy, hfirst⟩ := hy.aboveFree
  refine List.isChain_append.mpr ⟨List.isChain_append.mpr ⟨hx, List.isChain_singleton _, ?_⟩, hy, ?_⟩
  · exact fun c hc _ _ => Or.inl (hlast c hc)
  · exact fun _ _ c hc => Or.inr (hfirst c hc)

theorem freeRun_covers (xs : List Block) (b : Block) (ys : List Block) :
    belowFree xs ++ freeRun xs b ys ++ aboveFree ys = xs ++ b :: ys := by
  conv => rhs; rw [← belowFree_append_freeLast xs, ← freeFirst_append_aboveFree ys]
  simp [freeRun]

theorem Tiling.joined_size_le (h : Tiling i (xs ++ b :: ys) e) :
    i + (joined (freeRun xs b ys)).size ≤ e := by
  rw [h.end_eq, ← freeRun_covers xs b ys]
  simp only [joined, List.map_append, List.sum_append]
  omega

theorem Tiling.dvd_joined (h : Tiling i (xs ++ b :: ys) e) : 8 ∣ (joined (freeRun xs b ys)).size := by
  rw [← freeRun_covers xs b ys, List.append_assoc] at h
  obtain ⟨_, _, h⟩ := tiling_append.mp h
  obtain ⟨_, h, _⟩ := tiling_append.mp h
  exact h.dvd_sum

theorem Tiling.joined_covers_mem (h : Tiling i (xs ++ bs ++ ys) e) (hb : b ∈ bs) :
    (joined bs).offset ≤ b.offset ∧ b.stop ≤ (joined bs).stop := by
  obtain ⟨t, h, _⟩ := tiling_append.mp h
  obtain ⟨m, _, h⟩ := tiling_append.mp h
  have hne := List.ne_nil_of_mem hb
  rw [h.joined_offset hne, h.joined_stop hne]
  exact h.bounds hb

theorem Tiling.joined_covers (h : Tiling i (xs ++ b :: ys) e) :
    (joined (freeRun xs b ys)).offset ≤ b.offset ∧ b.stop ≤ (joined (freeRun xs b ys)).stop := by
  rw [← freeRun_covers xs b ys] at h
  exact h.joined_covers_mem List.mem_append_cons_self

theorem Tiling.least_joined (h : Tiling i (xs ++ b :: ys) e) : 16 ≤ (joined (freeRun xs b ys)).size := by
  have := h.joined_covers
  have := h.split.2.1.least
  simp only [Block.stop] at *
  omega

theorem freeOffsets_of_free (h : ∀ b ∈ bs, b.allocated = false) :
    freeOffsets bs = bs.map (·.offset) := by
  rw [freeOffsets, freeBlocks, List.filter_eq_self.mpr fun b hb => by simp [h b hb]]

end

theorem append_diff_self (xs ys : List Nat) : (xs ++ ys).diff xs = ys := by
  induction xs with
  | nil => exact List.diff_nil _
  | cons x xs ih => rw [List.cons_append, List.diff_cons, List.erase_cons_head, ih]

/-! ## Joining blocks of a heap -/

section
variable {h : Heap} {xs ys bs : List Block} {L : List Nat} {b : Block}

theorem Laid.joined_listed (hl : Laid h (xs ++ (b :: bs) ++ ys) L)
    (hf : ∀ c ∈ b :: bs, c.allocated = false) :
    (L.diff (bs.map (·.offset))).Perm (freeOffsets (xs ++ [joined (b :: bs)] ++ ys)) := by
  have hs : freeOffsets [joined (b :: bs)] = [b.offset] := rfl
  have hp : L.Perm (bs.map (·.offset) ++ (freeOffsets xs ++ ([b.offset] ++ freeOffsets ys))) := by
    apply hl.listed.trans
    rw [freeOffsets_append, freeOffsets_append, freeOffsets_of_free hf, List.map_cons]
    generalize freeOffsets xs = X
    generalize freeOffsets ys = Y
    generalize bs.map (·.offset) = B
    have h₁ : (X ++ b.offset :: B ++ Y).Perm ((B ++ X) ++ b.offset :: Y) := by
      rw [List.append_assoc, List.cons_append]
      apply List.perm_middle.trans
      refine List.Perm.trans ?_ List.perm_middle.symm
      apply List.Perm.cons _
      rw [← List.append_assoc]
      exact List.Perm.append_right _ List.perm_append_comm
    exact h₁.trans (List.Perm.of_eq (by simp))
  rw [freeOffsets_append, freeOffsets_append, hs, List.append_assoc]
  exact (hp.diff_right _).trans (List.Perm.of_eq (append_diff_self _ _))

theorem Laid.join (hl : Laid h (xs ++ (b :: bs) ++ ys) L) (hf : ∀ c ∈ b :: bs, c.allocated = false)
    (hm : (joined (b :: bs)).size ≤ maxBlockSize) {l : FreeList}
    (hr : l.Represents (L.diff (bs.map (·.offset)))) (hz : l.slots.size = h.freeList.slots.size) :
    h.arena.Retagged (h.arena.setBlock (joined (b :: bs))) (joined (b :: bs)) ∧
      Laid { h with arena := h.arena.setBlock (joined (b :: bs)), freeList := l }
        (xs ++ [joined (b :: bs)] ++ ys) (L.diff (bs.map (·.offset))) := by
  obtain ⟨e, hxm, hys⟩ := tiling_append.mp hl.tiled.tiling
  obtain ⟨m, hxs, hmid⟩ := tiling_append.mp hxm
  have hj := hmid.join (List.cons_ne_nil _ _) hm
  have hle := hys.le
  have hge := hxs.le
  have hleast := hj.2.1.least
  have ho : (joined (b :: bs)).offset = m := hj.1
  have hst : (joined (b :: bs)).stop = e := hj.2.2
  have hin : (joined (b :: bs)).stop ≤ h.arena.size + 4 := by omega
  have hp := Arena.retagged_setBlock (a := h.arena) (b := joined (b :: bs)) (by omega) (by omega) hin
  refine ⟨hp, hl.refit hxs hmid hj hl.initialized ?_ ?_ hr hz (hl.joined_listed hf)⟩
  · have hp := hp.patch (by omega)
    rw [ho, hst] at hp
    exact hp
  · intro c hc
    obtain rfl := List.mem_singleton.mp hc
    exact Arena.tagged_setBlock (by omega) (by omega) hin

end

/-! ## Coalescing -/

namespace Heap

open HeapM

section
variable {h : Heap} {xs ys bs : List Block} {L : List Nat} {b : Block}

/-- The last step of every merge: the blocks that are taken in have left the list, and one block is written. -/
theorem join_meets (hl : Laid h (xs ++ (b :: bs) ++ ys) L) (hf : ∀ c ∈ b :: bs, c.allocated = false)
    {l : FreeList} (hr : l.Represents (L.diff (bs.map (·.offset))))
    (hz : l.slots.size = h.freeList.slots.size) {s : Nat} (hs : s = (joined (b :: bs)).size) :
    Meets (do
        setBlock b.offset s false
        return b.offset) { h with freeList := l }
      (fun r h' => r = (joined (b :: bs)).offset ∧ ∃ a l', h' = { h with arena := a, freeList := l' } ∧
        h.arena.Retagged a (joined (b :: bs)) ∧
        Laid h' (xs ++ [joined (b :: bs)] ++ ys) (L.diff (bs.map (·.offset))))
      (fun e _ => e = .oversized (joined (b :: bs)).size ∧
        maxBlockSize < (joined (b :: bs)).size) := by
  subst hs
  obtain ⟨e, hxm, hys⟩ := tiling_append.mp hl.tiled.tiling
  obtain ⟨m, hxs, hmid⟩ := tiling_append.mp hxm
  have hle := hys.le
  have hge := hxs.le
  have ho := hmid.1
  have hb := hmid.2.1.least
  have hst : b.offset + (joined (b :: bs)).size = e := hmid.joined_stop (List.cons_ne_nil _ _)
  have hbs : b.size ≤ (joined (b :: bs)).size := by
    simp only [joined, List.map_cons, List.sum_cons]
    omega
  have hd : 8 ∣ (joined (b :: bs)).size := hmid.dvd_sum
  refine (setBlock_meets hd (by omega) (by omega) ?_).seq ?_ ?_
  · show b.offset + (joined (b :: bs)).size ≤ h.arena.size + 4
    omega
  · intro e h' hq
    obtain ⟨rfl, hm, -⟩ := hq
    exact ⟨rfl, hm⟩
  · intro _ h' hq
    obtain ⟨hm, rfl⟩ := hq
    exact Meets.pure ⟨rfl, _, l, rfl, hl.join hf hm hr hz⟩

theorem coalesce_meets (hl : Laid h (xs ++ b :: ys) L) (hb : b.allocated = false) :
    Meets (coalesce b.offset) h
      (fun r h' => r = (joined (freeRun xs b ys)).offset ∧
        ∃ a l, h' = { h with arena := a, freeList := l } ∧
          h.arena.Retagged a (joined (freeRun xs b ys)) ∧
          Laid h' (belowFree xs ++ [joined (freeRun xs b ys)] ++ aboveFree ys)
            (L.diff ((freeRun xs b ys).tail.map (·.offset))))
      (fun e _ => e = .oversized (joined (freeRun xs b ys)).size ∧
        maxBlockSize < (joined (freeRun xs b ys)).size) := by
  have hbm : b ∈ xs ++ b :: ys := List.mem_append_cons_self
  obtain ⟨hxs, hbp, hys⟩ := hl.tiled.tiling.split
  refine Meets.read_bind hl.tiled.tagBefore (Meets.read_bind (hl.tiled.nextBlock hbm)
    (Meets.read_bind hl.tiled.header_stop (Meets.read_bind (hl.tiled.blockSize hbm) ?_)))
  rcases freeLast_cases hxs with ⟨hlow, hbelow⟩ | ⟨xs, p, rfl, hp⟩
  · rcases freeFirst_cases hys with ⟨hhigh, habove⟩ | ⟨n, ys, rfl, hn⟩
    · rw [hbelow, habove, freeRun, hlow, hhigh, belowFree_of_freeLast hlow,
        aboveFree_of_freeFirst hhigh, List.nil_append, joined_singleton hb]
      refine Meets.pure ⟨rfl, _, _, rfl, Arena.Retagged.refl _ _, ?_⟩
      rw [List.append_assoc]
      exact hl
    · have hl' : Laid h (xs ++ [b, n] ++ ys) L := by
        rw [List.append_assoc]
        exact hl
      have hno : n.offset = b.stop := hys.1
      have hns := hl.storable (b := n) (by simp)
      rw [hbelow, tagAbove, hys.2.1.allocated_tag, hn, hys.2.1.size_tag, freeRun, hlow,
        freeFirst_cons_of_free hn, belowFree_of_freeLast hlow, aboveFree_cons_of_free hn,
        List.nil_append, ← hno]
      apply (unlist_meets hl.list hns.1).then
      intro _ _ hq
      obtain ⟨_, l, rfl, hr, hz⟩ := hq
      exact join_meets hl' (by simp [hb, hn]) (by simpa using hr) hz (by simp [joined])
  · have ht : Tiled h.arena (xs ++ p :: b :: ys) := by
      have := hl.tiled
      rwa [List.append_assoc] at this
    have hpo := ht.prevBlock
    have hpm : p ∈ xs ++ [p] ++ b :: ys := by simp
    have hpp := hl.tiled.tiling.proper hpm
    have hbs := hl.storable hbm
    rcases freeFirst_cases hys with ⟨hhigh, habove⟩ | ⟨n, ys, rfl, hn⟩
    · have hl' : Laid h (xs ++ [p, b] ++ ys) L := by
        rw [List.append_assoc] at hl ⊢
        exact hl
      rw [tagBelow_concat, hpp.allocated_tag, hp, habove, freeRun,
        freeLast_concat_of_free hp, hhigh, belowFree_concat_of_free hp,
        aboveFree_of_freeFirst hhigh]
      refine Meets.read_bind hpo ((unlist_meets hl.list hbs.1).then ?_)
      intro _ _ hq
      obtain ⟨_, l, rfl, hr, hz⟩ := hq
      apply Meets.read_bind (hl.tiled.blockSize hpm)
      exact join_meets hl' (by simp [hb, hp]) (by simpa using hr) hz (by simp [joined])
    · have hl' : Laid h (xs ++ [p, b, n] ++ ys) L := by
        rw [List.append_assoc] at hl ⊢
        exact hl
      have hno : n.offset = b.stop := hys.1
      have hns := hl.storable (b := n) (by simp)
      rw [tagBelow_concat, hpp.allocated_tag, hp, tagAbove, hys.2.1.allocated_tag, hn,
        hys.2.1.size_tag, freeRun, freeLast_concat_of_free hp, freeFirst_cons_of_free hn,
        belowFree_concat_of_free hp, aboveFree_cons_of_free hn, ← hno]
      refine Meets.read_bind hpo ((unlist_meets hl.list hns.1).then ?_)
      intro _ _ hq
      obtain ⟨_, l, rfl, hr, hz⟩ := hq
      apply (unlist_meets hr hbs.1).then
      intro _ _ hq
      obtain ⟨_, l', rfl, hr', hz'⟩ := hq
      apply Meets.read_bind (hl.tiled.blockSize hpm)
      -- the upper neighbour left the list before `b` did, the run names `b` first
      rw [List.erase_comm] at hr'
      exact join_meets hl' (by simp [hb, hp, hn]) (by simpa using hr') (hz'.trans hz)
        (by simp [joined, Nat.add_assoc])

end

end Heap

end BoundaryTag
