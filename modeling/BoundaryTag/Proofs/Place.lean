import BoundaryTag.Heap.Malloc
import BoundaryTag.Proofs.Coalesce
import BoundaryTag.Proofs.Counted

/-!
# Placing

What becomes of a free block that a request is placed into: it is split, if the policy finds the rest
large enough, or else given away as a whole (`Policy.carve`). The rest needs no coalescing where no two
free blocks lie side by side.

Main statement: `Heap.place_meets`.
-/

namespace BoundaryTag

namespace Policy

/-- The size of the block that a request for `size` bytes gets out of `whole` bytes. -/
def share (p : Policy) (whole size : Nat) : Nat :=
  if p.splitThreshold ≤ whole - size then size else whole

/-- The blocks in the place of the free block `b` after a request for `size` bytes. -/
def carve (p : Policy) (b : Block) (size : Nat) : List Block :=
  if p.splitThreshold ≤ b.size - size then
    [⟨b.offset, size, true⟩, ⟨b.offset + size, b.size - size, false⟩]
  else [⟨b.offset, b.size, true⟩]

/-- The free list after a request for `size` bytes is placed into the block `b` of the list `L`. -/
def relist (p : Policy) (b : Block) (size : Nat) (L : List Nat) : List Nat :=
  if p.splitThreshold ≤ b.size - size then (b.offset + size) :: L.erase b.offset
  else L.erase b.offset

end Policy

section
variable {p : Policy} {b : Block} {xs ys : List Block} {size : Nat}

theorem Policy.carve_eq_cons (p : Policy) (b : Block) (size : Nat) :
    ∃ rest, p.carve b size = ⟨b.offset, p.share b.size size, true⟩ :: rest ∧
      ∀ c ∈ rest, c.allocated = false := by
  unfold Policy.carve Policy.share
  split
  · exact ⟨_, rfl, fun c hc => List.mem_singleton.mp hc ▸ rfl⟩
  · exact ⟨[], rfl, fun c hc => nomatch hc⟩

theorem allocatedBlocks_carve :
    allocatedBlocks (p.carve b size) = [⟨b.offset, p.share b.size size, true⟩] := by
  unfold Policy.carve Policy.share
  split <;> rfl

theorem allocatedBlocks_carve_perm (p : Policy) (b : Block) (size : Nat) (xs ys : List Block) :
    (allocatedBlocks (xs ++ p.carve b size ++ ys)).Perm
      (⟨b.offset, p.share b.size size, true⟩ :: allocatedBlocks (xs ++ ys)) := by
  simp only [allocatedBlocks_append, allocatedBlocks_carve, List.append_assoc,
    List.singleton_append]
  exact List.perm_middle

theorem le_share (hle : size ≤ b.size) : size ≤ p.share b.size size := by
  unfold Policy.share
  split
  · exact Nat.le_refl _
  · exact hle

theorem Policy.relist_congr {L L' : List Nat} (he : L'.erase b.offset = L.erase b.offset) :
    p.relist b size L' = p.relist b size L := by
  unfold relist
  rw [he]

theorem tiling_carve (hb : b.Proper) (h8 : 8 ∣ size) (hn : 16 ≤ size) (hle : size ≤ b.size) :
    Tiling b.offset (p.carve b size) b.stop := by
  have hmost := hb.most
  unfold Policy.carve
  split
  · next hs =>
    have hmin := p.minBlock_le_split
    refine ⟨rfl, ⟨h8, hn, Nat.le_trans hle hmost⟩, rfl, ⟨Nat.dvd_sub hb.dvd h8,
      Nat.le_trans hmin hs, Nat.le_trans (Nat.sub_le _ _) hmost⟩, ?_⟩
    simp only [Tiling, Block.stop]
    omega
  · exact ⟨rfl, ⟨hb.dvd, hb.least, hb.most⟩, rfl⟩

theorem Settled.freeFirst_above (hs : Settled (xs ++ b :: ys)) (hb : b.allocated = false) :
    freeFirst ys = [] := by
  obtain ⟨_, hby, _⟩ := List.isChain_append.mp hs
  cases ys with
  | nil => rfl
  | cons n ys =>
    have hn := ((List.isChain_cons.mp hby).1 n rfl).resolve_left (by simp [hb])
    simp [freeFirst, hn]

theorem Settled.freeLast_below (hs : Settled (xs ++ b :: ys)) (hb : b.allocated = false) :
    freeLast xs = [] :=
  freeLast_of_allocated fun c hc =>
    ((List.isChain_append.mp hs).2.2 c hc b rfl).resolve_right (by simp [hb])

theorem Settled.carve (hs : Settled (xs ++ b :: ys)) (hb : b.allocated = false) :
    Settled (xs ++ p.carve b size ++ ys) := by
  obtain ⟨hx, hby, hlast⟩ := List.isChain_append.mp hs
  obtain ⟨hfirst, hy⟩ := List.isChain_cons.mp hby
  have hfirst' : ∀ c ∈ ys.head?, c.allocated = true := fun c hc =>
    (hfirst c hc).resolve_left (by simp [hb])
  unfold Policy.carve
  split
  · refine List.isChain_append.mpr ⟨List.isChain_append.mpr ⟨hx, ?_, ?_⟩, hy, ?_⟩
    · exact List.isChain_pair.mpr (Or.inl rfl)
    · exact fun c hc d hd => Or.inr (Option.some.inj hd ▸ rfl)
    · exact fun c hc d hd => Or.inr (hfirst' d hd)
  · refine List.isChain_append.mpr ⟨List.isChain_append.mpr ⟨hx, List.isChain_singleton _, ?_⟩, hy, ?_⟩
    · exact fun c hc d hd => Or.inr (Option.some.inj hd ▸ rfl)
    · exact fun c hc d hd => Or.inr (hfirst' d hd)

end

section
variable {h : Heap} {b : Block} {xs ys : List Block} {L : List Nat} {size : Nat}

theorem Laid.erase_perm (hl : Laid h (xs ++ b :: ys) L) (hb : b.allocated = false) :
    (L.erase b.offset).Perm (freeOffsets xs ++ freeOffsets ys) := by
  have hp := hl.listed
  rw [freeOffsets_append, freeOffsets_cons_of_free hb] at hp
  apply (hp.erase b.offset).trans
  apply (List.perm_middle.erase b.offset).trans
  rw [List.erase_cons_head]

theorem Laid.relist_perm (hl : Laid h (xs ++ b :: ys) L) (hb : b.allocated = false) (p : Policy)
    (size : Nat) :
    (p.relist b size L).Perm (freeOffsets (xs ++ p.carve b size ++ ys)) := by
  have he := hl.erase_perm hb
  rw [freeOffsets_append, freeOffsets_append]
  unfold Policy.relist Policy.carve
  split
  · rw [freeOffsets_cons_of_allocated rfl, freeOffsets_cons_of_free rfl, freeOffsets_nil,
      List.append_assoc]
    exact (he.cons _).trans List.perm_middle.symm
  · rw [freeOffsets_cons_of_allocated rfl, freeOffsets_nil, List.append_nil]
    exact he

theorem Laid.slot_ne_rest (hl : Laid h (xs ++ b :: ys) L) (hn : 16 ≤ size)
    (hr : size + 16 ≤ b.size) {c : Nat} (hc : c ∈ L.erase b.offset) :
    FreeList.slotOf c ≠ FreeList.slotOf (b.offset + size) := by
  obtain ⟨hne, hcL⟩ := hl.list.nodup.mem_erase_iff.mp hc
  obtain ⟨d, hd, _, rfl⟩ := hl.mem_list.mp hcL
  have hb : b ∈ xs ++ b :: ys := List.mem_append_cons_self
  have hap := hl.tiled.tiling.apart hd hb hne
  have hleast := (hl.tiled.tiling.proper hd).least
  simp only [Block.stop, FreeList.slotOf, minBlockSize] at *
  omega

end

namespace Heap

open HeapM

section
variable {h : Heap} {b : Block} {xs ys : List Block} {L : List Nat} {size : Nat}

theorem coalesce_meets_of_alone (hl : Laid h (xs ++ b :: ys) L) (hb : b.allocated = false)
    (hx : freeLast xs = []) (hy : freeFirst ys = []) :
    Meets (coalesce b.offset) h (fun _ h' => ∃ a l, h' = { h with arena := a, freeList := l } ∧
      h.arena.Patch a (b.offset - 4) (b.stop - 4) ∧ Laid h' (xs ++ b :: ys) L) NoFault := by
  have hc := coalesce_meets hl hb
  have hleast := hl.tiled.tiling.split.2.1.least
  have hm := hl.tiled.tiling.split.2.1.most
  rw [freeRun, hx, hy, List.nil_append, joined_singleton hb, belowFree_of_freeLast hx,
    aboveFree_of_freeFirst hy, List.tail_cons, List.map_nil, List.diff_nil] at hc
  refine hc.mono ?_ ?_
  · intro _ _ hq
    obtain ⟨_, a, l, rfl, hp, hl'⟩ := hq
    rw [List.append_assoc] at hl'
    exact ⟨a, l, rfl, hp.patch (by omega), hl'⟩
  · intro _ _ hq
    obtain ⟨_, hlt⟩ := hq
    exact absurd hm (Nat.not_le.mpr hlt)

theorem charge_block_meets {bs : List Block} (hl : Laid h bs L) (hb : b ∈ bs)
    (hc : h.counters.allocations ≤ Arena.maxSize ∧ h.counters.allocated ≤ Arena.maxSize) :
    Meets (do
        let payload ← Address.sub (← read (·.blockSize b.offset)) overhead
        account (Counters.recordAlloc payload)) h
      (fun _ h' => (Counters.recordAlloc (b.size - 8)).run h.counters = .ok () h'.counters ∧
        h' = { h with counters := h.counters.charged (b.size - 8) })
      (fun e h' => (Counters.recordAlloc (b.size - 8)).run h.counters = .error e h'.counters ∧
        e = .overflow ∧ Overcounted h ∧ ∃ c, h' = { h with counters := c }) := by
  have hbp := hl.tiled.tiling.proper hb
  have hend := (hl.tiled.tiling.bounds hb).2
  have hbound := hl.tiled.bounded
  refine Meets.read_bind (hl.tiled.blockSize hb) (Meets.lift_bind hbp.sub_overhead ?_)
  exact charge_meets hc.1 hc.2 (by simp only [Block.stop] at hend; omega)

theorem split_meets {l : FreeList} {ev : Event} {k : HeapM Unit} {Q : Unit → Heap → Prop}
    {E : Fault → Heap → Prop} (hl : Laid h (xs ++ b :: ys) L) (hs : Settled (xs ++ b :: ys))
    (hb : b.allocated = false) (h8 : 8 ∣ size) (hn : 16 ≤ size) (hle : size ≤ b.size)
    (hr : l.Represents (L.erase b.offset)) (hz : l.slots.size = h.freeList.slots.size)
    (hsp : h.policy.splitThreshold ≤ b.size - size)
    (hk : ∀ a l', h.arena.Patch a (b.offset - 4) (b.stop - 4) →
      Laid { h with arena := a, freeList := l' } (xs ++ h.policy.carve b size ++ ys)
        (h.policy.relist b size L) →
      Meets k { h with arena := a, freeList := l' } Q E) :
    Meets (do
        setBlock b.offset size true
        setBlock (b.offset + size) (b.size - size) false
        enlist (b.offset + size)
        let _ ← coalesce (b.offset + size)
        tell ev
        k) { h with freeList := l } Q E := by
  obtain ⟨hxs, hbp, hys⟩ := hl.tiled.tiling.split
  have hst := hl.storable (List.mem_append_right xs List.mem_cons_self)
  have hge := hxs.le
  have hend := hys.le
  have hstop : b.stop = b.offset + b.size := rfl
  have hmost := hbp.most
  have hbound := hl.tiled.bounded
  have hmin := h.policy.minBlock_le_split
  simp only [minBlockSize] at hmin
  have hcar := tiling_carve (p := h.policy) hbp h8 hn hle
  have hset := Arena.tagged_setBlocks (a := h.arena) hcar (by omega) (by omega)
  have hperm := hl.relist_perm hb h.policy size
  have hcarve : h.policy.carve b size =
      [⟨b.offset, size, true⟩, ⟨b.offset + size, b.size - size, false⟩] := if_pos hsp
  have hlist : h.policy.relist b size L = (b.offset + size) :: L.erase b.offset := if_pos hsp
  rw [hcarve, hlist] at hperm hk
  rw [hcarve] at hcar hset
  apply (setBlock_meets_of_le h8 (by omega) (by omega) (by omega) (by simp only; omega)).then
  intro _ _ he
  subst he
  have hd := Nat.dvd_sub hbp.dvd h8
  have hsize := (Arena.alike_setBlock h.arena ⟨b.offset, size, true⟩).size
  apply (setBlock_meets_of_le hd (by omega) (by omega) (by omega) (by simp only; omega)).then
  intro _ _ he
  subst he
  have hslot := hl.slot_lt (i := b.offset + size) (by omega)
  refine (enlist_meets hr ⟨Nat.dvd_add hst.1 h8, by omega⟩ (by simp only; omega)
    (fun c hc => hl.slot_ne_rest hn (by omega) hc)).then ?_
  intro _ _ hq
  obtain ⟨l', rfl, hr', hz'⟩ := hq
  -- both halves are laid out before the rest is merged upwards
  rw [List.append_cons] at hl
  have hl₁ : Laid { h with
      arena := (h.arena.setBlock ⟨b.offset, size, true⟩).setBlock
        ⟨b.offset + size, b.size - size, false⟩
      freeList := l' } _ _ :=
    hl.refit hxs ⟨rfl, hbp, rfl⟩ hcar hl.initialized hset.1 hset.2 hr' (hz'.trans hz) hperm
  have hsplit : xs ++ [⟨b.offset, size, true⟩, ⟨b.offset + size, b.size - size, false⟩] ++ ys =
      (xs ++ [⟨b.offset, size, true⟩]) ++ ⟨b.offset + size, b.size - size, false⟩ :: ys := by
    simp
  rw [hsplit] at hl₁ hk
  refine (coalesce_meets_of_alone hl₁ rfl (freeLast_concat_of_allocated rfl)
    (hs.freeFirst_above hb)).then ?_
  intro _ _ hq
  obtain ⟨a, l'', rfl, hp, hl₂⟩ := hq
  refine Meets.tell_bind (hk a l'' (hset.1.trans (hp.mono ?_ ?_)) hl₂)
  · simp only
    omega
  · simp only [Block.stop]
    omega

theorem fill_meets {l : FreeList} {ev : Event} {k : HeapM Unit} {Q : Unit → Heap → Prop}
    {E : Fault → Heap → Prop} (hl : Laid h (xs ++ b :: ys) L) (hb : b.allocated = false)
    (h8 : 8 ∣ size) (hn : 16 ≤ size) (hle : size ≤ b.size)
    (hr : l.Represents (L.erase b.offset)) (hz : l.slots.size = h.freeList.slots.size)
    (hsp : ¬ h.policy.splitThreshold ≤ b.size - size)
    (hk : ∀ a, h.arena.Patch a (b.offset - 4) (b.stop - 4) →
      Laid { h with arena := a, freeList := l } (xs ++ h.policy.carve b size ++ ys)
        (h.policy.relist b size L) →
      Meets k { h with arena := a, freeList := l } Q E) :
    Meets (do
        setBlock b.offset b.size true
        tell ev
        k) { h with freeList := l } Q E := by
  obtain ⟨hxs, hbp, hys⟩ := hl.tiled.tiling.split
  have hge := hxs.le
  have hend := hys.le
  have hstop : b.stop = b.offset + b.size := rfl
  have hmost := hbp.most
  have hcar := tiling_carve (p := h.policy) hbp h8 hn hle
  have hset := Arena.tagged_setBlocks (a := h.arena) hcar (by omega) (by omega)
  have hperm := hl.relist_perm hb h.policy size
  have hcarve : h.policy.carve b size = [⟨b.offset, b.size, true⟩] := if_neg hsp
  have hlist : h.policy.relist b size L = L.erase b.offset := if_neg hsp
  rw [hcarve, hlist] at hperm hk
  rw [hcarve] at hcar hset
  apply (setBlock_meets_of_le hbp.dvd (by omega) (by omega) (by omega) (by simp only; omega)).then
  intro _ _ he
  subst he
  rw [List.append_cons] at hl
  refine Meets.tell_bind (hk _ hset.1 ?_)
  exact hl.refit hxs ⟨rfl, hbp, rfl⟩ hcar hl.initialized hset.1 hset.2 hr hz hperm

theorem place_meets (hl : Laid h (xs ++ b :: ys) L) (hs : Settled (xs ++ b :: ys))
    (hc : Counted h (xs ++ b :: ys)) (hb : b.allocated = false) (h8 : 8 ∣ size) (hn : 16 ≤ size)
    (hle : size ≤ b.size) :
    Meets (place b.offset size) h
      (fun _ h' => (Counters.recordAlloc (h.policy.share b.size size - 8)).run h.counters =
          .ok () h'.counters ∧ ∃ a l,
        h' = { h with
          arena := a
          freeList := l
          counters := h.counters.charged (h.policy.share b.size size - 8) } ∧
        h.arena.Patch a (b.offset - 4) (b.stop - 4) ∧
        Laid h' (xs ++ h.policy.carve b size ++ ys) (h.policy.relist b size L))
      (fun e h' => (Counters.recordAlloc (h.policy.share b.size size - 8)).run h.counters =
          .error e h'.counters ∧ e = .overflow ∧ Overcounted h ∧
        Laid h' (xs ++ h.policy.carve b size ++ ys) (h.policy.relist b size L)) := by
  have hbm : b ∈ xs ++ b :: ys := List.mem_append_cons_self
  have hbounds := hc.bounded hl.tiled
  obtain ⟨rest, hcarve, _⟩ := h.policy.carve_eq_cons b size
  have hcm : ⟨b.offset, h.policy.share b.size size, true⟩ ∈ xs ++ h.policy.carve b size ++ ys := by
    simp [hcarve]
  refine Meets.read_bind (hl.tiled.blockSize hbm) (Meets.require_bind (decide_eq_true hle) ?_)
  apply (unlist_meets hl.list (hl.storable hbm).1).then
  intro _ _ hq
  obtain ⟨rfl, l, rfl, hr, hz⟩ := hq
  refine Meets.require_bind ?_ (Meets.view_bind ?_)
  · exact decide_eq_true ((hl.offset_mem_list hbm).mpr hb)
  by_cases hsp : h.policy.splitThreshold ≤ b.size - size
  · rw [if_pos hsp]
    refine split_meets hl hs hb h8 hn hle hr hz hsp fun a l' hp hl' => ?_
    refine (charge_block_meets hl' hcm hbounds).mono ?_ ?_
    · intro _ _ hq
      obtain ⟨hrec, rfl⟩ := hq
      exact ⟨hrec, a, l', rfl, hp, hl'.recount _⟩
    · intro _ _ hq
      obtain ⟨hrec, rfl, ho, _, rfl⟩ := hq
      exact ⟨hrec, rfl, ho, hl'.recount _⟩
  · rw [if_neg hsp]
    refine fill_meets hl hb h8 hn hle hr hz hsp fun a hp hl' => ?_
    refine (charge_block_meets hl' hcm hbounds).mono ?_ ?_
    · intro _ _ hq
      obtain ⟨hrec, rfl⟩ := hq
      exact ⟨hrec, a, l, rfl, hp, hl'.recount _⟩
    · intro _ _ hq
      obtain ⟨hrec, rfl, ho, _, rfl⟩ := hq
      exact ⟨hrec, rfl, ho, hl'.recount _⟩

end

end Heap

end BoundaryTag
