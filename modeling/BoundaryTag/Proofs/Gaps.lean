import BoundaryTag.Proofs.Freed

/-!
# Gaps

The allocated blocks of a row leave gaps. Where no two free blocks lie side by side, each gap is one free block,
so the allocated blocks alone say how the row goes.

Main statements: `Tiling.maximalRun_iff`, `Tiling.eq_of_allocatedBlocks`.
-/

namespace BoundaryTag

/-- From `i` to `j` all numbers have the property `P`, and beside them none has. -/
structure MaximalRun (P : Nat → Prop) (i j : Nat) : Prop where
  lt : i < j
  inside : ∀ k, i ≤ k → k < j → P k
  below : ∀ k, k + 1 = i → ¬ P k
  above : ¬ P j

/-- The offset `k`, from `i` to `e`, lies in none of the blocks `bs`. -/
def Vacant (bs : List Block) (i e k : Nat) : Prop := i ≤ k ∧ k < e ∧ ∀ b ∈ bs, ¬ b.Covers k

section
variable {bs cs xs ys : List Block} {b c : Block} {i e j k : Nat}

/-! ## One block for each offset -/

theorem Tiling.exists_covers (h : Tiling i bs e) (hi : i ≤ k) (he : k < e) : ∃ b ∈ bs, b.Covers k := by
  induction bs generalizing i with
  | nil =>
    have hie : i = e := h
    omega
  | cons b bs ih =>
    by_cases hk : k < b.stop
    · exact ⟨b, .head _, h.1.trans_le hi, hk⟩
    · obtain ⟨c, hc, hck⟩ := ih h.2.2 (Nat.not_lt.mp hk)
      exact ⟨c, .tail _ hc, hck⟩

theorem Tiling.eq_of_covers (h : Tiling i bs e) (hb : b ∈ bs) (hc : c ∈ bs) (hbk : b.Covers k)
    (hck : c.Covers k) : b = c := by
  by_contra hne
  have := h.apart hb hc fun ho => hne (h.eq_of_offset hb hc ho)
  simp only [Block.Covers] at *
  omega

theorem Tiling.vacant_iff (h : Tiling i bs e) :
    Vacant (allocatedBlocks bs) i e k ↔ ∃ b ∈ bs, b.allocated = false ∧ b.Covers k := by
  constructor
  · rintro ⟨hi, he, hno⟩
    obtain ⟨b, hb, hbk⟩ := h.exists_covers hi he
    exact ⟨b, hb, by simpa using fun ha => hno b (mem_allocatedBlocks.mpr ⟨hb, ha⟩) hbk, hbk⟩
  · rintro ⟨b, hb, hf, hbk⟩
    have hin := h.bounds hb
    refine ⟨hin.1.trans hbk.1, Nat.lt_of_lt_of_le hbk.2 hin.2, fun c hc hck => ?_⟩
    obtain ⟨hc, ha⟩ := mem_allocatedBlocks.mp hc
    rw [h.eq_of_covers hc hb hck hbk, hf] at ha
    cases ha

/-! ## One free block for each gap -/

theorem Tiling.not_vacant_stop (h : Tiling i bs e) (hs : Settled bs) (hb : b ∈ bs)
    (hf : b.allocated = false) : ¬ Vacant (allocatedBlocks bs) i e b.stop := by
  intro hv
  obtain ⟨c, hc, hcf, hcov⟩ := h.vacant_iff.mp hv
  obtain ⟨xs, ys, rfl⟩ := List.append_of_mem hb
  obtain ⟨-, -, hys⟩ := h.split
  cases ys with
  | nil => exact absurd hys (Nat.ne_of_lt hv.2.1)
  | cons d ys =>
    have hd : d.Covers b.stop := hys.1 ▸ hys.2.1.covers
    rcases (List.isChain_cons_cons.mp hs.of_append.2).1 with ha | ha
    · exact absurd (hf.symm.trans ha) Bool.false_ne_true
    · rw [h.eq_of_covers (by simp) hc hd hcov] at ha
      exact absurd (hcf.symm.trans ha) Bool.false_ne_true

theorem Tiling.not_vacant_below (h : Tiling i bs e) (hs : Settled bs) (hb : b ∈ bs)
    (hf : b.allocated = false) (hk : k + 1 = b.offset) : ¬ Vacant (allocatedBlocks bs) i e k := by
  intro hv
  obtain ⟨c, hc, hcf, hcov⟩ := h.vacant_iff.mp hv
  obtain ⟨xs, ys, rfl⟩ := List.append_of_mem hb
  obtain ⟨hxs, -, -⟩ := h.split
  rcases List.eq_nil_or_concat' xs with rfl | ⟨zs, d, rfl⟩
  · have hi : i = b.offset := hxs
    have := hv.1
    omega
  · obtain ⟨-, hd, hstop⟩ := hxs.split
    have hstop : d.stop = b.offset := hstop
    have hdk : d.Covers k := by
      have := hd.least
      simp only [Block.Covers, Block.stop] at *
      omega
    rcases (List.isChain_append.mp hs).2.2 d List.getLast?_concat b rfl with ha | ha
    · rw [h.eq_of_covers (by simp) hc hdk hcov] at ha
      exact absurd (hcf.symm.trans ha) Bool.false_ne_true
    · exact absurd (hf.symm.trans ha) Bool.false_ne_true

theorem Tiling.maximalRun_iff (h : Tiling i bs e) (hs : Settled bs) :
    MaximalRun (Vacant (allocatedBlocks bs) i e) j k ↔
      ∃ b ∈ bs, b.allocated = false ∧ b.offset = j ∧ b.stop = k := by
  constructor
  · intro hr
    obtain ⟨b, hb, hf, hbj⟩ := h.vacant_iff.mp (hr.inside j (Nat.le_refl j) hr.lt)
    refine ⟨b, hb, hf, Nat.le_antisymm hbj.1 ?_, Nat.le_antisymm ?_ ?_⟩
    · by_contra hlt
      refine hr.below (j - 1) (by omega) (h.vacant_iff.mpr ⟨b, hb, hf, ?_⟩)
      simp only [Block.Covers] at *
      omega
    · by_contra hlt
      refine hr.above (h.vacant_iff.mpr ⟨b, hb, hf, ?_⟩)
      have := hr.lt
      simp only [Block.Covers] at *
      omega
    · by_contra hlt
      exact h.not_vacant_stop hs hb hf (hr.inside _ hbj.2.le (Nat.not_le.mp hlt))
  · rintro ⟨b, hb, hf, rfl, rfl⟩
    exact
      { lt := (h.proper hb).covers.2
        inside := fun k hj hk => h.vacant_iff.mpr ⟨b, hb, hf, hj, hk⟩
        below := fun k hk => h.not_vacant_below hs hb hf hk
        above := h.not_vacant_stop hs hb hf }

/-! ## The row of the gaps -/

theorem Tiling.subset_of_allocatedBlocks (h : Tiling i bs e) (h' : Tiling i cs e) (hs : Settled bs)
    (hs' : Settled cs) (ha : allocatedBlocks bs = allocatedBlocks cs) : bs ⊆ cs := by
  intro b hb
  cases hal : b.allocated with
  | true => exact (mem_allocatedBlocks.mp (ha ▸ mem_allocatedBlocks.mpr ⟨hb, hal⟩)).1
  | false =>
    have hrun := (h.maximalRun_iff hs).mpr ⟨b, hb, hal, rfl, rfl⟩
    rw [ha, h'.maximalRun_iff hs'] at hrun
    obtain ⟨c, hc, hf, ho, hstop⟩ := hrun
    have hsize : c.size = b.size := by
      simp only [Block.stop] at hstop
      omega
    have he : b = c := by rw [show b = ⟨b.offset, b.size, b.allocated⟩ from rfl, hal, ← ho, ← hsize, ← hf]
    exact he ▸ hc

theorem Tiling.eq_of_allocatedBlocks (h : Tiling i bs e) (h' : Tiling i cs e) (hs : Settled bs)
    (hs' : Settled cs) (ha : allocatedBlocks bs = allocatedBlocks cs) : bs = cs := by
  have hmem : ∀ b, b ∈ bs ↔ b ∈ cs := fun b =>
    ⟨fun hb => h.subset_of_allocatedBlocks h' hs hs' ha hb,
      fun hb => h'.subset_of_allocatedBlocks h hs' hs ha.symm hb⟩
  have hp : bs.Perm cs :=
    (List.perm_ext_iff_of_nodup h.nodup_offsets.of_map h'.nodup_offsets.of_map).mpr hmem
  refine hp.eq_of_pairwise (fun b c hb hc hbc hcb => ?_) h.pairwise h'.pairwise
  -- no block ends before it begins
  have := (h.proper hb).least
  have := (h'.proper hc).least
  simp only [Block.stop] at hbc hcb
  omega

theorem Tiling.eq_singleton (h : Tiling i bs e) (hs : Settled bs) (hlt : i < e)
    (ha : allocatedBlocks bs = []) : bs = [⟨i, e - i, false⟩] := by
  have hfree : ∀ b ∈ bs, b.allocated = false := by
    intro b hb
    by_contra hal
    have := mem_allocatedBlocks.mpr ⟨hb, by simpa using hal⟩
    rw [ha] at this
    cases this
  cases bs with
  | nil => exact absurd h (Nat.ne_of_lt hlt)
  | cons b bs =>
    cases bs with
    | nil =>
      obtain ⟨rfl, -, rfl⟩ := h
      rw [Block.stop, Nat.add_sub_cancel_left, ← hfree b (.head _)]
    | cons c bs =>
      rcases (List.isChain_cons_cons.mp hs).1 with hal | hal
      · exact absurd ((hfree b (.head _)).symm.trans hal) Bool.false_ne_true
      · exact absurd ((hfree c (.tail _ (.head _))).symm.trans hal) Bool.false_ne_true

end

end BoundaryTag
