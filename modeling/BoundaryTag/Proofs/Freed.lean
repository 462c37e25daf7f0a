import BoundaryTag.Proofs.Lasting

/-!
# Freed blocks

Between one row of blocks and a later one, those allocations are lost at whose place nothing is allocated any
more. A block that grew over its neighbours still covers the place that it had, so it is not lost; one that
moved is.

`c.Frees c' n` says that from the counters `c` to `c'`, `n` of the payload bytes that were handed out came back.
Actions that free no block leave this balance as it is.

Main statements: `Tiling.freedBytes_of_lost`, `Tiling.freedBytes_of_covers`, `Made.retains`.
-/

namespace BoundaryTag

/-! ## Lost blocks -/

def Block.Covers (b : Block) (i : Nat) : Prop := b.offset ≤ i ∧ i < b.stop

instance (b : Block) (i : Nat) : Decidable (b.Covers i) :=
  inferInstanceAs (Decidable (b.offset ≤ i ∧ i < b.stop))

/-- Nothing is allocated at the place of `b`. -/
def Lost (bs' : List Block) (b : Block) : Prop := ∀ c ∈ allocatedBlocks bs', ¬ c.Covers b.offset

instance (bs' : List Block) (b : Block) : Decidable (Lost bs' b) :=
  inferInstanceAs (Decidable (∀ c ∈ allocatedBlocks bs', ¬ c.Covers b.offset))

/-- The payload bytes of the allocations that are lost between the blocks `bs` and `bs'`. -/
def freedBytes (bs bs' : List Block) : Nat :=
  (((allocatedBlocks bs).filter (Lost bs' ·)).map (·.size - 8)).sum

section
variable {i e : Nat} {bs bs' xs ys : List Block} {b c : Block}

theorem Block.Proper.covers (hb : b.Proper) : b.Covers b.offset := by
  have := hb.least
  simp only [Covers, stop]
  omega

theorem freedBytes_of_subset (hp : ∀ b ∈ bs, b.Proper) (hk : allocatedBlocks bs ⊆ allocatedBlocks bs') :
    freedBytes bs bs' = 0 := by
  have hnone : (allocatedBlocks bs).filter (Lost bs' ·) = [] := by
    refine List.filter_eq_nil_iff.mpr fun b hb hlost => ?_
    exact of_decide_eq_true hlost b (hk hb) (hp b (mem_allocatedBlocks.mp hb).1).covers
  rw [freedBytes, hnone]
  rfl

theorem freedBytes_middle (hb : b.allocated = true) :
    freedBytes (xs ++ b :: ys) bs' =
      (if Lost bs' b then b.size - 8 else 0) + freedBytes (xs ++ ys) bs' := by
  have hp := (((allocatedBlocks_middle_perm xs ys hb).filter (Lost bs' ·)).map (·.size - 8)).sum_nat
  rw [freedBytes, hp, freedBytes, List.filter_cons]
  by_cases hlost : Lost bs' b <;> simp [hlost]

theorem Tiling.freedBytes_rest (ht : Tiling i (xs ++ b :: ys) e)
    (hk : allocatedBlocks (xs ++ ys) ⊆ allocatedBlocks bs') : freedBytes (xs ++ ys) bs' = 0 := by
  refine freedBytes_of_subset (fun d hd => ht.proper ?_) hk
  exact (List.sublist_cons_self b ys).append_left xs |>.subset hd

theorem Tiling.freedBytes_of_covers (ht : Tiling i (xs ++ b :: ys) e) (hb : b.allocated = true)
    (hk : allocatedBlocks (xs ++ ys) ⊆ allocatedBlocks bs') (hc : c ∈ allocatedBlocks bs')
    (hcov : c.Covers b.offset) : freedBytes (xs ++ b :: ys) bs' = 0 := by
  rw [freedBytes_middle hb, if_neg fun hlost => hlost c hc hcov, ht.freedBytes_rest hk]

theorem Tiling.freedBytes_of_lost (ht : Tiling i (xs ++ b :: ys) e) (hb : b.allocated = true)
    (hk : allocatedBlocks (xs ++ ys) ⊆ allocatedBlocks bs') (hlost : Lost bs' b) :
    freedBytes (xs ++ b :: ys) bs' = b.size - 8 := by
  rw [freedBytes_middle hb, if_pos hlost, ht.freedBytes_rest hk, Nat.add_zero]

theorem Tiling.lost_of_subset (ht : Tiling i (xs ++ b :: ys) e)
    (hk : allocatedBlocks bs' ⊆ allocatedBlocks (xs ++ ys)) : Lost bs' b := by
  intro c hc hcov
  have := ht.beside (mem_allocatedBlocks.mp (hk hc)).1
  have := ht.split.2.1.least
  simp only [Block.Covers, Block.stop] at *
  omega

end

/-! ## The balance of the counters -/

namespace Counters

variable {c c' c'' : Counters} {m n : Nat}

/-- Stated with sums, since the differences would be cut off at zero. -/
def Frees (c c' : Counters) (n : Nat) : Prop :=
  c'.totalAllocated + c.allocated = c.totalAllocated + c'.allocated + n

theorem Frees.refl (c : Counters) : c.Frees c 0 := rfl

theorem Frees.trans (h : c.Frees c' m) (h' : c'.Frees c'' n) : c.Frees c'' (m + n) := by
  simp only [Frees] at *
  omega

theorem frees_charged (n : Nat) : c.Frees (c.charged n) 0 := by
  simp only [Frees, charged]
  omega

theorem frees_grown (n : Nat) : c.Frees (c.grown n) 0 := by
  simp only [Frees, grown]
  omega

theorem frees_released (hn : n ≤ c.allocated) : c.Frees (c.released n) n := by
  simp only [Frees, released]
  omega

end Counters

theorem Tiling.frees_self {i e : Nat} {bs : List Block} {c c' : Counters} (ht : Tiling i bs e)
    (hc : c' = c) : c.Frees c' (freedBytes bs bs) := by
  rw [hc, freedBytes_of_subset (fun _ => ht.proper) (List.Subset.refl _)]
  exact .refl c

theorem Counted.frees_released {h : Heap} {xs ys : List Block} {b : Block}
    (hc : Counted h (xs ++ b :: ys)) (hb : b.allocated = true) :
    h.counters.Frees (h.counters.released (b.size - 8)) (b.size - 8) := by
  apply Counters.frees_released
  rw [hc.allocated, payloads_perm (allocatedBlocks_middle_perm xs ys hb), List.map_cons, List.sum_cons]
  exact Nat.le_add_right _ _

/-! ## Actions that free nothing -/

namespace HeapM

variable {α : Type}

theorem lasting_frees : Lasting false fun h h' => h.counters.Frees h'.counters 0 := by
  refine .of_counters (R := fun c c' => c.Frees c' 0) .refl .trans fun {m c c'} hm e => ?_
  cases hm with
  | extension n =>
    rw [Counters.eq_extended e]
    exact .refl _
  | alloc n => exact Counters.eq_charged e ▸ Counters.frees_charged n
  | growth old new => exact Counters.eq_grown e ▸ Counters.frees_grown _
  | release n hn => cases hn

theorem Made.retains {m : HeapM α} (hm : Made false m) :
    Leads (fun h h' => h.counters.Frees h'.counters 0) m := hm.lasts lasting_frees

theorem Meets.and_retains {m : HeapM α} {h : Heap} {Q : α → Heap → Prop} {E : Fault → Heap → Prop}
    (hq : Meets m h Q E) (hm : Made false m) :
    Meets m h (fun a h' => Q a h' ∧ h.counters.Frees h'.counters 0) E :=
  hq.and (hm.retains h)

end HeapM

end BoundaryTag
