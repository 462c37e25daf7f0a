import BoundaryTag.Proofs.Undone
import Mathlib.Algebra.Order.BigOperators.Group.List
import Mathlib.Algebra.Order.Group.Nat

/-!
# Requests after a block was given back

A block that is given back is joined with the free blocks beside it, and none of them gets smaller by that. So
the heap still has room for all that it had room for, and now also for what fits into the block.

Main statement: `reachable_free_malloc`.
-/

namespace BoundaryTag

/-- The heap `h'` with the blocks `bs'` has all the room that `h` has with the blocks `bs`: it can grow as far,
and every free block has one at least as large. -/
structure Roomier (h : Heap) (bs : List Block) (h' : Heap) (bs' : List Block) : Prop where
  policy : h'.policy = h.policy
  top : h'.arena.top = h.arena.top
  remaining : h'.arena.remaining = h.arena.remaining
  covered : ∀ f ∈ bs, f.allocated = false → ∃ g ∈ bs', g.allocated = false ∧ f.size ≤ g.size

/-- A request for `n` bytes is met, with the one proviso that the cumulative counters stay below `2 ^ 64`
(`Call.Affordable`). -/
def Session.Grants (s : Session) (n : Nat) : Prop :=
  (∃ q, s.answer (.malloc n) = .ok (.handle (some q))) ↔ (Call.malloc n).Affordable s.heap

open HeapM

section
variable {h h' h₀ : Heap} {bs bs' xs ys : List Block} {b : Block} {L : List Nat} {s : Session}
   {p q : Handle} {n size : Nat}

/-! ## Room -/

theorem Roomier.shortage?_eq_none (hr : Roomier h bs h' bs') (hno : h.shortage? bs size = none) :
    h'.shortage? bs' size = none := by
  -- without a fit the two heaps have to grow, and they can grow equally far
  by_cases hfit : ∃ g ∈ bs', g.allocated = false ∧ size ≤ g.size
  · obtain ⟨g, hg, hf, hle⟩ := hfit
    exact Heap.shortage?_eq_none_of_fit hg hf hle
  have hnone' : ∀ g ∈ bs', g.allocated = false → g.size < size := fun g hg hf =>
    Nat.not_le.mp fun hle => hfit ⟨g, hg, hf, hle⟩
  have hnone : ∀ f ∈ bs, f.allocated = false → f.size < size := by
    intro f hm hf
    obtain ⟨g, hg, hgf, hle⟩ := hr.covered f hm hf
    exact Nat.lt_of_le_of_lt hle (hnone' g hg hgf)
  rw [Heap.shortage?_of_no_fit hnone', hr.policy, Heap.refused?_congr hr.top hr.remaining,
    ← Heap.shortage?_of_no_fit hnone]
  exact hno

theorem Roomier.denied?_eq_none (hr : Roomier h bs h' bs') (hno : h.denied? bs n = none) :
    h'.denied? bs' n = none := by
  unfold Heap.denied? at hno ⊢
  cases hsize : blockSizeFor n with
  | error e =>
    rw [hsize] at hno
    cases hno
  | ok size =>
    rw [hsize] at hno
    exact hr.shortage?_eq_none hno

theorem Laid.exists_blockSizeFor (hl : Laid h bs L) (hb : b ∈ bs) (hle : n ≤ b.size - 8) :
    ∃ size, blockSizeFor n = .ok size ∧ size ≤ b.size := by
  have hp := hl.tiled.tiling.proper hb
  have hleast := hp.least
  have hmost := hp.most
  have hround : alignUp (n + 8) ≤ b.size := (isLeast_alignUp (n + 8)).2 ⟨hp.dvd, by omega⟩
  exact ⟨_, blockSizeFor_eq_ok_iff.mpr ⟨rfl, Nat.le_trans hround hmost⟩, hround⟩

theorem size_le_joined {f : Block} (hf : f ∈ bs) : f.size ≤ (joined bs).size :=
  List.single_le_sum (fun _ _ => Nat.zero_le _) _ (List.mem_map_of_mem hf)

theorem exists_free_coalesced {f : Block} (hm : f ∈ xs ++ b :: ys) (hf : f.allocated = false) :
    ∃ g ∈ belowFree xs ++ [joined (freeRun xs b ys)] ++ aboveFree ys,
      g.allocated = false ∧ f.size ≤ g.size := by
  rw [← freeRun_covers, List.mem_append, List.mem_append] at hm
  obtain (hm | hm) | hm := hm
  · exact ⟨f, by simp [hm], hf, Nat.le_refl _⟩
  · exact ⟨_, by simp, rfl, size_le_joined hm⟩
  · exact ⟨f, by simp [hm], hf, Nat.le_refl _⟩

/-! ## Giving back -/

theorem Sound.roomier_free (hs : Sound h (xs ++ b :: ys) L) (hc : h.arena.ceiling ≤ maxBlockSize)
    (hb : b.allocated = true) (hp : p.offset = b.offset) :
    Meets (Call.free p).action h
      (fun a h' => a = .done ∧ ∃ bs' L', Sound h' bs' L' ∧ Roomier h (xs ++ b :: ys) h' bs' ∧
        ∃ g ∈ bs', g.allocated = false ∧ b.size ≤ g.size)
      NoFault := by
  have hfree := (Heap.free_meets hs hb hp).mono (fun _ _ => id) fun e _ => not_oversize hc e
  apply hfree.then
  rintro _ h' ⟨hs', hf, hcnt⟩
  have hsize : h'.arena.size = h.arena.size := by
    rw [← hs'.counted.claimed, ← hs.counted.claimed, hcnt]
    rfl
  refine Meets.pure ⟨rfl, _, _, hs',
    { policy := hf.policy
      top := by rw [hs'.laid.tiled.top_eq, hs.laid.tiled.top_eq, hsize]
      remaining := by rw [Arena.remaining_eq, Arena.remaining_eq, hf.ceiling, hsize]
      covered := ?covered },
    exists_free_coalesced (f := b.freed) List.mem_append_cons_self rfl⟩
  case covered =>
    intro f hm hff
    -- `b` was allocated, so any other free block stands beside `b.freed` as it stood beside `b`
    have hne : f ≠ b := by
      rintro rfl
      cases hb.symm.trans hff
    refine exists_free_coalesced ?_ hff
    simp only [List.mem_append, List.mem_cons, hne, false_or] at hm ⊢
    exact hm.imp_right .inr

/-! ## Requests -/

theorem Reachable.grants (hr : Reachable h₀ s) (hf : Fresh h₀) (hc : h₀.arena.ceiling ≤ maxBlockSize)
    (hs : Sound s.heap bs L) (hn : 1 ≤ n) (hno : s.heap.denied? bs n = none) : s.Grants n := by
  obtain ⟨hv, hceil⟩ := hr.valid hf
  rw [← hceil] at hc
  obtain ⟨bs', L', hs', hh⟩ := hv.sound hs.laid.initialized
  obtain rfl := Except.ok.inj (hs'.laid.blocks_eq.symm.trans hs.laid.blocks_eq)
  constructor
  · rintro ⟨q, ha⟩
    exact Call.affordable_of_answer nofun (hr.room hf) ha
  · intro ha
    obtain ⟨a, hres⟩ := hs.answers (c := .malloc n) hh hc trivial nofun ha id
    have hm := Call.malloc_decides hs hn
    rw [hno] at hm
    obtain ⟨q, rfl, -⟩ := hm.ok hres
    exact ⟨q, hres⟩

theorem Granted.top_eq_of_fit (hg : Granted h bs L n q h') (hs : Sound h bs L) (hn : 1 ≤ n)
    (hsize : blockSizeFor n = .ok size) {g : Block} (hm : g ∈ bs) (hf : g.allocated = false)
    (hle : size ≤ g.size) : h'.arena.top = h.arena.top := by
  obtain ⟨size', xs, b, ys, k, hsize', hchosen, -, hs', -, hgrown⟩ := hg
  obtain rfl := Except.ok.inj (hsize'.symm.trans hsize)
  have hgrows := hchosen.grows_iff ((blockSizeFor_spec hsize').2.2.2 hn)
  have hk : ¬ 0 < k := fun hk => absurd hle (Nat.not_le.mpr (hgrows.mp hk g hm hf))
  rw [hs'.laid.tiled.top_eq, hs.laid.tiled.top_eq, hgrown]
  omega

/-- Giving an allocation back, and requesting afterwards what fits into it or what was to be had before. -/
theorem reachable_free_malloc (hf : Fresh h₀) (hc : h₀.arena.ceiling ≤ maxBlockSize)
    (hr : Reachable h₀ s) (hp : s.Holds p) (hn : 1 ≤ n) :
    s.answer (.free p) = .ok .done ∧
      let t := s.next (.free p) .done
      (∃ usable, s.heap.usableSize p = .ok usable ∧ (n ≤ usable → t.Grants n ∧
        ∀ q, t.answer (.malloc n) = .ok (.handle (some q)) →
          (t.next (.malloc n) (.handle (some q))).heap.arena.top = s.heap.arena.top)) ∧
      ((∃ q, s.answer (.malloc n) = .ok (.handle (some q))) → t.Grants n) := by
  obtain ⟨hv, hceil⟩ := hr.valid hf
  obtain ⟨xs, b, ys, L, hs, hb, hpb⟩ := hv.exists_block hp
  have hbm : b ∈ xs ++ b :: ys := List.mem_append_cons_self
  obtain ⟨_, hdone, rfl, bs', L', hs', hroomier, g, hg, hgf, hle⟩ :=
    (hs.roomier_free (hceil.trans_le hc) hb hpb).exists_ok
  have ht : Reachable h₀ (s.next (.free p) .done) := .step hr hp hdone
  refine ⟨hdone, ⟨_, hs.laid.usableSize_eq hbm hpb, fun hfit => ?fits⟩, fun hq => ?had⟩
  case fits =>
    obtain ⟨size, hsize, hround⟩ := hs.laid.exists_blockSizeFor hbm hfit
    have hbig := Nat.le_trans hround hle
    refine ⟨ht.grants hf hc hs' hn ?_, fun q ha => ?_⟩
    · rw [Heap.denied?, hsize]
      exact Heap.shortage?_eq_none_of_fit hg hgf hbig
    · obtain ⟨-, hgranted⟩ := (Call.malloc_grants hs' hn).ok ha q rfl
      exact (hgranted.top_eq_of_fit hs' hn hsize hg hgf hbig).trans hroomier.top
  case had =>
    obtain ⟨q, ha⟩ := hq
    obtain ⟨hno, -⟩ := (Call.malloc_grants hs hn).ok ha q rfl
    exact ht.grants hf hc hs' hn (hroomier.denied?_eq_none hno)

/-- The arena is full, and its only block is given back. -/
theorem reachable_free_malloc_full : ∃ s : Session,
    Reachable (Heap.new (Arena.growable 80) .fineGrained) s ∧ s.answer (.malloc 56) = .ok (.handle none) ∧
    let t := s.next (.free ⟨16⟩) .done
    t.Grants 56 ∧ t.answer (.malloc 56) = .ok (.handle (some ⟨16⟩)) ∧
      (t.next (.malloc 56) (.handle (some ⟨16⟩))).heap.arena.top = s.heap.arena.top := by
  let s₀ : Session := ⟨Heap.new (Arena.growable 80) .fineGrained, []⟩
  let s₁ := s₀.next .init (.ready (.ok ()))
  let s₂ := s₁.next (.malloc 56) (.handle (some ⟨16⟩))
  have h₁ : Reachable s₀.heap s₁ := .step .start trivial (by decide +kernel)
  have h₂ : Reachable s₀.heap s₂ := .step h₁ trivial (by decide +kernel)
  obtain ⟨-, ⟨usable, husable, hfits⟩, -⟩ := reachable_free_malloc (p := ⟨16⟩) (n := 56)
    (.growable _ _) (by decide) h₂ ⟨_, .head _, rfl⟩ (by decide)
  have hsize : s₂.heap.usableSize ⟨16⟩ = .ok 56 := by decide +kernel
  obtain rfl := Except.ok.inj (husable.symm.trans hsize)
  obtain ⟨hgrants, htop⟩ := hfits (Nat.le_refl _)
  have hagain : (s₂.next (.free ⟨16⟩) .done).answer (.malloc 56) = .ok (.handle (some ⟨16⟩)) := by
    decide +kernel
  exact ⟨s₂, h₂, by decide +kernel, hgrants, hagain, htop _ hagain⟩

end

end BoundaryTag
