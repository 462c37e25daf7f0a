import BoundaryTag.Proofs.Sessions
import Mathlib.Data.List.Find

/-!
# Which free block is picked

The search goes through the free list once. It keeps the smallest block so far that is large enough, and ends
early at one that wastes little. What it comes to is told here without the loop: the first block that wastes no
more than the threshold, if there is one, and otherwise the first of the smallest ones.

Main statement: `reachable_findFit`.
-/

namespace BoundaryTag

def Heap.withFit (h : Heap) (t : Nat) : Heap := { h with policy := h.policy.withFit t }

def Block.Close (t size : Nat) (b : Block) : Prop := size ≤ b.size ∧ b.size - size ≤ t

instance (t size : Nat) : DecidablePred (Block.Close t size) := fun b =>
  inferInstanceAs (Decidable (size ≤ b.size ∧ b.size - size ≤ t))

/-- What is picked for `size` bytes from the free blocks `fs`, where a block that wastes at most `t` bytes will
do. -/
inductive Fittest (t size : Nat) (fs : List Block) : Option Block → Prop
  | nothing : (∀ f ∈ fs, f.size < size) → Fittest t size fs none
  | close {f : Block} : fs.find? (·.Close t size) = some f → Fittest t size fs (some f)
  | least {f : Block} : (∀ g ∈ fs, ¬ g.Close t size) → size ≤ f.size →
      (∀ g ∈ fs, size ≤ g.size → f.size ≤ g.size) → fs.find? (·.size = f.size) = some f →
      Fittest t size fs (some f)

section
variable {h h₀ : Heap} {bs us fs : List Block} {f : Block} {r r' best : Option Block} {L : List Nat}
  {s : Session} {t size : Nat}

/-! ## The policy -/

theorem Block.close_of_find? (hf : fs.find? (·.Close t size) = some f) : f ∈ fs ∧ f.Close t size :=
  ⟨List.mem_of_find?_eq_some hf, by simpa using List.find?_some hf⟩

theorem Fittest.holds (hf : Fittest t size fs (some f)) : f ∈ fs ∧ size ≤ f.size := by
  cases hf with
  | close hfind => exact ⟨(Block.close_of_find? hfind).1, (Block.close_of_find? hfind).2.1⟩
  | least _ hle _ hfind => exact ⟨List.mem_of_find?_eq_some hfind, hle⟩

theorem Fittest.eq_none_iff (hr : Fittest t size fs r) : r = none ↔ ∀ f ∈ fs, f.size < size := by
  cases r with
  | none =>
    cases hr with
    | nothing hsmall => exact ⟨fun _ => hsmall, fun _ => rfl⟩
  | some f =>
    obtain ⟨hm, hle⟩ := hr.holds
    exact ⟨nofun, fun hsmall => absurd hle (Nat.not_le.mpr (hsmall f hm))⟩

theorem Fittest.unique (hr : Fittest t size fs r) (hr' : Fittest t size fs r') : r = r' := by
  cases hr with
  | nothing hsmall => exact (hr'.eq_none_iff.mpr hsmall).symm
  | @close f hfind =>
    obtain ⟨hm, hc⟩ := Block.close_of_find? hfind
    cases hr' with
    | nothing hsmall => exact absurd hc.1 (Nat.not_le.mpr (hsmall f hm))
    | close hfind' => exact hfind.symm.trans hfind'
    | least hfar => exact absurd hc (hfar f hm)
  | @least f hfar hle hmin hfind =>
    have hm := List.mem_of_find?_eq_some hfind
    cases hr' with
    | nothing hsmall => exact absurd hle (Nat.not_le.mpr (hsmall f hm))
    | @close g hfind' =>
      obtain ⟨hm', hc⟩ := Block.close_of_find? hfind'
      exact absurd hc (hfar g hm')
    | @least g _ hle' hmin' hfind' =>
      have hsize : f.size = g.size :=
        Nat.le_antisymm (hmin g (List.mem_of_find?_eq_some hfind') hle') (hmin' f hm hle)
      rw [← hsize] at hfind'
      exact hfind.symm.trans hfind'

theorem Fittest.le_of_exact (hf : Fittest 0 size fs (some f)) :
    ∀ g ∈ fs, size ≤ g.size → f.size ≤ g.size := by
  cases hf with
  | close hfind =>
    obtain ⟨-, hsize, hwaste⟩ := Block.close_of_find? hfind
    intro g _ hle
    omega
  | least _ _ hmin _ => exact hmin

theorem Fittest.eq_find? (hr : Fittest t size fs r) (ht : ∀ f ∈ fs, f.size - size ≤ t) :
    r = fs.find? (size ≤ ·.size) := by
  have hclose : ∀ f ∈ fs, (f.Close t size ↔ size ≤ f.size) := fun f hf =>
    ⟨And.left, fun hle => ⟨hle, ht f hf⟩⟩
  have hfind : fs.find? (·.Close t size) = fs.find? (size ≤ ·.size) :=
    List.find?_congr fun f hf => by simp [hclose f hf]
  cases hr with
  | nothing hsmall => exact (List.find?_eq_none.mpr fun f hf => by simpa using hsmall f hf).symm
  | close he => exact he.symm.trans hfind
  | @least f hfar hle _ he =>
    have hm := List.mem_of_find?_eq_some he
    exact absurd ((hclose f hm).mpr hle) (hfar f hm)

/-! ## The search -/

theorem Fittest.pass (hb : Fittest t size us best) (hfar : ∀ u ∈ us, ¬ u.Close t size)
    (hf : size ≤ f.size → ∃ b ∈ best, b.size ≤ f.size) :
    Fittest t size (us ++ [f]) best ∧ ∀ u ∈ us ++ [f], ¬ u.Close t size := by
  have hfar' : ∀ u ∈ us ++ [f], ¬ u.Close t size := by
    refine List.forall_mem_append.mpr ⟨hfar, List.forall_mem_singleton.mpr fun hc => ?_⟩
    obtain ⟨b, rfl, hle⟩ := hf hc.1
    -- the best block so far is smaller still, and was not close
    obtain ⟨hm, hsize⟩ := hb.holds
    exact hfar b hm ⟨hsize, by have := hc.2; omega⟩
  refine ⟨?_, hfar'⟩
  cases hb with
  | nothing hsmall =>
    refine .nothing (List.forall_mem_append.mpr ⟨hsmall, List.forall_mem_singleton.mpr ?_⟩)
    by_contra hle
    obtain ⟨_, hn, -⟩ := hf (Nat.not_lt.mp hle)
    cases hn
  | @close b hfind =>
    obtain ⟨hm, hc⟩ := Block.close_of_find? hfind
    exact absurd hc (hfar b hm)
  | @least b _ hle hmin hfind =>
    refine .least hfar' hle (List.forall_mem_append.mpr ⟨hmin, List.forall_mem_singleton.mpr ?_⟩) ?_
    · intro hsize
      obtain ⟨_, hb, hle⟩ := hf hsize
      rwa [← Option.some.inj hb] at hle
    · rw [List.find?_append, hfind, Option.some_or]

theorem Fittest.improve (hb : Fittest t size us best) (hfar : ∀ u ∈ us, ¬ u.Close t size)
    (hle : size ≤ f.size) (hf : ∀ b ∈ best, f.size < b.size) (hfc : ¬ f.Close t size) :
    Fittest t size (us ++ [f]) (some f) ∧ ∀ u ∈ us ++ [f], ¬ u.Close t size := by
  have hlarger : ∀ u ∈ us, size ≤ u.size → f.size < u.size := by
    intro u hu hsize
    cases hb with
    | nothing hsmall => exact absurd hsize (Nat.not_le.mpr (hsmall u hu))
    | @close b hfind =>
      obtain ⟨hm, hc⟩ := Block.close_of_find? hfind
      exact absurd hc (hfar b hm)
    | @least b _ _ hmin _ => exact Nat.lt_of_lt_of_le (hf b rfl) (hmin u hu hsize)
  have hfar' : ∀ u ∈ us ++ [f], ¬ u.Close t size :=
    List.forall_mem_append.mpr ⟨hfar, List.forall_mem_singleton.mpr hfc⟩
  have hnone : us.find? (·.size = f.size) = none := by
    refine List.find?_eq_none.mpr fun u hu => ?_
    simp only [decide_eq_true_eq]
    intro he
    exact absurd (hlarger u hu (he ▸ hle)) (by omega)
  refine ⟨.least hfar' hle (List.forall_mem_append.mpr
    ⟨fun u hu hsize => Nat.le_of_lt (hlarger u hu hsize), List.forall_mem_singleton.mpr fun _ => ?_⟩) ?_,
    hfar'⟩
  · exact Nat.le_refl _
  · rw [List.find?_append, hnone, Option.none_or]
    simp

/-- The invariant of the search: `best` was picked from the blocks `us` before, and none of these was close. -/
theorem Laid.betterFit_fittest (hl : Laid h bs L) (hfs : ∀ f ∈ fs, f ∈ bs ∧ f.allocated = false)
    (hb : Fittest h.policy.fitThreshold size us best)
    (hfar : ∀ u ∈ us, ¬ u.Close h.policy.fitThreshold size) :
    ∃ r, h.betterFit size (best.map fun b => (b.offset, b.size - size)) (fs.map (·.offset)) =
        .ok (r.map (·.offset)) ∧ Fittest h.policy.fitThreshold size (us ++ fs) r := by
  induction fs generalizing us best with
  | nil =>
    refine ⟨best, ?_, by rwa [List.append_nil]⟩
    rw [List.map_nil, Heap.betterFit, Option.map_map]
    rfl
  | cons f fs ih =>
    obtain ⟨⟨hm, hfree⟩, hfs⟩ := List.forall_mem_cons.mp hfs
    have hp := hl.tiled.tiling.proper hm
    have hstep : ∀ best : Option (Nat × Nat), h.betterFit size best (f.offset :: fs.map (·.offset)) =
        if f.tag.allocated ∨ f.tag.size < size then h.betterFit size best (fs.map (·.offset))
        else if best.all (f.tag.size - size < ·.2) then
          if f.tag.size - size ≤ h.policy.fitThreshold then .ok (some f.offset)
          else h.betterFit size (some (f.offset, f.tag.size - size)) (fs.map (·.offset))
        else h.betterFit size best (fs.map (·.offset)) := by
      intro best
      rw [Heap.betterFit, hl.tiled.header hm]
      rfl
    rw [List.map_cons, hstep, hp.allocated_tag, hp.size_tag, hfree, List.append_cons]
    simp only [Bool.false_eq_true, false_or]
    by_cases hlt : f.size < size
    · rw [if_pos hlt]
      obtain ⟨hb', hfar'⟩ := hb.pass hfar fun hle => absurd hle (Nat.not_le.mpr hlt)
      exact ih hfs hb' hfar'
    have hle := Nat.not_lt.mp hlt
    rw [if_neg hlt]
    have hall : (best.map fun b => (b.offset, b.size - size)).all (f.size - size < ·.2) = true ↔
        ∀ b ∈ best, f.size < b.size := by
      cases best with
      | none => simp
      | some b =>
        have := hb.holds.2
        simp only [Option.map_some, Option.all_some, decide_eq_true_eq, Option.mem_def,
          Option.some.injEq, forall_eq']
        omega
    by_cases hbetter : ∀ b ∈ best, f.size < b.size
    · rw [if_pos (hall.mpr hbetter)]
      by_cases hc : f.size - size ≤ h.policy.fitThreshold
      · rw [if_pos hc]
        have hnone : us.find? (·.Close h.policy.fitThreshold size) = none :=
          List.find?_eq_none.mpr fun u hu => by simpa using hfar u hu
        refine ⟨some f, rfl, .close ?_⟩
        rw [List.append_assoc, List.find?_append, hnone, Option.none_or, List.singleton_append]
        exact List.find?_cons_of_pos (decide_eq_true ⟨hle, hc⟩)
      · rw [if_neg hc]
        obtain ⟨hb', hfar'⟩ := hb.improve hfar hle hbetter fun hcl => hc hcl.2
        exact ih hfs hb' hfar'
    · rw [if_neg (hall.not.mpr hbetter)]
      obtain ⟨hb', hfar'⟩ := hb.pass hfar fun _ => by simpa using hbetter
      exact ih hfs hb' hfar'

theorem Laid.exists_listed (hl : Laid h bs L) :
    ∃ fs : List Block, fs.Perm (freeBlocks bs) ∧ L = fs.map (·.offset) := by
  have hp : Relation.Comp (· = List.map Block.offset ·) List.Perm L (freeBlocks bs) := by
    rw [List.eq_map_comp_perm]
    exact hl.listed
  obtain ⟨fs, hL, hfs⟩ := hp
  exact ⟨fs, hfs, hL⟩

theorem Laid.findFit_fittest (hl : Laid h bs L) (hfs : fs.Perm (freeBlocks bs))
    (hL : L = fs.map (·.offset)) (t size : Nat) :
    ∃ r, (h.withFit t).findFit size = .ok (r.map (·.offset)) ∧ Fittest t size fs r := by
  have hl' : Laid (h.withFit t) bs L := ⟨hl.initialized, hl.tiled, hl.list, hl.table, hl.listed⟩
  have hnone : Fittest t size [] none := .nothing (List.forall_mem_nil _)
  rw [Heap.findFit, hl'.list.toList_eq, hL]
  exact hl'.betterFit_fittest (fun f hf => mem_freeBlocks.mp (hfs.mem_iff.mp hf)) hnone
    (List.forall_mem_nil _)

theorem reachable_findFit (hf : Fresh h₀) (hr : Reachable h₀ s) (hi : s.heap.initialized = true)
    (t size : Nat) :
    ∃ bs fs r, s.heap.blocks = .ok bs ∧ fs.Perm (freeBlocks bs) ∧
      s.heap.freeList.toList = fs.map (·.offset) ∧
      (s.heap.withFit t).findFit size = .ok (r.map (·.offset)) ∧ (∀ r', Fittest t size fs r' ↔ r' = r) ∧
      (r = none ↔ ∀ f ∈ bs, f.allocated = false → f.size < size) ∧
      (t = 0 → ∀ f ∈ r, size ≤ f.size ∧ ∀ g ∈ fs, size ≤ g.size → f.size ≤ g.size) ∧
      (t = addressSpace - 1 → r = fs.find? (size ≤ ·.size)) := by
  obtain ⟨bs, L, hs, -⟩ := (hr.valid hf).1.sound hi
  obtain ⟨fs, hfs, hL⟩ := hs.laid.exists_listed
  obtain ⟨r, hfit, hr'⟩ := hs.laid.findFit_fittest hfs hL t size
  have hmem : ∀ f, f ∈ fs ↔ f ∈ bs ∧ f.allocated = false := fun f => hfs.mem_iff.trans mem_freeBlocks
  refine ⟨bs, fs, r, hs.laid.blocks_eq, hfs, hs.laid.list.toList_eq.trans hL, hfit,
    fun r' => ⟨fun h' => h'.unique hr', fun he => he ▸ hr'⟩, ?none, ?exact, ?any⟩
  case none =>
    rw [hr'.eq_none_iff]
    exact ⟨fun hsmall f hm hfree => hsmall f ((hmem f).mpr ⟨hm, hfree⟩), fun hsmall f hm =>
      hsmall f ((hmem f).mp hm).1 ((hmem f).mp hm).2⟩
  case exact =>
    rintro rfl f rfl
    exact ⟨hr'.holds.2, hr'.le_of_exact⟩
  case any =>
    rintro rfl
    refine hr'.eq_find? fun f hm => ?_
    have hmost := (hs.laid.tiled.tiling.proper ((hmem f).mp hm).1).most
    simp only [maxBlockSize, addressSpace] at *
    omega

/-- The first of two free blocks is picked, although the second one fits without waste. -/
theorem reachable_findFit_close : ∃ (s : Session) (fs : List Block) (r : Option Block),
    Reachable (Heap.new (Arena.growable 100) .fineGrained) s ∧
      s.heap.freeList.toList = [48, 16] ∧ s.heap.freeList.toList = fs.map (·.offset) ∧
      r.map (·.offset) = some 48 ∧ ∀ r', Fittest 16 16 fs r' ↔ r' = r := by
  let s₁ := Session.pairHeld.next (.malloc 8) (.handle (some ⟨48⟩))
  let s₂ := s₁.next (.free ⟨16⟩) .done
  let s₃ := s₂.next (.free ⟨48⟩) .done
  have h₁ : Reachable _ s₁ := .step Session.reachable_pairHeld trivial (by decide +kernel)
  have h₂ : Reachable _ s₂ :=
    .step h₁ ⟨{ handle := ⟨16⟩, size := 8 }, .tail _ (.tail _ (.head _)), rfl⟩ (by decide +kernel)
  have h₃ : Reachable _ s₃ :=
    .step h₂ ⟨{ handle := ⟨48⟩, size := 8 }, .head _, rfl⟩ (by decide +kernel)
  obtain ⟨bs, fs, r, -, -, hlist, hfit, hr, -⟩ :=
    reachable_findFit (.growable _ _) h₃ (by decide +kernel) 16 16
  have hfound : (s₃.heap.withFit 16).findFit 16 = .ok (some 48) := by decide +kernel
  exact ⟨s₃, fs, r, h₃, by decide +kernel, hlist, Except.ok.inj (hfit.symm.trans hfound), hr⟩

end

end BoundaryTag
