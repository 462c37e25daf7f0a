import BoundaryTag.Proofs.Sessions

/-!
# What a session keeps

Once a heap is initialized, no call but initializing it again takes memory away from it or changes how far it
grows at a time. So it has at least its first chunk, and a chunk is never too large for a block.

Main statement: `Reachable.chunk_le`.
-/

namespace BoundaryTag

open HeapM

structure Heap.Stands (h h' : Heap) : Prop where
  initialized : h'.initialized = h.initialized
  chunkSize : h'.policy.chunkSize = h.policy.chunkSize
  size_le : h.arena.size ≤ h'.arena.size

theorem lasting_stands (frees : Bool) : Lasting frees Heap.Stands where
  refl _ := ⟨rfl, rfl, Nat.le_refl _⟩
  trans h h' := ⟨h'.initialized.trans h.initialized, h'.chunkSize.trans h.chunkSize,
    Nat.le_trans h.size_le h'.size_le⟩
  written _ _ hs := ⟨rfl, rfl, Nat.le_of_eq hs.symm⟩
  grown h n hn := ⟨rfl, rfl, by
    rw [Arena.size_grow hn]
    exact Nat.le_add_right _ _⟩
  relinked _ _ := ⟨rfl, rfl, Nat.le_refl _⟩
  recorded _ _ _ _ _ := ⟨rfl, rfl, Nat.le_refl _⟩

theorem Call.leads_stands {c : Call} (hc : c ≠ .init) : Leads Heap.Stands c.action := by
  by_cases hl : ∃ level, c = .setCheck level
  · obtain ⟨level, rfl⟩ := hl
    exact fun h => Meets.update_bind (Meets.pure ⟨rfl, rfl, Nat.le_refl _⟩)
  · exact (Call.made_action hc fun level e => hl ⟨level, e⟩).lasts (lasting_stands _)

section
variable {h₀ : Heap} {s : Session} {a : Answer}

theorem Session.chunk_le_of_init (ha : s.answer .init = .ok a)
    (hi : (s.next .init a).heap.initialized = true) :
    16 + (s.next .init a).heap.policy.chunkSize ≤ (s.next .init a).heap.arena.size := by
  have hm : Meets Call.init.action s.heap (fun _ h' => h'.initialized = true →
      16 + h'.policy.chunkSize ≤ h'.arena.size) NoFault := by
    apply (Heap.init_meets s.heap).then
    rintro (e | _) h' ⟨hpol, -, hq⟩
    · obtain ⟨-, rfl⟩ := hq
      exact Meets.pure fun hi => nomatch hi.symm.trans Heap.initialized_blank
    · obtain ⟨-, hl, -⟩ := hq
      have hend : 16 + s.heap.policy.chunkSize = h'.arena.size := hl.tiled.tiling.2.2
      exact Meets.pure fun _ => hpol ▸ Nat.le_of_eq hend
  exact hm.ok ha hi

theorem Reachable.chunk_le (hr : Reachable h₀ s) (hf : Fresh h₀) (hi : s.heap.initialized = true) :
    16 + s.heap.policy.chunkSize ≤ s.heap.arena.size := by
  induction hr with
  | start => cases hf <;> cases hi
  | @step s c a _ _ ha ih =>
    by_cases hc : c = .init
    · subst hc
      exact Session.chunk_le_of_init ha hi
    · obtain ⟨hready, hchunk, hsize⟩ := (Call.leads_stands hc s.heap).ok ha
      have := ih (hready.symm.trans hi)
      simp only [Session.next] at *
      omega

end

end BoundaryTag
