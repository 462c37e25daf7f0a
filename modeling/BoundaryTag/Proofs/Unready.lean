import BoundaryTag.Proofs.Extend

/-!
# When initializing fails

Initializing takes memory twice: first for the sentinels, which are written at once, and then for a chunk. It is
refused if there is no memory for the one or the other, or if the chunk is too large for a block. Only the first of
these refusals comes before anything is written. After the others the sentinels are there, and their bytes are
counted, although the heap is not initialized.

Main statements: `Heap.unready?_eq`, `init_untouched_iff`.
-/

namespace BoundaryTag

/-- Why initializing a heap is refused. -/
inductive Heap.Unready (h : Heap) : AllocError → Prop
  | sentinels : h.arena.ceiling < 16 → Unready h (.arenaExhausted 16 h.arena.ceiling)
  | oversized : 16 ≤ h.arena.ceiling → maxBlockSize < h.policy.chunkSize →
      Unready h (.sizeOverflow h.policy.chunkSize)
  | chunk : 16 ≤ h.arena.ceiling → h.policy.chunkSize ≤ maxBlockSize →
      h.arena.ceiling - 16 < h.policy.chunkSize →
      Unready h (.arenaExhausted h.policy.chunkSize (h.arena.ceiling - 16))

/-- The heap has no memory, and no count of any. -/
structure Heap.Untouched (h : Heap) : Prop where
  uninitialized : h.initialized = false
  top : h.arena.top = 0
  size : h.arena.size = 0
  freeList : h.freeList.toList = []
  claimed : h.counters.claimed = 0
  extensions : h.counters.extensions = 0

/-- The heap has memory for the sentinels, which are written there, and is still not initialized. -/
structure Heap.HalfLaid (h : Heap) : Prop where
  uninitialized : h.initialized = false
  top : h.arena.top = 16
  size : h.arena.size = 16
  prologue : h.arena.tag? 4 = some (Tag.make 8 true) ∧ h.arena.tag? 8 = some (Tag.make 8 true)
  epilogue : h.arena.tag? 12 = some Tag.epilogue
  freeList : h.freeList.toList = []
  claimed : h.counters.claimed = 16
  extensions : h.counters.extensions = 1

open HeapM

section
variable {h : Heap} {e : AllocError}

/-! ## Refusals -/

theorem Arena.remaining_reset (a : Arena) : a.reset.remaining = a.ceiling := by
  rw [remaining_eq, ceiling_reset, size_reset, Nat.sub_zero]

theorem Heap.refused?_bare (hc : 16 ≤ h.arena.ceiling) :
    h.bare.refused? h.policy.chunkSize =
      if maxBlockSize < h.policy.chunkSize then some (.sizeOverflow h.policy.chunkSize)
      else if h.arena.ceiling - 16 < h.policy.chunkSize then
        some (.arenaExhausted h.policy.chunkSize (h.arena.ceiling - 16))
      else none := by
  have hrem : 16 ≤ h.arena.reset.remaining := (Arena.remaining_reset _).symm ▸ hc
  have htop : h.bare.arena.top = 16 := (laid_bare hrem).tiled.top_eq.trans (size_bare hrem)
  have hleft : h.bare.arena.remaining = h.arena.ceiling - 16 := by
    rw [Arena.remaining_eq, ceiling_bare hrem, size_bare hrem]
  rw [Heap.refused?, alignUp_eq_self h.policy.chunk_dvd, htop, Arena.refusal?, hleft]
  by_cases hlarge : maxBlockSize < h.policy.chunkSize
  · rw [if_pos hlarge, if_pos hlarge]
  · have hmax : 16 + maxBlockSize ≤ Arena.maxSize := by decide
    rw [if_neg hlarge, if_neg hlarge, if_neg (by omega)]

theorem Heap.unready?_eq (h : Heap) : h.unready? =
    if h.arena.ceiling < 16 then some (.arenaExhausted 16 h.arena.ceiling)
    else if maxBlockSize < h.policy.chunkSize then some (.sizeOverflow h.policy.chunkSize)
    else if h.arena.ceiling - 16 < h.policy.chunkSize then
      some (.arenaExhausted h.policy.chunkSize (h.arena.ceiling - 16))
    else none := by
  rw [unready?, Arena.refusal?, Arena.remaining_reset, sentinelBytes]
  split
  · rw [Option.some_or]
  · next hc => rw [Option.none_or, refused?_bare (Nat.not_lt.mp hc)]

theorem Heap.unready?_eq_some_iff : h.unready? = some e ↔ h.Unready e := by
  rw [h.unready?_eq]
  constructor
  · intro he
    split at he
    · next hc => exact Option.some.inj he ▸ .sentinels hc
    split at he
    · next hc hk => exact Option.some.inj he ▸ .oversized (Nat.not_lt.mp hc) hk
    split at he
    · next hc hk hrem => exact Option.some.inj he ▸ .chunk (Nat.not_lt.mp hc) (Nat.not_lt.mp hk) hrem
    · cases he
  · intro hu
    cases hu with
    | sentinels hc => rw [if_pos hc]
    | oversized hc hk => rw [if_neg (Nat.not_lt.mpr hc), if_pos hk]
    | chunk hc hk hrem => rw [if_neg (Nat.not_lt.mpr hc), if_neg (Nat.not_lt.mpr hk), if_pos hrem]

theorem Heap.unready?_eq_none_iff : h.unready? = none ↔
    16 ≤ h.arena.ceiling ∧ h.policy.chunkSize ≤ maxBlockSize ∧
      h.policy.chunkSize ≤ h.arena.ceiling - 16 := by
  rw [h.unready?_eq, ← Nat.not_lt, ← Nat.not_lt, ← Nat.not_lt]
  by_cases hc : h.arena.ceiling < 16
  · simp [hc]
  · by_cases hk : maxBlockSize < h.policy.chunkSize
    · simp [hc, hk]
    · by_cases hrem : h.arena.ceiling - 16 < h.policy.chunkSize <;> simp [hc, hk, hrem]

/-! ## What is left -/

theorem Heap.untouched_blank (hc : h.arena.ceiling < 16) : h.blank.Untouched := by
  have hrem : ¬ 16 ≤ h.arena.reset.remaining := by
    rw [Arena.remaining_reset]
    exact Nat.not_le.mpr hc
  have htop : h.arena.reset.top = 0 := by
    rw [Arena.top, Arena.announced_reset, Option.getD_none, Arena.size_reset]
  rw [blank, if_neg hrem]
  exact ⟨rfl, htop, Arena.size_reset _, FreeList.represents_empty.toList_eq, rfl, rfl⟩

theorem Heap.halfLaid_blank (hc : 16 ≤ h.arena.ceiling) : h.blank.HalfLaid := by
  have hrem : 16 ≤ h.arena.reset.remaining := (Arena.remaining_reset _).symm ▸ hc
  have hl := laid_bare hrem
  have hsize := size_bare hrem
  have hepilogue := hl.tiled.epilogue
  rw [hsize] at hepilogue
  rw [blank, if_pos hrem]
  exact ⟨rfl, hl.tiled.top_eq.trans hsize, hsize, hl.tiled.prologue, hepilogue, hl.list.toList_eq, rfl, rfl⟩

theorem init_untouched_iff (he : (Heap.init.run h).result = .ok (.error e)) :
    h.Unready e ∧ ((Heap.init.run h).heap.Untouched ↔ h.arena.ceiling < 16) ∧
      ((Heap.init.run h).heap.HalfLaid ↔ 16 ≤ h.arena.ceiling) := by
  obtain ⟨-, -, hready, hblank⟩ := (Heap.init_meets h).ok he
  rw [hblank]
  refine ⟨Heap.unready?_eq_some_iff.mp hready, ⟨fun hu => ?_, Heap.untouched_blank⟩,
    ⟨fun hl => ?_, Heap.halfLaid_blank⟩⟩
  · by_contra hc
    have := (Heap.halfLaid_blank (Nat.not_lt.mp hc)).size
    have := hu.size
    omega
  · by_contra hc
    have := (Heap.untouched_blank (Nat.not_le.mp hc)).size
    have := hl.size
    omega

/-- There is memory for the sentinels, and 84 bytes more, but not for a chunk of 256 bytes. -/
theorem init_untouched_iff_chunk : ∃ h : Heap,
    (Heap.init.run h).result = .ok (.error (.arenaExhausted 256 84)) ∧
      (Heap.init.run h).heap.HalfLaid ∧ ¬ (Heap.init.run h).heap.Untouched := by
  let h := Heap.new (Arena.growable 100) .standard
  have he : (Heap.init.run h).result = .ok (.error (.arenaExhausted 256 84)) := by decide +kernel
  obtain ⟨-, huntouched, hhalf⟩ := init_untouched_iff he
  exact ⟨h, he, hhalf.mpr (by decide), fun hu => absurd (huntouched.mp hu) (by decide)⟩

end

end BoundaryTag
