import BoundaryTag.Proofs.Sessions
import BoundaryTag.Proofs.Unready

/-!
# Blocks too large for a tag

A tag holds sizes up to `maxBlockSize`. What is requested and what the arena grows by are held to that, but not
the sum of free blocks that are merged. In an arena of a little more than four gigabytes such a sum can pass
the limit, and the call that merges the blocks faults.

Main statements: `Heap.malloc_oversized` (a request for which the heap grows next to a free block),
`Session.opened_oversized` (such a request can be the first one), `oversized_iff` (how large an arena has to be).
-/

namespace BoundaryTag

open HeapM

section
variable {h : Heap} {bs : List Block} {L : List Nat} {n size payload : Nat}

/-! ## Growing next to a free block -/

namespace Heap

theorem extend_oversized (hs : Sound h bs L) (h8 : 8 ∣ n) (hn : 16 ≤ n) (hr : h.refused? n = none)
    (hlt : maxBlockSize < (h.summit bs n).size) :
    Meets (extend n) h (fun _ _ => False) (fun e _ => e = .oversized (h.summit bs n).size) := by
  refine (extend_meets hs.laid hs.counted.toMetered h8 hn hr).mono ?_ fun _ _ hq => hq.1
  intro _ _ hq
  obtain ⟨-, a, l, -, -, hl⟩ := hq
  have hmem : h.summit bs n ∈ belowFree bs ++ [h.summit bs n] := by simp
  exact absurd (hl.tiled.tiling.proper hmem).most (Nat.not_le.mpr hlt)

theorem malloc_oversized (hs : Sound h bs L) (hp : 1 ≤ payload) (hsize : blockSizeFor payload = .ok size)
    (hno : ∀ b ∈ bs, b.allocated = false → b.size < size)
    (hr : h.refused? (max size h.policy.chunkSize) = none)
    (hlt : maxBlockSize < (h.summit bs (max size h.policy.chunkSize)).size) :
    Meets (malloc payload) h (fun _ _ => False)
      (fun e _ => e = .oversized (h.summit bs (max size h.policy.chunkSize)).size) := by
  obtain ⟨h8, -, -, h16⟩ := blockSizeFor_spec hsize
  have h8' : 8 ∣ max size h.policy.chunkSize := by
    have := h.policy.chunk_dvd
    omega
  have hn : 16 ≤ max size h.policy.chunkSize := Nat.le_trans (h16 hp) (Nat.le_max_left _ _)
  have hserve : Meets (serve payload) h (fun _ _ => False)
      (fun e _ => e = .oversized (h.summit bs (max size h.policy.chunkSize)).size) := by
    unfold serve
    apply Meets.view_bind
    rw [if_pos hs.laid.initialized, hsize]
    obtain ⟨r, hfit, -, hnone⟩ := hs.laid.findFit size
    obtain rfl : r = none := hnone.mpr hno
    have hobtain : Meets (obtain size) h (fun _ _ => False)
        (fun e _ => e = .oversized (h.summit bs (max size h.policy.chunkSize)).size) :=
      Meets.read_bind hfit (Meets.view_bind (extend_oversized hs h8' hn hr hlt))
    exact hobtain.seq (fun _ _ => id) fun _ _ => False.elim
  have htry : Meets (tryMalloc payload) h (fun _ _ => False)
      (fun e _ => e = .oversized (h.summit bs (max size h.policy.chunkSize)).size) := by
    apply (selfCheck_meets hs.laid hs.settled .malloc).then
    intro _ h he
    subst he
    rw [if_neg (Nat.ne_of_gt hp)]
    exact hserve.seq (fun _ _ => id) fun _ _ => False.elim
  exact htry.seq (fun _ _ => id) fun _ _ => False.elim

/-! ## The first chunk -/

theorem unready?_eq_none (hc : 16 + h.policy.chunkSize ≤ h.arena.ceiling)
    (hm : h.policy.chunkSize ≤ maxBlockSize) : h.unready? = none :=
  unready?_eq_none_iff.mpr ⟨by omega, hm, by omega⟩

theorem init_ready (hr : h.unready? = none) :
    (Call.init.action.run h).result = .ok (.ready (.ok ())) ∧
      Sound (Call.init.action.run h).heap [⟨16, h.policy.chunkSize, false⟩] [16] ∧
      (Call.init.action.run h).heap.policy = h.policy ∧
      (Call.init.action.run h).heap.arena.ceiling = h.arena.ceiling := by
  have hm : Meets Call.init.action h (fun a h' => a = .ready (.ok ()) ∧
      Sound h' [⟨16, h.policy.chunkSize, false⟩] [16] ∧ h'.policy = h.policy ∧
        h'.arena.ceiling = h.arena.ceiling) NoFault := by
    apply (init_meets h).then
    rintro (e | _) h' ⟨hpol, hceil, hq⟩
    · cases hr.symm.trans hq.1
    · exact Meets.pure ⟨rfl, hq.2.1.sound_chunk h.policy.minBlock_le_chunk hq.2.2, hpol, hceil⟩
  obtain ⟨a, ha, rfl, hq⟩ := hm.exists_ok
  exact ⟨ha, hq⟩

theorem malloc_chunk_oversized (hs : Sound h [⟨16, n, false⟩] [16]) (hn : h.policy.chunkSize = n)
    (hp : 1 ≤ payload) (hsize : blockSizeFor payload = .ok size) (hlt : n < size)
    (hsum : maxBlockSize < n + size) (hc : 16 + n + size ≤ h.arena.ceiling) :
    Meets (Call.malloc payload).action h (fun _ _ => False) (fun e _ => e = .oversized (n + size)) := by
  obtain ⟨h8, -, hmost, -⟩ := blockSizeFor_spec hsize
  have hcap : 16 + maxBlockSize + maxBlockSize ≤ Arena.maxSize := by decide
  have htop : 16 + n = h.arena.size := hs.laid.tiled.tiling.2.2
  have hrem := h.arena.remaining_eq
  have hmax : max size h.policy.chunkSize = size := by omega
  have hno : ∀ b ∈ [(⟨16, n, false⟩ : Block)], b.allocated = false → b.size < size := by
    intro b hb _
    rw [List.mem_singleton.mp hb]
    exact hlt
  have hr : h.refused? size = none := by
    rw [refused?_eq_none_iff, alignUp_eq_self h8, hs.laid.tiled.top_eq]
    omega
  have hsummit : (h.summit ([] ++ [⟨16, n, false⟩]) size).size = n + size := h.size_summit rfl
  rw [List.nil_append] at hsummit
  have hm := malloc_oversized hs hp hsize hno (hmax.symm ▸ hr) (by rw [hmax, hsummit]; exact hsum)
  rw [hmax, hsummit] at hm
  exact hm.seq (fun _ _ => id) fun _ _ => False.elim

end Heap

end

/-! ## Arenas -/

theorem Session.Valid.not_oversized {s : Session} {c : Call} (hv : s.Valid) (hl : c.Legal s)
    (hc : s.heap.arena.ceiling < maxBlockSize + 24) (n : Nat) : s.answer c ≠ .error (.oversized n) := by
  intro ha
  by_cases hi : c = .init
  · subst hi
    exact (Call.init_meets s.heap).error ha
  cases hv with
  | idle hn => exact (Call.action_meets_of_uninitialized hn hl hi).error ha
  | live hs hh =>
    rcases (Call.action_meets hs hh hl hi).error ha with (ho | ⟨he, -⟩) | ⟨-, ⟨p, m, err, -, he⟩, -⟩
    · obtain ⟨m, he, hlt, h8, hle⟩ := ho
      have hd : 8 ∣ maxBlockSize := by decide
      simp only at hc
      omega
    · cases he
    · cases he

/-- A first request that is larger than the first chunk, in an arena with room for both, comes right after that
chunk and is merged with it. -/
theorem Session.opened_oversized (a : Arena) (policy : Policy) {payload size : Nat}
    (hsize : blockSizeFor payload = .ok size) (hp : 1 ≤ payload) (hlt : policy.chunkSize < size)
    (hsum : maxBlockSize < policy.chunkSize + size) (hc : 16 + policy.chunkSize + size ≤ a.ceiling) :
    Reachable (Heap.new a policy) (.opened a policy) ∧
      (Session.opened a policy).heap.blocks = .ok [⟨16, policy.chunkSize, false⟩] ∧
      (Session.opened a policy).answer (.malloc payload) = .error (.oversized (policy.chunkSize + size)) := by
  have hmost := (blockSizeFor_spec hsize).2.2.1
  have hr : (Heap.new a policy).unready? = none :=
    Heap.unready?_eq_none (show 16 + policy.chunkSize ≤ a.ceiling by omega)
      (show policy.chunkSize ≤ maxBlockSize by omega)
  obtain ⟨hres, hs, hpol, hceil⟩ := Heap.init_ready hr
  obtain ⟨_, he, rfl⟩ :=
    (Heap.malloc_chunk_oversized hs (congrArg Policy.chunkSize hpol) hp hsize hlt hsum (hceil.symm ▸ hc)).exists_error
  exact ⟨.step .start trivial hres, hs.laid.blocks_eq, he⟩

/-- The smallest chunks: initializing makes a free block of 16 bytes. -/
def Policy.smallChunks : Policy :=
  { Policy.standard with
    chunkSize := 16
    chunk_dvd := by decide
    minBlock_le_chunk := by decide
    chunk_lt := by decide }

theorem oversized_iff {a : Arena} (hf : ∀ policy, Fresh (Heap.new a policy)) :
    (∃ policy s c n, Reachable (Heap.new a policy) s ∧ c.Legal s ∧
      s.answer c = .error (.oversized n)) ↔ maxBlockSize + 24 ≤ a.ceiling := by
  constructor
  · rintro ⟨policy, s, c, n, hr, hl, ha⟩
    obtain ⟨hv, hceil⟩ := hr.valid (hf policy)
    by_contra hc
    exact hv.not_oversized hl (by rw [hceil]; exact Nat.not_le.mp hc) n ha
  · intro hc
    have hd : 8 ∣ maxBlockSize := by decide
    have hlo : 32 ≤ maxBlockSize := by decide
    have hchunk : Policy.smallChunks.chunkSize = 16 := rfl
    -- all but 16 bytes of the largest payload there could be
    have hsize : blockSizeFor (maxBlockSize - 16) = .ok (maxBlockSize - 8) :=
      blockSizeFor_eq_ok_iff.mpr ⟨by simp only [overhead, alignUp]; omega, by omega⟩
    obtain ⟨hr, -, he⟩ := Session.opened_oversized a .smallChunks hsize (by omega) (by omega) (by omega)
      (by omega)
    exact ⟨.smallChunks, _, .malloc _, _, hr, trivial, he⟩

/-- The default policy, in an arena that has room for the first chunk and for a block of the largest size. -/
theorem oversized_iff_standard :
    Reachable (Heap.new (Arena.growable 4294967560) .standard) (.opened (Arena.growable 4294967560) .standard) ∧
      blockSizeFor 4294967280 = .ok maxBlockSize ∧
      (Session.opened (Arena.growable 4294967560) .standard).heap.blocks = .ok [⟨16, 256, false⟩] ∧
      (Session.opened (Arena.growable 4294967560) .standard).answer (.malloc 4294967280) =
        .error (.oversized (256 + maxBlockSize)) ∧
      maxBlockSize + 24 ≤ (Arena.growable 4294967560).ceiling := by
  have hchunk : Policy.standard.chunkSize = 256 := rfl
  have hsize : blockSizeFor 4294967280 = .ok maxBlockSize := by decide
  have hceil : (Arena.growable 4294967560).ceiling = 16 + 256 + maxBlockSize := rfl
  obtain ⟨hr, hb, he⟩ := Session.opened_oversized (Arena.growable 4294967560) .standard hsize (by decide)
    (by rw [hchunk]; decide) (by rw [hchunk]; decide) (by rw [hchunk, hceil])
  rw [hchunk] at hb he
  exact ⟨hr, hsize, hb, he, (oversized_iff fun policy => .growable _ policy).mp
    ⟨.standard, _, .malloc 4294967280, _, hr, trivial, he⟩⟩

end BoundaryTag
