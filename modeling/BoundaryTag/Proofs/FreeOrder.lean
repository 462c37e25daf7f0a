import BoundaryTag.Proofs.Gaps
import BoundaryTag.Proofs.Standing
import BoundaryTag.Proofs.Twins

/-!
# The order of frees

Handles are given back one after the other. Which blocks merge at a step, and which of them stays on the free
list, depends on the order; what is left at the end does not. The blocks are then those that were not given back,
with one free block in each gap.

Main statement: `reachable_freeEach`.
-/

namespace BoundaryTag

def Heap.freeEach : List Handle → HeapM Unit
  | [] => return ()
  | p :: ps => do
    Heap.free p
    Heap.freeEach ps

/-- The allocated blocks of `bs` whose handles are not in `ps`. -/
def keptBlocks (bs : List Block) (ps : List Handle) : List Block :=
  (allocatedBlocks bs).filter (⟨·.offset⟩ ∉ ps)

/-- The heap `h'` came from `h`, which had the blocks `bs`, by giving back the handles `ps`. -/
structure Heap.Returned (h : Heap) (bs : List Block) (ps : List Handle) (h' : Heap) (bs' : List Block)
    (L' : List Nat) : Prop where
  sound : Sound h' bs' L'
  kept : allocatedBlocks bs' = keptBlocks bs ps
  totals : h'.counters = { h.counters with
    allocations := h'.counters.allocations
    allocated := h'.counters.allocated }

/-- In the heap `h`, with the blocks `bs`, the blocks `kept` are allocated. Each gap between them is one free
block, and one member of the free list. -/
structure Heap.Spaced (h : Heap) (bs kept : List Block) : Prop where
  blocks : h.blocks = .ok bs
  allocated : allocatedBlocks bs = kept
  free_iff : ∀ i j, MaximalRun (Vacant kept 16 h.arena.top) i j ↔
    ∃ b ∈ bs, b.allocated = false ∧ b.offset = i ∧ b.stop = j
  once : (bs.map (·.offset)).Nodup
  listed_iff : ∀ i, i ∈ h.freeList.toList ↔ ∃ j, MaximalRun (Vacant kept 16 h.arena.top) i j
  listed_once : h.freeList.toList.Nodup

/-- Two heaps that tell the same of their blocks. Their free lists may be in different orders. -/
structure Heap.SameSpace (h g : Heap) : Prop where
  blocks : h.blocks = g.blocks
  usage : h.usage = g.usage
  freeList : h.freeList.toList.Perm g.freeList.toList

open HeapM

section
variable {h g h' h₀ : Heap} {bs bs' cs xs ys : List Block} {b : Block} {L L' M : List Nat} {s : Session}
  {p : Handle} {ps qs : List Handle} {i e : Nat}

/-! ## What is left -/

theorem mem_keptBlocks : b ∈ keptBlocks bs ps ↔ b ∈ allocatedBlocks bs ∧ ⟨b.offset⟩ ∉ ps := by
  simp [keptBlocks]

theorem keptBlocks_nil : keptBlocks bs [] = allocatedBlocks bs := by
  simp [keptBlocks]

theorem keptBlocks_perm (hp : qs.Perm ps) : keptBlocks bs qs = keptBlocks bs ps := by
  simp only [keptBlocks, hp.mem_iff]

theorem Tiling.allocatedBlocks_without (ht : Tiling i (xs ++ b :: ys) e) (hb : b.allocated = true) :
    allocatedBlocks (xs ++ ys) = keptBlocks (xs ++ b :: ys) [⟨b.offset⟩] := by
  have hn := ht.nodup_offsets
  rw [List.map_append, List.map_cons, List.nodup_middle, List.nodup_cons, ← List.map_append] at hn
  have hother : ∀ zs ⊆ xs ++ ys, keptBlocks zs [⟨b.offset⟩] = allocatedBlocks zs := by
    refine fun zs hzs => List.filter_eq_self.mpr fun c hc => ?_
    have hcm := hzs (mem_allocatedBlocks.mp hc).1
    simpa using fun he => hn.1 (List.mem_map.mpr ⟨c, hcm, he⟩)
  have hx := hother xs (List.subset_append_left xs ys)
  have hy := hother ys (List.subset_append_right xs ys)
  rw [keptBlocks] at hx hy ⊢
  rw [allocatedBlocks_append, allocatedBlocks_append, List.filter_append, hx,
    allocatedBlocks_cons_of_allocated hb, List.filter_cons_of_neg (by simp), hy]

theorem keptBlocks_keptBlocks (hk : allocatedBlocks cs = keptBlocks bs [p]) :
    keptBlocks cs ps = keptBlocks bs (p :: ps) := by
  rw [keptBlocks, hk, keptBlocks, keptBlocks, List.filter_filter]
  exact List.filter_congr fun c _ => by simp [Bool.and_comm]

/-! ## One after the other -/

theorem Heap.free_returns (hs : Sound h bs L) (hc : h.arena.ceiling ≤ maxBlockSize)
    (hp : ∃ b ∈ allocatedBlocks bs, ⟨b.offset⟩ = p) :
    Meets (Heap.free p) h
      (fun _ h' => h'.arena.ceiling = h.arena.ceiling ∧ ∃ bs' L', h.Returned bs [p] h' bs' L')
      NoFault := by
  obtain ⟨b, hb, rfl⟩ := hp
  obtain ⟨hb, ha⟩ := mem_allocatedBlocks.mp hb
  obtain ⟨xs, ys, rfl⟩ := List.append_of_mem hb
  refine (Heap.free_meets hs ha rfl).mono ?_ fun e _ => not_oversize hc e
  rintro _ h' ⟨hs', hf, hcnt⟩
  refine ⟨hf.ceiling, _, _, hs', ?_, ?_⟩
  · rw [allocatedBlocks_coalesced]
    exact hs.laid.tiled.tiling.allocatedBlocks_without ha
  · rw [hcnt]
    rfl

theorem Heap.freeEach_returns (hs : Sound h bs L) (hc : h.arena.ceiling ≤ maxBlockSize)
    (hn : ps.Nodup) (hp : ∀ p ∈ ps, ∃ b ∈ allocatedBlocks bs, ⟨b.offset⟩ = p) :
    Meets (Heap.freeEach ps) h (fun _ h' => ∃ bs' L', h.Returned bs ps h' bs' L') NoFault := by
  induction ps generalizing h bs L with
  | nil => exact Meets.pure ⟨bs, L, hs, keptBlocks_nil.symm, rfl⟩
  | cons p ps ih =>
    obtain ⟨hpn, hn⟩ := List.nodup_cons.mp hn
    apply (Heap.free_returns hs hc (hp p (.head _))).then
    rintro _ h₁ ⟨hceil, bs₁, L₁, hret⟩
    -- the first handle took no block but its own, since the handles are distinct
    have hleft : ∀ q ∈ ps, ∃ b ∈ allocatedBlocks bs₁, ⟨b.offset⟩ = q := by
      intro q hq
      obtain ⟨b, hb, rfl⟩ := hp q (.tail _ hq)
      have hne : ⟨b.offset⟩ ≠ p := fun he => hpn (he ▸ hq)
      refine ⟨b, ?_, rfl⟩
      rw [hret.kept]
      exact mem_keptBlocks.mpr ⟨hb, by simpa using hne⟩
    refine (ih hret.sound (hceil.trans_le hc) hn hleft).mono ?_ fun _ _ => id
    rintro _ h₂ ⟨bs₂, L₂, hret₂⟩
    refine ⟨bs₂, L₂, hret₂.sound, hret₂.kept.trans (keptBlocks_keptBlocks hret.kept), ?_⟩
    rw [hret₂.totals, hret.totals]

/-! ## In any order -/

theorem Heap.Returned.size_eq (hr : h.Returned bs ps h' bs' L') (hs : Sound h bs L) :
    h'.arena.size = h.arena.size := by
  rw [← hr.sound.counted.claimed, ← hs.counted.claimed, hr.totals]

theorem Heap.Returned.spaced (hr : h.Returned bs ps h' bs' L') : h'.Spaced bs' (keptBlocks bs ps) := by
  have hl := hr.sound.laid
  have ht := hl.tiled.tiling
  have hfree : ∀ i j, MaximalRun (Vacant (keptBlocks bs ps) 16 h'.arena.top) i j ↔
      ∃ b ∈ bs', b.allocated = false ∧ b.offset = i ∧ b.stop = j := by
    intro i j
    rw [← hr.kept, hl.tiled.top_eq]
    exact ht.maximalRun_iff hr.sound.settled
  exact
    { blocks := hl.blocks_eq
      allocated := hr.kept
      free_iff := hfree
      once := ht.nodup_offsets
      listed_iff := fun i => by
        rw [hl.list.toList_eq, hl.mem_list]
        simp only [hfree]
        exact ⟨fun ⟨b, hb, hf, ho⟩ => ⟨b.stop, b, hb, hf, ho, rfl⟩,
          fun ⟨_, b, hb, hf, ho, _⟩ => ⟨b, hb, hf, ho⟩⟩
      listed_once := hl.list.toList_eq ▸ hl.list.nodup }

theorem Heap.Returned.same (hs : Sound h bs L) (hr : h.Returned bs qs h' bs' L')
    (hr' : h.Returned bs ps g cs M) (hp : qs.Perm ps) : h'.SameSpace g := by
  have hl := hr.sound.laid
  have hl' := hr'.sound.laid
  have hkept : allocatedBlocks bs' = allocatedBlocks cs := by
    rw [hr.kept, hr'.kept, keptBlocks_perm hp]
  have ht := hl'.tiled.tiling
  rw [hr'.size_eq hs, ← hr.size_eq hs] at ht
  obtain rfl : bs' = cs :=
    hl.tiled.tiling.eq_of_allocatedBlocks ht hr.sound.settled hr'.sound.settled hkept
  have hcnt : h'.counters = g.counters := by
    rw [hr.totals, hr'.totals, hr.sound.counted.allocations, hr'.sound.counted.allocations,
      hr.sound.counted.allocated, hr'.sound.counted.allocated]
  refine ⟨hl.blocks_eq.trans hl'.blocks_eq.symm, hl'.usage_eq hl hcnt, ?_⟩
  rw [hl.list.toList_eq, hl'.list.toList_eq]
  exact hl.listed.trans hl'.listed.symm

theorem Heap.Returned.empty (hr : h.Returned bs ps h' bs' L') (hk : keptBlocks bs ps = [])
    (hsize : 16 < h'.arena.size) :
    bs' = [⟨16, h'.arena.top - 16, false⟩] ∧ h'.freeList.toList = [16] := by
  have hl := hr.sound.laid
  obtain rfl := hl.tiled.tiling.eq_singleton hr.sound.settled hsize (hr.kept.trans hk)
  rw [hl.tiled.top_eq, hl.list.toList_eq]
  exact ⟨rfl, List.perm_singleton.mp hl.listed⟩

theorem reachable_freeEach (hf : Fresh h₀) (hc : h₀.arena.ceiling ≤ maxBlockSize)
    (hr : Reachable h₀ s) (hi : s.heap.initialized = true) (hn : ps.Nodup) (hp : ∀ p ∈ ps, s.Holds p) :
    ∃ bs bs' r, s.heap.blocks = .ok bs ∧ (Heap.freeEach ps).run s.heap = r ∧ r.result = .ok () ∧
      r.heap.arena.top = s.heap.arena.top ∧ r.heap.Spaced bs' (keptBlocks bs ps) ∧
      (∀ qs, qs.Perm ps → ((Heap.freeEach qs).run s.heap).result = .ok () ∧
        ((Heap.freeEach qs).run s.heap).heap.SameSpace r.heap) ∧
      ((∀ p, s.Holds p → p ∈ ps) →
        bs' = [⟨16, r.heap.arena.top - 16, false⟩] ∧ r.heap.freeList.toList = [16]) := by
  obtain ⟨hv, hceil⟩ := hr.valid hf
  obtain ⟨bs, L, hs, hh⟩ := hv.sound hi
  have hmax : s.heap.arena.ceiling ≤ maxBlockSize := hceil.trans_le hc
  have hfirst := hr.chunk_le hf hi
  have hblock : ∀ p ∈ ps, ∃ b ∈ allocatedBlocks bs, ⟨b.offset⟩ = p := by
    intro p hpm
    obtain ⟨k, b, hkm, hb, hk, hpb⟩ := hh.find (hp p hpm)
    exact ⟨b, hb, by rw [← hpb]⟩
  have hrun : ∀ qs, qs.Perm ps → ((Heap.freeEach qs).run s.heap).result = .ok () ∧
      ∃ bs' L', s.heap.Returned bs qs ((Heap.freeEach qs).run s.heap).heap bs' L' := by
    intro qs hq
    obtain ⟨_, he, hret⟩ := (Heap.freeEach_returns hs hmax (hq.nodup_iff.mpr hn)
      fun p hpq => hblock p (hq.mem_iff.mp hpq)).exists_ok
    exact ⟨he, hret⟩
  obtain ⟨hok, bs', L', hret⟩ := hrun ps (List.Perm.refl ps)
  refine ⟨bs, bs', _, hs.laid.blocks_eq, rfl, hok, ?_, hret.spaced, fun qs hq => ?_, fun hall => ?_⟩
  · rw [hret.sound.laid.tiled.top_eq, hs.laid.tiled.top_eq, hret.size_eq hs]
  · obtain ⟨hok', bs₁, L₁, hret'⟩ := hrun qs hq
    exact ⟨hok', hret'.same hs hret hq⟩
  · have hnone : keptBlocks bs ps = [] :=
      List.filter_eq_nil_iff.mpr fun b hb => by simpa using hall _ (hh.exists_handle hb)
    have hleast := s.heap.policy.minBlock_le_chunk
    simp only [minBlockSize] at hleast
    exact hret.empty hnone (by rw [hret.size_eq hs]; omega)

/-- The first block is freed last, or first. -/
theorem reachable_freeEach_pair : ∃ r, (Heap.freeEach [⟨32⟩, ⟨16⟩]).run Session.pairHeld.heap = r ∧
    r.heap.blocks = .ok [⟨16, 64, false⟩] ∧ r.heap.freeList.toList = [16] ∧
      ((Heap.freeEach [⟨16⟩, ⟨32⟩]).run Session.pairHeld.heap).heap.SameSpace r.heap := by
  let s := Session.pairHeld
  have held_eq : s.held = [{ handle := ⟨32⟩, size := 8 }, { handle := ⟨16⟩, size := 8 }] := rfl
  have hheld : ∀ p, p ∈ [(⟨32⟩ : Handle), ⟨16⟩] ↔ s.Holds p := fun p => by
    simp [Session.Holds, held_eq, eq_comm]
  obtain ⟨_, bs, r, -, hrun, -, htop, hspaced, hany, hall⟩ :=
    reachable_freeEach (.growable 100 _) (by decide) Session.reachable_pairHeld (by decide +kernel)
      (by decide) fun p => (hheld p).mp
  obtain ⟨rfl, hlist⟩ := hall fun p => (hheld p).mpr
  have hend : s.heap.arena.top = 80 := by decide +kernel
  have hblocks := hspaced.blocks
  rw [htop, hend] at hblocks
  exact ⟨r, hrun, hblocks, hlist, (hany [⟨16⟩, ⟨32⟩] (.swap ..)).2⟩

end

end BoundaryTag
