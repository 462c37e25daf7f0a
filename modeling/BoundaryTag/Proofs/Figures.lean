import BoundaryTag.Proofs.Sessions

/-!
# Figures

What a check reports of a heap that a client has come to, in terms of what the client holds, and what the
counters say of it, in terms of its blocks.

Main statements: `reachable_report_figures`, `Session.Valid.accounted`.
-/

namespace BoundaryTag

section
variable {h₀ : Heap} {s : Session}

/-! ## Reports -/

theorem Laid.length_freeList {h : Heap} {bs : List Block} {L : List Nat} (hl : Laid h bs L) :
    h.freeList.length = (freeBlocks bs).length := by
  rw [hl.list.length, hl.listed.length_eq, freeOffsets, List.length_map]

theorem Held.length_add {a : Arena} {bs : List Block} {held : List Holding}
    (hh : Held a (allocatedBlocks bs) held) : held.length + (freeBlocks bs).length = bs.length := by
  have hheld := hh.handles.length_eq
  rw [List.length_map, List.length_map] at hheld
  rw [hheld, ← List.length_append, (allocatedBlocks_append_freeBlocks_perm bs).length_eq]

theorem Laid.usableSizes {bs : List Block} {L : List Nat} (hl : Laid s.heap bs L)
    (hh : Held s.heap.arena (allocatedBlocks bs) s.held) :
    ∃ sizes, s.held.mapM (fun k => s.heap.usableSize k.handle) = .ok sizes ∧
      (sizes.map (· + 8)).sum = ((allocatedBlocks bs).map (·.size)).sum := by
  obtain ⟨sizes, hsizes, hperm⟩ :=
    hl.mapM_payloads (fun _ hb => (mem_allocatedBlocks.mp hb).1) hh.handles
  rw [List.mapM_map] at hsizes
  refine ⟨sizes, hsizes, ?_⟩
  rw [(hperm.map _).sum_nat, List.map_map]
  refine congrArg List.sum (List.map_congr_left fun b hb => ?_)
  have hb := (hl.tiled.tiling.proper (mem_allocatedBlocks.mp hb).1).least
  exact Nat.sub_add_cancel (Nat.le_trans (by decide) hb)

theorem Sound.answer_check {bs : List Block} {L : List Nat} (hs : Sound s.heap bs L) (v : Bool) :
    s.answer (.check v) = .ok (.report
      ⟨bs.length, (freeBlocks bs).length, ((freeBlocks bs).map (·.size)).sum, []⟩) := by
  have hrun : (Heap.check v).run s.heap =
      ⟨⟨(s.heap.report v).result, (s.heap.report v).events⟩, s.heap⟩ := Heap.check_run v s.heap
  rw [hs.laid.report_eq hs.settled] at hrun
  exact congrArg (·.result) (HeapM.run_bind_of_ok (f := fun r => pure (Answer.report r)) hrun)

/-- A check of a heap that a client has come to finds nothing wrong. Its blocks are those that the client
holds and those in the free list, and the free ones are what the others leave of the arena. -/
theorem reachable_report_figures (hf : Fresh h₀) (hr : Reachable h₀ s) (hi : s.heap.initialized = true)
    (v : Bool) :
    ∃ sizes, s.held.mapM (fun k => s.heap.usableSize k.handle) = .ok sizes ∧
      16 + (sizes.map (· + 8)).sum ≤ s.heap.arena.top ∧
      s.answer (.check v) = .ok (.report
        { blocks := s.held.length + s.heap.freeList.length
          freeBlocks := s.heap.freeList.length
          freeBytes := s.heap.arena.top - 16 - (sizes.map (· + 8)).sum
          violations := [] }) := by
  obtain ⟨bs, L, hs, hh⟩ := (hr.valid hf).1.sound hi
  obtain ⟨sizes, hsizes, hheld⟩ := hs.laid.usableSizes hh
  have hspace := hs.laid.tiled.tiling.sum_allocated_add_free
  rw [← hs.laid.tiled.top_eq, ← hheld] at hspace
  have hfree : ((freeBlocks bs).map (·.size)).sum =
      s.heap.arena.top - 16 - (sizes.map (· + 8)).sum := by omega
  refine ⟨sizes, hsizes, by omega, ?_⟩
  rw [hs.answer_check, hs.laid.length_freeList, hh.length_add, hfree]

theorem reachable_report_figures_firstHeld :
    Session.firstHeld.answer (.check true) = .ok (.report ⟨2, 1, 48, []⟩) := by
  obtain ⟨sizes, hsizes, -, hr⟩ := reachable_report_figures (.growable _ _)
    Session.reachable_firstHeld (by decide +kernel) true
  have hheld : Session.firstHeld.held.mapM (fun k => Session.firstHeld.heap.usableSize k.handle) =
      .ok [8] := by decide +kernel
  obtain rfl := Except.ok.inj (hsizes.symm.trans hheld)
  exact hr.trans (by decide +kernel)

/-! ## Counters -/

/-- What the counters `c` say of the heap, where a walk gives the blocks `bs`. -/
structure Session.Accounted (s : Session) (bs : List Block) (c : Counters) : Prop where
  walk : s.heap.blocks = .ok bs
  usage : s.heap.usage = .ok c
  roomy : ∀ b ∈ bs, 8 ≤ b.size
  allocations : c.allocations = (allocatedBlocks bs).length
  allocated : c.allocated = ((allocatedBlocks bs).map (·.size - 8)).sum
  available : c.available = ((freeBlocks bs).map (·.size - 8)).sum
  fragments : c.fragments = (freeBlocks bs).length
  claimed : c.claimed = s.heap.arena.top
  tableBytes : c.tableBytes = 8 * (s.heap.arena.top / 16 + 1)
  overhead : c.overheadBytes = .ok (16 + 8 * bs.length)

theorem Counters.overheadBytes_eq {c : Counters} {n : Nat}
    (h : c.claimed = c.available + c.allocated + n) : c.overheadBytes = .ok n := by
  have h₁ : Address.sub c.claimed c.available = .ok (c.allocated + n) :=
    Address.sub_eq_ok_iff.mpr (by omega)
  have h₂ : Address.sub (c.allocated + n) c.allocated = .ok n := Address.sub_eq_ok_iff.mpr (by omega)
  rw [overheadBytes, h₁]
  exact h₂

theorem Session.Valid.accounted (hv : s.Valid) (hi : s.heap.initialized = true) :
    ∃ bs c, s.Accounted bs c ∧ c.totalAllocated = s.heap.counters.totalAllocated ∧
      c.allocated = s.heap.counters.allocated := by
  obtain ⟨bs, L, hs, -⟩ := hv.sound hi
  have ht := hs.laid.tiled.tiling
  have hsize := hs.laid.tiled.top_eq
  refine ⟨bs, _, ⟨hs.laid.blocks_eq, hs.laid.usage_eq_counters, fun b hb => ?roomy,
    hs.counted.allocations, hs.counted.allocated, rfl, rfl, ?claimed, ?tableBytes, ?overhead⟩, rfl, rfl⟩
  case roomy => exact Nat.le_trans (by decide) (ht.proper hb).least
  case claimed => exact hs.counted.claimed.trans hsize.symm
  case tableBytes =>
    rw [hsize]
    exact (Nat.mul_comm _ _).trans (congrArg (8 * ·) hs.laid.table)
  case overhead =>
    -- the sentinels take sixteen bytes, and each block keeps eight to itself
    have hfree := sum_sizes fun b hb => ht.proper (mem_freeBlocks.mp hb).1
    have hall := ht.sum_allocated
    have htotal := ht.sum_allocated_add_free
    have hlen := (allocatedBlocks_append_freeBlocks_perm bs).length_eq
    have hclaimed := hs.counted.claimed
    have hallocated := hs.counted.allocated
    rw [List.length_append] at hlen
    apply Counters.overheadBytes_eq
    simp only
    omega

end

end BoundaryTag
