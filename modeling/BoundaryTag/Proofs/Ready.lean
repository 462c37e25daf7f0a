import BoundaryTag.Proofs.FreeListRuns
import BoundaryTag.Proofs.Report
import Mathlib.Algebra.Order.BigOperators.Group.List
import Mathlib.Algebra.Order.Group.Nat

/-!
# Heaps that can always be checked

A `Ready` heap may hold anything in its arena, and its free list may hold any offsets, as long as it is a list.
That is enough for a check to have a report: every read of the walk lies in the arena, and every offset in the
list is aligned.

Main statements: `Heap.Ready.exists_report`, `Readable.tally_eq` (the figures of the report are those of the
blocks, as long as the prologue has its size) and `Readable.freeBytes_le`.
-/

namespace BoundaryTag

structure Heap.Ready (h : Heap) : Prop where
  honest : h.arena.announced = none
  roomy : h.initialized = true → 16 ≤ h.arena.size
  list : ∃ L, h.freeList.Tracks L

theorem Legible.ready {h : Heap} {L : List Nat} (hl : Legible h L) : h.Ready :=
  ⟨hl.honest, fun _ => hl.roomy, L, .addressed hl.list⟩

theorem Heap.Ready.readable {h : Heap} (hr : h.Ready) (hi : h.initialized = true) : Readable h :=
  ⟨hi, hr.honest, hr.roomy hi⟩

/-! ## Reports -/

section
variable {h : Heap}

theorem Heap.exists_checkMembers {members : List Nat} (h8 : ∀ b ∈ members, 8 ∣ b) (last : Option Nat) :
    ∃ found, (h.checkMembers ⟨12, h.arena.size - 4⟩ last members).result = .ok found := by
  induction members generalizing last with
  | nil => exact ⟨[], rfl⟩
  | cons b rest ih =>
    obtain ⟨hb, hrest⟩ := List.forall_mem_cons.mp h8
    obtain ⟨found, hf⟩ := ih hrest (some b)
    exact ⟨_, Heap.checkMembers_cons hb hf⟩

theorem Readable.exists_checkFreeList (hr : Readable h) {L : List Nat} (hl : h.freeList.Tracks L) :
    ∃ found, h.checkFreeList.result = .ok found := by
  have h8 : ∀ b ∈ h.freeList.toList.take (h.freeList.length + 1), 8 ∣ b := fun b hb =>
    hl.dvd b (hl.toList_eq ▸ List.mem_of_mem_take hb)
  obtain ⟨found, hf⟩ := Heap.exists_checkMembers (h := h) h8 none
  unfold Heap.checkFreeList
  rw [Traced.result_lift_bind hr.span_eq, Traced.result_bind hf, Traced.result_bind rfl]
  exact ⟨_, rfl⟩

theorem Heap.Ready.exists_report (hr : h.Ready) (hi : h.initialized = true) :
    ∃ found, ∀ v, (h.report v).result = .ok (tally (h.walkFrom prologueOffset).visits.tail found) := by
  obtain ⟨L, hl⟩ := hr.list
  obtain ⟨listed, hlist⟩ := (hr.readable hi).exists_checkFreeList hl
  exact ⟨_, (hr.readable hi).report_result hlist⟩

theorem Heap.Ready.check_meets (hr : h.Ready) (v : Bool) :
    HeapM.Meets (Heap.check v) h (fun _ h' => h' = h) HeapM.NoFault := by
  cases hi : h.initialized with
  | false => exact .of_run (Heap.check_run_of_uninitialized hi v) rfl
  | true =>
    obtain ⟨found, hf⟩ := hr.exists_report hi
    have hrun : (Heap.check v).run h = ⟨⟨(h.report v).result, (h.report v).events⟩, h⟩ :=
      Heap.check_run v h
    rw [hf] at hrun
    exact .of_run hrun rfl

/-- So a heap that checks itself does what it would do without. -/
theorem Heap.Ready.selfCheck_meets (hr : h.Ready) (caller : Caller) :
    HeapM.Meets (Heap.selfCheck caller) h (fun _ h' => h' = h) HeapM.NoFault := by
  refine .view_bind (.view_bind ?_)
  split
  · refine .tell_bind ((hr.check_meets _).then ?_)
    intro _ _ he
    exact .pure he
  · exact .pure rfl

/-! ## Figures -/

theorem Trail.sum_sizes {a : Arena} {i e : Nat} {vs : List Visit} (ht : Trail a i vs e) :
    i + (vs.map (·.header.size)).sum = e := by
  induction vs generalizing i with
  | nil => exact ht
  | cons v vs ih =>
    obtain ⟨rfl, -, ht⟩ := ht
    have := ih ht
    simp only [Visit.stop] at this
    rw [List.map_cons, List.sum_cons]
    omega

theorem freeBytes_tally (vs : List Visit) (found : List Violation) :
    (tally vs found).freeBytes = ((vs.filter fun v => !v.header.allocated).map (·.header.size)).sum :=
  List.foldr_map.symm

theorem Readable.freeBytes_le (hr : Readable h) (found : List Violation) :
    (tally (h.walkFrom prologueOffset).visits.tail found).freeBytes ≤ h.arena.size := by
  obtain ⟨e, he, ht, -⟩ := hr.walk_trail (Nat.le_refl prologueOffset) (Nat.le_trans (by decide) hr.roomy)
  have hsum := ht.sum_sizes
  generalize (h.walkFrom prologueOffset).visits = vs at *
  have hsub : (vs.tail.filter fun v => !v.header.allocated).Sublist vs :=
    List.filter_sublist.trans (List.tail_sublist vs)
  have hle := (hsub.map (·.header.size)).sum_le_sum fun _ _ => Nat.zero_le _
  rw [freeBytes_tally]
  omega

theorem Readable.tally_eq (hr : Readable h) (found : List Violation) {t : Tag} {bs : List Block}
    (ht : h.arena.tag? 4 = some t) (h8 : t.size = 8) (hb : h.blocks = .ok bs) :
    tally (h.walkFrom prologueOffset).visits.tail found =
      ⟨bs.length, (freeBlocks bs).length, ((freeBlocks bs).map (·.size)).sum, found⟩ := by
  have h16 := hr.roomy
  rcases hr.walkFrom_cases (Nat.le_refl prologueOffset) (Nat.le_trans (by decide) h16) with
    ⟨w, hw, -⟩ | ⟨v, hv, hseen, -, hw⟩
  · cases hw with
    | epilogue ht' hz =>
      cases ht.symm.trans ht'
      omega
    | overrun ht' ho =>
      cases ht.symm.trans ht'
      simp only [prologueOffset] at ho
      omega
  · have hstop : v.stop = firstBlock := by
      have hh := hseen.header
      rw [hv] at hh
      cases ht.symm.trans hh
      rw [Visit.stop, h8, hv, prologueOffset, firstBlock]
    have hfree : freeBlocks ((h.walkFrom firstBlock).visits.map Visit.toBlock) =
        ((h.walkFrom firstBlock).visits.filter fun v => !v.header.allocated).map Visit.toBlock :=
      List.filter_map ..
    cases hr.blocks_eq.symm.trans hb
    rw [hw, hstop, List.tail_cons, hfree, List.length_map, List.length_map, List.map_map]
    exact congrArg (Report.mk _ _ · found) (freeBytes_tally _ found)

end

end BoundaryTag
