import BoundaryTag.Proofs.Audit
import BoundaryTag.Proofs.Steady

/-!
# Checks only observe

A client that writes out of bounds can leave anything in the arena. Even then a check reads only what is there,
takes the same figures as a walk over the blocks, and leaves no trace: with checks before every operation or
without, whatever is called from then on has the same answers, runs into the same faults and leaves the same
heap.

Main statement: `reachable_check_observes`.
-/

namespace BoundaryTag

/-- All that a check tells of a heap that may hold anything. No sum that it takes leaves the address space. -/
structure Heap.Inspected (h : Heap) (r : Report) : Prop where
  answer : ∀ v, ((Heap.check v).run h).result = .ok r
  unchanged : ∀ v, ((Heap.check v).run h).heap = h
  stops : ∀ i t, i ≤ h.arena.top → h.header i = .ok t → i + t.size < addressSpace
  freeBytes : r.freeBytes < addressSpace
  figures : ∃ bs, h.blocks = .ok bs ∧ ∀ t, h.arena.tag? 4 = some t → t.size = 8 →
    r.blocks = bs.length ∧ r.freeBlocks = (freeBlocks bs).length ∧
      r.freeBytes = ((freeBlocks bs).map (·.size)).sum

theorem Legible.exists_inspected {h : Heap} {L : List Nat} (hl : Legible h L)
    (hb : h.arena.size ≤ Arena.maxSize) : ∃ r, h.Inspected r := by
  have hmax : Arena.maxSize + maxBlockSize < addressSpace := by decide
  obtain ⟨found, hf⟩ := hl.ready.exists_report hl.initialized
  refine ⟨_, hf, fun _ => rfl, fun i t hi _ => ?stops, ?freeBytes, _, hl.blocks_eq, fun t ht h8 => ?figures⟩
  case stops =>
    have := t.size_le
    rw [hl.top_eq] at hi
    omega
  case freeBytes =>
    have := hl.freeBytes_le found
    omega
  case figures =>
    rw [hl.tally_eq found ht h8 hl.blocks_eq]
    exact ⟨rfl, rfl, rfl⟩

section
variable {h₀ : Heap} {s : Session} {bytes : ByteArray}

theorem reachable_check_observes (hf : Fresh h₀) (hr : Reachable h₀ s) (hi : s.heap.initialized = true)
    (hb : bytes.size = s.heap.arena.size) :
    let h := s.heap.withBytes bytes
    (∃ r, h.Inspected r) ∧ ∀ (calls : List Call) (l l' : CheckLevel),
      ((h.withCheck l).replay calls).1 = ((h.withCheck l').replay calls).1 ∧
        ((h.withCheck l).replay calls).2.withCheck .off = ((h.withCheck l').replay calls).2.withCheck .off := by
  intro h
  have hv := (hr.valid hf).1
  obtain ⟨bs, L, hs, -⟩ := hv.sound hi
  have hl : Legible h L := hs.laid.legible.withBytes hb
  exact ⟨hl.exists_inspected (hb.trans_le hs.laid.tiled.bounded), hl.ready.replay_withCheck⟩

/-- The header of the first block tells the largest size that a word can hold. The walk does not follow it, and
freeing the block is the same fault whether or not the heap was checked before. Each attempt still counts an
allocation off, and after two of them none is left for the block that is in order. -/
theorem reachable_check_observes_overrun : ∃ (bytes : ByteArray) (r : Report),
    let s := Session.firstHeld
    let h := s.heap.withBytes bytes
    bytes.size = s.heap.arena.size ∧ h.Inspected r ∧ r.violations = [.overrun 16] ∧
      ((h.withCheck .verbose).replay [.malloc 8, .free ⟨16⟩, .free ⟨16⟩, .free ⟨32⟩]).1 =
        [.ok (.handle (some ⟨32⟩)), .error .overflow, .error .overflow, .error .overflow] := by
  let s := Session.firstHeld
  let bytes := (s.heap.withTag 12 ⟨0xfffffff9⟩).arena.bytes
  have hi : s.heap.initialized = true := by decide +kernel
  have hb : bytes.size = s.heap.arena.size := by decide +kernel
  obtain ⟨⟨r, hr⟩, hsame⟩ := reachable_check_observes (.growable _ _) Session.reachable_firstHeld hi hb
  have hv : ((s.heap.withBytes bytes).report true).result = .ok ⟨0, 0, 0, [.overrun 16]⟩ := by decide +kernel
  cases (hr.answer true).symm.trans hv
  have hoff : (((s.heap.withBytes bytes).withCheck .off).replay
      [.malloc 8, .free ⟨16⟩, .free ⟨16⟩, .free ⟨32⟩]).1 =
        [.ok (.handle (some ⟨32⟩)), .error .overflow, .error .overflow, .error .overflow] := by decide +kernel
  exact ⟨bytes, _, hb, hr, rfl, (hsame _ .verbose .off).1.trans hoff⟩

end

end BoundaryTag
