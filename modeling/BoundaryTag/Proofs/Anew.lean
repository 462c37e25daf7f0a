import BoundaryTag.Proofs.Sessions
import BoundaryTag.Proofs.Twins
import BoundaryTag.Proofs.Unready

/-!
# Initializing again

Whatever a heap was before, and whatever its memory holds, initializing it leads to one free chunk between two
sentinels, as it does on a new heap. Where it is refused, the heap is dormant: it answers every call, whatever the
handle, and none of them changes anything, until initializing succeeds.

Main statement: `init_anew`.
-/

namespace BoundaryTag

/-- The heap is one free chunk of `k` bytes. -/
structure Heap.Anew (h : Heap) (k : Nat) : Prop where
  initialized : h.initialized = true
  top : h.arena.top = 16 + k
  blocks : h.blocks = .ok [⟨16, k, false⟩]
  freeList : h.freeList.toList = [16]
  usage : h.usage = .ok
    { claimed := 16 + k
      extensions := 2
      available := k - 8
      fragments := 1
      tableBytes := 8 * ((16 + k) / 16 + 1) }
  prologue : h.arena.tag? 4 = some (Tag.make 8 true) ∧ h.arena.tag? 8 = some (Tag.make 8 true)
  epilogue : h.arena.tag? (16 + k - 4) = some Tag.epilogue
  report : ∀ v, (h.report v).result = .ok ⟨1, 1, k, []⟩

/-- The heap is not initialized and has no free blocks. No call that does without a payload changes it. -/
structure Heap.Dormant (h : Heap) : Prop where
  uninitialized : h.initialized = false
  freeList : h.freeList.toList = []
  inert : ∀ c a, Call.rebuff c = some a → (c.action.run h).result = .ok a ∧ (c.action.run h).heap = h

/-- Calls of any kind, about any handles, lead from the first heap to the second, and none of them initializes it.
A client may go on after a fault. -/
inductive Heap.Waits (h : Heap) : Heap → Prop
  | start : Waits h h
  | call {g : Heap} {c : Call} : Waits h g → (c.action.run g).result ≠ .ok (.ready (.ok ())) →
      Waits h (c.action.run g).heap

open HeapM

section
variable {h g : Heap} {c : Call} {e : AllocError} {k : Nat}

/-! ## A new chunk -/

theorem Laid.anew (hl : Laid h [⟨16, k, false⟩] [16]) (hc : h.counters = { claimed := 16 + k, extensions := 2 }) :
    h.Anew k := by
  have hsize : h.arena.size = 16 + k := (hl.tiled.tiling.2.2 : 16 + k = h.arena.size).symm
  have hepilogue := hl.tiled.epilogue
  rw [hsize] at hepilogue
  refine
    { initialized := hl.initialized
      top := hl.tiled.top_eq.trans hsize
      blocks := hl.blocks_eq
      freeList := hl.list.toList_eq
      usage := ?usage
      prologue := hl.tiled.prologue
      epilogue := hepilogue
      report := fun v => hl.report_eq (List.isChain_singleton _) v }
  case usage =>
    have htable : h.freeList.tableBytes = 8 * ((16 + k) / 16 + 1) := by
      rw [FreeList.tableBytes, hl.table, hsize, Nat.mul_comm]
      rfl
    rw [hl.usage_eq_counters, hc, htable]
    rfl

/-! ## A heap that waits -/

theorem Heap.dormant_of_uninitialized (hi : h.initialized = false) (hl : h.freeList.toList = []) : h.Dormant :=
  ⟨hi, hl, fun _ _ ha => by
    obtain ⟨_, hr, rfl, hh⟩ := (Call.rebuff_meets hi ha).exists_ok
    exact ⟨hr, hh⟩⟩

theorem Heap.dormant_blank (h : Heap) : h.blank.Dormant := by
  rcases Nat.lt_or_ge h.arena.ceiling 16 with hc | hc
  · exact dormant_of_uninitialized (untouched_blank hc).uninitialized (untouched_blank hc).freeList
  · exact dormant_of_uninitialized (halfLaid_blank hc).uninitialized (halfLaid_blank hc).freeList

theorem Heap.Dormant.write (hd : g.Dormant) (p : Handle) (i : Nat) (src : ByteArray) :
    ((Call.write p i src).action.run g).heap.Dormant := by
  have hwrite : Meets (Heap.writePayload p i src) g (fun _ h' => h'.Dormant) (fun _ h' => h'.Dormant) := by
    refine Meets.read_cases (fun start _ => Meets.read_cases (fun _ _ => ?_) fun _ _ => hd) fun _ _ => hd
    exact Meets.of_update (dormant_of_uninitialized hd.uninitialized hd.freeList)
  exact Meets.heap (hwrite.seq (fun _ _ => id) fun _ _ hq => Meets.pure hq)

theorem Heap.Dormant.next (hd : g.Dormant) (hc : (c.action.run g).result ≠ .ok (.ready (.ok ()))) :
    (c.action.run g).heap.Dormant := by
  have hsame : ∀ a, c.rebuff = some a → (c.action.run g).heap.Dormant := fun a ha => by
    rw [(hd.inert c a ha).2]
    exact hd
  cases c with
  | init =>
    have hm : Meets Call.init.action g (fun a h' => a = .ready (.ok ()) ∨ h'.Dormant) NoFault := by
      apply (Heap.init_meets g).then
      rintro (e | _) h' ⟨-, -, hq⟩
      · exact Meets.pure (Or.inr (hq.2 ▸ g.dormant_blank))
      · exact Meets.pure (Or.inl rfl)
    obtain ⟨a, hr, rfl | hdormant⟩ := hm.exists_ok
    · exact absurd hr hc
    · exact hdormant
  | setCheck level => exact dormant_of_uninitialized hd.uninitialized hd.freeList
  | write p i src => exact hd.write p i src
  | read p i n =>
    have hm : Meets (Call.read p i n).action g (fun _ h' => h'.Dormant) (fun _ h' => h'.Dormant) :=
      Meets.read_cases (fun _ _ => Meets.pure hd) fun _ _ => hd
    exact hm.heap
  | malloc | tryMalloc | free | realloc | check => exact hsame _ rfl

theorem Heap.Waits.dormant (hw : h.Waits g) (hd : h.Dormant) : g.Dormant := by
  induction hw with
  | start => exact hd
  | call _ hc ih => exact ih.next hc

/-! ## Initializing -/

theorem init_anew (h : Heap) :
    (∃ r, (Heap.init.run h).result = .ok r) ∧
    ((Heap.init.run h).result = .ok (.ok ()) ↔ 16 ≤ h.arena.ceiling ∧ h.policy.chunkSize ≤ maxBlockSize ∧
      h.policy.chunkSize ≤ h.arena.ceiling - 16) ∧
    ((Heap.init.run h).result = .ok (.ok ()) → (Heap.init.run h).heap.Anew h.policy.chunkSize) ∧
    (∀ g : Heap, g.policy = h.policy → g.arena.ceiling = h.arena.ceiling →
      (Heap.init.run g).result = (Heap.init.run h).result ∧
        (Heap.init.run h).heap.SameView (Heap.init.run g).heap) ∧
    (∀ e, (Heap.init.run h).result = .ok (.error e) → ∀ g, (Heap.init.run h).heap.Waits g → g.Dormant) ∧
    (h.initialized = false → h.freeList.toList = [] → ∀ g, h.Waits g → g.Dormant) := by
  obtain ⟨r, hr, -, -, hq⟩ := (Heap.init_meets h).exists_ok
  have hready := Heap.unready?_eq_none_iff (h := h)
  refine ⟨⟨r, hr⟩, ?decides, ?anew, ?alike, ?refused, fun hi hl g hw =>
    hw.dormant (Heap.dormant_of_uninitialized hi hl)⟩
  case decides =>
    rw [← hready, hr]
    cases r with
    | ok => exact iff_of_true rfl hq.1
    | error e => exact iff_of_false nofun fun hn => nomatch hn.symm.trans hq.1
  case anew =>
    intro hok
    cases hr.symm.trans hok
    obtain ⟨-, hl, hc⟩ := hq
    exact hl.anew hc
  case alike =>
    intro g hp hceil
    have hagree := Heap.init_agree hp hceil
    exact ⟨hagree.result, (hagree.ok hr).sameView⟩
  case refused =>
    intro e he g hw
    cases hr.symm.trans he
    exact hw.dormant (hq.2 ▸ h.dormant_blank)

/-- Two blocks are allocated, and the header of the first was overwritten. -/
theorem init_anew_overrun : ∃ h : Heap, (h.report false).result = .ok ⟨0, 0, 0, [.overrun 16]⟩ ∧
    (Heap.init.run h).heap.Anew 64 := by
  let h := Session.pairHeld.heap.withTag 12 ⟨0xfffffff9⟩
  obtain ⟨-, hiff, hanew, -⟩ := init_anew h
  have hceil : h.arena.ceiling = 100 := by decide +kernel
  have hchunk : h.policy.chunkSize = 64 := by decide +kernel
  rw [hceil, hchunk] at hiff
  rw [hchunk] at hanew
  exact ⟨h, by decide +kernel, hanew (hiff.mpr (by decide))⟩

end

end BoundaryTag
