import BoundaryTag.Heap.Blocks
import BoundaryTag.Heap.Check
import BoundaryTag.Proofs.Laid

/-!
# Walking memory of any content

Nothing is assumed here of what the arena holds. A heap is `Readable` if its arena has room for the
sentinels, and `Legible` if its list is in order as well, which no writing to the arena's bytes can change.
`Trail a i vs e` says that the visits `vs` lead from offset `i` to offset `e`, each to the place that the
header before it points to.

Main statements: `Readable.walk_trail` (a walk never faults: it follows a trail to a word of size zero or
to a block that would pass the end), `Trail.walkFrom` (there is no other trail), `Readable.blocks_eq`
(the list of blocks is what a check walks) and `Legible.report_result` (a check always has a report, and
what is in it).
-/

namespace BoundaryTag

structure Readable (h : Heap) : Prop where
  initialized : h.initialized = true
  honest : h.arena.announced = none
  roomy : 16 ≤ h.arena.size

structure Legible (h : Heap) (L : List Nat) : Prop extends Readable h where
  list : h.freeList.Represents L

def Heap.withBytes (h : Heap) (bytes : ByteArray) : Heap :=
  { h with arena := { h.arena with bytes := bytes } }

theorem Legible.withBytes {h : Heap} {L : List Nat} (hl : Legible h L) {bytes : ByteArray}
    (hb : bytes.size = h.arena.size) : Legible (h.withBytes bytes) L :=
  ⟨⟨hl.initialized, hl.honest, hl.roomy.trans_eq hb.symm⟩, hl.list⟩

/-! ## Trails -/

namespace Visit

def stop (v : Visit) : Nat := v.block + v.header.size

structure Seen (a : Arena) (v : Visit) : Prop where
  positive : v.header.size ≠ 0
  header : a.tag? (v.block - 4) = some v.header
  footer : a.tag? (v.stop - 8) = some v.footer

end Visit

def Trail (a : Arena) : Nat → List Visit → Nat → Prop
  | i, [], e => i = e
  | i, v :: vs, e => v.block = i ∧ v.Seen a ∧ Trail a v.stop vs e

/-- Where and how a walk that got to offset `e` ends. -/
inductive Halts (a : Arena) (e : Nat) : WalkEnd → Prop where
  | epilogue {t : Tag} : a.tag? (e - 4) = some t → t.size = 0 → Halts a e (.epilogue e t)
  | overrun {t : Tag} : a.tag? (e - 4) = some t → a.size < e + t.size → Halts a e (.overrun e)

section
variable {a : Arena} {i j e : Nat} {v : Visit} {vs us : List Visit}

theorem trail_append : Trail a i (us ++ vs) e ↔ ∃ m, Trail a i us m ∧ Trail a m vs e := by
  induction us generalizing i with
  | nil =>
    constructor
    · exact fun h => ⟨i, rfl, h⟩
    · intro hq
      obtain ⟨m, rfl, h⟩ := hq
      exact h
  | cons v us ih =>
    simp only [List.cons_append, Trail, ih]
    constructor
    · intro hq
      obtain ⟨h₁, h₂, m, h₃, h₄⟩ := hq
      exact ⟨m, ⟨h₁, h₂, h₃⟩, h₄⟩
    · intro hq
      obtain ⟨m, ⟨h₁, h₂, h₃⟩, h₄⟩ := hq
      exact ⟨h₁, h₂, m, h₃, h₄⟩

theorem trail_concat : Trail a i (vs ++ [v]) e ↔ Trail a i vs v.block ∧ v.Seen a ∧ v.stop = e := by
  rw [trail_append]
  constructor
  · intro hq
    obtain ⟨m, h₁, rfl, h₂, h₃⟩ := hq
    exact ⟨h₁, h₂, h₃⟩
  · intro hq
    obtain ⟨h₁, h₂, h₃⟩ := hq
    exact ⟨v.block, h₁, rfl, h₂, h₃⟩

theorem Trail.le (h : Trail a i vs e) : i ≤ e := by
  induction vs generalizing i with
  | nil => exact Nat.le_of_eq h
  | cons v vs ih =>
    have := ih h.2.2
    have := h.1
    simp only [Visit.stop] at *
    omega

theorem Trail.lt (h : Trail a i vs e) (hne : vs ≠ []) : i < e := by
  obtain ⟨v, us, rfl⟩ := List.exists_cons_of_ne_nil hne
  have := h.2.2.le
  have := h.1
  have := h.2.1.positive
  simp only [Visit.stop] at *
  omega

theorem Trail.pairwise (h : Trail a i vs e) : vs.Pairwise fun v w => v.block < w.block := by
  induction vs generalizing i with
  | nil => exact List.Pairwise.nil
  | cons v vs ih =>
    refine List.pairwise_cons.mpr ⟨fun w hw => ?_, ih h.2.2⟩
    obtain ⟨us, ws, rfl⟩ := List.append_of_mem hw
    obtain ⟨m, hm, rfl, -⟩ := trail_append.mp h.2.2
    have := hm.le
    have := h.2.1.positive
    simp only [Visit.stop] at *
    omega

theorem Trail.seen (h : Trail a i vs e) (hv : v ∈ vs) : v.Seen a := by
  obtain ⟨us, ws, rfl⟩ := List.append_of_mem hv
  obtain ⟨m, _, hm⟩ := trail_append.mp h
  exact hm.2.1

end

/-! ## Reading -/

section
variable {h : Heap} {i e : Nat} {L : List Nat} {t : Tag}

theorem Arena.tag?_of_le {a : Arena} (hi : i + 4 ≤ a.size) : ∃ t, a.tag? i = some t :=
  Option.ne_none_iff_exists'.mp fun hn => by
    have := Arena.tag?_eq_none_iff.mp hn
    omega

theorem Readable.top_eq (hl : Readable h) : h.arena.top = h.arena.size := by
  rw [Arena.top, hl.honest]
  rfl

theorem Readable.span_eq (hl : Readable h) : h.span = .ok ⟨12, h.arena.size - 4⟩ := by
  have := hl.roomy
  have hs : Address.sub h.arena.size wordBytes = .ok (h.arena.size - 4) :=
    Address.sub_eq_ok_iff.mpr ⟨by simp only [wordBytes]; omega, rfl⟩
  rw [Heap.span, if_pos hl.initialized, hl.top_eq, hs]
  rfl

/-! ## Walks -/

theorem Readable.walkFrom_cases (hl : Readable h) (h8 : 8 ≤ i) (hi : i ≤ h.arena.size) :
    (∃ w, Halts h.arena i w ∧ h.walkFrom i = ⟨[], w⟩) ∨
      ∃ v : Visit, v.block = i ∧ v.Seen h.arena ∧ v.stop ≤ h.arena.size ∧
        h.walkFrom i = ⟨v :: (h.walkFrom v.stop).visits, (h.walkFrom v.stop).stop⟩ := by
  obtain ⟨t, ht⟩ := Arena.tag?_of_le (a := h.arena) (i := i - 4) (by omega)
  have hh : h.header i = .ok t := Heap.header_of_tag? (by omega) ht
  have hw := Heap.walkFrom.eq_def h i
  rw [hl.top_eq, if_neg (Nat.not_lt.mpr hi), hh] at hw
  simp only at hw
  by_cases hz : t.size = 0
  · rw [dif_pos hz] at hw
    exact Or.inl ⟨_, .epilogue ht hz, hw⟩
  rw [dif_neg hz] at hw
  by_cases ho : h.arena.size < i + t.size
  · rw [dif_pos ho] at hw
    exact Or.inl ⟨_, .overrun ht ho, hw⟩
  rw [dif_neg ho] at hw
  obtain ⟨f, hf⟩ := Arena.tag?_of_le (a := h.arena) (i := i + t.size - 8) (by omega)
  rw [Heap.footer_of_tag? (by omega) ht (by omega) hf] at hw
  exact Or.inr ⟨⟨i, t, f⟩, rfl, ⟨hz, ht, hf⟩, Nat.not_lt.mp ho, hw⟩

theorem Readable.walk_trail (hl : Readable h) (h8 : 8 ≤ i) (hi : i ≤ h.arena.size) :
    ∃ e ≤ h.arena.size, Trail h.arena i (h.walkFrom i).visits e ∧
      Halts h.arena e (h.walkFrom i).stop := by
  -- a visit takes the walk strictly nearer to the end
  induction hn : h.arena.size - i using Nat.strongRecOn generalizing i with
  | ind n ih =>
    rcases hl.walkFrom_cases h8 hi with ⟨w, hw, he⟩ | ⟨v, hb, hv, hs, he⟩
    · rw [he]
      exact ⟨i, hi, rfl, hw⟩
    · have hpos := hv.positive
      have hlt : i < v.stop := by
        simp only [Visit.stop]
        omega
      obtain ⟨e, hle, ht, hh⟩ := ih _ (by omega) (by omega) hs rfl
      rw [he]
      exact ⟨e, hle, ⟨hb, hv, ht⟩, hh⟩

theorem Trail.walkFrom {vs : List Visit} (ht : Trail h.arena i vs e) (hl : Readable h) (h8 : 8 ≤ i)
    (he : e ≤ h.arena.size) :
    h.walkFrom i = ⟨vs ++ (h.walkFrom e).visits, (h.walkFrom e).stop⟩ := by
  induction vs generalizing i with
  | nil =>
    obtain rfl : i = e := ht
    rfl
  | cons v vs ih =>
    obtain ⟨rfl, hv, ht⟩ := ht
    have hle := ht.le
    have hst : v.stop = v.block + v.header.size := rfl
    have hh := ih ht (by omega)
    rcases hl.walkFrom_cases h8 (by omega) with ⟨w, hw, -⟩ | ⟨v', hb', hv', -, hr⟩
    · cases hw with
      | epilogue ht' hz => exact absurd (Option.some.inj (hv.header.symm.trans ht') ▸ hz) hv.positive
      | overrun ht' ho =>
        cases Option.some.inj (hv.header.symm.trans ht')
        omega
    · have hhd := hb' ▸ hv'.header
      obtain ⟨b, t, f⟩ := v
      obtain ⟨b', t', f'⟩ := v'
      obtain rfl : b' = b := hb'
      obtain rfl : t = t' := Option.some.inj (hv.header.symm.trans hhd)
      obtain rfl : f = f' := Option.some.inj (hv.footer.symm.trans hv'.footer)
      rw [hr, hh]
      rfl

end

def Visit.toBlock (v : Visit) : Block := ⟨v.block, v.header.size, v.header.allocated⟩

theorem Readable.blocksFrom_eq {h : Heap} (hl : Readable h) {i : Nat} (h8 : 8 ≤ i)
    (hi : i ≤ h.arena.size) : h.blocksFrom i = .ok ((h.walkFrom i).visits.map Visit.toBlock) := by
  induction hn : h.arena.size - i using Nat.strongRecOn generalizing i with
  | ind n ih =>
    have hb := Heap.blocksFrom.eq_def h i
    rcases hl.walkFrom_cases h8 hi with ⟨w, hw, he⟩ | ⟨v, rfl, hv, hs, he⟩
    · rw [he]
      cases hw with
      | epilogue ht hz =>
        rw [Heap.header_of_tag? (by omega) ht] at hb
        exact hb.trans (dif_pos (Or.inl hz))
      | overrun ht ho =>
        rw [Heap.header_of_tag? (by omega) ht] at hb
        exact hb.trans (dif_pos (Or.inr (hl.top_eq ▸ ho)))
    · have hpos := hv.positive
      have hst : v.stop = v.block + v.header.size := rfl
      have hrest := ih _ (by omega) (by omega) hs rfl
      rw [hst] at hrest
      rw [Heap.header_of_tag? (by omega) hv.header] at hb
      simp only [hl.top_eq] at hb
      rw [dif_neg (by omega), hrest] at hb
      rw [he]
      exact hb

theorem Readable.blocks_eq {h : Heap} (hl : Readable h) :
    h.blocks = .ok ((h.walkFrom firstBlock).visits.map Visit.toBlock) :=
  (if_pos hl.initialized).trans (hl.blocksFrom_eq (by decide) hl.roomy)

/-! ## Findings on blocks -/

/-- The free blocks of a row are listed and lie apart. Here `last` is a free block before the row, if there
is one. -/
structure Orderly (l : FreeList) (last : Option Nat) (vs : List Visit) : Prop where
  listed : ∀ v ∈ vs, v.header.allocated = false → (l.link? v.block).isSome
  first : ∀ v ∈ vs.head?, v.header.allocated = true ∨ last = none
  settled : vs.IsChain fun v w => v.header.allocated = true ∨ w.header.allocated = true

theorem Orderly.flatMap_blockFindings {l : FreeList} {last : Option Nat} {vs : List Visit}
    (ho : Orderly l last vs) :
    (blockFindings l last vs).flatMap (·.2) = vs.flatMap Visit.ownFindings := by
  induction vs generalizing last with
  | nil => rfl
  | cons v vs ih =>
    have hl : ∀ w ∈ vs, w.header.allocated = false → (l.link? w.block).isSome :=
      fun w hw => ho.listed w (List.mem_cons_of_mem _ hw)
    obtain ⟨hnext, hs⟩ := List.isChain_cons.mp ho.settled
    cases ha : v.header.allocated with
    | true =>
      rw [blockFindings, if_pos ha, List.flatMap_cons, List.flatMap_cons,
        ih ⟨hl, fun _ _ => Or.inr rfl, hs⟩]
    | false =>
      have hlink := ho.listed v List.mem_cons_self ha
      have hnone : last = none := (ho.first v rfl).resolve_left (by simp [ha])
      have hfirst : ∀ w ∈ vs.head?, w.header.allocated = true ∨ some v.block = none := fun w hw =>
        Or.inl ((hnext w hw).resolve_left (by simp [ha]))
      rw [blockFindings, if_neg (by simp [ha]), List.flatMap_cons, List.flatMap_cons,
        ih ⟨hl, hfirst, hs⟩, hnone]
      simp [Option.isNone_iff_eq_none, Option.ne_none_iff_isSome.mpr hlink]

/-! ## Checks -/

namespace Traced

variable {α β : Type}

theorem result_bind {m : Traced α} {f : α → Traced β} {a : α} (h : m.result = .ok a) :
    (m >>= f).result = (f a).result := by
  obtain ⟨_, es⟩ := m
  cases h
  rfl

theorem result_lift_bind {x : Except Fault α} {f : α → Traced β} {a : α} (h : x = .ok a) :
    ((liftM x : Traced α) >>= f).result = (f a).result := result_bind h

end Traced

def prologueFindings (a : Arena) : List Violation :=
  match a.tag? 4 with
  | some t => if t.size ≠ overhead ∨ !t.allocated then [.badPrologue t] else []
  | none => []

def WalkEnd.findings (top : Nat) : WalkEnd → List Violation
  | .epilogue block t => if !t.allocated ∨ block ≠ top then [.badEpilogue (block - 4) t] else []
  | .overrun block => [.overrun block]
  | .fault _ => []

def backFindings (l : FreeList) (last : Option Nat) (block : Nat) : List Violation :=
  let found := (l.link? block).bind Link.prev
  if found = last then [] else [.brokenBacklink block last found]

def memberFindings (a : Arena) (block : Nat) : List Violation :=
  if !Span.contains ⟨12, a.size - 4⟩ block then [.listedOutsideHeap block]
  else if (a.tag? (block - 4)).any (·.allocated) then [.allocatedInFreeList block] else []

section
variable {h : Heap} {L : List Nat}

theorem checkVisits_result (v : Bool) (found : List (Visit × List Violation)) :
    (Heap.checkVisits v found).result = .ok () := by
  induction found with
  | nil => rfl
  | cons f found ih => exact ih

theorem Readable.checkPrologue_result (hl : Readable h) :
    h.checkPrologue.result = .ok (prologueFindings h.arena) := by
  obtain ⟨t, ht⟩ := Arena.tag?_of_le (a := h.arena) (i := 4) (by have := hl.roomy; omega)
  have hh : h.header prologueOffset = .ok t := Heap.header_of_tag? (by decide) ht
  rw [Heap.checkPrologue, Traced.result_lift_bind hh, prologueFindings, ht]
  rfl

theorem Readable.checkEnd_result (hl : Readable h) {e : Nat} {w : WalkEnd} (hw : Halts h.arena e w)
    (v : Bool) : (h.checkEnd v w).result = .ok (w.findings h.arena.size) := by
  cases hw with
  | overrun => rfl
  | epilogue =>
    rw [Heap.checkEnd, Traced.result_bind rfl, hl.top_eq]
    rfl

theorem Heap.checkMembers_cons {b : Nat} {rest : List Nat} {last : Option Nat} {found : List Violation}
    (h8 : 8 ∣ b)
    (hrest : (h.checkMembers ⟨12, h.arena.size - 4⟩ (some b) rest).result = .ok found) :
    (h.checkMembers ⟨12, h.arena.size - 4⟩ last (b :: rest)).result =
      .ok (backFindings h.freeList last b ++ memberFindings h.arena b ++ found) := by
  rw [Heap.checkMembers, Traced.result_lift_bind (FreeList.link_eq_of_dvd _ h8)]
  dsimp only
  rw [Traced.result_bind rfl, memberFindings]
  by_cases hc : Span.contains ⟨12, h.arena.size - 4⟩ b = true
  · have hin : 12 ≤ b ∧ b < h.arena.size - 4 := of_decide_eq_true hc
    obtain ⟨t, ht⟩ := Arena.tag?_of_le (a := h.arena) (i := b - 4) (by omega)
    simp only [hc, ht, Bool.not_true, Bool.false_eq_true, if_false, Option.any_some]
    rw [Traced.result_lift_bind (Heap.header_of_tag? (by omega) ht), Traced.result_bind rfl,
      Traced.result_bind rfl, Traced.result_bind hrest]
    rfl
  · simp only [Bool.not_eq_true] at hc
    simp only [hc, Bool.not_false, if_true]
    rw [Traced.result_bind rfl, Traced.result_bind rfl, Traced.result_bind hrest]
    rfl

theorem Legible.checkMembers_result (hl : Legible h L) {xs ys : List Nat} (hL : L = xs ++ ys) :
    (h.checkMembers ⟨12, h.arena.size - 4⟩ xs.getLast? ys).result =
      .ok (ys.flatMap (memberFindings h.arena)) := by
  induction ys generalizing xs with
  | nil => rfl
  | cons o ys ih =>
    have h8 : 8 ∣ o := (hl.list.storable o (hL ▸ List.mem_append_cons_self)).1
    have hrest := ih (hL.trans (List.append_cons xs o ys))
    rw [List.getLast?_concat] at hrest
    have hback : backFindings h.freeList xs.getLast? o = [] := by
      rw [backFindings, hl.list.member xs _ ys hL]
      exact if_pos rfl
    rw [Heap.checkMembers_cons h8 hrest, hback, List.nil_append, List.flatMap_cons]

theorem Legible.checkFreeList_result (hl : Legible h L) :
    h.checkFreeList.result = .ok (L.flatMap (memberFindings h.arena)) := by
  have hm : h.freeList.toList.take (h.freeList.length + 1) = L := by
    rw [hl.list.toList_eq, hl.list.length, List.take_of_length_le (Nat.le_succ _)]
  have hlast : h.freeList.head.prev = L.getLast? := by rw [hl.list.head]
  have hc : (h.checkMembers ⟨12, h.arena.size - 4⟩ none L).result = _ :=
    hl.checkMembers_result (List.nil_append L).symm
  unfold Heap.checkFreeList
  rw [hm, Traced.result_lift_bind hl.span_eq, Traced.result_bind hc]
  simp only [hlast, if_true]
  rw [Traced.result_bind rfl]
  simp only [List.append_nil]
  rfl

/-! ## Reports -/

/-- Everything that is wrong with a heap, in the order in which a check finds it. -/
def Heap.findings (h : Heap) (L : List Nat) : List Violation :=
  let walk := h.walkFrom prologueOffset
  prologueFindings h.arena ++ (walkFindings h.freeList walk.visits).flatMap (·.2) ++
    walk.stop.findings h.arena.size ++ L.flatMap (memberFindings h.arena)

theorem Readable.report_result (hl : Readable h) {listed : List Violation}
    (hlist : h.checkFreeList.result = .ok listed) (v : Bool) :
    (h.report v).result =
      .ok (tally (h.walkFrom prologueOffset).visits.tail (prologueFindings h.arena ++
        (walkFindings h.freeList (h.walkFrom prologueOffset).visits).flatMap (·.2) ++
        (h.walkFrom prologueOffset).stop.findings h.arena.size ++ listed)) := by
  have h8 : prologueOffset ≤ h.arena.size := Nat.le_trans (by decide) hl.roomy
  obtain ⟨e, _, _, hw⟩ := hl.walk_trail (Nat.le_refl prologueOffset) h8
  rw [Heap.report, if_pos hl.initialized, Traced.result_bind rfl,
    Traced.result_bind hl.checkPrologue_result, Traced.result_bind (checkVisits_result _ _),
    Traced.result_bind (hl.checkEnd_result hw v), Traced.result_bind rfl,
    Traced.result_bind hlist, Traced.result_bind rfl]
  rfl

theorem Legible.report_result (hl : Legible h L) (v : Bool) :
    (h.report v).result =
      .ok (tally (h.walkFrom prologueOffset).visits.tail (h.findings L)) :=
  hl.toReadable.report_result hl.checkFreeList_result v

end

end BoundaryTag
