import BoundaryTag.Proofs.Report
import BoundaryTag.Proofs.Sessions

/-!
# What a clean report vouches for

A check that finds nothing wrong has seen everything that it can see of an `Audited` heap, whatever the
arena holds: sentinels, a trail of blocks with matching words from the one to the other, free blocks that
are listed and lie apart, and listed offsets whose header says "free".

The last point is all that a check asks of a listed offset. It does not ask for a block at that offset, so a
block that was absorbed may stay in the list unnoticed, as long as its old header does
(`report_ok_of_absorbed`).

Main statements: `Legible.audited`, `reachable_report_vouches` (which listed offsets a clean report
certifies).
-/

namespace BoundaryTag

/-! ## Findings that are missing -/

theorem Visit.ownFindings_eq_nil_iff {v : Visit} :
    v.ownFindings = [] ↔ 8 ∣ v.block ∧ v.header = v.footer := by
  have h8 : 8 ∣ v.block ↔ v.block % alignment = 0 := Nat.dvd_iff_mod_eq_zero ..
  rw [ownFindings, List.append_eq_nil_iff, h8]
  by_cases hd : v.block % alignment = 0 <;> by_cases he : v.header = v.footer <;> simp [hd, he]

theorem orderly_of_blockFindings_eq_nil {l : FreeList} {last : Option Nat} {vs : List Visit}
    (hf : (blockFindings l last vs).flatMap (·.2) = []) :
    (∀ v ∈ vs, v.ownFindings = []) ∧ Orderly l last vs := by
  induction vs generalizing last with
  | nil => exact ⟨nofun, nofun, nofun, .nil⟩
  | cons v vs ih =>
    rw [blockFindings] at hf
    cases ha : v.header.allocated with
    | true =>
      rw [if_pos ha, List.flatMap_cons, List.append_eq_nil_iff] at hf
      obtain ⟨hown, ho⟩ := ih hf.2
      refine ⟨List.forall_mem_cons.mpr ⟨hf.1, hown⟩, List.forall_mem_cons.mpr ⟨?_, ho.listed⟩, ?_,
        List.isChain_cons.mpr ⟨fun _ _ => Or.inl ha, ho.settled⟩⟩
      · simp [ha]
      · intro w hw
        cases hw
        exact Or.inl ha
    | false =>
      rw [if_neg (by simp [ha]), List.flatMap_cons] at hf
      simp only [List.append_eq_nil_iff] at hf
      obtain ⟨⟨⟨hv, hu⟩, hj⟩, hrest⟩ := hf
      obtain ⟨hown, ho⟩ := ih hrest
      have h8 : v.block % alignment = 0 :=
        Nat.mod_eq_zero_of_dvd (Visit.ownFindings_eq_nil_iff.mp hv).1
      have hlink : (l.link? v.block).isSome := by
        simpa [h8, Option.isSome_iff_ne_none] using hu
      have hnone : last = none := by simpa using hj
      refine ⟨List.forall_mem_cons.mpr ⟨hv, hown⟩,
        List.forall_mem_cons.mpr ⟨fun _ => hlink, ho.listed⟩, fun _ _ => Or.inr hnone,
        List.isChain_cons.mpr ⟨fun w hw => Or.inr ?_, ho.settled⟩⟩
      exact (ho.first w hw).resolve_right (by simp)

theorem prologueFindings_eq_nil_iff {a : Arena} {t : Tag} (ht : a.tag? 4 = some t) :
    prologueFindings a = [] ↔ t.size = 8 ∧ t.allocated = true := by
  simp [prologueFindings, ht, overhead]

theorem Halts.findings_eq_nil_iff {a : Arena} {e : Nat} {w : WalkEnd} (hw : Halts a e w) :
    w.findings a.size = [] ↔
      e = a.size ∧ ∃ t, w = .epilogue e t ∧ a.tag? (e - 4) = some t ∧ t.size = 0 ∧ t.allocated = true := by
  cases hw with
  | overrun => simp [WalkEnd.findings]
  | epilogue ht hz => simp [WalkEnd.findings, ht, hz, and_comm]

theorem memberFindings_eq_nil_iff {a : Arena} {o : Nat} :
    memberFindings a o = [] ↔
      (12 ≤ o ∧ o < a.size - 4) ∧ ∀ t, a.tag? (o - 4) = some t → t.allocated = false := by
  rw [memberFindings]
  by_cases hc : 12 ≤ o ∧ o < a.size - 4
  · obtain ⟨t, ht⟩ := Arena.tag?_of_le (a := a) (i := o - 4) (by omega)
    simp [Span.contains, hc, ht]
  · simp [Span.contains, hc]

/-! ## Audited heaps -/

structure Audited (h : Heap) (L : List Nat) (vs : List Visit) : Prop where
  prologue : ∃ t, h.arena.tag? 4 = some t ∧ h.arena.tag? 8 = some t ∧ t.size = 8 ∧ t.allocated = true
  trail : Trail h.arena 16 vs h.arena.size
  epilogue : ∃ t, h.arena.tag? (h.arena.size - 4) = some t ∧ t.size = 0 ∧ t.allocated = true
  matched : ∀ v ∈ vs, 8 ∣ v.block ∧ v.header = v.footer
  orderly : Orderly h.freeList none vs
  members : ∀ o ∈ L, memberFindings h.arena o = []

section
variable {h : Heap} {L : List Nat} {vs : List Visit}

theorem Legible.audited (hl : Legible h L) (hf : h.findings L = []) :
    Audited h L (h.walkFrom prologueOffset).visits.tail := by
  have h16 := hl.roomy
  obtain ⟨e, _, htrail, hhalts⟩ := hl.walk_trail (Nat.le_refl prologueOffset) (Nat.le_trans (by decide) h16)
  obtain ⟨t, ht⟩ := Arena.tag?_of_le (a := h.arena) (i := 4) (by omega)
  simp only [Heap.findings, List.append_eq_nil_iff, List.flatMap_eq_nil_iff (f := memberFindings _),
    prologueFindings_eq_nil_iff ht, hhalts.findings_eq_nil_iff] at hf
  obtain ⟨⟨⟨⟨hsize, hal⟩, hwalk⟩, rfl, te, -, hte⟩, hmem⟩ := hf
  cases hv : (h.walkFrom prologueOffset).visits with
  | nil =>
    rw [hv] at htrail
    have : 8 = h.arena.size := htrail
    omega
  | cons p vs =>
    rw [hv] at htrail hwalk
    obtain ⟨hp, hseen, htrail⟩ := htrail
    obtain rfl : t = p.header := by
      have hh := hseen.header
      rw [hp] at hh
      exact Option.some.inj (ht.symm.trans hh)
    have hstop : p.stop = 16 := by rw [Visit.stop, hsize, hp, prologueOffset]
    have hfoot := hseen.footer
    rw [hstop] at hfoot htrail
    rw [walkFindings, List.flatMap_cons, List.append_eq_nil_iff, Visit.ownFindings_eq_nil_iff] at hwalk
    obtain ⟨⟨-, hmatch⟩, hblocks⟩ := hwalk
    obtain ⟨hown, ho⟩ := orderly_of_blockFindings_eq_nil hblocks
    exact ⟨⟨_, ht, hmatch ▸ hfoot, hsize, hal⟩, htrail, ⟨te, hte⟩,
      fun v hv => Visit.ownFindings_eq_nil_iff.mp (hown v hv), ho, hmem⟩

theorem Audited.blocks_eq (ha : Audited h L vs) (hl : Legible h L) :
    h.blocks = .ok (vs.map Visit.toBlock) := by
  obtain ⟨t, ht, hz, -⟩ := ha.epilogue
  rw [hl.blocks_eq, firstBlock, ha.trail.walkFrom hl.toReadable (by decide) (Nat.le_refl _),
    hl.walkFrom_end ht hz, List.append_nil]

theorem Audited.free_iff_mem (ha : Audited h L vs) (hl : Legible h L) {v : Visit} (hv : v ∈ vs) :
    v.header.allocated = false ↔ v.block ∈ L := by
  have h8 := (ha.matched v hv).1
  constructor
  · intro hf
    have hlink := ha.orderly.listed v hv hf
    rwa [hl.list.link?_isSome h8, decide_eq_true_eq] at hlink
  · intro hm
    exact (memberFindings_eq_nil_iff.mp (ha.members _ hm)).2 _ (ha.trail.seen hv).header

/-! ## Reports -/

/-- The free blocks are the listed offsets at which there is a block. At every listed offset a header says
"free", be it that of a block or not. -/
structure Heap.Vouched (h : Heap) (r : Report) (bs : List Block) : Prop where
  walk : h.blocks = .ok bs
  counted : r.freeBlocks = (freeBlocks bs).length
  listed : ∀ b ∈ bs, b.allocated = false ↔ b.offset ∈ h.freeList.toList
  atMost : r.freeBlocks ≤ h.freeList.length
  all : r.freeBlocks = h.freeList.length ↔ ∀ o ∈ h.freeList.toList, ∃ b ∈ bs, b.offset = o
  members : ∀ o ∈ h.freeList.toList, 8 ∣ o ∧ (∃ u, h.span = .ok u ∧ u.contains o = true) ∧
    ∃ t, h.header o = .ok t ∧ t.allocated = false

theorem Audited.vouched (ha : Audited h L vs) (hl : Legible h L) {r : Report}
    (hr : r.freeBlocks = (vs.filter fun v => !v.header.allocated).length) :
    h.Vouched r (vs.map Visit.toBlock) := by
  have hL : h.freeList.toList = L := hl.list.toList_eq
  have hfree : freeBlocks (vs.map Visit.toBlock) =
      (vs.filter fun v => !v.header.allocated).map Visit.toBlock := List.filter_map ..
  have hsub : freeOffsets (vs.map Visit.toBlock) ⊆ L := by
    intro o ho
    obtain ⟨b, hb, hf, rfl⟩ := mem_freeOffsets.mp ho
    obtain ⟨v, hv, rfl⟩ := List.mem_map.mp hb
    exact (ha.free_iff_mem hl hv).mp hf
  have hnodup : (freeOffsets (vs.map Visit.toBlock)).Nodup := by
    rw [freeOffsets, hfree, List.map_map]
    exact List.pairwise_map.mpr ((ha.trail.pairwise.imp Nat.ne_of_lt).filter _)
  have hcount : r.freeBlocks = (freeOffsets (vs.map Visit.toBlock)).length := by
    rw [hr, freeOffsets, hfree, List.length_map, List.length_map]
  have hperm := hnodup.subperm hsub
  refine
    { walk := ha.blocks_eq hl
      counted := by rw [hr, hfree, List.length_map]
      listed := List.forall_mem_map.mpr fun v hv => hL ▸ ha.free_iff_mem hl hv
      atMost := by
        rw [hcount, hl.list.length]
        exact hperm.length_le
      all := ?all
      members := ?members }
  case all =>
    rw [hcount, hl.list.length, hL]
    constructor
    · intro hlen o ho
      have hperm' := hperm.perm_of_length_le (Nat.le_of_eq hlen.symm)
      obtain ⟨b, hb, -, rfl⟩ := mem_freeOffsets.mp (hperm'.mem_iff.mpr ho)
      exact ⟨b, hb, rfl⟩
    · intro hall
      have hsub' : L ⊆ freeOffsets (vs.map Visit.toBlock) := by
        intro o ho
        obtain ⟨b, hb, rfl⟩ := hall o ho
        obtain ⟨v, hv, rfl⟩ := List.mem_map.mp hb
        exact mem_freeOffsets.mpr ⟨_, hb, (ha.free_iff_mem hl hv).mpr ho, rfl⟩
      exact Nat.le_antisymm hperm.length_le (hl.list.nodup.subperm hsub').length_le
  case members =>
    intro o ho
    rw [hL] at ho
    obtain ⟨hin, hal⟩ := memberFindings_eq_nil_iff.mp (ha.members o ho)
    obtain ⟨t, ht⟩ := Arena.tag?_of_le (a := h.arena) (i := o - 4) (by omega)
    exact ⟨(hl.list.storable o ho).1, ⟨_, hl.span_eq, decide_eq_true hin⟩, t,
      Heap.header_of_tag? (by omega) ht, hal t ht⟩

theorem not_mem_ownFindings {v : Visit} {o : Nat} : .allocatedInFreeList o ∉ v.ownFindings := by
  simp only [Visit.ownFindings]
  split <;> split <;> simp

theorem not_mem_walkFindings {l : FreeList} {vs : List Visit} {o : Nat} :
    .allocatedInFreeList o ∉ (walkFindings l vs).flatMap (·.2) := by
  have hblocks : ∀ vs last, .allocatedInFreeList o ∉ (blockFindings l last vs).flatMap (·.2) := by
    intro vs
    induction vs with
    | nil => simp [blockFindings]
    | cons v vs ih =>
      intro last
      rw [blockFindings]
      split
      · simp [not_mem_ownFindings, ih]
      · rw [List.flatMap_cons, List.mem_append, not_or]
        exact ⟨by cases last <;> split <;> simp [not_mem_ownFindings], ih _⟩
  cases vs with
  | nil => simp [walkFindings]
  | cons v vs =>
    rw [walkFindings, List.flatMap_cons, List.mem_append, not_or]
    exact ⟨not_mem_ownFindings, hblocks vs none⟩

theorem mem_memberFindings {a : Arena} {o o' : Nat} :
    .allocatedInFreeList o ∈ memberFindings a o' ↔
      o' = o ∧ (12 ≤ o ∧ o < a.size - 4) ∧ ∃ t, a.tag? (o - 4) = some t ∧ t.allocated = true := by
  rw [memberFindings]
  by_cases hc : 12 ≤ o' ∧ o' < a.size - 4
  · by_cases ha : (a.tag? (o' - 4)).any (·.allocated) = true
    · have ha' := (Option.any_eq_true _ _).mp ha
      simp only [Span.contains, hc, ha, decide_true, Bool.not_true, Bool.false_eq_true, if_false, if_true,
        List.mem_singleton, Violation.allocatedInFreeList.injEq, eq_comm (a := o), and_self]
      exact ⟨fun e => ⟨e, e ▸ hc, e ▸ ha'⟩, And.left⟩
    · have ha' : ¬ ∃ t, a.tag? (o' - 4) = some t ∧ t.allocated = true := fun e =>
        ha ((Option.any_eq_true _ _).mpr e)
      simp only [Span.contains, hc, ha, decide_true, Bool.not_true, Bool.false_eq_true, if_false,
        List.not_mem_nil, and_self, false_iff]
      exact fun e => ha' (e.1 ▸ e.2.2)
  · simp only [Span.contains, hc, decide_false, Bool.not_false, if_true, List.mem_singleton, reduceCtorEq,
      false_iff]
    exact fun e => hc (e.1 ▸ e.2.1)

theorem Heap.mem_findings {o : Nat} (ho : o ∈ L) (h12 : 12 ≤ o)
    (he : o < h.arena.size - 4) :
    .allocatedInFreeList o ∈ h.findings L ↔ ∃ t, h.header o = .ok t ∧ t.allocated = true := by
  obtain ⟨t, ht⟩ := Arena.tag?_of_le (a := h.arena) (i := o - 4) (by omega)
  have hh : h.header o = .ok t := Heap.header_of_tag? (by omega) ht
  have hpro : .allocatedInFreeList o ∉ prologueFindings h.arena := by
    unfold prologueFindings
    split
    · split <;> simp
    · simp
  have hend : ∀ w : WalkEnd, .allocatedInFreeList o ∉ w.findings h.arena.size := by
    intro w
    cases w with
    | epilogue =>
      simp only [WalkEnd.findings]
      split <;> simp
    | overrun => simp [WalkEnd.findings]
    | fault => simp [WalkEnd.findings]
  simp only [Heap.findings, List.mem_append, hpro, not_mem_walkFindings, hend, false_or]
  simp only [List.mem_flatMap, mem_memberFindings, hh, ht]
  constructor
  · rintro ⟨_, -, -, -, t', e, ha⟩
    exact ⟨t', congrArg Except.ok (Option.some.inj e), ha⟩
  · rintro ⟨t', e, ha⟩
    exact ⟨o, ho, rfl, ⟨h12, he⟩, t', congrArg some (Except.ok.inj e), ha⟩

end

section
variable {h₀ : Heap} {s : Session} {bytes : ByteArray}

theorem Session.Valid.legible (hv : s.Valid) (hi : s.heap.initialized = true) :
    Legible s.heap s.heap.freeList.toList ∧
      ∀ o ∈ s.heap.freeList.toList, 12 ≤ o ∧ o < s.heap.arena.size - 4 := by
  obtain ⟨bs, L, hs, -⟩ := hv.sound hi
  have hlist : s.heap.freeList.toList = L := hs.laid.list.toList_eq
  refine ⟨hlist ▸ hs.laid.legible, fun o ho => ?_⟩
  obtain ⟨b, hb, -, rfl⟩ := hs.laid.mem_list.mp (hlist ▸ ho)
  have := hs.laid.tiled.tiling.bounds hb
  have := (hs.laid.tiled.tiling.proper hb).least
  simp only [Block.stop] at *
  omega

theorem reachable_report_vouches (hf : Fresh h₀) (hr : Reachable h₀ s) (hi : s.heap.initialized = true)
    (hb : bytes.size = s.heap.arena.size) (v : Bool) :
    ∃ r, ((s.heap.withBytes bytes).report v).result = .ok r ∧
      (r.ok = true → ∃ bs, (s.heap.withBytes bytes).Vouched r bs) ∧
      ∀ o ∈ s.heap.freeList.toList, .allocatedInFreeList o ∈ r.violations ↔
        ∃ t, (s.heap.withBytes bytes).header o = .ok t ∧ t.allocated = true := by
  obtain ⟨hl, hin⟩ := (hr.valid hf).1.legible hi
  have hl' := hl.withBytes hb
  refine ⟨_, hl'.report_result v, fun hok => ?_, fun o ho => ?_⟩
  · exact ⟨_, (hl'.audited (List.isEmpty_iff.mp hok)).vouched hl' rfl⟩
  · obtain ⟨h12, he⟩ := hin o ho
    exact Heap.mem_findings ho h12 (he.trans_eq (congrArg (· - 4) hb.symm))

/-- The bytes of the small heap, after the one block that is held was written over its free neighbour. -/
def Session.absorbedBytes : ByteArray :=
  ((firstHeld.heap.withTag 12 (Tag.make 64 true)).withTag 72 (Tag.make 64 true)).arena.bytes

/-- The absorbed neighbour's header still stands in the payload, so the check passes, and vouches for the one
listed offset that is no block. -/
theorem reachable_report_vouches_absorbed : ∃ (r : Report) (bs : List Block),
    Session.firstHeld.heap.freeList.toList = [32] ∧ r.ok = true ∧
      (Session.firstHeld.heap.withBytes Session.absorbedBytes).Vouched r bs := by
  let s := Session.firstHeld
  let bytes := Session.absorbedBytes
  have he : ((s.heap.withBytes bytes).report true).result = .ok ⟨1, 0, 0, []⟩ := by decide +kernel
  have hi : s.heap.initialized = true := by decide +kernel
  have hb : bytes.size = s.heap.arena.size := by decide +kernel
  obtain ⟨r, hr, hv, -⟩ := reachable_report_vouches (.growable _ _) Session.reachable_firstHeld hi hb true
  cases hr.symm.trans he
  obtain ⟨bs, hbs⟩ := hv rfl
  exact ⟨_, bs, by decide +kernel, rfl, hbs⟩

/-- A clean report does not mean that every listed offset is the offset of a block: here 32 is listed, and the
only block runs from 16 to 80. -/
theorem report_ok_of_absorbed : ∃ (h₀ : Heap) (s : Session) (bytes : ByteArray) (r : Report),
    Fresh h₀ ∧ Reachable h₀ s ∧ s.heap.initialized = true ∧ bytes.size = s.heap.arena.size ∧
      ((s.heap.withBytes bytes).report false).result = .ok r ∧ r.ok = true ∧ r.freeBlocks = 0 ∧
      (s.heap.withBytes bytes).blocks = .ok [⟨16, 64, true⟩] ∧ s.heap.freeList.toList = [32] :=
  ⟨_, Session.firstHeld, Session.absorbedBytes, ⟨1, 0, 0, []⟩, .growable _ _, Session.reachable_firstHeld,
    by decide +kernel, by decide +kernel, by decide +kernel, rfl, rfl, by decide +kernel, by decide +kernel⟩

end

end BoundaryTag
