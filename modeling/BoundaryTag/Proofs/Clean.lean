import BoundaryTag.Proofs.Audit
import BoundaryTag.Proofs.FreeListRuns

/-!
# What a clean report certifies

Nothing is supposed here of the arena, neither what it holds nor how large it is or where it says that it
ends, and of the free list only that calls have led to it. Then a check may fault. But if it has a report, and
no violation is in it, the blocks are a gapless row from the prologue to the epilogue.

The row is weaker than a `Tiling`: its blocks may be smaller than any that the heap makes.

Main statement: `report_certifies`.
-/

namespace BoundaryTag

/-- The blocks follow each other without a gap from offset `i` to offset `e`. -/
def Row : Nat → List Block → Nat → Prop
  | i, [], e => i = e
  | i, b :: bs, e => b.offset = i ∧ 0 < b.size ∧ 8 ∣ b.size ∧ Row b.stop bs e

structure Heap.Certified (h : Heap) (bs : List Block) : Prop where
  prologue : ∃ t, h.arena.tag? 4 = some t ∧ t.size = 8 ∧ t.allocated = true
  walk : h.blocks = .ok bs
  row : Row 16 bs h.arena.top
  matched : ∀ b ∈ bs, ∃ t, h.arena.tag? (b.offset - 4) = some t ∧ h.arena.tag? (b.stop - 8) = some t ∧
    t.size = b.size ∧ t.allocated = b.allocated
  epilogue : ∃ t, h.arena.tag? (h.arena.top - 4) = some t ∧ t.size = 0 ∧ t.allocated = true
  settled : Settled bs
  listed : ∀ b ∈ bs, b.allocated = false → b.offset ∈ h.freeList.toList

/-! ## Reading -/

namespace Heap

variable {h : Heap} {i e : Nat} {t f : Tag}

theorem tagAt_eq_ok_iff : h.tagAt i = .ok t ↔ h.arena.tag? i = some t := by
  unfold tagAt
  cases h.arena.tag? i <;> simp

theorem header_eq_ok_iff : h.header i = .ok t ↔ 4 ≤ i ∧ h.arena.tag? (i - 4) = some t := by
  constructor
  · intro hh
    obtain ⟨j, hj, ht⟩ := exists_of_bind_ok hh
    obtain ⟨h4, rfl⟩ := Address.sub_eq_ok_iff.mp hj
    exact ⟨h4, tagAt_eq_ok_iff.mp ht⟩
  · rintro ⟨h4, ht⟩
    exact header_of_tag? h4 ht

theorem tag?_of_footer (hh : h.header i = .ok t) (hf : h.footer i = .ok f) :
    h.arena.tag? (i + t.size - 8) = some f := by
  obtain ⟨s, hs, hf⟩ := exists_of_bind_ok hf
  obtain ⟨j, hj, ht⟩ := exists_of_bind_ok hf
  rw [blockSize, hh] at hs
  cases hs
  obtain ⟨-, rfl⟩ := Address.sub_eq_ok_iff.mp hj
  exact tagAt_eq_ok_iff.mp ht

/-! ## Walks -/

theorem walkFrom_trail (hs : (h.walkFrom i).stop = .epilogue e t) :
    Trail h.arena i (h.walkFrom i).visits e ∧ e ≤ h.arena.top ∧ h.header e = .ok t ∧ t.size = 0 := by
  fun_induction h.walkFrom i with
  | case1 => cases hs
  | case2 => cases hs
  | case3 i hle tag hh hz =>
    cases hs
    exact ⟨rfl, Nat.not_lt.mp hle, hh, hz⟩
  | case4 => cases hs
  | case5 => cases hs
  | case6 i hle tag hh hz hlt foot hf rest ih =>
    obtain ⟨htrail, hend⟩ := ih hs
    exact ⟨⟨rfl, ⟨hz, (header_eq_ok_iff.mp hh).2, tag?_of_footer hh hf⟩, htrail⟩, hend⟩

theorem blocksFrom_of_trail {vs : List Visit} (hv : Trail h.arena i vs e) (h4 : 4 ≤ i)
    (he : e ≤ h.arena.top) (hh : h.header e = .ok t) (hz : t.size = 0) :
    h.blocksFrom i = .ok (vs.map Visit.toBlock) := by
  induction vs generalizing i with
  | nil =>
    obtain rfl : i = e := hv
    rw [blocksFrom, hh]
    exact dif_pos (Or.inl hz)
  | cons v vs ih =>
    obtain ⟨rfl, hseen, htrail⟩ := hv
    have hstop : v.stop = v.block + v.header.size := rfl
    have hle := htrail.le
    have hrest := ih htrail (by omega)
    have hgo : ¬ (v.header.size = 0 ∨ h.arena.top < v.block + v.header.size) :=
      not_or.mpr ⟨hseen.positive, by omega⟩
    rw [blocksFrom, header_of_tag? h4 hseen.header]
    rw [hstop] at hrest
    simp only [dif_neg hgo, hrest]
    rfl

end Heap

theorem Trail.row {a : Arena} {i e : Nat} {vs : List Visit} (ht : Trail a i vs e) :
    Row i (vs.map Visit.toBlock) e := by
  induction vs generalizing i with
  | nil => exact ht
  | cons v vs ih =>
    obtain ⟨hb, hseen, ht⟩ := ht
    exact ⟨hb, Nat.pos_of_ne_zero hseen.positive, v.header.dvd_size, ih ht⟩

/-! ## Checks -/

theorem Traced.exists_of_bind {α β : Type} {m : Traced α} {f : α → Traced β} {b : β}
    (h : (m >>= f).result = .ok b) : ∃ a, m.result = .ok a ∧ (f a).result = .ok b := by
  obtain ⟨_ | a, es⟩ := m
  · cases h
  · exact ⟨a, rfl, h⟩

namespace Heap

variable {h : Heap}

theorem checkPrologue_clean (hc : h.checkPrologue.result = .ok []) :
    ∃ t, h.header prologueOffset = .ok t ∧ t.size = 8 ∧ t.allocated = true := by
  obtain ⟨t, ht, hc⟩ := Traced.exists_of_bind hc
  obtain ⟨_, -, hc⟩ := Traced.exists_of_bind hc
  have hf := Except.ok.inj hc
  simp only [ite_eq_right_iff, List.cons_ne_nil, imp_false, not_or, not_not, Bool.not_eq_true',
    Bool.not_eq_false] at hf
  exact ⟨t, ht, hf.1, hf.2⟩

theorem checkEnd_clean {v : Bool} {w : WalkEnd} (hc : (h.checkEnd v w).result = .ok []) :
    ∃ t, w = .epilogue h.arena.top t ∧ t.allocated = true := by
  cases w with
  | fault e => cases hc
  | overrun block => cases hc
  | epilogue block t =>
    obtain ⟨_, -, hc⟩ := Traced.exists_of_bind hc
    obtain ⟨_, -, hc⟩ := Traced.exists_of_bind hc
    have hf := Except.ok.inj hc
    simp only [ite_eq_right_iff, List.cons_ne_nil, imp_false, not_or, not_not, Bool.not_eq_true',
      Bool.not_eq_false] at hf
    exact ⟨t, hf.2 ▸ rfl, hf.1⟩

theorem report_clean {v : Bool} {r : Report} (hi : h.initialized = true)
    (hr : (h.report v).result = .ok r) (hok : r.ok = true) :
    h.checkPrologue.result = .ok [] ∧
      (walkFindings h.freeList (h.walkFrom prologueOffset).visits).flatMap (·.2) = [] ∧
      (h.checkEnd v (h.walkFrom prologueOffset).stop).result = .ok [] := by
  rw [report, if_pos hi] at hr
  obtain ⟨_, -, hr⟩ := Traced.exists_of_bind hr
  obtain ⟨prologue, hp, hr⟩ := Traced.exists_of_bind hr
  obtain ⟨_, -, hr⟩ := Traced.exists_of_bind hr
  obtain ⟨closing, hc, hr⟩ := Traced.exists_of_bind hr
  obtain ⟨_, -, hr⟩ := Traced.exists_of_bind hr
  obtain ⟨listed, -, hr⟩ := Traced.exists_of_bind hr
  obtain ⟨_, -, hr⟩ := Traced.exists_of_bind hr
  cases hr
  have hnil := List.isEmpty_iff.mp hok
  simp only [tally, List.append_eq_nil_iff] at hnil
  obtain ⟨⟨⟨rfl, hf⟩, rfl⟩, -⟩ := hnil
  exact ⟨hp, hf, hc⟩

end Heap

/-! ## Reports -/

section
variable {h : Heap} {v : Bool} {r : Report} {ops : List FreeList.Op} {L : List Nat}

theorem Trail.certified {vs : List Visit} {t p : Tag} (ht : Trail h.arena 16 vs h.arena.top)
    (hi : h.initialized = true) (hl : h.freeList.Tracks L)
    (hp : h.header prologueOffset = .ok p ∧ p.size = 8 ∧ p.allocated = true)
    (he : h.header h.arena.top = .ok t ∧ t.size = 0 ∧ t.allocated = true)
    (hf : (blockFindings h.freeList none vs).flatMap (·.2) = []) :
    h.Certified (vs.map Visit.toBlock) := by
  obtain ⟨hown, ho⟩ := orderly_of_blockFindings_eq_nil hf
  have hown : ∀ v ∈ vs, 8 ∣ v.block ∧ v.header = v.footer := fun v hv =>
    Visit.ownFindings_eq_nil_iff.mp (hown v hv)
  refine
    { prologue := ⟨p, (Heap.header_eq_ok_iff.mp hp.1).2, hp.2⟩
      walk := ?walk
      row := ht.row
      matched := List.forall_mem_map.mpr fun v hv => ?matched
      epilogue := ⟨t, (Heap.header_eq_ok_iff.mp he.1).2, he.2⟩
      settled := (List.isChain_map _).mpr ho.settled
      listed := List.forall_mem_map.mpr fun v hv hfree => ?listed }
  case walk =>
    rw [Heap.blocks, if_pos hi]
    exact Heap.blocksFrom_of_trail ht (by decide) (Nat.le_refl _) he.1 he.2.1
  case matched =>
    have hseen := ht.seen hv
    exact ⟨v.header, hseen.header, (hown v hv).2 ▸ hseen.footer, rfl, rfl⟩
  case listed =>
    obtain ⟨k, hk⟩ := Option.isSome_iff_exists.mp (ho.listed v hv hfree)
    rw [hl.toList_eq]
    exact hl.mem_of_link? (hown v hv).1 hk

theorem report_certifies (hi : h.initialized = true) (hl : FreeList.empty.run ops = .ok h.freeList)
    (hr : (h.report v).result = .ok r) (hok : r.ok = true) : ∃ bs, h.Certified bs := by
  obtain ⟨hp, hf, hc⟩ := Heap.report_clean hi hr hok
  obtain ⟨p, hp, hp8, hpa⟩ := Heap.checkPrologue_clean hp
  obtain ⟨t, hstop, hta⟩ := Heap.checkEnd_clean hc
  obtain ⟨htrail, -, ht, hz⟩ := Heap.walkFrom_trail hstop
  have hlist := (FreeList.Tracks.addressed FreeList.represents_empty).run hl
  cases hv : (h.walkFrom prologueOffset).visits with
  | nil =>
    rw [hv] at htrail
    have hend : prologueOffset = h.arena.top := htrail
    rw [← hend, hp] at ht
    cases ht
    omega
  | cons v vs =>
    rw [hv] at htrail hf
    obtain ⟨hb, hseen, htrail⟩ := htrail
    have hsize : v.header.size = 8 := by
      have hh := hseen.header
      rw [hb, (Heap.header_eq_ok_iff.mp hp).2] at hh
      rw [← Option.some.inj hh, hp8]
    have h16 : v.stop = 16 := by rw [Visit.stop, hb, hsize, prologueOffset]
    rw [h16] at htrail
    rw [walkFindings, List.flatMap_cons, List.append_eq_nil_iff] at hf
    exact ⟨_, htrail.certified hi hlist ⟨hp, hp8, hpa⟩ ⟨ht, hz, hta⟩ hf.2⟩

/-- Two blocks without a payload, the first of them free. -/
theorem report_certifies_hollow : ∃ h : Heap,
    FreeList.empty.run [.reserve 32, .pushFront 16] = .ok h.freeList ∧
      (h.report true).result = .ok ⟨2, 1, 8, []⟩ ∧ h.Certified [⟨16, 8, false⟩, ⟨24, 8, true⟩] := by
  let words : List UInt8 :=
    [0, 0, 0, 0, 9, 0, 0, 0, 9, 0, 0, 0, 8, 0, 0, 0, 8, 0, 0, 0, 9, 0, 0, 0, 9, 0, 0, 0, 1, 0, 0, 0]
  let arena : Arena := ⟨⟨words.toArray⟩, .zeros 32, none⟩
  let h : Heap := ⟨arena, Policy.fineGrained, true, (FreeList.empty.reserve 32).insertFront 16, {}⟩
  have hr : (h.report true).result = .ok ⟨2, 1, 8, []⟩ := by decide +kernel
  have hl : FreeList.empty.run [.reserve 32, .pushFront 16] = .ok h.freeList := by decide +kernel
  obtain ⟨bs, hb⟩ := report_certifies (h := h) rfl hl hr rfl
  have hw : h.blocks = .ok [⟨16, 8, false⟩, ⟨24, 8, true⟩] := by decide +kernel
  obtain rfl := Except.ok.inj (hb.walk.symm.trans hw)
  exact ⟨h, hl, hr, hb⟩

end

end BoundaryTag
