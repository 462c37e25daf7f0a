import BoundaryTag.Proofs.Scan

/-!
# Walking and checking a heap

On a heap laid out as blocks, the walk from block to block visits exactly these blocks (`blocks_eq`,
`walk_eq`), and if no two free ones lie side by side, a check finds nothing to complain about
(`report_eq`). So a heap may check itself before an operation without any effect (`selfCheck_meets`).
-/

namespace BoundaryTag

/-! ## Walks -/

def Block.visitWith (b : Block) (footer : Tag) : Visit := ⟨b.offset, b.tag, footer⟩

def Block.visit (b : Block) : Visit := ⟨b.offset, b.tag, b.tag⟩

/-- The prologue, which a walk visits like a block. -/
def Block.prologue : Block := ⟨8, 8, true⟩

theorem size_epilogue : Tag.epilogue.size = 0 := by decide

theorem size_prologue : Block.prologue.tag.size = 8 := Tag.size_make (by decide) (by decide) true

section
variable {a : Arena} {i e : Nat} {bs : List Block} {f : Block → Tag}

theorem Tiling.trail (ht : Tiling i bs e)
    (hb : ∀ b ∈ bs, a.tag? (b.offset - 4) = some b.tag ∧ a.tag? (b.stop - 8) = some (f b)) :
    Trail a i (bs.map fun b => b.visitWith (f b)) e := by
  induction bs generalizing i with
  | nil => exact ht
  | cons b bs ih =>
    obtain ⟨rfl, hp, ht⟩ := ht
    obtain ⟨hh, hf⟩ := hb b List.mem_cons_self
    have hleast := hp.least
    have hsize : (b.visitWith (f b)).header.size = b.size := hp.size_tag
    have hstop : (b.visitWith (f b)).stop = b.stop := congrArg (b.offset + ·) hsize
    refine ⟨rfl, ⟨by rw [hsize]; omega, hh, by rwa [hstop]⟩, ?_⟩
    rw [hstop]
    exact ih ht fun c hc => hb c (List.mem_cons_of_mem _ hc)

theorem Tiling.trail_prologue (ht : Tiling 16 bs e)
    (hb : ∀ b ∈ Block.prologue :: bs,
      a.tag? (b.offset - 4) = some b.tag ∧ a.tag? (b.stop - 8) = some (f b)) :
    Trail a 8 ((Block.prologue :: bs).map fun b => b.visitWith (f b)) e := by
  obtain ⟨⟨hh, hf⟩, hb⟩ := List.forall_mem_cons.mp hb
  have hstop : (Block.prologue.visitWith (f Block.prologue)).stop = 16 :=
    congrArg (8 + ·) size_prologue
  have hpos : Block.prologue.tag.size ≠ 0 := size_prologue ▸ by decide
  refine ⟨rfl, ⟨hpos, hh, by rwa [hstop]⟩, ?_⟩
  rw [hstop]
  exact ht.trail hb

end

section
variable {h : Heap} {bs : List Block} {L : List Nat}

theorem Laid.legible (hl : Laid h bs L) : Legible h L :=
  ⟨⟨hl.initialized, hl.tiled.honest, hl.tiled.sixteen_le⟩, hl.list⟩

theorem Tiled.tagged_prologue (ht : Tiled h.arena bs) : ∀ b ∈ Block.prologue :: bs, h.arena.Tagged b :=
  List.forall_mem_cons.mpr ⟨ht.prologue, ht.tagged⟩

theorem Readable.walkFrom_end (hl : Readable h) {t : Tag} (ht : h.arena.tag? (h.arena.size - 4) = some t)
    (hz : t.size = 0) : h.walkFrom h.arena.size = ⟨[], .epilogue h.arena.size t⟩ := by
  rcases hl.walkFrom_cases (Nat.le_trans (by decide) hl.roomy) (Nat.le_refl _) with
    ⟨w, hw, he⟩ | ⟨v, hb, hv, hle, -⟩
  · cases hw with
    | epilogue ht' _ =>
      cases Option.some.inj (ht'.symm.trans ht)
      exact he
    | overrun ht' ho =>
      cases Option.some.inj (ht'.symm.trans ht)
      omega
  · have := hv.positive
    simp only [Visit.stop] at hle
    omega

theorem Laid.walkFrom_first (hl : Laid h bs L) :
    h.walkFrom 16 = ⟨bs.map Block.visit, .epilogue h.arena.size Tag.epilogue⟩ := by
  have ht : Trail h.arena 16 (bs.map Block.visit) h.arena.size := hl.tiled.tiling.trail hl.tiled.tagged
  rw [ht.walkFrom hl.legible.toReadable (by decide) (Nat.le_refl _),
    hl.legible.walkFrom_end hl.tiled.epilogue size_epilogue, List.append_nil]

theorem Laid.walk_eq (hl : Laid h bs L) :
    h.walkFrom prologueOffset =
      ⟨(Block.prologue :: bs).map Block.visit, .epilogue h.arena.size Tag.epilogue⟩ := by
  have ht : Trail h.arena 8 ((Block.prologue :: bs).map Block.visit) h.arena.size :=
    hl.tiled.tiling.trail_prologue hl.tiled.tagged_prologue
  rw [prologueOffset, ht.walkFrom hl.legible.toReadable (by decide) (Nat.le_refl _),
    hl.legible.walkFrom_end hl.tiled.epilogue size_epilogue, List.append_nil]

theorem Block.Proper.toBlock_visit {b : Block} (hb : b.Proper) : b.visit.toBlock = b := by
  show (⟨b.offset, b.tag.size, b.tag.allocated⟩ : Block) = b
  rw [hb.size_tag, hb.allocated_tag]

theorem Laid.blocks_eq (hl : Laid h bs L) : h.blocks = .ok bs := by
  have hb : bs.map (Visit.toBlock ∘ Block.visit) = bs :=
    (List.map_congr_left fun b hb => (hl.tiled.tiling.proper hb).toBlock_visit).trans (List.map_id bs)
  rw [hl.legible.blocks_eq, firstBlock, hl.walkFrom_first, List.map_map, hb]

end

/-! ## Findings -/

theorem visit_ownFindings {b : Block} (h8 : 8 ∣ b.offset) : b.visit.ownFindings = [] := by
  have : b.offset % alignment = 0 := Nat.mod_eq_zero_of_dvd h8
  simp only [Visit.ownFindings, Block.visit, this, if_true, List.append_nil]

theorem Tiling.orderly {l : FreeList} {i e : Nat} {bs : List Block} {f : Block → Tag} (ht : Tiling i bs e)
    (hs : Settled bs) (hl : ∀ b ∈ bs, b.allocated = false → (l.link? b.offset).isSome) :
    Orderly l none (bs.map fun b => b.visitWith (f b)) := by
  have hal : ∀ b ∈ bs, (b.visitWith (f b)).header.allocated = b.allocated := fun b hb =>
    (ht.proper hb).allocated_tag
  refine ⟨?listed, fun _ _ => Or.inr rfl, ?settled⟩
  case listed => exact List.forall_mem_map.mpr fun b hb hf => hl b hb ((hal b hb).symm.trans hf)
  case settled =>
    refine (List.isChain_map _).mpr (List.IsChain.imp_of_mem_imp (fun b c hb hc hbc => ?_) hs)
    rwa [hal b hb, hal c hc]

theorem flatMap_walkFindings {l : FreeList} {v : Visit} {vs : List Visit} (ho : Orderly l none vs) :
    (walkFindings l (v :: vs)).flatMap (·.2) = (v :: vs).flatMap Visit.ownFindings := by
  rw [walkFindings, List.flatMap_cons, List.flatMap_cons, ho.flatMap_blockFindings]

theorem tally_visits {i e : Nat} {bs : List Block} (ht : Tiling i bs e) :
    tally (bs.map Block.visit) [] =
      ⟨bs.length, (freeBlocks bs).length, ((freeBlocks bs).map (·.size)).sum, []⟩ := by
  have hf : (bs.map Block.visit).filter (fun v => !v.header.allocated) =
      (freeBlocks bs).map Block.visit := by
    rw [List.filter_map, freeBlocks]
    refine congrArg _ (List.filter_congr fun b hb => ?_)
    exact congrArg (!·) (ht.proper hb).allocated_tag
  have hsum : ∀ cs : List Block, (∀ b ∈ cs, b.Proper) →
      (cs.map Block.visit).foldr (fun v n => v.header.size + n) 0 = (cs.map (·.size)).sum := by
    intro cs hcs
    induction cs with
    | nil => rfl
    | cons b cs ih =>
      have hb : b.visit.header.size = b.size := (hcs b List.mem_cons_self).size_tag
      rw [List.map_cons, List.foldr_cons, ih fun c hc => hcs c (List.mem_cons_of_mem _ hc), hb]
      rfl
  rw [tally, hf, hsum _ fun b hb => ht.proper (mem_freeBlocks.mp hb).1]
  simp only [List.length_map]

/-! ## Checks -/

section
variable {h : Heap} {bs : List Block} {L : List Nat}

theorem Laid.span_eq (hl : Laid h bs L) : h.span = .ok ⟨12, h.arena.size - 4⟩ := hl.legible.span_eq

theorem Laid.span_contains (hl : Laid h bs L) {b : Block} (hb : b ∈ bs) :
    Span.contains ⟨12, h.arena.size - 4⟩ b.offset = true := by
  have := hl.tiled.tiling.bounds hb
  have := (hl.tiled.tiling.proper hb).least
  simp only [Span.contains, Block.stop, decide_eq_true_eq] at *
  omega

theorem Laid.memberFindings_eq_nil (hl : Laid h bs L) : L.flatMap (memberFindings h.arena) = [] := by
  refine List.flatMap_eq_nil_iff.mpr fun o ho => ?_
  obtain ⟨b, hb, hf, rfl⟩ := hl.mem_list.mp ho
  have ha : b.tag.allocated = false := (hl.tiled.tiling.proper hb).allocated_tag.trans hf
  rw [memberFindings, hl.span_contains hb, (hl.tiled.tagged b hb).1, Option.any_some, ha]
  rfl

theorem Laid.link?_isSome (hl : Laid h bs L) {b : Block} (hb : b ∈ bs) (hf : b.allocated = false) :
    (h.freeList.link? b.offset).isSome := by
  rw [hl.list.link?_isSome (hl.storable hb).1, decide_eq_true_eq]
  exact (hl.offset_mem_list hb).mpr hf

theorem Laid.dvd_offset (hl : Laid h bs L) : ∀ b ∈ Block.prologue :: bs, 8 ∣ b.offset :=
  List.forall_mem_cons.mpr ⟨by decide, fun _ hb => hl.tiled.tiling.dvd_offset (by decide) hb⟩

theorem Laid.prologueFindings_eq_nil (hl : Laid h bs L) : prologueFindings h.arena = [] := by
  rw [prologueFindings, hl.tiled.prologue.1]
  rfl

theorem endFindings_eq_nil (e : Nat) : (WalkEnd.epilogue e Tag.epilogue).findings e = [] := by
  simp [WalkEnd.findings, show Tag.epilogue.allocated = true by decide]

theorem Laid.findings_eq_nil (hl : Laid h bs L) (hs : Settled bs) : h.findings L = [] := by
  have hown : ((Block.prologue :: bs).map Block.visit).flatMap Visit.ownFindings = [] :=
    List.flatMap_eq_nil_iff.mpr (List.forall_mem_map.mpr fun b hb =>
      visit_ownFindings (hl.dvd_offset b hb))
  have ho : Orderly h.freeList none (bs.map Block.visit) :=
    hl.tiled.tiling.orderly hs fun b hb hf => hl.link?_isSome hb hf
  have hw : (walkFindings h.freeList ((Block.prologue :: bs).map Block.visit)).flatMap (·.2) = [] :=
    (flatMap_walkFindings ho).trans hown
  rw [Heap.findings, hl.walk_eq, hl.memberFindings_eq_nil, hl.prologueFindings_eq_nil, hw,
    endFindings_eq_nil]
  rfl

theorem Laid.report_eq (hl : Laid h bs L) (hs : Settled bs) (v : Bool) :
    (h.report v).result = .ok
      ⟨bs.length, (freeBlocks bs).length, ((freeBlocks bs).map (·.size)).sum, []⟩ := by
  rw [hl.legible.report_result, hl.walk_eq, hl.findings_eq_nil hs, List.map_cons, List.tail_cons,
    tally_visits hl.tiled.tiling]

end

namespace Heap

open HeapM

variable {h : Heap} {bs : List Block} {L : List Nat}

theorem check_meets (hl : Laid h bs L) (hs : Settled bs) (v : Bool) :
    Meets (check v) h (fun r h' => h' = h ∧
      r = ⟨bs.length, (freeBlocks bs).length, ((freeBlocks bs).map (·.size)).sum, []⟩) NoFault := by
  have hr : (check v).run h = ⟨⟨(h.report v).result, (h.report v).events⟩, h⟩ := check_run v h
  rw [hl.report_eq hs] at hr
  exact Meets.of_run hr ⟨rfl, rfl⟩

theorem check_run_of_uninitialized (hi : h.initialized = false) (v : Bool) :
    (check v).run h = ⟨⟨.ok {}, [.unchecked]⟩, h⟩ := by
  rw [check_run, report, hi]
  rfl

theorem selfCheck_run_of_uninitialized (hi : h.initialized = false) (c : Caller) :
    (selfCheck c).run h = ⟨⟨.ok (), []⟩, h⟩ := by
  rw [selfCheck, run_bind_of_ok (run_view _ h), run_bind_of_ok (run_view _ h), hi, Bool.and_false]
  rfl

theorem selfCheck_meets (hl : Laid h bs L) (hs : Settled bs) (c : Caller) :
    Meets (selfCheck c) h (fun _ h' => h' = h) NoFault := by
  refine Meets.view_bind (Meets.view_bind ?_)
  split
  · refine Meets.tell_bind ((check_meets hl hs _).then ?_)
    intro _ _ hq
    obtain ⟨rfl, _⟩ := hq
    exact Meets.pure rfl
  · exact Meets.pure rfl

end Heap

end BoundaryTag
