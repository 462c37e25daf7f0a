import BoundaryTag.Proofs.Audit

/-!
# A single corrupted word

One boundary word of a heap in order is overwritten, and the payloads may hold what they like, forged tags
included. A check finds it.

If the word is a footer, the walk goes on as before and one footer does not match. If it is a header, the
walk may be led astray; but all footers still stand, and a walk without a mismatch can be retraced from the
end of the heap, footer by footer (`Tiling.retrace`). So it visits the very blocks that are there, and
reads the headers that were there.

Main statements: `Tiling.retrace`, `Laid.findings_footer` and `reachable_corruption_detected`.
-/

namespace BoundaryTag

/-- The places of the words that delimit the blocks `bs` of a heap that ends at `e`. -/
inductive Boundary (bs : List Block) (e : Nat) : Nat → Prop where
  | header {b : Block} : b ∈ Block.prologue :: bs → Boundary bs e (b.offset - 4)
  | footer {b : Block} : b ∈ Block.prologue :: bs → Boundary bs e (b.stop - 8)
  | epilogue : Boundary bs e (e - 4)

theorem Tiling.retrace {a : Arena} {i e : Nat} {bs : List Block} {vs : List Visit} (ht : Tiling i bs e)
    (hf : ∀ b ∈ bs, a.tag? (b.stop - 8) = some b.tag) (hv : Trail a i vs e)
    (hm : ∀ v ∈ vs, v.header = v.footer) : vs = bs.map Block.visit := by
  -- from the end, where the last footer tells the size of the last visit
  induction bs using List.reverseRecOn generalizing e vs with
  | nil =>
    obtain rfl : i = e := ht
    by_contra hne
    exact absurd (hv.lt hne) (Nat.lt_irrefl i)
  | append_singleton bs b ih =>
    obtain ⟨hbs, hb, hstop⟩ := ht.split
    obtain rfl : b.stop = e := hstop
    have hleast := hb.least
    have hle := hbs.le
    rcases List.eq_nil_or_concat vs with rfl | ⟨us, v, rfl⟩
    · have : i = b.stop := hv
      simp only [Block.stop] at this
      omega
    rw [List.concat_eq_append] at hv hm ⊢
    obtain ⟨hus, hseen, hend⟩ := trail_concat.mp hv
    have hfoot : v.footer = b.tag := by
      have hs := hseen.footer
      rw [hend, hf b (by simp)] at hs
      exact (Option.some.inj hs).symm
    have hhead : v.header = b.tag := (hm v (by simp)).trans hfoot
    have hblock : v.block = b.offset := by
      rw [Visit.stop, hhead, hb.size_tag, Block.stop] at hend
      omega
    have hvisit : v = b.visit := by
      obtain ⟨o, t, f⟩ := v
      simp only at hblock hhead hfoot
      rw [hblock, hhead, hfoot, Block.visit]
    rw [hblock] at hus
    rw [ih hbs (fun c hc => hf c (by simp [hc])) hus (fun w hw => hm w (by simp [hw])), hvisit,
      List.map_append]
    rfl

/-! ## Writing one word -/

theorem Arena.tag?_setTag_of_ne {a : Arena} {i j : Nat} (t : Tag) (hi : i + 4 ≤ a.size) (h4 : 4 ∣ i)
    (h4' : 4 ∣ j) (hne : j ≠ i) : (a.setTag i t).tag? j = a.tag? j :=
  tag?_setTag_of_disjoint t hi (by omega)

theorem Block.visitWith_ownFindings {b : Block} (h8 : 8 ∣ b.offset) (t : Tag) :
    (b.visitWith t).ownFindings = if b.tag = t then [] else [.tagMismatch b.offset b.tag t] := by
  have h : b.offset % alignment = 0 := Nat.mod_eq_zero_of_dvd h8
  simp only [Visit.ownFindings, Block.visitWith, h, if_true, List.nil_append]
  rfl

section
variable {h : Heap} {bs : List Block} {L : List Nat} {b : Block} {i : Nat} {t : Tag}

theorem Legible.withTag (hl : Legible h L) (i : Nat) (t : Tag) : Legible (h.withTag i t) L where
  initialized := hl.initialized
  honest := by rw [Heap.withTag, Arena.announced_setTag, hl.honest]
  roomy := by
    rw [Heap.withTag, Arena.size_setTag]
    exact hl.roomy
  list := hl.list

theorem Laid.bounds (hl : Laid h bs L) : ∀ b ∈ Block.prologue :: bs,
    8 ∣ b.offset ∧ 8 ∣ b.size ∧ 8 ≤ b.offset ∧ 8 ≤ b.size ∧ b.stop ≤ h.arena.size := by
  refine List.forall_mem_cons.mpr ⟨⟨by decide, by decide, by decide, by decide, hl.tiled.sixteen_le⟩,
    fun b hb => ?_⟩
  have ht := hl.tiled.tiling
  have hp := ht.proper hb
  have := hp.least
  have := hl.tiled.offset_ge hb
  exact ⟨ht.dvd_offset (by decide) hb, hp.dvd, by omega, by omega, (ht.bounds hb).2⟩

theorem Laid.pairwise (hl : Laid h bs L) :
    (Block.prologue :: bs).Pairwise fun b c => b.stop ≤ c.offset :=
  List.pairwise_cons.mpr ⟨fun _ hb => hl.tiled.offset_ge hb, hl.tiled.tiling.pairwise⟩

/-! ## Footers -/

/-- The footer of `c` after `t` was written over that of `b`. -/
def footerAfter (b : Block) (t : Tag) (c : Block) : Tag := if c.stop = b.stop then t else c.tag

theorem Laid.flatMap_ownFindings (hl : Laid h bs L) (hb : b ∈ Block.prologue :: bs) (hne : t ≠ b.tag) :
    ((Block.prologue :: bs).map fun c => c.visitWith (footerAfter b t c)).flatMap Visit.ownFindings =
      [.tagMismatch b.offset b.tag t] := by
  have hbound := hl.bounds
  have hpair := hl.pairwise
  obtain ⟨xs, ys, hP⟩ := List.append_of_mem hb
  rw [hP] at hbound hpair ⊢
  obtain ⟨_, hys, hxy⟩ := List.pairwise_append.mp hpair
  have hb' := hbound b (by simp)
  have hother : ∀ c ∈ xs ++ ys, (c.visitWith (footerAfter b t c)).ownFindings = [] := by
    intro c hc
    have hc' := hbound c (by grind)
    have hstop : c.stop ≠ b.stop := by
      rcases List.mem_append.mp hc with hc | hc
      · have := hxy c hc b List.mem_cons_self
        simp only [Block.stop] at *
        omega
      · have := (List.pairwise_cons.mp hys).1 c hc
        simp only [Block.stop] at *
        omega
    rw [Block.visitWith_ownFindings hc'.1, footerAfter, if_neg hstop, if_pos rfl]
  have hzero : ∀ cs : List Block, (∀ c ∈ cs, c ∈ xs ++ ys) →
      (cs.map fun c => c.visitWith (footerAfter b t c)).flatMap Visit.ownFindings = [] := fun cs hcs =>
    List.flatMap_eq_nil_iff.mpr (List.forall_mem_map.mpr fun c hc => hother c (hcs c hc))
  rw [List.map_append, List.map_cons, List.flatMap_append, List.flatMap_cons,
    hzero xs fun c hc => List.mem_append_left _ hc, hzero ys fun c hc => List.mem_append_right _ hc,
    Block.visitWith_ownFindings hb'.1, footerAfter, if_pos rfl, if_neg (Ne.symm hne)]
  rfl

theorem Laid.trail_footer (hl : Laid h bs L) (hb : b ∈ Block.prologue :: bs) (t : Tag) :
    Trail (h.arena.setTag (b.stop - 8) t) 8
      ((Block.prologue :: bs).map fun c => c.visitWith (footerAfter b t c)) h.arena.size := by
  obtain ⟨h8, h8', hlo, hpos, hhi⟩ := hl.bounds b hb
  have hst : b.stop = b.offset + b.size := rfl
  refine hl.tiled.tiling.trail_prologue fun c hc => ?_
  obtain ⟨h8c, h8c', hloc, hposc, _⟩ := hl.bounds c hc
  obtain ⟨hh, hf⟩ := hl.tiled.tagged_prologue c hc
  have hstc : c.stop = c.offset + c.size := rfl
  refine ⟨(Arena.tag?_setTag_of_ne t (by omega) (by omega) (by omega) (by omega)).trans hh, ?_⟩
  by_cases he : c.stop = b.stop
  · rw [footerAfter, if_pos he, he]
    exact Arena.tag?_setTag t (by omega)
  · rw [footerAfter, if_neg he]
    exact (Arena.tag?_setTag_of_ne t (by omega) (by omega) (by omega) (by omega)).trans hf

theorem Laid.findings_footer (hl : Laid h bs L) (hs : Settled bs) (hb : b ∈ Block.prologue :: bs)
    (hne : t ≠ b.tag) :
    (h.withTag (b.stop - 8) t).findings L = [.tagMismatch b.offset b.tag t] := by
  have hl' := hl.legible.withTag (b.stop - 8) t
  have hsize : (h.withTag (b.stop - 8) t).arena.size = h.arena.size := Arena.size_setTag _ _ _
  obtain ⟨h8, h8', hlo, hpos, hhi⟩ := hl.bounds b hb
  have hst : b.stop = b.offset + b.size := rfl
  have hdvd := hl.tiled.dvd_size
  have hge := hl.tiled.sixteen_le
  -- no header is touched
  have hword : ∀ j, 4 ∣ j → j % 8 = 4 →
      (h.withTag (b.stop - 8) t).arena.tag? j = h.arena.tag? j := fun j hj hji =>
    Arena.tag?_setTag_of_ne t (by omega) (by omega) hj (by omega)
  have hpro : prologueFindings (h.withTag (b.stop - 8) t).arena = [] := by
    rw [prologueFindings, hword 4 (by decide) (by decide)]
    exact hl.prologueFindings_eq_nil
  have hmem : L.flatMap (memberFindings (h.withTag (b.stop - 8) t).arena) = [] := by
    refine (List.flatMap_eq_nil_iff.mpr fun o ho => ?_)
    have ho' := List.flatMap_eq_nil_iff.mp hl.memberFindings_eq_nil o ho
    have h8o := (hl.list.storable o ho).1
    rw [memberFindings_eq_nil_iff] at ho' ⊢
    rw [hsize, hword (o - 4) (by omega) (by omega)]
    exact ho'
  have hend : (h.withTag (b.stop - 8) t).walkFrom h.arena.size = ⟨[], .epilogue h.arena.size Tag.epilogue⟩ := by
    rw [← hsize]
    refine hl'.walkFrom_end ?_ size_epilogue
    rw [hsize, hword _ (by omega) (by omega)]
    exact hl.tiled.epilogue
  have hwalk : (h.withTag (b.stop - 8) t).walkFrom 8 = ⟨(Block.prologue :: bs).map fun c =>
      c.visitWith (footerAfter b t c), .epilogue h.arena.size Tag.epilogue⟩ := by
    rw [(hl.trail_footer hb t).walkFrom hl'.toReadable (by decide) (Nat.le_of_eq hsize.symm), hend,
      List.append_nil]
  have ho : Orderly h.freeList none (bs.map fun c => c.visitWith (footerAfter b t c)) :=
    hl.tiled.tiling.orderly hs fun c hc hf => hl.link?_isSome hc hf
  have hown := (flatMap_walkFindings ho).trans (hl.flatMap_ownFindings hb hne)
  rw [Heap.findings, prologueOffset, hwalk, hpro, hmem, hsize, endFindings_eq_nil, List.append_nil,
    List.append_nil]
  exact hown

/-! ## Headers and the epilogue -/

theorem Laid.findings_header (hl : Laid h bs L) (hb : b ∈ Block.prologue :: bs) (hne : t ≠ b.tag) :
    (h.withTag (b.offset - 4) t).findings L ≠ [] := by
  intro hf
  have ha := (hl.legible.withTag (b.offset - 4) t).audited hf
  have hsize : (h.withTag (b.offset - 4) t).arena.size = h.arena.size := Arena.size_setTag _ _ _
  obtain ⟨h8, h8', hlo, hpos, hhi⟩ := hl.bounds b hb
  have hst : b.stop = b.offset + b.size := rfl
  have hnew : (h.withTag (b.offset - 4) t).arena.tag? (b.offset - 4) = some t :=
    Arena.tag?_setTag t (by omega)
  -- no footer is touched
  have hfoot : ∀ c ∈ Block.prologue :: bs,
      (h.withTag (b.offset - 4) t).arena.tag? (c.stop - 8) = some c.tag := by
    intro c hc
    obtain ⟨h8c, h8c', hloc, hposc, _⟩ := hl.bounds c hc
    have hstc : c.stop = c.offset + c.size := rfl
    exact (Arena.tag?_setTag_of_ne t (by omega) (by omega) (by omega) (by omega)).trans
      (hl.tiled.tagged_prologue c hc).2
  rcases List.mem_cons.mp hb with rfl | hb
  · obtain ⟨t', h4, h8, _⟩ := ha.prologue
    exact hne (Option.some.inj ((hnew.symm.trans h4).trans (h8.symm.trans (hfoot _ List.mem_cons_self))))
  · have htrail := ha.trail
    rw [hsize] at htrail
    have hvs := hl.tiled.tiling.retrace (fun c hc => hfoot c (List.mem_cons_of_mem _ hc)) htrail
      fun v hv => (ha.matched v hv).2
    have hseen := htrail.seen (v := b.visit) (hvs ▸ List.mem_map.mpr ⟨b, hb, rfl⟩)
    exact hne (Option.some.inj (hnew.symm.trans hseen.header))

theorem Laid.findings_epilogue (hl : Laid h bs L) (ht : t.size ≠ 0 ∨ t.allocated = false) :
    (h.withTag (h.arena.size - 4) t).findings L ≠ [] := by
  intro hf
  have hge := hl.tiled.sixteen_le
  obtain ⟨t', ht', hz, hal⟩ := ((hl.legible.withTag _ t).audited hf).epilogue
  rw [show (h.withTag (h.arena.size - 4) t).arena.size = h.arena.size from Arena.size_setTag _ _ _,
    show (h.withTag (h.arena.size - 4) t).arena.tag? (h.arena.size - 4) = some t from
      Arena.tag?_setTag t (by omega)] at ht'
  cases ht'
  exact ht.elim (fun h => h hz) fun h => by simp [hal] at h

/-- Every word that delimits a block holds the block's tag. -/
theorem Laid.detects (hl : Laid h bs L) (hs : Settled bs) (hi : Boundary bs h.arena.size i) :
    ∃ old, h.tagAt i = .ok old ∧ ∀ t, t ≠ old → (i = h.arena.size - 4 → t.size ≠ 0 ∨ t.allocated = false) →
      (h.withTag i t).findings L ≠ [] := by
  cases hi with
  | @header b hb =>
    exact ⟨b.tag, Heap.tagAt_of_tag? (hl.tiled.tagged_prologue b hb).1, fun t hne _ =>
      hl.findings_header hb hne⟩
  | @footer b hb =>
    refine ⟨b.tag, Heap.tagAt_of_tag? (hl.tiled.tagged_prologue b hb).2, fun t hne _ => ?_⟩
    rw [hl.findings_footer hs hb hne]
    exact List.cons_ne_nil _ _
  | epilogue =>
    exact ⟨_, Heap.tagAt_of_tag? hl.tiled.epilogue, fun t _ hbad => hl.findings_epilogue (hbad rfl)⟩

end

section
variable {h₀ : Heap} {s : Session}

theorem reachable_corruption_detected (hf : Fresh h₀) (hr : Reachable h₀ s)
    (hi : s.heap.initialized = true) (v : Bool) :
    ∃ bs, s.heap.blocks = .ok bs ∧
      (∀ i, Boundary bs s.heap.arena.top i → ∃ old, s.heap.tagAt i = .ok old ∧
        ∀ t, t ≠ old → (i = s.heap.arena.top - 4 → t.size ≠ 0 ∨ t.allocated = false) →
          ∃ r, ((s.heap.withTag i t).report v).result = .ok r ∧ r.ok = false) ∧
      ∀ b ∈ Block.prologue :: bs, ∃ header, s.heap.header b.offset = .ok header ∧
        ∀ t, t ≠ header → ∃ r, ((s.heap.withTag (b.stop - 8) t).report v).result = .ok r ∧
          r.violations = [.tagMismatch b.offset header t] := by
  obtain ⟨bs, L, hs, -⟩ := (hr.valid hf).1.sound hi
  have hl := hs.laid
  refine ⟨bs, hl.blocks_eq, fun i hb => ?_, fun b hb => ?_⟩
  · rw [hl.tiled.top_eq] at hb ⊢
    obtain ⟨old, hold, hnew⟩ := hl.detects hs.settled hb
    refine ⟨old, hold, fun t hne hbad => ⟨_, (hl.legible.withTag i t).report_result v, ?_⟩⟩
    exact Bool.eq_false_iff.mpr fun hok => hnew t hne hbad (List.isEmpty_iff.mp hok)
  · have hge := (hl.bounds b hb).2.2.1
    exact ⟨b.tag, Heap.header_of_tag? (by omega) (hl.tiled.tagged_prologue b hb).1, fun t hne =>
      ⟨_, (hl.legible.withTag _ t).report_result v, hl.findings_footer hs.settled hb hne⟩⟩

/-- The client has forged two blocks in its payload, and the header before them is made to fit. -/
theorem reachable_corruption_detected_forged : ∃ (s : Session) (r : Report),
    Reachable (Heap.new (Arena.growable 100) .fineGrained) s ∧
    s.heap.readPayload ⟨16⟩ 0 8 = .ok ⟨#[9, 0, 0, 0, 25, 0, 0, 0]⟩ ∧
      ((s.heap.withTag 12 (Tag.make 8 true)).report false).result = .ok r ∧ r.ok = false := by
  let s₀ : Session := ⟨Heap.new (Arena.growable 100) .fineGrained, []⟩
  let s₁ := s₀.next .init (.ready (.ok ()))
  let s₂ := s₁.next (.malloc 24) (.handle (some ⟨16⟩))
  let s₃ := s₂.next (.write ⟨16⟩ 0 ⟨#[9, 0, 0, 0, 25, 0, 0, 0]⟩) .done
  have h₁ : Reachable s₀.heap s₁ := .step .start trivial (by decide +kernel)
  have h₂ : Reachable s₀.heap s₂ := .step h₁ trivial (by decide +kernel)
  have h₃ : Reachable s₀.heap s₃ :=
    .step h₂ ⟨⟨{ handle := ⟨16⟩, size := 24 }, .head _, rfl⟩, 24, by decide +kernel, by decide⟩
      (by decide +kernel)
  have he : s₃.heap.blocks = .ok [⟨16, 32, true⟩, ⟨48, 32, false⟩] := by decide +kernel
  obtain ⟨bs, hb, hword, -⟩ := reachable_corruption_detected (.growable _ _) h₃ (by decide +kernel) false
  cases hb.symm.trans he
  obtain ⟨old, hold, hnew⟩ := hword 12 (.header (b := ⟨16, 32, true⟩) (by simp))
  have htag : s₃.heap.tagAt 12 = .ok (Tag.make 32 true) := by decide +kernel
  cases hold.symm.trans htag
  obtain ⟨r, hr, hok⟩ := hnew (Tag.make 8 true) (by decide) (by decide +kernel)
  exact ⟨s₃, r, h₃, by decide +kernel, hr, hok⟩

end

end BoundaryTag
