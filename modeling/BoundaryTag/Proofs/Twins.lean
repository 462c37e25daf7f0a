import BoundaryTag.Heap.Blocks
import BoundaryTag.Proofs.Agree
import BoundaryTag.Proofs.Payload
import BoundaryTag.Proofs.Resize
import BoundaryTag.Proofs.Unready

/-!
# Heaps that differ in their payloads

`Twin h g` relates two heaps that are laid out in the same way, with the same policy, the same counters and room
to grow to the same size. What the client wrote, what is left over of former blocks, and where the memory comes
from may differ. Every operation takes twins to twins, with the same result, and a fault that meets one of them
meets the other.

Main statements: `Twin.sameView` (no query tells twins apart), `init_agree`, `malloc_agree`, `tryMalloc_agree`,
`free_agree`, `realloc_agree`.
-/

namespace BoundaryTag

/-! ## What a heap tells about itself -/

structure Heap.SameView (h g : Heap) : Prop where
  initialized : g.initialized = h.initialized
  top : g.arena.top = h.arena.top
  span : g.span = h.span
  blocks : g.blocks = h.blocks
  usableSize : ∀ bs, h.blocks = .ok bs → ∀ b ∈ bs, g.usableSize ⟨b.offset⟩ = h.usableSize ⟨b.offset⟩
  freeList : g.freeList.toList = h.freeList.toList
  usage : g.usage = h.usage
  report : ∀ v, (g.report v).result = (h.report v).result

section
variable {h g : Heap} {bs bs' : List Block} {L L' : List Nat}

theorem Laid.unique (hl : Laid h bs L) (hl' : Laid h bs' L') :
    bs' = bs ∧ L' = L :=
  ⟨Except.ok.inj (hl'.blocks_eq.symm.trans hl.blocks_eq),
    hl'.list.toList_eq.symm.trans hl.list.toList_eq⟩

theorem Laid.size_eq (hl : Laid h bs L) (hg : Laid g bs L') : g.arena.size = h.arena.size :=
  hg.tiled.tiling.end_unique hl.tiled.tiling

theorem Laid.header_listed (hl : Laid h bs L) (hg : Laid g bs L) {o : Nat} (ho : o ∈ L) :
    g.header o = h.header o := by
  obtain ⟨b, hb, -, rfl⟩ := hl.mem_list.mp ho
  rw [hl.tiled.header hb, hg.tiled.header hb]

theorem Laid.usage_eq (hl : Laid h bs L) (hg : Laid g bs L') (hc : g.counters = h.counters) :
    g.usage = h.usage := by
  have htable : g.freeList.tableBytes = h.freeList.tableBytes := by
    rw [FreeList.tableBytes, FreeList.tableBytes, hg.table, hl.table, hl.size_eq hg]
  rw [hl.usage_eq_counters, hg.usage_eq_counters, hc, htable]

theorem Laid.sameView (hl : Laid h bs L) (hg : Laid g bs L) (hs : Settled bs)
    (hc : g.counters = h.counters) : h.SameView g where
  initialized := hg.initialized.trans hl.initialized.symm
  top := by rw [hg.tiled.top_eq, hl.tiled.top_eq, hl.size_eq hg]
  span := by rw [hg.span_eq, hl.span_eq, hl.size_eq hg]
  blocks := hg.blocks_eq.trans hl.blocks_eq.symm
  usableSize bs' he b hb := by
    cases he.symm.trans hl.blocks_eq
    rw [hg.usableSize_eq hb rfl, hl.usableSize_eq hb rfl]
  freeList := hg.list.toList_eq.trans hl.list.toList_eq.symm
  usage := hl.usage_eq hg hc
  report v := (hg.report_eq hs v).trans (hl.report_eq hs v).symm

end

/-! ## Twins -/

structure Heap.Alike (h g : Heap) : Prop where
  policy : g.policy = h.policy
  ceiling : g.arena.ceiling = h.arena.ceiling
  counters : g.counters = h.counters

theorem Heap.Alike.symm {h g : Heap} (ha : h.Alike g) : g.Alike h :=
  ⟨ha.policy.symm, ha.ceiling.symm, ha.counters.symm⟩

theorem Heap.Alike.trans {h g k : Heap} (ha : h.Alike g) (ha' : g.Alike k) : h.Alike k :=
  ⟨ha'.policy.trans ha.policy, ha'.ceiling.trans ha.ceiling, ha'.counters.trans ha.counters⟩

theorem Heap.Alike.frame {h g h' g' : Heap} {bs bs' : List Block} (ha : h.Alike g) (hf : Frame h h' bs)
    (hf' : Frame g g' bs') (hc : g'.counters = h'.counters) : h'.Alike g' :=
  ⟨by rw [hf'.policy, hf.policy, ha.policy], by rw [hf'.ceiling, hf.ceiling, ha.ceiling], hc⟩

inductive Twin (h g : Heap) : Prop
  | idle : h.initialized = false → g.initialized = false → g.arena.top = h.arena.top →
      h.freeList.toList = [] → g.freeList = h.freeList → h.Alike g → Twin h g
  | live {bs : List Block} {L : List Nat} : Sound h bs L → Sound g bs L → h.Alike g → Twin h g

section
variable {h g : Heap} {bs xs ys : List Block} {b : Block} {L : List Nat} {n size payload : Nat}
  {p : Handle}

theorem Twin.alike (ht : Twin h g) : h.Alike g := by
  cases ht with
  | idle _ _ _ _ _ ha => exact ha
  | live _ _ ha => exact ha

theorem Twin.symm (ht : Twin h g) : Twin g h := by
  cases ht with
  | idle hi hi' htop hnil hlist ha =>
    exact .idle hi' hi htop.symm (hlist ▸ hnil) hlist.symm ha.symm
  | live hs hg ha => exact .live hg hs ha.symm

theorem Twin.sound (ht : Twin h g) (hs : Sound h bs L) : Sound g bs L := by
  cases ht with
  | idle hi => cases hi.symm.trans hs.laid.initialized
  | live hs' hg =>
    obtain ⟨rfl, rfl⟩ := hs'.laid.unique hs.laid
    exact hg

theorem Twin.trans {k : Heap} (ht : Twin h g) (ht' : Twin g k) : Twin h k := by
  cases ht with
  | idle hi hi' htop hnil hlist ha =>
    cases ht' with
    | idle _ hi'' htop' _ hlist' ha' =>
      exact .idle hi hi'' (htop'.trans htop) hnil (hlist'.trans hlist) (ha.trans ha')
    | live hs => cases hi'.symm.trans hs.laid.initialized
  | live hs hg ha => exact .live hs (ht'.sound hg) (ha.trans ht'.alike)

theorem Twin.withCheck (ht : Twin h g) (level : CheckLevel) :
    Twin (h.withCheck level) (g.withCheck level) := by
  have hp : (g.withCheck level).policy = (h.withCheck level).policy :=
    congrArg (·.withCheck level) ht.alike.policy
  cases ht with
  | idle hi hi' htop hnil hlist ha => exact .idle hi hi' htop hnil hlist ⟨hp, ha.ceiling, ha.counters⟩
  | live hs hg ha => exact .live (hs.withCheck level) (hg.withCheck level) ⟨hp, ha.ceiling, ha.counters⟩

theorem Twin.sameView (ht : Twin h g) : h.SameView g := by
  cases ht with
  | live hs hg ha => exact hs.laid.sameView hg.laid hs.settled ha.counters
  | idle hi hi' htop hnil hlist ha =>
    refine ⟨hi'.trans hi.symm, htop, ?_, ?_, fun bs he b hb => ?_, congrArg _ hlist, ?_, fun v => ?_⟩
    · simp [Heap.span, hi, hi']
    · simp [Heap.blocks, hi, hi']
    · rw [Heap.blocks, hi] at he
      cases he
      cases hb
    · rw [Heap.usage, Heap.usage, hlist, hnil, ha.counters]
      rfl
    · simp [Heap.report, hi, hi']

/-! ## Allocation -/

theorem Laid.betterFit_eq (hl : Laid h bs L) (hg : Laid g bs L) (hp : g.policy = h.policy)
    (best : Option (Nat × Nat)) {candidates : List Nat} (hc : ∀ o ∈ candidates, o ∈ L) :
    g.betterFit size best candidates = h.betterFit size best candidates := by
  induction candidates generalizing best with
  | nil => rfl
  | cons o rest ih =>
    have ih := fun best => ih best fun p hp => hc p (List.mem_cons_of_mem _ hp)
    simp only [Heap.betterFit, hl.header_listed hg (hc o List.mem_cons_self), hp, ih]

theorem Laid.findFit_eq (hl : Laid h bs L) (hg : Laid g bs L) (hp : g.policy = h.policy) :
    g.findFit size = h.findFit size := by
  rw [Heap.findFit, Heap.findFit, hl.list.toList_eq, hg.list.toList_eq]
  exact hl.betterFit_eq hg hp none fun _ => id

theorem Heap.refused?_congr (ht : g.arena.top = h.arena.top)
    (hr : g.arena.remaining = h.arena.remaining) : g.refused? n = h.refused? n := by
  rw [Heap.refused?, Heap.refused?, Arena.refusal?, Arena.refusal?, ht, hr]

namespace Heap

open HeapM

theorem selfCheck_agree (hs : Sound h bs L) (hg : Sound g bs L) (c : Caller) :
    Agree (selfCheck c) h g (fun _ h' g' => h' = h ∧ g' = g) SameView :=
  .of_noFault (selfCheck_meets hs.laid hs.settled c) (selfCheck_meets hg.laid hg.settled c)
    fun _ _ _ _ he he' => ⟨rfl, he, he'⟩

theorem extend_agree (hs : Sound h bs L) (hg : Sound g bs L) (ha : h.Alike g)
    (hm : h.arena.ceiling ≤ maxBlockSize) (h8 : 8 ∣ n) (hn : 16 ≤ n) :
    Agree (extend n) h g (fun _ => Twin) SameView := by
  have hsize := hs.laid.size_eq hg.laid
  have hrf : g.refused? n = h.refused? n := by
    apply refused?_congr
    · rw [hs.laid.tiled.top_eq, hg.laid.tiled.top_eq, hsize]
    · rw [Arena.remaining_eq, Arena.remaining_eq, ha.ceiling, hsize]
  cases hr : h.refused? n with
  | some e =>
    have hrun := extend_run_of_refused hr
    have hrun' := extend_run_of_refused (hrf.trans hr)
    refine .of_ok (congrArg (·.result) hrun) (congrArg (·.result) hrun') ?_
    rw [hrun, hrun']
    exact .live hs hg ha
  | none =>
    have hm' : g.arena.ceiling ≤ maxBlockSize := ha.ceiling.trans_le hm
    have hsummit : g.summit bs n = h.summit bs n := by rw [summit, summit, hsize]
    have hx := extend_sound hg h8 hn (hrf.trans hr)
    rw [hsummit, hsize] at hx
    refine .of_meets (extend_sound hs h8 hn hr) hx ?_
      (fun e _ _ _ he => absurd he (not_oversize hm e))
      (fun _ e _ _ _ he => absurd he (not_oversize hm' e))
      (fun e _ _ _ he => absurd he (not_oversize hm e))
    intro _ _ h' g' hq hq'
    obtain ⟨rfl, hs', hf, hc⟩ := hq
    obtain ⟨rfl, hg', hf', hc'⟩ := hq'
    exact ⟨rfl, .live hs' hg' (ha.frame hf hf' (by rw [hc', hc, ha.counters]))⟩

theorem obtain_agree (hs : Sound h bs L) (hg : Sound g bs L) (ha : h.Alike g)
    (hm : h.arena.ceiling ≤ maxBlockSize) (h8 : 8 ∣ size) (hn : 16 ≤ size) :
    Agree (obtain size) h g (fun _ => Twin) SameView := by
  obtain ⟨r, hr, -⟩ := hs.laid.findFit size
  refine Agree.read_bind hr ((hs.laid.findFit_eq hg.laid ha.policy).trans hr) ?_
  cases r with
  | some o => exact Agree.pure (.live hs hg ha)
  | none =>
    refine Agree.view_bind rfl (congrArg _ ha.policy) ?_
    have h8' := h.policy.chunk_dvd
    exact extend_agree hs hg ha hm (by omega) (Nat.le_trans hn (Nat.le_max_left _ _))

theorem place_agree (hs : Sound h (xs ++ b :: ys) L) (hg : Sound g (xs ++ b :: ys) L) (ha : h.Alike g)
    (hb : b.allocated = false) (h8 : 8 ∣ size) (hn : 16 ≤ size) (hle : size ≤ b.size) :
    Agree (place b.offset size) h g (fun _ => Twin) SameView := by
  have hx := place_sound hg hb h8 hn hle
  rw [ha.policy, ha.counters] at hx
  refine .of_meets (place_sound hs hb h8 hn hle) hx ?_ ?_ ?_ ?_
  · intro _ _ h' g' hq hq'
    obtain ⟨hs', hf, hc⟩ := hq
    obtain ⟨hg', hf', hc'⟩ := hq'
    exact ⟨rfl, .live hs' hg' (ha.frame hf hf' (EStateM.Result.ok.inj (hc'.symm.trans hc)).2)⟩
  · intro _ _ h' g' hq hq'
    obtain ⟨rfl, -, hc, hl⟩ := hq
    obtain ⟨rfl, -, hc', hl'⟩ := hq'
    exact ⟨rfl, hl.sameView hl' (hs.settled.carve hb) (EStateM.Result.error.inj (hc'.symm.trans hc)).2⟩
  · intro _ _ _ _ hq hq'
    cases hq.2.2.symm.trans hq'.2.2.1
  · intro _ _ _ _ hq hq'
    cases hq.2.2.1.symm.trans hq'.2.2

theorem serve_agree (hs : Sound h bs L) (hg : Sound g bs L) (ha : h.Alike g)
    (hm : h.arena.ceiling ≤ maxBlockSize) (hp : 1 ≤ payload) :
    Agree (serve payload) h g (fun _ => Twin) SameView := by
  unfold serve
  refine Agree.view_bind hs.laid.initialized hg.laid.initialized ?_
  rw [if_pos rfl]
  cases hsize : blockSizeFor payload with
  | error e => exact Agree.pure (.live hs hg ha)
  | ok size =>
    obtain ⟨h8, -, -, hn⟩ := blockSizeFor_spec hsize
    refine ((obtain_agree hs hg ha hm h8 (hn hp)).and_meets (obtain_meets hs h8 (hn hp))).seq ?_
    cases h.shortage? bs size with
    | some e =>
      intro _ _ _ hq
      obtain ⟨ht, rfl, -⟩ := hq
      exact Agree.pure ht
    | none =>
      intro _ h' g' hq
      obtain ⟨ht, xs, b, ys, n, L', hchosen, rfl, hs', -⟩ := hq
      have hsrc := hchosen.source hs.laid.tiled
      refine (place_agree hs' (ht.sound hs') ht.alike hsrc.free h8 (hn hp) hsrc.le).seq ?_
      exact fun _ _ _ ht => Agree.pure ht

theorem tryMalloc_agree (ht : Twin h g) (hm : h.arena.ceiling ≤ maxBlockSize) :
    Agree (tryMalloc payload) h g (fun _ => Twin) SameView := by
  cases ht with
  | idle hi hi' htop hnil hlist ha =>
    have hrun := tryMalloc_run_of_uninitialized hi payload
    have hrun' := tryMalloc_run_of_uninitialized hi' payload
    refine .of_ok (congrArg (·.result) hrun) (congrArg (·.result) hrun') ?_
    rw [hrun, hrun']
    exact .idle hi hi' htop hnil hlist ha
  | live hs hg ha =>
    apply (selfCheck_agree hs hg .malloc).seq
    rintro _ _ _ ⟨rfl, rfl⟩
    by_cases hp : payload = 0
    · rw [if_pos hp]
      exact Agree.pure (.live hs hg ha)
    · rw [if_neg hp]
      apply (serve_agree hs hg ha hm (Nat.pos_of_ne_zero hp)).seq
      exact fun _ _ _ ht => Agree.pure ht

theorem malloc_agree (ht : Twin h g) (hm : h.arena.ceiling ≤ maxBlockSize) :
    Agree (malloc payload) h g (fun _ => Twin) SameView := by
  apply (tryMalloc_agree ht hm).seq
  rintro (e | q) h' g' ht
  · exact Agree.tell_bind (Agree.pure ht)
  · exact Agree.pure ht

/-! ## Freeing and reallocating -/

theorem free_agree (hs : Sound h (xs ++ b :: ys) L) (hg : Sound g (xs ++ b :: ys) L) (ha : h.Alike g)
    (hm : h.arena.ceiling ≤ maxBlockSize) (hb : b.allocated = true) (hp : p.offset = b.offset) :
    Agree (free p) h g (fun _ => Twin) SameView := by
  have hm' : g.arena.ceiling ≤ maxBlockSize := ha.ceiling.trans_le hm
  refine .of_meets (free_meets hs hb hp) (free_meets hg hb hp) ?_
    (fun e _ _ _ he => absurd he (not_oversize hm e))
    (fun _ e _ _ _ he => absurd he (not_oversize hm' e))
    (fun e _ _ _ he => absurd he (not_oversize hm e))
  intro _ _ h' g' hq hq'
  obtain ⟨hs', hf, hc⟩ := hq
  obtain ⟨hg', hf', hc'⟩ := hq'
  exact ⟨rfl, .live hs' hg' (ha.frame hf hf' (by rw [hc', hc, ha.counters]))⟩

theorem growInPlace_agree (hs : Sound h (xs ++ b :: ys) L) (hg : Sound g (xs ++ b :: ys) L)
    (ha : h.Alike g) (hm : h.arena.ceiling ≤ maxBlockSize) (hb : b.allocated = true) {need : Nat}
    {w : Growth} (hw : w.Feasible b.size need (tagBelow xs) (tagAbove ys)) :
    Agree (growInPlace b.offset b.size (tagBelow xs) (tagAbove ys) w) h g (fun _ => Twin) SameView := by
  have hx := growInPlace_sound hg hb hw
  rw [ha.counters] at hx
  have hno := not_oversize hm
  have hno' := not_oversize (ha.ceiling.trans_le hm)
  refine .of_meets (growInPlace_sound hs hb hw) hx ?_ ?_ ?_ ?_
  · intro _ _ h' g' hq hq'
    obtain ⟨rfl, -, hs', hf, -, hc⟩ := hq
    obtain ⟨rfl, -, hg', hf', -, hc'⟩ := hq'
    exact ⟨rfl, .live hs' hg' (ha.frame hf hf' (EStateM.Result.ok.inj (hc'.symm.trans hc)).2)⟩
  · intro _ _ h' g' hq hq'
    obtain ⟨⟨rfl, -⟩, hc, hl⟩ := hq.resolve_left (hno _)
    obtain ⟨⟨rfl, -⟩, hc', hl'⟩ := hq'.resolve_left (hno' _)
    exact ⟨rfl, hl.sameView hl' (hs.settled.grown w) (EStateM.Result.error.inj (hc'.symm.trans hc)).2⟩
  · intro _ _ _ _ hq hq'
    cases hq.2.2.2.2.2.symm.trans (hq'.resolve_left (hno' _)).2.1
  · intro _ _ _ _ hq hq'
    cases (hq.resolve_left (hno _)).2.1.symm.trans hq'.2.2.2.2.2

theorem relocate_agree (hs : Sound h (xs ++ b :: ys) L) (hg : Sound g (xs ++ b :: ys) L) (ha : h.Alike g)
    (hm : h.arena.ceiling ≤ maxBlockSize) (hb : b.allocated = true) (hp : p.offset = b.offset)
    (hpos : 1 ≤ payload) {need : Nat} (hsize : blockSizeFor payload = .ok need) (hlt : b.size < need) :
    Agree (relocate p payload b.size) h g (fun _ => Twin) SameView := by
  have hpay := hs.laid.tiled.tiling.split.2.1.sub_overhead
  unfold relocate
  apply (selfCheck_agree hs hg .malloc).seq
  intro _ h g hq
  obtain ⟨rfl, rfl⟩ := hq
  refine ((serve_agree hs hg ha hm hpos).and_meets (serve_meets hs hpos)).seq ?_
  cases h.denied? (xs ++ b :: ys) payload with
  | some e =>
    intro _ _ _ hq
    obtain ⟨ht, rfl, -⟩ := hq
    exact Agree.tell_bind (Agree.fail ht.sameView)
  | none =>
    intro _ h₁ g₁ hq
    obtain ⟨ht, q, rfl, hq⟩ := hq
    obtain ⟨need', xs₁, c, ys₁, L₁, hsize', rfl, hca, hneed, hs₁, hothers, hf₁⟩ := (hq.served hs.laid.tiled).block
    obtain rfl : need = need' := Except.ok.inj (hsize.symm.trans hsize')
    have hbm : b ∈ xs₁ ++ c :: ys₁ := mem_of_allocatedBlocks_eq hb hothers
    have hle : b.size ≤ c.size := Nat.le_trans (Nat.le_of_lt hlt) hneed
    -- the two payloads that move are those of one block, and what they hold stays apart
    have hmove : Agree (move b.offset (b.size - 8) c.offset) h₁ g₁
        (fun _ h' g' => (Sound h' (xs₁ ++ c :: ys₁) L₁ ∧ Sound g' (xs₁ ++ c :: ys₁) L₁) ∧
          h'.Alike g' ∧ h'.arena.ceiling = h₁.arena.ceiling) SameView := by
      refine .of_noFault (move_into_meets hs₁ hbm hle) (move_into_meets (ht.sound hs₁) hbm hle) ?_
      intro _ _ h' g' hq hq'
      obtain ⟨⟨hs', hc⟩, hf, -⟩ := hq
      obtain ⟨⟨hg', hc'⟩, hf', -⟩ := hq'
      exact ⟨rfl, ⟨hs', hg'⟩, ht.alike.frame hf hf' (by rw [hc', hc, ht.alike.counters]), hf.ceiling⟩
    rw [hp]
    refine Agree.lift_bind hpay (hmove.seq ?_)
    intro _ h₂ g₂ hq
    obtain ⟨⟨hs₂, hg₂⟩, ha₂, hceil⟩ := hq
    obtain ⟨zs, ws, hsplit⟩ := List.append_of_mem hbm
    rw [hsplit] at hs₂ hg₂
    have hm₂ : h₂.arena.ceiling ≤ maxBlockSize := (hceil.trans hf₁.ceiling).trans_le hm
    apply (free_agree hs₂ hg₂ ha₂ hm₂ hb hp).seq
    exact fun _ _ _ ht => Agree.tell_bind (Agree.pure ht)

theorem enlarge_agree (hs : Sound h (xs ++ b :: ys) L) (hg : Sound g (xs ++ b :: ys) L) (ha : h.Alike g)
    (hm : h.arena.ceiling ≤ maxBlockSize) (hb : b.allocated = true) (hp : p.offset = b.offset)
    (hpos : 1 ≤ payload) {need : Nat} (hsize : blockSizeFor payload = .ok need) :
    Agree (enlarge p payload need) h g (fun _ => Twin) SameView := by
  have hbm : b ∈ xs ++ b :: ys := List.mem_append_cons_self
  unfold enlarge
  rw [hp]
  apply Agree.read_bind (hs.laid.tiled.blockSize hbm) (hg.laid.tiled.blockSize hbm)
  by_cases hle : need ≤ b.size
  · rw [if_pos hle]
    exact Agree.pure (.live hs hg ha)
  · rw [if_neg hle]
    refine Agree.read_bind hs.laid.tiled.tagBefore hg.laid.tiled.tagBefore
      (Agree.read_bind hs.laid.tiled.header_stop hg.laid.tiled.header_stop ?_)
    cases hplan : Growth.plan b.size need (tagBelow xs) (tagAbove ys) with
    | none => exact relocate_agree hs hg ha hm hb hp hpos hsize (Nat.not_le.mp hle)
    | some w => exact growInPlace_agree hs hg ha hm hb (Growth.feasible_of_plan hplan)

theorem realloc_agree (hs : Sound h (xs ++ b :: ys) L) (hg : Sound g (xs ++ b :: ys) L) (ha : h.Alike g)
    (hm : h.arena.ceiling ≤ maxBlockSize) (hb : b.allocated = true) (hp : p.offset = b.offset) :
    Agree (realloc (some p) payload) h g (fun _ => Twin) SameView := by
  by_cases hz : payload = 0
  · have hr : realloc (some p) payload = (do free p; return none) := if_pos hz
    rw [hr]
    apply (free_agree hs hg ha hm hb hp).seq
    exact fun _ _ _ ht => Agree.pure ht
  · rw [realloc_of_pos (Nat.pos_of_ne_zero hz), resize, hp]
    apply Agree.read_bind hs.laid.owns_eq hg.laid.owns_eq
    rw [if_pos rfl]
    cases hsize : blockSizeFor payload with
    | error e => exact Agree.tell_bind (Agree.pure (.live hs hg ha))
    | ok need =>
      apply (enlarge_agree hs hg ha hm hb hp (Nat.pos_of_ne_zero hz) hsize).seq
      exact fun _ _ _ ht => Agree.pure ht

/-! ## Initializing and checking -/

theorem unready?_congr (hp : g.policy = h.policy) (hc : g.arena.ceiling = h.arena.ceiling) :
    g.unready? = h.unready? := by
  rw [unready?_eq, unready?_eq, hp, hc]

theorem blank_twin (hp : g.policy = h.policy) (hc : g.arena.ceiling = h.arena.ceiling) :
    Twin h.blank g.blank := by
  have hr : g.arena.reset.remaining = h.arena.reset.remaining := by
    simp only [Arena.remaining_eq, Arena.ceiling_reset, Arena.size_reset, hc]
  by_cases hrem : 16 ≤ h.arena.reset.remaining
  · have hrem' : 16 ≤ g.arena.reset.remaining := hr ▸ hrem
    have hl := laid_bare hrem
    have hl' := laid_bare hrem'
    rw [blank, blank, if_pos hrem, if_pos hrem']
    refine .idle rfl rfl ?_ hl.list.toList_eq ?_ ⟨?_, ?_, rfl⟩
    · show g.bare.arena.top = h.bare.arena.top
      rw [hl.tiled.top_eq, hl'.tiled.top_eq, size_bare hrem, size_bare hrem']
    · show FreeList.empty.reserve (g.arena.reset.size + 16) =
        FreeList.empty.reserve (h.arena.reset.size + 16)
      rw [Arena.size_reset, Arena.size_reset]
    · exact hp
    · exact (ceiling_bare hrem').trans (hc.trans (ceiling_bare hrem).symm)
  · have hrem' : ¬ 16 ≤ g.arena.reset.remaining := hr ▸ hrem
    rw [blank, blank, if_neg hrem, if_neg hrem']
    have htop : ∀ a : Arena, a.reset.top = 0 := fun a => by
      rw [Arena.top, Arena.announced_reset, Option.getD_none, Arena.size_reset]
    refine .idle rfl rfl ((htop _).trans (htop _).symm) ?_ rfl ⟨hp, ?_, rfl⟩
    · exact FreeList.represents_empty.toList_eq
    · exact (Arena.ceiling_reset _).trans (hc.trans (Arena.ceiling_reset _).symm)

theorem init_agree (hp : g.policy = h.policy) (hc : g.arena.ceiling = h.arena.ceiling) :
    Agree init h g (fun _ => Twin) SameView := by
  have hready := unready?_congr hp hc
  refine .of_noFault (init_meets h) (init_meets g) ?_
  rintro (e | _) (e' | _) h' g' ⟨hpol, hceil, hq⟩ ⟨hpol', hceil', hq'⟩
  · obtain ⟨he, rfl⟩ := hq
    obtain ⟨he', rfl⟩ := hq'
    rw [hready, he] at he'
    cases he'
    exact ⟨rfl, blank_twin hp hc⟩
  · cases hq.1.symm.trans (hready.symm.trans hq'.1)
  · cases hq.1.symm.trans (hready.symm.trans hq'.1)
  · obtain ⟨-, hl, hcnt⟩ := hq
    obtain ⟨-, hl', hcnt'⟩ := hq'
    rw [hp] at hl' hcnt'
    have hmin := h.policy.minBlock_le_chunk
    refine ⟨rfl, .live (hl.sound_chunk hmin hcnt) (hl'.sound_chunk hmin hcnt') ⟨?_, ?_, hcnt'.trans hcnt.symm⟩⟩
    · rw [hpol', hpol, hp]
    · rw [hceil', hceil, hc]

theorem check_agree (ht : Twin h g) (v : Bool) : Agree (check v) h g (fun _ => Twin) SameView := by
  have hr := ht.sameView.report v
  cases he : (h.report v).result with
  | ok r => exact .of_ok he (hr.trans he) ht
  | error e => exact .of_error he (hr.trans he) ht.sameView

end Heap

end

end BoundaryTag
