import BoundaryTag.Proofs.Regrowth
import BoundaryTag.Proofs.Tenancy

/-!
# Guarded resizing

Resizing an allocation asks first whether the heap could run out of memory over it. The guard looks at the
size of the payload and at how far the arena can still grow, and knows nothing of the other blocks.

Main statements: `tenancy_resize` (what passes the guard has an answer, and keeps its contents),
`tenancy_refusals` (what is refused, and what the heap would have had room for all the same).
-/

namespace BoundaryTag

/-- Neither what the arena may still grow by nor the payload as it is reaches what the guard asks for. -/
def Allocation.Withheld (x : Allocation) (n : Nat) (h : Heap) : Prop :=
  ∃ u, h.usableSize x.handle = .ok u ∧
    Allocation.heapLimit - h.arena.top < Allocation.growthFor n h.policy ∧
    u < Allocation.growthFor n h.policy

/-- The allocation `y` of the heap `h'` holds what the allocation `x` of `h` held, as far as both reach. -/
def Allocation.Carries (x : Allocation) (h : Heap) (y : Allocation) (h' : Heap) : Prop :=
  ∃ before after, h.payload x.handle = .ok before ∧ h'.payload y.handle = .ok after ∧
    x.size ≤ before.size ∧ y.size ≤ after.size ∧ h'.usableSize y.handle = .ok after.size ∧
    ∀ i < min x.size y.size, Bytes.byte? after i = Bytes.byte? before i

/-- The block at `p` can come to hold `n` bytes as the arena is: it does already, or with the free blocks beside
it, or another block does. -/
def Heap.Accommodates (h : Heap) (p : Handle) (n : Nat) : Prop :=
  ∃ need xs b ys, blockSizeFor n = .ok need ∧ h.blocks = .ok (xs ++ b :: ys) ∧ p.offset = b.offset ∧
    (need ≤ b.size ∨ (∃ taken d bs, Regrown need xs b ys taken d bs) ∨
      ∃ c ∈ xs ++ b :: ys, c.allocated = false ∧ need ≤ c.size)

open HeapM

section
variable {h : Heap} {xs ys : List Block} {b : Block} {L : List Nat} {policy : Policy} {s : Session}
  {live : List Allocation} {x y : Allocation} {p : Handle} {n need : Nat} {held : List Holding}

/-! ## Room -/

theorem Sound.accommodates_iff (hs : Sound h (xs ++ b :: ys) L) (hp : p.offset = b.offset)
    (hsize : blockSizeFor n = .ok need) :
    h.Accommodates p n ↔ need ≤ b.size ∨ (∃ taken d bs, Regrown need xs b ys taken d bs) ∨
      ∃ c ∈ xs ++ b :: ys, c.allocated = false ∧ need ≤ c.size := by
  constructor
  · rintro ⟨need', xs', b', ys', hsize', hbs, hp', hroom⟩
    obtain rfl := Except.ok.inj (hsize.symm.trans hsize')
    obtain ⟨rfl, rfl, rfl⟩ := Call.split_unique hs (Except.ok.inj (hs.laid.blocks_eq.symm.trans hbs))
      (hp.symm.trans hp')
    exact hroom
  · exact fun hroom => ⟨need, xs, b, ys, hsize, hs.laid.blocks_eq, hp, hroom⟩

theorem Sound.accommodates_iff_not_jammed (hs : Sound h (xs ++ b :: ys) L)
    (hc : h.arena.ceiling ≤ maxBlockSize) (hp : p.offset = b.offset) (hsize : blockSizeFor n = .ok need)
    (hrem : h.arena.remaining < max need h.policy.chunkSize) :
    h.Accommodates p n ↔ ¬ h.Jammed p n := by
  have ht := hs.laid.tiled.tiling
  rw [hs.accommodates_iff hp hsize, ← hs.stuck_iff hc hp]
  constructor
  · rintro hroom ⟨need', e, hsize', hlt, hno, hshort⟩
    obtain rfl := Except.ok.inj (hsize.symm.trans hsize')
    -- each way of having room is one that a jam rules out
    obtain ⟨hall, -⟩ := (hs.shortage_iff hc (blockSizeFor_spec hsize).1).mp ⟨e, hshort⟩
    obtain hle | ⟨taken, d, bs, hgrown⟩ | ⟨c, hcm, hf, hle⟩ := hroom
    · exact absurd hle (Nat.not_le.mpr hlt)
    · obtain ⟨g, hplan, -⟩ := hgrown.plan ht
      exact hno g (Growth.feasible_of_plan hplan)
    · exact absurd hle (Nat.not_le.mpr (hall c hcm hf))
  · intro hst
    by_contra hroom
    push Not at hroom
    obtain ⟨hlt, hno, hall⟩ := hroom
    obtain ⟨e, hshort⟩ := (hs.shortage_iff hc (blockSizeFor_spec hsize).1).mpr ⟨hall, hrem⟩
    refine hst ⟨need, e, hsize, hlt, Growth.plan_eq_none_iff.mp ?_, hshort⟩
    cases hplan : Growth.plan b.size need (tagBelow xs) (tagAbove ys) with
    | none => rfl
    | some g =>
      obtain ⟨taken, d, bs, hgrown⟩ := exists_regrown ht hplan
      exact absurd hgrown (hno taken d bs)

theorem Call.realloc_grants (hs : Sound h (xs ++ b :: ys) L) (hb : b.allocated = true)
    (hp : p.offset = b.offset) (hn : 1 ≤ n) (hsize : blockSizeFor n = .ok need) :
    Meets (Call.realloc (some p) n).action h (fun a _ => ∃ q, a = .handle (some q)) (fun _ _ => True) :=
  Call.realloc_meets_of_enlarge hs hp hn hsize
    ((Heap.enlarge_meets hs hb hp hn hsize).mono (fun q _ _ => ⟨q, rfl⟩) fun _ _ _ => trivial)

theorem Sound.realloc_grants_iff (hs : Sound h (xs ++ b :: ys) L)
    (hh : Held h.arena (allocatedBlocks (xs ++ b :: ys)) held) (hc : h.arena.ceiling ≤ maxBlockSize)
    (hl : Call.Legal ⟨h, held⟩ (.realloc (some p) n)) (hb : b.allocated = true) (hp : p.offset = b.offset)
    (hn : 1 ≤ n) (ha : (Call.realloc (some p) n).Affordable h) :
    (∃ q, ((Call.realloc (some p) n).action.run h).result = .ok (.handle (some q))) ↔
      (∃ need, blockSizeFor n = .ok need) ∧ ¬ h.Jammed p n := by
  have hfaults := (hs.faults_iff hh hc hl nofun ha).1.trans (hs.jams_iff hh hc hl)
  cases hsize : blockSizeFor n with
  | error e =>
    obtain ⟨a, hr, rfl, -⟩ := (Call.realloc_meets_of_oversized hs hp hn hsize).exists_ok
    simp [hr]
  | ok need =>
    constructor
    · rintro ⟨q, hr⟩
      refine ⟨⟨need, rfl⟩, fun hj => ?_⟩
      obtain ⟨e, he⟩ := hfaults.mpr ⟨p, n, rfl, hn, hj⟩
      cases he.symm.trans hr
    · rintro ⟨-, hj⟩
      cases hr : ((Call.realloc (some p) n).action.run h).result with
      | ok a =>
        obtain ⟨q, rfl⟩ := (Call.realloc_grants hs hb hp hn hsize).ok hr
        exact ⟨q, rfl⟩
      | error e =>
        obtain ⟨_, _, hpn, -, hj'⟩ := hfaults.mp ⟨e, hr⟩
        cases hpn
        exact absurd hj' hj

/-! ## The guard -/

theorem Allocation.growthFor_of_ok (hsize : blockSizeFor n = .ok need) (policy : Policy) :
    growthFor n policy = max need policy.chunkSize := by
  rw [growthFor, hsize]

theorem Allocation.growthFor_of_error {e : AllocError} (hsize : blockSizeFor n = .error e)
    (policy : Policy) : growthFor n policy = addressSpace - 1 := by
  rw [growthFor, hsize]

theorem Tenanted.exists_block (ht : Tenanted (Allocation.heap policy) s live) (hx : x ∈ live) :
    ∃ xs b ys L, Sound s.heap (xs ++ b :: ys) L ∧
      Held s.heap.arena (allocatedBlocks (xs ++ b :: ys)) s.held ∧ b.allocated = true ∧
      x.handle.offset = b.offset ∧ s.heap.arena.ceiling = Allocation.heapLimit := by
  obtain ⟨hv, hceil⟩ := ht.reachable.valid (.growable _ _)
  have hk := (ht.backed x hx).1
  cases hv with
  | idle =>
    obtain ⟨_, hk, _⟩ := hk
    cases hk
  | live hs hh =>
    obtain ⟨xs, b, ys, rfl, hb, hp⟩ := Call.exists_block hs hh hk
    exact ⟨xs, b, ys, _, hs, hh, hb, hp, hceil⟩

theorem Sound.withheld_iff (hs : Sound h (xs ++ b :: ys) L) (hp : x.handle.offset = b.offset) :
    x.Withheld n h ↔ Allocation.heapLimit - h.arena.top < Allocation.growthFor n h.policy ∧
      b.size - 8 < Allocation.growthFor n h.policy := by
  have hu := hs.laid.usableSize_eq List.mem_append_cons_self hp
  constructor
  · rintro ⟨u, hu', hw⟩
    cases hu.symm.trans hu'
    exact hw
  · exact fun hw => ⟨_, hu, hw⟩

theorem Sound.mayExhaust_eq (hs : Sound h (xs ++ b :: ys) L) (hc : h.arena.ceiling = Allocation.heapLimit)
    (hp : x.handle.offset = b.offset) :
    x.mayExhaust n h = .ok (decide (Allocation.heapLimit - h.arena.top < Allocation.growthFor n h.policy ∧
      b.size - 8 < Allocation.growthFor n h.policy)) := by
  have hwithin := hs.laid.tiled.within
  rw [hc, ← hs.laid.tiled.top_eq] at hwithin
  have hsub : Address.sub Allocation.heapLimit h.arena.top = .ok (Allocation.heapLimit - h.arena.top) :=
    Address.sub_eq_ok_iff.mpr ⟨hwithin, rfl⟩
  rw [Allocation.mayExhaust, hsub, hs.laid.usableSize_eq List.mem_append_cons_self hp]
  by_cases hle : Allocation.growthFor n h.policy ≤ Allocation.heapLimit - h.arena.top
  · have hno : ¬ (Allocation.heapLimit - h.arena.top < Allocation.growthFor n h.policy ∧
        b.size - 8 < Allocation.growthFor n h.policy) := by omega
    rw [decide_eq_false hno]
    exact if_pos hle
  · have hiff : (Allocation.heapLimit - h.arena.top < Allocation.growthFor n h.policy ∧
        b.size - 8 < Allocation.growthFor n h.policy) ↔ b.size - 8 < Allocation.growthFor n h.policy := by
      omega
    rw [decide_eq_decide.mpr hiff]
    exact if_neg hle

/-- What the guard lets pass does not run out of memory: either the arena has room for a block of its own, or
the payload is as large as it has to be. -/
theorem Sound.not_jammed (hs : Sound h (xs ++ b :: ys) L) (hc : h.arena.ceiling = Allocation.heapLimit)
    (hp : x.handle.offset = b.offset) (hw : ¬ x.Withheld n h) :
    (∃ need, blockSizeFor n = .ok need) ∧ ¬ h.Jammed x.handle n := by
  have hmost := (hs.laid.tiled.tiling.proper (b := b) List.mem_append_cons_self).most
  have hrem := h.arena.remaining_eq
  rw [hs.withheld_iff hp, hs.laid.tiled.top_eq] at hw
  rw [hc] at hrem
  constructor
  · cases hsize : blockSizeFor n with
    | ok need => exact ⟨need, rfl⟩
    | error e =>
      rw [Allocation.growthFor_of_error hsize] at hw
      have hmx : maxBlockSize < addressSpace - 1 := by decide
      have hlimit : Allocation.heapLimit < addressSpace - 1 := by decide
      omega
  · rintro ⟨need, size, _, _, _, hsize, hbs, -, -, -, hlt, -, -, hsmall⟩
    rw [hp] at hbs
    cases hbs.symm.trans (hs.laid.tiled.blockSize List.mem_append_cons_self)
    rw [Allocation.growthFor_of_ok hsize] at hw
    omega

theorem Tenanted.mayExhaust_iff (ht : Tenanted (Allocation.heap policy) s live) (hx : x ∈ live) :
    (x.mayExhaust n s.heap = .ok true ↔ x.Withheld n s.heap) ∧
      (x.mayExhaust n s.heap = .ok false ↔ ¬ x.Withheld n s.heap) := by
  obtain ⟨xs, b, ys, L, hs, -, -, hp, hc⟩ := ht.exists_block hx
  rw [hs.mayExhaust_eq hc hp, hs.withheld_iff hp]
  simp

/-! ## Resizing -/

theorem Tenanted.resize_withheld (ht : Tenanted (Allocation.heap policy) s live) (hx : x ∈ live)
    (hw : x.Withheld n s.heap) : (x.resize n).run s.heap = ⟨⟨.ok (false, x), []⟩, s.heap⟩ :=
  Allocation.resize_run_of_withheld ((ht.mayExhaust_iff hx).1.mpr hw)

theorem Tenanted.resize_ventured (ht : Tenanted (Allocation.heap policy) s live) (hx : x ∈ live) (hn : 1 ≤ n)
    (ha : (Call.realloc (some x.handle) n).Affordable s.heap) (hw : ¬ x.Withheld n s.heap) :
    ∃ q, ((x.resize n).run s.heap).result = .ok (true, ⟨q, n⟩) := by
  obtain ⟨xs, b, ys, L, hs, hh, hb, hp, hc⟩ := ht.exists_block hx
  obtain ⟨q, hr⟩ := (hs.realloc_grants_iff hh (hc.trans_le heapLimit_le) (ht.backed x hx).1 hb hp hn ha).mpr
    (hs.not_jammed hc hp hw)
  obtain ⟨r, he, hrun, -⟩ := Session.exists_of_answer (s := s) (f := .handle) rfl hr
  cases he
  rw [Allocation.resize_run_of_ventured ((ht.mayExhaust_iff hx).2.mpr hw), hrun]
  exact ⟨q, rfl⟩

theorem Tenanted.carries (ht : Tenanted (Allocation.heap policy) s live) (hx : x ∈ live)
    (hr : ((x.resize n).run s.heap).result = .ok (true, y)) :
    y.size = n ∧ x.Carries s.heap y ((x.resize n).run s.heap).heap := by
  have hv := (ht.reachable.valid (.growable _ _)).1
  obtain ⟨hk, u, hu, hle⟩ := ht.backed x hx
  obtain ⟨-, u', hu', hle'⟩ := (ht.resized (.growable _ _) hx hr).backed y List.mem_cons_self
  obtain ⟨-, hd, -⟩ | ⟨r, -, hrun, htold, hheap⟩ := Allocation.resize_cases hr
  · cases hd
  obtain ⟨ha, hnext⟩ := Session.answer_of_run (c := .realloc (some x.handle) n) (f := .handle) rfl hrun
  cases r with
  | none => cases htold
  | some q =>
    cases htold
    obtain ⟨before, after, hb, ha, hub, hua, hbytes⟩ :=
      (hv.carried (c := .realloc (some x.handle) n) hk ha).moved _ _ q rfl rfl
    rw [hnext] at ha hua
    rw [Session.resized, hheap] at hu'
    cases hu.symm.trans hub
    cases hu'.symm.trans hua
    refine ⟨rfl, before, after, hb, ?_, hle, hle', ?_, fun i hi => hbytes i (by simp only at hi hle'; omega)⟩
    · rw [hheap]
      exact ha
    · rw [hheap]
      exact hua

/-- On live allocations resizing never runs out of memory, and what is resized is as it was but for its size. -/
theorem tenancy_resize (ht : Tenancy policy s live) (hx : x ∈ live) (hn : 1 ≤ n)
    (ha : (Call.realloc (some x.handle) n).Affordable s.heap) :
    s.heap.arena.top ≤ Allocation.heapLimit ∧
      ∃ done y, ((x.resize n).run s.heap).result = .ok (done, y) ∧
        (done = true → y.size = n ∧
          Tenanted (Allocation.heap policy) (s.resized x n y) (y :: Allocation.besides live x.handle) ∧
          x.Carries s.heap y (s.resized x n y).heap) := by
  have ht := ht.tenanted
  constructor
  · obtain ⟨xs, b, ys, L, hs, -, -, -, hc⟩ := ht.exists_block hx
    rw [hs.laid.tiled.top_eq, ← hc]
    exact hs.laid.tiled.within
  · by_cases hw : x.Withheld n s.heap
    · exact ⟨false, x, by rw [ht.resize_withheld hx hw], nofun⟩
    · obtain ⟨q, hr⟩ := ht.resize_ventured hx hn ha hw
      refine ⟨true, _, hr, fun _ => ?_⟩
      obtain ⟨hsize, hcarries⟩ := ht.carries hx hr
      exact ⟨hsize, ht.resized (.growable _ _) hx hr, hcarries⟩

/-- The first of two allocations moves behind the second. -/
theorem tenancy_resize_moved : ∃ (s : Session) (live : List Allocation) (y : Allocation),
    Tenancy .fineGrained s live ∧ ⟨⟨16⟩, 8⟩ ∈ live ∧ y = ⟨⟨48⟩, 20⟩ ∧
      Allocation.Carries ⟨⟨16⟩, 8⟩ s.heap y (s.resized ⟨⟨16⟩, 8⟩ 20 y).heap := by
  let s₀ := Session.next ⟨Allocation.heap .fineGrained, []⟩ .init (.ready (.ok ()))
  let s₁ := s₀.allocated 8 ⟨⟨16⟩, 8⟩
  let s₂ := s₁.allocated 8 ⟨⟨32⟩, 8⟩
  have h₀ : Tenancy .fineGrained s₀ [] := .start (by decide +kernel)
  have h₁ : Tenancy .fineGrained s₁ [⟨⟨16⟩, 8⟩] := .allocated h₀ (by decide +kernel)
  have h₂ : Tenancy .fineGrained s₂ [⟨⟨32⟩, 8⟩, ⟨⟨16⟩, 8⟩] := .allocated h₁ (by decide +kernel)
  have hr : ((Allocation.resize ⟨⟨16⟩, 8⟩ 20).run s₂.heap).result = .ok (true, ⟨⟨48⟩, 20⟩) := by
    decide +kernel
  obtain ⟨-, _, _, hr', hdone⟩ := tenancy_resize h₂ (x := ⟨⟨16⟩, 8⟩) (n := 20) (by simp) (by decide)
    ⟨by decide +kernel, by decide +kernel⟩
  cases hr'.symm.trans hr
  exact ⟨s₂, _, _, h₂, by simp, rfl, (hdone rfl).2.2⟩

/-! ## Refusals -/

theorem Tenanted.resize_zero (ht : Tenanted (Allocation.heap policy) s live) (hx : x ∈ live)
    (ha : (Call.realloc (some x.handle) 0).Affordable s.heap) (hw : ¬ x.Withheld 0 s.heap) :
    ((x.resize 0).run s.heap).result = .ok (false, x) ∧
      ∃ bs, ((x.resize 0).run s.heap).heap.blocks = .ok bs ∧
        ∀ b ∈ bs, b.offset = x.handle.offset → b.allocated = false := by
  obtain ⟨xs, b, ys, L, hs, hh, hb, hp, hc⟩ := ht.exists_block hx
  have hl : Call.Legal s (.realloc (some x.handle) 0) := (ht.backed x hx).1
  obtain ⟨a, hr⟩ := hs.answers (c := .realloc (some x.handle) 0) hh (hc.trans_le heapLimit_le) hl nofun ha
    fun hj => absurd hj.1 (by decide)
  obtain ⟨_, bs, hadv⟩ := (Call.action_meets (c := .realloc (some x.handle) 0) hs hh hl nofun).ok hr
  obtain ⟨r, rfl, hrun, hnext⟩ := Session.exists_of_answer (s := s) (f := .handle) rfl hr
  obtain ⟨L', hs'⟩ := hadv.sound
  obtain rfl : r = none := by
    rw [Heap.realloc, if_pos rfl, run_bind_pure (f := fun _ => none)] at hrun
    cases hf : ((Heap.free x.handle).run s.heap).result with
    | error e =>
      rw [hf] at hrun
      cases hrun
    | ok =>
      rw [hf] at hrun
      exact (Except.ok.inj hrun).symm
  have hheap : ((Call.realloc (some x.handle) 0).action.run s.heap).heap =
      ((Heap.realloc (some x.handle) 0).run s.heap).heap := congrArg Session.heap hnext
  rw [hheap] at hs'
  rw [Allocation.resize_run_of_ventured ((ht.mayExhaust_iff hx).2.mpr hw), hrun]
  -- the client no longer holds the handle, and what is allocated is held
  refine ⟨rfl, bs, hs'.laid.blocks_eq, fun d hd ho => ?_⟩
  by_contra hd'
  obtain ⟨k, hk, hko⟩ := hadv.held.exists_handle (mem_allocatedBlocks.mpr ⟨hd, by simpa using hd'⟩)
  exact Holding.not_mem_without ⟨k, hk, hko.trans (congrArg Handle.mk ho)⟩

theorem Tenanted.grants_iff_of_withheld (ht : Tenanted (Allocation.heap policy) s live) (hx : x ∈ live)
    (hn : 1 ≤ n) (ha : (Call.realloc (some x.handle) n).Affordable s.heap) (hw : x.Withheld n s.heap) :
    (∃ q, s.answer (.realloc (some x.handle) n) = .ok (.handle (some q))) ↔
      s.heap.Accommodates x.handle n := by
  obtain ⟨xs, b, ys, L, hs, hh, hb, hp, hc⟩ := ht.exists_block hx
  have hgrants := hs.realloc_grants_iff hh (hc.trans_le heapLimit_le) (ht.backed x hx).1 hb hp hn ha
  rw [Session.answer, hgrants]
  cases hsize : blockSizeFor n with
  | error e =>
    constructor
    · rintro ⟨⟨_, hno⟩, -⟩
      cases hno
    · rintro ⟨_, _, _, _, hsize', -⟩
      cases hsize.symm.trans hsize'
  | ok need =>
    have hsmall := ((hs.withheld_iff hp).mp hw).1
    rw [Allocation.growthFor_of_ok hsize, ← hc, hs.laid.tiled.top_eq, ← Arena.remaining_eq] at hsmall
    rw [hs.accommodates_iff_not_jammed (hc.trans_le heapLimit_le) hp hsize hsmall]
    exact ⟨And.right, fun hj => ⟨⟨need, rfl⟩, hj⟩⟩

theorem Allocation.chunk_le_growthFor (n : Nat) (policy : Policy) : policy.chunkSize ≤ growthFor n policy := by
  cases hsize : blockSizeFor n with
  | ok need =>
    rw [growthFor_of_ok hsize]
    exact Nat.le_max_right _ _
  | error e =>
    rw [growthFor_of_error hsize]
    exact Nat.le_sub_one_of_lt policy.chunk_lt

theorem Tenanted.withheld_of_chunk (ht : Tenanted (Allocation.heap policy) s live) (hx : x ∈ live)
    (hk : Allocation.heapLimit ≤ 16 + s.heap.policy.chunkSize) (n : Nat) : x.Withheld n s.heap := by
  obtain ⟨xs, b, ys, L, hs, -, -, hp, hc⟩ := ht.exists_block hx
  have hchunk := ht.reachable.chunk_le (.growable _ _) hs.laid.initialized
  have hbounds := hs.laid.tiled.tiling.bounds (b := b) List.mem_append_cons_self
  have hwithin := hs.laid.tiled.within
  have hgrowth := Allocation.chunk_le_growthFor n s.heap.policy
  have hleast := s.heap.policy.minBlock_le_chunk
  rw [hs.withheld_iff hp, hs.laid.tiled.top_eq]
  simp only [Block.stop, minBlockSize] at *
  omega

def Policy.wholeArena : Policy :=
  { standard with
    chunkSize := Allocation.heapLimit - 16
    chunk_dvd := by decide
    minBlock_le_chunk := by decide
    chunk_lt := by decide }

/-- What is refused is left as it is, though there may be room for it; what is resized to nothing is not. -/
theorem tenancy_refusals (ht : Tenancy policy s live) (hx : x ∈ live)
    (ha : (Call.realloc (some x.handle) n).Affordable s.heap) :
    ((∃ y, ((x.resize n).run s.heap).result = .ok (false, y)) ↔ n = 0 ∨ x.Withheld n s.heap) ∧
      (x.Withheld n s.heap → (x.resize n).run s.heap = ⟨⟨.ok (false, x), []⟩, s.heap⟩ ∧
        (1 ≤ n → ((∃ q, s.answer (.realloc (some x.handle) n) = .ok (.handle (some q))) ↔
          s.heap.Accommodates x.handle n))) ∧
      (n = 0 → ¬ x.Withheld n s.heap → ((x.resize n).run s.heap).result = .ok (false, x) ∧
        ∃ bs, ((x.resize n).run s.heap).heap.blocks = .ok bs ∧
          ∀ b ∈ bs, b.offset = x.handle.offset → b.allocated = false) := by
  have ht := ht.tenanted
  refine ⟨⟨?refused, ?refuses⟩, fun hw => ⟨ht.resize_withheld hx hw, fun hn => ?room⟩, ?zero⟩
  case refused =>
    rintro ⟨y, hr⟩
    by_contra hno
    rw [not_or] at hno
    obtain ⟨q, hr'⟩ := ht.resize_ventured hx (Nat.pos_of_ne_zero hno.1) ha hno.2
    cases hr.symm.trans hr'
  case refuses =>
    intro hn
    by_cases hw : x.Withheld n s.heap
    · exact ⟨x, by rw [ht.resize_withheld hx hw]⟩
    · obtain rfl := hn.resolve_right hw
      exact ⟨x, (ht.resize_zero hx ha hw).1⟩
  case room => exact ht.grants_iff_of_withheld hx hn ha hw
  case zero =>
    rintro rfl hw
    exact ht.resize_zero hx ha hw

/-- The block is large enough, and no memory is needed. -/
theorem tenancy_refusals_needless : ∃ (s : Session) (x : Allocation) (q : Handle),
    Tenancy .wholeArena s [x] ∧ x.size = 100 ∧
      (x.resize 50).run s.heap = ⟨⟨.ok (false, x), []⟩, s.heap⟩ ∧
      s.answer (.realloc (some x.handle) 50) = .ok (.handle (some q)) := by
  have hneed : blockSizeFor 100 = .ok 112 := by decide
  have hchunk : 16 + Policy.wholeArena.chunkSize ≤ Allocation.heapLimit := by decide
  obtain ⟨s, x, ht, hsize, hpol⟩ := exists_tenancy hchunk (by decide) hneed (by decide)
  have hx : x ∈ [x] := List.mem_singleton_self x
  obtain ⟨xs, b, ys, L, hs, -, -, hp, -⟩ := ht.tenanted.exists_block hx
  obtain ⟨-, u, hu, hle⟩ := ht.tenanted.backed x hx
  cases hu.symm.trans (hs.laid.usableSize_eq List.mem_append_cons_self hp)
  have hneed' : blockSizeFor 50 = .ok 64 := by decide
  obtain ⟨a, hr, ha, -⟩ := (Call.realloc_stays hs hp (by decide) hneed' (by omega)).exists_ok
  have haff := Call.affordable_of_answer (c := .realloc (some x.handle) 50) nofun
    (ht.tenanted.reachable.room (.growable _ _)) hr
  obtain ⟨-, hwithheld, -⟩ := tenancy_refusals ht hx haff
  have hw := ht.tenanted.withheld_of_chunk hx (by rw [hpol]; decide) 50
  exact ⟨s, x, _, ht, hsize, (hwithheld hw).1, ha ▸ hr⟩

end

end BoundaryTag
