import BoundaryTag.Proofs.Coalesce
import BoundaryTag.Proofs.Counted

/-!
# Growing and initializing a heap

`refused? h n` is the error, if any, with which the heap `h` answers to growing by `n` bytes. A heap that
does not refuse grows by one free block, joined with a free block at its end.

Main statements: `extend_run_of_refused`, `extend_meets` (growing), `init_meets` (initializing, from
whatever state).
-/

namespace BoundaryTag

/-! ## A block above the others -/

section
variable {a : Arena} {bs : List Block} {n : Nat}

/-- The arena with a free block of `n` new bytes above its blocks. -/
def Arena.raise (a : Arena) (n : Nat) : Arena :=
  ((a.grow n).setBlock ⟨a.size, n, false⟩).setTag (a.size + n - 4) Tag.epilogue

theorem Arena.alike_raise (a : Arena) (n : Nat) : (a.grow n).Alike (a.raise n) :=
  (alike_setBlock _ _).trans (alike_setTag _ _ _)

theorem Arena.Alike.size_of_raise {a' : Arena} (hp : (a.raise n).Alike a') (hr : n ≤ a.remaining) :
    a'.size = a.size + n := by
  rw [hp.size, (a.alike_raise n).size, size_grow hr]

theorem Arena.Alike.ceiling_of_raise {a' : Arena} (hp : (a.raise n).Alike a')
    (hr : n ≤ a.remaining) : a'.ceiling = a.ceiling := by
  rw [hp.ceiling, (a.alike_raise n).ceiling, ceiling_grow hr]

section
variable (hr : n ≤ a.remaining) (hn : 16 ≤ n) (h16 : 16 ≤ a.size)
include hr hn h16

theorem Arena.byte?_raise {i : Nat} (hi : i + 4 < a.size) : (a.raise n).byte? i = a.byte? i := by
  have hs := size_grow hr
  have hl : a.size + n - 4 + 4 ≤ ((a.grow n).setBlock ⟨a.size, n, false⟩).size := by
    rw [(alike_setBlock _ _).size, hs]
    omega
  rw [raise, byte?_setTag_of_disjoint _ hl (by omega),
    byte?_setBlock (show 8 ≤ n by omega) (show 4 ≤ a.size by omega)
      (by simp only [Block.stop]; omega) (by simp only; omega) (by simp only [Block.stop]; omega),
    byte?_grow (by omega)]

theorem Arena.tag?_raise {i : Nat} (hi : i + 8 ≤ a.size) : (a.raise n).tag? i = a.tag? i :=
  tag?_congr fun k hk => byte?_raise hr hn h16 (by omega)

theorem Arena.tagged_raise : (a.raise n).Tagged ⟨a.size, n, false⟩ := by
  have hs := size_grow hr
  have hin : Block.stop ⟨a.size, n, false⟩ ≤ (a.grow n).size + 4 := by
    simp only [Block.stop]
    omega
  have hl : a.size + n - 4 + 4 ≤ ((a.grow n).setBlock ⟨a.size, n, false⟩).size := by
    rw [(alike_setBlock _ _).size, hs]
    omega
  have ht := tagged_setBlock (b := ⟨a.size, n, false⟩) (show 8 ≤ n by omega)
    (show 4 ≤ a.size by omega) hin
  constructor
  · rw [raise, tag?_setTag_of_disjoint _ hl (by simp only; omega)]
    exact ht.1
  · rw [raise, tag?_setTag_of_disjoint _ hl (by simp only [Block.stop]; omega)]
    exact ht.2

end

theorem Tiled.raise (ht : Tiled a bs) (h8 : 8 ∣ n) (hn : 16 ≤ n) (hm : n ≤ maxBlockSize)
    (hr : n ≤ a.remaining) (hb : a.size + n ≤ Arena.maxSize) :
    Tiled (a.raise n) (bs ++ [⟨a.size, n, false⟩]) := by
  have h16 := ht.sixteen_le
  have hs : (a.raise n).size = a.size + n := by
    rw [(a.alike_raise n).size, Arena.size_grow hr]
  have hl : a.size + n - 4 + 4 ≤ ((a.grow n).setBlock ⟨a.size, n, false⟩).size := by
    rw [(Arena.alike_setBlock _ _).size, Arena.size_grow hr]
    omega
  have hrem := a.remaining_eq
  refine
    { honest := ?honest
      within := ?within
      bounded := by rwa [hs]
      tiling := ?tiling
      prologue := ?prologue
      tagged := ?tagged
      epilogue := ?epilogue }
  case honest => rw [(a.alike_raise n).announced, Arena.announced_grow]
  case within =>
    rw [hs, (a.alike_raise n).ceiling, Arena.ceiling_grow hr]
    omega
  case tiling =>
    rw [hs]
    exact tiling_append.mpr ⟨_, ht.tiling, rfl, ⟨h8, hn, hm⟩, rfl⟩
  case prologue =>
    rw [Arena.tag?_raise hr hn h16 (by omega), Arena.tag?_raise hr hn h16 (by omega)]
    exact ht.prologue
  case tagged =>
    intro b hb
    rcases List.mem_append.mp hb with hb | hb
    · have := ht.tiling.bounds hb
      have := (ht.tiling.proper hb).least
      rw [Arena.Tagged, Arena.tag?_raise hr hn h16 (by simp only [Block.stop] at *; omega),
        Arena.tag?_raise hr hn h16 (by simp only [Block.stop] at *; omega)]
      exact ht.tagged b hb
    · obtain rfl := List.mem_singleton.mp hb
      exact Arena.tagged_raise hr hn h16
  case epilogue =>
    rw [hs]
    exact Arena.tag?_setTag _ hl

end

/-! ## Growing -/

namespace Heap

open HeapM

variable {h : Heap} {n : Nat}

/-- The error that growing by `bytes` is answered with. -/
def refused? (h : Heap) (bytes : Nat) : Option AllocError :=
  if maxBlockSize < alignUp bytes then some (.sizeOverflow bytes)
  else if Arena.maxSize < h.arena.top + alignUp bytes then
    some (.arenaExhausted (alignUp bytes) (Arena.maxSize - h.arena.top))
  else h.arena.refusal? (alignUp bytes)

theorem refused?_eq_none_iff : h.refused? n = none ↔
    alignUp n ≤ maxBlockSize ∧ h.arena.top + alignUp n ≤ Arena.maxSize ∧
      alignUp n ≤ h.arena.remaining := by
  unfold refused?
  by_cases h₁ : maxBlockSize < alignUp n
  · simp [h₁, Nat.not_le.mpr h₁]
  · by_cases h₂ : Arena.maxSize < h.arena.top + alignUp n
    · simp [h₁, h₂, Nat.not_le.mpr h₂]
    · simp only [h₁, h₂, ite_false, Arena.refusal?_eq_none_iff]
      omega

theorem claim_run_of_refused {e : AllocError} (hr : h.arena.refusal? n = some e) :
    (claim n).run h = ⟨⟨.ok (.error e), []⟩, h⟩ := by
  have hg : (growArena n).run h = ⟨⟨.ok (.error e), []⟩, h⟩ := by
    rw [growArena, run_bind_of_ok (run_view _ h), hr]
    rfl
  rw [claim, run_bind_of_ok hg]
  rfl

theorem claim_meets (hr : n ≤ h.arena.remaining) (hc : h.counters.claimed + n < addressSpace)
    (he : h.counters.extensions + 1 < addressSpace) :
    Meets (claim n) h (fun r h' => r = .ok h.arena.size ∧
      h' = { h with
        arena := h.arena.grow n
        freeList := h.freeList.reserve (h.arena.size + n)
        counters := h.counters.extended n }) NoFault := by
  have hg : (growArena n).run h =
      ⟨⟨.ok (.ok h.arena.size), []⟩, { h with arena := h.arena.grow n }⟩ := by
    rw [growArena, run_bind_of_ok (run_view _ h), Arena.refusal?_eq_none_iff.mpr hr]
    rfl
  refine (Meets.of_run hg (Q := fun r h' => r = .ok h.arena.size ∧
    h' = { h with arena := h.arena.grow n }) ⟨rfl, rfl⟩).then ?_
  intro _ _ hq
  obtain ⟨rfl, rfl⟩ := hq
  let g : Heap := { h with arena := h.arena.grow n, freeList := h.freeList.reserve (h.arena.size + n) }
  have hrec : (Counters.recordExtension n).run g.counters = .ok () (h.counters.extended n) := by
    obtain hok | ⟨hno, -⟩ := h.counters.recordExtension_cases n
    · exact hok
    · exact absurd ⟨hc, he⟩ hno
  refine Meets.update_bind ?_
  simp only [Arena.top_grow hr]
  apply (account_meets (h := g) hrec).then
  rintro _ _ rfl
  exact Meets.pure ⟨rfl, rfl⟩

theorem extend_run_of_refused {e : AllocError} (hr : h.refused? n = some e) :
    (extend n).run h = ⟨⟨.ok (.error e), []⟩, h⟩ := by
  unfold refused? at hr
  rw [extend, run_bind_of_ok (run_view _ h)]
  by_cases h₁ : maxBlockSize < alignUp n
  · rw [if_pos h₁] at hr ⊢
    cases hr
    rfl
  · rw [if_neg h₁] at hr ⊢
    by_cases h₂ : Arena.maxSize < h.arena.top + alignUp n
    · rw [if_pos h₂] at hr ⊢
      cases hr
      rfl
    · rw [if_neg h₂] at hr ⊢
      rw [run_bind_of_ok (claim_run_of_refused hr)]
      rfl

end Heap

theorem FreeList.size_reserve (l : FreeList) (n : Nat) :
    (l.reserve n).slots.size = max l.slots.size (slotOf n + 1) := by
  simp only [slots_reserve, Array.size_append, Array.size_replicate]
  omega

section
variable {h : Heap} {bs : List Block} {L : List Nat} {n : Nat}

theorem Laid.slot_ne_end (hl : Laid h bs L) {c : Nat} (hc : c ∈ L) :
    FreeList.slotOf c ≠ FreeList.slotOf h.arena.size := by
  obtain ⟨b, hb, _, rfl⟩ := hl.mem_list.mp hc
  have h₁ := (hl.tiled.tiling.bounds hb).2
  have h₂ := (hl.tiled.tiling.proper hb).least
  simp only [Block.stop, FreeList.slotOf, minBlockSize] at *
  omega

theorem Laid.raise (hl : Laid h bs L) (h8 : 8 ∣ n) (hn : 16 ≤ n) (hm : n ≤ maxBlockSize)
    (hr : n ≤ h.arena.remaining) (hb : h.arena.size + n ≤ Arena.maxSize) {l : FreeList}
    (hL : l.Represents (h.arena.size :: L))
    (hz : l.slots.size = (h.freeList.reserve (h.arena.size + n)).slots.size) (c : Counters) :
    Laid { h with arena := h.arena.raise n, freeList := l, counters := c }
      (bs ++ [⟨h.arena.size, n, false⟩]) (h.arena.size :: L) := by
  refine ⟨hl.initialized, hl.tiled.raise h8 hn hm hr hb, hL, ?_, ?_⟩
  · show l.slots.size = FreeList.slotOf (h.arena.raise n).size + 1
    rw [hz, FreeList.size_reserve, hl.table, (h.arena.alike_raise n).size, Arena.size_grow hr]
    have := Nat.div_le_div_right (c := minBlockSize) (Nat.le_add_right h.arena.size n)
    simp only [FreeList.slotOf]
    omega
  · have hf : freeOffsets [(⟨h.arena.size, n, false⟩ : Block)] = [h.arena.size] :=
      freeOffsets_cons_of_free rfl
    rw [freeOffsets_append, hf]
    exact (List.Perm.cons _ hl.listed).trans (List.perm_append_singleton _ _).symm

end

namespace Heap

open HeapM

variable {h : Heap} {bs : List Block} {L : List Nat} {n : Nat}

theorem extend_meets (hl : Laid h bs L) (hm : Metered h) (h8 : 8 ∣ n) (hn : 16 ≤ n)
    (hr : h.refused? n = none) :
    Meets (extend n) h
      (fun r h' => r = .ok (joined (freeRun bs ⟨h.arena.size, n, false⟩ [])).offset ∧
        ∃ a l, h' = { h with arena := a, freeList := l, counters := h.counters.extended n } ∧
          (h.arena.raise n).Patch a ((joined (freeRun bs ⟨h.arena.size, n, false⟩ [])).offset - 4)
            ((joined (freeRun bs ⟨h.arena.size, n, false⟩ [])).stop - 4) ∧
          Laid h' (belowFree bs ++ [joined (freeRun bs ⟨h.arena.size, n, false⟩ [])])
            ((h.arena.size :: L).diff
              ((freeRun bs ⟨h.arena.size, n, false⟩ []).tail.map (·.offset))))
      (fun e _ => e = .oversized (joined (freeRun bs ⟨h.arena.size, n, false⟩ [])).size ∧
        maxBlockSize < (joined (freeRun bs ⟨h.arena.size, n, false⟩ [])).size) := by
  obtain ⟨hmax, hbound, hrem⟩ := refused?_eq_none_iff.mp hr
  rw [hl.tiled.top_eq] at hbound
  rw [alignUp_eq_self h8] at hmax hbound hrem
  have hsize := hl.tiled.bounded
  have hend := hl.tiled.sixteen_le
  have hcl := hm.claimed
  have hex := hm.extensions
  have hgrow := Arena.size_grow hrem
  have hmx : Arena.maxSize + 1 < addressSpace := by decide
  unfold extend
  rw [alignUp_eq_self h8]
  apply Meets.view_bind
  rw [if_neg (Nat.not_lt.mpr hmax), hl.tiled.top_eq, if_neg (Nat.not_lt.mpr hbound)]
  apply (claim_meets hrem (by omega) (by omega)).then
  intro _ _ hq
  obtain ⟨rfl, rfl⟩ := hq
  refine Meets.view_bind (Meets.tell_bind ?_)
  -- the new block's header replaces the old epilogue
  apply (setBlock_meets_of_le h8 (by omega) (by omega) (by omega) (by simp only; omega)).then
  intro _ _ he
  subst he
  have hset := (Arena.alike_setBlock (h.arena.grow n) ⟨h.arena.size, n, false⟩).size
  apply (putTag_meets _ (by simp only [wordBytes]; omega)).then
  intro _ _ he
  subst he
  refine (enlist_meets (hl.list.reserve _) ⟨hl.tiled.dvd_size, by omega⟩ ?_
    (fun c hc => hl.slot_ne_end hc)).then ?_
  · rw [FreeList.size_reserve]
    have := hl.slot_lt (Nat.le_refl h.arena.size)
    omega
  intro _ _ hq
  obtain ⟨l, rfl, hL, hz⟩ := hq
  have hl' := hl.raise h8 hn hmax hrem hbound hL hz (h.counters.extended n)
  refine Meets.bind ((coalesce_meets hl' rfl).mono ?_ (fun _ _ e => e))
  intro _ _ hq
  obtain ⟨rfl, a, l', rfl, hp, hl''⟩ := hq
  have hleast := hl'.tiled.tiling.least_joined
  refine Meets.pure ⟨rfl, a, l', rfl, hp.patch (by omega), ?_⟩
  rw [aboveFree, List.append_nil] at hl''
  exact hl''

end Heap

/-! ## Initializing -/

/-- An arena of sixteen bytes with prologue and epilogue. -/
def Arena.bare (a : Arena) : Arena :=
  (((a.setTag 0 ⟨0⟩).setTag 4 (Tag.make 8 true)).setTag 8 (Tag.make 8 true)).setTag 12 Tag.epilogue

theorem Arena.alike_bare (a : Arena) : a.Alike a.bare :=
  (((alike_setTag _ _ _).trans (alike_setTag _ _ _)).trans (alike_setTag _ _ _)).trans
    (alike_setTag _ _ _)

theorem Arena.tiled_bare {a : Arena} (ha : a.announced = none) (hs : a.size = 16)
    (hc : 16 ≤ a.ceiling) : Tiled a.bare [] := by
  have hsize := a.alike_bare.size
  have h₀ : ∀ (a : Arena) (i : Nat) (t : Tag), (a.setTag i t).size = a.size := size_setTag
  refine ⟨?_, ?_, ?_, ?_, ⟨?_, ?_⟩, fun b hb => (nomatch hb), ?_⟩
  · rw [a.alike_bare.announced, ha]
  · rw [hsize, a.alike_bare.ceiling, hs]
    exact hc
  · rw [hsize, hs]
    decide
  · show 16 = a.bare.size
    rw [hsize, hs]
  · rw [bare, tag?_setTag_of_disjoint _ (by simp only [h₀]; omega) (by omega),
      tag?_setTag_of_disjoint _ (by simp only [h₀]; omega) (by omega),
      tag?_setTag _ (by simp only [h₀]; omega)]
  · rw [bare, tag?_setTag_of_disjoint _ (by simp only [h₀]; omega) (by omega),
      tag?_setTag _ (by simp only [h₀]; omega)]
  · rw [hsize, hs, bare, tag?_setTag _ (by simp only [h₀]; omega)]

namespace Heap

open HeapM

variable {h : Heap}

theorem putSentinels_meets (hs : h.arena.size = 16) :
    Meets putSentinels h (fun _ h' => h' = { h with arena := h.arena.bare }) NoFault := by
  have h₀ : ∀ (a : Arena) (i : Nat) (t : Tag), (a.setTag i t).size = a.size := Arena.size_setTag
  apply (putTag_meets _ (by omega)).then
  intro _ _ he
  subst he
  apply (putTag_meets _ (by simp only [h₀, wordBytes]; omega)).then
  intro _ _ he
  subst he
  apply (putTag_meets _ (by simp only [h₀, prologueOffset]; omega)).then
  intro _ _ he
  subst he
  exact putTag_meets _ (by simp only [h₀, prologueOffset, wordBytes]; omega)

def bare (h : Heap) : Heap :=
  { h with
    arena := (h.arena.reset.grow 16).bare
    initialized := true
    freeList := FreeList.empty.reserve (h.arena.reset.size + 16)
    counters := Counters.extended {} 16 }

theorem policy_bare : h.bare.policy = h.policy := by simp only [bare]

theorem size_bare (hr : 16 ≤ h.arena.reset.remaining) : h.bare.arena.size = 16 := by
  rw [bare, (Arena.alike_bare _).size, Arena.size_grow hr, Arena.size_reset]

theorem ceiling_bare (hr : 16 ≤ h.arena.reset.remaining) :
    h.bare.arena.ceiling = h.arena.ceiling := by
  rw [bare, (Arena.alike_bare _).ceiling, Arena.ceiling_grow hr, Arena.ceiling_reset]

theorem laid_bare (hr : 16 ≤ h.arena.reset.remaining) : Laid h.bare [] [] := by
  have hsize : (h.arena.reset.grow 16).size = 16 := by rw [Arena.size_grow hr, Arena.size_reset]
  refine ⟨rfl, Arena.tiled_bare (Arena.announced_grow _ _) hsize ?_,
    FreeList.represents_empty.reserve _, ?_, List.Perm.refl _⟩
  · have := h.arena.reset.remaining_eq
    rw [Arena.ceiling_grow hr]
    omega
  · rw [size_bare hr, bare, Arena.size_reset]
    rfl

theorem metered_bare (hr : 16 ≤ h.arena.reset.remaining) : Metered h.bare where
  claimed := (size_bare hr).symm
  extensions := Nat.le_refl 16

def unready? (h : Heap) : Option AllocError :=
  (h.arena.reset.refusal? sentinelBytes).or (h.bare.refused? h.policy.chunkSize)

def blank (h : Heap) : Heap :=
  if 16 ≤ h.arena.reset.remaining then { h.bare with initialized := false }
  else { h with
    arena := h.arena.reset
    initialized := false
    freeList := FreeList.empty
    counters := {} }

theorem initialized_blank : h.blank.initialized = false := by
  unfold blank
  split <;> rfl

theorem totals_blank : h.blank.counters.totalAllocations = 0 ∧ h.blank.counters.totalAllocated = 0 := by
  unfold blank
  split <;> exact ⟨rfl, rfl⟩

theorem extend_bare_meets (hrem : 16 ≤ h.arena.reset.remaining)
    (hr : h.bare.refused? h.policy.chunkSize = none) :
    Meets (extend h.policy.chunkSize) h.bare
      (fun r h' => r = .ok 16 ∧ h'.policy = h.policy ∧ h'.arena.ceiling = h.arena.ceiling ∧
        Laid h' [⟨16, h.policy.chunkSize, false⟩] [16] ∧
        h'.counters = { claimed := 16 + h.policy.chunkSize, extensions := 2 }) NoFault := by
  obtain ⟨hmax, -, hroom⟩ := refused?_eq_none_iff.mp hr
  rw [alignUp_eq_self h.policy.chunk_dvd] at hmax hroom
  have hj : joined (freeRun [] ⟨h.bare.arena.size, h.policy.chunkSize, false⟩ []) =
      ⟨16, h.policy.chunkSize, false⟩ := by
    rw [size_bare hrem]
    exact joined_singleton rfl
  have hx := extend_meets (laid_bare hrem) (metered_bare hrem) h.policy.chunk_dvd
    h.policy.minBlock_le_chunk hr
  rw [hj] at hx
  refine hx.mono ?_ ?_
  · intro _ _ hq
    obtain ⟨rfl, a, l, rfl, hp, hl⟩ := hq
    rw [size_bare hrem] at hl
    refine ⟨rfl, policy_bare, ?_, hl, ?_⟩
    · exact (hp.alike.ceiling_of_raise hroom).trans (ceiling_bare hrem)
    · simp [bare, Counters.extended]
  · intro _ _ hq
    obtain ⟨_, hlt⟩ := hq
    exact absurd hmax (Nat.not_le.mpr hlt)

theorem init_meets (h : Heap) :
    Meets init h (fun r h' => h'.policy = h.policy ∧ h'.arena.ceiling = h.arena.ceiling ∧
      match r with
      | .ok () => h.unready? = none ∧ Laid h' [⟨16, h.policy.chunkSize, false⟩] [16] ∧
          h'.counters = { claimed := 16 + h.policy.chunkSize, extensions := 2 }
      | .error e => h.unready? = some e ∧ h' = h.blank) NoFault := by
  unfold init
  refine Meets.update_bind (Meets.update_bind ?_)
  cases hr : h.arena.reset.refusal? sentinelBytes with
  | some e =>
    refine (Meets.of_run (claim_run_of_refused hr) (Q := fun r h' => r = .error e ∧ h' = _)
      ⟨rfl, rfl⟩).then ?_
    intro _ _ hq
    obtain ⟨rfl, rfl⟩ := hq
    have hrem : ¬ 16 ≤ h.arena.reset.remaining := fun hn =>
      nomatch hr.symm.trans (Arena.refusal?_eq_none_iff.mpr hn)
    refine Meets.pure ⟨rfl, h.arena.ceiling_reset, ?_, ?_⟩
    · rw [unready?, hr, Option.some_or]
    · rw [blank, if_neg hrem]
  | none =>
    have hrem : 16 ≤ h.arena.reset.remaining := Arena.refusal?_eq_none_iff.mp hr
    refine (claim_meets hrem (show 0 + 16 < addressSpace by decide)
      (show 0 + 1 < addressSpace by decide)).then ?_
    intro _ _ hq
    obtain ⟨rfl, rfl⟩ := hq
    have hsize : (h.arena.reset.grow 16).size = 16 := by
      rw [Arena.size_grow hrem, Arena.size_reset]
    apply (putSentinels_meets hsize).then
    intro _ _ he
    subst he
    refine Meets.update_bind (Meets.view_bind ?_)
    show Meets _ h.bare _ _
    cases he : h.bare.refused? h.policy.chunkSize with
    | some e =>
      refine (Meets.of_run (extend_run_of_refused he) (Q := fun r h' => r = .error e ∧ h' = h.bare)
        ⟨rfl, rfl⟩).then ?_
      intro _ _ hq
      obtain ⟨rfl, rfl⟩ := hq
      -- the sentinels stay written, and the heap is unmarked again
      refine Meets.update_bind (Meets.pure ?_)
      dsimp only
      refine ⟨policy_bare, ceiling_bare hrem, ?_, ?_⟩
      · rw [unready?, hr, Option.none_or, he]
      · rw [blank, if_pos hrem]
    | none =>
      apply (extend_bare_meets hrem he).then
      intro _ _ hq
      obtain ⟨rfl, hpol, hceil, hl, hcount⟩ := hq
      refine Meets.view_bind (Meets.tell_bind (Meets.pure ⟨hpol, hceil, ?_, hl, hcount⟩))
      rw [unready?, hr, Option.none_or, he]

end Heap

end BoundaryTag
