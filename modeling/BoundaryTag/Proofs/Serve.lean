import BoundaryTag.Proofs.Extend
import BoundaryTag.Proofs.Place
import BoundaryTag.Proofs.Report

/-!
# Serving a request

`Sound h bs L` is the state of a heap between two calls: laid out as the blocks `bs`, no two free ones
side by side, with the counters in agreement. Serving a request leads from one such state to another and
leaves every payload alone, or is denied and changes nothing.

Main statements: `Laid.findFit` (a fit is found exactly if there is one), `Heap.serve_meets`.
-/

namespace BoundaryTag

structure Sound (h : Heap) (bs : List Block) (L : List Nat) : Prop where
  laid : Laid h bs L
  settled : Settled bs
  counted : Counted h bs

theorem Laid.sound_chunk {h : Heap} {n : Nat} (hl : Laid h [⟨16, n, false⟩] [16]) (hn : 16 ≤ n)
    (hc : h.counters = { claimed := 16 + n, extensions := 2 }) : Sound h [⟨16, n, false⟩] [16] := by
  have hend : 16 + n = h.arena.size := hl.tiled.tiling.2.2
  refine ⟨hl, List.isChain_singleton _, ⟨⟨?_, ?_⟩, ?_, ?_⟩⟩ <;> rw [hc]
  · exact hend
  · simp only
    omega
  · rfl
  · rfl

theorem Sound.withCheck {h : Heap} {bs : List Block} {L : List Nat} (hs : Sound h bs L)
    (level : CheckLevel) : Sound (h.withCheck level) bs L :=
  ⟨⟨hs.laid.initialized, hs.laid.tiled, hs.laid.list, hs.laid.table, hs.laid.listed⟩, hs.settled,
    ⟨⟨hs.counted.claimed, hs.counted.extensions⟩, hs.counted.allocations, hs.counted.allocated⟩⟩

/-- The payloads of the allocated blocks are the same in both arenas. -/
def Keeps (a a' : Arena) (bs : List Block) : Prop :=
  ∀ b ∈ allocatedBlocks bs, ∀ i, b.offset ≤ i → i + 8 < b.stop → a'.byte? i = a.byte? i

section
variable {a a' a'' : Arena} {bs bs' xs ys : List Block} {b : Block} {i e : Nat}

theorem Keeps.refl (a : Arena) (bs : List Block) : Keeps a a bs := fun _ _ _ _ _ => rfl

theorem Keeps.trans (h : Keeps a a' bs) (h' : Keeps a' a'' bs')
    (hb : ∀ b ∈ allocatedBlocks bs, b ∈ allocatedBlocks bs') : Keeps a a'' bs :=
  fun b hm i hl hr => (h' b (hb b hm) i hl hr).trans (h b hm i hl hr)

theorem Keeps.mono (h : Keeps a a' bs) (hb : ∀ b ∈ allocatedBlocks bs', b ∈ allocatedBlocks bs) :
    Keeps a a' bs' := fun b hm => h b (hb b hm)

theorem Arena.Patch.keeps (hp : a.Patch a' (b.offset - 4) (b.stop - 4))
    (ht : Tiling i (xs ++ b :: ys) e) : Keeps a a' (xs ++ ys) := by
  intro c hc j hl hr
  have := ht.beside (mem_allocatedBlocks.mp hc).1
  exact hp.outside j (by omega)

end

/-! ## Finding a fit -/

def Fits (bs : List Block) (size o : Nat) : Prop :=
  ∃ b ∈ bs, b.offset = o ∧ b.allocated = false ∧ size ≤ b.size

section
variable {h : Heap} {bs : List Block} {L : List Nat}

theorem Laid.betterFit (hl : Laid h bs L) (size : Nat) {best : Option (Nat × Nat)}
    {candidates : List Nat} (hc : ∀ o ∈ candidates, o ∈ L)
    (hb : ∀ p ∈ best, Fits bs size p.1) :
    ∃ r, h.betterFit size best candidates = .ok r ∧ (∀ o ∈ r, Fits bs size o) ∧
      (r = none → best = none ∧ ∀ b ∈ bs, b.offset ∈ candidates → b.size < size) := by
  induction candidates generalizing best with
  | nil =>
    refine ⟨best.map (·.1), rfl, fun o ho => ?_, fun hn => ?_⟩
    · obtain ⟨p, hp, rfl⟩ := Option.map_eq_some_iff.mp ho
      exact hb p hp
    · exact ⟨Option.map_eq_none_iff.mp hn, fun b _ hm => nomatch hm⟩
  | cons o rest ih =>
    obtain ⟨c, hcm, hcf, rfl⟩ := hl.mem_list.mp (hc o List.mem_cons_self)
    have hrest : ∀ o ∈ rest, o ∈ L := fun o ho => hc o (List.mem_cons_of_mem _ ho)
    have hcp := hl.tiled.tiling.proper hcm
    have hstep : h.betterFit size best (c.offset :: rest) =
        if c.tag.allocated ∨ c.tag.size < size then h.betterFit size best rest
        else if best.all (c.tag.size - size < ·.2) then
          if c.tag.size - size ≤ h.policy.fitThreshold then .ok (some c.offset)
          else h.betterFit size (some (c.offset, c.tag.size - size)) rest
        else h.betterFit size best rest := by
      rw [Heap.betterFit, hl.tiled.header hcm]
      rfl
    rw [hstep, hcp.allocated_tag, hcp.size_tag, hcf]
    simp only [Bool.false_eq_true, false_or]
    by_cases hlt : c.size < size
    · rw [if_pos hlt]
      obtain ⟨r, hr, hfit, hnone⟩ := ih hrest hb
      refine ⟨r, hr, hfit, fun hn => ⟨(hnone hn).1, fun b hbm hm => ?_⟩⟩
      rcases List.mem_cons.mp hm with he | hm
      · rw [hl.tiled.tiling.eq_of_offset hbm hcm he]
        exact hlt
      · exact (hnone hn).2 b hbm hm
    · have hfits : Fits bs size c.offset := ⟨c, hcm, rfl, hcf, Nat.not_lt.mp hlt⟩
      rw [if_neg hlt]
      split
      · split
        -- a close enough fit ends the search
        · exact ⟨_, rfl, fun o ho => Option.some.inj ho ▸ hfits, fun hn => nomatch hn⟩
        · obtain ⟨r, hr, hfit, hnone⟩ := ih hrest
            fun p (hp : p ∈ some (c.offset, c.size - size)) => Option.some.inj hp ▸ hfits
          exact ⟨r, hr, hfit, fun hn => nomatch (hnone hn).1⟩
      · next hall =>
        obtain ⟨r, hr, hfit, hnone⟩ := ih hrest hb
        refine ⟨r, hr, hfit, fun hn => absurd ?_ hall⟩
        rw [(hnone hn).1]
        rfl

theorem Laid.findFit (hl : Laid h bs L) (size : Nat) :
    ∃ r, h.findFit size = .ok r ∧ (∀ o ∈ r, Fits bs size o) ∧
      (r = none ↔ ∀ b ∈ bs, b.allocated = false → b.size < size) := by
  obtain ⟨r, hr, hfit, hnone⟩ := hl.betterFit size (fun _ ho => ho) (fun p (hp : p ∈ none) => nomatch hp)
  refine ⟨r, ?_, hfit, fun hn b hb hf => (hnone hn).2 b hb ((hl.offset_mem_list hb).mpr hf), ?_⟩
  · rw [Heap.findFit, hl.list.toList_eq]
    exact hr
  · intro hall
    cases r with
    | none => rfl
    | some o =>
      obtain ⟨b, hb, _, hf, hle⟩ := hfit o rfl
      exact absurd hle (Nat.not_le.mpr (hall b hb hf))

end

/-! ## Growing a sound heap -/

/-- What a call leaves alone that does not touch the allocated blocks `bs`. -/
structure Frame (h h' : Heap) (bs : List Block) : Prop where
  policy : h'.policy = h.policy
  ceiling : h'.arena.ceiling = h.arena.ceiling
  keeps : Keeps h.arena h'.arena bs

section
variable {h h' h'' : Heap} {bs bs' xs ys : List Block} {b : Block} {L : List Nat} {n size : Nat}

theorem Frame.refl (h : Heap) (bs : List Block) : Frame h h bs := ⟨rfl, rfl, Keeps.refl _ _⟩

theorem Frame.trans (hf : Frame h h' bs) (hf' : Frame h' h'' bs')
    (hb : ∀ b ∈ allocatedBlocks bs, b ∈ allocatedBlocks bs') : Frame h h'' bs :=
  ⟨hf'.policy.trans hf.policy, hf'.ceiling.trans hf.ceiling, hf.keeps.trans hf'.keeps hb⟩

theorem Frame.mono (hf : Frame h h' bs) (hb : ∀ b ∈ allocatedBlocks bs', b ∈ allocatedBlocks bs) :
    Frame h h' bs' := ⟨hf.policy, hf.ceiling, hf.keeps.mono hb⟩

/-- The free block at the end of a heap that grows by `n` bytes. -/
def Heap.summit (h : Heap) (bs : List Block) (n : Nat) : Block :=
  joined (freeRun bs ⟨h.arena.size, n, false⟩ [])

theorem Heap.le_summit (h : Heap) (bs : List Block) (n : Nat) : n ≤ (h.summit bs n).size := by
  simp only [Heap.summit, joined, freeRun, List.map_append, List.sum_append, List.map_cons,
    List.sum_cons]
  omega

theorem Heap.summit_concat (hb : b.allocated = false) :
    h.summit (xs ++ [b]) n = ⟨b.offset, b.size + n, false⟩ := by
  rw [Heap.summit, freeRun, freeLast_concat_of_free hb]
  simp [joined, freeFirst]

theorem Heap.summit_of_freeLast (hb : freeLast bs = []) : h.summit bs n = ⟨h.arena.size, n, false⟩ := by
  rw [Heap.summit, freeRun, hb]
  exact joined_singleton rfl

theorem Heap.size_summit (hb : b.allocated = false) : (h.summit (xs ++ [b]) n).size = b.size + n := by
  rw [h.summit_concat hb]

namespace Heap

open HeapM

theorem extend_sound (hs : Sound h bs L) (h8 : 8 ∣ n) (hn : 16 ≤ n) (hr : h.refused? n = none) :
    Meets (extend n) h
      (fun r h' => r = .ok (h.summit bs n).offset ∧
        Sound h' (belowFree bs ++ [h.summit bs n])
          ((h.arena.size :: L).diff ((freeRun bs ⟨h.arena.size, n, false⟩ []).tail.map (·.offset))) ∧
        Frame h h' bs ∧ h'.counters = h.counters.extended n)
      (fun e _ => Oversize h e) := by
  have ht := hs.laid.tiled
  have h16 := ht.sixteen_le
  have hrem := (refused?_eq_none_iff.mp hr).2.2
  rw [alignUp_eq_self h8] at hrem
  have halloc : allocatedBlocks (belowFree bs ++ [h.summit bs n]) = allocatedBlocks bs := by
    rw [allocatedBlocks_append, allocatedBlocks_belowFree,
      allocatedBlocks_cons_of_free (b := h.summit bs n) rfl, allocatedBlocks_nil, List.append_nil]
  have hsettled : Settled (belowFree bs ++ [h.summit bs n]) := by
    have hnil : Settled [] := List.isChain_nil
    have := hs.settled.coalesced hnil ⟨h.arena.size, n, false⟩
    rwa [aboveFree, List.append_nil] at this
  refine (extend_meets hs.laid hs.counted.toMetered h8 hn hr).mono ?_ ?_
  · intro _ _ hq
    obtain ⟨rfl, a, l, rfl, hp, hl⟩ := hq
    have hsize := hp.alike.size_of_raise hrem
    refine ⟨rfl, ⟨hl, hsettled, ⟨⟨?_, ?_⟩, ?_, ?_⟩⟩, ⟨rfl, ?_, ?_⟩, rfl⟩
    · show h.counters.claimed + n = a.size
      rw [hs.counted.claimed, hsize]
    · have := hs.counted.extensions
      simp only [Counters.extended]
      omega
    · rw [halloc]
      exact hs.counted.allocations
    · show h.counters.allocated = payloads (belowFree bs ++ [h.summit bs n])
      rw [payloads, halloc]
      exact hs.counted.allocated
    · exact hp.alike.ceiling_of_raise hrem
    · intro c hc i hlo hhi
      have hc' : c ∈ belowFree bs :=
        (mem_allocatedBlocks.mp (allocatedBlocks_belowFree bs ▸ hc)).1
      have h₁ := (hl.tiled.tiling.split.1.bounds hc').2
      have h₂ := (ht.tiling.bounds (mem_allocatedBlocks.mp hc).1).2
      show a.byte? i = h.arena.byte? i
      rw [hp.outside i (Or.inl (by omega)), Arena.byte?_raise hrem hn h16 (by omega)]
  · intro _ _ hq
    obtain ⟨rfl, hlt⟩ := hq
    refine ⟨_, rfl, hlt, ?_⟩
    have htop : Tiling 16 (bs ++ [⟨h.arena.size, n, false⟩]) (h.arena.size + n) := by
      obtain ⟨hmax, _, _⟩ := refused?_eq_none_iff.mp hr
      rw [alignUp_eq_self h8] at hmax
      exact tiling_append.mpr ⟨_, ht.tiling, rfl, ⟨h8, hn, hmax⟩, rfl⟩
    have := htop.joined_size_le
    have := h.arena.remaining_eq
    exact ⟨htop.dvd_joined, by omega⟩

end Heap

/-! ## Serving -/

/-- The error for a request of `size` bytes that neither a free block nor new memory can hold. -/
def Heap.shortage? (h : Heap) (bs : List Block) (size : Nat) : Option AllocError :=
  if bs.any fun b => !b.allocated && size ≤ b.size then none
  else h.refused? (max size h.policy.chunkSize)

def Heap.denied? (h : Heap) (bs : List Block) (payload : Nat) : Option AllocError :=
  match blockSizeFor payload with
  | .error e => some e
  | .ok size => h.shortage? bs size

/-- The free block `b`, between `xs` and `ys`, is there for a request of `size` bytes: either it was in
the heap before, or the heap grew by it. -/
inductive Source (h : Heap) (bs : List Block) (size : Nat) :
    List Block → Block → List Block → Prop
  | listed {xs : List Block} {b : Block} {ys : List Block} : bs = xs ++ b :: ys →
      b.allocated = false → size ≤ b.size → Source h bs size xs b ys
  | fresh : (∀ b ∈ bs, b.allocated = false → b.size < size) →
      Source h bs size (belowFree bs) (h.summit bs (max size h.policy.chunkSize)) []

/-- The free block `b`, between `xs` and `ys`, into which a request for a block of `size` bytes is placed, and by
how many bytes the arena grows for it. -/
inductive Chosen (h : Heap) (bs : List Block) (size : Nat) :
    List Block → Block → List Block → Nat → Prop
  | listed {xs : List Block} {b : Block} {ys : List Block} : h.findFit size = .ok (some b.offset) →
      bs = xs ++ b :: ys → b.allocated = false → size ≤ b.size → Chosen h bs size xs b ys 0
  | merged {xs : List Block} {c : Block} : (∀ f ∈ bs, f.allocated = false → f.size < size) →
      bs = xs ++ [c] → c.allocated = false →
      Chosen h bs size xs ⟨c.offset, c.size + max size h.policy.chunkSize, false⟩ []
        (max size h.policy.chunkSize)
  | added : (∀ f ∈ bs, f.allocated = false → f.size < size) →
      (∀ c ∈ bs.getLast?, c.allocated = true) →
      Chosen h bs size bs ⟨h.arena.top, max size h.policy.chunkSize, false⟩ []
        (max size h.policy.chunkSize)

/-- What a request for `payload` bytes leads to when it is met with the handle `q`. -/
def Served (h : Heap) (bs : List Block) (payload : Nat) (q : Handle) (h' : Heap) : Prop :=
  ∃ size xs b ys L, blockSizeFor payload = .ok size ∧ Source h bs size xs b ys ∧ q = ⟨b.offset⟩ ∧
    Sound h' (xs ++ h.policy.carve b size ++ ys) L ∧ Frame h h' bs

/-- The same to the last block and list entry, from a heap with the free list `L`. -/
def Granted (h : Heap) (bs : List Block) (L : List Nat) (payload : Nat) (q : Handle) (h' : Heap) :
    Prop :=
  ∃ size xs b ys n, blockSizeFor payload = .ok size ∧ Chosen h bs size xs b ys n ∧ q = ⟨b.offset⟩ ∧
    Sound h' (xs ++ h.policy.carve b size ++ ys) (h.policy.relist b size L) ∧ Frame h h' bs ∧
    h'.arena.size = h.arena.size + n

theorem Chosen.fresh (ht : Tiled h.arena bs) (hno : ∀ b ∈ bs, b.allocated = false → b.size < size) :
    Chosen h bs size (belowFree bs) (h.summit bs (max size h.policy.chunkSize)) []
      (max size h.policy.chunkSize) := by
  rcases freeLast_cases ht.tiling with ⟨hlast, -⟩ | ⟨zs, c, rfl, hc⟩
  · rw [belowFree_of_freeLast hlast, h.summit_of_freeLast hlast, ← ht.top_eq]
    exact .added hno (allocated_of_freeLast hlast)
  · rw [belowFree_concat_of_free hc, h.summit_concat hc]
    exact .merged hno rfl hc

theorem Chosen.source (hc : Chosen h bs size xs b ys n) (ht : Tiled h.arena bs) :
    Source h bs size xs b ys := by
  cases hc with
  | listed _ hbs hf hle => exact .listed hbs hf hle
  | merged hno hbs hf =>
    subst hbs
    have hs := Source.fresh (h := h) hno
    rwa [belowFree_concat_of_free hf, h.summit_concat hf] at hs
  | added hno hlast =>
    have hs := Source.fresh (h := h) hno
    have hnone : freeLast bs = [] := freeLast_of_allocated hlast
    rwa [belowFree_of_freeLast hnone, h.summit_of_freeLast hnone, ← ht.top_eq] at hs

theorem Granted.served {payload : Nat} {q : Handle} (hq : Granted h bs L payload q h')
    (ht : Tiled h.arena bs) : Served h bs payload q h' := by
  obtain ⟨size, xs, b, ys, n, hsize, hchosen, hqb, hs, hf, -⟩ := hq
  exact ⟨size, xs, b, ys, _, hsize, hchosen.source ht, hqb, hs, hf⟩

theorem Source.free (hs : Source h bs size xs b ys) : b.allocated = false := by
  cases hs with
  | listed _ hf _ => exact hf
  | fresh _ => rfl

theorem Source.le (hs : Source h bs size xs b ys) : size ≤ b.size := by
  cases hs with
  | listed _ _ hle => exact hle
  | fresh _ => exact Nat.le_trans (Nat.le_max_left _ _) (h.le_summit bs _)

theorem Source.allocatedBlocks_eq (hs : Source h bs size xs b ys) :
    allocatedBlocks bs = allocatedBlocks xs ++ allocatedBlocks ys := by
  cases hs with
  | listed hbs hf _ => rw [hbs, allocatedBlocks_append, allocatedBlocks_cons_of_free hf]
  | fresh _ => rw [allocatedBlocks_belowFree, allocatedBlocks_nil, List.append_nil]

theorem blockSizeFor_spec {payload size : Nat} (h : blockSizeFor payload = .ok size) :
    8 ∣ size ∧ payload + 8 ≤ size ∧ size ≤ maxBlockSize ∧ (1 ≤ payload → 16 ≤ size) := by
  obtain ⟨rfl, hm⟩ := blockSizeFor_eq_ok_iff.mp h
  have hle := le_alignUp (payload + overhead)
  have hd := alignUp_dvd (payload + overhead)
  simp only [overhead] at *
  exact ⟨hd, hle, hm, fun h => by omega⟩

theorem Served.block {payload : Nat} {q : Handle} (hq : Served h bs payload q h') :
    ∃ size zs c ws L, blockSizeFor payload = .ok size ∧ q = ⟨c.offset⟩ ∧ c.allocated = true ∧
      size ≤ c.size ∧ Sound h' (zs ++ c :: ws) L ∧ allocatedBlocks (zs ++ ws) = allocatedBlocks bs ∧
      Frame h h' bs := by
  obtain ⟨size, xs, f, ys, L, hsize, hsrc, rfl, hs, hf⟩ := hq
  obtain ⟨rest, hcarve, hrest⟩ := h.policy.carve_eq_cons f size
  rw [hcarve, List.append_assoc, List.cons_append] at hs
  refine ⟨size, xs, ⟨f.offset, h.policy.share f.size size, true⟩, rest ++ ys, L, hsize, rfl, rfl,
    le_share hsrc.le, hs, ?_, hf⟩
  rw [hsrc.allocatedBlocks_eq, allocatedBlocks_append, allocatedBlocks_append,
    allocatedBlocks_of_free hrest, List.nil_append]

namespace Heap

open HeapM

theorem shortage?_eq_none_of_fit {b : Block} (hb : b ∈ bs) (hf : b.allocated = false)
    (hle : size ≤ b.size) : h.shortage? bs size = none :=
  if_pos (List.any_eq_true.mpr ⟨b, hb, by simp [hf, hle]⟩)

theorem shortage?_of_no_fit (hno : ∀ b ∈ bs, b.allocated = false → b.size < size) :
    h.shortage? bs size = h.refused? (max size h.policy.chunkSize) := by
  refine if_neg fun ha => ?_
  obtain ⟨b, hb, hfit⟩ := List.any_eq_true.mp ha
  simp only [Bool.and_eq_true, Bool.not_eq_true', decide_eq_true_eq] at hfit
  exact absurd hfit.2 (Nat.not_le.mpr (hno b hb hfit.1))

theorem erase_summit (hl : Laid h bs L) :
    ((h.arena.size :: L).diff ((freeRun bs ⟨h.arena.size, n, false⟩ []).tail.map (·.offset))).erase
      (h.summit bs n).offset = L.erase (h.summit bs n).offset := by
  rcases freeLast_cases hl.tiled.tiling with ⟨hlast, -⟩ | ⟨zs, p, rfl, hp⟩
  · have hnew : h.arena.size ∉ L := fun hm => absurd rfl (hl.slot_ne_end hm)
    rw [h.summit_of_freeLast hlast, freeRun, hlast]
    show (h.arena.size :: L).erase h.arena.size = _
    rw [List.erase_cons_head, List.erase_of_not_mem hnew]
  · rw [h.summit_concat hp, freeRun, freeLast_concat_of_free hp]
    show ((h.arena.size :: L).diff [h.arena.size]).erase p.offset = _
    rw [List.diff_cons, List.diff_nil, List.erase_cons_head]

theorem obtain_meets (hs : Sound h bs L) (h8 : 8 ∣ size) (hn : 16 ≤ size) :
    Meets (obtain size) h
      (fun r h' => match h.shortage? bs size with
        | some e => r = .error e ∧ h' = h
        | none => ∃ xs b ys n L', Chosen h bs size xs b ys n ∧ r = .ok b.offset ∧
            Sound h' (xs ++ b :: ys) L' ∧ L'.erase b.offset = L.erase b.offset ∧ Frame h h' bs ∧
            h'.arena.size = h.arena.size + n ∧ (Overcounted h' → Overcounted h))
      (fun e _ => h.shortage? bs size = none ∧ Strained h e) := by
  obtain ⟨r, hr, hfit, hnone⟩ := hs.laid.findFit size
  apply Meets.read_bind hr
  cases r with
  | some o =>
    obtain ⟨b, hb, rfl, hf, hle⟩ := hfit o rfl
    rw [shortage?_eq_none_of_fit hb hf hle]
    obtain ⟨xs, ys, rfl⟩ := List.append_of_mem hb
    exact Meets.pure ⟨xs, b, ys, 0, L, .listed hr rfl hf hle, rfl, hs, rfl, Frame.refl _ _, rfl, id⟩
  | none =>
    have hno := hnone.mp rfl
    rw [shortage?_of_no_fit hno]
    apply Meets.view_bind
    cases hrf : h.refused? (max size h.policy.chunkSize) with
    | some e => exact Meets.of_run (extend_run_of_refused hrf) ⟨rfl, rfl⟩
    | none =>
      have h8' : 8 ∣ max size h.policy.chunkSize := by
        have := h.policy.chunk_dvd
        omega
      refine (extend_sound hs h8' (Nat.le_trans hn (Nat.le_max_left _ _)) hrf).mono ?_
        (fun _ _ he => ⟨rfl, Or.inl he⟩)
      intro _ h' hq
      obtain ⟨rfl, hs', hf, hc⟩ := hq
      have hsize : h'.arena.size = h.arena.size + max size h.policy.chunkSize := by
        rw [← hs'.counted.claimed, ← hs.counted.claimed, hc]
        rfl
      refine ⟨_, _, [], _, _, .fresh hs.laid.tiled hno, rfl, hs', erase_summit hs.laid, hf, hsize, ?_⟩
      rw [Overcounted, hc]
      exact id

theorem place_sound (hs : Sound h (xs ++ b :: ys) L) (hb : b.allocated = false) (h8 : 8 ∣ size)
    (hn : 16 ≤ size) (hle : size ≤ b.size) :
    Meets (place b.offset size) h
      (fun _ h' => Sound h' (xs ++ h.policy.carve b size ++ ys) (h.policy.relist b size L) ∧
        Frame h h' (xs ++ b :: ys) ∧
        (Counters.recordAlloc (h.policy.share b.size size - 8)).run h.counters = .ok () h'.counters)
      (fun e h' => e = .overflow ∧ Overcounted h ∧
        (Counters.recordAlloc (h.policy.share b.size size - 8)).run h.counters = .error e h'.counters ∧
        Laid h' (xs ++ h.policy.carve b size ++ ys) (h.policy.relist b size L)) := by
  refine (place_meets hs.laid hs.settled hs.counted hb h8 hn hle).mono ?_ ?_
  · intro _ _ hq
    obtain ⟨hrec, a, l, rfl, hp, hl⟩ := hq
    have hall : allocatedBlocks (xs ++ b :: ys) = allocatedBlocks (xs ++ ys) :=
      allocatedBlocks_middle_of_free hb
    have hperm := allocatedBlocks_carve_perm h.policy b size xs ys
    rw [← hall] at hperm
    refine ⟨⟨hl, hs.settled.carve hb, ?_⟩, ⟨rfl, hp.alike.ceiling, ?_⟩, hrec⟩
    · exact hs.counted.charged (c := ⟨b.offset, h.policy.share b.size size, true⟩) rfl hp.alike.size hperm
    · exact (hp.keeps hs.laid.tiled.tiling).mono fun c hc => hall ▸ hc
  · intro _ _ hq
    obtain ⟨hrec, rfl, ho, hl⟩ := hq
    exact ⟨rfl, ho, hrec, hl⟩

theorem serve_meets (hs : Sound h bs L) {payload : Nat} (hp : 1 ≤ payload) :
    Meets (serve payload) h
      (fun r h' => match h.denied? bs payload with
        | some e => r = .error e ∧ h' = h
        | none => ∃ q, r = .ok q ∧ Granted h bs L payload q h')
      (fun e _ => h.denied? bs payload = none ∧ Strained h e) := by
  unfold denied?
  apply Meets.view_bind
  rw [if_pos hs.laid.initialized]
  cases hsize : blockSizeFor payload with
  | error e => exact Meets.pure ⟨rfl, rfl⟩
  | ok size =>
    obtain ⟨h8, _, hmax, hn⟩ := blockSizeFor_spec hsize
    refine (obtain_meets hs h8 (hn hp)).seq (fun _ _ => id) ?_
    simp only
    cases hsh : h.shortage? bs size with
    | some e =>
      intro _ _ hq
      obtain ⟨rfl, rfl⟩ := hq
      exact Meets.pure ⟨rfl, rfl⟩
    | none =>
      intro _ h' hq
      obtain ⟨xs, b, ys, n, L', hchosen, rfl, hs', hL, hf, hgrown, ho⟩ := hq
      have hsrc := hchosen.source hs.laid.tiled
      refine (place_sound hs' hsrc.free h8 (hn hp) hsrc.le).seq ?_ ?_
      · intro _ _ hq
        obtain ⟨rfl, he, -⟩ := hq
        exact ⟨rfl, Or.inr ⟨rfl, ho he⟩⟩
      · intro _ h'' hq
        obtain ⟨hs'', hf', hrec⟩ := hq
        have hsame : h''.arena.size = h'.arena.size := by
          rw [← hs''.counted.claimed, ← hs'.counted.claimed, Counters.eq_charged hrec]
          rfl
        rw [hf.policy, Policy.relist_congr hL] at hs''
        refine Meets.pure ⟨_, rfl, size, xs, b, ys, n, hsize, hchosen, rfl, hs'', hf.trans hf' ?_,
          hsame.trans hgrown⟩
        intro c hc
        rw [allocatedBlocks_append, allocatedBlocks_cons_of_free hsrc.free]
        rwa [hsrc.allocatedBlocks_eq] at hc

theorem tryMalloc_zero_meets (hs : Sound h bs L) :
    Meets (tryMalloc 0) h (fun r h' => r = .ok none ∧ h' = h) NoFault := by
  apply (selfCheck_meets hs.laid hs.settled .malloc).then
  intro _ _ he
  subst he
  exact Meets.pure ⟨rfl, rfl⟩

theorem tryMalloc_meets (hs : Sound h bs L) {payload : Nat} (hp : 1 ≤ payload) :
    Meets (tryMalloc payload) h
      (fun r h' => match h.denied? bs payload with
        | some e => r = .error e ∧ h' = h
        | none => ∃ q, r = .ok (some q) ∧ Granted h bs L payload q h')
      (fun e _ => h.denied? bs payload = none ∧ Strained h e) := by
  apply (selfCheck_meets hs.laid hs.settled .malloc).then
  intro _ h he
  subst he
  rw [if_neg (Nat.ne_of_gt hp)]
  refine (serve_meets hs hp).seq (fun _ _ => id) ?_
  cases h.denied? bs payload with
  | some e =>
    intro _ _ hq
    obtain ⟨rfl, rfl⟩ := hq
    exact Meets.pure ⟨rfl, rfl⟩
  | none =>
    intro _ h' hq
    obtain ⟨q, rfl, hq⟩ := hq
    exact Meets.pure ⟨q, rfl, hq⟩

theorem malloc_zero_meets (hs : Sound h bs L) :
    Meets (malloc 0) h (fun r h' => r = none ∧ h' = h) NoFault := by
  apply (tryMalloc_zero_meets hs).then
  intro _ _ hq
  obtain ⟨rfl, rfl⟩ := hq
  exact Meets.pure ⟨rfl, rfl⟩

theorem malloc_meets (hs : Sound h bs L) {payload : Nat} (hp : 1 ≤ payload) :
    Meets (malloc payload) h
      (fun r h' => match h.denied? bs payload with
        | some _ => r = none ∧ h' = h
        | none => ∃ q, r = some q ∧ Granted h bs L payload q h')
      (fun e _ => h.denied? bs payload = none ∧ Strained h e) := by
  refine (tryMalloc_meets hs hp).seq (fun _ _ => id) ?_
  cases h.denied? bs payload with
  | some e =>
    intro _ _ hq
    obtain ⟨rfl, rfl⟩ := hq
    exact Meets.tell_bind (Meets.pure ⟨rfl, rfl⟩)
  | none =>
    intro _ h' hq
    obtain ⟨q, rfl, hq⟩ := hq
    exact Meets.pure ⟨q, rfl, hq⟩

theorem tryMalloc_run_of_uninitialized (hi : h.initialized = false) (payload : Nat) :
    (tryMalloc payload).run h =
      ⟨⟨.ok (if payload = 0 then .ok none else .error .uninitialized), []⟩, h⟩ := by
  rw [tryMalloc, run_bind_of_ok (selfCheck_run_of_uninitialized hi _)]
  by_cases hp : payload = 0
  · rw [if_pos hp, if_pos hp]
    rfl
  · have hr : (serve payload).run h = ⟨⟨.ok (.error .uninitialized), []⟩, h⟩ := by
      rw [serve, run_bind_of_ok (run_view _ h), hi]
      rfl
    rw [if_neg hp, if_neg hp, run_bind_of_ok hr]
    rfl

end Heap

end

end BoundaryTag
