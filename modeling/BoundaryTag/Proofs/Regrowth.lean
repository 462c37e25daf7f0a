import BoundaryTag.Proofs.Faults
import BoundaryTag.Proofs.Lockstep

/-!
# Where a reallocation is placed

A block that is too small takes in the free block below it, or the one above, or both, whichever is the first to
reach the size that is needed. Where none does, reallocating is allocating, and then freeing the old block.

Main statement: `reachable_regrowth`.
-/

namespace BoundaryTag

/-- How the block `b`, between `xs` and `ys`, comes to have `need` bytes where it is: the free blocks that it takes
in, the block that it becomes, and all blocks as they are then. -/
inductive Regrown (need : Nat) :
    List Block → Block → List Block → List Block → Block → List Block → Prop
  | down {zs : List Block} {q b : Block} {ys : List Block} : q.allocated = false →
      need ≤ q.size + b.size →
      Regrown need (zs ++ [q]) b ys [q] ⟨q.offset, q.size + b.size, true⟩
        (zs ++ ⟨q.offset, q.size + b.size, true⟩ :: ys)
  | up {xs : List Block} {b r : Block} {ws : List Block} :
      (∀ q ∈ xs.getLast?, q.allocated = false → q.size + b.size < need) →
      r.allocated = false → need ≤ b.size + r.size →
      Regrown need xs b (r :: ws) [r] ⟨b.offset, b.size + r.size, true⟩
        (xs ++ ⟨b.offset, b.size + r.size, true⟩ :: ws)
  | both {zs : List Block} {q b r : Block} {ws : List Block} : q.allocated = false →
      r.allocated = false → q.size + b.size < need → b.size + r.size < need →
      need ≤ q.size + b.size + r.size →
      Regrown need (zs ++ [q]) b (r :: ws) [q, r] ⟨q.offset, q.size + b.size + r.size, true⟩
        (zs ++ ⟨q.offset, q.size + b.size + r.size, true⟩ :: ws)

/-- The heap `h'` has the blocks `bs` since the free blocks `taken` of `h` went into one of their neighbours. The
payloads of the blocks `rest` are where they were. -/
structure Heap.Absorbs (h h' : Heap) (taken bs rest : List Block) : Prop where
  top : h'.arena.top = h.arena.top
  blocks : h'.blocks = .ok bs
  listed : ∀ q ∈ taken, q.offset ∈ h.freeList.toList
  freeList : h'.freeList.toList = h.freeList.toList.filter (· ∉ taken.map (·.offset))
  payloads : Keeps h.arena h'.arena rest

/-- Reallocating `p` to `n` bytes comes out as allocating `n` bytes and then freeing `p`. -/
structure Session.Relocates (s : Session) (p : Handle) (n : Nat) : Prop where
  moved : ∀ q, s.answer (.malloc n) = .ok (.handle (some q)) →
    s.answer (.realloc (some p) n) = .ok (.handle (some q)) ∧
      let t := s.next (.malloc n) (.handle (some q))
      t.answer (.free p) = .ok .done ∧
        (t.next (.free p) .done).heap.SameView (s.next (.realloc (some p) n) (.handle (some q))).heap
  exhausted : s.answer (.malloc n) = .ok (.handle none) →
    ∃ e, s.answer (.realloc (some p) n) = .error (.relocation p n e)
  fault : ∀ e, s.answer (.malloc n) = .error e → s.answer (.realloc (some p) n) = .error e

open HeapM

section
variable {h h₀ : Heap} {bs xs ys taken : List Block} {b d : Block} {L : List Nat} {s : Session}
  {p : Handle} {i e n need : Nat}

/-! ## In place -/

theorem Regrown.taken_free (hr : Regrown need xs b ys taken d bs) :
    ∀ q ∈ taken, q ∈ xs ++ b :: ys ∧ q.allocated = false := by
  cases hr with
  | down hq => simp [hq]
  | up _ hr => simp [hr]
  | both hq hr => simp [hq, hr]

theorem Regrown.plan (hr : Regrown need xs b ys taken d bs) (ht : Tiling 16 (xs ++ b :: ys) e) :
    ∃ g, Growth.plan b.size need (tagBelow xs) (tagAbove ys) = some g ∧ taken = g.low xs ++ g.high ys ∧
      d = g.grown xs b ys ∧ bs = g.below xs ++ [d] ++ g.above ys := by
  obtain ⟨hxs, -, hys⟩ := ht.split
  cases hr with
  | @down zs q b ys hq hle =>
    have hqa := hxs.split.2.1.allocated_tag
    have hqs := hxs.split.2.1.size_tag
    refine ⟨.down, ?_, ?_, ?_, ?_⟩
    · rw [Growth.plan, tagBelow_concat, if_pos ⟨by simp [hqa, hq], by omega⟩]
    · simp [Growth.low, Growth.high, freeLast_concat_of_free hq]
    · simp [Growth.grown, Growth.low, Growth.high, occupying, joined, freeLast_concat_of_free hq]
    · simp [Growth.below, Growth.above, belowFree_concat_of_free hq]
  | @up xs b r ws hsmall hr hle =>
    have hra := hys.2.1.allocated_tag
    have hrs := hys.2.1.size_tag
    have hdown : ¬ ((!(tagBelow xs).allocated) = true ∧ need ≤ b.size + (tagBelow xs).size) := by
      rintro ⟨hf, hreach⟩
      obtain ⟨zs, q, rfl, hq, hsize⟩ := tagBelow_free hxs (by simpa using hf)
      have := hsmall q List.getLast?_concat hq
      omega
    refine ⟨.up, ?_, ?_, ?_, ?_⟩
    · rw [Growth.plan, if_neg hdown, if_pos ⟨by simp [tagAbove, hra, hr], by simp only [tagAbove]; omega⟩]
    · simp [Growth.low, Growth.high, freeFirst_cons_of_free hr]
    · simp [Growth.grown, Growth.low, Growth.high, occupying, joined, freeFirst_cons_of_free hr]
    · simp [Growth.below, Growth.above, aboveFree_cons_of_free hr]
  | @both zs q b r ws hq hr hdown hup hle =>
    have hqa := hxs.split.2.1.allocated_tag
    have hqs := hxs.split.2.1.size_tag
    have hra := hys.2.1.allocated_tag
    have hrs := hys.2.1.size_tag
    refine ⟨.both, ?_, ?_, ?_, ?_⟩
    · rw [Growth.plan, tagBelow_concat, if_neg (by omega), if_neg (by simp only [tagAbove]; omega), if_pos ?_]
      exact ⟨by simp [hqa, hq], by simp [tagAbove, hra, hr], by simp only [tagAbove]; omega⟩
    · simp [Growth.low, Growth.high, freeLast_concat_of_free hq, freeFirst_cons_of_free hr]
    · simp [Growth.grown, Growth.low, Growth.high, occupying, joined, freeLast_concat_of_free hq,
        freeFirst_cons_of_free hr, Nat.add_assoc]
    · simp [Growth.below, Growth.above, belowFree_concat_of_free hq, aboveFree_cons_of_free hr]

theorem exists_regrown {g : Growth} (ht : Tiling 16 (xs ++ b :: ys) e)
    (hg : Growth.plan b.size need (tagBelow xs) (tagAbove ys) = some g) :
    ∃ taken d bs, Regrown need xs b ys taken d bs := by
  obtain ⟨hxs, -, hys⟩ := ht.split
  by_cases hdown : ∃ zs q, xs = zs ++ [q] ∧ q.allocated = false ∧ need ≤ q.size + b.size
  · obtain ⟨zs, q, rfl, hq, hle⟩ := hdown
    exact ⟨_, _, _, .down hq hle⟩
  have hsmall : ∀ q ∈ xs.getLast?, q.allocated = false → q.size + b.size < need := by
    intro q hq hf
    obtain ⟨zs, rfl⟩ := List.getLast?_eq_some_iff.mp hq
    by_contra hle
    exact hdown ⟨zs, q, rfl, hf, Nat.not_lt.mp hle⟩
  have hfree := Growth.feasible_of_plan hg
  cases g with
  | down =>
    obtain ⟨zs, q, rfl, hq, hsize⟩ := tagBelow_free hxs hfree.1
    exact absurd ⟨zs, q, rfl, hq, by have := hfree.2; omega⟩ hdown
  | up =>
    obtain ⟨r, ws, rfl, hr, hsize⟩ := tagAbove_free hys hfree.1
    exact ⟨_, _, _, .up hsmall hr (by have := hfree.2; omega)⟩
  | both =>
    obtain ⟨zs, q, rfl, hq, hsize⟩ := tagBelow_free hxs hfree.1
    obtain ⟨r, ws, rfl, hr, hsize'⟩ := tagAbove_free hys hfree.2.1
    have hlt := hsmall q List.getLast?_concat hq
    by_cases hup : need ≤ b.size + r.size
    · exact ⟨_, _, _, .up hsmall hr hup⟩
    · exact ⟨_, _, _, .both hq hr hlt (Nat.not_le.mp hup) (by have := hfree.2.2; omega)⟩

/-! ## Elsewhere -/

theorem Call.malloc_retraces (hs : Sound h bs L) (hn : 1 ≤ n) :
    Meets (Call.malloc n).action h
      (fun a h' => h' = ((Heap.serve n).run h).heap ∧
        ((∃ q, a = .handle (some q) ∧ ((Heap.serve n).run h).result = .ok (.ok q)) ∨
          ∃ err, a = .handle none ∧ ((Heap.serve n).run h).result = .ok (.error err)))
      (fun e _ => ((Heap.serve n).run h).result = .error e) := by
  have hserve := (Heap.serve_meets hs hn).traced
  have htry : Meets (Heap.tryMalloc n) h
      (fun r h' => ∃ r', r = r'.map some ∧ ((Heap.serve n).run h).result = .ok r' ∧
        h' = ((Heap.serve n).run h).heap)
      (fun e _ => ((Heap.serve n).run h).result = .error e) := by
    apply (Heap.selfCheck_meets hs.laid hs.settled .malloc).then
    intro _ h he
    subst he
    rw [if_neg (Nat.ne_of_gt hn)]
    exact hserve.seq (fun _ _ => And.left) fun r' _ hq => Meets.pure ⟨r', rfl, hq.1⟩
  have hmalloc : Meets (Heap.malloc n) h
      (fun r h' => h' = ((Heap.serve n).run h).heap ∧
        ((∃ q, r = some q ∧ ((Heap.serve n).run h).result = .ok (.ok q)) ∨
          ∃ err, r = none ∧ ((Heap.serve n).run h).result = .ok (.error err)))
      (fun e _ => ((Heap.serve n).run h).result = .error e) := by
    refine htry.seq (fun _ _ => id) ?_
    rintro _ h' ⟨err | q, rfl, hr, hh⟩
    · exact Meets.tell_bind (Meets.pure ⟨hh, Or.inr ⟨err, rfl, hr⟩⟩)
    · exact Meets.pure ⟨hh, Or.inl ⟨q, rfl, hr⟩⟩
  refine hmalloc.seq (fun _ _ => id) ?_
  rintro _ h' ⟨hh, ⟨q, rfl, hr⟩ | ⟨err, rfl, hr⟩⟩
  · exact Meets.pure ⟨hh, Or.inl ⟨q, rfl, hr⟩⟩
  · exact Meets.pure ⟨hh, Or.inr ⟨err, rfl, hr⟩⟩

theorem Heap.relocate_retraces (hs : Sound h (xs ++ b :: ys) L) (hc : h.arena.ceiling ≤ maxBlockSize)
    (hb : b.allocated = true) (hp : p.offset = b.offset) (hn : 1 ≤ n)
    (hsize : blockSizeFor n = .ok need) (hlt : b.size < need) :
    Meets (Heap.relocate p n b.size) h
      (fun q h' => ((Heap.serve n).run h).result = .ok (.ok q) ∧
        ((Heap.free p).run ((Heap.serve n).run h).heap).result = .ok () ∧
        Twin ((Heap.free p).run ((Heap.serve n).run h).heap).heap h')
      (fun e _ => ((Heap.serve n).run h).result = .error e ∨
        ∃ err, ((Heap.serve n).run h).result = .ok (.error err) ∧ e = .relocation p n err) := by
  refine Heap.relocate_meets_of hs hb hp hn hsize hlt (fun _ _ he _ => Or.inl he)
    (fun err he _ => Or.inr ⟨err, he, rfl⟩) ?_
  intro h₁ h₂ us c vs L₁ hcopy
  have hc₁ : h₁.arena.ceiling ≤ maxBlockSize := hcopy.frame₁.ceiling.trans_le hc
  have hs₁ := hcopy.sound₁
  have hs₂ := hcopy.sound₂
  obtain ⟨zs, ws, hsplit⟩ := List.append_of_mem hcopy.still
  rw [hsplit] at hs₁ hs₂
  -- before and after the move the heaps are twins, so that freeing the old block ends alike on both
  have halike : h₁.Alike h₂ := ⟨hcopy.frame₂.policy, hcopy.frame₂.ceiling, hcopy.counters⟩
  have hfree := Heap.free_agree hs₁ hs₂ halike hc₁ hb hp
  have hnone : Meets (Heap.free p) h₁ (fun _ _ => True) NoFault :=
    (Heap.free_meets hs₁ hb hp).mono (fun _ _ _ => trivial) fun e _ => not_oversize hc₁ e
  obtain ⟨_, hdone, -⟩ := hnone.exists_ok
  rw [hcopy.served.2]
  refine hfree.meets.mono (fun _ h₃ hq => ⟨hcopy.served.1, hq⟩) ?_
  rintro e _ ⟨he, -⟩
  cases hdone.symm.trans he

/-! ## Reallocating -/

theorem Call.realloc_meets_of_enlarge {Q : Answer → Heap → Prop} {E : Fault → Heap → Prop}
    (hs : Sound h (xs ++ b :: ys) L) (hp : p.offset = b.offset) (hn : 1 ≤ n)
    (hsize : blockSizeFor n = .ok need)
    (hm : Meets (Heap.enlarge p n need) h (fun q h' => Q (.handle (some q)) h') E) :
    Meets (Call.realloc (some p) n).action h Q E := by
  have howns := hs.laid.owns_eq
  rw [← hp] at howns
  have hresize : Meets (Heap.resize p n) h
      (fun r h' => ∃ q, r = some q ∧ Q (.handle (some q)) h') E := by
    apply Meets.read_bind howns
    rw [if_pos rfl, hsize]
    exact hm.seq (fun _ _ => id) fun q _ hq => Meets.pure ⟨q, rfl, hq⟩
  rw [← Heap.realloc_of_pos hn] at hresize
  refine hresize.seq (fun _ _ => id) ?_
  rintro _ _ ⟨q, rfl, hq⟩
  exact Meets.pure hq

theorem Call.realloc_meets_of_oversized {e : AllocError} (hs : Sound h (xs ++ b :: ys) L)
    (hp : p.offset = b.offset) (hn : 1 ≤ n) (hsize : blockSizeFor n = .error e) :
    Meets (Call.realloc (some p) n).action h (fun a h' => a = .handle none ∧ h' = h) NoFault := by
  have howns := hs.laid.owns_eq
  rw [← hp] at howns
  have hresize : Meets (Heap.resize p n) h (fun r h' => r = none ∧ h' = h) NoFault := by
    apply Meets.read_bind howns
    rw [if_pos rfl, hsize]
    exact Meets.tell_bind (Meets.pure ⟨rfl, rfl⟩)
  rw [← Heap.realloc_of_pos hn] at hresize
  apply hresize.then
  rintro _ _ ⟨rfl, rfl⟩
  exact Meets.pure ⟨rfl, rfl⟩

theorem Call.realloc_stays (hs : Sound h (xs ++ b :: ys) L) (hp : p.offset = b.offset) (hn : 1 ≤ n)
    (hsize : blockSizeFor n = .ok need) (hle : need ≤ b.size) :
    Meets (Call.realloc (some p) n).action h (fun a h' => a = .handle (some p) ∧ h' = h) NoFault :=
  Call.realloc_meets_of_enlarge hs hp hn hsize (Heap.enlarge_meets_of hs hp (fun _ => ⟨rfl, rfl⟩)
    (fun _ hlt => absurd hle (Nat.not_le.mpr hlt)) fun hlt => absurd hle (Nat.not_le.mpr hlt))

theorem Call.realloc_absorbs (hs : Sound h (xs ++ b :: ys) L) (hb : b.allocated = true)
    (hp : p.offset = b.offset) (hn : 1 ≤ n) (hsize : blockSizeFor n = .ok need) (hlt : b.size < need)
    (hr : Regrown need xs b ys taken d bs) :
    Meets (Call.realloc (some p) n).action h
      (fun a h' => a = .handle (some ⟨d.offset⟩) ∧ h.Absorbs h' taken bs (xs ++ ys))
      (fun _ _ => True) := by
  obtain ⟨g, hplan, htaken, hd, hbs⟩ := hr.plan hs.laid.tiled.tiling
  have hfree := hr.taken_free
  refine Call.realloc_meets_of_enlarge hs hp hn hsize (Heap.enlarge_meets_of hs hp ?stay ?grow ?move)
  case stay => exact fun hle => absurd hle (Nat.not_le.mpr hlt)
  case move => exact fun _ hno => nomatch hno.symm.trans hplan
  case grow =>
    intro g' _ hplan'
    obtain rfl := Option.some.inj (hplan.symm.trans hplan')
    refine (Heap.growInPlace_sound hs hb (Growth.feasible_of_plan hplan)).mono ?_
      (fun _ _ _ => trivial)
    rintro _ h' ⟨rfl, -, hs', hf, -, hrec⟩
    rw [← hd, ← hbs, ← htaken, hs.laid.list.nodup.sdiff_eq_filter] at hs'
    have hlist := hs.laid.list.toList_eq
    refine ⟨by rw [hd],
      { top := ?top
        blocks := hs'.laid.blocks_eq
        listed := fun q hq => ?listed
        freeList := hs'.laid.list.toList_eq.trans (by rw [hlist])
        payloads := hf.keeps }⟩
    case top =>
      rw [hs'.laid.tiled.top_eq, hs.laid.tiled.top_eq, ← hs'.counted.claimed, ← hs.counted.claimed,
        Counters.eq_grown hrec]
      rfl
    case listed =>
      obtain ⟨hm, hqf⟩ := hfree q hq
      rw [hlist]
      exact (hs.laid.offset_mem_list hm).mpr hqf

theorem Sound.answers_regrowth (hs : Sound h (xs ++ b :: ys) L) {held : List Holding}
    (hh : Held h.arena (allocatedBlocks (xs ++ b :: ys)) held) (hc : h.arena.ceiling ≤ maxBlockSize)
    (hl : Call.Legal ⟨h, held⟩ (.realloc (some p) n)) (hp : p.offset = b.offset)
    (hsize : blockSizeFor n = .ok need) (hr : Regrown need xs b ys taken d bs)
    (ha : (Call.realloc (some p) n).Affordable h) :
    ∃ a, ((Call.realloc (some p) n).action.run h).result = .ok a := by
  obtain ⟨g, hplan, -⟩ := hr.plan hs.laid.tiled.tiling
  refine hs.answers (c := .realloc (some p) n) hh hc hl nofun ha ?_
  rintro ⟨_, xs', b', ys', need', err, he, _, hp', hsize', hst⟩
  obtain ⟨rfl, rfl, rfl⟩ := Call.split_unique hs he (hp.symm.trans hp')
  obtain rfl := Except.ok.inj (hsize.symm.trans hsize')
  exact hst.2.1 g (Growth.feasible_of_plan hplan)

theorem Call.realloc_retraces (hs : Sound h (xs ++ b :: ys) L) (hc : h.arena.ceiling ≤ maxBlockSize)
    (hb : b.allocated = true) (hp : p.offset = b.offset) (hn : 1 ≤ n)
    (hsize : blockSizeFor n = .ok need) (hlt : b.size < need)
    (hno : ∀ taken d bs, ¬ Regrown need xs b ys taken d bs) :
    Meets (Call.realloc (some p) n).action h
      (fun a h' => ∃ q, a = .handle (some q) ∧ ((Heap.serve n).run h).result = .ok (.ok q) ∧
        ((Heap.free p).run ((Heap.serve n).run h).heap).result = .ok () ∧
        Twin ((Heap.free p).run ((Heap.serve n).run h).heap).heap h')
      (fun e _ => ((Heap.serve n).run h).result = .error e ∨
        ∃ err, ((Heap.serve n).run h).result = .ok (.error err) ∧ e = .relocation p n err) := by
  refine Call.realloc_meets_of_enlarge hs hp hn hsize (Heap.enlarge_meets_of hs hp ?stay ?grow ?move)
  case stay => exact fun hle => absurd hle (Nat.not_le.mpr hlt)
  case grow =>
    intro g _ hplan
    obtain ⟨taken, d, bs, hr⟩ := exists_regrown hs.laid.tiled.tiling hplan
    exact absurd hr (hno taken d bs)
  case move =>
    exact fun _ _ => (Heap.relocate_retraces hs hc hb hp hn hsize hlt).mono
      (fun q _ hq => ⟨q, rfl, hq⟩) fun _ _ => id

theorem Call.free_retraces (hr : ((Heap.free p).run h).result = .ok ()) :
    ((Call.free p).action.run h).result = .ok .done ∧
      ((Call.free p).action.run h).heap = ((Heap.free p).run h).heap := by
  rcases hr' : (Heap.free p).run h with ⟨⟨_ | _, es⟩, h'⟩ <;> rw [hr'] at hr
  · cases hr
  · rw [Call.action, run_bind_of_ok hr']
    exact ⟨rfl, rfl⟩

theorem Sound.relocates (hs : Sound h (xs ++ b :: ys) L) (hc : h.arena.ceiling ≤ maxBlockSize)
    (hb : b.allocated = true) (hp : p.offset = b.offset) (hn : 1 ≤ n)
    (hsize : blockSizeFor n = .ok need) (hlt : b.size < need)
    (hno : ∀ taken d bs, ¬ Regrown need xs b ys taken d bs) (held : List Holding) :
    Session.Relocates ⟨h, held⟩ p n := by
  have hmalloc := Call.malloc_retraces hs hn
  have hrealloc := Call.realloc_retraces hs hc hb hp hn hsize hlt hno
  cases hr : ((Call.realloc (some p) n).action.run h).result with
  | ok a =>
    obtain ⟨q, rfl, hserve, hfree, ht⟩ := hrealloc.ok hr
    refine ⟨fun q' ha => ?_, fun ha => ?_, fun e ha => ?_⟩
    · obtain ⟨hh, ⟨_, hq, hserve'⟩ | ⟨_, hq, -⟩⟩ := hmalloc.ok ha
      · cases hq
        cases hserve.symm.trans hserve'
        obtain ⟨hdone, hnext⟩ := Call.free_retraces hfree
        rw [← hh] at hdone hnext ht
        exact ⟨hr, hdone, by rw [← hnext] at ht; exact ht.sameView⟩
      · cases hq
    · obtain ⟨-, ⟨_, hq, -⟩ | ⟨_, -, hserve'⟩⟩ := hmalloc.ok ha
      · cases hq
      · cases hserve.symm.trans hserve'
    · cases hserve.symm.trans (hmalloc.error ha)
  | error e =>
    have hserve := hrealloc.error hr
    refine ⟨fun q' ha => ?_, fun ha => ?_, fun e' ha => ?_⟩
    · obtain ⟨-, ⟨_, -, hserve'⟩ | ⟨_, hq, -⟩⟩ := hmalloc.ok ha
      · rw [hserve'] at hserve
        rcases hserve with hserve | ⟨_, hserve, -⟩ <;> cases hserve
      · cases hq
    · obtain ⟨-, ⟨_, hq, -⟩ | ⟨err, -, hserve'⟩⟩ := hmalloc.ok ha
      · cases hq
      · rw [hserve'] at hserve
        obtain hserve | ⟨err', -, rfl⟩ := hserve
        · cases hserve
        · exact ⟨err', hr⟩
    · rw [hmalloc.error ha] at hserve
      obtain hserve | ⟨_, hserve, -⟩ := hserve
      · cases hserve
        exact hr
      · cases hserve

/-- `Call.Affordable` is the proviso that the cumulative counters stay below `2 ^ 64`. -/
theorem reachable_regrowth (hf : Fresh h₀) (hc : h₀.arena.ceiling ≤ maxBlockSize)
    (hr : Reachable h₀ s) (hp : s.Holds p) (hn : 1 ≤ n) (hsize : blockSizeFor n = .ok need) :
    ∃ xs b ys, s.heap.blocks = .ok (xs ++ b :: ys) ∧ b.allocated = true ∧ p = ⟨b.offset⟩ ∧
      (need ≤ b.size → s.answer (.realloc (some p) n) = .ok (.handle (some p)) ∧
        (s.next (.realloc (some p) n) (.handle (some p))).heap = s.heap) ∧
      (b.size < need → ∀ taken d bs, Regrown need xs b ys taken d bs →
        (Call.realloc (some p) n).Affordable s.heap →
        s.answer (.realloc (some p) n) = .ok (.handle (some ⟨d.offset⟩)) ∧
          s.heap.Absorbs (s.next (.realloc (some p) n) (.handle (some ⟨d.offset⟩))).heap taken bs
            (xs ++ ys)) ∧
      (b.size < need → (∀ taken d bs, ¬ Regrown need xs b ys taken d bs) → s.Relocates p n) := by
  obtain ⟨hv, hceil⟩ := hr.valid hf
  rw [← hceil] at hc
  cases hv with
  | idle =>
    obtain ⟨_, hk, _⟩ := hp
    cases hk
  | live hs hh =>
    obtain ⟨xs, b, ys, rfl, hb, hpb⟩ := Call.exists_block hs hh hp
    refine ⟨xs, b, ys, hs.laid.blocks_eq, hb, congrArg Handle.mk hpb, fun hle => ?_,
      fun hlt taken d bs hg ha => ?_, fun hlt hno => hs.relocates hc hb hpb hn hsize hlt hno _⟩
    · obtain ⟨a, he, rfl, hsame⟩ := (Call.realloc_stays hs hpb hn hsize hle).exists_ok
      exact ⟨he, hsame⟩
    · obtain ⟨a, he⟩ := hs.answers_regrowth hh hc hp hpb hsize hg ha
      obtain ⟨rfl, habsorbs⟩ := (Call.realloc_absorbs hs hb hpb hn hsize hlt hg).ok he
      exact ⟨he, habsorbs⟩

/-- The first block is free and just large enough, together with the second one. -/
theorem reachable_regrowth_down : ∃ (s : Session) (xs : List Block) (b : Block) (ys bs : List Block),
    Reachable (Heap.new (Arena.growable 100) .fineGrained) s ∧ s.heap.blocks = .ok (xs ++ b :: ys) ∧
      b.size = 16 ∧ s.answer (.realloc (some ⟨32⟩) 20) = .ok (.handle (some ⟨16⟩)) ∧
      s.heap.Absorbs (s.next (.realloc (some ⟨32⟩) 20) (.handle (some ⟨16⟩))).heap
        [⟨16, 16, false⟩] bs (xs ++ ys) := by
  let s := Session.pairHeld.next (.free ⟨16⟩) .done
  have hr : Reachable (Heap.new (Arena.growable 100) .fineGrained) s := .step Session.reachable_pairHeld
    ⟨{ handle := ⟨16⟩, size := 8 }, .tail _ (.head _), rfl⟩ (by decide +kernel)
  have hwalk : s.heap.blocks = .ok [⟨16, 16, false⟩, ⟨32, 16, true⟩, ⟨48, 32, false⟩] := by
    decide +kernel
  have hsize : blockSizeFor 20 = .ok 32 := by decide +kernel
  obtain ⟨xs, b, ys, hbs, hb, hp, -, hgrow, -⟩ := reachable_regrowth (p := ⟨32⟩) (n := 20)
    (.growable _ _) (by decide) hr ⟨_, .head _, rfl⟩ (by decide) hsize
  have he := Except.ok.inj (hbs.symm.trans hwalk)
  obtain ⟨rfl, rfl, rfl⟩ : xs = [] ++ [⟨16, 16, false⟩] ∧ b = ⟨32, 16, true⟩ ∧ ys = [⟨48, 32, false⟩] := by
    match xs, he with
    | [], he | [_, _], he => cases he; cases hp
    | [_], he => cases he; exact ⟨rfl, rfl, rfl⟩
    | _ :: _ :: _ :: zs, he => simp at he
  obtain ⟨ha, habsorbs⟩ := hgrow (by decide) _ _ _ (.down rfl (by decide))
    ⟨by decide +kernel, by decide +kernel⟩
  exact ⟨s, _, _, _, _, hr, hbs, rfl, ha, habsorbs⟩

end

end BoundaryTag
