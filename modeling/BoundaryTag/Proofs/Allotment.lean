import BoundaryTag.Proofs.Refusals

/-!
# Where a request is placed

The block that a request is met with comes out of a free block of the list if one is large enough, and out of
new memory otherwise. It is split there if the rest is worth a block. Nothing else changes, in the blocks or in
the order of the free list.

Main statement: `reachable_allotment`.
-/

namespace BoundaryTag

/-- How the session `t` came from `s` by a request that was met with `p`, a block of at least `size` bytes. It was
placed into the free block `b`, between `xs` and `ys`, and the arena grew by `k` bytes. -/
structure Session.Allotted (s t : Session) (size : Nat) (p : Handle) (bs xs : List Block) (b : Block)
    (ys : List Block) (k : Nat) : Prop where
  walk : s.heap.blocks = .ok bs
  chosen : Chosen s.heap bs size xs b ys k
  top : t.heap.arena.top = s.heap.arena.top + k
  grew : t.heap.arena.top ≠ s.heap.arena.top ↔ ∀ f ∈ bs, f.allocated = false → f.size < size
  handle : p = ⟨b.offset⟩
  aligned : 8 ∣ p.offset
  inside : 16 ≤ p.offset
  new : ¬ s.Holds p
  size_le : size ≤ s.heap.policy.share b.size size
  size_lt : s.heap.policy.share b.size size < size + s.heap.policy.splitThreshold
  blocks : t.heap.blocks = .ok (xs ++ s.heap.policy.carve b size ++ ys)
  freeList : t.heap.freeList.toList = s.heap.policy.relist b size s.heap.freeList.toList
  payloads : Keeps s.heap.arena t.heap.arena bs

open HeapM

section
variable {h h₀ : Heap} {bs xs ys : List Block} {b : Block} {L : List Nat} {s : Session} {p : Handle}
  {n k size : Nat}

theorem Chosen.grows_iff (hc : Chosen h bs size xs b ys k) (hsize : 16 ≤ size) :
    0 < k ↔ ∀ f ∈ bs, f.allocated = false → f.size < size := by
  cases hc with
  | listed _ hbs hf hle =>
    have hfit : b ∈ bs := hbs ▸ List.mem_append_cons_self
    exact ⟨nofun, fun hno => absurd hle (Nat.not_le.mpr (hno b hfit hf))⟩
  | merged hno | added hno => exact ⟨fun _ => hno, fun _ => by omega⟩

theorem Policy.share_lt (q : Policy) {whole : Nat} (hle : size ≤ whole) :
    q.share whole size < size + q.splitThreshold := by
  have := q.minBlock_le_split
  simp only [minBlockSize] at this
  unfold Policy.share
  split <;> omega

theorem Call.tryMalloc_grants (hs : Sound h bs L) (hn : 1 ≤ n) :
    Meets (Call.tryMalloc n).action h
      (fun a h' => ∀ p, a = .tried (.ok (some p)) → Granted h bs L n p h') (fun _ _ => True) := by
  refine (Call.tryMalloc_decides hs hn).mono (fun a h' hq p ha => ?_) fun _ _ _ => trivial
  cases hd : h.denied? bs n with
  | some e =>
    rw [hd] at hq
    cases hq.symm.trans ha
  | none =>
    rw [hd] at hq
    obtain ⟨q, rfl, hg⟩ := hq
    cases ha
    exact hg

theorem Session.Valid.fresh_handle (hv : s.Valid)
    (ha : s.answer (.tryMalloc n) = .ok (.tried (.ok (some p))))
    (hi : (s.next (.tryMalloc n) (.tried (.ok (some p)))).heap.initialized = true) : ¬ s.Holds p := by
  rintro ⟨k, hk, rfl⟩
  obtain ⟨bs, hin⟩ := (hv.next (c := .tryMalloc n) trivial ha).1.intact hi
  exact (List.nodup_cons.mp hin.held_once).1 (List.mem_map.mpr ⟨k, hk, rfl⟩)

theorem reachable_allotment (hf : Fresh h₀) (hr : Reachable h₀ s) (hn : 1 ≤ n)
    (ha : s.answer (.tryMalloc n) = .ok (.tried (.ok (some p)))) :
    ∃ size bs xs b ys k, blockSizeFor n = .ok size ∧
      s.Allotted (s.next (.tryMalloc n) (.tried (.ok (some p)))) size p bs xs b ys k := by
  have hv := (hr.valid hf).1
  have hfresh := hv.fresh_handle ha
  cases hv with
  | idle hi => cases ha.symm.trans (Session.answer_tryMalloc_of_uninitialized hi hn)
  | @live h bs L held hs hh =>
    obtain ⟨size, xs, b, ys, k, hsize, hchosen, rfl, hs', hframe, hgrown⟩ :=
      (Call.tryMalloc_grants hs hn).ok ha p rfl
    obtain ⟨-, -, -, hleast⟩ := blockSizeFor_spec hsize
    have hle := (hchosen.source hs.laid.tiled).le
    have hgrows := hchosen.grows_iff (hleast hn)
    obtain ⟨rest, hcarve, -⟩ := h.policy.carve_eq_cons b size
    have hc : ⟨b.offset, h.policy.share b.size size, true⟩ ∈ xs ++ h.policy.carve b size ++ ys := by
      simp [hcarve]
    have hinside := hs'.laid.tiled.offset_ge hc
    have htop := hs.laid.tiled.top_eq
    have htop' := hs'.laid.tiled.top_eq
    refine ⟨size, bs, xs, b, ys, k, hsize,
      { walk := hs.laid.blocks_eq
        chosen := hchosen
        top := ?top
        grew := ?grew
        handle := rfl
        aligned := (hs'.laid.storable hc).1
        inside := hinside
        new := hfresh hs'.laid.initialized
        size_le := le_share hle
        size_lt := h.policy.share_lt hle
        blocks := hs'.laid.blocks_eq
        freeList := ?freeList
        payloads := hframe.keeps }⟩
    case top => exact htop'.trans (hgrown.trans (congrArg (· + k) htop.symm))
    case grew =>
      rw [← hgrows]
      simp only [Session.next, htop', htop, hgrown]
      omega
    case freeList => exact hs'.laid.list.toList_eq.trans (by rw [hs.laid.list.toList_eq])

/-- The free chunk is too small, grows by 72 bytes and is split. -/
theorem reachable_allotment_grown :
    Reachable (Heap.new (Arena.growable 200) .fineGrained) (.opened (Arena.growable 200) .fineGrained) ∧
      (Session.opened (Arena.growable 200) .fineGrained).answer (.tryMalloc 60) =
        .ok (.tried (.ok (some ⟨16⟩))) ∧
      ∃ (size : Nat) (bs xs : List Block) (b : Block) (ys : List Block), blockSizeFor 60 = .ok size ∧
        (Session.opened (Arena.growable 200) .fineGrained).Allotted
          ((Session.opened (Arena.growable 200) .fineGrained).next (.tryMalloc 60) (.tried (.ok (some ⟨16⟩))))
          size ⟨16⟩ bs xs b ys 72 := by
  let s := Session.opened (Arena.growable 200) .fineGrained
  have hr : Reachable (Heap.new (Arena.growable 200) .fineGrained) s := .step .start trivial (by decide +kernel)
  have ha : s.answer (.tryMalloc 60) = .ok (.tried (.ok (some ⟨16⟩))) := by decide +kernel
  obtain ⟨size, bs, xs, b, ys, k, hsize, hal⟩ :=
    reachable_allotment (p := ⟨16⟩) (n := 60) (.growable _ _) hr (by decide) ha
  have htop : s.heap.arena.top = 80 := by decide +kernel
  have htop' : (s.next (.tryMalloc 60) (.tried (.ok (some ⟨16⟩)))).heap.arena.top = 152 := by decide +kernel
  have hk := hal.top
  rw [htop, htop'] at hk
  obtain rfl : k = 72 := by omega
  exact ⟨hr, ha, size, bs, xs, b, ys, hsize, hal⟩

end

end BoundaryTag
