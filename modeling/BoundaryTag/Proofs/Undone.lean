import BoundaryTag.Proofs.Allotment
import BoundaryTag.Proofs.Regrowth

/-!
# Giving back what was just handed out

A block comes out of a free block, and goes back into it: what was split off merges with it again. If the arena
grew for it, the new bytes stay, as free memory at the end. Otherwise only the free list shows what happened,
for the free block has moved to its front.

Main statement: `reachable_malloc_free`.
-/

namespace BoundaryTag

/-- The blocks `bs'` are the blocks `bs`, up to the offset `top`, with `g` free bytes more at the end. -/
inductive Topped (top : Nat) : List Block → Nat → List Block → Prop
  | same {bs : List Block} : Topped top bs 0 bs
  | enlarged {xs : List Block} {c : Block} {g : Nat} : c.allocated = false → 0 < g →
      Topped top (xs ++ [c]) g (xs ++ [⟨c.offset, c.size + g, false⟩])
  | added {bs : List Block} {g : Nat} : (∀ c ∈ bs.getLast?, c.allocated = true) → 0 < g →
      Topped top bs g (bs ++ [⟨top, g, false⟩])

/-- Since the session `s`, the client has written to the payload of `p` and done nothing else. -/
inductive Session.Filled (p : Handle) (s : Session) : Session → Prop
  | start : Filled p s s
  | write {t : Session} {i : Nat} {src : ByteArray} : Filled p s t → t.Owns p i src.size →
      Filled p s (t.next (.write p i src) .done)

/-- The heap `h'` is what the heap `h` was before `p` was handed out, with `g` bytes more. -/
structure Heap.Restored (h h' : Heap) (p : Handle) (g : Nat) : Prop where
  top : h'.arena.top = h.arena.top + g
  blocks : ∃ bs bs', h.blocks = .ok bs ∧ h'.blocks = .ok bs' ∧ Topped h.arena.top bs g bs' ∧
    ∃ f ∈ bs', f.allocated = false ∧ f.Covers p.offset ∧
      h'.freeList.toList = f.offset :: h.freeList.toList.erase f.offset
  usage : ∃ c c', h.usage = .ok c ∧ h'.usage = .ok c' ∧ c'.allocations = c.allocations ∧
    c'.allocated = c.allocated

open HeapM

section
variable {h h' h₀ : Heap} {bs bs' xs ys : List Block} {b c : Block} {L L' : List Nat} {s t : Session}
  {p : Handle} {g k n size : Nat}

theorem Policy.carve_freed (q : Policy) (hb : b.allocated = false) (hle : size ≤ b.size)
    (hx : freeLast xs = []) (hy : freeFirst ys = []) :
    ∃ c rest, q.carve b size = c :: rest ∧ c.allocated = true ∧ c.offset = b.offset ∧
      belowFree xs ++ [joined (freeRun xs c.freed (rest ++ ys))] ++ aboveFree (rest ++ ys) =
        xs ++ b :: ys ∧
      ∀ L : List Nat, (c.offset :: q.relist b size L).diff
        ((freeRun xs c.freed (rest ++ ys)).tail.map (·.offset)) = b.offset :: L.erase b.offset := by
  have hall : (⟨b.offset, b.size, false⟩ : Block) = b := by rw [← hb]
  rw [belowFree_of_freeLast hx]
  unfold Policy.carve Policy.relist
  split
  · refine ⟨_, _, rfl, rfl, rfl, ?_, fun L => ?_⟩
    · have hjoin : joined [⟨b.offset, size, false⟩, ⟨b.offset + size, b.size - size, false⟩] = b := by
        simp [joined, hall, Nat.add_sub_cancel' hle]
      rw [List.singleton_append, freeRun, hx, freeFirst_cons_of_free rfl, aboveFree_cons_of_free rfl,
        List.nil_append, Block.freed, hjoin, List.append_assoc]
      rfl
    · rw [List.singleton_append, freeRun, hx, freeFirst_cons_of_free rfl]
      simp [List.diff_cons, List.erase_cons]
  · refine ⟨_, _, rfl, rfl, rfl, ?_, fun L => ?_⟩
    · rw [List.nil_append, freeRun, hx, hy, aboveFree_of_freeFirst hy, List.nil_append, Block.freed,
        hall, joined_singleton hb, List.append_assoc]
      rfl
    · rw [List.nil_append, freeRun, hx, hy]
      rfl

theorem Chosen.alone (hc : Chosen h bs size xs b ys k) (hs : Settled bs) :
    freeLast xs = [] ∧ freeFirst ys = [] := by
  cases hc with
  | listed _ hbs hf =>
    subst hbs
    exact ⟨hs.freeLast_below hf, hs.freeFirst_above hf⟩
  | merged _ hbs hf =>
    subst hbs
    exact ⟨hs.freeLast_below hf, rfl⟩
  | added _ hlast => exact ⟨freeLast_of_allocated hlast, rfl⟩

theorem Chosen.topped (hc : Chosen h bs size xs b ys k) (hsize : 1 ≤ size) :
    Topped h.arena.top bs k (xs ++ b :: ys) := by
  cases hc with
  | listed _ hbs => exact hbs ▸ .same
  | merged _ hbs hf => exact hbs ▸ .enlarged hf (by omega)
  | added _ hlast => exact .added hlast (by omega)

theorem Session.Filled.sound (hw : s.Filled p t) (hs : Sound s.heap (xs ++ b :: ys) L)
    (hp : p.offset = b.offset) :
    Sound t.heap (xs ++ b :: ys) L ∧ t.heap.arena.ceiling = s.heap.arena.ceiling := by
  induction hw with
  | start => exact ⟨hs, rfl⟩
  | @write t i src _ ho ih =>
    obtain ⟨hs', hceil⟩ := ih
    obtain ⟨-, m, hm, hle⟩ := ho
    cases (hs'.laid.usableSize_eq List.mem_append_cons_self hp).symm.trans hm
    have hwrite : Meets (Call.write p i src).action t.heap (fun _ h' =>
        Sound h' (xs ++ b :: ys) L ∧ h'.arena.ceiling = t.heap.arena.ceiling) NoFault := by
      apply (Heap.writePayload_meets hs' hp hle).then
      rintro _ _ ⟨⟨hs'', -⟩, hf, -⟩
      exact Meets.pure ⟨hs'', hf.ceiling⟩
    obtain ⟨_, -, hs'', hc⟩ := hwrite.exists_ok
    exact ⟨hs'', hc.trans hceil⟩

theorem Call.malloc_decides (hs : Sound h bs L) (hn : 1 ≤ n) :
    Meets (Call.malloc n).action h
      (fun a h' => match h.denied? bs n with
        | some _ => a = .handle none
        | none => ∃ p, a = .handle (some p) ∧ Granted h bs L n p h')
      (fun _ _ => True) := by
  refine (Heap.malloc_meets hs hn).seq (fun _ _ _ => trivial) ?_
  cases h.denied? bs n with
  | some e =>
    rintro _ _ ⟨rfl, -⟩
    exact Meets.pure rfl
  | none =>
    rintro _ _ ⟨p, rfl, hq⟩
    exact Meets.pure ⟨p, rfl, hq⟩

theorem Call.malloc_grants (hs : Sound h bs L) (hn : 1 ≤ n) :
    Meets (Call.malloc n).action h
      (fun a h' => ∀ p, a = .handle (some p) → h.denied? bs n = none ∧ Granted h bs L n p h')
      (fun _ _ => True) := by
  refine (Call.malloc_decides hs hn).mono (fun a h' hq p ha => ?_) fun _ _ => id
  cases hd : h.denied? bs n with
  | some e =>
    rw [hd] at hq
    cases hq.symm.trans ha
  | none =>
    rw [hd] at hq
    obtain ⟨q, rfl, hg⟩ := hq
    cases ha
    exact ⟨rfl, hg⟩

theorem Sound.restored (hs : Sound h bs L) (hs' : Sound h' (xs ++ b :: ys) (b.offset :: L.erase b.offset))
    (hc : Chosen h bs size xs b ys k) (hsize : 1 ≤ size) (hb : b.allocated = false)
    (hgrown : h'.arena.size = h.arena.size + k)
    (hall : allocatedBlocks (xs ++ b :: ys) = allocatedBlocks bs) :
    h.Restored h' ⟨b.offset⟩ k where
  top := by rw [hs'.laid.tiled.top_eq, hs.laid.tiled.top_eq, hgrown]
  blocks := by
    have hbm : b ∈ xs ++ b :: ys := List.mem_append_cons_self
    refine ⟨bs, _, hs.laid.blocks_eq, hs'.laid.blocks_eq, hc.topped hsize, b, hbm, hb,
      (hs'.laid.tiled.tiling.proper hbm).covers, ?_⟩
    rw [hs'.laid.list.toList_eq, hs.laid.list.toList_eq]
  usage := by
    refine ⟨_, _, hs.laid.usage_eq_counters, hs'.laid.usage_eq_counters, ?_, ?_⟩
    · show h'.counters.allocations = h.counters.allocations
      rw [hs'.counted.allocations, hs.counted.allocations, hall]
    · show h'.counters.allocated = h.counters.allocated
      rw [hs'.counted.allocated, hs.counted.allocated, payloads, payloads, hall]

theorem Session.answer_malloc_of_uninitialized (hi : s.heap.initialized = false) (n : Nat) :
    s.answer (.malloc n) = .ok (.handle none) := by
  obtain ⟨_, hr, rfl, -⟩ := (Heap.malloc_meets_of_uninitialized hi n).exists_ok
  exact (Session.answer_of_run (f := .handle) rfl hr).1

theorem reachable_malloc_free (hf : Fresh h₀) (hc : h₀.arena.ceiling ≤ maxBlockSize)
    (hr : Reachable h₀ s) (hn : 1 ≤ n) (ha : s.answer (.malloc n) = .ok (.handle (some p)))
    (hw : (s.next (.malloc n) (.handle (some p))).Filled p t) :
    t.answer (.free p) = .ok .done ∧
      ∃ g, (s.next (.malloc n) (.handle (some p))).heap.arena.top = s.heap.arena.top + g ∧
        s.heap.Restored (t.next (.free p) .done).heap p g := by
  obtain ⟨hv, hceil⟩ := hr.valid hf
  rw [← hceil] at hc
  cases hv with
  | idle hi => cases ha.symm.trans (Session.answer_malloc_of_uninitialized hi n)
  | @live h bs L held hs hh =>
    obtain ⟨size, xs, b, ys, k, hsize, hchosen, rfl, hs₁, hframe, hgrown⟩ :=
      ((Call.malloc_grants hs hn).ok ha p rfl).2
    have hsrc := hchosen.source hs.laid.tiled
    have hleast := (blockSizeFor_spec hsize).2.2.2 hn
    obtain ⟨hx, hy⟩ := hchosen.alone hs.settled
    obtain ⟨c, rest, hcarve, hca, hco, hblocks, hlist⟩ :=
      h.policy.carve_freed hsrc.free hsrc.le hx hy
    rw [hcarve, List.append_assoc, List.cons_append] at hs₁
    obtain ⟨hs₂, hceil₂⟩ := hw.sound hs₁ hco.symm
    have hc₂ : t.heap.arena.ceiling ≤ maxBlockSize :=
      (hceil₂.trans hframe.ceiling).trans_le hc
    have hfree := (Heap.free_meets (p := ⟨b.offset⟩) hs₂ hca hco.symm).mono (fun _ _ => id)
      fun e _ => not_oversize hc₂ e
    obtain ⟨_, hok, hs₃, hf₃, hcnt⟩ := hfree.exists_ok
    obtain ⟨hdone, hnext⟩ := Call.free_retraces hok
    have hall : allocatedBlocks (xs ++ b :: ys) = allocatedBlocks bs := by
      rw [hsrc.allocatedBlocks_eq, allocatedBlocks_middle_of_free hsrc.free, allocatedBlocks_append]
    -- freeing gives no bytes back to the arena
    have hsize₃ : ((Heap.free ⟨b.offset⟩).run t.heap).heap.arena.size = h.arena.size + k := by
      rw [← hgrown, hs₁.laid.tiled.tiling.end_unique hs₂.laid.tiled.tiling,
        ← hs₂.counted.claimed, ← hs₃.counted.claimed, hcnt]
      rfl
    rw [hblocks, hlist] at hs₃
    refine ⟨hdone, k, ?_, ?_⟩
    · rw [hs.laid.tiled.top_eq, ← hgrown]
      exact hs₁.laid.tiled.top_eq
    · show h.Restored ((Call.free _).action.run t.heap).heap _ _
      rw [hnext]
      exact hs.restored hs₃ hchosen (by omega) hsrc.free hsize₃ hall

/-- One allocation, in an arena with room for more chunks. -/
def Session.roomyHeld : Session :=
  (opened (Arena.growable 200) .fineGrained).next (.malloc 8) (.handle (some ⟨16⟩))

/-- A second one, which the client writes to. -/
def Session.roomyFilled : Session :=
  (roomyHeld.next (.malloc 60) (.handle (some ⟨32⟩))).next (.write ⟨32⟩ 5 ⟨#[1, 2, 3]⟩) .done

/-- The free block at the end grows by 72 bytes for the second allocation, and keeps them when that is given back. -/
theorem reachable_malloc_free_grown :
    Reachable (Heap.new (Arena.growable 200) .fineGrained) .roomyHeld ∧
      Session.roomyHeld.answer (.malloc 60) = .ok (.handle (some ⟨32⟩)) ∧
      (Session.roomyHeld.next (.malloc 60) (.handle (some ⟨32⟩))).Filled ⟨32⟩ .roomyFilled ∧
      Session.roomyHeld.heap.blocks = .ok [⟨16, 16, true⟩, ⟨32, 48, false⟩] ∧
      (Session.roomyFilled.next (.free ⟨32⟩) .done).heap.blocks = .ok [⟨16, 16, true⟩, ⟨32, 120, false⟩] ∧
      ∃ g, Session.roomyHeld.heap.Restored (Session.roomyFilled.next (.free ⟨32⟩) .done).heap ⟨32⟩ g := by
  have h₁ : Reachable (Heap.new (Arena.growable 200) .fineGrained) (.opened _ .fineGrained) :=
    .step .start trivial (by decide +kernel)
  have h₂ : Reachable _ Session.roomyHeld := .step h₁ trivial (by decide +kernel)
  have ha : Session.roomyHeld.answer (.malloc 60) = .ok (.handle (some ⟨32⟩)) := by decide +kernel
  have hw : (Session.roomyHeld.next (.malloc 60) (.handle (some ⟨32⟩))).Filled ⟨32⟩ .roomyFilled :=
    .write .start ⟨⟨{ handle := ⟨32⟩, size := 60 }, .head _, rfl⟩, 64, by decide +kernel, by decide⟩
  obtain ⟨-, g, -, hr⟩ := reachable_malloc_free (.growable _ _) (by decide) h₂ (by decide) ha hw
  exact ⟨h₂, ha, hw, by decide +kernel, by decide +kernel, g, hr⟩

end

end BoundaryTag
