import BoundaryTag.Proofs.Step

/-!
# Sessions

What holds of every heap that a client can get to: `Session.Valid` is carried from call to call, and
with it through every run.

Main statements: `reachable_intact` (the layout of the heap), `reachable_isolated` (the payloads of the
client's allocations).
-/

namespace BoundaryTag

-- answers are compared in the same way whatever else is imported
instance instDecidableEqBytes : DecidableEq ByteArray := ByteArray.instDecidableEq

deriving instance DecidableEq for Answer

/-- What every call leaves as it is. -/
inductive Session.Valid : Session → Prop where
  | idle {h : Heap} : h.initialized = false → Valid ⟨h, []⟩
  | live {h : Heap} {bs : List Block} {L : List Nat} {held : List Holding} : Sound h bs L →
      Held h.arena (allocatedBlocks bs) held → Valid ⟨h, held⟩

section
variable {h₀ : Heap} {s : Session} {c : Call} {a : Answer}

/-! ## Calls and what they run -/

section
variable {α : Type} {m : HeapM α} {f : α → Answer} {r : α}

theorem Session.answer_of_run (hc : c.action = do return f (← m)) (hr : (m.run s.heap).result = .ok r) :
    s.answer c = .ok (f r) ∧ s.next c (f r) = ⟨(m.run s.heap).heap, c.record (f r) s.held⟩ := by
  rw [Session.answer, Session.next, hc, HeapM.run_bind_pure, hr]
  exact ⟨rfl, rfl⟩

theorem Session.exists_of_answer (hc : c.action = do return f (← m)) (ha : s.answer c = .ok a) :
    ∃ r, a = f r ∧ (m.run s.heap).result = .ok r ∧
      s.next c a = ⟨(m.run s.heap).heap, c.record a s.held⟩ := by
  rw [Session.next]
  rw [Session.answer, hc, HeapM.run_bind_pure] at ha
  rw [hc, HeapM.run_bind_pure]
  cases hr : (m.run s.heap).result with
  | error e =>
    rw [hr] at ha
    cases ha
  | ok r =>
    rw [hr] at ha
    exact ⟨r, (Except.ok.inj ha).symm, rfl, rfl⟩

end

/-! ## Every run -/

theorem Session.Valid.next (hv : s.Valid) (hl : c.Legal s) (ha : s.answer c = .ok a) :
    (s.next c a).Valid ∧ (s.next c a).heap.arena.ceiling = s.heap.arena.ceiling := by
  by_cases hc : c = .init
  · subst hc
    obtain ⟨hceil, _, hi | ⟨bs, L, hs, hall⟩⟩ := (Call.init_meets s.heap).ok ha
    · exact ⟨.idle (h := (Call.init.action.run s.heap).heap) hi, hceil⟩
    · exact ⟨.live hs (hall ▸ held_nil _), hceil⟩
  · cases hv with
    | idle hi =>
      obtain ⟨hi', harena, hrec⟩ := (Call.action_meets_of_uninitialized hi hl hc).ok ha
      refine ⟨?_, congrArg Arena.ceiling harena⟩
      rw [Session.next, hrec]
      exact .idle hi'
    | live hs hh =>
      obtain ⟨_, bs', hadv⟩ := (Call.action_meets hs hh hl hc).ok ha
      obtain ⟨L', hs'⟩ := hadv.sound
      exact ⟨.live hs' hadv.held, hadv.ceiling⟩

theorem Fresh.valid (hf : Fresh h₀) : Session.Valid ⟨h₀, []⟩ := by
  cases hf <;> exact .idle rfl

theorem Reachable.valid (hr : Reachable h₀ s) (hf : Fresh h₀) :
    s.Valid ∧ s.heap.arena.ceiling = h₀.arena.ceiling := by
  induction hr with
  | start => exact ⟨hf.valid, rfl⟩
  | step _ hl ha ih =>
    obtain ⟨hv, hceil⟩ := ih.1.next hl ha
    exact ⟨hv, hceil.trans ih.2⟩

theorem Session.Valid.sound (hv : s.Valid) (hi : s.heap.initialized = true) :
    ∃ bs L, Sound s.heap bs L ∧ Held s.heap.arena (allocatedBlocks bs) s.held := by
  cases hv with
  | idle hi' => cases hi.symm.trans hi'
  | live hs hh => exact ⟨_, _, hs, hh⟩

/-! ## A small heap -/

/-- Chunks of 64 bytes, and a block is split wherever there is room for another one. -/
def Policy.fineGrained : Policy :=
  { standard.withSplit 0 with
    chunkSize := 64
    chunk_dvd := by decide
    minBlock_le_chunk := by decide
    chunk_lt := by decide }

def Session.opened (a : Arena) (policy : Policy) : Session :=
  Session.next ⟨Heap.new a policy, []⟩ .init (.ready (.ok ()))

/-- One allocation takes the first 16 bytes of the first chunk. -/
def Session.firstHeld : Session :=
  let start : Session := ⟨Heap.new (Arena.growable 100) .fineGrained, []⟩
  (start.next .init (.ready (.ok ()))).next (.malloc 8) (.handle (some ⟨16⟩))

theorem Session.reachable_firstHeld :
    Reachable (Heap.new (Arena.growable 100) .fineGrained) .firstHeld :=
  .step (.step .start trivial (by decide +kernel)) trivial (by decide +kernel)

/-- A second allocation takes the next 16 bytes. -/
def Session.pairHeld : Session := firstHeld.next (.malloc 8) (.handle (some ⟨32⟩))

theorem Session.reachable_pairHeld :
    Reachable (Heap.new (Arena.growable 100) .fineGrained) .pairHeld :=
  .step reachable_firstHeld trivial (by decide +kernel)

/-! ## Layout -/

/-- The heap is cut into the blocks `bs`, and the allocated ones are those that the client holds. -/
structure Session.Intact (s : Session) (bs : List Block) : Prop where
  prologue : s.heap.arena.tag? 4 = some (Tag.make 8 true) ∧ s.heap.arena.tag? 8 = some (Tag.make 8 true)
  epilogue : s.heap.arena.tag? (s.heap.arena.top - 4) = some (Tag.make 0 true)
  walk : s.heap.blocks = .ok bs
  tiling : Tiling 16 bs s.heap.arena.top
  header : ∀ b ∈ bs, s.heap.header b.offset = .ok b.tag
  footer : ∀ b ∈ bs, s.heap.footer b.offset = .ok b.tag
  settled : Settled bs
  listed : s.heap.freeList.toList.Perm (freeOffsets bs)
  listed_once : s.heap.freeList.toList.Nodup
  held : (s.held.map (·.handle.offset)).Perm ((allocatedBlocks bs).map (·.offset))
  held_once : (s.held.map (·.handle.offset)).Nodup

theorem Session.Valid.intact (hv : s.Valid) (hi : s.heap.initialized = true) :
    ∃ bs, s.Intact bs := by
  cases hv with
  | idle hi' => cases hi.symm.trans hi'
  | @live h bs L held hs hh =>
    have ht := hs.laid.tiled
    have hlist : h.freeList.toList = L := hs.laid.list.toList_eq
    refine ⟨bs, ht.prologue, ?_, hs.laid.blocks_eq, ?_, fun b hb => ht.header hb,
      fun b hb => ht.footer hb, hs.settled, ?_, ?_, hh.handles, ?_⟩
    · rw [ht.top_eq]
      exact ht.epilogue
    · rw [ht.top_eq]
      exact ht.tiling
    · rw [hlist]
      exact hs.laid.listed
    · rw [hlist]
      exact hs.laid.listed.nodup_iff.mpr ht.tiling.nodup_freeOffsets
    · exact hh.nodup ht.tiling

theorem reachable_intact (hf : Fresh h₀) (hr : Reachable h₀ s) (hi : s.heap.initialized = true) :
    ∃ bs, s.Intact bs := (hr.valid hf).1.intact hi

/-- Of three allocations, the second is given back. -/
theorem reachable_intact_after_free : ∃ s bs, Reachable (Heap.new (Arena.growable 100) .fineGrained) s ∧
    s.held.length = 2 ∧ Session.Intact s bs := by
  let s₁ := Session.firstHeld
  let s₂ := s₁.next (.tryMalloc 5) (.tried (.ok (some ⟨32⟩)))
  let s₃ := s₂.next (.realloc none 8) (.handle (some ⟨48⟩))
  let s₄ := s₃.next (.free ⟨32⟩) .done
  have h₂ : Reachable _ s₂ := .step Session.reachable_firstHeld trivial (by decide +kernel)
  have h₃ : Reachable _ s₃ := .step h₂ trivial (by decide +kernel)
  have h₄ : Reachable _ s₄ :=
    .step h₃ ⟨{ handle := ⟨32⟩, size := 5 }, .tail _ (.head _), rfl⟩ (by decide +kernel)
  obtain ⟨bs, hbs⟩ := reachable_intact (.growable _ _) h₄ (by decide +kernel)
  exact ⟨s₄, bs, h₄, rfl, hbs⟩

/-! ## Payloads -/

/-- Every allocation has a payload of its own, as large as it was asked for, with what the client wrote. -/
structure Session.Isolated (s : Session) : Prop where
  inside : ∀ k ∈ s.held, ∃ u, s.heap.accessible k.handle = .ok u ∧ u.top ≤ s.heap.arena.size
  large : ∀ k ∈ s.held, ∃ size, s.heap.usableSize k.handle = .ok size ∧ k.size ≤ size
  apart : s.held.Pairwise fun j k => ∀ u v, s.heap.accessible j.handle = .ok u →
    s.heap.accessible k.handle = .ok v → u.overlaps v = false
  written : ∀ k ∈ s.held, ∃ bytes, s.heap.payload k.handle = .ok bytes ∧
    ∀ i v, k.written i = some v → Bytes.byte? bytes i = some v

/-- What the call `c`, answered with `a`, carries over from the session `s` to `s'`. -/
structure Session.Carried (s : Session) (c : Call) (a : Answer) (s' : Session) : Prop where
  spared : ∀ p, s.Holds p → c.Spares p → s'.Holds p ∧ s'.heap.usableSize p = s.heap.usableSize p
  moved : ∀ p n q, c = .realloc (some p) n → a = .handle (some q) → ∃ before after,
    s.heap.payload p = .ok before ∧ s'.heap.payload q = .ok after ∧
      s.heap.usableSize p = .ok before.size ∧ s'.heap.usableSize q = .ok after.size ∧
      ∀ i < min before.size after.size, Bytes.byte? after i = Bytes.byte? before i

theorem Session.Valid.isolated (hv : s.Valid) : s.Isolated := by
  cases hv with
  | idle => exact ⟨nofun, nofun, .nil, nofun⟩
  | @live h bs L held hs hh =>
    have ht := hs.laid.tiled.tiling
    have hne : held.Pairwise fun j k => j.handle.offset ≠ k.handle.offset :=
      List.pairwise_map.mp (hh.nodup ht)
    refine ⟨fun k hk => ?_, fun k hk => ?_, hne.imp_of_mem fun {j k} hj hk hne u v hu hv => ?_,
      fun k hk => ?_⟩
    · obtain ⟨b, hb, hat⟩ := hh.holds k hk
      have hbm := (mem_allocatedBlocks.mp hb).1
      have := (ht.bounds hbm).2
      refine ⟨_, hs.laid.accessible_eq hbm hat.offset, ?_⟩
      simp only [Block.stop] at *
      omega
    · obtain ⟨b, hb, hat⟩ := hh.holds k hk
      have := hat.fits
      exact ⟨_, hs.laid.usableSize_eq (mem_allocatedBlocks.mp hb).1 hat.offset, by omega⟩
    · obtain ⟨b, hb, hbat⟩ := hh.holds j hj
      obtain ⟨c, hc, hcat⟩ := hh.holds k hk
      have hbm := (mem_allocatedBlocks.mp hb).1
      have hcm := (mem_allocatedBlocks.mp hc).1
      cases (hs.laid.accessible_eq hbm hbat.offset).symm.trans hu
      cases (hs.laid.accessible_eq hcm hcat.offset).symm.trans hv
      have := ht.apart hbm hcm (hbat.offset ▸ hcat.offset ▸ hne)
      simp only [Span.overlaps, Span.isEmpty, Block.stop, Bool.and_eq_false_iff,
        Bool.not_eq_false', decide_eq_true_eq, decide_eq_false_iff_not] at *
      omega
    · obtain ⟨b, hb, hat⟩ := hh.holds k hk
      obtain ⟨bytes, hp, hsize, hbytes⟩ := hs.laid.payload_eq (mem_allocatedBlocks.mp hb).1 hat.offset
      refine ⟨bytes, hp, fun i v hw => ?_⟩
      obtain ⟨hi, hbyte⟩ := hat.bytes i v hw
      rw [hbytes i (by omega), hbyte]

theorem Session.Valid.carried (hv : s.Valid) (hl : c.Legal s) (ha : s.answer c = .ok a) :
    s.Carried c a (s.next c a) := by
  by_cases hc : c = .init
  · subst hc
    exact ⟨fun _ _ hp => hp.elim, fun _ _ _ he => nomatch he⟩
  cases hv with
  | idle hi =>
    refine ⟨fun p ⟨_, hk, _⟩ => (nomatch hk), fun p n q he => ?_⟩
    subst he
    obtain ⟨_, hk, _⟩ := hl
    cases hk
  | @live h bs L held hs hh =>
    obtain ⟨_, bs', hadv⟩ := (Call.action_meets hs hh hl hc).ok ha
    obtain ⟨L', hs'⟩ := hadv.sound
    refine ⟨fun p hp hsp => ?_, fun p n q he hq => ?_⟩
    · obtain ⟨_, b, _, hb, _, hpb⟩ := hh.find hp
      have hpe : p = ⟨b.offset⟩ := by rw [← hpb]
      have hb' := hadv.spared b hb (hpe ▸ hsp)
      have hmem : b.offset ∈ (c.record a held).map (·.handle.offset) :=
        hadv.held.handles.mem_iff.mpr (List.mem_map.mpr ⟨b, hb', rfl⟩)
      obtain ⟨k, hk, hko⟩ := List.mem_map.mp hmem
      refine ⟨⟨k, hk, ?_⟩, ?_⟩
      · rw [hpe, ← hko]
      · exact (hs'.laid.usableSize_eq (mem_allocatedBlocks.mp hb').1 hpb).trans
          (hs.laid.usableSize_eq (mem_allocatedBlocks.mp hb).1 hpb).symm
    · obtain ⟨b, hb, d, hd, hpb, hqd, hle, hbytes⟩ := hadv.moved p n q he hq
      have hbm := (mem_allocatedBlocks.mp hb).1
      have hdm := (mem_allocatedBlocks.mp hd).1
      obtain ⟨before, hbp, hbs, hbb⟩ := hs.laid.payload_eq hbm hpb
      obtain ⟨after, hap, has, hab⟩ := hs'.laid.payload_eq hdm hqd
      refine ⟨before, after, hbp, hap, ?_, ?_, fun i hi => ?_⟩
      · exact hbs ▸ hs.laid.usableSize_eq hbm hpb
      · exact has ▸ hs'.laid.usableSize_eq hdm hqd
      · rw [hbs, has] at hi
        rw [hab i (by omega), hbb i (by omega), hbytes i (by omega)]

theorem reachable_isolated (hf : Fresh h₀) (hr : Reachable h₀ s) :
    s.Isolated ∧ ∀ c a, c.Legal s → s.answer c = .ok a → s.Carried c a (s.next c a) := by
  have hv := (hr.valid hf).1
  exact ⟨hv.isolated, fun _ _ => hv.carried⟩

/-- In a buffer of 80 bytes, the client has written to the second of two allocations and given the first one
back. -/
def Session.secondWritten : Session :=
  let s₁ := opened (Arena.ofBuffer ⟨Array.replicate 80 255⟩) .fineGrained
  let s₂ := s₁.next (.malloc 8) (.handle (some ⟨16⟩))
  let s₃ := s₂.next (.malloc 8) (.handle (some ⟨32⟩))
  let s₄ := s₃.next (.write ⟨32⟩ 2 ⟨#[1, 2, 3]⟩) .done
  s₄.next (.free ⟨16⟩) .done

/-- A block grows into the one before it, which was given back, and keeps what was written to it. -/
theorem reachable_isolated_grown :
    Reachable (Heap.new (Arena.ofBuffer ⟨Array.replicate 80 255⟩) .fineGrained) .secondWritten ∧
      Session.secondWritten.held.length = 1 ∧ Session.secondWritten.Isolated ∧
      Session.secondWritten.answer (.realloc (some ⟨32⟩) 20) = .ok (.handle (some ⟨16⟩)) ∧
      Session.secondWritten.Carried (.realloc (some ⟨32⟩) 20) (.handle (some ⟨16⟩))
        (Session.secondWritten.next (.realloc (some ⟨32⟩) 20) (.handle (some ⟨16⟩))) := by
  let h₀ := Heap.new (Arena.ofBuffer ⟨Array.replicate 80 255⟩) .fineGrained
  have h₁ : Reachable h₀ (.opened _ .fineGrained) := .step .start trivial (by decide +kernel)
  have h₂ := h₁.step (c := .malloc 8) (a := .handle (some ⟨16⟩)) trivial (by decide +kernel)
  have h₃ := h₂.step (c := .malloc 8) (a := .handle (some ⟨32⟩)) trivial (by decide +kernel)
  have h₄ := h₃.step (c := .write ⟨32⟩ 2 ⟨#[1, 2, 3]⟩) (a := .done)
    ⟨⟨{ handle := ⟨32⟩, size := 8 }, .head _, rfl⟩, 8, by decide +kernel, by decide⟩ (by decide +kernel)
  have h₅ : Reachable h₀ .secondWritten :=
    .step h₄ ⟨{ handle := ⟨16⟩, size := 8 }, .tail _ (.head _), rfl⟩ (by decide +kernel)
  obtain ⟨hi, hc⟩ := reachable_isolated (.ofBuffer _ _) h₅
  have ha : Session.secondWritten.answer (.realloc (some ⟨32⟩) 20) = .ok (.handle (some ⟨16⟩)) := by
    decide +kernel
  exact ⟨h₅, rfl, hi, ha, hc _ _ ⟨_, .head _, rfl⟩ ha⟩

end

end BoundaryTag
