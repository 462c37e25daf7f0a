import BoundaryTag.Proofs.Sessions
import BoundaryTag.Proofs.Twins

/-!
# Two sessions in lockstep

Two clients make the same calls on heaps with the same policy and equally much room. In between, each of them
reads and writes its own payloads as it likes. Then neither what a call answers nor what the heap tells about
itself sets the two sessions apart: what becomes of a request does not depend on the bytes in the payloads, on
what former blocks left behind, or on where the memory comes from.

Main statement: `lockstep_matched`.
-/

namespace BoundaryTag

/-- Calls about the contents of a payload. -/
def Call.Private : Call → Prop
  | write .. | read .. => True
  | _ => False

/-- Calls on the heaps `h` and `g` lead to the two sessions. -/
inductive Lockstep (h g : Heap) : Session → Session → Prop where
  | start : Lockstep h g ⟨h, []⟩ ⟨g, []⟩
  | both {s t : Session} {c : Call} {a b : Answer} : Lockstep h g s t → ¬ c.Private → c.Legal s →
      c.Legal t → s.answer c = .ok a → t.answer c = .ok b → Lockstep h g (s.next c a) (t.next c b)
  | left {s t : Session} {c : Call} {a : Answer} : Lockstep h g s t → c.Private → c.Legal s →
      s.answer c = .ok a → Lockstep h g (s.next c a) t
  | right {s t : Session} {c : Call} {a : Answer} : Lockstep h g s t → c.Private → c.Legal t →
      t.answer c = .ok a → Lockstep h g s (t.next c a)

/-- Only what stands in the payloads tells the two sessions apart. -/
structure Session.Matched (s t : Session) : Prop where
  view : s.heap.SameView t.heap
  holds : ∀ p, t.Holds p ↔ s.Holds p
  usableSize : ∀ p, s.Holds p → t.heap.usableSize p = s.heap.usableSize p
  legal : ∀ c : Call, ¬ c.Private → (c.Legal t ↔ c.Legal s)
  answer : ∀ c : Call, ¬ c.Private → c.Legal s → t.answer c = s.answer c ∧
    (c.action.run s.heap).heap.SameView (c.action.run t.heap).heap
  written : ∀ j ∈ s.held, ∀ k ∈ t.held, j.handle = k.handle → ∃ x y,
    s.heap.payload j.handle = .ok x ∧ t.heap.payload k.handle = .ok y ∧ y.size = x.size ∧
      ∀ i v, j.written i = some v → k.written i = some v →
        Bytes.byte? x i = some v ∧ Bytes.byte? y i = some v

open HeapM

section
variable {h g : Heap} {s t : Session} {c : Call} {a b : Answer} {p : Handle}

/-! ## One call -/

theorem Session.Valid.exists_block (hv : s.Valid) (hp : s.Holds p) :
    ∃ xs b ys L, Sound s.heap (xs ++ b :: ys) L ∧ b.allocated = true ∧ p.offset = b.offset := by
  cases hv with
  | idle =>
    obtain ⟨_, hk, _⟩ := hp
    cases hk
  | live hs hh =>
    obtain ⟨xs, b, ys, rfl, hb, hpb⟩ := Call.exists_block hs hh hp
    exact ⟨xs, b, ys, _, hs, hb, hpb⟩

theorem Session.Valid.size_payload (hv : s.Valid) (hp : s.Holds p) {x : ByteArray}
    (hx : s.heap.payload p = .ok x) : s.heap.usableSize p = .ok x.size := by
  obtain ⟨xs, b, ys, L, hs, -, hpb⟩ := hv.exists_block hp
  have hbm : b ∈ xs ++ b :: ys := List.mem_append_cons_self
  obtain ⟨y, hy, hsize, -⟩ := hs.laid.payload_eq hbm hpb
  cases hy.symm.trans hx
  rw [hs.laid.usableSize_eq hbm hpb, hsize]

theorem Session.Valid.owned_block {i n : Nat} (hv : s.Valid) (ho : s.Owns p i n) :
    ∃ xs b ys L, Sound s.heap (xs ++ b :: ys) L ∧ p.offset = b.offset ∧ i + n ≤ b.size - 8 := by
  obtain ⟨hp, size, hsize, hle⟩ := ho
  obtain ⟨xs, b, ys, L, hs, -, hpb⟩ := hv.exists_block hp
  cases (hs.laid.usableSize_eq List.mem_append_cons_self hpb).symm.trans hsize
  exact ⟨xs, b, ys, L, hs, hpb, hle⟩

theorem Session.Valid.twin_next (hv : s.Valid) (hc : c.Private) (hl : c.Legal s)
    (ha : s.answer c = .ok a) : Twin s.heap (s.next c a).heap := by
  cases c with
  | write p i src =>
    obtain ⟨xs, b, ys, L, hs, hpb, hle⟩ := hv.owned_block hl
    have hm : Meets (Call.write p i src).action s.heap (fun _ h' => Twin s.heap h') NoFault := by
      apply (Heap.writePayload_meets hs hpb hle).then
      intro _ _ hq
      obtain ⟨⟨hs', hc⟩, hf, -⟩ := hq
      exact Meets.pure (.live hs hs' ⟨hf.policy, hf.ceiling, hc⟩)
    exact hm.ok ha
  | read p i n =>
    obtain ⟨xs, b, ys, L, hs, hpb, hle⟩ := hv.owned_block hl
    obtain ⟨bytes, hbytes, -⟩ := hs.laid.readPayload_eq List.mem_append_cons_self hpb hle
    have hm : Meets (Call.read p i n).action s.heap (fun _ h' => Twin s.heap h') NoFault :=
      Meets.read_bind hbytes (Meets.pure (.live hs hs ⟨rfl, rfl, rfl⟩))
    exact hm.ok ha
  | _ => exact hc.elim

theorem Twin.action_agree (ht : Twin s.heap t.heap) (hv : s.Valid)
    (hm : s.heap.arena.ceiling ≤ maxBlockSize) (hc : ¬ c.Private) (hl : c.Legal s) :
    Agree c.action s.heap t.heap (fun _ => Twin) Heap.SameView := by
  have hpure : ∀ {α : Type} {m : HeapM α} {f : α → Answer},
      Agree m s.heap t.heap (fun _ => Twin) Heap.SameView →
        Agree (do return f (← m)) s.heap t.heap (fun _ => Twin) Heap.SameView :=
    fun h => h.seq fun _ _ _ ht => Agree.pure ht
  cases c with
  | init => exact hpure (Heap.init_agree ht.alike.policy ht.alike.ceiling)
  | setCheck level => exact Agree.update_bind (Agree.pure (ht.withCheck level))
  | malloc n => exact hpure (Heap.malloc_agree ht hm)
  | tryMalloc n => exact hpure (Heap.tryMalloc_agree ht hm)
  | free p =>
    obtain ⟨xs, b, ys, L, hs, hb, hpb⟩ := hv.exists_block hl
    exact hpure (Heap.free_agree hs (ht.sound hs) ht.alike hm hb hpb)
  | realloc p n =>
    cases p with
    | none =>
      apply hpure
      rw [Heap.realloc]
      split
      · exact Agree.pure ht
      · exact Heap.malloc_agree ht hm
    | some p =>
      obtain ⟨xs, b, ys, L, hs, hb, hpb⟩ := hv.exists_block hl
      exact hpure (Heap.realloc_agree hs (ht.sound hs) ht.alike hm hb hpb)
  | check v => exact hpure (Heap.check_agree ht v)
  | write p i src => exact absurd trivial hc
  | read p i n => exact absurd trivial hc

/-! ## Runs -/

theorem Lockstep.reachable (hr : Lockstep h g s t) : Reachable h s ∧ Reachable g t := by
  induction hr with
  | start => exact ⟨.start, .start⟩
  | both _ _ hl hl' ha hb ih => exact ⟨ih.1.step hl ha, ih.2.step hl' hb⟩
  | left _ _ hl ha ih => exact ⟨ih.1.step hl ha, ih.2⟩
  | right _ _ hl ha ih => exact ⟨ih.1, ih.2.step hl ha⟩

theorem Fresh.twin (hf : Fresh h) (hf' : Fresh g) (hp : g.policy = h.policy)
    (hc : g.arena.ceiling = h.arena.ceiling) : Twin h g := by
  cases hf <;> cases hf' <;> exact .idle rfl rfl rfl FreeList.represents_empty.toList_eq rfl ⟨hp, hc, rfl⟩

theorem Lockstep.twin (hr : Lockstep h g s t) (hf : Fresh h) (hf' : Fresh g) (hp : g.policy = h.policy)
    (hc : g.arena.ceiling = h.arena.ceiling) (hm : h.arena.ceiling ≤ maxBlockSize) :
    Twin s.heap t.heap := by
  induction hr with
  | start => exact hf.twin hf' hp hc
  | both hr hpub hl _ ha _ ih =>
    obtain ⟨hv, hceil⟩ := hr.reachable.1.valid hf
    exact (ih.action_agree hv (hceil.trans_le hm) hpub hl).ok ha
  | left hr hpriv hl ha ih =>
    exact ((hr.reachable.1.valid hf).1.twin_next hpriv hl ha).symm.trans ih
  | right hr hpriv hl ha ih =>
    exact ih.trans ((hr.reachable.2.valid hf').1.twin_next hpriv hl ha)

/-! ## What the clients see -/

theorem Twin.holds_of (ht : Twin s.heap t.heap) (hv : s.Valid) (hv' : t.Valid) (hp : s.Holds p) :
    t.Holds p ∧ t.heap.usableSize p = s.heap.usableSize p := by
  obtain ⟨xs, b, ys, L, hs, hb, hpb⟩ := hv.exists_block hp
  have hg := ht.sound hs
  have hbm : b ∈ xs ++ b :: ys := List.mem_append_cons_self
  obtain ⟨bs', L', hg', hh⟩ := hv'.sound hg.laid.initialized
  obtain ⟨rfl, rfl⟩ := hg.laid.unique hg'.laid
  refine ⟨?_, (hg.laid.usableSize_eq hbm hpb).trans (hs.laid.usableSize_eq hbm hpb).symm⟩
  rw [show p = ⟨b.offset⟩ from congrArg Handle.mk hpb]
  exact hh.exists_handle (mem_allocatedBlocks.mpr ⟨hbm, hb⟩)

theorem Twin.matched (ht : Twin s.heap t.heap) (hv : s.Valid) (hv' : t.Valid)
    (hm : s.heap.arena.ceiling ≤ maxBlockSize) : s.Matched t := by
  have hholds : ∀ p, t.Holds p ↔ s.Holds p := fun p =>
    ⟨fun hp => (ht.symm.holds_of hv' hv hp).1, fun hp => (ht.holds_of hv hv' hp).1⟩
  have hsize : ∀ p, s.Holds p → t.heap.usableSize p = s.heap.usableSize p := fun p hp =>
    (ht.holds_of hv hv' hp).2
  refine
    { view := ht.sameView
      holds := hholds
      usableSize := hsize
      legal := ?legal
      answer := ?answer
      written := ?written }
  case legal =>
    intro c hc
    cases c with
    | free p => exact hholds p
    | realloc p n =>
      cases p with
      | none => exact Iff.rfl
      | some p => exact hholds p
    | write | read => exact absurd trivial hc
    | _ => exact Iff.rfl
  case answer =>
    intro c hc hl
    have hagree := ht.action_agree hv hm hc hl
    refine ⟨hagree.result, ?_⟩
    cases hr : (c.action.run s.heap).result with
    | ok a => exact (hagree.ok hr).sameView
    | error e => exact hagree.error hr
  case written =>
    intro j hj k hk hjk
    obtain ⟨x, hx, hjx⟩ := hv.isolated.written j hj
    obtain ⟨y, hy, hky⟩ := hv'.isolated.written k hk
    have hs := hsize j.handle ⟨j, hj, rfl⟩
    rw [hv.size_payload ⟨j, hj, rfl⟩ hx, hjk, hv'.size_payload ⟨k, hk, rfl⟩ hy] at hs
    exact ⟨x, y, hx, hy, Except.ok.inj hs, fun i v hi hi' => ⟨hjx i v hi, hky i v hi'⟩⟩

theorem lockstep_matched (hf : Fresh h) (hf' : Fresh g) (hp : g.policy = h.policy)
    (hc : g.arena.ceiling = h.arena.ceiling) (hm : h.arena.ceiling ≤ maxBlockSize)
    (hr : Lockstep h g s t) : s.Matched t := by
  obtain ⟨hv, hceil⟩ := hr.reachable.1.valid hf
  obtain ⟨hv', -⟩ := hr.reachable.2.valid hf'
  exact (hr.twin hf hf' hp hc hm).matched hv hv' (hceil.trans_le hm)

/-- One heap takes zeros and the other one a buffer full of ones. The two clients write differently, and free
the block before. -/
theorem lockstep_matched_apart : ∃ s t : Session, Lockstep (Heap.new (Arena.growable 80) .fineGrained)
    (Heap.new (Arena.ofBuffer ⟨Array.replicate 80 255⟩) .fineGrained) s t ∧
    s.heap.arena.byte? 33 = some 2 ∧ t.heap.arena.byte? 33 = some 255 ∧ s.Matched t := by
  let s₀ : Session := ⟨Heap.new (Arena.growable 80) .fineGrained, []⟩
  let t₀ : Session := ⟨Heap.new (Arena.ofBuffer ⟨Array.replicate 80 255⟩) .fineGrained, []⟩
  let s₁ := s₀.next .init (.ready (.ok ()))
  let t₁ := t₀.next .init (.ready (.ok ()))
  let s₂ := s₁.next (.malloc 8) (.handle (some ⟨16⟩))
  let t₂ := t₁.next (.malloc 8) (.handle (some ⟨16⟩))
  let s₃ := s₂.next (.malloc 8) (.handle (some ⟨32⟩))
  let t₃ := t₂.next (.malloc 8) (.handle (some ⟨32⟩))
  let s₄ := s₃.next (.write ⟨32⟩ 0 ⟨#[1, 2, 3]⟩) .done
  let t₄ := t₃.next (.write ⟨32⟩ 0 ⟨#[1]⟩) .done
  let s₅ := s₄.next (.free ⟨16⟩) .done
  let t₅ := t₄.next (.free ⟨16⟩) .done
  have h₁ : Lockstep s₀.heap t₀.heap s₁ t₁ :=
    .both .start nofun trivial trivial (by decide +kernel) (by decide +kernel)
  have h₂ : Lockstep s₀.heap t₀.heap s₂ t₂ :=
    .both h₁ nofun trivial trivial (by decide +kernel) (by decide +kernel)
  have h₃ : Lockstep s₀.heap t₀.heap s₃ t₃ :=
    .both h₂ nofun trivial trivial (by decide +kernel) (by decide +kernel)
  have h₄ : Lockstep s₀.heap t₀.heap s₄ t₃ :=
    .left h₃ trivial ⟨⟨{ handle := ⟨32⟩, size := 8 }, .head _, rfl⟩, 8, by decide +kernel, by decide⟩
      (by decide +kernel)
  have h₅ : Lockstep s₀.heap t₀.heap s₄ t₄ :=
    .right h₄ trivial ⟨⟨{ handle := ⟨32⟩, size := 8 }, .head _, rfl⟩, 8, by decide +kernel, by decide⟩
      (by decide +kernel)
  have h₆ : Lockstep s₀.heap t₀.heap s₅ t₅ :=
    .both h₅ nofun ⟨{ handle := ⟨16⟩, size := 8 }, .tail _ (.head _), rfl⟩
      ⟨{ handle := ⟨16⟩, size := 8 }, .tail _ (.head _), rfl⟩ (by decide +kernel) (by decide +kernel)
  exact ⟨s₅, t₅, h₆, by decide +kernel, by decide +kernel,
    lockstep_matched (.growable _ _) (.ofBuffer _ _) rfl (by decide +kernel) (by decide +kernel) h₆⟩

end

end BoundaryTag
