import BoundaryTag.Proofs.Held

/-!
# One call of a session

A legal call on a sound heap leads to a sound heap, or it is a reallocation that finds no room. Handles
that the call is not about keep their blocks.

Main statements: `Call.action_meets` (initialized heaps), `Call.rebuff_meets` and
`Call.action_meets_of_uninitialized`.
-/

namespace BoundaryTag

namespace Call

def Spares (p : Handle) : Call → Prop
  | init => False
  | free q => q ≠ p
  | realloc (some q) _ => q ≠ p
  | setCheck _ | malloc _ | tryMalloc _ | realloc none _ | write .. | read .. | check _ => True

/-- A reallocation that neither the block's neighbours nor the rest of the heap can serve. -/
def Jams (h : Heap) (bs : List Block) : Call → Prop
  | realloc (some p) n => 1 ≤ n ∧ ∃ xs b ys need err, bs = xs ++ b :: ys ∧ b.allocated = true ∧
      p.offset = b.offset ∧ blockSizeFor n = .ok need ∧ Stuck h xs b ys need err
  | _ => False

/-- How a call on a sound heap may fault. -/
def Fails (h : Heap) (bs : List Block) (c : Call) (e : Fault) (h' : Heap) : Prop :=
  Strained h e ∨ c.Jams h bs ∧ (∃ p n err, c = .realloc (some p) n ∧ e = .relocation p n err) ∧ h' = h

end Call

def Call.rebuff : Call → Option Answer
  | malloc _ => some (.handle none)
  | tryMalloc n => some (.tried (if n = 0 then .ok none else .error .uninitialized))
  | free _ => some .done
  | realloc _ _ => some (.handle none)
  | check _ => some (.report {})
  | init | setCheck _ | write .. | read .. => none

/-- The block at `q` holds what the block at `p` held. -/
def Moved (h : Heap) (bs : List Block) (p : Handle) (h' : Heap) (bs' : List Block) (q : Handle) : Prop :=
  ∃ b ∈ allocatedBlocks bs, ∃ c ∈ allocatedBlocks bs', p.offset = b.offset ∧ q.offset = c.offset ∧
    b.size ≤ c.size ∧
    ∀ i, i + 8 < b.size → h'.arena.byte? (c.offset + i) = h.arena.byte? (b.offset + i)

/-- The call `c`, answered with `a`, took the heap `h` with the blocks `bs` to `h'` with `bs'`. -/
structure Advance (h : Heap) (bs : List Block) (held : List Holding) (c : Call) (a : Answer)
    (h' : Heap) (bs' : List Block) : Prop where
  sound : ∃ L', Sound h' bs' L'
  ceiling : h'.arena.ceiling = h.arena.ceiling
  held : Held h'.arena (allocatedBlocks bs') (c.record a held)
  spared : ∀ b ∈ allocatedBlocks bs, c.Spares ⟨b.offset⟩ → b ∈ allocatedBlocks bs'
  moved : ∀ p n q, c = .realloc (some p) n → a = .handle (some q) → Moved h bs p h' bs' q
  frees : h.counters.Frees h'.counters (freedBytes bs bs')

open HeapM

section
variable {h h' : Heap} {bs xs ys : List Block} {b : Block} {L : List Nat} {held : List Holding}
  {p q : Handle} {n : Nat} {c : Call} {a : Answer}

theorem Advance.idle (hs : Sound h bs L) (hh : Held h.arena (allocatedBlocks bs) held)
    (hr : c.record a held = held)
    (hm : ∀ p n q, c = .realloc (some p) n → a ≠ .handle (some q)) : Advance h bs held c a h bs where
  sound := ⟨L, hs⟩
  ceiling := rfl
  held := hr.symm ▸ hh
  spared _ hb _ := hb
  moved p n q hc ha := absurd ha (hm p n q hc)
  frees := hs.laid.tiled.tiling.frees_self rfl

theorem Advance.served (hs : Sound h bs L) (hq : Served h bs n q h')
    (hk : h.counters.Frees h'.counters 0) (hh : Held h.arena (allocatedBlocks bs) held)
    (hr : c.record a held = { handle := q, size := n } :: held)
    (hc : ∀ p n, c ≠ .realloc (some p) n) : ∃ bs', Advance h bs held c a h' bs' := by
  obtain ⟨size, xs, d, ys, L', hsize, rfl, hd, hle, hs', hothers, hf⟩ := hq.block
  have hfit := (blockSizeFor_spec hsize).2.1
  have hall := allocatedBlocks_middle_perm xs ys hd
  rw [hothers] at hall
  have hkept : allocatedBlocks bs ⊆ allocatedBlocks (xs ++ d :: ys) := fun b hb =>
    hall.mem_iff.mpr (List.mem_cons_of_mem _ hb)
  refine ⟨_, ⟨L', hs'⟩, hf.ceiling, ?_, fun b hb _ => hkept hb, fun p n _ he => absurd he (hc p n), ?_⟩
  · rw [hr]
    exact ((hh.keep hf.keeps).cons
      ⟨rfl, Nat.le_trans hfit hle, fun _ _ hv => absurd hv (by simp)⟩).perm hall.symm
  · rwa [freedBytes_of_subset (fun _ => hs.laid.tiled.tiling.proper) hkept]

theorem Held.rest (hs : Sound h (xs ++ b :: ys) L) (hb : b.allocated = true)
    (hh : Held h.arena (allocatedBlocks (xs ++ b :: ys)) held) (hp : p.offset = b.offset) :
    Held h.arena (allocatedBlocks (xs ++ ys)) (Holding.without held p) := by
  have hperm := allocatedBlocks_middle_perm xs ys hb
  refine (hh.perm hperm).without ?_ hp
  apply (hperm.map _).nodup_iff.mp
  exact hs.laid.tiled.tiling.nodup_offsets.sublist (List.Sublist.map _ List.filter_sublist)

theorem mem_allocatedBlocks_of_spared (hb : b.allocated = true) (hp : p.offset = b.offset)
    {d : Block} (hd : d ∈ allocatedBlocks (xs ++ b :: ys)) (hne : p ≠ ⟨d.offset⟩) :
    d ∈ allocatedBlocks (xs ++ ys) := by
  rcases List.mem_cons.mp ((allocatedBlocks_middle_perm _ _ hb).mem_iff.mp hd) with rfl | hd
  · refine absurd ?_ hne
    rw [← hp]
  · exact hd

theorem Advance.freed {L' : List Nat} (hs : Sound h (xs ++ b :: ys) L) (hb : b.allocated = true)
    (hh : Held h.arena (allocatedBlocks (xs ++ b :: ys)) held) (hp : p.offset = b.offset)
    (hs' : Sound h' (belowFree xs ++ [joined (freeRun xs b.freed ys)] ++ aboveFree ys) L')
    (hf : Frame h h' (xs ++ ys)) (hk : h'.counters = h.counters.released (b.size - 8))
    (hr : c.record a held = Holding.without held p) (hc : ∀ d, c.Spares d → p ≠ d)
    (hm : ∀ p n q, c = .realloc (some p) n → a ≠ .handle (some q)) :
    Advance h (xs ++ b :: ys) held c a h'
      (belowFree xs ++ [joined (freeRun xs b.freed ys)] ++ aboveFree ys) := by
  have hall := allocatedBlocks_coalesced xs b.freed ys
  refine ⟨⟨L', hs'⟩, hf.ceiling, ?_, fun d hd hsp => ?_, fun p n q hc ha => absurd ha (hm p n q hc), ?_⟩
  · rw [hr, hall]
    exact (Held.rest hs hb hh hp).keep hf.keeps
  · rw [hall]
    exact mem_allocatedBlocks_of_spared hb hp hd (hc _ hsp)
  · have ht := hs.laid.tiled.tiling
    rw [hk, ht.freedBytes_of_lost hb (fun _ hd => hall ▸ hd) (ht.lost_of_subset fun _ hd => hall ▸ hd)]
    exact hs.counted.frees_released hb

theorem Advance.resized (hs : Sound h (xs ++ b :: ys) L) (hb : b.allocated = true)
    (hh : Held h.arena (allocatedBlocks (xs ++ b :: ys)) held) (hp : p.offset = b.offset)
    (hk : ∃ k ∈ held, k.handle = p) (hq : Resized h xs b ys n q h') :
    ∃ bs', Advance h (xs ++ b :: ys) held (.realloc (some p) n) (.handle (some q)) h' bs' := by
  obtain ⟨bs', L', d, hs', hd, rfl, hfit, hle, hperm, hf, hfrees, hbytes⟩ := hq
  have hbm : b ∈ allocatedBlocks (xs ++ b :: ys) :=
    mem_allocatedBlocks.mpr ⟨List.mem_append_cons_self, hb⟩
  obtain ⟨k, e, hfind, he, hat, hpe⟩ := hh.find hk
  obtain rfl : e = b := hs.laid.tiled.tiling.eq_of_offset (mem_allocatedBlocks.mp he).1
    (mem_allocatedBlocks.mp hbm).1 (hpe.symm.trans hp)
  have hgrown : Holding.At { k with handle := ⟨d.offset⟩, size := n } h'.arena d := by
    refine ⟨rfl, hfit, fun i v hv => ?_⟩
    obtain ⟨hi, hbyte⟩ := hat.bytes i v hv
    exact ⟨Nat.lt_of_lt_of_le hi hle, (hbytes i hi).trans hbyte⟩
  refine ⟨bs', ⟨L', hs'⟩, hf.ceiling, ?_, fun c hc hsp => ?_, ?_, hfrees⟩
  · rw [Call.record, revise_of_find hfind]
    exact (((Held.rest hs hb hh hp).keep hf.keeps).cons hgrown).perm hperm.symm
  · exact hperm.mem_iff.mpr (List.mem_cons_of_mem _ (mem_allocatedBlocks_of_spared hb hp hc hsp))
  · intro p' n' q' hc ha
    obtain ⟨rfl, rfl⟩ : p = p' ∧ n = n' := by simpa using hc
    obtain rfl : (⟨d.offset⟩ : Handle) = q' := by simpa using ha
    exact ⟨e, hbm, d, hperm.mem_iff.mpr List.mem_cons_self, hp, rfl, hle, hbytes⟩

/-! ## Calls on an initialized heap -/

theorem Heap.malloc_served (hs : Sound h bs L) (n : Nat) :
    Meets (Heap.malloc n) h
      (fun r h' => match r with
        | none => h' = h
        | some q => Served h bs n q h')
      (fun e _ => Strained h e) := by
  rcases Nat.eq_zero_or_pos n with rfl | hn
  · apply (Heap.malloc_zero_meets hs).of_noFault
    intro _ _ hq
    obtain ⟨rfl, rfl⟩ := hq
    rfl
  · refine (Heap.malloc_meets hs hn).mono ?_ (fun _ _ => And.right)
    cases h.denied? bs n with
    | some e =>
      intro _ _ hq
      obtain ⟨rfl, rfl⟩ := hq
      rfl
    | none =>
      intro _ _ hq
      obtain ⟨q, rfl, hq⟩ := hq
      exact hq.served hs.laid.tiled

theorem Heap.tryMalloc_served (hs : Sound h bs L) (n : Nat) :
    Meets (Heap.tryMalloc n) h
      (fun r h' => match r with
        | .ok (some q) => Served h bs n q h'
        | _ => h' = h)
      (fun e _ => Strained h e) := by
  rcases Nat.eq_zero_or_pos n with rfl | hn
  · apply (Heap.tryMalloc_zero_meets hs).of_noFault
    intro _ _ hq
    obtain ⟨rfl, rfl⟩ := hq
    rfl
  · refine (Heap.tryMalloc_meets hs hn).mono ?_ (fun _ _ => And.right)
    cases h.denied? bs n with
    | some e =>
      intro _ _ hq
      obtain ⟨rfl, rfl⟩ := hq
      rfl
    | none =>
      intro _ _ hq
      obtain ⟨q, rfl, hq⟩ := hq
      exact hq.served hs.laid.tiled

namespace Call

theorem malloc_meets (hs : Sound h bs L) (hh : Held h.arena (allocatedBlocks bs) held) (n : Nat) :
    Meets (malloc n).action h (fun a h' => ∃ bs', Advance h bs held (malloc n) a h' bs')
      (fun e _ => Strained h e) := by
  refine ((Heap.malloc_served hs n).and_retains (Heap.made_malloc n)).seq (fun _ _ => id) ?_
  rintro (_ | q) h' ⟨hq, hk⟩
  · subst hq
    exact Meets.pure ⟨_, .idle hs hh rfl fun _ _ _ hc => nomatch hc⟩
  · exact Meets.pure (Advance.served hs hq hk hh rfl fun _ _ hc => nomatch hc)

theorem tryMalloc_meets (hs : Sound h bs L) (hh : Held h.arena (allocatedBlocks bs) held) (n : Nat) :
    Meets (tryMalloc n).action h (fun a h' => ∃ bs', Advance h bs held (tryMalloc n) a h' bs')
      (fun e _ => Strained h e) := by
  refine ((Heap.tryMalloc_served hs n).and_retains (Heap.made_tryMalloc n)).seq (fun _ _ => id) ?_
  rintro (e | _ | q) h' ⟨hq, hk⟩
  · subst hq
    exact Meets.pure ⟨_, .idle hs hh rfl fun _ _ _ hc => nomatch hc⟩
  · subst hq
    exact Meets.pure ⟨_, .idle hs hh rfl fun _ _ _ hc => nomatch hc⟩
  · exact Meets.pure (Advance.served hs hq hk hh rfl fun _ _ hc => nomatch hc)

theorem realloc_none_meets (hs : Sound h bs L) (hh : Held h.arena (allocatedBlocks bs) held)
    (n : Nat) :
    Meets (realloc none n).action h (fun a h' => ∃ bs', Advance h bs held (realloc none n) a h' bs')
      (fun e _ => Strained h e) := by
  by_cases hn : n = 0
  · have hr : (realloc none n).action.run h = ⟨⟨.ok (.handle none), []⟩, h⟩ := by
      subst hn
      rfl
    exact Meets.of_run hr ⟨_, .idle hs hh rfl fun _ _ _ hc => nomatch hc⟩
  · have hm : Meets (Heap.realloc none n) h
        (fun r h' => match r with
          | none => h' = h
          | some q => Served h bs n q h')
        (fun e _ => Strained h e) := by
      rw [Heap.realloc, if_neg hn]
      exact Heap.malloc_served hs n
    refine (hm.and_retains (Heap.made_realloc none n)).seq (fun _ _ => id) ?_
    rintro (_ | q) h' ⟨hq, hk⟩
    · subst hq
      exact Meets.pure ⟨_, .idle hs hh rfl fun _ _ _ hc => nomatch hc⟩
    · exact Meets.pure (Advance.served hs hq hk hh rfl fun _ _ hc => nomatch hc)

theorem exists_block (hs : Sound h bs L) (hh : Held h.arena (allocatedBlocks bs) held)
    (hp : ∃ k ∈ held, k.handle = p) :
    ∃ xs b ys, bs = xs ++ b :: ys ∧ b.allocated = true ∧ p.offset = b.offset := by
  obtain ⟨_, b, _, hb, _, hpb⟩ := hh.find hp
  obtain ⟨hb, ha⟩ := mem_allocatedBlocks.mp hb
  obtain ⟨xs, ys, rfl⟩ := List.append_of_mem hb
  exact ⟨xs, b, ys, rfl, ha, hpb⟩

theorem free_meets (hs : Sound h bs L) (hh : Held h.arena (allocatedBlocks bs) held)
    (hp : ∃ k ∈ held, k.handle = p) :
    Meets (free p).action h (fun a h' => ∃ bs', Advance h bs held (free p) a h' bs')
      (fun e _ => Strained h e) := by
  obtain ⟨xs, b, ys, rfl, hb, hpb⟩ := exists_block hs hh hp
  refine (Heap.free_meets hs hb hpb).seq (fun _ _ => Or.inl) ?_
  intro _ h' hq
  obtain ⟨hs', hf, hk⟩ := hq
  exact Meets.pure ⟨_, .freed hs hb hh hpb hs' hf hk rfl (fun _ => id) fun _ _ _ hc => nomatch hc⟩

theorem split_unique (hs : Sound h (xs ++ b :: ys) L) {xs' ys' : List Block} {b' : Block}
    (he : xs ++ b :: ys = xs' ++ b' :: ys') (hb : b.offset = b'.offset) :
    xs' = xs ∧ b' = b ∧ ys' = ys := split_unique_of_nodup hs.laid.tiled.tiling.nodup_offsets he hb

theorem realloc_meets (hs : Sound h bs L) (hh : Held h.arena (allocatedBlocks bs) held)
    (hp : ∃ k ∈ held, k.handle = p) (n : Nat) :
    Meets (realloc (some p) n).action h
      (fun a h' => ¬ (realloc (some p) n).Jams h bs ∧
        ∃ bs', Advance h bs held (realloc (some p) n) a h' bs')
      ((realloc (some p) n).Fails h bs) := by
  obtain ⟨xs, b, ys, rfl, hb, hpb⟩ := exists_block hs hh hp
  rcases Nat.eq_zero_or_pos n with rfl | hn
  · have hm : Meets (Heap.realloc (some p) 0) h
        (fun r h' => r = none ∧ ∃ L',
          Sound h' (belowFree xs ++ [joined (freeRun xs b.freed ys)] ++ aboveFree ys) L' ∧
          Frame h h' (xs ++ ys) ∧ h'.counters = h.counters.released (b.size - 8))
        (fun e _ => Oversize h e) := by
      refine (Heap.free_meets hs hb hpb).seq (fun _ _ => id) ?_
      exact fun _ _ hq => Meets.pure ⟨rfl, _, hq⟩
    refine hm.seq (fun _ _ he => Or.inl (Or.inl he)) ?_
    intro _ h' hq
    obtain ⟨rfl, L', hs', hf, hk⟩ := hq
    exact Meets.pure ⟨fun hj => absurd hj.1 (by decide), _, .freed hs hb hh hpb hs' hf hk rfl
      (fun _ => id) fun _ _ _ _ ha => nomatch ha⟩
  · have hm := Heap.resize_meets hs hb hpb hn
    rw [← Heap.realloc_of_pos hn] at hm
    refine hm.seq ?_ ?_
    · rintro e h' (he | ⟨need, err, hsize, hst, he, rfl⟩)
      · exact Or.inl he
      · exact Or.inr ⟨⟨hn, xs, b, ys, need, err, rfl, hb, hpb, hsize, hst⟩, ⟨p, n, err, rfl, he⟩, rfl⟩
    · intro r h' hr
      cases hsize : blockSizeFor n with
      | error e =>
        rw [hsize] at hr
        obtain ⟨rfl, rfl⟩ := hr
        refine Meets.pure ⟨?_, _, .idle hs hh ?_ fun _ _ _ _ ha => nomatch ha⟩
        · intro hq
          obtain ⟨_, _, _, _, _, _, _, _, _, hsize', _⟩ := hq
          cases hsize.symm.trans hsize'
        · cases n with
          | zero => omega
          | succ n => rfl
      | ok need =>
        rw [hsize] at hr
        obtain ⟨hst, q, rfl, hq⟩ := hr
        refine Meets.pure ⟨?_, Advance.resized hs hb hh hpb hp hq⟩
        intro hq
        obtain ⟨_, xs', b', ys', need', err, he, _, hpb', hsize', hst'⟩ := hq
        obtain ⟨rfl, rfl, rfl⟩ := split_unique hs he (hpb.symm.trans hpb')
        obtain rfl := Except.ok.inj (hsize.symm.trans hsize')
        exact hst err hst'

theorem write_meets (hs : Sound h bs L) (hh : Held h.arena (allocatedBlocks bs) held) {i : Nat}
    {src : ByteArray} (hp : Session.Owns ⟨h, held⟩ p i src.size) :
    Meets (write p i src).action h (fun a h' => ∃ bs', Advance h bs held (write p i src) a h' bs')
      NoFault := by
  obtain ⟨hp, size, hsize, hle⟩ := hp
  obtain ⟨xs, b, ys, rfl, hb, hpb⟩ := exists_block hs hh hp
  have hbm : b ∈ xs ++ b :: ys := List.mem_append_cons_self
  obtain rfl : b.size - 8 = size := Except.ok.inj ((hs.laid.usableSize_eq hbm hpb).symm.trans hsize)
  have hperm := allocatedBlocks_middle_perm xs ys hb
  obtain ⟨k, e, hfind, he, hat, hpe⟩ := hh.find hp
  obtain rfl : e = b := hs.laid.tiled.tiling.eq_of_offset (mem_allocatedBlocks.mp he).1 hbm
    (hpe.symm.trans hpb)
  apply (Heap.writePayload_meets hs hpb hle).then
  intro _ h' hq
  obtain ⟨⟨hs', hk⟩, hf, hbytes⟩ := hq
  have hat' : (k.write i src).At h'.arena e := by
    refine ⟨hat.offset, hat.fits, fun j v hv => ?_⟩
    rw [hbytes]
    by_cases hj : i ≤ j ∧ j < i + src.size
    · rw [Holding.write] at hv
      simp only [if_pos hj] at hv ⊢
      exact ⟨by omega, hv⟩
    · rw [Holding.write] at hv
      simp only [if_neg hj] at hv ⊢
      exact hat.bytes j v hv
  refine Meets.pure
    ⟨_, ⟨L, hs'⟩, hf.ceiling, ?_, fun _ hd _ => hd, (fun _ _ _ hc => nomatch hc),
      hs.laid.tiled.tiling.frees_self hk⟩
  rw [Call.record, revise_of_find hfind]
  exact (((Held.rest hs hb hh hpb).keep hf.keeps).cons hat').perm hperm.symm

theorem read_meets (hs : Sound h bs L) (hh : Held h.arena (allocatedBlocks bs) held) {i n : Nat}
    (hp : Session.Owns ⟨h, held⟩ p i n) :
    Meets (read p i n).action h (fun a h' => ∃ bs', Advance h bs held (read p i n) a h' bs')
      NoFault := by
  obtain ⟨hp, size, hsize, hle⟩ := hp
  obtain ⟨xs, b, ys, rfl, _, hpb⟩ := exists_block hs hh hp
  have hbm : b ∈ xs ++ b :: ys := List.mem_append_cons_self
  obtain rfl : b.size - 8 = size := Except.ok.inj ((hs.laid.usableSize_eq hbm hpb).symm.trans hsize)
  obtain ⟨bytes, hbytes, _⟩ := hs.laid.readPayload_eq hbm hpb hle
  exact Meets.read_bind hbytes (Meets.pure ⟨_, .idle hs hh rfl fun _ _ _ hc => nomatch hc⟩)

theorem check_meets (hs : Sound h bs L) (hh : Held h.arena (allocatedBlocks bs) held) (v : Bool) :
    Meets (check v).action h (fun a h' => ∃ bs', Advance h bs held (check v) a h' bs') NoFault := by
  apply (Heap.check_meets hs.laid hs.settled v).then
  intro r _ hq
  obtain ⟨rfl, _⟩ := hq
  exact Meets.pure ⟨_, .idle hs hh rfl fun _ _ _ hc => nomatch hc⟩

theorem setCheck_meets (hs : Sound h bs L) (hh : Held h.arena (allocatedBlocks bs) held)
    (level : CheckLevel) :
    Meets (setCheck level).action h (fun a h' => ∃ bs', Advance h bs held (setCheck level) a h' bs')
      NoFault := by
  exact Meets.update_bind (Meets.pure ⟨bs, ⟨L, hs.withCheck level⟩, rfl, hh, fun _ hd _ => hd,
    (fun _ _ _ hc => nomatch hc), hs.laid.tiled.tiling.frees_self rfl⟩)

end Call

theorem Call.action_meets (hs : Sound h bs L) (hh : Held h.arena (allocatedBlocks bs) held)
    (hl : c.Legal ⟨h, held⟩) (hc : c ≠ .init) :
    Meets c.action h (fun a h' => ¬ c.Jams h bs ∧ ∃ bs', Advance h bs held c a h' bs')
      (c.Fails h bs) := by
  have strained : ∀ (e : Fault) (h' : Heap), Strained h e → c.Fails h bs e h' := fun _ _ => Or.inl
  cases c with
  | init => exact absurd rfl hc
  | setCheck level => exact (setCheck_meets hs hh level).of_noFault fun _ _ ha => ⟨id, ha⟩
  | malloc n => exact (malloc_meets hs hh n).mono (fun _ _ ha => ⟨id, ha⟩) strained
  | tryMalloc n => exact (tryMalloc_meets hs hh n).mono (fun _ _ ha => ⟨id, ha⟩) strained
  | free p => exact (free_meets hs hh hl).mono (fun _ _ ha => ⟨id, ha⟩) strained
  | realloc p n =>
    cases p with
    | none => exact (realloc_none_meets hs hh n).mono (fun _ _ ha => ⟨id, ha⟩) strained
    | some p => exact realloc_meets hs hh hl n
  | write p i src => exact (write_meets hs hh hl).of_noFault fun _ _ ha => ⟨id, ha⟩
  | read p i n => exact (read_meets hs hh hl).of_noFault fun _ _ ha => ⟨id, ha⟩
  | check v => exact (check_meets hs hh v).of_noFault fun _ _ ha => ⟨id, ha⟩

/-! ## Other calls -/

theorem Call.init_meets (h : Heap) :
    Meets init.action h
      (fun _ h' => h'.arena.ceiling = h.arena.ceiling ∧
        (h'.counters.totalAllocations = 0 ∧ h'.counters.totalAllocated = 0) ∧
        (h'.initialized = false ∨ ∃ bs L, Sound h' bs L ∧ allocatedBlocks bs = [])) NoFault := by
  apply (Heap.init_meets h).then
  intro r h' hq
  obtain ⟨_, hceil, hres⟩ := hq
  cases r with
  | error e =>
    obtain ⟨-, rfl⟩ := hres
    exact Meets.pure ⟨hceil, Heap.totals_blank, Or.inl Heap.initialized_blank⟩
  | ok _ =>
    obtain ⟨-, hl, hcnt⟩ := hres
    have hs := hl.sound_chunk h.policy.minBlock_le_chunk hcnt
    refine Meets.pure ⟨hceil, ?_, Or.inr ⟨_, _, hs, rfl⟩⟩
    rw [hcnt]
    exact ⟨rfl, rfl⟩

theorem Heap.malloc_meets_of_uninitialized (hi : h.initialized = false) (n : Nat) :
    Meets (Heap.malloc n) h (fun r h' => r = none ∧ h' = h) NoFault := by
  have ht := Heap.tryMalloc_run_of_uninitialized hi n
  by_cases hn : n = 0
  · rw [if_pos hn] at ht
    have hm : Meets (Heap.tryMalloc n) h (fun r h' => r = .ok none ∧ h' = h) NoFault :=
      Meets.of_run ht ⟨rfl, rfl⟩
    apply hm.then
    intro _ _ hq
    obtain ⟨rfl, rfl⟩ := hq
    exact Meets.pure ⟨rfl, rfl⟩
  · rw [if_neg hn] at ht
    have hm : Meets (Heap.tryMalloc n) h (fun r h' => r = .error .uninitialized ∧ h' = h) NoFault :=
      Meets.of_run ht ⟨rfl, rfl⟩
    apply hm.then
    intro _ _ hq
    obtain ⟨rfl, rfl⟩ := hq
    exact Meets.tell_bind (Meets.pure ⟨rfl, rfl⟩)

theorem Heap.owns_of_uninitialized (hi : h.initialized = false) (block : Nat) :
    h.owns block = .ok false := by
  rw [owns, span, hi]
  split
  · exact congrArg Except.ok (by simp [Span.contains, Span.empty])
  · rfl

theorem Heap.free_meets_of_uninitialized (hi : h.initialized = false) (p : Handle) :
    Meets (Heap.free p) h (fun _ h' => h' = h) NoFault := by
  have hcheck : Meets (Heap.selfCheck .free) h (fun _ h' => h' = h) NoFault :=
    Meets.of_run (Heap.selfCheck_run_of_uninitialized hi _) rfl
  apply hcheck.then
  rintro _ h rfl
  exact Meets.read_bind (Heap.owns_of_uninitialized hi p.offset) (Meets.tell_bind (Meets.pure rfl))

theorem Heap.realloc_meets_of_uninitialized (hi : h.initialized = false) (p : Option Handle) (n : Nat) :
    Meets (Heap.realloc p n) h (fun r h' => r = none ∧ h' = h) NoFault := by
  cases p with
  | none =>
    by_cases hn : n = 0
    · rw [Heap.realloc, if_pos hn]
      exact Meets.pure ⟨rfl, rfl⟩
    · rw [Heap.realloc, if_neg hn]
      exact Heap.malloc_meets_of_uninitialized hi n
  | some p =>
    by_cases hn : n = 0
    · rw [Heap.realloc, if_pos hn]
      exact (Heap.free_meets_of_uninitialized hi p).then fun _ _ he => Meets.pure ⟨rfl, he⟩
    · rw [Heap.realloc, if_neg hn]
      exact Meets.read_bind (Heap.owns_of_uninitialized hi p.offset)
        (Meets.tell_bind (Meets.pure ⟨rfl, rfl⟩))

theorem Call.rebuff_meets (hi : h.initialized = false) (ha : c.rebuff = some a) :
    Meets c.action h (fun a' h' => a' = a ∧ h' = h) NoFault := by
  cases c with
  | init | setCheck | write | read => cases ha
  | malloc n =>
    cases ha
    apply (Heap.malloc_meets_of_uninitialized hi n).then
    rintro _ _ ⟨rfl, rfl⟩
    exact Meets.pure ⟨rfl, rfl⟩
  | tryMalloc n =>
    cases ha
    have hm : Meets (Heap.tryMalloc n) h
        (fun r h' => r = (if n = 0 then .ok none else .error .uninitialized) ∧ h' = h) NoFault :=
      Meets.of_run (Heap.tryMalloc_run_of_uninitialized hi n) ⟨rfl, rfl⟩
    apply hm.then
    rintro _ _ ⟨rfl, rfl⟩
    exact Meets.pure ⟨rfl, rfl⟩
  | free p =>
    cases ha
    exact (Heap.free_meets_of_uninitialized hi p).then fun _ _ he => Meets.pure ⟨rfl, he⟩
  | realloc p n =>
    cases ha
    apply (Heap.realloc_meets_of_uninitialized hi p n).then
    rintro _ _ ⟨rfl, rfl⟩
    exact Meets.pure ⟨rfl, rfl⟩
  | check v =>
    cases ha
    have hm : Meets (Heap.check v) h (fun r h' => r = {} ∧ h' = h) NoFault :=
      Meets.of_run (Heap.check_run_of_uninitialized hi v) ⟨rfl, rfl⟩
    apply hm.then
    rintro _ _ ⟨rfl, rfl⟩
    exact Meets.pure ⟨rfl, rfl⟩

theorem Call.action_meets_of_uninitialized (hi : h.initialized = false) (hl : c.Legal ⟨h, []⟩)
    (hc : c ≠ .init) :
    Meets c.action h (fun a h' => h'.initialized = false ∧ h'.arena = h.arena ∧ c.record a [] = [])
      NoFault := by
  have hnone : ∀ p, ¬ Session.Holds ⟨h, []⟩ p := fun _ ⟨_, hk, _⟩ => nomatch hk
  have hrebuff : ∀ a, c.rebuff = some a → c.record a [] = [] →
      Meets c.action h (fun a h' => h'.initialized = false ∧ h'.arena = h.arena ∧ c.record a [] = [])
        NoFault := by
    intro a ha hrec
    refine (Call.rebuff_meets hi ha).mono ?_ fun _ _ => id
    rintro _ _ ⟨rfl, rfl⟩
    exact ⟨hi, rfl, hrec⟩
  cases c with
  | init => exact absurd rfl hc
  | setCheck level => exact Meets.update_bind (Meets.pure ⟨hi, rfl, rfl⟩)
  | malloc n => exact hrebuff _ rfl rfl
  | tryMalloc n =>
    refine hrebuff _ rfl ?_
    split <;> rfl
  | free p => exact absurd hl (hnone p)
  | realloc p n =>
    cases p with
    | none => exact hrebuff _ rfl rfl
    | some p => exact absurd hl (hnone p)
  | write p i src => exact absurd hl.1 (hnone p)
  | read p i n => exact absurd hl.1 (hnone p)
  | check v => exact hrebuff _ rfl rfl

end

end BoundaryTag
