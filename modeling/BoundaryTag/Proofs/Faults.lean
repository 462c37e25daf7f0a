import BoundaryTag.Proofs.Sessions
import BoundaryTag.Proofs.Totals

/-!
# Faults of sessions

A client that uses its handles properly meets one fault only: the reallocation of a block for which
there is no room anywhere. This supposes that a block can be as large as the arena, and that the
cumulative counters do not overflow, which no check prevents.

`Jammed` and `Affordable` say both in terms of the heap. What a call adds to the totals is found by
running it on a heap that has counted nothing; as the totals are only added to, it takes the same course.

Main statements: `reachable_faults_iff`, and `Call.fault_of_not_affordable` with `Reachable.room` (a call
that is not affordable faults).
-/

namespace BoundaryTag

/-- There is no room to resize the allocation at `p` to `n` bytes: not with the free blocks beside it,
not in any other free block, and not in new memory. -/
def Heap.Jammed (h : Heap) (p : Handle) (n : Nat) : Prop :=
  ∃ need size before after blocks, blockSizeFor n = .ok need ∧ h.blockSize p.offset = .ok size ∧
    h.tagBefore p.offset = .ok before ∧ h.header (p.offset + size) = .ok after ∧
    h.blocks = .ok blocks ∧ size < need ∧ (∀ g : Growth, ¬ g.Feasible size need before after) ∧
    (∀ b ∈ blocks, b.allocated = false → b.size < need) ∧
    h.arena.remaining < max need h.policy.chunkSize

def Heap.uncounted (h : Heap) : Heap :=
  { h with counters := { h.counters with totalAllocations := 0, totalAllocated := 0 } }

/-- The cumulative counters have room for what the call adds to them: the totals stay below `2 ^ 64`. This is a
proviso on the counters alone, and a call that fails it faults (`Call.fault_of_not_affordable`). -/
def Call.Affordable (c : Call) (h : Heap) : Prop :=
  (c.action.run h.uncounted).heap.counters.Room h.counters.totalAllocations h.counters.totalAllocated

open HeapM

section
variable {h h₀ : Heap} {bs : List Block} {L : List Nat} {held : List Holding} {s : Session} {c : Call}
  {p : Handle} {n need : Nat}

/-! ## The cumulative counters -/

theorem Call.blind_action (hc : c ≠ .init) : Blind c.action := by
  by_cases hl : ∃ level, c = .setCheck level
  · obtain ⟨level, rfl⟩ := hl
    exact .bind (blind_update (fun _ => rfl) fun _ _ _ => rfl) fun _ => blind_pure _
  · exact .of_made (Call.made_action hc fun level e => hl ⟨level, e⟩)

theorem Call.run_of_affordable (hc : c ≠ .init) (ha : c.Affordable h) :
    c.action.run h = ⟨(c.action.run h.uncounted).toTraced, (c.action.run h.uncounted).heap.prior
      h.counters.totalAllocations h.counters.totalAllocated⟩ :=
  (Call.blind_action hc).prior h.uncounted _ _ ha

theorem Call.fault_of_not_affordable (hc : c ≠ .init) (hr : h.counters.Room 0 0)
    (hn : ¬ c.Affordable h) : ∃ e, (c.action.run h).result = .error e := by
  have hroom : h.uncounted.counters.Room h.counters.totalAllocations h.counters.totalAllocated := by
    simpa [Counters.Room, Heap.uncounted] using hr
  exact (Call.blind_action hc).strict h.uncounted _ _ hroom hn

theorem Call.affordable_of_answer {a : Answer} (hc : c ≠ .init) (hr : h.counters.Room 0 0)
    (ha : (c.action.run h).result = .ok a) : c.Affordable h := by
  by_contra hn
  obtain ⟨e, he⟩ := Call.fault_of_not_affordable hc hr hn
  exact nomatch he.symm.trans ha

theorem Reachable.room (hr : Reachable h₀ s) (hf : Fresh h₀) : s.heap.counters.Room 0 0 := by
  induction hr with
  | start =>
    have hnew : Counters.Room {} 0 0 := ⟨by decide, by decide⟩
    cases hf <;> exact hnew
  | @step s c a _ _ ha ih =>
    by_cases hc : c = .init
    · subst hc
      obtain ⟨_, hn, _⟩ := (Call.init_meets s.heap).ok ha
      simp [Counters.Room, Session.next, hn.1, hn.2, addressSpace]
    · have hroom := Call.affordable_of_answer hc ih ha
      rw [Session.next, Call.run_of_affordable hc hroom]
      simp only [Counters.Room, Heap.prior, Counters.prior, Nat.zero_add]
      exact hroom

theorem Sound.uncounted (hs : Sound h bs L) : Sound h.uncounted bs L :=
  ⟨hs.laid.recount _, hs.settled, ⟨⟨hs.counted.claimed, hs.counted.extensions⟩,
    hs.counted.allocations, hs.counted.allocated⟩⟩

theorem Call.legal_uncounted (hl : c.Legal ⟨h, held⟩) : c.Legal ⟨h.uncounted, held⟩ := by
  cases c with
  | realloc p n => cases p <;> exact hl
  | _ => exact hl

theorem not_strained (hc : h.arena.ceiling ≤ maxBlockSize) (e : Fault) : ¬ Strained h.uncounted e := by
  rintro (hlarge | ⟨_, ho⟩)
  · exact not_oversize (h := h.uncounted) hc e hlarge
  · have hroom : ¬ (addressSpace ≤ 0 + 1 ∨ addressSpace ≤ 0 + Arena.maxSize) := by decide
    exact hroom ho

/-! ## Room -/

theorem Sound.shortage_iff (hs : Sound h bs L) (hc : h.arena.ceiling ≤ maxBlockSize) (h8 : 8 ∣ need) :
    (∃ e, h.shortage? bs need = some e) ↔
      (∀ b ∈ bs, b.allocated = false → b.size < need) ∧
        h.arena.remaining < max need h.policy.chunkSize := by
  by_cases hno : ∀ b ∈ bs, b.allocated = false → b.size < need
  · have hrem := h.arena.remaining_eq
    have hsize := hs.laid.tiled.within
    have hmx : maxBlockSize ≤ Arena.maxSize := by decide
    have h8' : 8 ∣ max need h.policy.chunkSize := by
      have := h.policy.chunk_dvd
      omega
    rw [Heap.shortage?_of_no_fit hno, ← Option.ne_none_iff_exists', Ne, Heap.refused?_eq_none_iff,
      alignUp_eq_self h8', hs.laid.tiled.top_eq]
    refine ⟨fun hr => ⟨hno, ?_⟩, fun ⟨_, hr⟩ => ?_⟩ <;> omega
  · have hfit : h.shortage? bs need = none := by
      push Not at hno
      obtain ⟨b, hb, hf, hle⟩ := hno
      exact Heap.shortage?_eq_none_of_fit hb hf hle
    rw [hfit]
    exact ⟨fun ⟨_, he⟩ => (nomatch he), fun ⟨h, _⟩ => absurd h hno⟩

theorem Sound.stuck_iff {xs ys : List Block} {b : Block} (hs : Sound h (xs ++ b :: ys) L)
    (hc : h.arena.ceiling ≤ maxBlockSize) (hp : p.offset = b.offset) :
    (∃ need e, blockSizeFor n = .ok need ∧ Stuck h xs b ys need e) ↔ h.Jammed p n := by
  have ht := hs.laid.tiled
  have hsize : h.blockSize p.offset = .ok b.size := by
    rw [hp]
    exact ht.blockSize (List.mem_append_cons_self)
  have hbefore : h.tagBefore p.offset = .ok (tagBelow xs) := by
    rw [hp]
    exact ht.tagBefore
  have hafter : h.header (p.offset + b.size) = .ok (tagAbove ys) := by
    rw [hp]
    exact ht.header_stop
  constructor
  · intro hq
    obtain ⟨need, e, hneed, hlt, hno, hshort⟩ := hq
    obtain ⟨hall, hrem⟩ := (hs.shortage_iff hc (blockSizeFor_spec hneed).1).mp ⟨e, hshort⟩
    exact ⟨need, _, _, _, _, hneed, hsize, hbefore, hafter, hs.laid.blocks_eq, hlt, hno, hall, hrem⟩
  · intro hq
    obtain ⟨need, size, before, after, blocks, hneed, hsize', hbefore', hafter', hblocks, hlt, hno,
      hall, hrem⟩ := hq
    obtain rfl := Except.ok.inj (hsize.symm.trans hsize')
    obtain rfl := Except.ok.inj (hbefore.symm.trans hbefore')
    obtain rfl := Except.ok.inj (hafter.symm.trans hafter')
    obtain rfl := Except.ok.inj (hs.laid.blocks_eq.symm.trans hblocks)
    obtain ⟨e, he⟩ := (hs.shortage_iff hc (blockSizeFor_spec hneed).1).mpr ⟨hall, hrem⟩
    exact ⟨need, e, hneed, hlt, hno, he⟩

theorem Sound.jams_iff (hs : Sound h bs L) (hh : Held h.arena (allocatedBlocks bs) held)
    (hc : h.arena.ceiling ≤ maxBlockSize) (hl : c.Legal ⟨h, held⟩) :
    c.Jams h bs ↔ ∃ p n, c = .realloc (some p) n ∧ 1 ≤ n ∧ h.Jammed p n := by
  constructor
  · intro hj
    cases c with
    | realloc p n =>
      cases p with
      | none => exact hj.elim
      | some p =>
        obtain ⟨hn, xs, b, ys, need, e, rfl, _, hp, hneed, hst⟩ := hj
        exact ⟨p, n, rfl, hn, (hs.stuck_iff hc hp).mp ⟨need, e, hneed, hst⟩⟩
    | _ => exact hj.elim
  · intro hq
    obtain ⟨p, n, rfl, hn, hj⟩ := hq
    obtain ⟨xs, b, ys, rfl, hb, hp⟩ := Call.exists_block hs hh hl
    obtain ⟨need, e, hneed, hst⟩ := (hs.stuck_iff hc hp).mpr hj
    exact ⟨hn, xs, b, ys, need, e, rfl, hb, hp, hneed, hst⟩

/-! ## Faults -/

theorem no_fault {m : HeapM Answer} {Q : Answer → Heap → Prop} (hm : Meets m h Q NoFault) (e : Fault) :
    (m.run h).result ≠ .error e := fun he => hm.error he

theorem Sound.faults_iff (hs : Sound h bs L) (hh : Held h.arena (allocatedBlocks bs) held)
    (hc : h.arena.ceiling ≤ maxBlockSize) (hl : c.Legal ⟨h, held⟩) (hi : c ≠ .init)
    (ha : c.Affordable h) :
    ((∃ e, (c.action.run h).result = .error e) ↔ c.Jams h bs) ∧
      ∀ e, (c.action.run h).result = .error e →
        (∃ p n err, e = .relocation p n err) ∧ (c.action.run h).heap = h := by
  have hm := Call.action_meets hs.uncounted hh (Call.legal_uncounted hl) hi
  have hj : c.Jams h.uncounted bs ↔ c.Jams h bs := by
    cases c with
    | realloc p n => cases p <;> exact Iff.rfl
    | _ => exact Iff.rfl
  rw [Call.run_of_affordable hi ha]
  cases hr : (c.action.run h.uncounted).result with
  | ok a =>
    have hno := (hm.ok hr).1
    exact ⟨⟨fun ⟨_, he⟩ => (nomatch he), fun h => absurd (hj.mpr h) hno⟩,
      fun _ he => (nomatch he)⟩
  | error e =>
    rcases hm.error hr with hst | ⟨hjam, ⟨p, n, err, _, rfl⟩, hsame⟩
    · exact absurd hst (not_strained hc e)
    · refine ⟨⟨fun _ => hj.mp hjam, fun _ => ⟨_, rfl⟩⟩, fun e he => ⟨⟨p, n, err, ?_⟩, ?_⟩⟩
      · exact (Except.error.inj he).symm
      · rw [hsame]
        rfl

/-- An affordable call is answered, unless it is one that there is no room for. -/
theorem Sound.answers (hs : Sound h bs L) (hh : Held h.arena (allocatedBlocks bs) held)
    (hc : h.arena.ceiling ≤ maxBlockSize) (hl : c.Legal ⟨h, held⟩) (hi : c ≠ .init)
    (ha : c.Affordable h) (hj : ¬ c.Jams h bs) : ∃ a, (c.action.run h).result = .ok a := by
  cases hr : (c.action.run h).result with
  | ok a => exact ⟨a, rfl⟩
  | error e => exact absurd ((hs.faults_iff hh hc hl hi ha).1.mp ⟨e, hr⟩) hj

theorem reachable_faults_iff (hf : Fresh h₀) (hc : h₀.arena.ceiling ≤ maxBlockSize)
    (hr : Reachable h₀ s) (hl : c.Legal s) (ha : c.Affordable s.heap) :
    ((∃ e, s.answer c = .error e) ↔
        ∃ p n, c = .realloc (some p) n ∧ 1 ≤ n ∧ s.heap.Jammed p n) ∧
      ∀ e, s.answer c = .error e →
        (∃ p n err, e = .relocation p n err) ∧ (c.action.run s.heap).heap = s.heap := by
  obtain ⟨hv, hceil⟩ := hr.valid hf
  rw [← hceil] at hc
  by_cases hi : c = .init
  · subst hi
    have hno := no_fault (Call.init_meets s.heap)
    exact ⟨⟨fun ⟨e, he⟩ => absurd he (hno e), fun ⟨_, _, he, _⟩ => nomatch he⟩,
      fun e he => absurd he (hno e)⟩
  cases hv with
  | idle hu =>
    have hno := no_fault (Call.action_meets_of_uninitialized hu hl hi)
    refine ⟨⟨fun ⟨e, he⟩ => absurd he (hno e), fun ⟨p, n, he, _⟩ => ?_⟩,
      fun e he => absurd he (hno e)⟩
    subst he
    obtain ⟨_, hk, _⟩ := hl
    cases hk
  | live hs hh =>
    have hfault := hs.faults_iff hh hc hl hi ha
    exact ⟨hfault.1.trans (hs.jams_iff hh hc hl), hfault.2⟩

/-- A block in a full arena that its neighbour cannot make large enough. -/
theorem reachable_faults_iff_full : Session.firstHeld.heap.Jammed ⟨16⟩ 60 ∧
    ((Call.realloc (some ⟨16⟩) 60).action.run Session.firstHeld.heap).heap = Session.firstHeld.heap := by
  let s := Session.firstHeld
  have he : s.answer (.realloc (some ⟨16⟩) 60) =
      .error (.relocation ⟨16⟩ 60 (.arenaExhausted 72 20)) := by decide +kernel
  obtain ⟨hiff, hsame⟩ := reachable_faults_iff (c := .realloc (some ⟨16⟩) 60)
    (.growable 100 _) (by decide) Session.reachable_firstHeld ⟨_, .head _, rfl⟩
    ⟨by decide +kernel, by decide +kernel⟩
  obtain ⟨_, _, hpn, _, hj⟩ := hiff.mp ⟨_, he⟩
  cases hpn
  exact ⟨hj, (hsame _ he).2⟩

end

end BoundaryTag
