import BoundaryTag.Proofs.Faults
import BoundaryTag.Proofs.Standing
import Mathlib.Order.Bounds.Basic

/-!
# Refused requests

A request is refused for one of three reasons, and only for these: the heap is not initialized, no tag can hold
the size of the block, or neither a free block nor the rest of the arena is large enough. A call that is declined
leaves the whole session as it was.

Main statement: `reachable_refusals`.
-/

namespace BoundaryTag

/-- Why a request for `payload` bytes, which takes a block of `size` bytes, is refused. -/
inductive Heap.Refuses (h : Heap) (payload size : Nat) : AllocError → Prop
  | uninitialized : h.initialized = false → Refuses h payload size .uninitialized
  | oversized : h.initialized = true → maxBlockSize < size → Refuses h payload size (.sizeOverflow payload)
  | exhausted {bs : List Block} : h.initialized = true → size ≤ maxBlockSize → h.blocks = .ok bs →
      (∀ b ∈ bs, b.allocated = false → b.size < size) →
      h.arena.ceiling - h.arena.top < max size h.policy.chunkSize →
      Refuses h payload size
        (.arenaExhausted (max size h.policy.chunkSize) (h.arena.ceiling - h.arena.top))

/-- The answers that decline a call. -/
inductive Call.Declines : Call → Answer → Prop
  | tryMalloc (n : Nat) (e : AllocError) : Declines (.tryMalloc n) (.tried (.error e))
  | malloc (n : Nat) : Declines (.malloc n) (.handle none)
  | realloc (p : Handle) {n : Nat} : 1 ≤ n → Declines (.realloc (some p) n) (.handle none)

theorem isLeast_alignUp (n : Nat) : IsLeast {m | 8 ∣ m ∧ n ≤ m} (alignUp n) := by
  refine ⟨⟨alignUp_dvd n, le_alignUp n⟩, fun m hm => ?_⟩
  obtain ⟨h8, hle⟩ := hm
  have hd := alignUp_dvd n
  have hlt := alignUp_lt n
  omega

open HeapM

section
variable {h h₀ : Heap} {bs : List Block} {L : List Nat} {s : Session} {c : Call} {a : Answer}
  {n size : Nat} {e : AllocError}

/-! ## Reasons -/

theorem blockSizeFor_eq (hsize : IsLeast {m | 8 ∣ m ∧ n + 8 ≤ m} size) :
    blockSizeFor n = if size ≤ maxBlockSize then .ok size else .error (.sizeOverflow n) := by
  rw [hsize.unique (isLeast_alignUp (n + 8))]
  rfl

theorem Sound.refused?_eq (hs : Sound h bs L) (hc : h.arena.ceiling ≤ maxBlockSize) (h8 : 8 ∣ n)
    (hn : n ≤ maxBlockSize) :
    h.refused? n = if h.arena.ceiling - h.arena.top < n then
      some (.arenaExhausted n (h.arena.ceiling - h.arena.top)) else none := by
  have hwithin := hs.laid.tiled.within
  have hmx : maxBlockSize + maxBlockSize ≤ Arena.maxSize := by decide
  rw [Heap.refused?, alignUp_eq_self h8, if_neg (Nat.not_lt.mpr hn), hs.laid.tiled.top_eq,
    if_neg (by omega), Arena.refusal?, Arena.remaining_eq]

theorem Sound.shortage?_eq_some_iff (hs : Sound h bs L) (hc : h.arena.ceiling ≤ maxBlockSize)
    (h8 : 8 ∣ size) (hm : max size h.policy.chunkSize ≤ maxBlockSize) :
    h.shortage? bs size = some e ↔ (∀ b ∈ bs, b.allocated = false → b.size < size) ∧
      h.arena.ceiling - h.arena.top < max size h.policy.chunkSize ∧
      e = .arenaExhausted (max size h.policy.chunkSize) (h.arena.ceiling - h.arena.top) := by
  have h8' : 8 ∣ max size h.policy.chunkSize := by
    have := h.policy.chunk_dvd
    omega
  have hgrow := hs.refused?_eq hc h8' hm
  by_cases hno : ∀ b ∈ bs, b.allocated = false → b.size < size
  · rw [Heap.shortage?_of_no_fit hno, hgrow]
    split
    · next hrem =>
      exact ⟨fun he => ⟨hno, hrem, (Option.some.inj he).symm⟩, fun ⟨_, _, he⟩ => congrArg some he.symm⟩
    · next hrem => exact ⟨fun he => (nomatch he), fun ⟨_, hlt, _⟩ => absurd hlt hrem⟩
  · have hfit : h.shortage? bs size = none := by
      push Not at hno
      obtain ⟨b, hb, hf, hle⟩ := hno
      exact Heap.shortage?_eq_none_of_fit hb hf hle
    simp [hfit, hno]

theorem Sound.denied?_eq_some_iff (hs : Sound h bs L) (hc : h.arena.ceiling ≤ maxBlockSize)
    (hk : h.policy.chunkSize ≤ maxBlockSize) (hsize : IsLeast {m | 8 ∣ m ∧ n + 8 ≤ m} size) :
    h.denied? bs n = some e ↔ h.Refuses n size e := by
  have hi := hs.laid.initialized
  have hbs := hs.laid.blocks_eq
  rw [Heap.denied?, blockSizeFor_eq hsize]
  by_cases hle : size ≤ maxBlockSize
  · rw [if_pos hle]
    show h.shortage? bs size = some e ↔ _
    rw [hs.shortage?_eq_some_iff hc hsize.1.1 (Nat.max_le.mpr ⟨hle, hk⟩)]
    constructor
    · rintro ⟨hno, hrem, rfl⟩
      exact .exhausted hi hle hbs hno hrem
    · intro hr
      cases hr with
      | uninitialized hu => cases hu.symm.trans hi
      | oversized _ hlt => exact absurd hle (Nat.not_le.mpr hlt)
      | exhausted _ _ hbs' hno hrem =>
        cases hbs'.symm.trans hbs
        exact ⟨hno, hrem, rfl⟩
  · rw [if_neg hle]
    constructor
    · intro he
      cases he
      exact .oversized hi (Nat.not_le.mp hle)
    · intro hr
      cases hr with
      | uninitialized hu => cases hu.symm.trans hi
      | oversized => rfl
      | exhausted _ hle' => exact absurd hle' hle

theorem Heap.refuses_iff_of_uninitialized (hi : h.initialized = false) :
    h.Refuses n size e ↔ e = .uninitialized := by
  constructor
  · intro hr
    cases hr with
    | uninitialized => rfl
    | oversized hi' | exhausted hi' => cases hi'.symm.trans hi
  · rintro rfl
    exact .uninitialized hi

/-! ## Answers -/

theorem Call.tryMalloc_decides (hs : Sound h bs L) (hn : 1 ≤ n) :
    Meets (Call.tryMalloc n).action h
      (fun a h' => match h.denied? bs n with
        | some e => a = .tried (.error e)
        | none => ∃ p, a = .tried (.ok (some p)) ∧ Granted h bs L n p h')
      (fun _ _ => h.denied? bs n = none) := by
  refine (Heap.tryMalloc_meets hs hn).seq (fun _ _ => And.left) ?_
  cases h.denied? bs n with
  | some e =>
    intro _ _ hq
    obtain ⟨rfl, -⟩ := hq
    exact Meets.pure rfl
  | none =>
    intro _ _ hq
    obtain ⟨p, rfl, hq⟩ := hq
    exact Meets.pure ⟨p, rfl, hq⟩

theorem Session.answer_tryMalloc_of_uninitialized (hi : s.heap.initialized = false) (hn : 1 ≤ n) :
    s.answer (.tryMalloc n) = .ok (.tried (.error .uninitialized)) := by
  have hrun := Heap.tryMalloc_run_of_uninitialized hi n
  rw [if_neg (Nat.ne_of_gt hn)] at hrun
  rw [Session.answer, Call.action, run_bind_of_ok hrun]
  rfl

theorem Session.Valid.refused_iff (hv : s.Valid) (hc : s.heap.arena.ceiling ≤ maxBlockSize)
    (hk : s.heap.initialized = true → s.heap.policy.chunkSize ≤ maxBlockSize) (hn : 1 ≤ n)
    (hsize : IsLeast {m | 8 ∣ m ∧ n + 8 ≤ m} size) (e : AllocError) :
    s.answer (.tryMalloc n) = .ok (.tried (.error e)) ↔ s.heap.Refuses n size e := by
  cases hv with
  | idle hi =>
    rw [Session.answer_tryMalloc_of_uninitialized hi hn, Heap.refuses_iff_of_uninitialized hi]
    simp [eq_comm]
  | @live h bs L held hs =>
    have hm := Call.tryMalloc_decides hs hn
    rw [← hs.denied?_eq_some_iff hc (hk hs.laid.initialized) hsize]
    cases hr : (Call.tryMalloc n).action.run h |>.result with
    | error f =>
      rw [Session.answer, hr, hm.error hr]
      simp
    | ok a =>
      have ha := hm.ok hr
      rw [Session.answer, hr]
      cases hd : h.denied? bs n with
      | some e' =>
        rw [hd] at ha
        obtain rfl : a = _ := ha
        simp
      | none =>
        rw [hd] at ha
        obtain ⟨p, rfl, -⟩ := ha
        simp

theorem Session.Valid.granted_iff (hv : s.Valid) (hc : s.heap.arena.ceiling ≤ maxBlockSize)
    (hk : s.heap.initialized = true → s.heap.policy.chunkSize ≤ maxBlockSize)
    (hroom : s.heap.counters.Room 0 0) (hn : 1 ≤ n)
    (hsize : IsLeast {m | 8 ∣ m ∧ n + 8 ≤ m} size) :
    (∃ p, s.answer (.tryMalloc n) = .ok (.tried (.ok (some p)))) ↔
      (∀ e, ¬ s.heap.Refuses n size e) ∧ (Call.tryMalloc n).Affordable s.heap := by
  have hiff := hv.refused_iff hc hk hn hsize
  constructor
  · rintro ⟨p, ha⟩
    refine ⟨fun e he => ?_, Call.affordable_of_answer nofun hroom ha⟩
    cases ((hiff e).mpr he).symm.trans ha
  · rintro ⟨hno, ha⟩
    cases hv with
    | idle hi => exact absurd (.uninitialized hi) (hno _)
    | @live h bs L held hs hh =>
      obtain ⟨a, hr⟩ := hs.answers (c := .tryMalloc n) hh hc trivial nofun ha id
      have ha := (Call.tryMalloc_decides hs hn).ok hr
      cases hd : h.denied? bs n with
      | some e =>
        exact absurd ((hs.denied?_eq_some_iff hc (hk hs.laid.initialized) hsize).mp hd) (hno e)
      | none =>
        rw [hd] at ha
        obtain ⟨p, rfl, -⟩ := ha
        exact ⟨p, hr⟩

/-! ## Declined calls -/

theorem Call.record_of_declined (hd : c.Declines a) (held : List Holding) : c.record a held = held := by
  cases hd with
  | tryMalloc | malloc => rfl
  | @realloc p n hn =>
    cases n with
    | zero => cases hn
    | succ n => rfl

theorem Call.action_declined (hs : Sound h bs L) {held : List Holding}
    (hh : Held h.arena (allocatedBlocks bs) held) (hl : c.Legal ⟨h, held⟩) (hd : c.Declines a) :
    Meets c.action h (fun a' h' => a' = a → h' = h) (fun _ _ => True) := by
  cases hd with
  | tryMalloc n e =>
    refine (Heap.tryMalloc_served hs n).seq (fun _ _ _ => trivial) ?_
    rintro (e' | q) h' hq
    · exact Meets.pure fun _ => hq
    · exact Meets.pure fun ha => nomatch ha
  | malloc n =>
    refine (Heap.malloc_served hs n).seq (fun _ _ _ => trivial) ?_
    rintro (_ | q) h' hq
    · exact Meets.pure fun _ => hq
    · exact Meets.pure fun ha => nomatch ha
  | @realloc p n hn =>
    obtain ⟨xs, b, ys, rfl, hb, hpb⟩ := exists_block hs hh hl
    have hm := Heap.resize_meets hs hb hpb hn
    rw [← Heap.realloc_of_pos hn] at hm
    refine hm.seq (fun _ _ _ => trivial) ?_
    cases blockSizeFor n with
    | error e =>
      rintro _ _ ⟨rfl, rfl⟩
      exact Meets.pure fun _ => rfl
    | ok need =>
      rintro _ _ ⟨-, q, rfl, -⟩
      exact Meets.pure fun ha => nomatch ha

theorem Session.Valid.next_of_declined (hv : s.Valid) (hl : c.Legal s) (hd : c.Declines a)
    (ha : s.answer c = .ok a) : s.next c a = s := by
  have hheap : (c.action.run s.heap).heap = s.heap := by
    cases hv with
    | @live h bs L held hs hh => exact (Call.action_declined hs hh hl hd).ok ha rfl
    | @idle h hi =>
      cases hd with
      | tryMalloc n e =>
        have hm : Meets (Heap.tryMalloc n) h (fun _ h' => h' = h) NoFault :=
          Meets.of_run (Heap.tryMalloc_run_of_uninitialized hi n) rfl
        have hm : Meets (Call.tryMalloc n).action h (fun _ h' => h' = h) NoFault :=
          hm.then fun _ _ hq => Meets.pure hq
        exact hm.ok ha
      | malloc n =>
        have hm : Meets (Call.malloc n).action h (fun _ h' => h' = h) NoFault :=
          (Heap.malloc_meets_of_uninitialized hi n).then fun _ _ hq => Meets.pure hq.2
        exact hm.ok ha
      | realloc p hn =>
        obtain ⟨_, hk, _⟩ := hl
        cases hk
  rw [Session.next, hheap, Call.record_of_declined hd]

/-- `Call.Affordable` is the proviso that the cumulative counters stay below `2 ^ 64`. -/
theorem reachable_refusals (hf : Fresh h₀) (hc : h₀.arena.ceiling ≤ maxBlockSize)
    (hr : Reachable h₀ s) :
    (∀ n size, 1 ≤ n → IsLeast {m | 8 ∣ m ∧ n + 8 ≤ m} size →
      (∀ e, s.answer (.tryMalloc n) = .ok (.tried (.error e)) ↔ s.heap.Refuses n size e) ∧
      ((∃ p, s.answer (.tryMalloc n) = .ok (.tried (.ok (some p)))) ↔
        (∀ e, ¬ s.heap.Refuses n size e) ∧ (Call.tryMalloc n).Affordable s.heap)) ∧
    ∀ c a, c.Legal s → c.Declines a → s.answer c = .ok a → s.next c a = s := by
  obtain ⟨hv, hceil⟩ := hr.valid hf
  rw [← hceil] at hc
  have hk : s.heap.initialized = true → s.heap.policy.chunkSize ≤ maxBlockSize := by
    intro hi
    have hfirst := hr.chunk_le hf hi
    obtain ⟨bs, L, hs, -⟩ := hv.sound hi
    have := hs.laid.tiled.within
    omega
  exact ⟨fun n size hn hsize =>
    ⟨hv.refused_iff hc hk hn hsize, hv.granted_iff hc hk (hr.room hf) hn hsize⟩,
    fun c a hl hd ha => hv.next_of_declined hl hd ha⟩

/-- A block of 72 bytes fits neither into the free 48 bytes nor into the rest of the arena, one of 48 bytes does. -/
theorem reachable_refusals_exhausted :
    Session.firstHeld.heap.Refuses 60 72 (.arenaExhausted 72 20) ∧
      (∀ e, ¬ Session.firstHeld.heap.Refuses 40 48 e) ∧
      Session.firstHeld.next (.tryMalloc 60) (.tried (.error (.arenaExhausted 72 20))) = .firstHeld := by
  let s := Session.firstHeld
  have he : s.answer (.tryMalloc 60) = .ok (.tried (.error (.arenaExhausted 72 20))) := by decide +kernel
  have hp : s.answer (.tryMalloc 40) = .ok (.tried (.ok (some ⟨32⟩))) := by decide +kernel
  obtain ⟨hrefused, hsame⟩ := reachable_refusals (.growable 100 _) (by decide) Session.reachable_firstHeld
  obtain ⟨hlarge, -⟩ := hrefused 60 72 (by decide) (isLeast_alignUp 68)
  obtain ⟨-, hsmall⟩ := hrefused 40 48 (by decide) (isLeast_alignUp 48)
  exact ⟨(hlarge _).mp he, (hsmall.mp ⟨_, hp⟩).1, hsame _ _ trivial (.tryMalloc _ _) he⟩

end

end BoundaryTag
