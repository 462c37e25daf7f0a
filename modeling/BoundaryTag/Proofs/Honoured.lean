import BoundaryTag.Proofs.Chronicle
import BoundaryTag.Proofs.Sessions
import BoundaryTag.Proofs.Unready

/-!
# Policies that are built

A policy is built from the standard one by adjustments, which may be given any sizes. They are rounded up,
never down. So a chunk may come out too large to be an address, and one that is too large for a block is left
as it is: no arena has room for such a chunk, as far as initializing goes.

Main statement: `adjustAll_honoured`.
-/

namespace BoundaryTag

namespace Policy

inductive Adjustment where
  | chunk (bytes : Nat)
  | split (bytes : Nat)
  | fit (bytes : Nat)
  | check (level : CheckLevel)
deriving DecidableEq

def adjust (p : Policy) : Adjustment → Except Fault Policy
  | .chunk bytes => p.withChunk bytes
  | .split bytes => .ok (p.withSplit bytes)
  | .fit bytes => .ok (p.withFit bytes)
  | .check level => .ok (p.withCheck level)

def adjustAll (p : Policy) (as : List Adjustment) : Except Fault Policy := as.foldlM adjust p

section
variable {p : Policy} {a : Adjustment} {as : List Adjustment}

theorem adjust_error_iff : (∃ e, p.adjust a = .error e) ↔ ∃ n, a = .chunk n ∧ addressSpace < n + 8 := by
  cases a with
  | chunk n =>
    have hfits : alignUp (max n minBlockSize) < addressSpace ↔ ¬ addressSpace < n + 8 := by
      simp only [alignUp, minBlockSize, addressSpace]
      omega
    by_cases hn : addressSpace < n + 8
    · have he : p.withChunk n = .error .overflow := dif_neg fun h => hfits.mp h hn
      exact ⟨fun _ => ⟨n, rfl, hn⟩, fun _ => ⟨_, he⟩⟩
    · constructor
      · rintro ⟨e, he⟩
        rw [adjust, withChunk, dif_pos (hfits.mpr hn)] at he
        cases he
      · rintro ⟨_, hc, hlt⟩
        cases hc
        exact absurd hlt hn
  | split n | fit n | check level =>
    constructor
    · rintro ⟨_, he⟩
      cases he
    · rintro ⟨_, hc, _⟩
      cases hc

theorem adjustAll_error_iff :
    (∃ e, p.adjustAll as = .error e) ↔ ∃ n, .chunk n ∈ as ∧ addressSpace < n + 8 := by
  -- no adjustment looks at what the ones before it made of the policy
  induction as generalizing p with
  | nil =>
    constructor
    · rintro ⟨_, he⟩
      cases he
    · rintro ⟨_, hn, _⟩
      cases hn
  | cons a as ih =>
    have hfirst := adjust_error_iff (p := p) (a := a)
    rw [adjustAll, List.foldlM_cons]
    cases hp : p.adjust a with
    | error e =>
      obtain ⟨n, rfl, hn⟩ := hfirst.mp ⟨e, hp⟩
      exact ⟨fun _ => ⟨n, List.mem_cons_self, hn⟩, fun _ => ⟨e, rfl⟩⟩
    | ok q =>
      have hno : ¬ ∃ n, a = .chunk n ∧ addressSpace < n + 8 := fun hn => by
        obtain ⟨e, he⟩ := hfirst.mpr hn
        cases hp.symm.trans he
      refine ih.trans ⟨?_, ?_⟩
      · rintro ⟨n, hm, hn⟩
        exact ⟨n, List.mem_cons_of_mem _ hm, hn⟩
      · rintro ⟨n, hm, hn⟩
        rcases List.mem_cons.mp hm with rfl | hm
        · exact absurd ⟨n, rfl, hn⟩ hno
        · exact ⟨n, hm, hn⟩

end

end Policy

/-- Where the arena's growth in a call starts from: initializing puts the sentinels into an empty one. -/
def Session.base (s : Session) : Call → Nat
  | .init => 16
  | _ => s.heap.arena.size

/-- What the heap tells of the call are sizes that a block can have, and the arena grows by what it tells. -/
structure Session.Recounts (s : Session) (c : Call) : Prop where
  sized : ∀ e ∈ (c.action.run s.heap).events, e.Sized
  grows : ∀ a, s.answer c = .ok a → (∀ e, a ≠ .ready (.error e)) →
    (s.next c a).heap.arena.size = s.base c + growth (c.action.run s.heap).events

open HeapM

section
variable {h₀ : Heap} {s : Session} {p : Policy}

theorem Session.answer_init_iff : s.answer .init = .ok (.ready (.ok ())) ↔
    s.heap.policy.chunkSize ≤ maxBlockSize ∧ 16 + s.heap.policy.chunkSize ≤ s.heap.arena.ceiling := by
  have hleast := s.heap.policy.minBlock_le_chunk
  have hready : s.heap.unready? = none ↔ s.heap.policy.chunkSize ≤ maxBlockSize ∧
      16 + s.heap.policy.chunkSize ≤ s.heap.arena.ceiling := by
    rw [Heap.unready?_eq_none_iff]
    simp only [minBlockSize] at hleast
    omega
  obtain ⟨r, hr, -, -, hq⟩ := (Heap.init_meets s.heap).exists_ok
  obtain ⟨ha, -⟩ := Session.answer_of_run (c := .init) (f := .ready) rfl hr
  rw [← hready, ha]
  cases r with
  | error e =>
    constructor
    · rintro ⟨⟩
    · intro hn
      cases hq.1.symm.trans hn
  | ok => exact ⟨fun _ => hq.1, fun _ => rfl⟩

theorem Session.recounts (s : Session) (c : Call) : s.Recounts c := by
  by_cases hc : c = .init
  · subst hc
    obtain ⟨hsized, hgrows⟩ := s.heap.init_chronicle
    have hrun : Call.init.action.run s.heap = ⟨⟨(Heap.init.run s.heap).result.map .ready,
        (Heap.init.run s.heap).events⟩, (Heap.init.run s.heap).heap⟩ := run_bind_pure _ _ _
    refine ⟨fun e he => hsized e (by rwa [hrun] at he), fun a ha hno => ?_⟩
    obtain ⟨r, rfl, hr, hnext⟩ := Session.exists_of_answer (f := .ready) rfl ha
    rw [hnext, hrun]
    cases r with
    | error e => exact absurd rfl (hno e)
    | ok => exact hgrows hr
  · have hm := Call.chronicles_action hc
    refine ⟨hm.sized s.heap, fun a ha _ => ?_⟩
    have hbase : s.base c = s.heap.arena.size := by
      cases c with
      | init => exact absurd rfl hc
      | _ => rfl
    rw [hbase]
    exact hm.complete ha

/-- Building a policy fails for a chunk that cannot be rounded up, and for nothing else. A heap that was built
can be initialized if the chunk is one that a block can have, and the arena has room for it. Whatever is split
off then, or gained, can be a block. -/
theorem adjustAll_honoured (as : List Policy.Adjustment) :
    ((∃ e, Policy.standard.adjustAll as = .error e) ↔ ∃ n, .chunk n ∈ as ∧ addressSpace < n + 8) ∧
      ∀ p h₀, Policy.standard.adjustAll as = .ok p → Fresh h₀ → h₀.policy = p →
        (Session.answer ⟨h₀, []⟩ .init = .ok (.ready (.ok ())) ↔
          p.chunkSize ≤ maxBlockSize ∧ 16 + p.chunkSize ≤ h₀.arena.ceiling) ∧
        ∀ s, Reachable h₀ s → (∀ c, s.Recounts c) ∧ (s.heap.initialized = true →
          ∃ bs, s.heap.blocks = .ok bs ∧ ∀ b ∈ bs, Whole b.size) := by
  refine ⟨Policy.adjustAll_error_iff, ?_⟩
  rintro _ h₀ - hf rfl
  refine ⟨Session.answer_init_iff, fun s hr => ⟨s.recounts, fun hi => ?_⟩⟩
  obtain ⟨bs, L, hs, -⟩ := (hr.valid hf).1.sound hi
  refine ⟨bs, hs.laid.blocks_eq, fun b hb => ?_⟩
  have hp := hs.laid.tiled.tiling.proper hb
  exact ⟨hp.dvd, hp.least⟩

/-- A chunk that is eight bytes more than a block can have is built, and no arena is large enough for it. -/
theorem adjustAll_honoured_large : ∃ p : Policy,
    Policy.standard.adjustAll [.chunk 4294967296] = .ok p ∧
      16 + p.chunkSize ≤ (Arena.growable Arena.maxSize).ceiling ∧
      Session.answer ⟨Heap.new (Arena.growable Arena.maxSize) p, []⟩ .init ≠ .ok (.ready (.ok ())) := by
  let p : Policy :=
    { Policy.standard with
      chunkSize := 4294967296
      chunk_dvd := by decide
      minBlock_le_chunk := by decide
      chunk_lt := by decide }
  have hp : Policy.standard.adjustAll [.chunk 4294967296] = .ok p := rfl
  obtain ⟨-, hbuilt⟩ := adjustAll_honoured [.chunk 4294967296]
  obtain ⟨hready, -⟩ := hbuilt p _ hp (.growable Arena.maxSize p) rfl
  refine ⟨p, hp, by decide, fun ha => ?_⟩
  exact absurd (hready.mp ha).1 (by decide)

end

end BoundaryTag
