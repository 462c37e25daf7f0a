import BoundaryTag.Allocation
import BoundaryTag.Proofs.Refusals
import BoundaryTag.Proofs.Unready

/-!
# Allocations that are live

A client of a heap may keep allocations that remember their size, and use the heap beside them. `Tenancy` says
which sessions it can come to, and which allocations are live then: those whose handle was not taken back.

Main statement: `Tenancy.tenanted`. Such a session is reachable by calls on the heap alone, and every live
allocation has a block with room for all that it was asked for.
-/

namespace BoundaryTag

open HeapM

namespace Session

/-- The allocation has a block of its own, with room for all that it was asked for. -/
def Backs (s : Session) (x : Allocation) : Prop :=
  s.Holds x.handle ∧ ∃ u, s.heap.usableSize x.handle = .ok u ∧ x.size ≤ u

def allocated (s : Session) (n : Nat) (x : Allocation) : Session where
  heap := ((Allocation.new n).run s.heap).heap
  held := (Call.write x.handle 0 (Allocation.marks n)).record .done
    ((Call.malloc n).record (.handle (some x.handle)) s.held)

def resized (s : Session) (x : Allocation) (n : Nat) (y : Allocation) : Session where
  heap := ((x.resize n).run s.heap).heap
  held := (Call.realloc (some x.handle) n).record (.handle (some y.handle)) s.held

def kept (s : Session) (x : Allocation) (n : Nat) : Session where
  heap := ((x.resize n).run s.heap).heap
  held := s.held

/-- The session after the allocation `x` was resized to nothing. -/
def emptied (s : Session) (x : Allocation) : Session where
  heap := ((x.resize 0).run s.heap).heap
  held := Holding.without s.held x.handle

end Session

def Allocation.besides (live : List Allocation) (p : Handle) : List Allocation :=
  live.filter (p ≠ ·.handle)

theorem Allocation.mem_besides {live : List Allocation} {p : Handle} {x : Allocation} :
    x ∈ besides live p ↔ x ∈ live ∧ p ≠ x.handle := by
  rw [besides, List.mem_filter, decide_eq_true_eq]

/-- The sessions of a client that makes allocations, with those that are live. -/
inductive Tenancy (policy : Policy) : Session → List Allocation → Prop where
  | start : Session.answer ⟨Allocation.heap policy, []⟩ .init = .ok (.ready (.ok ())) →
      Tenancy policy (Session.next ⟨Allocation.heap policy, []⟩ .init (.ready (.ok ()))) []
  /-- A call on the heap itself may take back the handles of some allocations. -/
  | call {s : Session} {live live' : List Allocation} {c : Call} {a : Answer} : Tenancy policy s live →
      c.Legal s → s.answer c = .ok a → (∀ x ∈ live', x ∈ live ∧ (s.next c a).Holds x.handle) →
      Tenancy policy (s.next c a) live'
  | allocated {s : Session} {live : List Allocation} {n : Nat} {x : Allocation} : Tenancy policy s live →
      ((Allocation.new n).run s.heap).result = .ok (some x) →
      Tenancy policy (s.allocated n x) (x :: live)
  | refused {s : Session} {live : List Allocation} {n : Nat} : Tenancy policy s live →
      ((Allocation.new n).run s.heap).result = .ok none →
      Tenancy policy ⟨((Allocation.new n).run s.heap).heap, s.held⟩ live
  | resized {s : Session} {live : List Allocation} {n : Nat} {x y : Allocation} : Tenancy policy s live →
      x ∈ live → ((x.resize n).run s.heap).result = .ok (true, y) →
      Tenancy policy (s.resized x n y) (y :: Allocation.besides live x.handle)
  | kept {s : Session} {live : List Allocation} {n : Nat} {x y : Allocation} : Tenancy policy s live →
      x ∈ live → 1 ≤ n ∨ x.mayExhaust n s.heap = .ok true →
      ((x.resize n).run s.heap).result = .ok (false, y) → Tenancy policy (s.kept x n) live
  /-- No bytes are left of the allocation, which is not what it is told. -/
  | emptied {s : Session} {live : List Allocation} {x y : Allocation} : Tenancy policy s live →
      x ∈ live → x.mayExhaust 0 s.heap = .ok false →
      ((x.resize 0).run s.heap).result = .ok (false, y) →
      Tenancy policy (s.emptied x) (Allocation.besides live x.handle)
  | released {s : Session} {live : List Allocation} {x : Allocation} : Tenancy policy s live →
      x ∈ live → (x.release.run s.heap).result = .ok () →
      Tenancy policy ⟨(x.release.run s.heap).heap, Holding.without s.held x.handle⟩
        (Allocation.besides live x.handle)

section
variable {h : Heap} {s : Session} {c : Call} {a : Answer} {x y : Allocation} {p q : Handle} {n : Nat}
  {r : Option Handle}

/-! ## Runs -/

namespace Allocation

theorem size_marks (n : Nat) : (marks n).size = n := by
  induction n with
  | zero => rfl
  | succ n ih =>
    show ((marks n).push mark).size = n + 1
    rw [ByteArray.size_push, ih]

theorem new_eq (n : Nat) : new n = do
    match ← Heap.malloc n with
    | none => return none
    | some p =>
      Heap.writePayload p 0 (marks n)
      return some ⟨p, n⟩ := by
  refine congrArg (Heap.malloc n >>= ·) (funext fun r => ?_)
  cases r with
  | none => rfl
  | some p => simp only [Heap.writePayload, size_marks, LawfulMonad.bind_assoc]

theorem new_cases {r : Option Allocation} (hr : ((new n).run h).result = .ok r) :
    let m := (Heap.malloc n).run h
    (r = none ∧ m.result = .ok none ∧ ((new n).run h).heap = m.heap) ∨
      ∃ p, r = some ⟨p, n⟩ ∧ m.result = .ok (some p) ∧
        let w := (Heap.writePayload p 0 (marks n)).run m.heap
        w.result = .ok () ∧ ((new n).run h).heap = w.heap := by
  rw [new_eq] at hr ⊢
  rcases hm : (Heap.malloc n).run h with ⟨⟨_ | _ | p, es⟩, h'⟩
  · rw [run_bind_of_error hm] at hr
    cases hr
  · rw [run_bind_of_ok hm] at hr ⊢
    cases hr
    exact Or.inl ⟨rfl, rfl, rfl⟩
  · rw [run_bind_of_ok hm] at hr ⊢
    simp only [run_bind_pure (f := fun _ => some (Allocation.mk p n))] at hr ⊢
    cases hw : ((Heap.writePayload p 0 (marks n)).run h').result with
    | error e =>
      rw [hw] at hr
      cases hr
    | ok =>
      rw [hw] at hr
      cases hr
      exact Or.inr ⟨p, rfl, rfl, hw, rfl⟩

def told (x : Allocation) (n : Nat) : Option Handle → Bool × Allocation
  | some p => (true, ⟨p, n⟩)
  | none => (false, x)

theorem resize_eq (x : Allocation) (n : Nat) : x.resize n = do
    if ← read (x.mayExhaust n) then return (false, x)
    else return x.told n (← Heap.realloc (some x.handle) n) := by
  refine congrArg (read (x.mayExhaust n) >>= ·) (funext fun refuse => ?_)
  cases refuse with
  | true => rfl
  | false =>
    refine congrArg (Heap.realloc (some x.handle) n >>= ·) (funext fun r => ?_)
    cases r <;> rfl

theorem resize_run_of_withheld (hg : x.mayExhaust n h = .ok true) :
    (x.resize n).run h = ⟨⟨.ok (false, x), []⟩, h⟩ := by
  have hr : (read (x.mayExhaust n)).run h = ⟨⟨.ok true, []⟩, h⟩ := by rw [run_read, hg]
  rw [resize_eq, run_bind_of_ok hr]
  rfl

theorem resize_run_of_ventured (hg : x.mayExhaust n h = .ok false) :
    (x.resize n).run h =
      ⟨⟨((Heap.realloc (some x.handle) n).run h).result.map (x.told n),
        ((Heap.realloc (some x.handle) n).run h).events⟩,
        ((Heap.realloc (some x.handle) n).run h).heap⟩ := by
  have hr : (read (x.mayExhaust n)).run h = ⟨⟨.ok false, []⟩, h⟩ := by rw [run_read, hg]
  rw [resize_eq, run_bind_of_ok hr, if_neg Bool.false_ne_true, run_bind_pure]
  rfl

theorem resize_cases {done : Bool} (hr : ((x.resize n).run h).result = .ok (done, y)) :
    (x.mayExhaust n h = .ok true ∧ done = false ∧ y = x ∧ ((x.resize n).run h).heap = h) ∨
      ∃ r, x.mayExhaust n h = .ok false ∧ ((Heap.realloc (some x.handle) n).run h).result = .ok r ∧
        (done, y) = x.told n r ∧
        ((x.resize n).run h).heap = ((Heap.realloc (some x.handle) n).run h).heap := by
  rcases hg : x.mayExhaust n h with e | _ | _
  · have hread : (read (x.mayExhaust n)).run h = ⟨⟨.error e, []⟩, h⟩ := by rw [run_read, hg]
    rw [resize_eq, run_bind_of_error hread] at hr
    cases hr
  · rw [resize_run_of_ventured hg] at hr ⊢
    cases hrun : ((Heap.realloc (some x.handle) n).run h).result with
    | error e =>
      rw [hrun] at hr
      cases hr
    | ok r =>
      rw [hrun] at hr
      exact Or.inr ⟨r, rfl, rfl, (Except.ok.inj hr).symm, rfl⟩
  · rw [resize_run_of_withheld hg] at hr ⊢
    cases hr
    exact Or.inl ⟨rfl, rfl, rfl, rfl⟩

end Allocation

/-! ## Handles that are kept -/

theorem Holding.not_mem_without {held : List Holding} : ¬ ∃ k ∈ Holding.without held p, k.handle = p := by
  rintro ⟨k, hk, hkp⟩
  exact of_decide_eq_true (List.mem_filter.mp hk).2 hkp

theorem Holding.eq_of_mem_revise {held : List Holding} {f : Holding → Holding}
    (hf : ∀ k, (f k).handle = q) (hp : ∃ k ∈ Holding.revise held p f, k.handle = p) : q = p := by
  obtain ⟨k, hk, hkp⟩ := hp
  rcases List.mem_append.mp hk with hk | hk
  · obtain ⟨j, -, rfl⟩ := Option.mem_map.mp (Option.mem_toList.mp hk)
    exact (hf j).symm.trans hkp
  · exact absurd ⟨k, hk, hkp⟩ Holding.not_mem_without

theorem Holding.exists_mem_revise {held : List Holding} {f : Holding → Holding}
    (hp : ∃ k ∈ held, k.handle = p) : ∃ k, f k ∈ Holding.revise held p f := by
  obtain ⟨k, hk, hkp⟩ := hp
  have hfind : (held.find? (·.handle = p)).isSome := List.find?_isSome.mpr ⟨k, hk, by simpa using hkp⟩
  obtain ⟨j, hj⟩ := Option.isSome_iff_exists.mp hfind
  exact ⟨j, by rw [revise_of_find hj]; exact List.mem_cons_self⟩

theorem Session.Valid.usable_le (hv : s.Valid) (hp : s.Holds p)
    (ha : s.answer (.realloc (some p) n) = .ok (.handle (some q))) :
    ∃ u v, s.heap.usableSize p = .ok u ∧
      (s.next (.realloc (some p) n) (.handle (some q))).heap.usableSize q = .ok v ∧ u ≤ v := by
  cases hv with
  | idle =>
    obtain ⟨_, hk, _⟩ := hp
    cases hk
  | @live h bs L held hs hh =>
    obtain ⟨_, bs', hadv⟩ := (Call.action_meets (c := .realloc (some p) n) hs hh hp nofun).ok ha
    obtain ⟨L', hs'⟩ := hadv.sound
    obtain ⟨b, hb, d, hd, hpb, hqd, hle, -⟩ := hadv.moved p n q rfl rfl
    exact ⟨_, _, hs.laid.usableSize_eq (mem_allocatedBlocks.mp hb).1 hpb,
      hs'.laid.usableSize_eq (mem_allocatedBlocks.mp hd).1 hqd, by omega⟩

theorem Session.Valid.backs_spared (hv : s.Valid) (hl : c.Legal s) (ha : s.answer c = .ok a)
    (hb : s.Backs x) (hs : c.Spares x.handle) : (s.next c a).Backs x := by
  obtain ⟨hx, u, hu, hle⟩ := hb
  obtain ⟨hx', hu'⟩ := (hv.carried hl ha).spared _ hx hs
  exact ⟨hx', u, hu'.trans hu, hle⟩

theorem Session.Valid.backs_next (hv : s.Valid) (hl : c.Legal s) (ha : s.answer c = .ok a)
    (hb : s.Backs x) (hk : (s.next c a).Holds x.handle) : (s.next c a).Backs x := by
  by_cases hs : c.Spares x.handle
  · exact hv.backs_spared hl ha hb hs
  · obtain ⟨hx, u, hu, hle⟩ := hb
    refine ⟨hk, ?_⟩
    -- what does not spare the handle takes it back, but for a reallocation that leaves the block in its place
    cases c with
    | init =>
      obtain ⟨_, hk, -⟩ := hk
      cases hk
    | free p =>
      obtain rfl : p = x.handle := by_contra hs
      exact absurd hk Holding.not_mem_without
    | realloc p n =>
      cases p with
      | none => exact absurd trivial hs
      | some p =>
        obtain rfl : p = x.handle := by_contra hs
        obtain ⟨r, rfl, -⟩ := Session.exists_of_answer (f := .handle) rfl ha
        cases r with
        | some q =>
          obtain rfl : q = x.handle := Holding.eq_of_mem_revise (fun _ => rfl) hk
          obtain ⟨u', v, hu', hv', hgrew⟩ := hv.usable_le hx ha
          cases hu'.symm.trans hu
          exact ⟨v, hv', Nat.le_trans hle hgrew⟩
        | none =>
          rcases Nat.eq_zero_or_pos n with rfl | hn
          · exact absurd hk Holding.not_mem_without
          · rw [hv.next_of_declined hl (.realloc _ hn) ha]
            exact ⟨u, hu, hle⟩
    | setCheck | malloc | tryMalloc | write | read | check => exact absurd trivial hs

theorem Session.Valid.backs_of_mem (hv : s.Valid) {k : Holding} (hk : k ∈ s.held) :
    s.Backs ⟨k.handle, k.size⟩ := ⟨⟨k, hk, rfl⟩, hv.isolated.large k hk⟩

/-! ## Tenancies -/

variable {h₀ : Heap} {policy : Policy} {live live' : List Allocation}

/-- Calls on the heap lead to the session, and all of the allocations have their blocks there. -/
structure Tenanted (h₀ : Heap) (s : Session) (live : List Allocation) : Prop where
  reachable : Reachable h₀ s
  backed : ∀ x ∈ live, s.Backs x

namespace Tenanted

theorem call (ht : Tenanted h₀ s live) (hf : Fresh h₀) (hl : c.Legal s) (ha : s.answer c = .ok a)
    (hsub : ∀ x ∈ live', x ∈ live ∧ (s.next c a).Holds x.handle) : Tenanted h₀ (s.next c a) live' where
  reachable := .step ht.reachable hl ha
  backed x hx := (ht.reachable.valid hf).1.backs_next hl ha (ht.backed x (hsub x hx).1) (hsub x hx).2

theorem sparing (ht : Tenanted h₀ s live) (hf : Fresh h₀) (hl : c.Legal s) (ha : s.answer c = .ok a)
    (hsub : ∀ x ∈ live', x ∈ live ∧ c.Spares x.handle) : Tenanted h₀ (s.next c a) live' where
  reachable := .step ht.reachable hl ha
  backed x hx := (ht.reachable.valid hf).1.backs_spared hl ha (ht.backed x (hsub x hx).1) (hsub x hx).2

theorem allocated (ht : Tenanted h₀ s live) (hf : Fresh h₀)
    (hr : ((Allocation.new n).run s.heap).result = .ok (some x)) :
    Tenanted h₀ (s.allocated n x) (x :: live) := by
  obtain ⟨hx, -, -⟩ | ⟨p, hx, hm, hw, hheap⟩ := Allocation.new_cases hr
  · cases hx
  · cases hx
    -- two calls: once the block is held, it can be written to
    obtain ⟨ha, hnext⟩ := Session.answer_of_run (c := .malloc n) (f := .handle) rfl hm
    let t := s.next (.malloc n) (.handle (some p))
    have hv : t.Valid := ((ht.reachable.valid hf).1.next (c := .malloc n) trivial ha).1
    have hk : ({ handle := p, size := n } : Holding) ∈ t.held := List.mem_cons_self
    have hbacks : t.Backs ⟨p, n⟩ := hv.backs_of_mem hk
    have htt : Tenanted h₀ t (⟨p, n⟩ :: live) :=
      ⟨.step ht.reachable trivial ha, List.forall_mem_cons.mpr ⟨hbacks, fun z hz =>
        (ht.reachable.valid hf).1.backs_spared trivial ha (ht.backed z hz) trivial⟩⟩
    have hlegal : Call.Legal t (.write p 0 (Allocation.marks n)) := by
      obtain ⟨hp, u, hu, hle⟩ := hbacks
      exact ⟨hp, u, hu, by rw [Allocation.size_marks, Nat.zero_add]; exact hle⟩
    have htheap : t.heap = ((Heap.malloc n).run s.heap).heap := congrArg Session.heap hnext
    rw [← htheap] at hw hheap
    obtain ⟨ha', hnext'⟩ := Session.answer_of_run (c := .write p 0 (Allocation.marks n))
      (f := fun _ => .done) rfl hw
    have hs : s.allocated n ⟨p, n⟩ = t.next (.write p 0 (Allocation.marks n)) .done := by
      rw [hnext', Session.allocated, hheap]
      rfl
    rw [hs]
    exact htt.sparing hf hlegal ha' fun z hz => ⟨hz, trivial⟩

theorem refused (ht : Tenanted h₀ s live) (hf : Fresh h₀)
    (hr : ((Allocation.new n).run s.heap).result = .ok none) :
    Tenanted h₀ ⟨((Allocation.new n).run s.heap).heap, s.held⟩ live := by
  obtain ⟨-, hm, hheap⟩ | ⟨_, hx, -⟩ := Allocation.new_cases hr
  · obtain ⟨ha, hnext⟩ := Session.answer_of_run (c := .malloc n) (f := .handle) rfl hm
    have ht' := ht.sparing hf (c := .malloc n) trivial ha fun z hz => ⟨hz, trivial⟩
    rwa [hnext, ← hheap] at ht'
  · cases hx

theorem resized (ht : Tenanted h₀ s live) (hf : Fresh h₀) (hx : x ∈ live)
    (hr : ((x.resize n).run s.heap).result = .ok (true, y)) :
    Tenanted h₀ (s.resized x n y) (y :: Allocation.besides live x.handle) := by
  obtain ⟨-, hd, -⟩ | ⟨r, -, hrun, htold, hheap⟩ := Allocation.resize_cases hr
  · cases hd
  · obtain ⟨ha, hnext⟩ := Session.answer_of_run (c := .realloc (some x.handle) n) (f := .handle) rfl hrun
    cases r with
    | none => cases htold
    | some q =>
      cases htold
      have hl : Call.Legal s (.realloc (some x.handle) n) := (ht.backed x hx).1
      have hs : s.resized x n ⟨q, n⟩ = s.next (.realloc (some x.handle) n) (.handle (some q)) := by
        rw [hnext, Session.resized, hheap]
      have hothers := ht.sparing hf hl ha fun _ => Allocation.mem_besides.mp
      rw [hs]
      refine ⟨hothers.reachable, List.forall_mem_cons.mpr ⟨?_, hothers.backed⟩⟩
      obtain ⟨k, hk⟩ := Holding.exists_mem_revise (f := fun k => { k with handle := q, size := n }) hl
      exact (hothers.reachable.valid hf).1.backs_of_mem hk

theorem kept_eq (ht : Tenanted h₀ s live) (hf : Fresh h₀) (hx : x ∈ live)
    (hn : 1 ≤ n ∨ x.mayExhaust n s.heap = .ok true)
    (hr : ((x.resize n).run s.heap).result = .ok (false, y)) : s.kept x n = s := by
  obtain ⟨-, -, -, hheap⟩ | ⟨r, hg, hrun, htold, hheap⟩ := Allocation.resize_cases hr
  · rw [Session.kept, hheap]
  · obtain ⟨ha, hnext⟩ := Session.answer_of_run (c := .realloc (some x.handle) n) (f := .handle) rfl hrun
    cases r with
    | some q => cases htold
    | none =>
      obtain hn | hg' := hn
      · have hsame := (ht.reachable.valid hf).1.next_of_declined (c := .realloc (some x.handle) n)
          (ht.backed x hx).1 (.realloc _ hn) ha
        have hsame : ((Heap.realloc (some x.handle) n).run s.heap).heap = s.heap :=
          congrArg Session.heap (hnext.symm.trans hsame)
        rw [Session.kept, hheap, hsame]
      · cases hg'.symm.trans hg

theorem emptied (ht : Tenanted h₀ s live) (hf : Fresh h₀) (hx : x ∈ live)
    (hg : x.mayExhaust 0 s.heap = .ok false) (hr : ((x.resize 0).run s.heap).result = .ok (false, y)) :
    Tenanted h₀ (s.emptied x) (Allocation.besides live x.handle) := by
  obtain ⟨hg', -⟩ | ⟨r, -, hrun, htold, hheap⟩ := Allocation.resize_cases hr
  · cases hg'.symm.trans hg
  · obtain ⟨ha, hnext⟩ := Session.answer_of_run (c := .realloc (some x.handle) 0) (f := .handle) rfl hrun
    cases r with
    | some q => cases htold
    | none =>
      have hs : s.emptied x = s.next (.realloc (some x.handle) 0) (.handle none) := by
        rw [hnext, Session.emptied, hheap]
        rfl
      rw [hs]
      exact ht.sparing hf (ht.backed x hx).1 ha fun _ => Allocation.mem_besides.mp

theorem released (ht : Tenanted h₀ s live) (hf : Fresh h₀) (hx : x ∈ live)
    (hr : (x.release.run s.heap).result = .ok ()) :
    Tenanted h₀ ⟨(x.release.run s.heap).heap, Holding.without s.held x.handle⟩
      (Allocation.besides live x.handle) := by
  obtain ⟨ha, hnext⟩ := Session.answer_of_run (c := .free x.handle) (f := fun _ => .done) rfl hr
  have ht' := ht.sparing hf (c := .free x.handle) (ht.backed x hx).1 ha fun _ => Allocation.mem_besides.mp
  rwa [hnext] at ht'

end Tenanted

theorem Tenancy.tenanted (ht : Tenancy policy s live) : Tenanted (Allocation.heap policy) s live := by
  have hf : Fresh (Allocation.heap policy) := .growable _ _
  induction ht with
  | start ha => exact ⟨.step .start trivial ha, fun _ hx => nomatch hx⟩
  | call _ hl ha hsub ih => exact ih.call hf hl ha hsub
  | allocated _ hr ih => exact ih.allocated hf hr
  | refused _ hr ih => exact ih.refused hf hr
  | resized _ hx hr ih => exact ih.resized hf hx hr
  | kept _ hx hn hr ih => rwa [ih.kept_eq hf hx hn hr]
  | emptied _ hx hg hr ih => exact ih.emptied hf hx hg hr
  | released _ hx hr ih => exact ih.released hf hx hr

/-! ## First allocations -/

theorem heapLimit_le : Allocation.heapLimit ≤ maxBlockSize := by decide

theorem Allocation.new_meets {bs : List Block} {L : List Nat} (hs : Sound h bs L) (hn : 1 ≤ n) :
    Meets (new n) h
      (fun r h' => match h.denied? bs n with
        | some _ => r = none ∧ h' = h
        | none => ∃ q, r = some ⟨q, n⟩ ∧ h'.policy = h.policy)
      (fun e _ => Strained h e) := by
  rw [new_eq]
  refine (Heap.malloc_meets hs hn).seq (fun _ _ => And.right) ?_
  cases h.denied? bs n with
  | some e =>
    rintro _ _ ⟨rfl, rfl⟩
    exact Meets.pure ⟨rfl, rfl⟩
  | none =>
    rintro _ h' ⟨q, rfl, hq⟩
    obtain ⟨size, zs, c, ws, L', hsize, rfl, hc, hle, hs', -, hf⟩ := (hq.served hs.laid.tiled).block
    have hroom : 0 + (marks n).size ≤ c.size - 8 := by
      have := (blockSizeFor_spec hsize).2.1
      rw [size_marks]
      omega
    refine ((Heap.writePayload_meets hs' rfl hroom).of_noFault fun _ _ => id).seq (fun _ _ => id) ?_
    rintro _ h'' ⟨-, hf', -⟩
    exact Meets.pure ⟨_, rfl, hf'.policy.trans hf.policy⟩

theorem exists_tenancy {need : Nat} (hk : 16 + policy.chunkSize ≤ Allocation.heapLimit) (hn : 1 ≤ n)
    (hsize : blockSizeFor n = .ok need) (hle : need ≤ policy.chunkSize) :
    ∃ (s : Session) (x : Allocation), Tenancy policy s [x] ∧ x.size = n ∧ s.heap.policy = policy := by
  let h₀ := Allocation.heap policy
  have hceil₀ : h₀.arena.ceiling = Allocation.heapLimit := rfl
  have hready : h₀.unready? = none := by
    have := heapLimit_le
    have hpolicy : h₀.policy = policy := rfl
    rw [Heap.unready?_eq_none_iff, hpolicy, hceil₀]
    omega
  obtain ⟨r, hinit, hpol, hceil, hr⟩ := (Heap.init_meets h₀).exists_ok
  cases r with
  | error e => cases hr.1.symm.trans hready
  | ok =>
    obtain ⟨-, hl, hcnt⟩ := hr
    have hs := hl.sound_chunk policy.minBlock_le_chunk hcnt
    obtain ⟨ha, hnext⟩ := Session.answer_of_run (s := ⟨h₀, []⟩) (c := .init) (f := .ready) rfl hinit
    have hstart : Tenancy policy _ [] := .start ha
    rw [hnext] at hstart
    have hdenied : (Heap.init.run h₀).heap.denied? [⟨16, h₀.policy.chunkSize, false⟩] n = none := by
      rw [Heap.denied?, hsize]
      exact Heap.shortage?_eq_none_of_fit (List.mem_singleton_self _) rfl hle
    have hlimit : (Heap.init.run h₀).heap.arena.ceiling ≤ maxBlockSize := hceil.trans_le heapLimit_le
    have hcounters : ¬ Overcounted (Heap.init.run h₀).heap := by
      have hnone : ¬ (addressSpace ≤ 0 + 1 ∨ addressSpace ≤ 0 + Arena.maxSize) := by decide
      rw [Overcounted, hcnt]
      exact hnone
    obtain ⟨_, hnew, hx⟩ := ((Allocation.new_meets hs hn).mono (fun _ _ => id)
      fun e _ he => he.elim (not_oversize hlimit e) fun he => hcounters he.2).exists_ok
    rw [hdenied] at hx
    obtain ⟨q, rfl, hpol'⟩ := hx
    exact ⟨_, _, .allocated hstart hnew, rfl, hpol'.trans hpol⟩

end

end BoundaryTag
