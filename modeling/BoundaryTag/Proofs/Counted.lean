import BoundaryTag.Heap.Blocks
import BoundaryTag.Proofs.Laid
import Mathlib.Data.List.Perm.Basic

/-!
# Counters

`Counted h bs` says that the counters of the heap `h` agree with its blocks `bs`: the current figures
count the allocated blocks and the arena. These figures cannot overflow, as the arena is too small for
that. The cumulative ones can: `Overcounted` heaps are those that have counted almost to the limit.
-/

namespace BoundaryTag

/-! ## What each record adds -/

namespace Counters

def extended (c : Counters) (n : Nat) : Counters :=
  { c with claimed := c.claimed + n, extensions := c.extensions + 1 }

def charged (c : Counters) (payload : Nat) : Counters :=
  { c with
    allocations := c.allocations + 1
    allocated := c.allocated + payload
    totalAllocations := c.totalAllocations + 1
    totalAllocated := c.totalAllocated + payload }

def released (c : Counters) (payload : Nat) : Counters :=
  { c with allocations := c.allocations - 1, allocated := c.allocated - payload }

def grown (c : Counters) (growth : Nat) : Counters :=
  { c with
    allocated := c.allocated + growth
    totalAllocated := c.totalAllocated + growth }

section
variable (c : Counters) (n old new : Nat)

theorem recordExtension_cases :
    (recordExtension n).run c = .ok () (c.extended n) ∨
      ¬ (c.claimed + n < addressSpace ∧ c.extensions + 1 < addressSpace) ∧
        ∃ c', (recordExtension n).run c = .error .overflow c' := by
  by_cases h₁ : c.claimed + n < addressSpace <;> by_cases h₂ : c.extensions + 1 < addressSpace <;>
    simp [recordExtension, Address.within, extended, h₁, h₂]

/-- The allocation is counted off before its bytes are, and stays so if these are too many. -/
theorem recordFree_cases :
    (1 ≤ c.allocations ∧ n ≤ c.allocated) ∧ (recordFree n).run c = .ok () (c.released n) ∨
      (1 ≤ c.allocations ∧ c.allocated < n) ∧
          (recordFree n).run c = .error .overflow { c with allocations := c.allocations - 1 } ∨
        c.allocations = 0 ∧ (recordFree n).run c = .error .overflow c := by
  rcases Nat.eq_zero_or_pos c.allocations with h₁ | (h₁ : 1 ≤ c.allocations)
  · exact Or.inr (Or.inr ⟨h₁, by simp [recordFree, Address.sub, h₁]⟩)
  rcases Nat.lt_or_ge c.allocated n with h₂ | h₂
  · exact Or.inr (Or.inl ⟨⟨h₁, h₂⟩, by simp [recordFree, Address.sub, h₁, Nat.not_le.mpr h₂]⟩)
  · exact Or.inl ⟨⟨h₁, h₂⟩, by simp [recordFree, Address.sub, released, h₁, h₂]⟩

theorem recordAlloc_cases :
    (recordAlloc n).run c = .ok () (c.charged n) ∨
      ¬ ((c.allocations + 1 < addressSpace ∧ c.allocated + n < addressSpace) ∧
          c.totalAllocations + 1 < addressSpace ∧ c.totalAllocated + n < addressSpace) ∧
        ∃ c', (recordAlloc n).run c = .error .overflow c' := by
  by_cases h₁ : c.allocations + 1 < addressSpace <;> by_cases h₂ : c.allocated + n < addressSpace <;>
    by_cases h₃ : c.totalAllocations + 1 < addressSpace <;>
    by_cases h₄ : c.totalAllocated + n < addressSpace <;>
    simp [recordAlloc, Address.within, charged, h₁, h₂, h₃, h₄]

theorem within_add_sub (m : Nat) : (do Address.within (m + (← Address.sub new old))) =
    if old ≤ new ∧ m + (new - old) < addressSpace then .ok (m + (new - old)) else .error .overflow := by
  by_cases h : old ≤ new
  · have hsub : Address.sub new old = .ok (new - old) := Address.sub_eq_ok_iff.mpr ⟨h, rfl⟩
    rw [hsub]
    show Address.within (m + (new - old)) = _
    simp only [Address.within, h, true_and]
  · have hsub : Address.sub new old = .error .overflow := if_neg h
    rw [hsub, if_neg fun hc => h hc.1]
    rfl

theorem recordGrowth_cases :
    (recordGrowth old new).run c = .ok () (c.grown (new - old)) ∨
      ¬ ((old ≤ new ∧ c.allocated + (new - old) < addressSpace) ∧
          c.totalAllocated + (new - old) < addressSpace) ∧
        ∃ c', (recordGrowth old new).run c = .error .overflow c' := by
  by_cases h₁ : old ≤ new <;> by_cases h₂ : c.allocated + (new - old) < addressSpace <;>
    by_cases h₃ : c.totalAllocated + (new - old) < addressSpace <;>
    simp [recordGrowth, within_add_sub, grown, h₁, h₂, h₃]

end

section
variable {m : EStateM Fault Counters Unit} {c c' d : Counters} {p : Prop} {n old new : Nat}

theorem eq_of_run_ok (hm : m.run c = .ok () d ∨ ¬ p ∧ ∃ c', m.run c = .error .overflow c')
    (h : m.run c = .ok () c') : c' = d := by
  obtain hok | ⟨-, _, hfault⟩ := hm
  · exact (EStateM.Result.ok.inj (h.symm.trans hok)).2
  · cases h.symm.trans hfault

theorem eq_extended (h : (recordExtension n).run c = .ok () c') : c' = c.extended n :=
  eq_of_run_ok (c.recordExtension_cases n) h

theorem eq_charged (h : (recordAlloc n).run c = .ok () c') : c' = c.charged n :=
  eq_of_run_ok (c.recordAlloc_cases n) h

theorem eq_grown (h : (recordGrowth old new).run c = .ok () c') : c' = c.grown (new - old) :=
  eq_of_run_ok (c.recordGrowth_cases old new) h

theorem eq_released (h : (recordFree n).run c = .ok () c') :
    (1 ≤ c.allocations ∧ n ≤ c.allocated) ∧ c' = c.released n := by
  obtain ⟨hle, hok⟩ | ⟨-, hfault⟩ | ⟨-, hfault⟩ := c.recordFree_cases n
  · exact ⟨hle, (EStateM.Result.ok.inj (h.symm.trans hok)).2⟩
  · cases h.symm.trans hfault
  · cases h.symm.trans hfault

end

end Counters

/-! ## Counted heaps -/

/-- The counters account for the arena. Each extension added at least a smallest block. -/
structure Metered (h : Heap) : Prop where
  claimed : h.counters.claimed = h.arena.size
  extensions : h.counters.extensions * 16 ≤ h.counters.claimed

/-- Payload bytes of the allocated blocks. -/
def payloads (bs : List Block) : Nat := ((allocatedBlocks bs).map (·.size - 8)).sum

structure Counted (h : Heap) (bs : List Block) : Prop extends Metered h where
  allocations : h.counters.allocations = (allocatedBlocks bs).length
  allocated : h.counters.allocated = payloads bs

/-- The cumulative counters may not hold another allocation. -/
def Overcounted (h : Heap) : Prop :=
  addressSpace ≤ h.counters.totalAllocations + 1 ∨
    addressSpace ≤ h.counters.totalAllocated + Arena.maxSize

/-- A block came out too large for a tag, though there is room for it between the sentinels. -/
def Oversize (h : Heap) (e : Fault) : Prop :=
  ∃ n, e = .oversized n ∧ maxBlockSize < n ∧ 8 ∣ n ∧ 16 + n ≤ h.arena.ceiling

theorem not_oversize {h : Heap} (hc : h.arena.ceiling ≤ maxBlockSize) (e : Fault) : ¬ Oversize h e := by
  rintro ⟨n, -, hlt, -, hle⟩
  omega

/-- The faults that a heap in order may run into while it allocates. -/
def Strained (h : Heap) (e : Fault) : Prop := Oversize h e ∨ e = .overflow ∧ Overcounted h

section
variable {i e : Nat} {bs xs ys : List Block} {b : Block}

theorem sum_sizes {cs : List Block} (hp : ∀ b ∈ cs, b.Proper) :
    (cs.map (·.size)).sum = (cs.map (·.size - 8)).sum + 8 * cs.length := by
  induction cs with
  | nil => rfl
  | cons b cs ih =>
    obtain ⟨hb, hcs⟩ := List.forall_mem_cons.mp hp
    have := ih hcs
    have := hb.least
    simp only [List.map_cons, List.sum_cons, List.length_cons]
    omega

theorem Tiling.sum_allocated (h : Tiling i bs e) :
    ((allocatedBlocks bs).map (·.size)).sum = payloads bs + 8 * (allocatedBlocks bs).length :=
  sum_sizes fun _ hb => h.proper (mem_allocatedBlocks.mp hb).1

theorem Tiling.sum_allocated_add_free (h : Tiling i bs e) :
    i + ((allocatedBlocks bs).map (·.size)).sum + ((freeBlocks bs).map (·.size)).sum = e := by
  have hp := ((allocatedBlocks_append_freeBlocks_perm bs).map (·.size)).sum_nat
  rw [List.map_append, List.sum_append] at hp
  rw [h.end_eq, ← hp, Nat.add_assoc]

theorem Tiling.payloads_le (h : Tiling i bs e) :
    payloads bs + 8 * (allocatedBlocks bs).length ≤ e - i := by
  have := h.sum_allocated
  have := h.sum_allocated_add_free
  omega

end

theorem Laid.recount {h : Heap} {bs : List Block} {L : List Nat} (hl : Laid h bs L) (c : Counters) :
    Laid { h with counters := c } bs L :=
  ⟨hl.initialized, hl.tiled, hl.list, hl.table, hl.listed⟩

section
variable {h h' : Heap} {bs bs' rest : List Block} {b c : Block}

theorem payloads_perm {cs : List Block} (hp : (allocatedBlocks bs).Perm cs) :
    payloads bs = (cs.map (·.size - 8)).sum := (hp.map _).sum_nat

theorem Counted.charged (hc : Counted h bs) (he : h'.counters = h.counters.charged (c.size - 8))
    (ha : h'.arena.size = h.arena.size)
    (hp : (allocatedBlocks bs').Perm (c :: allocatedBlocks bs)) : Counted h' bs' := by
  refine ⟨⟨?_, ?_⟩, ?_, ?_⟩ <;> rw [he]
  · exact hc.claimed.trans ha.symm
  · exact hc.extensions
  · rw [hp.length_eq, List.length_cons, ← hc.allocations]
    rfl
  · rw [payloads_perm hp, List.map_cons, List.sum_cons, Nat.add_comm]
    exact congrArg (· + (c.size - 8)) hc.allocated

theorem Counted.recordFree_run (hc : Counted h bs) (hp : (allocatedBlocks bs).Perm (c :: rest)) :
    (Counters.recordFree (c.size - 8)).run h.counters = .ok () (h.counters.released (c.size - 8)) := by
  have hn := hc.allocations
  have hs := hc.allocated
  rw [hp.length_eq, List.length_cons] at hn
  rw [payloads_perm hp, List.map_cons, List.sum_cons] at hs
  obtain ⟨-, hok⟩ | ⟨⟨_, _⟩, -⟩ | ⟨_, -⟩ := h.counters.recordFree_cases (c.size - 8)
  · exact hok
  · omega
  · omega

theorem Counted.released (hc : Counted h bs) (he : h'.counters = h.counters.released (c.size - 8))
    (ha : h'.arena.size = h.arena.size)
    (hp : (allocatedBlocks bs).Perm (c :: allocatedBlocks bs')) : Counted h' bs' := by
  have hn := hc.allocations
  have hs := hc.allocated
  rw [hp.length_eq, List.length_cons] at hn
  rw [payloads_perm hp, List.map_cons, List.sum_cons] at hs
  refine ⟨⟨?_, ?_⟩, ?_, ?_⟩ <;> rw [he]
  · exact hc.claimed.trans ha.symm
  · exact hc.extensions
  · simp only [Counters.released]
    omega
  · simp only [Counters.released, payloads]
    omega

theorem Counted.grown (hc : Counted h bs)
    (he : h'.counters = h.counters.grown (c.size - 8 - (b.size - 8)))
    (ha : h'.arena.size = h.arena.size) (hle : b.size ≤ c.size)
    (hp : (allocatedBlocks bs).Perm (b :: rest)) (hp' : (allocatedBlocks bs').Perm (c :: rest)) :
    Counted h' bs' := by
  have hn := hc.allocations
  have hs := hc.allocated
  rw [hp.length_eq, List.length_cons] at hn
  rw [payloads_perm hp, List.map_cons, List.sum_cons] at hs
  refine ⟨⟨?_, ?_⟩, ?_, ?_⟩ <;> rw [he]
  · exact hc.claimed.trans ha.symm
  · exact hc.extensions
  · rw [hp'.length_eq, List.length_cons]
    exact hn
  · rw [payloads_perm hp', List.map_cons, List.sum_cons]
    simp only [Counters.grown]
    omega

end

/-! ## What the counters say -/

section
variable {h : Heap} {bs cs : List Block} {L os : List Nat}

theorem mapM_of_forall₂ {α β ε : Type} {f : α → Except ε β} {as : List α} {bs : List β}
    (h : List.Forall₂ (fun a b => f a = .ok b) as bs) : as.mapM f = .ok bs := by
  induction h with
  | nil => rfl
  | cons hb _ ih =>
    rw [List.mapM_cons, hb, ih]
    rfl

theorem Laid.mapM_payloads (hl : Laid h bs L) (hc : cs ⊆ bs) (hp : os.Perm (cs.map (·.offset))) :
    ∃ sizes, (os.mapM fun o => do Address.sub (← h.blockSize o) overhead) = .ok sizes ∧
      sizes.Perm (cs.map (·.size - 8)) := by
  have hread : ∀ c ∈ cs, (do Address.sub (← h.blockSize c.offset) overhead) = .ok (c.size - 8) := by
    intro c hcm
    rw [hl.tiled.blockSize (hc hcm)]
    exact (hl.tiled.tiling.proper (hc hcm)).sub_overhead
  have hall : List.Forall₂ (fun o n => (do Address.sub (← h.blockSize o) overhead) = .ok n)
      (cs.map (·.offset)) (cs.map (·.size - 8)) := by
    rw [List.forall₂_map_left_iff, List.forall₂_map_right_iff]
    exact List.forall₂_same.mpr hread
  obtain ⟨sizes, hsizes, hperm⟩ := List.perm_comp_forall₂ hp hall
  exact ⟨sizes, mapM_of_forall₂ hsizes, hperm⟩

/-- What the counters say when they are asked: the figures on the free blocks are filled in. -/
theorem Laid.usage_eq_counters (hl : Laid h bs L) : h.usage = .ok { h.counters with
    available := ((freeBlocks bs).map (·.size - 8)).sum
    fragments := (freeBlocks bs).length
    tableBytes := h.freeList.tableBytes } := by
  obtain ⟨sizes, hsizes, hperm⟩ := hl.mapM_payloads
    (fun _ hb => (mem_freeBlocks.mp hb).1) (hl.list.toList_eq ▸ hl.listed)
  have hsum : sizes.foldr (· + ·) 0 = _ := hperm.sum_nat
  rw [Heap.usage, hsizes]
  show Except.ok { h.counters with
    available := sizes.foldr (· + ·) 0
    fragments := sizes.length
    tableBytes := h.freeList.tableBytes } = _
  rw [hsum, hperm.length_eq, List.length_map]

end

theorem Counted.bounded {h : Heap} {bs : List Block} (hc : Counted h bs) (ht : Tiled h.arena bs) :
    h.counters.allocations ≤ Arena.maxSize ∧ h.counters.allocated ≤ Arena.maxSize := by
  have hle := ht.tiling.payloads_le
  have := hc.allocations
  have := hc.allocated
  have := ht.bounded
  omega

namespace Heap

open HeapM

variable {h : Heap} {n old new : Nat}

theorem account_meets {m : EStateM Fault Counters Unit} {c : Counters}
    (hm : m.run h.counters = .ok () c) :
    Meets (account m) h (fun _ h' => h' = { h with counters := c }) NoFault :=
  Meets.of_run (account_run_of_ok hm) rfl

/-- Where only cumulative counters can overflow, a record is made or the heap has counted too much. -/
theorem record_meets {m : EStateM Fault Counters Unit} {d : Counters} {p : Prop}
    (hm : m.run h.counters = .ok () d ∨ ¬ p ∧ ∃ c, m.run h.counters = .error .overflow c)
    (hp : ¬ p → Overcounted h) :
    Meets (account m) h
      (fun _ h' => m.run h.counters = .ok () h'.counters ∧ h' = { h with counters := d })
      (fun e h' => m.run h.counters = .error e h'.counters ∧
        e = .overflow ∧ Overcounted h ∧ ∃ c, h' = { h with counters := c }) := by
  obtain hok | ⟨hn, c, hfault⟩ := hm
  · exact Meets.of_run (account_run_of_ok hok) ⟨hok, rfl⟩
  · exact Meets.of_run_error (account_run_of_error hfault) ⟨hfault, rfl, hp hn, c, rfl⟩

theorem charge_meets (hc : h.counters.allocations ≤ Arena.maxSize)
    (ha : h.counters.allocated ≤ Arena.maxSize) (hn : n ≤ Arena.maxSize) :
    Meets (account (Counters.recordAlloc n)) h
      (fun _ h' => (Counters.recordAlloc n).run h.counters = .ok () h'.counters ∧
        h' = { h with counters := h.counters.charged n })
      (fun e h' => (Counters.recordAlloc n).run h.counters = .error e h'.counters ∧
        e = .overflow ∧ Overcounted h ∧ ∃ c, h' = { h with counters := c }) := by
  have hmx : Arena.maxSize + Arena.maxSize + 1 < addressSpace := by decide
  refine record_meets (h.counters.recordAlloc_cases n) fun hover => ?_
  simp only [Overcounted]
  omega

theorem expand_meets (hle : old ≤ new) (ha : h.counters.allocated ≤ Arena.maxSize)
    (hn : new ≤ Arena.maxSize) :
    Meets (account (Counters.recordGrowth old new)) h
      (fun _ h' => (Counters.recordGrowth old new).run h.counters = .ok () h'.counters ∧
        h' = { h with counters := h.counters.grown (new - old) })
      (fun e h' => (Counters.recordGrowth old new).run h.counters = .error e h'.counters ∧
        e = .overflow ∧ Overcounted h ∧ ∃ c, h' = { h with counters := c }) := by
  have hmx : Arena.maxSize + Arena.maxSize + 1 < addressSpace := by decide
  refine record_meets (h.counters.recordGrowth_cases old new) fun hover => ?_
  simp only [Overcounted]
  omega

end Heap

end BoundaryTag
