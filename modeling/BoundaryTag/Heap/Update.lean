import BoundaryTag.Heap.Monad

/-!
# Basic updates of a heap

Writing a tag, a block's pair of tags or a payload, taking a block in or out of the free list, and
claiming bytes from the arena. Everything else that changes a heap is made of these.

Main statement: `setBlock_run` (what a block that lies in the arena is written as).
-/

namespace BoundaryTag.Heap

open HeapM

/-! ## Arena -/

def inArena (h : Heap) (i n : Nat) : Except Fault Unit :=
  if i + n ≤ h.arena.size then .ok () else .error .outOfRange

def withTag (h : Heap) (i : Nat) (t : Tag) : Heap := { h with arena := h.arena.setTag i t }

def putTag (i : Nat) (t : Tag) : HeapM Unit := do
  read (·.inArena i wordBytes)
  update (·.withTag i t)

def setBlock (block size : Nat) (allocated : Bool) : HeapM Unit := do
  let tag ← Tag.pack size allocated
  putTag (← Address.sub block wordBytes) tag
  putTag (← Address.sub (block + size) overhead) tag

def splice (i : Nat) (src : ByteArray) : HeapM Unit := do
  read (·.inArena i src.size)
  update fun h => { h with arena := h.arena.splice i src }

def move (src n dst : Nat) : HeapM Unit := do
  read (·.inArena src n)
  read (·.inArena dst n)
  update fun h => { h with arena := h.arena.move src n dst }

def resetArena : HeapM Unit := update fun h => { h with arena := h.arena.reset }

def growArena (n : Nat) : HeapM (Except AllocError Nat) := do
  match ← view (·.arena.refusal? n) with
  | some e => return .error e
  | none =>
    let start ← view (·.arena.size)
    update fun h => { h with arena := h.arena.grow n }
    return .ok start

/-- Grows the arena alone, so that the new bytes belong to no block. -/
def extendArena (n : Nat) : HeapM (Except AllocError Nat) := do
  read (·.arena.checkGrow n)
  growArena n

/-! ## Free list and counters -/

def enlist (block : Nat) : HeapM Unit := do
  read (·.freeList.checkInsert block)
  update fun h => { h with freeList := h.freeList.insertFront block }

def unlist (block : Nat) : HeapM Bool := do
  read (·.freeList.checkErase block)
  let listed ← view fun h => (h.freeList.link? block).isSome
  update fun h => { h with freeList := h.freeList.erase block }
  return listed

def account {α : Type} (m : EStateM Fault Counters α) : HeapM α := fun h =>
  match m.run h.counters with
  | .ok a counters => ⟨⟨.ok a, []⟩, { h with counters }⟩
  | .error e counters => ⟨⟨.error e, []⟩, { h with counters }⟩

/-- Grows the arena, and the free list's table and the counters with it. -/
def claim (n : Nat) : HeapM (Except AllocError Nat) := do
  match ← growArena n with
  | .error e => return .error e
  | .ok start =>
    update fun h => { h with freeList := h.freeList.reserve h.arena.top }
    account (Counters.recordExtension n)
    return .ok start

/-! ## Laws -/

theorem putTag_run {h : Heap} {i : Nat} (t : Tag) (hi : i + wordBytes ≤ h.arena.size) :
    (putTag i t).run h = ⟨⟨.ok (), []⟩, h.withTag i t⟩ := by
  have e : (read (·.inArena i wordBytes)).run h = ⟨⟨.ok (), []⟩, h⟩ := by
    simp only [run_read, inArena, if_pos hi]
  rw [putTag, run_bind_of_ok e]
  rfl

theorem setBlock_run {h : Heap} {block size : Nat} (allocated : Bool) (h8 : 8 ∣ size)
    (hs : 8 ≤ size) (hm : size ≤ maxBlockSize) (hb : wordBytes ≤ block)
    (he : block + size ≤ h.arena.size + wordBytes) :
    (setBlock block size allocated).run h =
      ⟨⟨.ok (), []⟩, (h.withTag (block - wordBytes) (Tag.make size allocated)).withTag
        (block + size - overhead) (Tag.make size allocated)⟩ := by
  simp only [wordBytes, overhead] at hb he ⊢
  have hp : Tag.pack size allocated = .ok (Tag.make size allocated) :=
    Tag.pack_eq_ok_iff.mpr ⟨h8, hm, rfl⟩
  have h₁ : Address.sub block wordBytes = .ok (block - 4) := Address.sub_eq_ok_iff.mpr ⟨hb, rfl⟩
  have h₂ : Address.sub (block + size) overhead = .ok (block + size - 8) :=
    Address.sub_eq_ok_iff.mpr ⟨by simp only [overhead]; omega, rfl⟩
  have r₁ := putTag_run (h := h) (i := block - 4) (Tag.make size allocated)
    (by simp only [wordBytes]; omega)
  have r₂ := putTag_run (h := h.withTag (block - 4) (Tag.make size allocated))
    (i := block + size - 8) (Tag.make size allocated)
    (by simp only [wordBytes, withTag, Arena.size_setTag]; omega)
  unfold setBlock
  rw [hp, h₁, h₂]
  show ((putTag (block - 4) (Tag.make size allocated)) >>= fun _ =>
    putTag (block + size - 8) (Tag.make size allocated)).run h = _
  rw [run_bind_of_ok r₁, r₂]
  rfl

section
variable {α β : Type} {h : Heap} {c : Counters} {m : EStateM Fault Counters α}

theorem account_run_of_ok {a : α} (hm : m.run h.counters = .ok a c) :
    (account m).run h = ⟨⟨.ok a, []⟩, { h with counters := c }⟩ := by
  simp only [run, account, hm]

theorem account_run_of_error {e : Fault} (hm : m.run h.counters = .error e c) :
    (account m).run h = ⟨⟨.error e, []⟩, { h with counters := c }⟩ := by
  simp only [run, account, hm]

theorem account_bind (m : EStateM Fault Counters α) (k : α → EStateM Fault Counters β) :
    account (m >>= k) = account m >>= fun a => account (k a) := by
  funext h
  show (account (m >>= k)).run h = (account m >>= fun a => account (k a)).run h
  cases hm : m.run h.counters with
  | ok a c =>
    have hb : (m >>= k).run h.counters = (k a).run c := by rw [EStateM.run_bind, hm]
    rw [run_bind_of_ok (account_run_of_ok hm)]
    simp only [run, account, hb]
    cases (k a).run c <;> rfl
  | error e c =>
    have hb : (m >>= k).run h.counters = .error e c := by rw [EStateM.run_bind, hm]
    rw [run_bind_of_error (account_run_of_error hm), account_run_of_error hb]

end

end BoundaryTag.Heap
