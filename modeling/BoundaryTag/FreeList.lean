import BoundaryTag.Link

/-!
# The free list

A doubly linked list of block offsets, newest first, whose links live in a table beside the arena. The
table has one slot for each `minBlockSize` bytes of arena, because two blocks are never closer than
that; a slot holds a packed link, or is vacant. So membership, insertion and removal take constant
time.

`toList` is the view of the list. Inserting and removing come as a check that names the fault, and a
total update that is meant for a list that passed the check.

Main statements: `link?_setLink` and `link?_vacate` (what an update of one slot does to every link).
-/

namespace BoundaryTag

structure FreeList where
  /-- First and last member. -/
  head : Link
  slots : Array Entry
  length : Nat
deriving DecidableEq, Repr

namespace FreeList

def empty : FreeList := ⟨{}, #[], 0⟩

instance : EmptyCollection FreeList := ⟨empty⟩

def slotOf (block : Nat) : Nat := block / minBlockSize

def slotBytes : Nat := 8

/-- Whether `block` is the second of its slot's two offsets. -/
def isOdd (block : Nat) : Bool := block % minBlockSize != 0

def slot? (l : FreeList) (block : Nat) : Option Entry := l.slots[slotOf block]?

/-- Whether the slot of `block` holds a link, be it the link of `block` or of the slot's other
offset. -/
def occupied (l : FreeList) (block : Nat) : Bool := (l.slot? block).any (!·.isVacant)

/-- The link of a member, and nothing for an offset that only shares its slot with one. -/
def link? (l : FreeList) (block : Nat) : Option Link :=
  (l.slot? block).bind fun e =>
    if e.isVacant || e.isOdd != isOdd block then none else some e.link

def tableBytes (l : FreeList) : Nat := l.slots.size * slotBytes

/-! ## View -/

def follow (l : FreeList) : Nat → Option Nat → List Nat
  | 0, _ => []
  | _ + 1, none => []
  | fuel + 1, some block => block :: l.follow fuel ((l.link? block).bind Link.next)

/-- The members in order. There are never more of them than slots. -/
def toList (l : FreeList) : List Nat := l.follow l.slots.size l.head.next

/-! ## Updates -/

def setLink (l : FreeList) (block : Nat) (link : Link) : FreeList :=
  { l with slots := l.slots.setIfInBounds (slotOf block) (Entry.pack (isOdd block) link) }

def vacate (l : FreeList) (block : Nat) : FreeList :=
  { l with slots := l.slots.setIfInBounds (slotOf block) Entry.vacant }

def setNext (l : FreeList) (block next : Option Nat) : FreeList :=
  match block with
  | none => { l with head := { l.head with next } }
  | some b =>
    match l.link? b with
    | some link => l.setLink b { link with next }
    | none => l

def setPrev (l : FreeList) (block prev : Option Nat) : FreeList :=
  match block with
  | none => { l with head := { l.head with prev } }
  | some b =>
    match l.link? b with
    | some link => l.setLink b { link with prev }
    | none => l

def insertFront (l : FreeList) (block : Nat) : FreeList :=
  let next := l.head.next
  let l := (l.setLink block { next }).setPrev next (some block)
  { l with head := { l.head with next := some block }, length := l.length + 1 }

def erase (l : FreeList) (block : Nat) : FreeList :=
  match l.link? block with
  | none => l
  | some link =>
    let l := ((l.setNext link.prev link.next).setPrev link.next link.prev).vacate block
    { l with length := l.length - 1 }

def addVacant (slots : Array Entry) : Nat → Array Entry
  | 0 => slots
  | n + 1 => addVacant (slots.push Entry.vacant) n

/-- Makes room for blocks at every offset below `arenaEnd`. -/
def reserve (l : FreeList) (arenaEnd : Nat) : FreeList :=
  let size := slotOf arenaEnd + 1
  -- a table that more than doubles moves once, to a place of the final size
  let slots := if 2 * l.slots.size < size then Array.emptyWithCapacity size ++ l.slots else l.slots
  { l with slots := addVacant slots (size - l.slots.size) }

/-! ## Checks -/

def checkAligned (block : Nat) : Except Fault Unit :=
  if block % alignment = 0 then .ok () else .error (.misaligned block)

def checkAddressable : Option Nat → Except Fault Unit
  | some block => if block < Arena.maxSize then .ok () else .error (.unaddressable block)
  | none => .ok ()

def checkLink (link : Link) : Except Fault Unit := do
  checkAddressable link.next
  checkAddressable link.prev

def checkSetNext (l : FreeList) (block next : Option Nat) : Except Fault Unit :=
  match block with
  | none => .ok ()
  | some b =>
    match l.link? b with
    | some link => checkLink { link with next }
    | none => .error (.unlinked b)

def checkSetPrev (l : FreeList) (block prev : Option Nat) : Except Fault Unit :=
  match block with
  | none => .ok ()
  | some b =>
    match l.link? b with
    | some link => checkLink { link with prev }
    | none => .error (.unlinked b)

/-- Faults on a table that is more than memory can hold. -/
def checkReserve (arenaEnd : Nat) : Except Fault Unit :=
  if maxExtent < (slotOf arenaEnd + 1) * slotBytes then .error .overflow else .ok ()

def checkInsert (l : FreeList) (block : Nat) : Except Fault Unit := do
  checkAligned block
  if l.slots.size ≤ slotOf block then throw (.unreserved block)
  else if l.occupied block then throw (.sharedSlot block)
  else
    checkLink { next := l.head.next }
    l.checkSetPrev l.head.next (some block)

def checkErase (l : FreeList) (block : Nat) : Except Fault Unit := do
  checkAligned block
  match l.link? block with
  | none => return
  | some link =>
    l.checkSetNext link.prev link.next
    l.checkSetPrev link.next link.prev

/-! ## Checked operations -/

def link (l : FreeList) (block : Nat) : Except Fault (Option Link) := do
  checkAligned block
  return l.link? block

def contains (l : FreeList) (block : Nat) : Except Fault Bool := do
  return (← l.link block).isSome

def provide (l : FreeList) (arenaEnd : Nat) : Except Fault FreeList := do
  checkReserve arenaEnd
  return l.reserve arenaEnd

def insert (l : FreeList) (block : Nat) : Except Fault FreeList := do
  l.checkInsert block
  return l.insertFront block

/-- Unlinks `block` and tells whether it was a member; a list that does not hold it stays as it is. -/
def remove (l : FreeList) (block : Nat) : Except Fault (Bool × FreeList) := do
  l.checkErase block
  return ((l.link? block).isSome, l.erase block)

theorem provide_eq_ok_iff {l l' : FreeList} {arenaEnd : Nat} :
    l.provide arenaEnd = .ok l' ↔
      (slotOf arenaEnd + 1) * slotBytes ≤ maxExtent ∧ l' = l.reserve arenaEnd := by
  unfold provide checkReserve
  by_cases h : maxExtent < (slotOf arenaEnd + 1) * slotBytes
  · rw [if_pos h]
    exact ⟨fun e => (nomatch e), fun e => absurd e.1 (Nat.not_le.mpr h)⟩
  · rw [if_neg h]
    exact ⟨fun e => ⟨Nat.not_lt.mp h, (Except.ok.inj e).symm⟩, fun e => congrArg Except.ok e.2.symm⟩

/-! ## Laws of single slots -/

theorem isOdd_eq_iff {b c : Nat} (hb : 8 ∣ b) (hc : 8 ∣ c) (h : slotOf c = slotOf b) :
    isOdd b = isOdd c ↔ c = b := by
  simp only [slotOf, minBlockSize] at h
  rw [isOdd, isOdd, minBlockSize, Bool.eq_iff_iff, bne_iff_ne, bne_iff_ne]
  omega

theorem slot?_setLink (l : FreeList) (b : Nat) (link : Link) (c : Nat) :
    (l.setLink b link).slot? c =
      if slotOf c = slotOf b ∧ slotOf b < l.slots.size then some (Entry.pack (isOdd b) link)
      else l.slot? c := by
  unfold slot? setLink
  rw [Array.getElem?_setIfInBounds]
  by_cases h : slotOf b = slotOf c
  · by_cases hb : slotOf b < l.slots.size
    · rw [if_pos h, if_pos hb, if_pos ⟨h.symm, hb⟩]
    · rw [if_pos h, if_neg hb, if_neg (fun e => hb e.2)]
      rw [Array.getElem?_eq_none (by omega)]
  · rw [if_neg h, if_neg (fun e => h e.1.symm)]

theorem slot?_vacate (l : FreeList) (b c : Nat) :
    (l.vacate b).slot? c =
      if slotOf c = slotOf b ∧ slotOf b < l.slots.size then some Entry.vacant else l.slot? c := by
  unfold slot? vacate
  rw [Array.getElem?_setIfInBounds]
  by_cases h : slotOf b = slotOf c
  · by_cases hb : slotOf b < l.slots.size
    · rw [if_pos h, if_pos hb, if_pos ⟨h.symm, hb⟩]
    · rw [if_pos h, if_neg hb, if_neg (fun e => hb e.2)]
      rw [Array.getElem?_eq_none (by omega)]
  · rw [if_neg h, if_neg (fun e => h e.1.symm)]

theorem link?_setLink {l : FreeList} {b c : Nat} {link : Link} (hk : link.Storable) (hb : 8 ∣ b)
    (hc : 8 ∣ c) (h : slotOf b < l.slots.size) :
    (l.setLink b link).link? c =
      if slotOf c = slotOf b then if c = b then some link else none else l.link? c := by
  unfold link?
  rw [slot?_setLink]
  by_cases e : slotOf c = slotOf b
  · rw [if_pos ⟨e, h⟩, if_pos e, Option.bind_some, Entry.isVacant_pack hk, Entry.isOdd_pack hk,
      Entry.link_pack hk, Bool.false_or]
    by_cases hcb : c = b
    · subst hcb
      simp
    · have : ¬ isOdd b = isOdd c := fun he => hcb ((isOdd_eq_iff hb hc e).mp he)
      simp [this, hcb]
  · rw [if_neg (fun h' => e h'.1), if_neg e]

theorem link?_vacate (l : FreeList) (b c : Nat) :
    (l.vacate b).link? c = if slotOf c = slotOf b then none else l.link? c := by
  unfold link?
  rw [slot?_vacate]
  by_cases e : slotOf c = slotOf b
  · by_cases hb : slotOf b < l.slots.size
    · rw [if_pos ⟨e, hb⟩, if_pos e, Option.bind_some, Entry.isVacant_vacant, Bool.true_or, if_pos rfl]
    · have hn : l.slot? c = none := Array.getElem?_eq_none (by omega)
      rw [if_neg (fun h => hb h.2), if_pos e, hn, Option.bind_none]
  · rw [if_neg (fun h => e h.1), if_neg e]

theorem occupied_setLink {l : FreeList} {b c : Nat} {link : Link} (hk : link.Storable)
    (h : slotOf b < l.slots.size) :
    (l.setLink b link).occupied c = (decide (slotOf c = slotOf b) || l.occupied c) := by
  unfold occupied
  rw [slot?_setLink]
  by_cases e : slotOf c = slotOf b
  · rw [if_pos ⟨e, h⟩, Option.any_some, Entry.isVacant_pack hk]
    simp [e]
  · rw [if_neg (fun h' => e h'.1)]
    simp [e]

theorem occupied_vacate (l : FreeList) (b c : Nat) :
    (l.vacate b).occupied c = (!decide (slotOf c = slotOf b) && l.occupied c) := by
  unfold occupied
  rw [slot?_vacate]
  by_cases e : slotOf c = slotOf b
  · by_cases hb : slotOf b < l.slots.size
    · rw [if_pos ⟨e, hb⟩, Option.any_some, Entry.isVacant_vacant]
      simp [e]
    · have hn : l.slot? c = none := Array.getElem?_eq_none (by omega)
      rw [if_neg (fun h => hb h.2), hn]
      simp
  · rw [if_neg (fun h => e h.1)]
    simp [e]

theorem addVacant_eq (slots : Array Entry) (n : Nat) :
    addVacant slots n = slots ++ Array.replicate n Entry.vacant := by
  induction n generalizing slots with
  | zero => simp [addVacant]
  | succ n ih =>
    rw [addVacant, ih]
    apply Array.ext'
    simp [List.replicate_succ]

theorem slots_reserve (l : FreeList) (n : Nat) :
    (l.reserve n).slots =
      l.slots ++ Array.replicate (slotOf n + 1 - l.slots.size) Entry.vacant := by
  simp [reserve, addVacant_eq]

theorem slot?_reserve (l : FreeList) (n c : Nat) :
    (l.reserve n).slot? c = l.slot? c ∨
      (l.reserve n).slot? c = some Entry.vacant ∧ l.slot? c = none := by
  unfold slot?
  rw [slots_reserve, Array.getElem?_append]
  split
  · exact Or.inl rfl
  · next h =>
    rw [Array.getElem?_replicate, Array.getElem?_eq_none (by omega : l.slots.size ≤ slotOf c)]
    split
    · exact Or.inr ⟨rfl, rfl⟩
    · exact Or.inl rfl

theorem link?_reserve (l : FreeList) (n c : Nat) : (l.reserve n).link? c = l.link? c := by
  unfold link?
  rcases slot?_reserve l n c with h | ⟨h, h'⟩
  · rw [h]
  · rw [h, h']
    rfl

theorem occupied_reserve (l : FreeList) (n c : Nat) : (l.reserve n).occupied c = l.occupied c := by
  unfold occupied
  rcases slot?_reserve l n c with h | ⟨h, h'⟩
  · rw [h]
  · rw [h, h']
    rfl

end FreeList

end BoundaryTag
