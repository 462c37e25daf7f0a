import BoundaryTag.Proofs.FreeList

/-!
# Sequences of free list calls

`run_refines`: whatever calls a free list went through, it behaves as the plain list that the same
calls make of the empty list, in what it iterates over, in every link, and in every answer. How large its
table is, which bounds the offsets that it takes, is told by `run_size`.

This is about offsets that have a stored form. `Tracks.run` is about all calls: it says what a list holds that
was offered others as well.
-/

namespace BoundaryTag.FreeList

inductive Op where
  | reserve (arenaEnd : Nat)
  | pushFront (block : Nat)
  | remove (block : Nat)
  | contains (block : Nat)
  | link (block : Nat)
  | clear
  | clone
deriving DecidableEq, Repr

namespace Op

/-- The offsets that a call names are aligned and lie below the largest arena. -/
def Addressed : Op → Prop
  | pushFront b | remove b | contains b | link b => Storable b
  | reserve _ | clear | clone => True

def step (l : FreeList) : Op → Except Fault FreeList
  | reserve arenaEnd => l.provide arenaEnd
  | pushFront b => l.insert b
  | remove b => do return (← l.remove b).2
  | contains b => do
    let _ ← l.contains b
    return l
  | link b => do
    let _ ← l.link b
    return l
  | clear => .ok empty
  | clone => .ok l

def onList (L : List Nat) : Op → List Nat
  | pushFront b => b :: L
  | remove b => L.erase b
  | clear => []
  | reserve _ | contains _ | link _ | clone => L

/-- The slots of a table that had `n` of them. It never shrinks but when the list is cleared. -/
def onTable (n : Nat) : Op → Nat
  | reserve arenaEnd => max n (slotOf arenaEnd + 1)
  | clear => 0
  | pushFront _ | remove _ | contains _ | link _ | clone => n

end Op

def run : FreeList → List Op → Except Fault FreeList
  | l, [] => .ok l
  | l, op :: ops => do run (← op.step l) ops

/-! ## One call -/

section
variable {l : FreeList} {L : List Nat} (h : Represents l L)
include h

theorem Represents.contains_eq {b : Nat} (h8 : 8 ∣ b) : l.contains b = .ok (decide (b ∈ L)) := by
  rw [FreeList.contains, link_eq_of_dvd l h8, ← h.link?_isSome h8]
  rfl

theorem Represents.remove_eq {b : Nat} (h8 : 8 ∣ b) :
    l.remove b = .ok (decide (b ∈ L), l.erase b) := by
  rw [FreeList.remove, h.checkErase_eq h8, ← h.link?_isSome h8]
  rfl

theorem Represents.insert_eq {b : Nat} (hb : Storable b) :
    l.insert b =
      if l.slots.size ≤ slotOf b then .error (.unreserved b)
      else if l.occupied b then .error (.sharedSlot b) else .ok (l.insertFront b) := by
  rw [FreeList.insert, h.checkInsert_eq hb]
  by_cases h₁ : l.slots.size ≤ slotOf b
  · rw [if_pos h₁, if_pos h₁]
    rfl
  · rw [if_neg h₁, if_neg h₁]
    by_cases h₂ : l.occupied b = true
    · rw [if_pos h₂, if_pos h₂]
      rfl
    · rw [if_neg h₂, if_neg h₂]
      rfl

theorem Represents.insert_fails_iff {b : Nat} (hb : Storable b) :
    (∃ f, l.insert b = .error f) ↔ l.slots.size ≤ slotOf b ∨ ∃ c ∈ L, slotOf c = slotOf b := by
  rw [h.insert_eq hb, ← h.occupied b]
  by_cases h₁ : l.slots.size ≤ slotOf b
  · simp [h₁]
  · by_cases h₂ : l.occupied b = true
    · simp [h₁, h₂]
    · simp [h₁, h₂]

theorem Represents.of_insert {b : Nat} (hb : Storable b) {l' : FreeList}
    (he : l.insert b = .ok l') : Represents l' (b :: L) := by
  rw [h.insert_eq hb] at he
  by_cases h₁ : l.slots.size ≤ slotOf b
  · rw [if_pos h₁] at he
    cases he
  · rw [if_neg h₁] at he
    cases h₂ : l.occupied b with
    | true =>
      rw [h₂, if_pos rfl] at he
      cases he
    | false =>
      rw [h₂, if_neg Bool.false_ne_true] at he
      cases he
      exact h.insertFront hb (Nat.not_le.mp h₁) h₂

theorem Represents.step {op : Op} (ha : op.Addressed) {l' : FreeList} (hs : op.step l = .ok l') :
    Represents l' (op.onList L) := by
  cases op with
  | reserve arenaEnd =>
    obtain ⟨_, rfl⟩ := provide_eq_ok_iff.mp hs
    exact h.reserve arenaEnd
  | pushFront b => exact h.of_insert ha hs
  | remove b =>
    simp only [Op.step, h.remove_eq ha.1] at hs
    cases hs
    exact h.erase ha.1
  | contains b =>
    simp only [Op.step, h.contains_eq ha.1] at hs
    cases hs
    exact h
  | link b =>
    simp only [Op.step, link_eq_of_dvd l ha.1] at hs
    cases hs
    exact h
  | clear =>
    cases hs
    exact represents_empty
  | clone =>
    cases hs
    exact h

end

theorem size_step {l l' : FreeList} {op : Op} (hs : op.step l = .ok l') :
    l'.slots.size = op.onTable l.slots.size := by
  cases op with
  | reserve arenaEnd =>
    obtain ⟨_, rfl⟩ := provide_eq_ok_iff.mp hs
    rw [slots_reserve, Array.size_append, Array.size_replicate, Op.onTable]
    omega
  | pushFront b =>
    obtain ⟨_, -, hs⟩ := exists_of_bind_ok hs
    cases hs
    exact size_insertFront l b
  | remove b =>
    obtain ⟨_, hr, hs⟩ := exists_of_bind_ok hs
    obtain ⟨_, -, hr⟩ := exists_of_bind_ok hr
    cases hr
    cases hs
    exact size_erase l b
  | contains b | link b =>
    obtain ⟨_, -, hs⟩ := exists_of_bind_ok hs
    cases hs
    rfl
  | clear | clone =>
    cases hs
    rfl

/-! ## Whole sequences -/

theorem Represents.run {ops : List Op} (ha : ∀ op ∈ ops, op.Addressed) {l l' : FreeList}
    {L : List Nat} (h : Represents l L) (hr : l.run ops = .ok l') :
    Represents l' (ops.foldl Op.onList L) := by
  induction ops generalizing l L with
  | nil =>
    cases hr
    exact h
  | cons op ops ih =>
    obtain ⟨l₁, hs, hr⟩ := exists_of_bind_ok hr
    have h₁ := h.step (ha op List.mem_cons_self) hs
    exact ih (fun op hop => ha op (List.mem_cons_of_mem _ hop)) h₁ hr

/-- What is reserved is what the calls since the list was last cleared have asked for. -/
theorem run_size {ops : List Op} {l l' : FreeList} (hr : l.run ops = .ok l') :
    l'.slots.size = ops.foldl Op.onTable l.slots.size := by
  induction ops generalizing l with
  | nil =>
    cases hr
    rfl
  | cons op ops ih =>
    obtain ⟨l₁, hs, hr⟩ := exists_of_bind_ok hr
    rw [ih hr, size_step hs, List.foldl_cons]

/-- **Refinement.** Iterating any number of steps beyond the length of the list adds nothing, so the
iteration ends. -/
theorem run_refines {ops : List Op} (ha : ∀ op ∈ ops, op.Addressed) {l : FreeList}
    (hr : empty.run ops = .ok l) :
    let L := ops.foldl Op.onList []
    L.Nodup ∧ (∀ fuel, L.length ≤ fuel → l.follow fuel l.head.next = L) ∧ l.toList = L ∧
      l.length = L.length ∧ l.head = ⟨L.head?, L.getLast?⟩ ∧
      (∀ arenaEnd l', l.provide arenaEnd = .ok l' → l'.toList = L) ∧
      ∀ b, Storable b →
        l.contains b = .ok (decide (b ∈ L)) ∧
        (∀ xs ys, L = xs ++ b :: ys → l.link b = .ok (some ⟨ys.head?, xs.getLast?⟩)) ∧
        (b ∉ L → l.link b = .ok none) ∧
        (∃ l', l.remove b = .ok (decide (b ∈ L), l') ∧ l'.toList = L.erase b ∧ (b ∉ L → l' = l)) ∧
        (∀ l', l.insert b = .ok l' → l'.toList = b :: L) ∧
        ((∃ f, l.insert b = .error f) ↔ l.slots.size ≤ slotOf b ∨ ∃ c ∈ L, slotOf c = slotOf b) := by
  intro L
  have h : Represents l L := represents_empty.run ha hr
  refine ⟨h.nodup, fun _ hf => h.follow_eq hf, h.toList_eq, h.length, h.head, ?_, ?_⟩
  · intro arenaEnd l' hp
    obtain ⟨_, rfl⟩ := provide_eq_ok_iff.mp hp
    exact (h.reserve arenaEnd).toList_eq
  · intro b hb
    refine ⟨h.contains_eq hb.1, ?_, ?_, ?_, ?_, h.insert_fails_iff hb⟩
    · intro xs ys hL
      rw [link_eq_of_dvd l hb.1, h.member xs b ys hL]
    · intro hbL
      rw [link_eq_of_dvd l hb.1, h.other b hb.1 hbL]
    · refine ⟨l.erase b, h.remove_eq hb.1, (h.erase hb.1).toList_eq, fun hbL => ?_⟩
      rw [FreeList.erase, h.other b hb.1 hbL]
    · exact fun l' hi => (h.of_insert hb hi).toList_eq

/-- Two offsets share a slot, and only the second is a member. -/
theorem run_refines_shared_slot :
    ∃ l, empty.run [.reserve 128, .pushFront 24, .pushFront 48, .remove 16] = .ok l ∧
      l.toList = [48, 24] ∧ l.link 24 = .ok (some ⟨none, some 48⟩) ∧ l.link 16 = .ok none := by
  have ha : ∀ op ∈ [Op.reserve 128, .pushFront 24, .pushFront 48, .remove 16], op.Addressed := by
    simp [Op.Addressed, Storable, Arena.maxSize]
  obtain ⟨_, _, hl, _, _, _, hb⟩ := run_refines ha rfl
  have h24 := hb 24 (by simp [Storable, Arena.maxSize])
  have h16 := hb 16 (by simp [Storable, Arena.maxSize])
  exact ⟨_, rfl, hl, h24.2.1 [48] [] rfl, h16.2.2.1 (by decide)⟩

/-! ## Offsets beyond the largest arena

A list that is empty links the new member to nothing, so it takes an offset that has no stored form as well.
It then takes no other until that one is removed. -/

structure Lone (l : FreeList) (b : Nat) : Prop where
  dvd : 8 ∣ b
  reserved : slotOf b < l.slots.size
  head : l.head = ⟨some b, some b⟩
  length : l.length = 1
  member : l.link? b = some {}
  other : ∀ c, 8 ∣ c → c ≠ b → l.link? c = none
  occupied : ∀ c, l.occupied c = decide (slotOf c = slotOf b)
  large : Arena.maxSize ≤ b

/-- The list holds `L`, which is a single offset if that is beyond the largest arena. -/
inductive Tracks (l : FreeList) : List Nat → Prop where
  | addressed {L : List Nat} : Represents l L → Tracks l L
  | lone {b : Nat} : Lone l b → Tracks l [b]

section
variable {l : FreeList} {L : List Nat} {b : Nat}

theorem checkAligned_eq_ok_iff : checkAligned b = .ok () ↔ 8 ∣ b := by
  rw [checkAligned, alignment, Nat.dvd_iff_mod_eq_zero]
  by_cases h : b % 8 = 0 <;> simp [h]

theorem checkAddressable_eq_ok_iff {x : Option Nat} :
    checkAddressable x = .ok () ↔ ∀ b ∈ x, b < Arena.maxSize := by
  cases x with
  | none => simp [checkAddressable]
  | some b => simp [checkAddressable]

theorem checkLink_eq_ok_iff {k : Link} :
    checkLink k = .ok () ↔ (∀ b ∈ k.next, b < Arena.maxSize) ∧ ∀ b ∈ k.prev, b < Arena.maxSize := by
  rw [← checkAddressable_eq_ok_iff, ← checkAddressable_eq_ok_iff]
  constructor
  · intro h
    obtain ⟨_, hn, hp⟩ := exists_of_bind_ok h
    exact ⟨hn, hp⟩
  · rintro ⟨hn, hp⟩
    rw [checkLink, hn]
    exact hp

theorem of_checkInsert (h : l.checkInsert b = .ok ()) :
    8 ∣ b ∧ slotOf b < l.slots.size ∧ l.occupied b = false ∧ (∀ n ∈ l.head.next, n < Arena.maxSize) ∧
      l.checkSetPrev l.head.next (some b) = .ok () := by
  obtain ⟨_, ha, h⟩ := exists_of_bind_ok h
  by_cases hs : l.slots.size ≤ slotOf b
  · rw [if_pos hs] at h
    cases h
  by_cases ho : l.occupied b = true
  · rw [if_neg hs, if_pos ho] at h
    cases h
  rw [if_neg hs, if_neg ho] at h
  obtain ⟨_, hk, hp⟩ := exists_of_bind_ok h
  exact ⟨checkAligned_eq_ok_iff.mp ha, Nat.not_le.mp hs, Bool.eq_false_iff.mpr ho,
    (checkLink_eq_ok_iff.mp hk).1, hp⟩

theorem Represents.storable_of_checkInsert (h : Represents l L) (hne : L ≠ [])
    (hc : l.checkInsert b = .ok ()) : Storable b := by
  obtain ⟨h8, -, -, -, hp⟩ := of_checkInsert hc
  obtain ⟨c, L, rfl⟩ := List.exists_cons_of_ne_nil hne
  rw [h.head, List.head?_cons, FreeList.checkSetPrev, h.member [] c L rfl] at hp
  exact ⟨h8, (checkLink_eq_ok_iff.mp hp).2 b rfl⟩

theorem Represents.lone_insertFront (h : Represents l []) (h8 : 8 ∣ b) (hs : slotOf b < l.slots.size)
    (hb : Arena.maxSize ≤ b) : Lone (l.insertFront b) b := by
  have hk : Link.Storable {} := ⟨nofun, nofun⟩
  have hfree : ∀ c, l.occupied c = false := fun c =>
    Bool.eq_false_iff.mpr fun ho => nomatch ((h.occupied c).mp ho)
  have e : l.insertFront b = { l.setLink b {} with head := ⟨some b, some b⟩, length := 1 } := by
    simp only [FreeList.insertFront, h.head, List.head?_nil, setPrev]
    simp only [FreeList.setLink, h.head, h.length, List.length_nil]
  have hlink : ∀ c, 8 ∣ c → (l.insertFront b).link? c = if c = b then some {} else l.link? c :=
    fun c hc => e ▸ link?_setLink_of_vacant hk h8 hs (hfree b) hc
  refine
    { dvd := h8
      reserved := by rwa [size_insertFront]
      head := by rw [e]
      length := by rw [e]
      member := by rw [hlink b h8, if_pos rfl]
      other := fun c hc hcb => by rw [hlink c hc, if_neg hcb, h.other c hc List.not_mem_nil]
      occupied := fun c => ?occupied
      large := hb }
  case occupied =>
    have ho := occupied_setLink hk hs (c := c)
    rw [hfree, Bool.or_false] at ho
    exact e ▸ ho

section
variable (h : Lone l b)
include h

theorem Lone.toList_eq : l.toList = [b] := by
  obtain ⟨n, hn⟩ := Nat.exists_eq_add_one_of_ne_zero (Nat.ne_of_gt (Nat.zero_lt_of_lt h.reserved))
  have hnil : ∀ n, l.follow n none = [] := fun n => by cases n <;> rfl
  rw [toList, hn, h.head, follow, h.member, Option.bind_some, hnil]

theorem Lone.checkInsert_ne_ok {c : Nat} : l.checkInsert c ≠ .ok () := by
  intro hc
  obtain ⟨-, -, -, ha, -⟩ := of_checkInsert hc
  rw [h.head] at ha
  exact Nat.not_lt.mpr h.large (ha b rfl)

theorem Lone.represents_erase : Represents (l.erase b) [] := by
  have e : l.erase b = { l.vacate b with head := ⟨none, none⟩, length := 0 } := by
    simp only [erase, h.member, setNext, setPrev, vacate, h.head, h.length]
  refine
    { nodup := List.nodup_nil
      storable := List.forall_mem_nil _
      reserved := List.forall_mem_nil _
      head := by rw [e]; rfl
      length := by rw [e]; rfl
      member := fun xs b ys h => by cases xs <;> cases h
      other := fun c h8 _ => ?other
      occupied := fun c => ?occupied }
  case other =>
    have hv := link?_vacate_of_member h.dvd h.member h8
    rw [show (l.erase b).link? c = (l.vacate b).link? c by rw [e]; rfl, hv]
    split
    · rfl
    · next hcb => exact h.other c h8 hcb
  case occupied =>
    rw [show (l.erase b).occupied c = (l.vacate b).occupied c by rw [e]; rfl, occupied_vacate, h.occupied]
    simp

end

section
variable (h : Tracks l L)
include h

theorem Tracks.dvd : ∀ c ∈ L, 8 ∣ c := by
  cases h with
  | addressed h => exact fun c hc => (h.storable c hc).1
  | lone h => exact fun c hc => List.mem_singleton.mp hc ▸ h.dvd

theorem Tracks.toList_eq : l.toList = L := by
  cases h with
  | addressed h => exact h.toList_eq
  | lone h => exact h.toList_eq

theorem Tracks.mem_of_link? {k : Link} (h8 : 8 ∣ b) (hb : l.link? b = some k) : b ∈ L := by
  cases h with
  | addressed h => exact h.mem_of_link? h8 hb
  | @lone c h =>
    by_contra hne
    rw [h.other b h8 fun e => hne (List.mem_singleton.mpr e)] at hb
    cases hb

theorem Tracks.reserve (n : Nat) : Tracks (l.reserve n) L := by
  cases h with
  | addressed h => exact .addressed (h.reserve n)
  | @lone b h =>
    exact .lone
      { h with
        reserved := by
          have := h.reserved
          simp only [slots_reserve, Array.size_append]
          omega
        member := by rw [link?_reserve, h.member]
        other := fun c hc hcb => by rw [link?_reserve, h.other c hc hcb]
        occupied := fun c => by rw [occupied_reserve, h.occupied] }

theorem Tracks.insertFront (hc : l.checkInsert b = .ok ()) : Tracks (l.insertFront b) (b :: L) := by
  obtain ⟨h8, hs, ho, -, -⟩ := of_checkInsert hc
  cases h with
  | lone h => exact absurd hc h.checkInsert_ne_ok
  | addressed h =>
    by_cases hb : b < Arena.maxSize
    · exact .addressed (h.insertFront ⟨h8, hb⟩ hs ho)
    · by_cases hne : L = []
      · subst hne
        exact .lone (h.lone_insertFront h8 hs (Nat.not_lt.mp hb))
      · exact absurd (h.storable_of_checkInsert hne hc).2 hb

theorem Tracks.erase (h8 : 8 ∣ b) : Tracks (l.erase b) (L.erase b) := by
  cases h with
  | addressed h => exact .addressed (h.erase h8)
  | @lone c h =>
    by_cases hbc : b = c
    · subst hbc
      rw [List.erase_cons_head]
      exact .addressed h.represents_erase
    · rw [List.erase_of_not_mem (fun e => hbc (List.mem_singleton.mp e)), FreeList.erase, h.other b h8 hbc]
      exact .lone h

theorem Tracks.step {op : Op} {l' : FreeList} (hs : op.step l = .ok l') : Tracks l' (op.onList L) := by
  cases op with
  | reserve arenaEnd =>
    obtain ⟨_, rfl⟩ := provide_eq_ok_iff.mp hs
    exact h.reserve arenaEnd
  | pushFront b =>
    obtain ⟨_, hc, hs⟩ := exists_of_bind_ok hs
    cases hs
    exact h.insertFront hc
  | remove b =>
    obtain ⟨_, hr, hs⟩ := exists_of_bind_ok hs
    obtain ⟨_, hc, hr⟩ := exists_of_bind_ok hr
    obtain ⟨_, ha, -⟩ := exists_of_bind_ok hc
    cases hr
    cases hs
    exact h.erase (checkAligned_eq_ok_iff.mp ha)
  | contains b =>
    obtain ⟨_, -, hs⟩ := exists_of_bind_ok hs
    cases hs
    exact h
  | link b =>
    obtain ⟨_, -, hs⟩ := exists_of_bind_ok hs
    cases hs
    exact h
  | clear =>
    cases hs
    exact .addressed represents_empty
  | clone =>
    cases hs
    exact h

end

theorem Tracks.run {ops : List Op} {l l' : FreeList} {L : List Nat} (h : Tracks l L)
    (hr : l.run ops = .ok l') : Tracks l' (ops.foldl Op.onList L) := by
  induction ops generalizing l L with
  | nil =>
    cases hr
    exact h
  | cons op ops ih =>
    obtain ⟨l₁, hs, hr⟩ := exists_of_bind_ok hr
    exact ih (h.step hs) hr

end

end BoundaryTag.FreeList
