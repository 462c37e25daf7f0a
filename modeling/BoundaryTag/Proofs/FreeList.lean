import BoundaryTag.FreeList
import Mathlib.Data.List.Nodup
import Mathlib.Data.List.Perm.Subperm

/-!
# The free list as a list of offsets

`Represents l L` says that the table `l` stores the duplicate-free list `L`: every member links to
its neighbours in `L`, and no other slot is occupied. Each update of the table is then an update of
`L`: `Represents.insertFront` puts an offset in front, `Represents.erase` takes one out.
-/

namespace BoundaryTag.FreeList

structure Represents (l : FreeList) (L : List Nat) : Prop where
  nodup : L.Nodup
  storable : ∀ b ∈ L, Storable b
  reserved : ∀ b ∈ L, slotOf b < l.slots.size
  head : l.head = ⟨L.head?, L.getLast?⟩
  length : l.length = L.length
  member : ∀ xs b ys, L = xs ++ b :: ys → l.link? b = some ⟨ys.head?, xs.getLast?⟩
  other : ∀ b, 8 ∣ b → b ∉ L → l.link? b = none
  occupied : ∀ b, l.occupied b = true ↔ ∃ c ∈ L, slotOf c = slotOf b

/-! ## Slots -/

theorem link?_eq_some {l : FreeList} {b : Nat} {k : Link} (h : l.link? b = some k) :
    ∃ e, l.slot? b = some e ∧ e.isVacant = false ∧ e.isOdd = isOdd b ∧ e.link = k := by
  unfold link? at h
  obtain ⟨e, he, hk⟩ := Option.bind_eq_some_iff.mp h
  cases hv : e.isVacant with
  | true => simp [hv] at hk
  | false =>
    by_cases ho : e.isOdd = isOdd b
    · simp only [hv, ho, bne_self_eq_false, Bool.or_self, Bool.false_eq_true, ite_false,
        Option.some.injEq] at hk
      exact ⟨e, he, hv, ho, hk⟩
    · simp [hv, ho] at hk

theorem occupied_of_link? {l : FreeList} {b : Nat} {k : Link} (h : l.link? b = some k) :
    l.occupied b = true := by
  obtain ⟨e, he, hv, _, _⟩ := link?_eq_some h
  simp [occupied, he, hv]

theorem slotOf_lt_of_link? {l : FreeList} {b : Nat} {k : Link} (h : l.link? b = some k) :
    slotOf b < l.slots.size := by
  obtain ⟨e, he, _⟩ := link?_eq_some h
  exact (Array.getElem?_eq_some_iff.mp he).1

theorem eq_of_slotOf_eq {l : FreeList} {b c : Nat} {k k' : Link} (hb : l.link? b = some k)
    (hc : l.link? c = some k') (h8 : 8 ∣ b) (h8' : 8 ∣ c) (h : slotOf c = slotOf b) : c = b := by
  obtain ⟨e, he, _, ho, _⟩ := link?_eq_some hb
  obtain ⟨e', he', _, ho', _⟩ := link?_eq_some hc
  have : e = e' := by
    unfold slot? at he he'
    rw [h, he] at he'
    exact Option.some.inj he'
  subst this
  exact (isOdd_eq_iff h8 h8' h).mp (ho.symm.trans ho')

theorem link?_setLink_of_alone {l : FreeList} {b : Nat} {k : Link} (hk : k.Storable) (hb : 8 ∣ b)
    (hs : slotOf b < l.slots.size)
    (ha : ∀ c, 8 ∣ c → slotOf c = slotOf b → c ≠ b → l.link? c = none) {c : Nat} (hc : 8 ∣ c) :
    (l.setLink b k).link? c = if c = b then some k else l.link? c := by
  rw [link?_setLink hk hb hc hs]
  by_cases h : slotOf c = slotOf b
  · rw [if_pos h]
    by_cases hcb : c = b
    · rw [if_pos hcb, if_pos hcb]
    · rw [if_neg hcb, if_neg hcb, ha c hc h hcb]
  · have hcb : c ≠ b := fun e => h (e ▸ rfl)
    rw [if_neg h, if_neg hcb]

theorem link?_setLink_of_vacant {l : FreeList} {b : Nat} {k : Link} (hk : k.Storable) (hb : 8 ∣ b)
    (hs : slotOf b < l.slots.size) (hv : l.occupied b = false) {c : Nat} (hc : 8 ∣ c) :
    (l.setLink b k).link? c = if c = b then some k else l.link? c := by
  refine link?_setLink_of_alone hk hb hs (fun d _ hd _ => ?_) hc
  cases h : l.link? d with
  | none => rfl
  | some k' =>
    have ho := occupied_of_link? h
    unfold occupied slot? at ho hv
    rw [hd, hv] at ho
    cases ho

theorem link?_setLink_of_member {l : FreeList} {b : Nat} {k k' : Link} (hk : k.Storable)
    (hb : 8 ∣ b) (hm : l.link? b = some k') {c : Nat} (hc : 8 ∣ c) :
    (l.setLink b k).link? c = if c = b then some k else l.link? c := by
  refine link?_setLink_of_alone hk hb (slotOf_lt_of_link? hm) (fun d hd hs hne => ?_) hc
  cases h : l.link? d with
  | none => rfl
  | some _ => exact absurd (eq_of_slotOf_eq hm h hb hd hs) hne

theorem link?_vacate_of_member {l : FreeList} {b : Nat} {k : Link} (hb : 8 ∣ b)
    (hm : l.link? b = some k) {c : Nat} (hc : 8 ∣ c) :
    (l.vacate b).link? c = if c = b then none else l.link? c := by
  rw [link?_vacate]
  by_cases h : slotOf c = slotOf b
  · rw [if_pos h]
    by_cases hcb : c = b
    · rw [if_pos hcb]
    · rw [if_neg hcb]
      cases h' : l.link? c with
      | none => rfl
      | some _ => exact absurd (eq_of_slotOf_eq hm h' hb hc h) hcb
  · have hcb : c ≠ b := fun e => h (e ▸ rfl)
    rw [if_neg h, if_neg hcb]

theorem occupied_setLink_of_member {l : FreeList} {b : Nat} {k k' : Link} (hk : k.Storable)
    (hm : l.link? b = some k') (c : Nat) : (l.setLink b k).occupied c = l.occupied c := by
  rw [occupied_setLink hk (slotOf_lt_of_link? hm)]
  by_cases h : slotOf c = slotOf b
  · have ho := occupied_of_link? hm
    unfold occupied slot? at ho ⊢
    rw [h, ho, Bool.or_true]
  · simp [h]

/-! ## Single links -/

def LinksStorable (l : FreeList) : Prop := ∀ c k, 8 ∣ c → l.link? c = some k → k.Storable

theorem link?_setNext {l : FreeList} (hl : l.LinksStorable) {x y : Option Nat}
    (hx : ∀ b ∈ x, 8 ∣ b) (hy : ∀ b ∈ y, Storable b) {c : Nat} (hc : 8 ∣ c) :
    (l.setNext x y).link? c =
      if x = some c then (l.link? c).map fun k => { k with next := y } else l.link? c := by
  cases x with
  | none => rfl
  | some b =>
    have hb := hx b rfl
    simp only [setNext, Option.some.injEq]
    cases hm : l.link? b with
    | none =>
      by_cases h : b = c
      · rw [if_pos h, ← h, hm]
        rfl
      · rw [if_neg h]
    | some k =>
      have hk : Link.Storable { k with next := y } := ⟨hy, (hl b k hb hm).2⟩
      dsimp only
      rw [link?_setLink_of_member hk hb hm hc]
      by_cases h : b = c
      · rw [if_pos h, if_pos h.symm, ← h, hm]
        rfl
      · rw [if_neg h, if_neg (Ne.symm h)]

theorem link?_setPrev {l : FreeList} (hl : l.LinksStorable) {x y : Option Nat}
    (hx : ∀ b ∈ x, 8 ∣ b) (hy : ∀ b ∈ y, Storable b) {c : Nat} (hc : 8 ∣ c) :
    (l.setPrev x y).link? c =
      if x = some c then (l.link? c).map fun k => { k with prev := y } else l.link? c := by
  cases x with
  | none => rfl
  | some b =>
    have hb := hx b rfl
    simp only [setPrev, Option.some.injEq]
    cases hm : l.link? b with
    | none =>
      by_cases h : b = c
      · rw [if_pos h, ← h, hm]
        rfl
      · rw [if_neg h]
    | some k =>
      have hk : Link.Storable { k with prev := y } := ⟨(hl b k hb hm).1, hy⟩
      dsimp only
      rw [link?_setLink_of_member hk hb hm hc]
      by_cases h : b = c
      · rw [if_pos h, if_pos h.symm, ← h, hm]
        rfl
      · rw [if_neg h, if_neg (Ne.symm h)]

theorem LinksStorable.setNext {l : FreeList} (hl : l.LinksStorable) {x y : Option Nat}
    (hx : ∀ b ∈ x, 8 ∣ b) (hy : ∀ b ∈ y, Storable b) : (l.setNext x y).LinksStorable := by
  intro c k hc h
  rw [link?_setNext hl hx hy hc] at h
  split at h
  · obtain ⟨k', hk', rfl⟩ := Option.map_eq_some_iff.mp h
    exact ⟨hy, (hl c k' hc hk').2⟩
  · exact hl c k hc h

theorem LinksStorable.setLink_of_vacant {l : FreeList} (hl : l.LinksStorable) {b : Nat} {k : Link}
    (hk : k.Storable) (hb : 8 ∣ b) (hs : slotOf b < l.slots.size) (hv : l.occupied b = false) :
    (l.setLink b k).LinksStorable := by
  intro c k' hc h
  rw [link?_setLink_of_vacant hk hb hs hv hc] at h
  split at h
  · cases h
    exact hk
  · exact hl c k' hc h

theorem occupied_setNext {l : FreeList} (hl : l.LinksStorable) {x y : Option Nat}
    (hx : ∀ b ∈ x, 8 ∣ b) (hy : ∀ b ∈ y, Storable b) (c : Nat) :
    (l.setNext x y).occupied c = l.occupied c := by
  cases x with
  | none => rfl
  | some b =>
    simp only [setNext]
    cases hm : l.link? b with
    | none => rfl
    | some k =>
      have hk : Link.Storable { k with next := y } := ⟨hy, (hl b k (hx b rfl) hm).2⟩
      exact occupied_setLink_of_member hk hm c

theorem occupied_setPrev {l : FreeList} (hl : l.LinksStorable) {x y : Option Nat}
    (hx : ∀ b ∈ x, 8 ∣ b) (hy : ∀ b ∈ y, Storable b) (c : Nat) :
    (l.setPrev x y).occupied c = l.occupied c := by
  cases x with
  | none => rfl
  | some b =>
    simp only [setPrev]
    cases hm : l.link? b with
    | none => rfl
    | some k =>
      have hk : Link.Storable { k with prev := y } := ⟨(hl b k (hx b rfl) hm).1, hy⟩
      exact occupied_setLink_of_member hk hm c

theorem size_setLink (l : FreeList) (b : Nat) (k : Link) :
    (l.setLink b k).slots.size = l.slots.size := Array.size_setIfInBounds

theorem size_setNext (l : FreeList) (x y : Option Nat) :
    (l.setNext x y).slots.size = l.slots.size := by
  cases x with
  | none => rfl
  | some b =>
    simp only [setNext]
    cases l.link? b with
    | none => rfl
    | some k => exact size_setLink _ _ _

theorem size_setPrev (l : FreeList) (x y : Option Nat) :
    (l.setPrev x y).slots.size = l.slots.size := by
  cases x with
  | none => rfl
  | some b =>
    simp only [setPrev]
    cases l.link? b with
    | none => rfl
    | some k => exact size_setLink _ _ _

theorem head_setNext (l : FreeList) (x y : Option Nat) :
    (l.setNext x y).head = if x = none then { l.head with next := y } else l.head := by
  cases x with
  | none => rfl
  | some b =>
    simp only [setNext, reduceCtorEq, ite_false]
    cases l.link? b <;> rfl

theorem head_setPrev (l : FreeList) (x y : Option Nat) :
    (l.setPrev x y).head = if x = none then { l.head with prev := y } else l.head := by
  cases x with
  | none => rfl
  | some b =>
    simp only [setPrev, reduceCtorEq, ite_false]
    cases l.link? b <;> rfl

theorem length_setNext (l : FreeList) (x y : Option Nat) :
    (l.setNext x y).length = l.length := by
  cases x with
  | none => rfl
  | some b =>
    simp only [setNext]
    cases l.link? b <;> rfl

theorem length_setPrev (l : FreeList) (x y : Option Nat) :
    (l.setPrev x y).length = l.length := by
  cases x with
  | none => rfl
  | some b =>
    simp only [setPrev]
    cases l.link? b <;> rfl

theorem size_insertFront (l : FreeList) (b : Nat) :
    (l.insertFront b).slots.size = l.slots.size := by
  simp only [insertFront, size_setPrev, size_setLink]

theorem size_erase (l : FreeList) (b : Nat) : (l.erase b).slots.size = l.slots.size := by
  unfold erase
  cases l.link? b with
  | none => rfl
  | some k => simp only [vacate, Array.size_setIfInBounds, size_setPrev, size_setNext]

/-! ## Members -/

section
variable {l : FreeList} {L : List Nat}

theorem Represents.mem_of_link? (h : Represents l L) {b : Nat} {k : Link} (h8 : 8 ∣ b)
    (hb : l.link? b = some k) : b ∈ L := by
  by_cases hm : b ∈ L
  · exact hm
  · rw [h.other b h8 hm] at hb
    cases hb

theorem Represents.link?_isSome (h : Represents l L) {b : Nat} (h8 : 8 ∣ b) :
    (l.link? b).isSome = decide (b ∈ L) := by
  by_cases hm : b ∈ L
  · obtain ⟨xs, ys, hL⟩ := List.append_of_mem hm
    rw [h.member xs b ys hL, decide_eq_true hm]
    rfl
  · rw [h.other b h8 hm, decide_eq_false hm]
    rfl

theorem Represents.linksStorable (h : Represents l L) : l.LinksStorable := by
  intro c k hc hk
  obtain ⟨xs, ys, hL⟩ := List.append_of_mem (h.mem_of_link? hc hk)
  have he := h.member xs c ys hL
  rw [hk] at he
  obtain rfl := Option.some.inj he
  constructor
  · intro b hb
    exact h.storable b (by rw [hL]; exact List.mem_append_right _ (List.mem_cons_of_mem _
      (List.mem_of_head? hb)))
  · intro b hb
    exact h.storable b (by rw [hL]; exact List.mem_append_left _ (List.mem_of_getLast? hb))

theorem Represents.slot_inj (h : Represents l L) {b c : Nat} (hb : b ∈ L) (hc : c ∈ L)
    (hs : slotOf c = slotOf b) : c = b := by
  obtain ⟨xs, ys, hL⟩ := List.append_of_mem hb
  obtain ⟨xs', ys', hL'⟩ := List.append_of_mem hc
  exact eq_of_slotOf_eq (h.member xs b ys hL) (h.member xs' c ys' hL') (h.storable b hb).1
    (h.storable c hc).1 hs

theorem represents_empty : Represents empty [] where
  nodup := List.nodup_nil
  storable := fun _ h => nomatch h
  reserved := fun _ h => nomatch h
  head := rfl
  length := rfl
  member := fun xs b ys h => by cases xs <;> cases h
  other := fun _ _ _ => rfl
  occupied := fun b => by simp [occupied, slot?, empty]

theorem Represents.reserve (h : Represents l L) (n : Nat) : Represents (l.reserve n) L where
  nodup := h.nodup
  storable := h.storable
  reserved := fun b hb => by
    have := h.reserved b hb
    simp only [slots_reserve, Array.size_append]
    omega
  head := h.head
  length := h.length
  member := fun xs b ys hL => by rw [link?_reserve, h.member xs b ys hL]
  other := fun b h8 hb => by rw [link?_reserve, h.other b h8 hb]
  occupied := fun b => by rw [occupied_reserve, h.occupied b]

/-! ## Inserting -/

theorem Represents.not_mem_of_vacant (h : Represents l L) {b : Nat} (hv : l.occupied b = false) :
    b ∉ L := by
  intro hm
  rw [(h.occupied b).mpr ⟨b, hm, rfl⟩] at hv
  cases hv

section
variable {b : Nat} (h : Represents l L) (hb : Storable b) (hs : slotOf b < l.slots.size)
  (hv : l.occupied b = false)
include h hb hs hv

theorem Represents.link?_insertFront {c : Nat} (hc : 8 ∣ c) :
    (l.insertFront b).link? c =
      if c = b then some ⟨L.head?, none⟩
      else if L.head? = some c then (l.link? c).map fun k => { k with prev := some b }
      else l.link? c := by
  have hn : ∀ n ∈ L.head?, Storable n := fun n hm => h.storable n (List.mem_of_head? hm)
  have hk : Link.Storable { next := L.head? } := ⟨hn, fun _ e => nomatch e⟩
  have hl := h.linksStorable.setLink_of_vacant hk hb.1 hs hv
  have e : (l.insertFront b).link? c =
      ((l.setLink b { next := L.head? }).setPrev L.head? (some b)).link? c := by
    simp only [insertFront, h.head]
    rfl
  rw [e, link?_setPrev hl (fun n hm => (hn n hm).1) (fun _ e => Option.some.inj e ▸ hb) hc,
    link?_setLink_of_vacant hk hb.1 hs hv hc]
  by_cases hcb : c = b
  · have : L.head? ≠ some c := fun e =>
      h.not_mem_of_vacant hv (hcb ▸ List.mem_of_head? e)
    rw [if_neg this, if_pos hcb, if_pos hcb]
  · rw [if_neg hcb, if_neg hcb]

theorem Represents.occupied_insertFront (c : Nat) :
    (l.insertFront b).occupied c = (decide (slotOf c = slotOf b) || l.occupied c) := by
  have hn : ∀ n ∈ L.head?, Storable n := fun n hm => h.storable n (List.mem_of_head? hm)
  have hk : Link.Storable { next := L.head? } := ⟨hn, fun _ e => nomatch e⟩
  have hl := h.linksStorable.setLink_of_vacant hk hb.1 hs hv
  have e : (l.insertFront b).occupied c =
      ((l.setLink b { next := L.head? }).setPrev L.head? (some b)).occupied c := by
    simp only [insertFront, h.head]
    rfl
  rw [e, occupied_setPrev hl (fun n hm => (hn n hm).1) (fun _ e => Option.some.inj e ▸ hb),
    occupied_setLink hk hs]

theorem Represents.member_insertFront {c : Nat} {us vs : List Nat} (hL : b :: L = us ++ c :: vs) :
    (l.insertFront b).link? c = some ⟨vs.head?, us.getLast?⟩ := by
  have hbL := h.not_mem_of_vacant hv
  have hc : 8 ∣ c := by
    have : c ∈ b :: L := by rw [hL]; simp
    rcases List.mem_cons.mp this with rfl | hm
    · exact hb.1
    · exact (h.storable c hm).1
  rw [h.link?_insertFront hb hs hv hc]
  cases us with
  | nil =>
    obtain ⟨rfl, rfl⟩ := List.cons.inj hL
    simp
  | cons u us =>
    obtain ⟨rfl, rfl⟩ := List.cons.inj hL
    have hcb : c ≠ b := fun e => hbL (by simp [e])
    rw [if_neg hcb, h.member us c vs rfl]
    cases us with
    | nil => simp
    | cons x us =>
      have hxc : x ≠ c := fun e => by
        have := h.nodup
        simp [e] at this
      simp [hxc, List.getLast?_cons]

theorem Represents.insertFront : Represents (l.insertFront b) (b :: L) where
  nodup := List.nodup_cons.mpr ⟨h.not_mem_of_vacant hv, h.nodup⟩
  storable := List.forall_mem_cons.mpr ⟨hb, h.storable⟩
  reserved := by
    rw [size_insertFront]
    exact List.forall_mem_cons.mpr ⟨hs, h.reserved⟩
  head := by
    simp only [FreeList.insertFront, head_setPrev, FreeList.setLink, h.head]
    cases L with
    | nil => rfl
    | cons n L => simp
  length := by
    simp only [FreeList.insertFront, length_setPrev, FreeList.setLink, h.length, List.length_cons]
  member _ _ _ hL := h.member_insertFront hb hs hv hL
  other c h8 hc := by
    obtain ⟨hcb, hcL⟩ := not_or.mp (mt List.mem_cons.mpr hc)
    have hhead : L.head? ≠ some c := fun e => hcL (List.mem_of_head? e)
    rw [h.link?_insertFront hb hs hv h8, if_neg hcb, if_neg hhead, h.other c h8 hcL]
  occupied c := by
    rw [h.occupied_insertFront hb hs hv, Bool.or_eq_true, decide_eq_true_eq, h.occupied]
    simp [eq_comm]

end

/-! ## Erasing -/

section
variable {b : Nat} {xs ys : List Nat} (h : Represents l (xs ++ b :: ys))
include h

theorem Represents.not_mem_erased : b ∉ xs ++ ys := by
  have hnd := List.nodup_append.mp h.nodup
  intro hb
  rcases List.mem_append.mp hb with hb | hb
  · exact hnd.2.2 b hb b List.mem_cons_self rfl
  · exact (List.nodup_cons.mp hnd.2.1).1 hb

theorem Represents.link?_erase {c : Nat} (hc : 8 ∣ c) :
    (l.erase b).link? c =
      if c = b then none
      else if ys.head? = some c then (l.link? c).map fun k => { k with prev := xs.getLast? }
      else if xs.getLast? = some c then (l.link? c).map fun k => { k with next := ys.head? }
      else l.link? c := by
  have hm := h.member xs b ys rfl
  have hb : 8 ∣ b := (h.storable b (by simp)).1
  have hp : ∀ d ∈ xs.getLast?, Storable d := fun d hd =>
    h.storable d (List.mem_append_left _ (List.mem_of_getLast? hd))
  have hn : ∀ d ∈ ys.head?, Storable d := fun d hd =>
    h.storable d (List.mem_append_right _ (List.mem_cons_of_mem _ (List.mem_of_head? hd)))
  have hnd := List.nodup_append.mp h.nodup
  have hpb : xs.getLast? ≠ some b := fun e =>
    h.not_mem_erased (List.mem_append_left _ (List.mem_of_getLast? e))
  have hnb : ys.head? ≠ some b := fun e =>
    h.not_mem_erased (List.mem_append_right _ (List.mem_of_head? e))
  have hl := h.linksStorable.setNext (fun d hd => (hp d hd).1) hn
  have hlink : ∀ d, 8 ∣ d →
      ((l.setNext xs.getLast? ys.head?).setPrev ys.head? xs.getLast?).link? d =
        if ys.head? = some d then (l.link? d).map fun k => { k with prev := xs.getLast? }
        else if xs.getLast? = some d then (l.link? d).map fun k => { k with next := ys.head? }
        else l.link? d := by
    intro d hd
    rw [link?_setPrev hl (fun d hd => (hn d hd).1) hp hd,
      link?_setNext h.linksStorable (fun d hd => (hp d hd).1) hn hd]
    by_cases h₁ : ys.head? = some d
    · have h₂ : xs.getLast? ≠ some d := fun e => hnd.2.2 d (List.mem_of_getLast? e) d
        (List.mem_cons_of_mem _ (List.mem_of_head? h₁)) rfl
      rw [if_pos h₁, if_pos h₁, if_neg h₂]
    · rw [if_neg h₁, if_neg h₁]
  have hself := hlink b hb
  rw [if_neg hnb, if_neg hpb, hm] at hself
  have e : (l.erase b).link? c =
      (((l.setNext xs.getLast? ys.head?).setPrev ys.head? xs.getLast?).vacate b).link? c := by
    simp only [erase, hm]
    rfl
  rw [e, link?_vacate_of_member hb hself hc, hlink c hc]

theorem Represents.occupied_erase (c : Nat) :
    (l.erase b).occupied c = (!decide (slotOf c = slotOf b) && l.occupied c) := by
  have hp : ∀ d ∈ xs.getLast?, Storable d := fun d hd =>
    h.storable d (List.mem_append_left _ (List.mem_of_getLast? hd))
  have hn : ∀ d ∈ ys.head?, Storable d := fun d hd =>
    h.storable d (List.mem_append_right _ (List.mem_cons_of_mem _ (List.mem_of_head? hd)))
  have hl := h.linksStorable.setNext (fun d hd => (hp d hd).1) hn
  have e : (l.erase b).occupied c =
      (((l.setNext xs.getLast? ys.head?).setPrev ys.head? xs.getLast?).vacate b).occupied c := by
    simp only [erase, h.member xs b ys rfl]
    rfl
  rw [e, occupied_vacate, occupied_setPrev hl (fun d hd => (hn d hd).1) hp,
    occupied_setNext h.linksStorable (fun d hd => (hp d hd).1) hn]

theorem Represents.member_erase {d : Nat} {us vs : List Nat} (hL : xs ++ ys = us ++ d :: vs) :
    (l.erase b).link? d = some ⟨vs.head?, us.getLast?⟩ := by
  have hnd := List.nodup_append.mp h.nodup
  have hnodup : (us ++ d :: vs).Nodup := hL ▸ h.nodup.sublist (by simp)
  have hd : d ∈ xs ++ ys := by rw [hL]; simp
  have h8 := (h.storable d (by rcases List.mem_append.mp hd with hd | hd <;> simp [hd])).1
  have hdb : d ≠ b := fun e => h.not_mem_erased (e ▸ hd)
  rw [h.link?_erase h8, if_neg hdb]
  -- the member stands either after the gap or before it
  rcases List.append_eq_append_iff.mp hL with ⟨as, rfl, rfl⟩ | ⟨cs, rfl, hcs⟩
  · have hlast : xs.getLast? ≠ some d := fun e =>
      hnd.2.2 d (List.mem_of_getLast? e) d (by simp) rfl
    rw [h.member (xs ++ b :: as) d vs (by simp), if_neg hlast]
    cases as with
    | nil => simp
    | cons a as =>
      have had : a ≠ d := (List.nodup_append.mp hnodup).2.2 a (by simp) d List.mem_cons_self
      simp [had, List.getLast?_cons]
  · cases cs with
    | nil =>
      obtain rfl : d :: vs = ys := by simpa using hcs
      rw [h.member (us ++ [] ++ [b]) d vs (by simp)]
      simp
    | cons c cs =>
      obtain ⟨rfl, rfl⟩ := List.cons.inj hcs
      have hhead : ys.head? ≠ some d := fun e =>
        hnd.2.2 d (by simp) d (List.mem_cons_of_mem _ (List.mem_of_head? e)) rfl
      rw [h.member us d (cs ++ b :: ys) (by simp), if_neg hhead]
      rcases List.eq_nil_or_concat cs with rfl | ⟨cs, c, rfl⟩
      · simp
      · rw [List.concat_eq_append] at *
        have hdc := (List.nodup_cons.mp (List.nodup_append.mp hnodup).2.1).1
        have hcd : c ≠ d := fun e => hdc (by simp [e])
        have hlast : (us ++ d :: (cs ++ [c])).getLast? = some c := by
          rw [← List.cons_append, ← List.append_assoc, List.getLast?_concat]
        rw [hlast, if_neg (fun e => hcd (Option.some.inj e))]
        cases cs <;> rfl

theorem Represents.erase_middle : Represents (l.erase b) (xs ++ ys) := by
  have hbnot := h.not_mem_erased
  have hsub : ∀ c ∈ xs ++ ys, c ∈ xs ++ b :: ys := fun c hc => by
    rcases List.mem_append.mp hc with hc | hc <;> simp [hc]
  refine
    { nodup := h.nodup.sublist (by simp)
      storable := fun c hc => h.storable c (hsub c hc)
      reserved := ?reserved
      head := ?head
      length := ?length
      member := fun _ _ _ hL => h.member_erase hL
      other := ?other
      occupied := ?occupied }
  case reserved =>
    rw [size_erase]
    exact fun c hc => h.reserved c (hsub c hc)
  case head =>
    simp only [FreeList.erase, h.member xs b ys rfl, vacate, head_setPrev, head_setNext, h.head]
    cases ys with
    | nil => rcases List.eq_nil_or_concat xs with rfl | ⟨xs, x, rfl⟩ <;> simp
    | cons y ys => rcases List.eq_nil_or_concat xs with rfl | ⟨xs, x, rfl⟩ <;> simp
  case length =>
    simp only [FreeList.erase, h.member xs b ys rfl, vacate, length_setPrev, length_setNext, h.length,
      List.length_append, List.length_cons]
    omega
  case other =>
    intro c h8 hc
    rw [h.link?_erase h8]
    by_cases hcb : c = b
    · rw [if_pos hcb]
    · have : c ∉ xs ++ b :: ys := by simp_all
      rw [if_neg hcb, h.other c h8 this]
      simp
  case occupied =>
    intro c
    rw [h.occupied_erase, Bool.and_eq_true, Bool.not_eq_true', decide_eq_false_iff_not, h.occupied]
    constructor
    · intro hq
      obtain ⟨hne, d, hd, hdc⟩ := hq
      refine ⟨d, ?_, hdc⟩
      have : d ≠ b := fun e => hne (by rw [← hdc, e])
      simp_all
    · intro hq
      obtain ⟨d, hd, hdc⟩ := hq
      refine ⟨fun e => ?_, d, hsub d hd, hdc⟩
      have : d = b := h.slot_inj (by simp) (hsub d hd) (hdc.trans e)
      exact hbnot (this ▸ hd)

end

theorem Represents.erase (h : Represents l L) {b : Nat} (h8 : 8 ∣ b) :
    Represents (l.erase b) (L.erase b) := by
  by_cases hb : b ∈ L
  · obtain ⟨xs, ys, rfl⟩ := List.append_of_mem hb
    have hx : b ∉ xs := fun hm =>
      (List.nodup_append.mp h.nodup).2.2 b hm b List.mem_cons_self rfl
    rw [List.erase_append_right _ hx, List.erase_cons_head]
    exact h.erase_middle
  · rw [List.erase_of_not_mem hb, FreeList.erase, h.other b h8 hb]
    exact h

/-! ## The view -/

theorem Represents.follow_suffix {xs ys : List Nat} (h : Represents l (xs ++ ys)) {fuel : Nat}
    (hf : ys.length ≤ fuel) : l.follow fuel ys.head? = ys := by
  induction ys generalizing xs fuel with
  | nil => cases fuel <;> rfl
  | cons y ys ih =>
    obtain ⟨fuel, rfl⟩ := Nat.exists_eq_add_one_of_ne_zero (n := fuel) (by
      simp only [List.length_cons] at hf
      omega)
    simp only [List.length_cons, Nat.add_le_add_iff_right] at hf
    have h' : Represents l ((xs ++ [y]) ++ ys) := by
      rw [List.append_assoc]
      exact h
    rw [List.head?_cons, follow, h.member xs y ys rfl, Option.bind_some, ih h' hf]

theorem Represents.follow_eq (h : Represents l L) {fuel : Nat} (hf : L.length ≤ fuel) :
    l.follow fuel l.head.next = L := by
  have h' : Represents l ([] ++ L) := h
  rw [h.head]
  exact h'.follow_suffix hf

theorem Represents.length_le (h : Represents l L) : L.length ≤ l.slots.size := by
  have hn : (L.map slotOf).Nodup :=
    List.Nodup.map_on (fun b hb c hc e => (h.slot_inj hc hb e)) h.nodup
  have hs : L.map slotOf ⊆ List.range l.slots.size := fun s hs => by
    obtain ⟨b, hb, rfl⟩ := List.mem_map.mp hs
    exact List.mem_range.mpr (h.reserved b hb)
  have := (List.subperm_of_subset hn hs).length_le
  rwa [List.length_map, List.length_range] at this

theorem Represents.toList_eq (h : Represents l L) : l.toList = L := h.follow_eq h.length_le

/-! ## Checks -/

theorem checkAligned_of_dvd {b : Nat} (h : 8 ∣ b) : checkAligned b = .ok () :=
  if_pos (Nat.mod_eq_zero_of_dvd h)

theorem link_eq_of_dvd (l : FreeList) {b : Nat} (h8 : 8 ∣ b) : l.link b = .ok (l.link? b) := by
  rw [FreeList.link, checkAligned_of_dvd h8]
  rfl

theorem checkLink_of_storable {k : Link} (h : k.Storable) : checkLink k = .ok () := by
  obtain ⟨next, prev⟩ := k
  have hc : ∀ x : Option Nat, (∀ b ∈ x, Storable b) → checkAddressable x = .ok () := by
    intro x hx
    cases x with
    | none => rfl
    | some b => exact if_pos (hx b rfl).2
  unfold checkLink
  rw [hc next h.1, hc prev h.2]
  rfl

theorem Represents.checkSetNext (h : Represents l L) {x y : Option Nat} (hx : ∀ b ∈ x, b ∈ L)
    (hy : ∀ b ∈ y, Storable b) : l.checkSetNext x y = .ok () := by
  cases x with
  | none => rfl
  | some b =>
    obtain ⟨xs, ys, hL⟩ := List.append_of_mem (hx b rfl)
    have hm := h.member xs b ys hL
    have hk := h.linksStorable b _ (h.storable b (hx b rfl)).1 hm
    simp only [FreeList.checkSetNext, hm]
    exact checkLink_of_storable ⟨hy, hk.2⟩

theorem Represents.checkSetPrev (h : Represents l L) {x y : Option Nat} (hx : ∀ b ∈ x, b ∈ L)
    (hy : ∀ b ∈ y, Storable b) : l.checkSetPrev x y = .ok () := by
  cases x with
  | none => rfl
  | some b =>
    obtain ⟨xs, ys, hL⟩ := List.append_of_mem (hx b rfl)
    have hm := h.member xs b ys hL
    have hk := h.linksStorable b _ (h.storable b (hx b rfl)).1 hm
    simp only [FreeList.checkSetPrev, hm]
    exact checkLink_of_storable ⟨hk.1, hy⟩

theorem Represents.checkInsert_eq (h : Represents l L) {b : Nat} (hb : Storable b) :
    l.checkInsert b =
      if l.slots.size ≤ slotOf b then .error (.unreserved b)
      else if l.occupied b then .error (.sharedSlot b) else .ok () := by
  have hn : ∀ n ∈ L.head?, n ∈ L := fun n hm => List.mem_of_head? hm
  have hk : Link.Storable { next := L.head? } :=
    ⟨fun n hm => h.storable n (hn n hm), fun _ e => nomatch e⟩
  have hp := h.checkSetPrev (y := some b) hn (fun _ e => Option.some.inj e ▸ hb)
  unfold FreeList.checkInsert
  rw [checkAligned_of_dvd hb.1, h.head, checkLink_of_storable hk, hp]
  by_cases h₁ : l.slots.size ≤ slotOf b
  · rw [if_pos h₁, if_pos h₁]
    rfl
  · rw [if_neg h₁, if_neg h₁]
    by_cases h₂ : l.occupied b = true
    · rw [if_pos h₂, if_pos h₂]
      rfl
    · rw [if_neg h₂, if_neg h₂]
      rfl

theorem Represents.checkErase_eq (h : Represents l L) {b : Nat} (h8 : 8 ∣ b) :
    l.checkErase b = .ok () := by
  unfold FreeList.checkErase
  rw [checkAligned_of_dvd h8]
  by_cases hb : b ∈ L
  · obtain ⟨xs, ys, rfl⟩ := List.append_of_mem hb
    have hp : ∀ d ∈ xs.getLast?, d ∈ xs ++ b :: ys := fun d hd =>
      List.mem_append_left _ (List.mem_of_getLast? hd)
    have hn : ∀ d ∈ ys.head?, d ∈ xs ++ b :: ys := fun d hd =>
      List.mem_append_right _ (List.mem_cons_of_mem _ (List.mem_of_head? hd))
    rw [h.member xs b ys rfl]
    dsimp only
    rw [h.checkSetNext hp (fun d hd => h.storable d (hn d hd)),
      h.checkSetPrev hn (fun d hd => h.storable d (hp d hd))]
    rfl
  · rw [h.other b h8 hb]
    rfl

end

end BoundaryTag.FreeList
