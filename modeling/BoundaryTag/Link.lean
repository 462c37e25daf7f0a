import BoundaryTag.Arena

/-!
# Links and their stored form

A member of the free list links to the member after it and the one before it. The table stores a link
as two words that hold offsets in units of `alignment`. One number is left over for "no member", and
one for a slot that holds no link at all. The top bit of the second word is free: it tells which of
the slot's two offsets is the member.

Main statements: `decode_encode` (an offset reads back), `link_pack`, `isOdd_pack` and
`isVacant_pack` (a stored link reads back, with its parity, and never looks like a vacant slot).
-/

namespace BoundaryTag

structure Link where
  next : Option Nat := none
  prev : Option Nat := none
deriving DecidableEq, Repr

structure Entry where
  next : UInt32
  prev : UInt32
deriving DecidableEq, Repr

namespace Entry

def nil : UInt32 := 0x7fffffff
def vacantMark : UInt32 := 0xffffffff
def oddBit : UInt32 := 0x80000000

def vacant : Entry := ⟨vacantMark, nil⟩

def isVacant (e : Entry) : Bool := e.next == vacantMark

def isOdd (e : Entry) : Bool := e.prev &&& oddBit != 0

def encode : Option Nat → UInt32
  | some block => UInt32.ofNat (block / alignment)
  | none => nil

def decode (w : UInt32) : Option Nat := if w = nil then none else some (w.toNat * alignment)

def link (e : Entry) : Link := ⟨decode e.next, decode (e.prev &&& ~~~oddBit)⟩

/-- The stored form of `link`, for the odd or the even offset of its slot. -/
def pack (odd : Bool) (link : Link) : Entry :=
  ⟨encode link.next, encode link.prev ||| if odd then oddBit else 0⟩

end Entry

def Storable (block : Nat) : Prop := 8 ∣ block ∧ block < Arena.maxSize

def Link.Storable (k : Link) : Prop :=
  (∀ b ∈ k.next, BoundaryTag.Storable b) ∧ ∀ b ∈ k.prev, BoundaryTag.Storable b

namespace Entry

/-! ## Words -/

theorem toNat_encode_some {b : Nat} (h : Storable b) : (encode (some b)).toNat = b / 8 := by
  have hb := h.2
  simp only [Arena.maxSize] at hb
  simp only [encode, alignment, UInt32.toNat_ofNat']
  omega

theorem toNat_encode_lt {x : Option Nat} (h : ∀ b ∈ x, Storable b) :
    (encode x).toNat < oddBit.toNat := by
  have ho : oddBit.toNat = 2147483648 := rfl
  cases x with
  | none => decide
  | some b =>
    have hb := h b rfl
    have := hb.2
    simp only [Arena.maxSize] at this
    rw [toNat_encode_some hb]
    omega

theorem decode_encode {x : Option Nat} (h : ∀ b ∈ x, Storable b) : decode (encode x) = x := by
  cases x with
  | none => rfl
  | some b =>
    have hb := h b rfl
    have hn := toNat_encode_some hb
    obtain ⟨h8, hlt⟩ := hb
    simp only [Arena.maxSize] at hlt
    have hne : encode (some b) ≠ nil := by
      intro e
      have : nil.toNat = 2147483647 := rfl
      rw [e] at hn
      omega
    rw [decode, if_neg hne, hn, alignment, Nat.div_mul_cancel h8]

/-! ## The parity bit -/

theorem toNat_or_oddBit {w : UInt32} (h : w.toNat < oddBit.toNat) :
    (w ||| oddBit).toNat = w.toNat + oddBit.toNat := by
  rw [UInt32.toNat_or]
  exact Nat.or_two_pow_eq_add_of_lt (n := 31) h

theorem toNat_and_not_oddBit (w : UInt32) : (w &&& ~~~oddBit).toNat = w.toNat % oddBit.toNat := by
  rw [UInt32.toNat_and]
  exact Nat.and_two_pow_sub_one_eq_mod w.toNat 31

theorem and_oddBit_eq_zero_iff {w : UInt32} : w &&& oddBit = 0 ↔ w.toNat < oddBit.toNat := by
  have hw : w.toNat < 2 ^ 32 := w.toNat_lt
  have ho : oddBit.toNat = 2 ^ 31 := rfl
  have hb : w.toNat.testBit 31 = decide (2 ^ 31 ≤ w.toNat) := by
    rw [Nat.testBit_eq_decide_div_mod_eq, decide_eq_decide]
    omega
  rw [← UInt32.toNat_inj, UInt32.toNat_and, ho, show (0 : UInt32).toNat = 0 from rfl]
  constructor
  · intro h
    have := congrArg (·.testBit 31) h
    simp only [Nat.testBit_and, hb, Nat.testBit_two_pow_self, Bool.and_true, Nat.zero_testBit,
      decide_eq_false_iff_not] at this
    omega
  · intro h
    apply Nat.eq_of_testBit_eq
    intro i
    rw [Nat.testBit_and, Nat.testBit_two_pow, Nat.zero_testBit]
    by_cases hi : 31 = i
    · subst hi
      simp only [hb, Nat.not_le.mpr h, decide_false, Bool.false_and]
    · simp only [hi, decide_false, Bool.and_false]

theorem toNat_or_parity {w : UInt32} (h : w.toNat < oddBit.toNat) (odd : Bool) :
    (w ||| if odd then oddBit else 0).toNat = w.toNat + if odd then oddBit.toNat else 0 := by
  cases odd with
  | false => simp
  | true => exact toNat_or_oddBit h

/-! ## Stored links -/

theorem isVacant_pack {k : Link} (h : k.Storable) (odd : Bool) : (pack odd k).isVacant = false := by
  have hlt := toNat_encode_lt h.1
  simp only [isVacant, pack, beq_eq_false_iff_ne]
  intro e
  rw [e] at hlt
  exact absurd hlt (by decide)

theorem isOdd_pack {k : Link} (h : k.Storable) (odd : Bool) : (pack odd k).isOdd = odd := by
  have hlt := toNat_encode_lt h.2
  have hn := toNat_or_parity hlt odd
  have hz := and_oddBit_eq_zero_iff (w := encode k.prev ||| if odd then oddBit else 0)
  rw [isOdd, pack, Bool.eq_iff_iff, bne_iff_ne, ne_eq, hz, hn]
  cases odd with
  | false =>
    simp
    omega
  | true => simp

theorem link_pack {k : Link} (h : k.Storable) (odd : Bool) : (pack odd k).link = k := by
  have hlt := toNat_encode_lt h.2
  have hm : (encode k.prev ||| if odd then oddBit else 0) &&& ~~~oddBit = encode k.prev := by
    rw [← UInt32.toNat_inj, toNat_and_not_oddBit, toNat_or_parity hlt odd]
    cases odd <;> simp [Nat.mod_eq_of_lt hlt]
  rw [link, pack]
  dsimp only
  rw [hm, decode_encode h.1, decode_encode h.2]

theorem isVacant_vacant : vacant.isVacant = true := rfl

end Entry

end BoundaryTag
