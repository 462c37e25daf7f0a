import BoundaryTag.Arena
import BoundaryTag.Proofs.Tiling

/-!
# Arenas cut into blocks

`Tiled a bs` says that the tags in the arena `a` describe exactly the blocks `bs`, between a prologue
and an epilogue. Every block repeats its tag, so the words just below and just above any boundary
between two blocks tell what lies there (`Tiled.tag_below`, `Tiled.tag_above`).

Main statement: `Tiled.refit`. Blocks in a row may be replaced by other blocks over the same bytes, as
long as nothing outside these bytes is written and the new blocks have their tags.
-/

namespace BoundaryTag

def Block.tag (b : Block) : Tag := Tag.make b.size b.allocated

theorem Block.Proper.size_tag {b : Block} (h : b.Proper) : b.tag.size = b.size :=
  Tag.size_make h.dvd h.most _

theorem Block.Proper.allocated_tag {b : Block} (h : b.Proper) : b.tag.allocated = b.allocated :=
  Tag.allocated_make h.dvd _

namespace Arena

/-! ## Writing in place -/

/-- The arenas differ in what they hold only. -/
structure Alike (a a' : Arena) : Prop where
  size : a'.size = a.size
  supply : a'.supply = a.supply
  announced : a'.announced = a.announced

theorem Alike.refl (a : Arena) : Alike a a := ⟨rfl, rfl, rfl⟩

theorem Alike.trans {a b c : Arena} (h : Alike a b) (h' : Alike b c) : Alike a c :=
  ⟨h'.size.trans h.size, h'.supply.trans h.supply, h'.announced.trans h.announced⟩

theorem Alike.ceiling {a a' : Arena} (h : Alike a a') : a'.ceiling = a.ceiling := by
  simp only [Arena.ceiling, h.supply, h.size]

theorem alike_setTag (a : Arena) (i : Nat) (t : Tag) : Alike a (a.setTag i t) :=
  ⟨size_setTag a i t, supply_setTag a i t, announced_setTag a i t⟩

theorem alike_splice {a : Arena} {i : Nat} {src : ByteArray} (h : i + src.size ≤ a.size) :
    Alike a (a.splice i src) := ⟨size_splice h, supply_splice a i src, announced_splice a i src⟩

/-- The arenas differ at most in the bytes from `lo` up to `hi`. -/
structure Patch (a a' : Arena) (lo hi : Nat) : Prop where
  alike : Alike a a'
  outside : ∀ i, i < lo ∨ hi ≤ i → a'.byte? i = a.byte? i

theorem Patch.refl (a : Arena) (lo hi : Nat) : Patch a a lo hi := ⟨Alike.refl a, fun _ _ => rfl⟩

theorem Patch.trans {a b c : Arena} {lo hi : Nat} (h : Patch a b lo hi) (h' : Patch b c lo hi) :
    Patch a c lo hi :=
  ⟨h.alike.trans h'.alike, fun i hi => (h'.outside i hi).trans (h.outside i hi)⟩

theorem Patch.mono {a a' : Arena} {lo hi lo' hi' : Nat} (h : Patch a a' lo hi) (hl : lo' ≤ lo)
    (hh : hi ≤ hi') : Patch a a' lo' hi' :=
  ⟨h.alike, fun i hi => h.outside i (by omega)⟩

theorem Patch.tag? {a a' : Arena} {lo hi : Nat} (h : Patch a a' lo hi) {i : Nat}
    (hi : i + 4 ≤ lo ∨ hi ≤ i) : a'.tag? i = a.tag? i :=
  tag?_congr fun k hk => h.outside (i + k) (by omega)

/-! ## The two words of a block -/

def Tagged (a : Arena) (b : Block) : Prop :=
  a.tag? (b.offset - 4) = some b.tag ∧ a.tag? (b.stop - 8) = some b.tag

theorem Patch.tagged {a a' : Arena} {b : Block} {lo hi : Nat} (hp : Patch a a' lo hi)
    (ht : a.Tagged b) (hs : 8 ≤ b.size) (ho : 8 ≤ b.offset)
    (hd : b.stop ≤ lo + 4 ∨ hi + 4 ≤ b.offset ∨ b.offset ≤ lo ∧ hi + 8 ≤ b.stop) :
    a'.Tagged b := by
  simp only [Block.stop] at hd
  constructor
  · rw [hp.tag? (by omega)]
    exact ht.1
  · rw [hp.tag? (by simp only [Block.stop]; omega)]
    exact ht.2

/-- The arenas differ at most in the two words of the block `b`. -/
structure Retagged (a a' : Arena) (b : Block) : Prop where
  alike : Alike a a'
  elsewhere : ∀ i, i + 4 < b.offset ∨ b.offset ≤ i → i + 8 < b.stop ∨ b.stop ≤ i + 4 →
    a'.byte? i = a.byte? i

theorem Retagged.refl (a : Arena) (b : Block) : Retagged a a b := ⟨Alike.refl a, fun _ _ _ => rfl⟩

theorem Retagged.patch {a a' : Arena} {b : Block} (h : Retagged a a' b) (hs : 8 ≤ b.size) :
    Patch a a' (b.offset - 4) (b.stop - 4) := by
  refine ⟨h.alike, fun i hi => h.elsewhere i ?_ ?_⟩
  · simp only [Block.stop] at *
    omega
  · simp only [Block.stop] at *
    omega

/-- Above a multiple of eight lie payloads, and below it headers: the footer of one block is never in the place of
another's header. -/
theorem Retagged.header {a a' : Arena} {b : Block} {o : Nat} (h : Retagged a a' b) (hb : 8 ∣ b.offset)
    (hs : 8 ∣ b.size) (h8 : 8 ∣ o) (ho : 4 ≤ o) (hne : o ≠ b.offset) :
    a'.tag? (o - 4) = a.tag? (o - 4) := by
  refine tag?_congr fun k hk => h.elsewhere _ ?_ ?_
  · omega
  · simp only [Block.stop]
    omega

def setBlock (a : Arena) (b : Block) : Arena :=
  (a.setTag (b.offset - 4) b.tag).setTag (b.stop - 8) b.tag

section
variable {a : Arena} {b : Block}

theorem alike_setBlock (a : Arena) (b : Block) : Alike a (a.setBlock b) :=
  (alike_setTag a _ _).trans (alike_setTag _ _ _)

theorem tagged_setBlock (hs : 8 ≤ b.size) (hb : 4 ≤ b.offset) (he : b.stop ≤ a.size + 4) :
    (a.setBlock b).Tagged b := by
  simp only [Block.stop] at he
  have h₁ : b.offset - 4 + 4 ≤ a.size := by omega
  have h₂ : b.stop - 8 + 4 ≤ (a.setTag (b.offset - 4) b.tag).size := by
    rw [size_setTag, Block.stop]
    omega
  constructor
  · rw [setBlock, tag?_setTag_of_disjoint _ h₂ (by simp only [Block.stop]; omega), tag?_setTag _ h₁]
  · exact tag?_setTag _ h₂

theorem byte?_setBlock (hs : 8 ≤ b.size) (hb : 4 ≤ b.offset) (he : b.stop ≤ a.size + 4) {i : Nat}
    (hh : i + 4 < b.offset ∨ b.offset ≤ i) (hf : i + 8 < b.stop ∨ b.stop ≤ i + 4) :
    (a.setBlock b).byte? i = a.byte? i := by
  have hst : b.stop = b.offset + b.size := rfl
  have h₁ : b.offset - 4 + 4 ≤ a.size := by omega
  have h₂ : b.stop - 8 + 4 ≤ (a.setTag (b.offset - 4) b.tag).size := by
    rw [size_setTag]
    omega
  rw [setBlock, byte?_setTag_of_disjoint _ h₂ (by omega), byte?_setTag_of_disjoint _ h₁ (by omega)]

theorem retagged_setBlock (hs : 8 ≤ b.size) (hb : 4 ≤ b.offset) (he : b.stop ≤ a.size + 4) :
    Retagged a (a.setBlock b) b :=
  ⟨alike_setBlock a b, fun _ hh hf => byte?_setBlock hs hb he hh hf⟩

theorem patch_setBlock (hs : 8 ≤ b.size) (hb : 4 ≤ b.offset) (he : b.stop ≤ a.size + 4) :
    Patch a (a.setBlock b) (b.offset - 4) (b.stop - 4) := (retagged_setBlock hs hb he).patch hs

end

theorem tagged_setBlocks {a : Arena} {bs : List Block} {m e : Nat} (ht : Tiling m bs e)
    (hm : 8 ≤ m) (he : e ≤ a.size + 4) :
    Patch a (bs.foldl setBlock a) (m - 4) (e - 4) ∧ ∀ b ∈ bs, (bs.foldl setBlock a).Tagged b := by
  induction bs generalizing a m with
  | nil => exact ⟨Patch.refl a _ _, fun b hb => nomatch hb⟩
  | cons b bs ih =>
    obtain ⟨rfl, hb, ht⟩ := ht
    have hle := ht.le
    have hleast := hb.least
    have hst : b.stop = b.offset + b.size := rfl
    have hin : b.stop ≤ a.size + 4 := Nat.le_trans hle he
    have hp := patch_setBlock (a := a) (b := b) (by omega) (by omega) hin
    have htb := tagged_setBlock (a := a) (b := b) (by omega) (by omega) hin
    rw [List.foldl_cons]
    obtain ⟨hp', ht'⟩ := ih (a := a.setBlock b) ht (by omega) (by rwa [(alike_setBlock a b).size])
    have htb' := hp'.tagged htb (by omega) hm (Or.inl (by omega))
    exact ⟨(hp.mono (Nat.le_refl _) (by omega)).trans (hp'.mono (by omega) (Nat.le_refl _)),
      List.forall_mem_cons.mpr ⟨htb', ht'⟩⟩

end Arena

/-! ## Tiled arenas -/

structure Tiled (a : Arena) (bs : List Block) : Prop where
  honest : a.announced = none
  within : a.size ≤ a.ceiling
  bounded : a.size ≤ Arena.maxSize
  tiling : Tiling 16 bs a.size
  prologue : a.tag? 4 = some (Tag.make 8 true) ∧ a.tag? 8 = some (Tag.make 8 true)
  tagged : ∀ b ∈ bs, a.Tagged b
  epilogue : a.tag? (a.size - 4) = some Tag.epilogue

/-- The tag of the block that ends a row of blocks, or of the prologue. -/
def tagBelow (xs : List Block) : Tag :=
  match xs.getLast? with
  | some b => b.tag
  | none => Tag.make 8 true

/-- The tag of the block that begins a row of blocks, or of the epilogue. -/
def tagAbove : List Block → Tag
  | b :: _ => b.tag
  | [] => Tag.epilogue

theorem tagBelow_concat (xs : List Block) (b : Block) : tagBelow (xs ++ [b]) = b.tag := by
  rw [tagBelow, List.getLast?_concat]

section
variable {a a' : Arena} {bs xs ys mid mid' : List Block} {b : Block} {m e : Nat}

theorem Tiled.top_eq (h : Tiled a bs) : a.top = a.size := by
  rw [Arena.top, h.honest]
  rfl

theorem Tiled.sixteen_le (h : Tiled a bs) : 16 ≤ a.size := h.tiling.le

theorem Tiled.payload_le (h : Tiled a bs) (hb : b ∈ bs) : b.offset + (b.size - 8) ≤ a.size := by
  have hend := (h.tiling.bounds hb).2
  simp only [Block.stop] at hend
  omega

theorem Tiled.dvd_size (h : Tiled a bs) : 8 ∣ a.size := h.tiling.dvd (by decide)

theorem Tiled.tag_below (h : Tiled a (xs ++ ys)) (hm : Tiling 16 xs m) :
    a.tag? (m - 8) = some (tagBelow xs) := by
  rcases List.eq_nil_or_concat xs with rfl | ⟨xs, b, rfl⟩
  · obtain rfl : 16 = m := hm
    exact h.prologue.2
  · rw [List.concat_eq_append] at *
    obtain ⟨_, _, hb⟩ := hm.split
    obtain rfl : b.stop = m := hb
    simp only [tagBelow_concat]
    exact (h.tagged b (by simp)).2

theorem Tiled.tag_above (h : Tiled a (xs ++ ys)) (hm : Tiling 16 xs m) :
    a.tag? (m - 4) = some (tagAbove ys) := by
  obtain ⟨m', h₁, h₂⟩ := tiling_append.mp h.tiling
  obtain rfl := hm.end_unique h₁
  cases ys with
  | nil =>
    obtain rfl : m = a.size := h₂
    exact h.epilogue
  | cons b ys =>
    obtain ⟨rfl, _⟩ := h₂
    exact (h.tagged b (by simp)).1

theorem Tiled.tagged_of_patch (h : Tiled a bs) (hp : a.Patch a' m e) (hb : b ∈ bs)
    (hd : b.stop ≤ m + 4 ∨ e + 4 ≤ b.offset) : a'.Tagged b := by
  have := (h.tiling.proper hb).least
  have := (h.tiling.bounds hb).1
  exact hp.tagged (h.tagged b hb) (by omega) (by omega) (by omega)

theorem Tiled.refit (h : Tiled a (xs ++ mid ++ ys)) (hs : Tiling 16 xs m) (hm : Tiling m mid e)
    (hm' : Tiling m mid' e) (hp : a.Patch a' (m - 4) (e - 4)) (ht : ∀ b ∈ mid', a'.Tagged b) :
    Tiled a' (xs ++ mid' ++ ys) := by
  obtain ⟨e', h₁, hys⟩ := tiling_append.mp h.tiling
  obtain rfl := h₁.end_unique (tiling_append.mpr ⟨m, hs, hm⟩)
  have hsize := hp.alike.size
  have hm16 := hs.le
  have hme := hm.le
  have hea := hys.le
  refine
    { honest := by rw [hp.alike.announced, h.honest]
      within := ?within
      bounded := hsize ▸ h.bounded
      tiling := ?tiling
      prologue := ?prologue
      tagged := ?tagged
      epilogue := ?epilogue }
  case within =>
    rw [hsize, hp.alike.ceiling]
    exact h.within
  case tiling =>
    rw [hsize]
    exact tiling_append.mpr ⟨e', tiling_append.mpr ⟨m, hs, hm'⟩, hys⟩
  case prologue =>
    rw [hp.tag? (by omega), hp.tag? (by omega)]
    exact h.prologue
  case tagged =>
    intro b hb
    rcases List.mem_append.mp hb with hb | hb
    · rcases List.mem_append.mp hb with hb | hb
      · have := (hs.bounds hb).2
        exact h.tagged_of_patch hp (by simp [hb]) (by omega)
      · exact ht b hb
    · have := (hys.bounds hb).1
      exact h.tagged_of_patch hp (by simp [hb]) (by omega)
  case epilogue =>
    rw [hsize, hp.tag? (by omega)]
    exact h.epilogue

end

end BoundaryTag
