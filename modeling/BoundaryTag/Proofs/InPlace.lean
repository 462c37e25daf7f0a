import BoundaryTag.Heap.Realloc
import BoundaryTag.Proofs.Release

/-!
# Growing in place

An allocated block takes in the free blocks beside it. If it takes in the one before it, its payload
moves down; the old and the new range may overlap. Either way the payload keeps its bytes, and all other
payloads stay where they are.

Main statements: `Growth.plan_eq_none_iff` (when there is no way to grow in place), `Heap.grow_meets` (what the
planned way does) and `Growth.Feasible.le_grown` (that it suffices).
-/

namespace BoundaryTag

/-! ## Writing into a payload -/

namespace Arena

variable {a : Arena} {src n dst i : Nat} {bytes : ByteArray}

theorem patch_splice (h : i + bytes.size ≤ a.size) :
    Patch a (a.splice i bytes) i (i + bytes.size) := by
  refine ⟨alike_splice h, fun j hj => ?_⟩
  rw [byte?_splice j h, if_neg (by omega)]

theorem patch_move (hs : src + n ≤ a.size) (hd : dst + n ≤ a.size) :
    Patch a (a.move src n dst) dst (dst + n) := by
  have hn := size_extract hs
  have hp : Patch a (a.move src n dst) dst (dst + (a.bytes.extract src (src + n)).size) :=
    patch_splice (by omega)
  rwa [hn] at hp

/-- The payload of the block `b` begins at `o` now. From its end up to the footer below `e` nothing changed. -/
structure Shifted (a a' : Arena) (b : Block) (o e : Nat) : Prop where
  moved : ∀ i, i + 8 < b.size → a'.byte? (o + i) = a.byte? (b.offset + i)
  above : ∀ i, o + b.size ≤ i + 8 → i + 8 < e → a'.byte? i = a.byte? i

theorem Shifted.tag_above {a' : Arena} {b : Block} {o e : Nat} (h : a.Shifted a' b o e)
    (hlo : o + b.size ≤ i + 8) (hhi : i + 12 ≤ e) : a'.tag? i = a.tag? i :=
  tag?_congr fun k hk => h.above _ (by omega) (by omega)

end Arena

section
variable {h : Heap} {xs ys : List Block} {b : Block} {L : List Nat} {a : Arena}

theorem Sound.repaint (hs : Sound h (xs ++ b :: ys) L)
    (hp : h.arena.Patch a b.offset (b.stop - 8)) :
    Sound { h with arena := a } (xs ++ b :: ys) L ∧ Frame h { h with arena := a } (xs ++ ys) := by
  obtain ⟨hxs, hb, hys⟩ := hs.laid.tiled.tiling.split
  have hge := hxs.le
  have hleast := hb.least
  have hstop : b.stop = b.offset + b.size := rfl
  have hbm : b ∈ xs ++ b :: ys := List.mem_append_cons_self
  have hwide := hp.mono (show b.offset - 4 ≤ b.offset by omega) (show b.stop - 8 ≤ b.stop - 4 by omega)
  have htag : a.Tagged b :=
    hp.tagged (hs.laid.tiled.tagged b hbm) (by omega) (by omega) (Or.inr (Or.inr (by omega)))
  have hmid : Tiling b.offset [b] b.stop := ⟨rfl, hb, rfl⟩
  have hl : Laid { h with arena := a } (xs ++ [b] ++ ys) L := by
    have hl := hs.laid
    rw [List.append_cons] at hl
    exact hl.refit hxs hmid hmid hl.initialized hwide (by simpa using htag) hl.list rfl hl.listed
  rw [← List.append_cons] at hl
  refine ⟨⟨hl, hs.settled, ⟨⟨?_, hs.counted.extensions⟩, hs.counted.allocations,
    hs.counted.allocated⟩⟩, ⟨rfl, hp.alike.ceiling, hwide.keeps hs.laid.tiled.tiling⟩⟩
  exact hs.counted.claimed.trans hp.alike.size.symm

end

/-! ## Taking in free neighbours -/

/-- What a plan relies on. -/
def Growth.Feasible (size need : Nat) (before after : Tag) : Growth → Prop
  | .down => before.allocated = false ∧ need ≤ size + before.size
  | .up => after.allocated = false ∧ need ≤ size + after.size
  | .both => before.allocated = false ∧ after.allocated = false ∧
      need ≤ size + before.size + after.size

theorem Growth.feasible_of_plan {size need : Nat} {before after : Tag} {g : Growth}
    (h : plan size need before after = some g) : g.Feasible size need before after := by
  unfold plan at h
  split at h
  · next hd =>
    cases h
    simpa [Feasible] using hd
  · split at h
    · next hu =>
      cases h
      simpa [Feasible] using hu
    · split at h
      · next hb =>
        cases h
        simpa [Feasible] using hb
      · cases h

theorem Growth.plan_eq_none_iff {size need : Nat} {before after : Tag} :
    plan size need before after = none ↔
      ∀ g : Growth, ¬ g.Feasible size need before after := by
  constructor
  · intro h g
    unfold plan at h
    cases g <;> simp only [Feasible] <;> grind
  · intro h
    cases hp : plan size need before after with
    | none => rfl
    | some g => exact absurd (feasible_of_plan hp) (h g)

theorem tagBelow_free {xs : List Block} {e : Nat} (ht : Tiling 16 xs e)
    (hf : (tagBelow xs).allocated = false) :
    ∃ zs q, xs = zs ++ [q] ∧ q.allocated = false ∧ (tagBelow xs).size = q.size := by
  rcases freeLast_cases ht with ⟨_, ha⟩ | ⟨zs, q, rfl, hq⟩
  · rw [ha] at hf
    cases hf
  · refine ⟨zs, q, rfl, hq, ?_⟩
    rw [tagBelow_concat]
    exact ht.split.2.1.size_tag

theorem tagAbove_free {ys : List Block} {i e : Nat} (ht : Tiling i ys e)
    (hf : (tagAbove ys).allocated = false) :
    ∃ n zs, ys = n :: zs ∧ n.allocated = false ∧ (tagAbove ys).size = n.size := by
  rcases freeFirst_cases ht with ⟨_, ha⟩ | ⟨n, zs, rfl, hn⟩
  · rw [ha] at hf
    cases hf
  · exact ⟨n, zs, rfl, hn, ht.2.1.size_tag⟩

def occupying (bs : List Block) : Block := { joined bs with allocated := true }

theorem size_occupying (low : List Block) (b : Block) (high : List Block) :
    (occupying (low ++ b :: high)).size =
      (low.map (·.size)).sum + (b.size + (high.map (·.size)).sum) := by
  simp only [occupying, joined, List.map_append, List.sum_append, List.map_cons, List.sum_cons]

namespace Growth

/-- The blocks that are left below a block that grew, and the free one below that it took in. -/
def below : Growth → List Block → List Block
  | up, xs => xs
  | down, xs | both, xs => belowFree xs

def low : Growth → List Block → List Block
  | up, _ => []
  | down, xs | both, xs => freeLast xs

/-- The free block above that it took in, and the blocks that are left above it. -/
def high : Growth → List Block → List Block
  | down, _ => []
  | up, ys | both, ys => freeFirst ys

def above : Growth → List Block → List Block
  | down, ys => ys
  | up, ys | both, ys => aboveFree ys

def grown (g : Growth) (xs : List Block) (b : Block) (ys : List Block) : Block :=
  occupying (g.low xs ++ b :: g.high ys)

variable (g : Growth) (xs ys : List Block) (b : Block)

theorem below_append_low : g.below xs ++ g.low xs = xs := by
  cases g with
  | up => exact List.append_nil xs
  | down | both => exact belowFree_append_freeLast xs

theorem high_append_above : g.high ys ++ g.above ys = ys := by
  cases g with
  | down => rfl
  | up | both => exact freeFirst_append_aboveFree ys

theorem split_row : xs ++ b :: ys = g.below xs ++ (g.low xs ++ b :: g.high ys) ++ g.above ys := by
  rw [← List.append_assoc, g.below_append_low, List.append_assoc, List.cons_append, g.high_append_above]

theorem free_of_mem {c : Block} (hc : c ∈ g.low xs ++ g.high ys) : c.allocated = false := by
  rcases List.mem_append.mp hc with hc | hc
  · cases g with
    | up => cases hc
    | down | both => exact free_of_mem_freeLast hc
  · cases g with
    | down => cases hc
    | up | both => exact free_of_mem_freeFirst hc

theorem allocatedBlocks_beside :
    allocatedBlocks (g.below xs ++ g.above ys) = allocatedBlocks (xs ++ ys) := by
  rw [allocatedBlocks_append, allocatedBlocks_append]
  cases g <;> simp only [below, above, allocatedBlocks_belowFree, allocatedBlocks_aboveFree]

theorem size_le_grown : b.size ≤ (g.grown xs b ys).size := by
  rw [grown, size_occupying]
  omega

end Growth

section
variable {h : Heap} {xs ys low high : List Block} {b : Block} {L : List Nat} {m e : Nat}

theorem Growth.Feasible.le_grown {g : Growth} {need i : Nat}
    (hg : g.Feasible b.size need (tagBelow xs) (tagAbove ys)) (hx : Tiling 16 xs m) (hy : Tiling i ys e) :
    need ≤ (g.grown xs b ys).size := by
  rw [grown, size_occupying]
  cases g with
  | down =>
    obtain ⟨hf, hneed⟩ := hg
    obtain ⟨zs, q, rfl, hq, hsize⟩ := tagBelow_free hx hf
    simp only [low, freeLast_concat_of_free hq, List.map_singleton, List.sum_singleton]
    omega
  | up =>
    obtain ⟨hf, hneed⟩ := hg
    obtain ⟨n, zs, rfl, hn, hsize⟩ := tagAbove_free hy hf
    simp only [high, freeFirst_cons_of_free hn, List.map_singleton, List.sum_singleton]
    omega
  | both =>
    obtain ⟨hf, hf', hneed⟩ := hg
    obtain ⟨zs, q, rfl, hq, hsize⟩ := tagBelow_free hx hf
    obtain ⟨n, ws, rfl, hn, hsize'⟩ := tagAbove_free hy hf'
    simp only [low, high, freeLast_concat_of_free hq, freeFirst_cons_of_free hn, List.map_singleton,
      List.sum_singleton]
    omega

theorem Settled.grown (hs : Settled (xs ++ b :: ys)) (g : Growth) :
    Settled (g.below xs ++ [g.grown xs b ys] ++ g.above ys) := by
  obtain ⟨hx, hy⟩ := hs.beside
  rw [← g.below_append_low xs] at hx
  rw [← g.high_append_above ys] at hy
  rw [← List.append_cons]
  exact hx.of_append.1.insert hy.of_append.2 rfl

theorem Tiling.grown_covers (h : Tiling m (xs ++ b :: ys) e) (g : Growth) :
    (g.grown xs b ys).offset ≤ b.offset ∧ b.stop ≤ (g.grown xs b ys).stop := by
  rw [g.split_row] at h
  exact h.joined_covers_mem List.mem_append_cons_self

theorem Tiling.occupy {bs : List Block} (h : Tiling m bs e) (hne : bs ≠ [])
    (hm : (occupying bs).size ≤ maxBlockSize) : Tiling m [occupying bs] e := by
  obtain ⟨ho, hp, hst⟩ := h.join hne hm
  exact ⟨ho, ⟨hp.dvd, hp.least, hp.most⟩, hst⟩

theorem Laid.occupy_listed (hl : Laid h (xs ++ (low ++ b :: high) ++ ys) L)
    (hf : ∀ c ∈ low ++ high, c.allocated = false) (hb : b.allocated = true) :
    (L.diff ((low ++ high).map (·.offset))).Perm
      (freeOffsets (xs ++ [occupying (low ++ b :: high)] ++ ys)) := by
  have hrun : freeOffsets (low ++ b :: high) = (low ++ high).map (·.offset) := by
    rw [freeOffsets_append, freeOffsets_cons_of_allocated hb, ← freeOffsets_append,
      freeOffsets_of_free hf]
  have hocc : freeOffsets [occupying (low ++ b :: high)] = [] := rfl
  have hp := hl.listed
  rw [freeOffsets_append, freeOffsets_append, hrun] at hp
  rw [freeOffsets_append, freeOffsets_append, hocc, List.append_nil]
  generalize (low ++ high).map (·.offset) = F at hp ⊢
  have hp' : L.Perm (F ++ (freeOffsets xs ++ freeOffsets ys)) := by
    apply hp.trans
    rw [← List.append_assoc]
    exact List.Perm.append_right _ List.perm_append_comm
  exact (hp'.diff_right _).trans (List.Perm.of_eq (append_diff_self _ _))

end

namespace Heap

open HeapM

section
variable {h : Heap} {xs ys low high : List Block} {b : Block} {L : List Nat}

theorem move_meets {src n dst : Nat} (hs : src + n ≤ h.arena.size) (hd : dst + n ≤ h.arena.size) :
    Meets (move src n dst) h (fun _ h' => h' = { h with arena := h.arena.move src n dst })
      NoFault := by
  have h₁ : h.inArena src n = .ok () := if_pos hs
  have h₂ : h.inArena dst n = .ok () := if_pos hd
  exact Meets.read_bind h₁ (Meets.read_bind h₂ (Meets.of_update rfl))

theorem occupy_meets (hl : Laid h (xs ++ (low ++ b :: high) ++ ys) L)
    (hf : ∀ c ∈ low ++ high, c.allocated = false) (hb : b.allocated = true) {a : Arena}
    {l : FreeList} {o s : Nat} (ho : o = (occupying (low ++ b :: high)).offset)
    (hs : s = (occupying (low ++ b :: high)).size)
    (hp : h.arena.Patch a (o - 4) (o + s - 4))
    (hr : l.Represents (L.diff ((low ++ high).map (·.offset))))
    (hz : l.slots.size = h.freeList.slots.size) :
    Meets (setBlock o s true) { h with arena := a, freeList := l }
      (fun _ h' => ∃ a', h' = { h with arena := a', freeList := l } ∧
        h.arena.Patch a' (o - 4) (o + s - 4) ∧
        (∀ i, o ≤ i → i + 8 < o + s → a'.byte? i = a.byte? i) ∧
        Laid h' (xs ++ [occupying (low ++ b :: high)] ++ ys)
          (L.diff ((low ++ high).map (·.offset))))
      (fun e _ => Oversize h e) := by
  obtain ⟨e, hxm, hys⟩ := tiling_append.mp hl.tiled.tiling
  obtain ⟨m, hxs, hmid⟩ := tiling_append.mp hxm
  have hne : low ++ b :: high ≠ [] := by simp
  have hle := hys.le
  have hge := hxs.le
  have hwithin := hl.tiled.within
  have hom : o = m := ho.trans (hmid.joined_offset hne)
  have hse : o + s = e := by
    rw [ho, hs]
    exact hmid.joined_stop hne
  have hd : 8 ∣ s := hs ▸ hmid.dvd_sum
  have hb8 : 16 ≤ b.size := (hmid.proper (by simp)).least
  have hbs : b.size ≤ s := by
    rw [hs, size_occupying]
    omega
  have hsize := hp.alike.size
  refine (setBlock_meets hd (by omega) (by omega) (by simp only; omega)).mono ?_ ?_
  · intro _ _ hq
    obtain ⟨hm, rfl⟩ := hq
    have hg : Tiling m [occupying (low ++ b :: high)] e := hmid.occupy hne (hs ▸ hm)
    have hblock : (⟨o, s, true⟩ : Block) = occupying (low ++ b :: high) := by
      rw [ho, hs]
      rfl
    have hset := Arena.tagged_setBlocks (a := a) hg (by omega) (by omega)
    have hpatch : h.arena.Patch (a.setBlock (occupying (low ++ b :: high))) (m - 4) (e - 4) := by
      rw [hse, hom] at hp
      exact hp.trans hset.1
    dsimp only
    rw [hblock, hse, hom]
    refine ⟨_, rfl, hpatch, fun i hlo hhi => ?_, hl.refit hxs hmid hg hl.initialized hpatch hset.2 hr hz
      (hl.occupy_listed hf hb)⟩
    refine Arena.byte?_setBlock ?_ ?_ ?_ (Or.inr ?_) (Or.inl ?_)
    all_goals rw [← hblock]
    all_goals simp only [Block.stop]
    all_goals omega
  · intro _ _ hq
    obtain ⟨rfl, hm, _⟩ := hq
    exact ⟨_, rfl, hm, hd, by omega⟩

/-- With the arena `a` and the list `l`, the block `b` of the heap `h` has taken in the free blocks `low` before it
and `high` after it. -/
structure Widened (h : Heap) (a : Arena) (l : FreeList) (xs low : List Block) (b : Block)
    (high ys : List Block) (L : List Nat) : Prop where
  patch : h.arena.Patch a ((occupying (low ++ b :: high)).offset - 4)
    ((occupying (low ++ b :: high)).stop - 4)
  shifted : h.arena.Shifted a b (occupying (low ++ b :: high)).offset (occupying (low ++ b :: high)).stop
  laid : Laid { h with arena := a, freeList := l } (xs ++ [occupying (low ++ b :: high)] ++ ys)
    (L.diff ((low ++ high).map (·.offset)))

theorem growDown_meets {q : Block} (hl : Laid h (xs ++ ([q] ++ b :: high) ++ ys) L)
    (hf : ∀ c ∈ [q] ++ high, c.allocated = false) (hb : b.allocated = true) {l : FreeList}
    (hr : l.Represents (L.diff (high.map (·.offset)))) (hz : l.slots.size = h.freeList.slots.size)
    {above : Nat} (ha : above = (high.map (·.size)).sum) :
    Meets (growDown b.offset b.size q.size above) { h with freeList := l }
      (fun r h' => r = q.offset ∧ ∃ a l', h' = { h with arena := a, freeList := l' } ∧
        h.Widened a l' xs [q] b high ys L)
      (fun e _ => Oversize h e) := by
  obtain ⟨e, hxm, hys⟩ := tiling_append.mp hl.tiled.tiling
  obtain ⟨m, hxs, hmid⟩ := tiling_append.mp hxm
  have hq := hmid.1
  have hqp := hmid.2.1
  have hbo : b.offset = q.stop := hmid.2.2.1
  have hbp := hmid.2.2.2.1
  have hrest := hmid.2.2.2.2.le
  have hle := hys.le
  have hge := hxs.le
  have hqs : q.stop = q.offset + q.size := rfl
  have hbs : b.stop = b.offset + b.size := rfl
  have hleast := hqp.least
  have hleast' := hbp.least
  have hst := hl.storable (b := q) (by simp)
  have hprev : Address.sub b.offset q.size = .ok q.offset :=
    Address.sub_eq_ok_iff.mpr ⟨by omega, by omega⟩
  have hpay := hbp.sub_overhead
  have hsum : q.size + b.size + above = (occupying ([q] ++ b :: high)).size := by
    rw [ha, size_occupying, List.map_singleton, List.sum_singleton, Nat.add_assoc]
  have hin : b.offset + (b.size - 8) ≤ h.arena.size := by omega
  have hin' : q.offset + (b.size - 8) ≤ h.arena.size := by omega
  have hmove := Arena.patch_move hin hin'
  refine Meets.lift_bind hprev ((unlist_meets hr hst.1).then ?_)
  intro _ _ hq
  obtain ⟨_, l', rfl, hr', hz'⟩ := hq
  -- the payload moves first, and no tag written after it lies inside it
  refine Meets.lift_bind hpay ((move_meets (h := { h with freeList := l' }) hin hin').then ?_)
  intro _ _ he
  subst he
  rw [List.diff_erase, ← List.diff_cons] at hr'
  have hoff : q.offset = (occupying ([q] ++ b :: high)).offset := rfl
  have hstop : (occupying ([q] ++ b :: high)).stop = q.offset + (q.size + b.size + above) := by
    rw [hsum]
    rfl
  refine (occupy_meets hl hf hb hoff hsum (hmove.mono (by omega) (by omega)) hr' (hz'.trans hz)).seq
    (fun _ _ => id) ?_
  intro _ _ hq
  obtain ⟨a, rfl, hp, hkeep, hl'⟩ := hq
  refine Meets.tell_bind (Meets.pure
    ⟨rfl, a, l', rfl, hstop ▸ hp, ⟨fun i hi => ?_, fun i hlo hhi => ?_⟩, hl'⟩)
  · rw [← hoff, hkeep _ (by omega) (by omega), Arena.byte?_move hin hin', if_pos (by omega),
      Nat.add_sub_cancel_left]
  · rw [← hoff] at hlo
    rw [hkeep _ (by omega) (by omega), Arena.byte?_move hin hin', if_neg (by omega)]

theorem growUp_meets {n : Block} (hl : Laid h (xs ++ ([] ++ b :: [n]) ++ ys) L) (hn : n.allocated = false)
    (hb : b.allocated = true) {before after : Tag} (hs : after.size = n.size) :
    Meets (grow b.offset b.size before after .up) h
      (fun r h' => r = b.offset ∧ ∃ a l, h' = { h with arena := a, freeList := l } ∧
        h.Widened a l xs [] b [n] ys L)
      (fun e _ => Oversize h e) := by
  obtain ⟨e, hxm, hys⟩ := tiling_append.mp hl.tiled.tiling
  obtain ⟨m, hxs, -, hbp, hno, -⟩ := tiling_append.mp hxm
  have hleast := hbp.least
  have hbs : n.offset = b.offset + b.size := hno
  have hf : ∀ c ∈ [] ++ [n], c.allocated = false := by simpa using hn
  have hst := hl.storable (b := n) (by simp)
  have hsum : b.size + n.size = (occupying ([] ++ b :: [n])).size := by
    rw [size_occupying]
    simp
  have hoff : b.offset = (occupying ([] ++ b :: [n])).offset := rfl
  have hstop : (occupying ([] ++ b :: [n])).stop = b.offset + (b.size + n.size) := by
    rw [hsum]
    rfl
  rw [grow, hs, ← hbs]
  apply (unlist_meets hl.list hst.1).then
  intro _ _ hq
  obtain ⟨_, l, rfl, hr, hz⟩ := hq
  refine (occupy_meets hl hf hb hoff hsum (Arena.Patch.refl _ _ _) (by simpa using hr) hz).seq
    (fun _ _ => id) ?_
  intro _ _ hq
  obtain ⟨a, rfl, hp, hkeep, hl'⟩ := hq
  refine Meets.pure ⟨rfl, a, l, rfl, hstop ▸ hp, ⟨fun i hi => ?_, fun i hlo hhi => ?_⟩, hl'⟩
  · rw [← hoff]
    exact hkeep _ (Nat.le_add_right _ _) (by omega)
  · rw [← hoff] at hlo
    exact hkeep _ (by omega) (by omega)

theorem grow_meets (hl : Laid h (xs ++ b :: ys) L) (hb : b.allocated = true) {need : Nat}
    {g : Growth} (hg : g.Feasible b.size need (tagBelow xs) (tagAbove ys)) :
    Meets (grow b.offset b.size (tagBelow xs) (tagAbove ys) g) h
      (fun r h' => r = (g.grown xs b ys).offset ∧ ∃ a l, h' = { h with arena := a, freeList := l } ∧
        h.Widened a l (g.below xs) (g.low xs) b (g.high ys) (g.above ys) L)
      (fun e _ => Oversize h e) := by
  obtain ⟨hxs, -, hys⟩ := hl.tiled.tiling.split
  have hf : ∀ c ∈ g.low xs ++ g.high ys, c.allocated = false := fun c => g.free_of_mem xs ys
  rw [g.split_row] at hl
  cases g with
  | down =>
    obtain ⟨zs, q, rfl, hq, hsize⟩ := tagBelow_free hxs hg.1
    have hlow : Growth.down.low (zs ++ [q]) = [q] := by
      rw [Growth.low, freeLast_concat_of_free hq]
    rw [hlow] at hl hf
    rw [Growth.grown, hlow, grow, hsize]
    exact growDown_meets hl hf hb hl.list rfl rfl
  | up =>
    obtain ⟨n, zs, rfl, hn, hsize⟩ := tagAbove_free hys hg.1
    have hhigh : Growth.up.high (n :: zs) = [n] := by
      rw [Growth.high, freeFirst_cons_of_free hn]
    rw [hhigh] at hl
    rw [Growth.grown, hhigh]
    exact growUp_meets hl hn hb hsize
  | both =>
    obtain ⟨zs, q, rfl, hq, hsize⟩ := tagBelow_free hxs hg.1
    obtain ⟨n, ws, rfl, hn, hsize'⟩ := tagAbove_free hys hg.2.1
    have hlow : Growth.both.low (zs ++ [q]) = [q] := by
      rw [Growth.low, freeLast_concat_of_free hq]
    have hhigh : Growth.both.high (n :: ws) = [n] := by
      rw [Growth.high, freeFirst_cons_of_free hn]
    have hno : b.offset + b.size = n.offset := hys.1.symm
    rw [hlow, hhigh] at hl hf
    have hst := hl.storable (b := n) (by simp)
    rw [Growth.grown, hlow, hhigh, grow, hsize, hsize', hno]
    apply (unlist_meets hl.list hst.1).then
    intro _ _ hq
    obtain ⟨_, l, rfl, hr, hz⟩ := hq
    exact growDown_meets hl hf hb (by simpa using hr) hz (by simp)

end

end Heap

end BoundaryTag
