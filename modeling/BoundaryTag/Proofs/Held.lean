import BoundaryTag.Proofs.Payload
import BoundaryTag.Proofs.Resize
import BoundaryTag.Session

/-!
# What a client holds

`Held a bs held` says that the holdings `held` are those of the blocks `bs`, one for each: the size that was
asked for fits in, and what was written still stands there. The lemmas follow a call through the arena and
the list of blocks.
-/

namespace BoundaryTag

structure Holding.At (k : Holding) (a : Arena) (b : Block) : Prop where
  offset : k.handle.offset = b.offset
  fits : k.size + 8 ≤ b.size
  bytes : ∀ i v, k.written i = some v → i + 8 < b.size ∧ a.byte? (b.offset + i) = some v

structure Held (a : Arena) (bs : List Block) (held : List Holding) : Prop where
  handles : (held.map (·.handle.offset)).Perm (bs.map (·.offset))
  holds : ∀ k ∈ held, ∃ b ∈ bs, k.At a b

section
variable {a a' : Arena} {bs bs' : List Block} {b c : Block} {held : List Holding} {k : Holding}
  {p q : Handle}

theorem held_nil (a : Arena) : Held a [] [] := ⟨List.Perm.refl _, fun _ hk => nomatch hk⟩

theorem Held.nodup {i e : Nat} (h : Held a (allocatedBlocks bs) held) (ht : Tiling i bs e) :
    (held.map (·.handle.offset)).Nodup :=
  h.handles.nodup_iff.mpr (ht.nodup_offsets.sublist (List.filter_sublist.map _))

theorem Held.cons (h : Held a bs held) (hk : k.At a b) : Held a (b :: bs) (k :: held) := by
  refine ⟨?_, fun j hj => ?_⟩
  · rw [List.map_cons, List.map_cons, hk.offset]
    exact h.handles.cons _
  · rcases List.mem_cons.mp hj with rfl | hj
    · exact ⟨b, List.mem_cons_self, hk⟩
    · obtain ⟨c, hc, hat⟩ := h.holds j hj
      exact ⟨c, List.mem_cons_of_mem _ hc, hat⟩

theorem Held.perm (h : Held a bs held) (hp : bs.Perm bs') : Held a bs' held :=
  ⟨h.handles.trans (hp.map _), fun k hk =>
    let ⟨b, hb, hat⟩ := h.holds k hk
    ⟨b, hp.mem_iff.mp hb, hat⟩⟩

theorem Held.keep (h : Held a (allocatedBlocks bs) held) (hk : Keeps a a' bs) :
    Held a' (allocatedBlocks bs) held := by
  refine ⟨h.handles, fun k hm => ?_⟩
  obtain ⟨b, hb, hat⟩ := h.holds k hm
  refine ⟨b, hb, hat.offset, hat.fits, fun i v hv => ?_⟩
  obtain ⟨hi, hbyte⟩ := hat.bytes i v hv
  exact ⟨hi, (hk b hb _ (Nat.le_add_right _ _) (by simp only [Block.stop]; omega)).trans hbyte⟩

theorem Held.without (h : Held a (b :: bs) held) (hn : ((b :: bs).map (·.offset)).Nodup)
    (hp : p.offset = b.offset) : Held a bs (Holding.without held p) := by
  have hne : ∀ c ∈ bs, c.offset ≠ b.offset := fun c hc he =>
    (List.nodup_cons.mp hn).1 (List.mem_map.mpr ⟨c, hc, he⟩)
  refine ⟨?_, fun k hk => ?_⟩
  · have hmap : (Holding.without held p).map (·.handle.offset) =
        (held.map (·.handle.offset)).filter (· ≠ b.offset) := by
      rw [Holding.without, List.filter_map]
      refine congrArg _ (List.filter_congr fun k _ => ?_)
      cases hk : k.handle
      cases p
      simp_all
    rw [hmap]
    refine (h.handles.filter _).trans (List.Perm.of_eq ?_)
    rw [List.map_cons, List.filter_cons_of_neg (by simp)]
    refine List.filter_eq_self.mpr fun o ho => ?_
    obtain ⟨c, hc, rfl⟩ := List.mem_map.mp ho
    exact decide_eq_true (hne c hc)
  · obtain ⟨hk, hkp⟩ := List.mem_filter.mp hk
    obtain ⟨c, hc, hat⟩ := h.holds k hk
    rcases List.mem_cons.mp hc with rfl | hc
    · have : k.handle = p := by
        cases hk : k.handle
        cases p
        have := hat.offset
        simp_all
      simp [this] at hkp
    · exact ⟨c, hc, hat⟩

theorem Held.find (h : Held a bs held) (hp : ∃ k ∈ held, k.handle = p) :
    ∃ k b, held.find? (·.handle = p) = some k ∧ b ∈ bs ∧ k.At a b ∧ p.offset = b.offset := by
  obtain ⟨k, hk, rfl⟩ := hp
  cases hf : held.find? (·.handle = k.handle) with
  | none => simpa using List.find?_eq_none.mp hf k hk
  | some j =>
    obtain ⟨b, hb, hat⟩ := h.holds j (List.mem_of_find?_eq_some hf)
    have hj : j.handle = k.handle := by simpa using List.find?_some hf
    exact ⟨j, b, rfl, hb, hat, hj ▸ hat.offset⟩

theorem Held.exists_handle (h : Held a bs held) (hb : b ∈ bs) : ∃ k ∈ held, k.handle = ⟨b.offset⟩ := by
  have hmem : b.offset ∈ held.map (·.handle.offset) := h.handles.mem_iff.mpr (List.mem_map_of_mem hb)
  obtain ⟨k, hk, hko⟩ := List.mem_map.mp hmem
  exact ⟨k, hk, congrArg Handle.mk hko⟩

theorem revise_of_find {f : Holding → Holding} (hf : held.find? (·.handle = p) = some k) :
    Holding.revise held p f = f k :: Holding.without held p := by
  rw [Holding.revise, hf]
  rfl

end

end BoundaryTag
