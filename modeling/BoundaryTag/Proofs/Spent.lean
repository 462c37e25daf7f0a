import BoundaryTag.Proofs.FreeOrder

/-!
# Handles that were given back

Where a handle pointed before it was freed there may be no block any more: the block may have merged with the one
before it. The word in front of that place then lies inside a free block, but it still reads as the tag of a free
block, and no other free changes that. So a handle that was freed can be freed again, and nothing happens.

Main statement: `reachable_freeEach_again`.
-/

namespace BoundaryTag

/-- A block might begin at `o`, and the word in front of it says that it is free. -/
structure Arena.Spent (a : Arena) (o : Nat) : Prop where
  aligned : 8 ∣ o
  inside : 16 ≤ o ∧ o + 16 ≤ a.size
  free : ∃ t, a.tag? (o - 4) = some t ∧ t.allocated = false

/-- Run on `h`, the action ends without a fault and leaves `h'`. -/
def HeapM.Ends (m : HeapM Unit) (h h' : Heap) : Prop := (m.run h).result = .ok () ∧ (m.run h).heap = h'

/-- Each of the handles is that of an allocated block, or was given back. -/
def Heap.Tracks (h : Heap) (ks : List Handle) : Prop :=
  ∃ bs L, Sound h bs L ∧ h.arena.ceiling ≤ maxBlockSize ∧
    ∀ p ∈ ks, (∃ b ∈ allocatedBlocks bs, ⟨b.offset⟩ = p) ∨ h.arena.Spent p.offset

open HeapM

section
variable {a a' : Arena} {b : Block} {h h' h'' h₀ : Heap} {bs : List Block} {L : List Nat}
  {p q : Handle} {ps ks : List Handle} {o : Nat} {s : Session}

/-! ## The word in front of a handle -/

theorem Arena.Tagged.spent (ht : a.Tagged b) (hb : b.Proper) (hf : b.allocated = false) (h8 : 8 ∣ b.offset)
    (hin : 16 ≤ b.offset ∧ b.offset + 16 ≤ a.size) : a.Spent b.offset :=
  ⟨h8, hin, b.tag, ht.1, hb.allocated_tag.trans hf⟩

theorem Arena.Spent.retagged (hs : a.Spent o) (hr : a.Retagged a' b) (ht : a'.Tagged b) (hb : b.Proper)
    (hf : b.allocated = false) (h8 : 8 ∣ b.offset) : a'.Spent o := by
  have hin : 16 ≤ o ∧ o + 16 ≤ a'.size := hr.alike.size ▸ hs.inside
  by_cases ho : o = b.offset
  · subst ho
    exact ht.spent hb hf h8 hin
  · obtain ⟨t, htag, htf⟩ := hs.free
    exact ⟨hs.aligned, hin, t, (hr.header h8 hb.dvd hs.aligned (by omega) ho).trans htag, htf⟩

theorem Heap.free_meets_of_spent (hs : Sound h bs L) (hp : h.arena.Spent p.offset) :
    Meets (Heap.free p) h (fun _ h' => h' = h) NoFault := by
  obtain ⟨t, ht, htf⟩ := hp.free
  refine Heap.free_meets_of_tag hs.laid hs.settled hp.aligned hp.inside ht (fun ha => ?_) fun _ => rfl
  cases htf.symm.trans ha

theorem Sound.ignores (hs : Sound h bs L) (hp : h.arena.Spent p.offset) : (Heap.free p).Ends h h := by
  obtain ⟨_, he⟩ := (Heap.free_meets_of_spent hs hp).exists_ok
  exact he

theorem Heap.free_spends (hs : Sound h bs L) (hc : h.arena.ceiling ≤ maxBlockSize)
    (hp : ∃ b ∈ allocatedBlocks bs, ⟨b.offset⟩ = p) :
    Meets (Heap.free p) h
      (fun _ h' => (h'.arena.ceiling = h.arena.ceiling ∧ ∃ bs' L', h.Returned bs [p] h' bs' L') ∧
        h'.arena.Spent p.offset ∧ ∀ o, h.arena.Spent o → h'.arena.Spent o) NoFault := by
  have hret := Heap.free_returns hs hc hp
  obtain ⟨b, hb, rfl⟩ := hp
  obtain ⟨hbm, ha⟩ := mem_allocatedBlocks.mp hb
  obtain ⟨xs, ys, rfl⟩ := List.append_of_mem hbm
  have hbp := hs.laid.tiled.tiling.proper hbm
  have hfp : b.freed.Proper := ⟨hbp.dvd, hbp.least, hbp.most⟩
  have h8 := (hs.laid.storable hbm).1
  refine hret.and ((Heap.free_retags hs ha rfl).mono ?_ fun _ _ => id)
  rintro _ h' ⟨⟨hs', -⟩, a, hr, ht, hr'⟩
  have hjm : joined (freeRun xs b.freed ys) ∈
      belowFree xs ++ [joined (freeRun xs b.freed ys)] ++ aboveFree ys := by simp
  have hjp := hs'.laid.tiled.tiling.proper hjm
  have hj8 := (hs'.laid.storable hjm).1
  have hjt := hs'.laid.tiled.tagged _ hjm
  have hin : 16 ≤ b.offset ∧ b.offset + 16 ≤ a.size := hr.alike.size ▸ hs.laid.inside hbm
  refine ⟨?_, fun o ho => ?_⟩
  · exact (ht.spent hfp rfl h8 hin).retagged hr' hjt hjp rfl hj8
  · exact (ho.retagged hr ht hfp rfl h8).retagged hr' hjt hjp rfl hj8

/-! ## One free -/

theorem Heap.Tracks.ignores (ht : h.Tracks ks) (hp : h.arena.Spent p.offset) : (Heap.free p).Ends h h := by
  obtain ⟨bs, L, hs, -⟩ := ht
  exact hs.ignores hp

theorem Heap.Tracks.free (ht : h.Tracks ks) (hp : p ∈ ks) :
    ∃ h', (Heap.free p).Ends h h' ∧ h'.Tracks ks ∧ h'.arena.Spent p.offset ∧
      ∀ o, h.arena.Spent o → h'.arena.Spent o := by
  by_cases hgone : h.arena.Spent p.offset
  · exact ⟨h, ht.ignores hgone, ht, hgone, fun _ => id⟩
  obtain ⟨bs, L, hs, hc, hk⟩ := ht
  obtain ⟨b, hb, rfl⟩ := (hk p hp).resolve_right hgone
  obtain ⟨_, hok, ⟨hceil, bs', L', hret⟩, hspent, hmono⟩ :=
    (Heap.free_spends hs hc ⟨b, hb, rfl⟩).exists_ok
  refine ⟨_, ⟨hok, rfl⟩, ⟨bs', L', hret.sound, hceil.trans_le hc, fun q hq => ?_⟩, hspent, hmono⟩
  by_cases hqp : q = ⟨b.offset⟩
  · exact Or.inr (hqp ▸ hspent)
  · refine (hk q hq).imp ?_ (hmono _)
    rintro ⟨c, hc, rfl⟩
    refine ⟨c, ?_, rfl⟩
    rw [hret.kept]
    exact mem_keptBlocks.mpr ⟨hc, by simpa using hqp⟩

/-! ## Many frees -/

theorem Heap.freeEach_ends_cons (hp : (Heap.free p).Ends h h') :
    (Heap.freeEach (p :: ps)).Ends h h'' ↔ (Heap.freeEach ps).Ends h' h'' := by
  rcases hr : (Heap.free p).run h with ⟨⟨r, es⟩, g⟩
  obtain ⟨hok, hh⟩ := hp
  rw [hr] at hok hh
  subst hok hh
  rw [HeapM.Ends, Heap.freeEach, run_bind_of_ok hr]
  rfl

theorem Heap.Tracks.freeEach (ht : h.Tracks ks) (hp : ∀ p ∈ ps, p ∈ ks) :
    ∃ h', (Heap.freeEach ps).Ends h h' ∧ h'.Tracks ks ∧ (∀ p ∈ ps, h'.arena.Spent p.offset) ∧
      ∀ o, h.arena.Spent o → h'.arena.Spent o := by
  induction ps generalizing h with
  | nil => exact ⟨h, ⟨rfl, rfl⟩, ht, List.forall_mem_nil _, fun _ => id⟩
  | cons p ps ih =>
    obtain ⟨hpk, hp⟩ := List.forall_mem_cons.mp hp
    obtain ⟨h₁, he, ht₁, hspent, hmono⟩ := ht.free hpk
    obtain ⟨h₂, he₂, ht₂, hspent₂, hmono₂⟩ := ih ht₁ hp
    exact ⟨h₂, (Heap.freeEach_ends_cons he).mpr he₂, ht₂,
      List.forall_mem_cons.mpr ⟨hmono₂ _ hspent, hspent₂⟩, fun o ho => hmono₂ o (hmono o ho)⟩

theorem Heap.Tracks.freeEach_filter (ht : h.Tracks ks) (hp : ∀ p ∈ ps, p ∈ ks)
    (hq : h.arena.Spent q.offset) :
    (Heap.freeEach ps).Ends h h' ↔ (Heap.freeEach (ps.filter (!· == q))).Ends h h' := by
  induction ps generalizing h with
  | nil => rfl
  | cons p ps ih =>
    obtain ⟨hpk, hp⟩ := List.forall_mem_cons.mp hp
    by_cases hpq : p = q
    · subst hpq
      rw [Heap.freeEach_ends_cons (ht.ignores hq), List.filter_cons_of_neg (by simp)]
      exact ih ht hp hq
    · obtain ⟨h₁, he, ht₁, -, hmono⟩ := ht.free hpk
      rw [List.filter_cons_of_pos (by simpa using hpq), Heap.freeEach_ends_cons he,
        Heap.freeEach_ends_cons he]
      exact ih ht₁ hp (hmono _ hq)

theorem Heap.Tracks.freeEach_eraseDups : ∀ {h : Heap} {ps : List Handle}, h.Tracks ks →
    (∀ p ∈ ps, p ∈ ks) → ((Heap.freeEach ps).Ends h h' ↔ (Heap.freeEach ps.eraseDups).Ends h h')
  | _, [], _, _ => Iff.rfl
  | _, p :: ps, ht, hp => by
    obtain ⟨hpk, hp⟩ := List.forall_mem_cons.mp hp
    obtain ⟨h₁, he, ht₁, hspent, -⟩ := ht.free hpk
    rw [List.eraseDups_cons, Heap.freeEach_ends_cons he, Heap.freeEach_ends_cons he,
      ht₁.freeEach_filter hp hspent]
    exact ht₁.freeEach_eraseDups fun q hq => hp q (List.mem_filter.mp hq).1
termination_by _ ps => ps.length
decreasing_by exact Nat.lt_succ_of_le (List.length_filter_le _ _)

theorem reachable_freeEach_again (hf : Fresh h₀) (hc : h₀.arena.ceiling ≤ maxBlockSize)
    (hr : Reachable h₀ s) (hp : ∀ p ∈ ps, s.Holds p) :
    ∃ h', (Heap.freeEach ps).Ends s.heap h' ∧ (Heap.freeEach ps.eraseDups).Ends s.heap h' ∧
      ∀ p ∈ ps, (Heap.free p).Ends h' h' := by
  obtain ⟨hv, hceil⟩ := hr.valid hf
  rw [← hceil] at hc
  cases hv with
  | idle =>
    obtain rfl : ps = [] := List.eq_nil_iff_forall_not_mem.mpr fun p hpm => by
      obtain ⟨_, hk, -⟩ := hp p hpm
      cases hk
    exact ⟨_, ⟨rfl, rfl⟩, ⟨rfl, rfl⟩, List.forall_mem_nil _⟩
  | @live h bs L held hs hh =>
    have ht : h.Tracks ps := by
      refine ⟨bs, L, hs, hc, fun p hpm => Or.inl ?_⟩
      obtain ⟨k, b, hk, hb, -, hpb⟩ := hh.find (hp p hpm)
      exact ⟨b, hb, congrArg Handle.mk hpb.symm⟩
    obtain ⟨h', he, ht', hspent, -⟩ := ht.freeEach fun _ => id
    exact ⟨h', he, (ht.freeEach_eraseDups fun _ => id).mp he, fun p hpm => ht'.ignores (hspent p hpm)⟩

/-- When the second handle is freed again, its block has merged with the one before it and the one after it. -/
theorem reachable_freeEach_again_merged : ∃ h h' : Heap,
    h.blocks = .ok [⟨16, 16, true⟩, ⟨32, 16, true⟩, ⟨48, 32, false⟩] ∧
      h'.blocks = .ok [⟨16, 64, false⟩] ∧ (Heap.freeEach [⟨16⟩, ⟨32⟩, ⟨32⟩, ⟨16⟩]).Ends h h' ∧
      (Heap.freeEach [⟨16⟩, ⟨32⟩]).Ends h h' ∧ (Heap.free ⟨32⟩).Ends h' h' := by
  have hheld : ∀ p ∈ [(⟨16⟩ : Handle), ⟨32⟩, ⟨32⟩, ⟨16⟩], Session.pairHeld.Holds p := by
    have h₁ : Session.pairHeld.Holds ⟨16⟩ := ⟨{ handle := ⟨16⟩, size := 8 }, .tail _ (.head _), rfl⟩
    have h₂ : Session.pairHeld.Holds ⟨32⟩ := ⟨{ handle := ⟨32⟩, size := 8 }, .head _, rfl⟩
    simp [h₁, h₂]
  obtain ⟨h', he, he', hspent⟩ :=
    reachable_freeEach_again (.growable 100 _) (by decide) Session.reachable_pairHeld hheld
  have hdups : [(⟨16⟩ : Handle), ⟨32⟩, ⟨32⟩, ⟨16⟩].eraseDups = [⟨16⟩, ⟨32⟩] := by decide
  have hwalk : ((Heap.freeEach [⟨16⟩, ⟨32⟩]).run Session.pairHeld.heap).heap.blocks =
      .ok [⟨16, 64, false⟩] := by decide +kernel
  rw [hdups] at he'
  refine ⟨Session.pairHeld.heap, h', by decide +kernel, ?_, he, he', hspent _ (.tail _ (.head _))⟩
  rw [← he'.2]
  exact hwalk

end

end BoundaryTag
