import BoundaryTag.Proofs.Spent
import BoundaryTag.Proofs.Undone

/-!
# Reallocating a block that is free

Reallocating does not ask whether the block of its handle is allocated. If the block was given back, the answer may
be the block itself, free as it is: when it is large enough already, and when it is last and the arena grows right
behind it, for then the new block takes its place before the old one is freed. In every other case a new block is
allocated, and the client is as well off as one that asked for it and filled it in.

Main statement: `reachable_realloc_reissued`.
-/

namespace BoundaryTag

/-- Reallocating the block `b`, one of `bs`, to `size` bytes hands it out though it is free. -/
inductive Reissues (bs : List Block) (size : Nat) (b : Block) : Prop
  | fits : b.allocated = false → size ≤ b.size → Reissues bs size b
  | grows : b.allocated = false → bs.getLast? = some b →
      (∀ f ∈ bs, f.allocated = false → f.size < size) → Reissues bs size b

/-- The block at `p` is allocated, not in the free list, and has `n` bytes to use. -/
structure Heap.Secures (h : Heap) (p : Handle) (n : Nat) : Prop where
  allocated : ∃ bs b, h.blocks = .ok bs ∧ b ∈ bs ∧ b.allocated = true ∧ p = ⟨b.offset⟩
  unlisted : p.offset ∉ h.freeList.toList
  usable : ∃ usable, h.usableSize p = .ok usable ∧ n ≤ usable

/-- The block at `p` is free, and in the free list. -/
structure Heap.Offers (h : Heap) (p : Handle) : Prop where
  free : ∃ bs b, h.blocks = .ok bs ∧ b ∈ bs ∧ b.allocated = false ∧ p = ⟨b.offset⟩
  listed : p.offset ∈ h.freeList.toList

/-- A client that uses its handles properly can get from `h₀` to the heap `h`, and there it holds `p`, for which it
asked for `n` bytes. -/
def Entrusted (h₀ h : Heap) (p : Handle) (n : Nat) : Prop :=
  ∃ t : Session, Reachable h₀ t ∧ t.heap = h ∧ ∃ k ∈ t.held, k.handle = p ∧ k.size = n

open HeapM

section
variable {h h₁ h₀ : Heap} {bs xs ys us vs : List Block} {b f : Block} {L : List Nat} {s : Session}
  {k : Holding} {p q : Handle} {n m need : Nat}

/-! ## Blocks that are secure, and blocks that are not -/

theorem Sound.secures (hs : Sound h bs L) (hb : b ∈ bs) (ha : b.allocated = true) (hn : n + 8 ≤ b.size) :
    h.Secures ⟨b.offset⟩ n where
  allocated := ⟨bs, b, hs.laid.blocks_eq, hb, ha, rfl⟩
  unlisted := by
    rw [hs.laid.list.toList_eq, hs.laid.offset_mem_list hb, ha]
    decide
  usable := ⟨_, hs.laid.usableSize_eq hb rfl, by omega⟩

theorem Sound.offers (hs : Sound h bs L) (hb : b ∈ bs) (hf : b.allocated = false) : h.Offers ⟨b.offset⟩ where
  free := ⟨bs, b, hs.laid.blocks_eq, hb, hf, rfl⟩
  listed := by
    rw [hs.laid.list.toList_eq]
    exact (hs.laid.offset_mem_list hb).mpr hf

theorem Heap.Offers.not_secures (ho : h.Offers p) : ¬ h.Secures p n := fun hs => hs.unlisted ho.listed

theorem Session.Valid.secures (hv : s.Valid) (hk : k ∈ s.held) : s.heap.Secures k.handle k.size := by
  cases hv with
  | idle => cases hk
  | live hs hh =>
    obtain ⟨b, hb, hat⟩ := hh.holds k hk
    obtain ⟨hb, ha⟩ := mem_allocatedBlocks.mp hb
    obtain hkb : k.handle = ⟨b.offset⟩ := congrArg Handle.mk hat.offset
    rw [hkb]
    exact hs.secures hb ha hat.fits

theorem Entrusted.secures (hf : Fresh h₀) (he : Entrusted h₀ h p n) : h.Secures p n := by
  obtain ⟨t, hr, rfl, k, hk, rfl, rfl⟩ := he
  exact (hr.valid hf).1.secures hk

theorem Reachable.entrusted_realloc (hr : Reachable h₀ s) (hp : s.Holds p)
    (ha : s.answer (.realloc (some p) n) = .ok (.handle (some q))) :
    Entrusted h₀ (s.next (.realloc (some p) n) (.handle (some q))).heap q n := by
  have hstep : Reachable h₀ (s.next (.realloc (some p) n) (.handle (some q))) := .step hr hp ha
  obtain ⟨k, hk⟩ : ∃ k, s.held.find? (·.handle = p) = some k := by
    rw [← Option.isSome_iff_exists, List.find?_isSome]
    simpa [Session.Holds] using hp
  refine ⟨_, hstep, rfl, { k with handle := q, size := n }, ?_, rfl, rfl⟩
  show _ ∈ Holding.revise s.held p _
  rw [revise_of_find hk]
  exact List.mem_cons_self

/-! ## Elsewhere -/

theorem Chosen.spares (hc : Chosen h bs need us f vs m) (hm : b ∈ bs) (hb : b.allocated = false)
    (hr : ¬ Reissues bs need b) : b ∈ us ++ vs := by
  cases hc with
  | listed _ hbs _ hle =>
    subst hbs
    have hne : b ≠ f := by
      rintro rfl
      exact hr (.fits hb hle)
    simpa [hne] using hm
  | @merged _ c hno hbs =>
    subst hbs
    have hne : b ≠ c := by
      rintro rfl
      exact hr (.grows hb List.getLast?_concat hno)
    simpa [hne] using hm
  | added => simpa using hm

theorem Heap.relocate_spares (hs : Sound h (xs ++ b :: ys) L) (hb : b.allocated = false) (hn : 1 ≤ n)
    (hsize : blockSizeFor n = .ok need) (hlt : b.size < need) (hr : ¬ Reissues (xs ++ b :: ys) need b) :
    Meets (Heap.relocate ⟨b.offset⟩ n b.size) h
      (fun q h' => ∃ h₁, h.Serves n q h₁ ∧ Granted h (xs ++ b :: ys) L n q h₁ ∧ h' = h₁.copied b q)
      (fun _ _ => True) := by
  refine Heap.relocate_meets_of_granted hs rfl hn hsize hlt (fun _ _ _ _ => trivial)
    (fun _ _ _ => trivial) ?_
  intro q h₁ hserved _ hq
  have hgranted := hq
  obtain ⟨size, us, f, vs, m, hsize', hchosen, rfl, hs₁, -⟩ := hq
  obtain rfl : need = size := Except.ok.inj (hsize.symm.trans hsize')
  have hspared := hchosen.spares List.mem_append_cons_self hb hr
  have hle := (hchosen.source hs.laid.tiled).le
  obtain ⟨rest, hcarve, -⟩ := h.policy.carve_eq_cons f need
  rw [hcarve, List.append_assoc, List.cons_append] at hs₁
  have hbm : b ∈ us ++ ⟨f.offset, h.policy.share f.size need, true⟩ :: (rest ++ vs) := by
    simp only [List.mem_append, List.mem_cons] at hspared ⊢
    tauto
  have hshare : b.size ≤ h.policy.share f.size need := Nat.le_trans (Nat.le_of_lt hlt) (le_share hle)
  obtain ⟨hs₂, -⟩ := Heap.copied_sound hs₁ (hs₁.laid.tiled.payload_le hbm) hshare
  -- nothing has touched the words of the old block, so freeing it is ignored
  have hspent := (hs₂.laid.tiled.tagged b hbm).spent (hs₂.laid.tiled.tiling.proper hbm) hb
    (hs₂.laid.storable hbm).1 (hs₂.laid.inside hbm)
  refine (Heap.free_meets_of_spent (p := ⟨b.offset⟩) hs₂ hspent).of_noFault ?_
  rintro _ _ rfl
  exact ⟨h₁, hserved, hgranted, rfl⟩

theorem Reachable.exists_served (hr : Reachable h₀ s) (hs : Sound s.heap bs L) (hn : 1 ≤ n)
    (hserved : s.heap.Serves n q h₁) :
    ∃ t, Reachable h₀ t ∧ t.heap = h₁ ∧ t.held = { handle := q, size := n } :: s.held := by
  obtain ⟨hok, rfl⟩ := hserved
  have hm := Call.malloc_retraces hs hn
  cases hres : ((Call.malloc n).action.run s.heap).result with
  | error e => cases hok.symm.trans (hm.error hres)
  | ok a =>
    obtain ⟨hh, ⟨q', rfl, hq⟩ | ⟨e, -, he⟩⟩ := hm.ok hres
    · cases hok.symm.trans hq
      exact ⟨_, .step (c := .malloc n) hr trivial hres, hh, rfl⟩
    · cases hok.symm.trans he

theorem Reachable.entrusted_copied (hr : Reachable h₀ s) (hs : Sound s.heap bs L) (hb : b ∈ bs) (hn : 1 ≤ n)
    (hsize : blockSizeFor n = .ok need) (hlt : b.size < need)
    (hserved : s.heap.Serves n q h₁) (hq : Granted s.heap bs L n q h₁) : Entrusted h₀ (h₁.copied b q) q n := by
  obtain ⟨t, ht, rfl, hheld⟩ := hr.exists_served hs hn hserved
  obtain ⟨hgrown, -⟩ := Heap.size_le_of_granted hq hsize hs.laid.tiled
  obtain ⟨need', zs, c, ws, L', hsize', rfl, -, hneed, hs₁, -⟩ := (hq.served hs.laid.tiled).block
  obtain rfl : need = need' := Except.ok.inj (hsize.symm.trans hsize')
  have hcm : c ∈ zs ++ c :: ws := List.mem_append_cons_self
  -- the client itself writes what stands in the old block, and that is the heap after the copy
  let src := t.heap.arena.bytes.extract b.offset (b.offset + (b.size - 8))
  have hsrc : src.size = b.size - 8 :=
    Arena.size_extract (Nat.le_trans (hs.laid.tiled.payload_le hb) hgrown)
  have hfits : 0 + src.size ≤ c.size - 8 := by omega
  have howns : t.Owns ⟨c.offset⟩ 0 src.size :=
    ⟨⟨{ handle := ⟨c.offset⟩, size := n }, hheld ▸ List.mem_cons_self, rfl⟩, _,
      hs₁.laid.usableSize_eq hcm rfl, hfits⟩
  have hwrite : Meets (Call.write ⟨c.offset⟩ 0 src).action t.heap
      (fun a h' => a = .done ∧ h' = t.heap.copied b ⟨c.offset⟩) NoFault := by
    apply (Heap.writePayload_splices (p := ⟨c.offset⟩) hs₁.laid hcm rfl hfits).then
    rintro _ _ rfl
    exact Meets.pure ⟨rfl, rfl⟩
  obtain ⟨_, hdone, rfl, hcopied⟩ := hwrite.exists_ok
  have ht' : Reachable h₀ (t.next (.write ⟨c.offset⟩ 0 src) .done) := .step ht howns hdone
  refine ⟨_, ht', hcopied, Holding.write { handle := ⟨c.offset⟩, size := n } 0 src, ?_, rfl, rfl⟩
  show _ ∈ Holding.revise t.held _ _
  rw [hheld, revise_of_find (List.find?_cons_of_pos (by simp))]
  exact List.mem_cons_self

/-! ## In place -/

theorem Heap.relocate_reissues (hs : Sound h (xs ++ [b]) L) (hb : b.allocated = false) (hn : 1 ≤ n)
    (hsize : blockSizeFor n = .ok need) (hlt : b.size < need)
    (hno : ∀ f ∈ xs ++ [b], f.allocated = false → f.size < need) :
    Meets (Heap.relocate ⟨b.offset⟩ n b.size) h (fun q h' => q = ⟨b.offset⟩ ∧ h'.Offers q)
      (fun _ _ => True) := by
  refine Heap.relocate_meets_of_granted hs rfl hn hsize hlt (fun _ _ _ _ => trivial)
    (fun _ _ _ => trivial) ?_
  rintro q h₁ - - ⟨size, us, f, vs, m, hsize', hchosen, rfl, hs₁, -, hgrown⟩
  obtain rfl : need = size := Except.ok.inj (hsize.symm.trans hsize')
  have hbm : b ∈ xs ++ [b] := List.mem_append_cons_self
  have hsrc := hchosen.source hs.laid.tiled
  have hle := hsrc.le
  obtain ⟨hx, hy⟩ := hchosen.alone hs.settled
  -- the old block is last, and the heap grows right behind it
  obtain ⟨ho, rfl⟩ : f.offset = b.offset ∧ us = xs := by
    cases hchosen with
    | listed _ hbs hf hle => exact absurd hle (Nat.not_le.mpr (hno f (hbs ▸ List.mem_append_cons_self) hf))
    | merged _ hbs =>
      obtain ⟨rfl, hc⟩ := List.append_inj' hbs rfl
      cases hc
      exact ⟨rfl, rfl⟩
    | added _ hlast => cases hb.symm.trans (hlast b List.getLast?_concat)
  obtain ⟨c, rest, hcarve, hca, hco, hblocks, -⟩ := h.policy.carve_freed hsrc.free hle hx hy
  have hshare : need ≤ c.size := by
    obtain ⟨_, hhead, -⟩ := h.policy.carve_eq_cons f need
    obtain ⟨rfl, -⟩ := List.cons.inj (hcarve.symm.trans hhead)
    exact le_share hle
  rw [hcarve, List.append_assoc, List.cons_append] at hs₁
  have hin : b.offset + (b.size - 8) ≤ h₁.arena.size := by
    have := hs.laid.tiled.payload_le hbm
    omega
  obtain ⟨hs₂, -⟩ := Heap.copied_sound hs₁ hin (Nat.le_trans (Nat.le_of_lt hlt) hshare)
  rw [hco] at hs₂
  refine (Heap.free_meets (p := ⟨b.offset⟩) hs₂ hca (ho.symm.trans hco.symm)).mono ?_ fun _ _ _ => trivial
  rintro _ h₂ ⟨hs₃, -⟩
  rw [hblocks] at hs₃
  exact ⟨congrArg Handle.mk ho, hs₃.offers List.mem_append_cons_self hsrc.free⟩

/-! ## Reallocating -/

theorem Settled.not_regrown {taken : List Block} {d : Block} (hs : Settled (xs ++ b :: ys))
    (hb : b.allocated = false) : ¬ Regrown need xs b ys taken d bs := by
  have hx := hs.freeLast_below hb
  have hy := hs.freeFirst_above hb
  intro hr
  cases hr with
  | down hq | both hq => cases (freeLast_concat_of_free hq).symm.trans hx
  | up _ hr => cases (freeFirst_cons_of_free hr).symm.trans hy

theorem Call.realloc_free_meets (hs : Sound h (xs ++ b :: ys) L) (hb : b.allocated = false) (hn : 1 ≤ n)
    (hsize : blockSizeFor n = .ok need) :
    Meets (Call.realloc (some ⟨b.offset⟩) n).action h
      (fun a h' => ∃ q, a = .handle (some q) ∧
        (Reissues (xs ++ b :: ys) need b → q = ⟨b.offset⟩ ∧ h'.Offers q) ∧
        (¬ Reissues (xs ++ b :: ys) need b → b.size < need ∧ ∃ h₁, h.Serves n q h₁ ∧
          Granted h (xs ++ b :: ys) L n q h₁ ∧ h' = h₁.copied b q))
      (fun _ _ => True) := by
  have hbm : b ∈ xs ++ b :: ys := List.mem_append_cons_self
  refine Call.realloc_meets_of_enlarge hs rfl hn hsize (Heap.enlarge_meets_of hs rfl ?stay ?grow ?move)
  case stay =>
    intro hle
    exact ⟨_, rfl, fun _ => ⟨rfl, hs.offers hbm hb⟩, fun hr => absurd (.fits hb hle) hr⟩
  case grow =>
    intro g _ hplan
    obtain ⟨_, _, _, hr⟩ := exists_regrown hs.laid.tiled.tiling hplan
    exact absurd hr (hs.settled.not_regrown hb)
  case move =>
    intro hlt _
    by_cases hr : Reissues (xs ++ b :: ys) need b
    · cases hr with
      | fits _ hle => exact absurd hle (Nat.not_le.mpr hlt)
      | grows _ hlast hno =>
        obtain ⟨zs, hbs⟩ := List.getLast?_eq_some_iff.mp hlast
        obtain ⟨rfl, -, rfl⟩ := Call.split_unique hs hbs rfl
        refine (Heap.relocate_reissues hs hb hn hsize hlt hno).mono ?_ fun _ _ => id
        exact fun q h' hq => ⟨q, rfl, fun _ => hq, fun h => absurd (.grows hb hlast hno) h⟩
    · refine (Heap.relocate_spares hs hb hn hsize hlt hr).mono ?_ fun _ _ => id
      rintro q h' hq
      exact ⟨q, rfl, fun h => absurd h hr, fun _ => ⟨hlt, hq⟩⟩

theorem Reissues.free (hr : Reissues bs need b) : b.allocated = false := by
  cases hr with
  | fits hb | grows hb => exact hb

/-- Reallocating a block hands it out free as it is, or leads to what a client could have come by properly. -/
theorem Reachable.realloc_cases (hr : Reachable h₀ s) (hs : Sound s.heap (xs ++ b :: ys) L)
    (hh : Held s.heap.arena (allocatedBlocks (xs ++ b :: ys)) s.held) (hn : 1 ≤ n)
    (hsize : blockSizeFor n = .ok need)
    (ha : s.answer (.realloc (some ⟨b.offset⟩) n) = .ok (.handle (some q))) :
    let h' := (s.next (.realloc (some ⟨b.offset⟩) n) (.handle (some q))).heap
    (Reissues (xs ++ b :: ys) need b → q = ⟨b.offset⟩ ∧ h'.Offers q) ∧
      (¬ Reissues (xs ++ b :: ys) need b → Entrusted h₀ h' q n) := by
  have hbm : b ∈ xs ++ b :: ys := List.mem_append_cons_self
  cases hb : b.allocated with
  | true =>
    have hp : s.Holds ⟨b.offset⟩ := hh.exists_handle (mem_allocatedBlocks.mpr ⟨hbm, hb⟩)
    exact ⟨fun hre => (nomatch hb.symm.trans hre.free), fun _ => hr.entrusted_realloc hp ha⟩
  | false =>
    obtain ⟨_, hq, hre, hno⟩ := (Call.realloc_free_meets hs hb hn hsize).ok ha
    cases hq
    refine ⟨hre, fun hnot => ?_⟩
    obtain ⟨hlt, h₁, hserved, hgranted, hcopied⟩ := hno hnot
    show Entrusted h₀ ((Call.realloc (some ⟨b.offset⟩) n).action.run s.heap).heap q n
    rw [hcopied]
    exact hr.entrusted_copied hs hbm hn hsize hlt hserved hgranted

/-- Where it is answered with a block, reallocating secures it, unless it is the old block, handed out free. -/
theorem reachable_realloc_reissued (hf : Fresh h₀) (hr : Reachable h₀ s)
    (hi : s.heap.initialized = true) (hw : s.heap.blocks = .ok bs) (hb : b ∈ bs) (hn : 1 ≤ n)
    (ha : s.answer (.realloc (some ⟨b.offset⟩) n) = .ok (.handle (some q))) :
    ∃ size, blockSizeFor n = .ok size ∧
      let h' := (s.next (.realloc (some ⟨b.offset⟩) n) (.handle (some q))).heap
      (h'.Secures q n ↔ ¬ Reissues bs size b) ∧
      (Reissues bs size b → q = ⟨b.offset⟩ ∧ h'.Offers q) ∧
      (¬ Reissues bs size b → Entrusted h₀ h' q n) := by
  obtain ⟨bs', L, hs, hh⟩ := (hr.valid hf).1.sound hi
  obtain rfl := Except.ok.inj (hs.laid.blocks_eq.symm.trans hw)
  obtain ⟨xs, ys, rfl⟩ := List.append_of_mem hb
  cases hsize : blockSizeFor n with
  | error e =>
    have hm := Call.realloc_meets_of_oversized (p := ⟨b.offset⟩) hs rfl hn hsize
    cases (hm.ok ha).1
  | ok size =>
    obtain ⟨hoffers, hentrusted⟩ := hr.realloc_cases hs hh hn hsize ha
    refine ⟨size, rfl, ⟨fun hsec hre => ?_, fun hre => ?_⟩, hoffers, hentrusted⟩
    · exact (hoffers hre).2.not_secures hsec
    · exact (hentrusted hre).secures hf

/-- A block that was given back is handed out by reallocating it, and once more by the next request. -/
theorem reachable_realloc_reissued_twice : ∃ s t : Session,
    Reachable (Heap.new (Arena.growable 100) .fineGrained) s ∧ s.heap.blocks = .ok [⟨16, 64, false⟩] ∧
    t = s.next (.realloc (some ⟨16⟩) 8) (.handle (some ⟨16⟩)) ∧ ¬ t.heap.Secures ⟨16⟩ 8 ∧
      t.heap.Offers ⟨16⟩ ∧ t.answer (.malloc 8) = .ok (.handle (some ⟨16⟩)) := by
  let s := Session.firstHeld.next (.free ⟨16⟩) .done
  have hr : Reachable (Heap.new (Arena.growable 100) .fineGrained) s :=
    .step Session.reachable_firstHeld ⟨_, .head _, rfl⟩ (by decide +kernel)
  have hwalk : s.heap.blocks = .ok [⟨16, 64, false⟩] := by decide +kernel
  obtain ⟨size, hsize, hsecures, hoffers, -⟩ := reachable_realloc_reissued (b := ⟨16, 64, false⟩) (n := 8)
    (q := ⟨16⟩) (.growable _ _) hr (by decide +kernel) hwalk (.head _) (by decide) (by decide +kernel)
  obtain rfl : 16 = size := Except.ok.inj ((show blockSizeFor 8 = .ok 16 by decide +kernel).symm.trans hsize)
  have hre : Reissues [⟨16, 64, false⟩] 16 ⟨16, 64, false⟩ := .fits rfl (by decide)
  exact ⟨s, _, hr, hwalk, rfl, fun hs => hsecures.mp hs hre, (hoffers hre).2, by decide +kernel⟩

end

end BoundaryTag
