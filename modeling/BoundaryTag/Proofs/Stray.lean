import BoundaryTag.Proofs.Regrowth
import BoundaryTag.Proofs.Spent

/-!
# Handles that were moved away

A block that moves leaves its old handle behind, and whether freeing that handle is ignored depends on the word in
front of it only. Where the payload went to another block, the old one was freed, and this is so. Where the block
grew over the one before it, nothing rewrites its old header. It is still there unless the payload came to lie over
it, and then the payload decides.

Main statements: `Heap.free_ends_iff`, `reachable_realloc_stale`.
-/

namespace BoundaryTag

/-- From `c` to `c'`, no more allocations came to be held than were made. -/
def Counters.Backs (c c' : Counters) : Prop :=
  c.totalAllocations + c'.allocations ≤ c'.totalAllocations + c.allocations

/-- The payload of `b`, when it begins at the free block `q` right before `b`, covers the header that `b` had, and
the byte that comes to lie there first is even. -/
def Arena.Overwrites (a : Arena) (q b : Block) : Prop :=
  q.size < b.size ∧ ∃ v, a.byte? (b.offset + q.size - 4) = some v ∧ v.toNat % 2 = 0

/-- The payload of the block `b`, which lies above `xs`, is now that of the allocated block `q`. Its old handle is
ignored, unless the block grew over the one before it and did not overwrite its header. -/
structure Heap.Strands (h h' : Heap) (xs : List Block) (b : Block) (q : Handle) : Prop where
  held : ∃ bs c, h'.blocks = .ok bs ∧ c ∈ bs ∧ c.allocated = true ∧ q = ⟨c.offset⟩
  ignored : (Heap.free ⟨b.offset⟩).Ends h' h' ↔
    ∀ a ∈ xs.getLast?, q = ⟨a.offset⟩ → h.arena.Overwrites a b

open HeapM

section
variable {a a' : Arena} {b f : Block} {h h' h₀ : Heap} {bs xs ys us vs : List Block} {L : List Nat}
  {p q : Handle} {c c' c'' : Counters} {e k n need o : Nat} {s : Session}

/-! ## A free that is not ignored -/

theorem Counters.Backs.refl (c : Counters) : c.Backs c := Nat.le_refl _

theorem Counters.Backs.trans (h : c.Backs c') (h' : c'.Backs c'') : c.Backs c'' := by
  simp only [Counters.Backs] at *
  omega

theorem lasting_backs : Lasting true fun h h' => h.counters.Backs h'.counters := by
  refine .of_counters .refl .trans fun {m c c'} hm e => ?_
  cases hm with
  | extension n =>
    rw [Counters.eq_extended e]
    exact .refl _
  | alloc n =>
    simp only [Counters.eq_charged e, Counters.Backs, Counters.charged]
    omega
  | growth old new =>
    rw [Counters.eq_grown e]
    exact .refl _
  | release n =>
    obtain ⟨⟨_, _⟩, rfl⟩ := Counters.eq_released e
    simp only [Counters.Backs, Counters.released]
    omega

theorem Heap.free_meets_of_allocated (hs : Sound h bs L) (h8 : 8 ∣ p.offset)
    (hin : 16 ≤ p.offset ∧ p.offset + 16 ≤ h.arena.size) {t : Tag}
    (ht : h.arena.tag? (p.offset - 4) = some t) (ha : t.allocated = true) :
    Meets (Heap.free p) h (fun _ h' => h' ≠ h) (fun _ _ => True) := by
  refine Heap.free_meets_of_tag hs.laid hs.settled h8 hin ht (fun _ => ?_)
    fun hf => absurd (ha.symm.trans hf) (by decide)
  refine Meets.lift_cases (fun payload _ => ?_) fun _ _ => trivial
  cases hrec : (Counters.recordFree payload).run h.counters with
  | error e c => exact Meets.of_run_error (run_bind_of_error (Heap.account_run_of_error hrec)) trivial
  | ok _ c =>
    apply (Heap.account_meets hrec).then
    rintro _ _ rfl
    have hrest : Made true (do
        Heap.setBlock p.offset t.size false
        Heap.enlist p.offset
        let _ ← Heap.coalesce p.offset) :=
      (Heap.made_setBlock _ _ _).bind fun _ => (Made.enlist _).bind fun _ =>
        (Heap.made_coalesce _).bind fun _ => .pure _
    refine (hrest.lasts lasting_backs _).mono ?_ fun _ _ _ => trivial
    rintro _ _ hback rfl
    obtain ⟨⟨_, _⟩, rfl⟩ := Counters.eq_released hrec
    simp only [Counters.Backs, Counters.released] at hback
    omega

theorem Heap.free_ends_iff (hs : Sound h bs L) (h8 : 8 ∣ p.offset)
    (hin : 16 ≤ p.offset ∧ p.offset + 16 ≤ h.arena.size) :
    (Heap.free p).Ends h h ↔ h.arena.Spent p.offset := by
  constructor
  · rintro ⟨hok, hsame⟩
    cases ht : h.arena.tag? (p.offset - 4) with
    | none =>
      have := Arena.tag?_eq_none_iff.mp ht
      omega
    | some t =>
      refine ⟨h8, hin, t, ht, Bool.eq_false_iff.mpr fun ha => ?_⟩
      exact (Heap.free_meets_of_allocated hs h8 hin ht ha).ok hok hsame
  · exact hs.ignores

theorem Arena.spent_iff (h8 : 8 ∣ o) (hin : 16 ≤ o ∧ o + 16 ≤ a.size) :
    a.Spent o ↔ ∃ v, a.byte? (o - 4) = some v ∧ v.toNat % 2 = 0 := by
  cases hw : Bytes.word? a.bytes (o - 4) with
  | none =>
    have := Bytes.word?_eq_none_iff.mp hw
    simp only [Arena.size] at hin
    omega
  | some w =>
    have hbyte : a.byte? (o - 4) = some w[0] := Bytes.word?_eq_some_iff.mp hw 0 (by decide)
    have htag : a.tag? (o - 4) = some (Tag.ofBytes w) := by rw [Arena.tag?, hw, Option.map_some]
    have hflag : (Tag.ofBytes w).allocated = false ↔ w[0].toNat % 2 = 0 := by
      conv => rhs; rw [← Tag.toBytes_ofBytes w]
      simp [Tag.allocated, Tag.toBytes]
    rw [hbyte]
    constructor
    · rintro ⟨-, -, t, ht, hf⟩
      cases htag.symm.trans ht
      exact ⟨_, rfl, hflag.mp hf⟩
    · rintro ⟨v, hv, he⟩
      cases hv
      exact ⟨h8, hin, _, htag, hflag.mpr he⟩

/-! ## Growing over the block before -/

theorem Growth.exists_below {g : Growth} (hg : g.Feasible b.size need (tagBelow xs) (tagAbove ys))
    (ht : Tiling 16 (xs ++ b :: ys) e) (hne : (g.grown xs b ys).offset ≠ b.offset) :
    ∃ zs f, xs = zs ++ [f] ∧ (g.grown xs b ys).offset = f.offset := by
  obtain ⟨hxs, -, -⟩ := ht.split
  cases g with
  | up => exact absurd rfl hne
  | down =>
    obtain ⟨zs, f, rfl, hf, -⟩ := tagBelow_free hxs hg.1
    refine ⟨zs, f, rfl, ?_⟩
    simp [Growth.grown, Growth.low, occupying, joined, freeLast_concat_of_free hf]
  | both =>
    obtain ⟨zs, f, rfl, hf, -⟩ := tagBelow_free hxs hg.1
    refine ⟨zs, f, rfl, ?_⟩
    simp [Growth.grown, Growth.low, occupying, joined, freeLast_concat_of_free hf]

theorem Arena.Shifted.spent_iff (hsh : a.Shifted a' b f.offset e) (ht : Tiled a (xs ++ f :: b :: ys))
    (hb : b.allocated = true) (he : b.stop ≤ e) (hin : b.stop ≤ a'.size) :
    a'.Spent b.offset ↔ a.Overwrites f b := by
  obtain ⟨hxs, hfp, hbo, hbp, hys⟩ := ht.tiling.split
  have hge := hxs.le
  have hend := hys.le
  have hfs : f.stop = f.offset + f.size := rfl
  have hbs : b.stop = b.offset + b.size := rfl
  have hf8 := hfp.dvd
  have hb8 := hbp.dvd
  have hfleast := hfp.least
  have hbleast := hbp.least
  have h8 : 8 ∣ b.offset := by
    rw [hbo]
    exact (Nat.dvd_add (hxs.dvd (by decide)) hfp.dvd)
  rw [Arena.spent_iff h8 (by omega)]
  by_cases hlt : f.size < b.size
  · have hbyte : a'.byte? (b.offset - 4) = a.byte? (b.offset + f.size - 4) := by
      have hi := hsh.moved (f.size - 4) (by omega)
      rwa [show f.offset + (f.size - 4) = b.offset - 4 by omega,
        show b.offset + (f.size - 4) = b.offset + f.size - 4 by omega] at hi
    rw [hbyte, Arena.Overwrites, and_iff_right hlt]
  · have htag : a'.tag? (b.offset - 4) = some b.tag :=
      (hsh.tag_above (by omega) (by omega)).trans (ht.tagged b (by simp)).1
    rw [← Arena.spent_iff h8 (by omega)]
    refine iff_of_false ?_ fun ho => hlt ho.1
    rintro ⟨-, -, t, ht', hfree⟩
    cases htag.symm.trans ht'
    rw [hbp.allocated_tag, hb] at hfree
    cases hfree

theorem Heap.growInPlace_strands {g : Growth} (hs : Sound h (xs ++ b :: ys) L) (hb : b.allocated = true)
    (hg : g.Feasible b.size need (tagBelow xs) (tagAbove ys)) :
    Meets (Heap.growInPlace b.offset b.size (tagBelow xs) (tagAbove ys) g) h
      (fun q h' => q ≠ ⟨b.offset⟩ → h.Strands h' xs b q) (fun _ _ => True) := by
  refine (Heap.growInPlace_sound hs hb hg).mono ?_ fun _ _ _ => trivial
  rintro _ h' ⟨rfl, -, hs', -, hsh, -⟩ hne
  have ht := hs.laid.tiled.tiling
  have hcov := ht.grown_covers g
  obtain ⟨zs, f, rfl, hgo⟩ := Growth.exists_below hg ht fun ho => hne (congrArg Handle.mk ho)
  have hgm : g.grown (zs ++ [f]) b ys ∈
      g.below (zs ++ [f]) ++ [g.grown (zs ++ [f]) b ys] ++ g.above ys := by simp
  have hend : b.stop ≤ h'.arena.size := hcov.2.trans (hs'.laid.tiled.tiling.bounds hgm).2
  have hbm : b ∈ zs ++ [f] ++ b :: ys := List.mem_append_cons_self
  have hin : 16 ≤ b.offset ∧ b.offset + 16 ≤ h'.arena.size := by
    have := (hs.laid.inside hbm).1
    have := (ht.proper hbm).least
    have hbs : b.stop = b.offset + b.size := rfl
    omega
  have hspent : h'.arena.Spent b.offset ↔ h.arena.Overwrites f b := by
    rw [hgo] at hsh
    have htiled := hs.laid.tiled
    rw [List.append_assoc] at htiled
    exact hsh.spent_iff htiled hb hcov.2 hend
  refine ⟨⟨_, _, hs'.laid.blocks_eq, hgm, rfl, rfl⟩, ?_⟩
  rw [Heap.free_ends_iff hs' (hs.laid.storable hbm).1 hin, hspent]
  simp [hgo]

/-! ## Moving elsewhere -/

theorem Chosen.apart (hc : Chosen h (xs ++ b :: ys) need us f vs k) (ht : Tiled h.arena (xs ++ b :: ys))
    (hno : ∀ g : Growth, ¬ g.Feasible b.size need (tagBelow xs) (tagAbove ys)) :
    ∀ c ∈ xs.getLast?, f.offset ≠ c.offset := by
  intro c hlast ho
  obtain ⟨zs, rfl⟩ := List.getLast?_eq_some_iff.mp hlast
  have hcm : c ∈ zs ++ [c] ++ b :: ys := by simp
  have hcp := ht.tiling.proper hcm
  have hleast := hcp.least
  have hcs : c.stop = c.offset + c.size := rfl
  cases hc with
  | listed _ hbs hf hle =>
    obtain rfl := ht.tiling.eq_of_offset (hbs ▸ List.mem_append_cons_self) hcm ho
    refine hno .down ⟨?_, ?_⟩
    · rw [tagBelow_concat, hcp.allocated_tag, hf]
    · rw [tagBelow_concat, hcp.size_tag]
      omega
  | @merged _ d _ hbs =>
    -- the block at the end lies above `b`
    have hd : d ∈ b :: ys := by
      have hend := congrArg List.getLast? hbs
      rw [List.getLast?_concat, List.getLast?_append_cons] at hend
      exact List.mem_of_getLast? hend
    have htc := ht.tiling
    rw [List.append_assoc] at htc
    have := (htc.split.2.2.bounds hd).1
    have ho : d.offset = c.offset := ho
    omega
  | added =>
    have hend := (ht.tiling.bounds hcm).2
    have ho : h.arena.top = c.offset := ho
    rw [ht.top_eq] at ho
    omega

theorem Heap.relocate_strands (hs : Sound h (xs ++ b :: ys) L) (hc : h.arena.ceiling ≤ maxBlockSize)
    (hb : b.allocated = true) (hn : 1 ≤ n) (hsize : blockSizeFor n = .ok need) (hlt : b.size < need)
    (hno : ∀ g : Growth, ¬ g.Feasible b.size need (tagBelow xs) (tagAbove ys)) :
    Meets (Heap.relocate ⟨b.offset⟩ n b.size) h
      (fun q h' => q ≠ ⟨b.offset⟩ → h.Strands h' xs b q) (fun _ _ => True) := by
  refine Heap.relocate_meets_of hs hb rfl hn hsize hlt (fun _ _ _ _ => trivial) (fun _ _ _ => trivial) ?_
  intro h₁ h₂ us c vs L₁ hcopy
  have hapart : ∀ d ∈ xs.getLast?, (⟨c.offset⟩ : Handle) ≠ ⟨d.offset⟩ := by
    obtain ⟨need', us, f, vs, k, hsize', hchosen, hcf, -⟩ := hcopy.granted
    obtain rfl : need = need' := Except.ok.inj (hsize.symm.trans hsize')
    rw [hcf]
    exact fun d hd he => hchosen.apart hs.laid.tiled hno d hd (congrArg Handle.offset he)
  have hc₂ : h₂.arena.ceiling ≤ maxBlockSize :=
    (hcopy.frame₂.ceiling.trans hcopy.frame₁.ceiling).trans_le hc
  have hbA : b ∈ allocatedBlocks (us ++ c :: vs) := mem_allocatedBlocks.mpr ⟨hcopy.still, hb⟩
  refine (Heap.free_spends hcopy.sound₂ hc₂ ⟨b, hbA, rfl⟩).of_noFault ?_
  rintro _ h₃ ⟨⟨-, bs₃, L₃, hret⟩, hspent, -⟩ hne
  refine ⟨?_, iff_of_true (hret.sound.ignores hspent) fun d hd he => absurd he (hapart d hd)⟩
  have hcA : c ∈ allocatedBlocks bs₃ := by
    rw [hret.kept]
    have hcm : c ∈ allocatedBlocks (us ++ c :: vs) :=
      mem_allocatedBlocks.mpr ⟨List.mem_append_cons_self, hcopy.allocated⟩
    exact mem_keptBlocks.mpr ⟨hcm, by simpa using hne⟩
  obtain ⟨hcm, hca⟩ := mem_allocatedBlocks.mp hcA
  exact ⟨_, c, hret.sound.laid.blocks_eq, hcm, hca, rfl⟩

/-! ## Reallocating -/

theorem Call.realloc_strands (hs : Sound h (xs ++ b :: ys) L) (hc : h.arena.ceiling ≤ maxBlockSize)
    (hb : b.allocated = true) (hn : 1 ≤ n) :
    Meets (Call.realloc (some ⟨b.offset⟩) n).action h
      (fun a h' => ∀ q, a = .handle (some q) → q ≠ ⟨b.offset⟩ → h.Strands h' xs b q)
      (fun _ _ => True) := by
  cases hsize : blockSizeFor n with
  | error err =>
    refine (Call.realloc_meets_of_oversized (p := ⟨b.offset⟩) hs rfl hn hsize).of_noFault ?_
    rintro _ _ ⟨rfl, -⟩
    exact nofun
  | ok need =>
    refine Call.realloc_meets_of_enlarge hs rfl hn hsize (Heap.enlarge_meets_of hs rfl ?stay ?grow ?move)
    case stay =>
      intro _ q hq hne
      cases hq
      exact absurd rfl hne
    case grow =>
      intro g _ hplan
      refine (Heap.growInPlace_strands hs hb (Growth.feasible_of_plan hplan)).mono ?_ fun _ _ => id
      rintro q h' hq _ ⟨rfl⟩
      exact hq
    case move =>
      intro hlt hplan
      have hno := Growth.plan_eq_none_iff.mp hplan
      refine (Heap.relocate_strands hs hc hb hn hsize hlt hno).mono ?_ fun _ _ => id
      rintro q h' hq _ ⟨rfl⟩
      exact hq

theorem reachable_realloc_stale (hf : Fresh h₀) (hc : h₀.arena.ceiling ≤ maxBlockSize)
    (hr : Reachable h₀ s) (hp : s.Holds p) (hn : 1 ≤ n)
    (ha : s.answer (.realloc (some p) n) = .ok (.handle (some q))) (hne : q ≠ p) :
    ∃ xs b ys, s.heap.blocks = .ok (xs ++ b :: ys) ∧ b.allocated = true ∧ p = ⟨b.offset⟩ ∧
      s.heap.Strands (s.next (.realloc (some p) n) (.handle (some q))).heap xs b q := by
  obtain ⟨hv, hceil⟩ := hr.valid hf
  rw [← hceil] at hc
  cases hv with
  | idle =>
    obtain ⟨_, hk, _⟩ := hp
    cases hk
  | live hs hh =>
    obtain ⟨xs, b, ys, rfl, hb, hpb⟩ := Call.exists_block hs hh hp
    obtain rfl : p = ⟨b.offset⟩ := congrArg Handle.mk hpb
    exact ⟨xs, b, ys, hs.laid.blocks_eq, hb, rfl, (Call.realloc_strands hs hc hb hn).ok ha q rfl hne⟩

/-- The second block grows over the first one, which is no smaller, and keeps its old header. -/
theorem reachable_realloc_stale_grown : ∃ (h h' : Heap) (xs : List Block) (b : Block),
    h.blocks = .ok [⟨16, 16, false⟩, ⟨32, 16, true⟩, ⟨48, 32, false⟩] ∧
      h'.blocks = .ok [⟨16, 32, true⟩, ⟨48, 32, false⟩] ∧ h.Strands h' xs b ⟨16⟩ ∧
      ¬ (Heap.free ⟨32⟩).Ends h' h' := by
  let s := Session.pairHeld.next (.free ⟨16⟩) .done
  have hr : Reachable (Heap.new (Arena.growable 100) .fineGrained) s := .step Session.reachable_pairHeld
    ⟨{ handle := ⟨16⟩, size := 8 }, .tail _ (.head _), rfl⟩ (by decide +kernel)
  have hwalk : s.heap.blocks = .ok [⟨16, 16, false⟩, ⟨32, 16, true⟩, ⟨48, 32, false⟩] := by
    decide +kernel
  obtain ⟨xs, b, ys, hbs, -, hp, hstrands⟩ := reachable_realloc_stale (p := ⟨32⟩) (q := ⟨16⟩) (n := 20)
    (.growable _ _) (by decide) hr ⟨_, .head _, rfl⟩ (by decide) (by decide +kernel) (by decide)
  have he : [⟨16, 16, false⟩] ++ (⟨32, 16, true⟩ : Block) :: [⟨48, 32, false⟩] = xs ++ b :: ys :=
    Except.ok.inj (hwalk.symm.trans hbs)
  obtain ⟨rfl, rfl, -⟩ := split_unique_of_nodup (by decide) he (congrArg Handle.offset hp)
  refine ⟨_, _, _, _, hwalk, by decide +kernel, hstrands, fun hends => ?_⟩
  exact absurd (hstrands.ignored.mp hends _ rfl rfl).1 (by decide)

end

end BoundaryTag
