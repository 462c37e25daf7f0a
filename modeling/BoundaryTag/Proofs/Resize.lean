import BoundaryTag.Proofs.Freed
import BoundaryTag.Proofs.InPlace

/-!
# Reallocation

A block that is large enough stays. Otherwise it grows in place, or its payload moves to a block of its
own. If neither works, the heap is `Stuck`, and reallocating is a fault that leaves the heap untouched.

Main statements: `Heap.relocate_meets_of_granted` (relocating, step by step), `Heap.enlarge_meets_of` (one contract
for each of the three ways), `Heap.enlarge_meets`, `Heap.resize_meets`.
-/

namespace BoundaryTag

/-- The block `b`, one of `xs ++ b :: ys`, has become a block for `payload` bytes at `q`, with the same
bytes in it as far as both reach. -/
def Resized (h : Heap) (xs : List Block) (b : Block) (ys : List Block) (payload : Nat) (q : Handle)
    (h' : Heap) : Prop :=
  ∃ bs L c, Sound h' bs L ∧ c.allocated = true ∧ q = ⟨c.offset⟩ ∧ payload + 8 ≤ c.size ∧
    b.size ≤ c.size ∧ (allocatedBlocks bs).Perm (c :: allocatedBlocks (xs ++ ys)) ∧
    Frame h h' (xs ++ ys) ∧ h.counters.Frees h'.counters (freedBytes (xs ++ b :: ys) bs) ∧
    ∀ i, i + 8 < b.size → h'.arena.byte? (c.offset + i) = h.arena.byte? (b.offset + i)

/-- There is neither room beside `b` for a block of `need` bytes nor anywhere else. -/
def Stuck (h : Heap) (xs : List Block) (b : Block) (ys : List Block) (need : Nat) (e : AllocError) :
    Prop :=
  b.size < need ∧ (∀ g : Growth, ¬ g.Feasible b.size need (tagBelow xs) (tagAbove ys)) ∧
    h.shortage? (xs ++ b :: ys) need = some e

section
variable {h h' h'' : Heap} {bs xs ys zs ws : List Block} {b c : Block} {L L' L'' : List Nat}
  {payload need : Nat}

theorem Resized.refl (hs : Sound h (xs ++ b :: ys) L) (hb : b.allocated = true)
    (hp : payload + 8 ≤ b.size) : Resized h xs b ys payload ⟨b.offset⟩ h :=
  ⟨_, L, b, hs, hb, rfl, hp, Nat.le_refl _, allocatedBlocks_middle_perm _ _ hb, Frame.refl _ _,
    hs.laid.tiled.tiling.frees_self rfl, fun _ _ => rfl⟩

theorem Resized.grown {g : Growth} (hs : Sound h (xs ++ b :: ys) L)
    (hb : b.allocated = true) (hs' : Sound h' (g.below xs ++ [g.grown xs b ys] ++ g.above ys) L')
    (hp : payload + 8 ≤ (g.grown xs b ys).size) (hf : Frame h h' (xs ++ ys))
    (hc : (Counters.recordGrowth (b.size - 8) ((g.grown xs b ys).size - 8)).run h.counters =
      .ok () h'.counters)
    (hbytes : ∀ i, i + 8 < b.size →
      h'.arena.byte? ((g.grown xs b ys).offset + i) = h.arena.byte? (b.offset + i)) :
    Resized h xs b ys payload ⟨(g.grown xs b ys).offset⟩ h' := by
  have hall := allocatedBlocks_middle_perm (g.below xs) (g.above ys)
    (show (g.grown xs b ys).allocated = true from rfl)
  rw [List.append_cons, g.allocatedBlocks_beside] at hall
  have ht := hs.laid.tiled.tiling
  have hcov : (g.grown xs b ys).Covers b.offset := by
    have := ht.grown_covers g
    have := ht.split.2.1.covers
    simp only [Block.Covers] at *
    omega
  have hnone := ht.freedBytes_of_covers hb (fun _ hd => hall.mem_iff.mpr (List.mem_cons_of_mem _ hd))
    (hall.mem_iff.mpr List.mem_cons_self) hcov
  refine ⟨_, _, _, hs', rfl, rfl, hp, g.size_le_grown xs ys b, hall, hf, ?_, hbytes⟩
  rw [hnone]
  exact Counters.eq_grown hc ▸ Counters.frees_grown _

theorem Resized.relocated (hs : Sound h (xs ++ b :: ys) L) (hb : b.allocated = true)
    (hc : c.allocated = true) (hp : payload + 8 ≤ c.size) (hle : b.size ≤ c.size)
    (hs' : Sound h' (zs ++ b :: ws) L')
    (hadded : (allocatedBlocks (zs ++ ws)).Perm (c :: allocatedBlocks (xs ++ ys)))
    (hf : Frame h h' (xs ++ b :: ys)) (hk : h.counters.Frees h'.counters 0)
    (hbytes : ∀ i, i + 8 < b.size → h'.arena.byte? (c.offset + i) = h.arena.byte? (b.offset + i))
    (hs'' : Sound h'' bs L'') (hall : allocatedBlocks bs = allocatedBlocks (zs ++ ws))
    (hf' : Frame h' h'' (zs ++ ws)) (hk' : h''.counters = h'.counters.released (b.size - 8)) :
    Resized h xs b ys payload ⟨c.offset⟩ h'' := by
  have hrest : allocatedBlocks (xs ++ ys) ⊆ allocatedBlocks (zs ++ ws) := fun d hd =>
    hadded.mem_iff.mpr (List.mem_cons_of_mem _ hd)
  refine ⟨bs, L'', c, hs'', hc, rfl, hp, hle, hall ▸ hadded, ?frame, ?frees, fun i hi => ?bytes⟩
  case frame =>
    refine (hf.mono fun d hd => ?_).trans hf' hrest
    exact (allocatedBlocks_middle_perm _ _ hb).mem_iff.mpr (List.mem_cons_of_mem _ hd)
  case frees =>
    have hlost := hs'.laid.tiled.tiling.lost_of_subset fun d hd => hall ▸ hd
    have hfrees := hk.trans (hs'.counted.frees_released hb)
    rw [hs.laid.tiled.tiling.freedBytes_of_lost hb (hall ▸ hrest) hlost, hk']
    rwa [Nat.zero_add] at hfrees
  case bytes =>
    have hcs : c.stop = c.offset + c.size := rfl
    rw [hf'.keeps c (hadded.mem_iff.mpr List.mem_cons_self) _ (Nat.le_add_right _ _) (by omega),
      hbytes i hi]

namespace Heap

open HeapM

/-! ## In place -/

def growInPlace (block size : Nat) (before after : Tag) (g : Growth) : HeapM Handle := do
  let grown ← grow block size before after g
  let old ← Address.sub size overhead
  let new ← Address.sub (← read (·.blockSize grown)) overhead
  account (Counters.recordGrowth old new)
  return ⟨grown⟩

theorem growInPlace_sound (hs : Sound h (xs ++ b :: ys) L) (hb : b.allocated = true)
    {g : Growth} (hg : g.Feasible b.size need (tagBelow xs) (tagAbove ys)) :
    Meets (growInPlace b.offset b.size (tagBelow xs) (tagAbove ys) g) h
      (fun q h' => q = ⟨(g.grown xs b ys).offset⟩ ∧ need ≤ (g.grown xs b ys).size ∧
        Sound h' (g.below xs ++ [g.grown xs b ys] ++ g.above ys)
          (L.diff ((g.low xs ++ g.high ys).map (·.offset))) ∧ Frame h h' (xs ++ ys) ∧
        h.arena.Shifted h'.arena b (g.grown xs b ys).offset (g.grown xs b ys).stop ∧
        (Counters.recordGrowth (b.size - 8) ((g.grown xs b ys).size - 8)).run h.counters =
          .ok () h'.counters)
      (fun e h' => Oversize h e ∨ (e = .overflow ∧ Overcounted h) ∧
        (Counters.recordGrowth (b.size - 8) ((g.grown xs b ys).size - 8)).run h.counters =
          .error e h'.counters ∧
        Laid h' (g.below xs ++ [g.grown xs b ys] ++ g.above ys)
          (L.diff ((g.low xs ++ g.high ys).map (·.offset)))) := by
  obtain ⟨hxs, hbp, hys⟩ := hs.laid.tiled.tiling.split
  have hneed := hg.le_grown hxs hys
  refine (grow_meets hs.laid hb hg).seq (fun _ _ => Or.inl) ?_
  intro r _ hq
  obtain ⟨rfl, a, l, rfl, hpatch, hbytes, hl⟩ := hq
  rw [← Growth.grown] at hpatch hbytes hl
  have hbc := g.size_le_grown xs ys b
  have hca : (g.grown xs b ys).allocated = true := rfl
  have hall := g.allocatedBlocks_beside xs ys
  have hset := hs.settled.grown g
  generalize g.grown xs b ys = c at *
  have hcm : c ∈ g.below xs ++ [c] ++ g.above ys := by simp
  have hcp := hl.tiled.tiling.proper hcm
  have hbound := hl.tiled.bounded
  have hend := (hl.tiled.tiling.bounds hcm).2
  have hcs : c.stop = c.offset + c.size := rfl
  have hperm := allocatedBlocks_middle_perm xs ys hb
  have hgrown := allocatedBlocks_middle_perm (g.below xs) (g.above ys) hca
  rw [List.append_cons, hall] at hgrown
  refine Meets.lift_bind hbp.sub_overhead
    (Meets.read_bind (hl.tiled.blockSize hcm) (Meets.lift_bind hcp.sub_overhead ?_))
  have hmore : b.size - 8 ≤ c.size - 8 := by omega
  have hcap : c.size - 8 ≤ Arena.maxSize := by omega
  refine (expand_meets (h := { h with arena := a, freeList := l }) hmore
    (hs.counted.bounded hs.laid.tiled).2 hcap).seq ?_ ?_
  · intro _ _ hq
    obtain ⟨hrec, rfl, ho, _, rfl⟩ := hq
    exact Or.inr ⟨⟨rfl, ho⟩, hrec, hl.recount _⟩
  intro _ _ hq
  obtain ⟨hrec, rfl⟩ := hq
  have hkeeps : Keeps h.arena a (g.below xs ++ g.above ys) := by
    have ht := hl.tiled.tiling
    rw [← List.append_cons] at ht
    exact hpatch.keeps ht
  have hcounted : Counted { h with
      arena := a
      freeList := l
      counters := h.counters.grown (c.size - 8 - (b.size - 8)) } (g.below xs ++ [c] ++ g.above ys) :=
    hs.counted.grown rfl hpatch.alike.size hbc hperm hgrown
  exact Meets.pure ⟨rfl, hneed, ⟨hl.recount _, hset, hcounted⟩,
    ⟨rfl, hpatch.alike.ceiling, hkeeps.mono fun d hd => hall.symm ▸ hd⟩, hbytes, hrec⟩

/-! ## Elsewhere -/

def copied (h : Heap) (b : Block) (q : Handle) : Heap :=
  { h with arena := h.arena.move b.offset (b.size - 8) q.offset }

theorem copied_sound (hs : Sound h (xs ++ c :: ys) L) (hin : b.offset + (b.size - 8) ≤ h.arena.size)
    (hle : b.size ≤ c.size) :
    Sound (h.copied b ⟨c.offset⟩) (xs ++ c :: ys) L ∧ Frame h (h.copied b ⟨c.offset⟩) (xs ++ ys) ∧
      ∀ i, i + 8 < b.size →
        (h.copied b ⟨c.offset⟩).arena.byte? (c.offset + i) = h.arena.byte? (b.offset + i) := by
  have hc : c ∈ xs ++ c :: ys := List.mem_append_cons_self
  have hend := hs.laid.tiled.payload_le hc
  have hleast := (hs.laid.tiled.tiling.proper hc).least
  have hcs : c.stop = c.offset + c.size := rfl
  have hdst : c.offset + (b.size - 8) ≤ h.arena.size := by omega
  obtain ⟨hs', hf⟩ := hs.repaint ((Arena.patch_move hin hdst).mono (Nat.le_refl _) (by omega))
  refine ⟨hs', hf, fun i hi => ?_⟩
  show (h.arena.move b.offset (b.size - 8) c.offset).byte? (c.offset + i) = _
  rw [Arena.byte?_move hin hdst, if_pos (by omega), Nat.add_sub_cancel_left]

theorem move_into_meets (hs : Sound h (xs ++ c :: ys) L) (hb : b ∈ xs ++ c :: ys)
    (hle : b.size ≤ c.size) :
    Meets (move b.offset (b.size - 8) c.offset) h
      (fun _ h' => (Sound h' (xs ++ c :: ys) L ∧ h'.counters = h.counters) ∧ Frame h h' (xs ++ ys) ∧
        ∀ i, i + 8 < b.size → h'.arena.byte? (c.offset + i) = h.arena.byte? (b.offset + i))
      NoFault := by
  have hin := hs.laid.tiled.payload_le hb
  have hdst := hs.laid.tiled.payload_le (b := c) List.mem_append_cons_self
  refine (move_meets hin (by omega)).mono ?_ (fun _ _ => id)
  rintro _ _ rfl
  obtain ⟨hs', hf, hbytes⟩ := copied_sound hs hin hle
  exact ⟨⟨hs', rfl⟩, hf, hbytes⟩

theorem allocatedBlocks_exchange_perm {us vs : List Block} (he : us ++ c :: vs = zs ++ b :: ws)
    (hc : c.allocated = true) (hb : b.allocated = true)
    (hrest : allocatedBlocks (us ++ vs) = allocatedBlocks (xs ++ b :: ys)) :
    (allocatedBlocks (zs ++ ws)).Perm (c :: allocatedBlocks (xs ++ ys)) := by
  -- both are the allocated blocks of `zs ++ b :: ws` without `b`
  have hadded : (b :: allocatedBlocks (zs ++ ws)).Perm (c :: b :: allocatedBlocks (xs ++ ys)) := by
    apply (allocatedBlocks_middle_perm zs ws hb).symm.trans
    rw [← he]
    refine (allocatedBlocks_middle_perm us vs hc).trans (List.Perm.cons c ?_)
    rw [hrest]
    exact allocatedBlocks_middle_perm xs ys hb
  exact (hadded.trans (List.Perm.swap b c _)).cons_inv

theorem mem_of_allocatedBlocks_eq {us vs : List Block} (hb : b.allocated = true)
    (hrest : allocatedBlocks (us ++ vs) = allocatedBlocks (xs ++ b :: ys)) : b ∈ us ++ c :: vs := by
  have hbA : b ∈ allocatedBlocks (us ++ vs) :=
    hrest ▸ mem_allocatedBlocks.mpr ⟨List.mem_append_cons_self, hb⟩
  rcases List.mem_append.mp (mem_allocatedBlocks.mp hbA).1 with hm | hm
  · exact List.mem_append_left _ hm
  · exact List.mem_append_right _ (List.mem_cons_of_mem _ hm)

/-- A request for `n` bytes, or a block of `need`, was met with the block `c` between `us` and `vs`, which the
payload of the block `b` was then copied to. The heap was `h` before, `h₁` in between, and is `h₂` now. -/
structure Copied (h h₁ h₂ : Heap) (bs : List Block) (b : Block) (L : List Nat) (n need : Nat)
    (us : List Block) (c : Block) (vs : List Block) (L' : List Nat) : Prop where
  served : ((serve n).run h).result = .ok (.ok ⟨c.offset⟩) ∧ ((serve n).run h).heap = h₁
  room : h.shortage? bs need = none
  granted : Granted h bs L n ⟨c.offset⟩ h₁
  allocated : c.allocated = true
  need_le : need ≤ c.size
  others : allocatedBlocks (us ++ vs) = allocatedBlocks bs
  still : b ∈ us ++ c :: vs
  sound₁ : Sound h₁ (us ++ c :: vs) L'
  frame₁ : Frame h h₁ bs
  sound₂ : Sound h₂ (us ++ c :: vs) L'
  frame₂ : Frame h₁ h₂ (us ++ vs)
  counters : h₂.counters = h₁.counters
  bytes : ∀ i, i + 8 < b.size → h₂.arena.byte? (c.offset + i) = h₁.arena.byte? (b.offset + i)

/-- A request for `n` bytes is met with `q`, and that leads from `h` to `h'`. -/
structure Serves (h : Heap) (n : Nat) (q : Handle) (h' : Heap) : Prop where
  result : ((serve n).run h).result = .ok (.ok q)
  heap : ((serve n).run h).heap = h'

theorem size_le_of_granted {q : Handle} (hq : Granted h bs L payload q h')
    (hsize : blockSizeFor payload = .ok need) (ht : Tiled h.arena bs) :
    h.arena.size ≤ h'.arena.size ∧ q.offset + need ≤ h'.arena.size := by
  have hgrown : h.arena.size ≤ h'.arena.size := by
    obtain ⟨_, _, _, _, n, -, -, -, -, -, hgrown⟩ := hq
    omega
  obtain ⟨need', us, c, vs, L', hsize', rfl, -, hneed, hs', -⟩ := (hq.served ht).block
  obtain rfl : need = need' := Except.ok.inj (hsize.symm.trans hsize')
  have hend := (hs'.laid.tiled.tiling.bounds (b := c) List.mem_append_cons_self).2
  have hcs : c.stop = c.offset + c.size := rfl
  exact ⟨hgrown, by simp only; omega⟩

/-- Relocating is serving the request, copying the payload, and freeing the old block. -/
theorem relocate_meets_of_granted {Q : Handle → Heap → Prop} {E : Fault → Heap → Prop}
    (hs : Sound h (xs ++ b :: ys) L) {p : Handle} (hp : p.offset = b.offset)
    (hpos : 1 ≤ payload) (hsize : blockSizeFor payload = .ok need) (hlt : b.size < need)
    (fault : ∀ e h', ((serve payload).run h).result = .error e → Strained h e → E e h')
    (denied : ∀ err, ((serve payload).run h).result = .ok (.error err) →
      h.shortage? (xs ++ b :: ys) need = some err → E (.relocation p payload err) h)
    (granted : ∀ q h₁, h.Serves payload q h₁ → h.shortage? (xs ++ b :: ys) need = none →
      Granted h (xs ++ b :: ys) L payload q h₁ →
      Meets (free p) (h₁.copied b q) (fun _ h' => Q q h') E) :
    Meets (relocate p payload b.size) h Q E := by
  have hserve := (serve_meets hs hpos).traced
  have hdenied : h.denied? (xs ++ b :: ys) payload = h.shortage? (xs ++ b :: ys) need := by
    rw [denied?, hsize]
  have hpay := hs.laid.tiled.tiling.split.2.1.sub_overhead
  have hsrc := hs.laid.tiled.payload_le (b := b) List.mem_append_cons_self
  rw [hdenied] at hserve
  unfold relocate
  apply (selfCheck_meets hs.laid hs.settled .malloc).then
  rintro _ h rfl
  refine hserve.seq (fun e h' he => fault e h' he.1 he.2.2) ?_
  cases hsh : h.shortage? (xs ++ b :: ys) need with
  | some err =>
    rintro _ _ ⟨⟨hr, -⟩, rfl, rfl⟩
    exact Meets.tell_bind (Meets.fail (denied err hr hsh))
  | none =>
    rintro _ h₁ ⟨⟨hr, hh⟩, q, rfl, hq⟩
    obtain ⟨hgrown, hfits⟩ := size_le_of_granted hq hsize hs.laid.tiled
    rw [hp]
    refine Meets.lift_bind hpay ((move_meets (h := h₁) (by omega) (by omega)).then ?_)
    rintro _ _ rfl
    refine (granted q h₁ ⟨hr, hh.symm⟩ hsh hq).seq (fun _ _ => id) fun _ _ hQ => ?_
    exact Meets.tell_bind (Meets.pure hQ)

theorem relocate_meets_of {Q : Handle → Heap → Prop} {E : Fault → Heap → Prop}
    (hs : Sound h (xs ++ b :: ys) L) (hb : b.allocated = true) {p : Handle} (hp : p.offset = b.offset)
    (hpos : 1 ≤ payload) (hsize : blockSizeFor payload = .ok need) (hlt : b.size < need)
    (fault : ∀ e h', ((serve payload).run h).result = .error e → Strained h e → E e h')
    (denied : ∀ err, ((serve payload).run h).result = .ok (.error err) →
      h.shortage? (xs ++ b :: ys) need = some err → E (.relocation p payload err) h)
    (copied : ∀ h₁ h₂ us c vs L', Copied h h₁ h₂ (xs ++ b :: ys) b L payload need us c vs L' →
      Meets (free p) h₂ (fun _ h' => Q ⟨c.offset⟩ h') E) :
    Meets (relocate p payload b.size) h Q E := by
  refine relocate_meets_of_granted hs hp hpos hsize hlt fault denied ?_
  intro q h₁ hserved hsh hq
  obtain ⟨need', us, c, vs, L', hsize', rfl, hca, hneed, hs₁, hothers, hf₁⟩ :=
    (hq.served hs.laid.tiled).block
  obtain rfl : need = need' := Except.ok.inj (hsize.symm.trans hsize')
  have hbm : b ∈ us ++ c :: vs := mem_of_allocatedBlocks_eq hb hothers
  obtain ⟨hs₂, hf₂, hbytes⟩ :=
    copied_sound hs₁ (hs₁.laid.tiled.payload_le hbm) (Nat.le_trans (Nat.le_of_lt hlt) hneed)
  exact copied h₁ _ us c vs L'
    ⟨⟨hserved.result, hserved.heap⟩, hsh, hq, hca, hneed, hothers, hbm, hs₁, hf₁, hs₂, hf₂, rfl, hbytes⟩

theorem relocate_meets (hs : Sound h (xs ++ b :: ys) L) (hb : b.allocated = true) {p : Handle}
    (hp : p.offset = b.offset) (hpos : 1 ≤ payload) (hsize : blockSizeFor payload = .ok need)
    (hlt : b.size < need) :
    Meets (relocate p payload b.size) h
      (fun q h' => h.shortage? (xs ++ b :: ys) need = none ∧ Resized h xs b ys payload q h')
      (fun e h' => Strained h e ∨ ∃ err, h.shortage? (xs ++ b :: ys) need = some err ∧
        e = .relocation p payload err ∧ h' = h) := by
  refine relocate_meets_of hs hb hp hpos hsize hlt (fun _ _ _ he => Or.inl he)
    (fun err _ hsh => Or.inr ⟨err, hsh, rfl, rfl⟩) ?_
  intro h₁ h₂ us c vs L₁ hcopy
  have hle : b.size ≤ c.size := Nat.le_trans (Nat.le_of_lt hlt) hcopy.need_le
  have hbA : b ∈ allocatedBlocks (xs ++ b :: ys) :=
    mem_allocatedBlocks.mpr ⟨List.mem_append_cons_self, hb⟩
  obtain ⟨zs, ws, hsplit⟩ := List.append_of_mem hcopy.still
  have hs₂ := hcopy.sound₂
  rw [hsplit] at hs₂
  refine (free_meets hs₂ hb hp).mono ?_ ?_
  · intro _ h₃ hq
    obtain ⟨hs₃, hf₃, hcnt₃⟩ := hq
    have hfit := Nat.le_trans (blockSizeFor_spec hsize).2.1 hcopy.need_le
    have hadded := allocatedBlocks_exchange_perm hsplit hcopy.allocated hb hcopy.others
    have hframe : Frame h h₂ (xs ++ b :: ys) :=
      hcopy.frame₁.trans hcopy.frame₂ fun d hd => hcopy.others ▸ hd
    have hall := allocatedBlocks_coalesced zs b.freed ws
    have hcopied : ∀ i, i + 8 < b.size →
        h₂.arena.byte? (c.offset + i) = h.arena.byte? (b.offset + i) := fun i hi => by
      have hbs : b.stop = b.offset + b.size := rfl
      rw [hcopy.bytes i hi, hcopy.frame₁.keeps b hbA _ (Nat.le_add_right _ _) (by omega)]
    have hfrees : h.counters.Frees h₂.counters 0 := by
      rw [hcopy.counters, ← hcopy.served.2]
      exact ((made_serve payload).retains h).ok hcopy.served.1
    exact ⟨hcopy.room, .relocated hs hb hcopy.allocated hfit hle hs₂ hadded hframe hfrees hcopied hs₃ hall
      hf₃ hcnt₃⟩
  · rintro e _ ⟨n, rfl, hlt, h8, hle⟩
    exact Or.inl (Or.inl ⟨n, rfl, hlt, h8, by rwa [hcopy.frame₂.ceiling, hcopy.frame₁.ceiling] at hle⟩)

/-! ## Reallocating -/

theorem enlarge_meets_of {Q : Handle → Heap → Prop} {E : Fault → Heap → Prop}
    (hs : Sound h (xs ++ b :: ys) L) {p : Handle} (hp : p.offset = b.offset)
    (stay : need ≤ b.size → Q p h)
    (grow : ∀ g, b.size < need → Growth.plan b.size need (tagBelow xs) (tagAbove ys) = some g →
      Meets (growInPlace b.offset b.size (tagBelow xs) (tagAbove ys) g) h Q E)
    (move : b.size < need → Growth.plan b.size need (tagBelow xs) (tagAbove ys) = none →
      Meets (relocate p payload b.size) h Q E) :
    Meets (enlarge p payload need) h Q E := by
  unfold enlarge
  rw [hp]
  apply Meets.read_bind (hs.laid.tiled.blockSize List.mem_append_cons_self)
  by_cases hle : need ≤ b.size
  · rw [if_pos hle]
    exact Meets.pure (stay hle)
  · rw [if_neg hle]
    have hlt := Nat.not_le.mp hle
    refine Meets.read_bind hs.laid.tiled.tagBefore (Meets.read_bind hs.laid.tiled.header_stop ?_)
    cases hplan : Growth.plan b.size need (tagBelow xs) (tagAbove ys) with
    | none => exact move hlt hplan
    | some g => exact grow g hlt hplan

theorem enlarge_meets (hs : Sound h (xs ++ b :: ys) L) (hb : b.allocated = true) {p : Handle}
    (hp : p.offset = b.offset) (hpos : 1 ≤ payload) (hsize : blockSizeFor payload = .ok need) :
    Meets (enlarge p payload need) h
      (fun q h' => (∀ err, ¬ Stuck h xs b ys need err) ∧ Resized h xs b ys payload q h')
      (fun e h' => Strained h e ∨ ∃ err, Stuck h xs b ys need err ∧
        e = .relocation p payload err ∧ h' = h) := by
  have hpay := (blockSizeFor_spec hsize).2.1
  refine enlarge_meets_of hs hp ?stay ?grow ?move
  case stay =>
    intro hle
    obtain rfl : p = ⟨b.offset⟩ := by rw [← hp]
    exact ⟨fun err hst => absurd hle (Nat.not_le.mpr hst.1), .refl hs hb (Nat.le_trans hpay hle)⟩
  case grow =>
    intro g _ hplan
    have hg := Growth.feasible_of_plan hplan
    refine (growInPlace_sound hs hb hg).mono ?_ ?_
    · intro _ _ hq
      obtain ⟨rfl, hneed, hs', hf, hbytes, hc⟩ := hq
      exact ⟨fun err hst => hst.2.1 g hg, .grown hs hb hs' (Nat.le_trans hpay hneed) hf hc hbytes.moved⟩
    · rintro e h' (he | ⟨he, -⟩)
      · exact Or.inl (Or.inl he)
      · exact Or.inl (Or.inr he)
  case move =>
    intro hlt hplan
    have hno := Growth.plan_eq_none_iff.mp hplan
    refine (relocate_meets hs hb hp hpos hsize hlt).mono ?_ ?_
    · intro q h' hq
      obtain ⟨hsh, hr⟩ := hq
      exact ⟨fun err hst => absurd (hsh.symm.trans hst.2.2) (by simp), hr⟩
    · rintro e h' (he | ⟨err, hsh, he⟩)
      · exact Or.inl he
      · exact Or.inr ⟨err, ⟨hlt, hno, hsh⟩, he⟩

theorem realloc_of_pos {p : Handle} (hpos : 1 ≤ payload) : realloc (some p) payload = resize p payload :=
  if_neg (Nat.ne_of_gt hpos)

theorem resize_meets (hs : Sound h (xs ++ b :: ys) L) (hb : b.allocated = true) {p : Handle}
    (hp : p.offset = b.offset) (hpos : 1 ≤ payload) :
    Meets (resize p payload) h
      (fun r h' => match blockSizeFor payload with
        | .error _ => r = none ∧ h' = h
        | .ok need => (∀ err, ¬ Stuck h xs b ys need err) ∧
            ∃ q, r = some q ∧ Resized h xs b ys payload q h')
      (fun e h' => Strained h e ∨ ∃ need err, blockSizeFor payload = .ok need ∧
        Stuck h xs b ys need err ∧ e = .relocation p payload err ∧ h' = h) := by
  unfold resize
  rw [hp]
  apply Meets.read_bind hs.laid.owns_eq
  rw [if_pos rfl]
  cases hsize : blockSizeFor payload with
  | error e => exact Meets.tell_bind (Meets.pure ⟨rfl, rfl⟩)
  | ok need =>
    refine (enlarge_meets hs hb hp hpos hsize).seq ?_ ?_
    · rintro e h' (he | ⟨err, hst, he⟩)
      · exact Or.inl he
      · exact Or.inr ⟨need, err, rfl, hst, he⟩
    · intro q h' hq
      obtain ⟨hst, hr⟩ := hq
      exact Meets.pure ⟨hst, q, rfl, hr⟩

end Heap

end

end BoundaryTag
