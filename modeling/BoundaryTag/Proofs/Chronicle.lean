import BoundaryTag.Proofs.Lasting

/-!
# What a heap tells of its growth

The heap tells of every piece that is split off a block, and of every extension of the arena.
`HeapM.Chronicles` says of an action that all it tells of are sizes that a block can have, and that the arena
grows by what is told and by nothing else. That goes from step to step whatever the heap is like, so it is shown
of each operation in turn.

Main statements: `Call.chronicles_action`, `Heap.init_chronicle`.
-/

namespace BoundaryTag

/-- A size that a block can have, but for its tags. -/
def Whole (n : Nat) : Prop := 8 ∣ n ∧ minBlockSize ≤ n

namespace Event

def growth : Event → Nat
  | extended bytes _ => bytes
  | _ => 0

def Sized : Event → Prop
  | split _ _ rest => Whole rest
  | extended bytes _ => Whole bytes
  | _ => True

def Idle (e : Event) : Prop := e.growth = 0 ∧ e.Sized

end Event

def growth (es : List Event) : Nat := (es.map Event.growth).sum

theorem growth_append (es es' : List Event) : growth (es ++ es') = growth es + growth es' := by
  rw [growth, growth, growth, List.map_append, List.sum_append]

theorem growth_of_idle {es : List Event} (h : ∀ e ∈ es, e.Idle) : growth es = 0 := by
  induction es with
  | nil => rfl
  | cons e es ih =>
    obtain ⟨he, hes⟩ := List.forall_mem_cons.mp h
    rw [growth, List.map_cons, List.sum_cons, he.1, Nat.zero_add]
    exact ih hes

/-! ## Checks -/

namespace Traced

variable {α β : Type} {t : Traced α}

def Idle (t : Traced α) : Prop := ∀ e ∈ t.events, e.Idle

theorem Idle.bind {k : α → Traced β} (ht : t.Idle) (hk : ∀ a, (k a).Idle) : (t >>= k).Idle := by
  rcases t with ⟨_ | a, es⟩
  · exact ht
  · rw [bind_of_ok]
    exact List.forall_mem_append.mpr ⟨ht, hk a⟩

theorem idle_pure (a : α) : (pure a : Traced α).Idle := fun _ he => nomatch he

theorem idle_lift (x : Except Fault α) : (liftM x : Traced α).Idle := fun _ he => nomatch he

theorem idle_flag (violations : List Violation) : (flag violations).Idle := by
  intro e he
  obtain ⟨v, -, rfl⟩ := List.mem_map.mp he
  exact ⟨rfl, True.intro⟩

theorem Idle.note_bind {verbose : Bool} {e : Event} {k : Unit → Traced α} (he : e.Idle) (hk : (k ()).Idle) :
    (note verbose e >>= k).Idle := by
  refine Idle.bind (fun e' he' => ?_) fun _ => hk
  cases verbose with
  | true => exact List.mem_singleton.mp he' ▸ he
  | false => cases he'

end Traced

namespace Heap

open Traced

theorem idle_checkVisits (verbose : Bool) (findings : List (Visit × List Violation)) :
    (checkVisits verbose findings).Idle := by
  induction findings with
  | nil => exact idle_pure _
  | cons f findings ih => exact .note_bind ⟨rfl, True.intro⟩ ((idle_flag _).bind fun _ => ih)

theorem idle_checkEnd (h : Heap) (verbose : Bool) (stop : WalkEnd) : (h.checkEnd verbose stop).Idle := by
  cases stop with
  | fault e => exact fun _ he => nomatch he
  | overrun block => exact (idle_flag _).bind fun _ => idle_pure _
  | epilogue block tag => exact .note_bind ⟨rfl, True.intro⟩ ((idle_flag _).bind fun _ => idle_pure _)

theorem idle_checkMembers (h : Heap) (span : Span) (last : Option Nat) (members : List Nat) :
    (h.checkMembers span last members).Idle := by
  induction members generalizing last with
  | nil => exact idle_pure _
  | cons block rest ih =>
    have hrest : ∀ back place : List Violation, (do
        flag place
        return back ++ place ++ (← h.checkMembers span (some block) rest)).Idle := fun _ _ =>
      (idle_flag _).bind fun _ => (ih _).bind fun _ => idle_pure _
    refine (idle_lift _).bind fun _ => (idle_flag _).bind fun _ => ?_
    simp only
    by_cases hc : (!span.contains block) = true
    · rw [if_pos hc]
      exact hrest _ _
    · rw [if_neg hc]
      exact (idle_lift _).bind fun _ => hrest _ _

theorem idle_checkFreeList (h : Heap) : h.checkFreeList.Idle :=
  (idle_lift _).bind fun _ => (idle_checkMembers h _ _ _).bind fun _ =>
    (idle_flag _).bind fun _ => idle_pure _

theorem idle_checkPrologue (h : Heap) : h.checkPrologue.Idle :=
  (idle_lift _).bind fun _ => (idle_flag _).bind fun _ => idle_pure _

theorem idle_report (h : Heap) (verbose : Bool) : (h.report verbose).Idle := by
  rw [report]
  split
  · refine .note_bind ⟨rfl, True.intro⟩ (h.idle_checkPrologue.bind fun _ => ?_)
    refine (idle_checkVisits _ _).bind fun _ => (h.idle_checkEnd _ _).bind fun _ => ?_
    refine .note_bind ⟨rfl, True.intro⟩ (h.idle_checkFreeList.bind fun _ => ?_)
    exact .note_bind ⟨rfl, True.intro⟩ (idle_pure _)
  · exact Idle.bind (t := tell [.unchecked]) (List.forall_mem_singleton.mpr ⟨rfl, True.intro⟩)
      fun _ => idle_pure _

end Heap

/-! ## Steps -/

namespace HeapM

variable {α β : Type} {m : HeapM α} {Q : α → Prop}

/-- Whatever it is run on, the action tells of sizes that a block can have, and the arena grows by what it
tells. Its results satisfy `Q`. -/
structure Chronicles (m : HeapM α) (Q : α → Prop) : Prop where
  sized : ∀ h, ∀ e ∈ (m.run h).events, e.Sized
  result : ∀ {h a}, (m.run h).result = .ok a → Q a
  complete : ∀ {h a}, (m.run h).result = .ok a →
    (m.run h).heap.arena.size = h.arena.size + growth (m.run h).events

namespace Chronicles

theorem of_runs (hm : ∀ h, (∃ e es h', m.run h = ⟨⟨.error e, es⟩, h'⟩ ∧ ∀ e ∈ es, e.Sized) ∨
    ∃ (m' : HeapM α) (es : List Event) (h' : Heap), Chronicles m' Q ∧ (∀ e ∈ es, e.Sized) ∧
      h'.arena.size = h.arena.size + growth es ∧
      m.run h = ⟨⟨(m'.run h').result, es ++ (m'.run h').events⟩, (m'.run h').heap⟩) : Chronicles m Q := by
  refine ⟨fun h => ?_, fun {h a} ha => ?_, fun {h a} ha => ?_⟩ <;>
    obtain ⟨e, es, h', hr, hs⟩ | ⟨m', es, h', hm', hs, hsize, hr⟩ := hm h
  · rw [hr]
    exact hs
  · rw [hr]
    exact List.forall_mem_append.mpr ⟨hs, hm'.sized h'⟩
  · rw [hr] at ha
    cases ha
  · rw [hr] at ha
    exact hm'.result ha
  · rw [hr] at ha
    cases ha
  · rw [hr] at ha ⊢
    rw [growth_append, ← Nat.add_assoc, ← hsize]
    exact hm'.complete ha

theorem bind {k : α → HeapM β} {R : β → Prop} (hm : Chronicles m Q) (hk : ∀ a, Q a → Chronicles (k a) R) :
    Chronicles (m >>= k) R := by
  refine of_runs fun h => ?_
  have hs := hm.sized h
  have hq : ∀ a, _ → Q a := fun a => hm.result (h := h) (a := a)
  have hc : ∀ a, _ → _ := fun a => hm.complete (h := h) (a := a)
  rcases hr : m.run h with ⟨⟨_ | a, es⟩, h'⟩
  · rw [hr] at hs
    exact Or.inl ⟨_, es, h', run_bind_of_error hr, hs⟩
  · rw [hr] at hs hq hc
    exact Or.inr ⟨k a, es, h', hk a (hq a rfl), hs, hc a rfl, run_bind_of_ok hr⟩

theorem observe {f : Heap → Traced α} (hi : ∀ h, (f h).Idle) (hq : ∀ h a, (f h).result = .ok a → Q a) :
    Chronicles (HeapM.observe f) Q where
  sized h e he := (hi h e he).2
  result := hq _ _
  complete {h _} _ := by rw [run_observe, growth_of_idle (hi h), Nat.add_zero]

theorem read {f : Heap → Except Fault α} (hq : ∀ h a, f h = .ok a → Q a) : Chronicles (HeapM.read f) Q :=
  .observe (f := fun h => ⟨f h, []⟩) (fun _ _ he => nomatch he) hq

theorem pure {a : α} (hq : Q a) : Chronicles (pure a) Q := .read fun _ _ ha => Except.ok.inj ha ▸ hq

theorem fail (e : Fault) : Chronicles (fail e : HeapM α) Q := .read fun _ _ ha => nomatch ha

theorem tell {e : Event} (he : e.Idle) : Chronicles (tell e) fun _ => True :=
  .observe (f := fun _ => ⟨.ok (), [e]⟩) (fun _ => List.forall_mem_singleton.mpr he) fun _ _ _ => True.intro

theorem update {u : Heap → Heap} (hu : ∀ h, (u h).arena.size = h.arena.size) :
    Chronicles (HeapM.update u) fun _ => True where
  sized _ _ he := nomatch he
  result _ := True.intro
  complete {h _} _ := hu h

section
variable {k : β → HeapM α} {f : Heap → Except Fault β} {u : Heap → Heap}

theorem read_bind (hk : ∀ h b, f h = .ok b → Chronicles (k b) Q) : Chronicles (HeapM.read f >>= k) Q := by
  have hr : Chronicles (HeapM.read f) fun b => ∃ h, f h = .ok b := .read fun h _ hb => ⟨h, hb⟩
  exact hr.bind fun b ⟨h, hb⟩ => hk h b hb

theorem lift_bind {x : Except Fault β} (hk : ∀ b, x = .ok b → Chronicles (k b) Q) :
    Chronicles ((liftM x : HeapM β) >>= k) Q := read_bind (f := fun _ => x) fun _ => hk

theorem view_bind {f : Heap → β} (hk : ∀ h, Chronicles (k (f h)) Q) : Chronicles (HeapM.view f >>= k) Q :=
  read_bind (f := fun h => .ok (f h)) fun h _ hb => Except.ok.inj hb ▸ hk h

theorem tell_bind {e : Event} {k : Unit → HeapM α} (he : e.Idle) (hk : Chronicles (k ()) Q) :
    Chronicles (HeapM.tell e >>= k) Q := (Chronicles.tell he).bind fun _ _ => hk

theorem require_bind {c : Bool} {e : Fault} {k : Unit → HeapM α} (hk : Chronicles (k ()) Q) :
    Chronicles (HeapM.require c e >>= k) Q := by
  cases c with
  | true => exact hk
  | false => exact .fail e

theorem update_bind {k : Unit → HeapM α} (hu : ∀ h, (u h).arena.size = h.arena.size)
    (hk : Chronicles (k ()) Q) : Chronicles (HeapM.update u >>= k) Q :=
  (Chronicles.update hu).bind fun _ _ => hk

theorem guarded (hu : ∀ h b, f h = .ok b → (u h).arena.size = h.arena.size) :
    Chronicles (do let _ ← HeapM.read f; HeapM.update u) fun _ => True := by
  refine of_runs fun h => ?_
  cases hf : f h with
  | error e =>
    exact Or.inl ⟨e, [], h, run_bind_of_error (by rw [run_read, hf]), List.forall_mem_nil _⟩
  | ok b =>
    have hr : (HeapM.read f).run h = ⟨⟨.ok b, []⟩, h⟩ := by rw [run_read, hf]
    exact Or.inr ⟨Pure.pure (), [], u h, .pure True.intro, List.forall_mem_nil _, hu h b hf, run_bind_of_ok hr⟩

end

end Chronicles

end HeapM

/-! ## Updates -/

namespace Heap

open HeapM Chronicles

theorem chronicles_putTag (i : Nat) (t : Tag) : Chronicles (putTag i t) fun _ => True :=
  guarded fun h _ _ => Arena.size_setTag h.arena i t

theorem chronicles_splice (i : Nat) (src : ByteArray) : Chronicles (splice i src) fun _ => True :=
  guarded fun _ _ hs => Arena.size_splice (inArena_eq_ok_iff.mp hs)

theorem chronicles_move (src n dst : Nat) : Chronicles (move src n dst) fun _ => True := by
  refine read_bind fun _ _ _ => guarded fun h _ hd => ?_
  have hin := inArena_eq_ok_iff.mp hd
  have hsize : (h.arena.bytes.extract src (src + n)).size ≤ n := by
    rw [ByteArray.size_extract]
    omega
  exact Arena.size_splice (by omega)

theorem chronicles_enlist (block : Nat) : Chronicles (enlist block) fun _ => True := guarded fun _ _ _ => rfl

theorem chronicles_unlist (block : Nat) : Chronicles (unlist block) fun _ => True :=
  read_bind fun _ _ _ => view_bind fun _ => update_bind (fun _ => rfl) (.pure True.intro)

theorem chronicles_account (m : EStateM Fault Counters Unit) : Chronicles (account m) fun _ => True := by
  refine of_runs fun h => ?_
  cases e : m.run h.counters with
  | ok a c =>
    exact Or.inr ⟨Pure.pure (), [], { h with counters := c }, .pure True.intro, List.forall_mem_nil _, rfl,
      account_run_of_ok e⟩
  | error e' c => exact Or.inl ⟨e', [], _, account_run_of_error e, List.forall_mem_nil _⟩

theorem chronicles_setBlock (block size : Nat) (allocated : Bool) :
    Chronicles (setBlock block size allocated) fun _ => True :=
  lift_bind fun _ _ => lift_bind fun _ _ => (chronicles_putTag _ _).bind fun _ _ =>
    lift_bind fun _ _ => chronicles_putTag _ _

theorem chronicles_check (verbose : Bool) : Chronicles (check verbose) fun _ => True :=
  .observe (fun h => h.idle_report verbose) fun _ _ _ => True.intro

theorem chronicles_selfCheck (caller : Caller) : Chronicles (selfCheck caller) fun _ => True := by
  refine view_bind fun _ => view_bind fun _ => ?_
  split
  · exact tell_bind ⟨rfl, True.intro⟩ ((chronicles_check _).bind fun _ _ => .pure True.intro)
  · exact .pure True.intro

/-! ## Growing -/

theorem chronicles_coalesce (block : Nat) : Chronicles (coalesce block) fun _ => True := by
  refine read_bind fun _ before _ => read_bind fun _ next _ => read_bind fun _ after _ =>
    read_bind fun _ size _ => ?_
  cases before.allocated <;> cases after.allocated
  · exact read_bind fun _ _ _ => (chronicles_unlist _).bind fun _ _ => (chronicles_unlist _).bind fun _ _ =>
      read_bind fun _ _ _ => (chronicles_setBlock _ _ _).bind fun _ _ => .pure True.intro
  · exact read_bind fun _ _ _ => (chronicles_unlist _).bind fun _ _ => read_bind fun _ _ _ =>
      (chronicles_setBlock _ _ _).bind fun _ _ => .pure True.intro
  · exact (chronicles_unlist _).bind fun _ _ => (chronicles_setBlock _ _ _).bind fun _ _ => .pure True.intro
  · exact .pure True.intro

-- The arena has grown by what is claimed before that is told, so there is no `chronicles_claim`: a claim is taken
-- together with the step that tells of it.
theorem claim_cases (n : Nat) (h : Heap) :
    (∃ e h', (claim n).run h = ⟨⟨.error e, []⟩, h'⟩) ∨ (∃ e, (claim n).run h = ⟨⟨.ok (.error e), []⟩, h⟩) ∨
      ∃ start h', (claim n).run h = ⟨⟨.ok (.ok start), []⟩, h'⟩ ∧ h'.arena.size = h.arena.size + n := by
  cases hn : h.arena.refusal? n with
  | some e =>
    have hr : (growArena n).run h = ⟨⟨.ok (.error e), []⟩, h⟩ := by
      rw [growArena, run_bind_of_ok (run_view _ h), hn]
      rfl
    exact Or.inr (Or.inl ⟨e, by rw [claim, run_bind_of_ok hr]; rfl⟩)
  | none =>
    let g : Heap := { h with arena := h.arena.grow n }
    let g' : Heap := { g with freeList := g.freeList.reserve g.arena.top }
    have hr : (growArena n).run h = ⟨⟨.ok (.ok h.arena.size), []⟩, g⟩ := by
      rw [growArena, run_bind_of_ok (run_view _ h), hn]
      rfl
    have hreserve : (HeapM.update fun h => { h with freeList := h.freeList.reserve h.arena.top }).run g =
        ⟨⟨.ok (), []⟩, g'⟩ := rfl
    cases hc : (Counters.recordExtension n).run h.counters with
    | error e c =>
      have ha := account_run_of_error (h := g') hc
      refine Or.inl ⟨e, { g' with counters := c }, ?_⟩
      rw [claim, run_bind_of_ok hr]
      simp only [run_bind_of_ok hreserve, run_bind_of_error ha, List.nil_append]
    | ok _ c =>
      have ha := account_run_of_ok (h := g') hc
      refine Or.inr (Or.inr ⟨h.arena.size, { g' with counters := c }, ?_,
        Arena.size_grow (Arena.refusal?_eq_none_iff.mp hn)⟩)
      rw [claim, run_bind_of_ok hr]
      simp only [run_bind_of_ok hreserve, run_bind_of_ok ha, run_pure, List.nil_append]

theorem chronicles_claim_bind {α : Type} {n : Nat} {k : Except AllocError Nat → HeapM α} {k' : Nat → HeapM α}
    {Q : α → Prop} (hn : Whole n) (herror : ∀ e, Chronicles (k (.error e)) Q)
    (htold : ∀ start, k (.ok start) = do tell (.extended n (← HeapM.view (·.arena.top))); k' start)
    (hok : ∀ start, Chronicles (k' start) Q) : Chronicles (claim n >>= k) Q := by
  refine of_runs fun h => ?_
  obtain ⟨e, h', hr⟩ | ⟨e, hr⟩ | ⟨start, h', hr, hsize⟩ := claim_cases n h
  · exact Or.inl ⟨e, [], h', run_bind_of_error hr, List.forall_mem_nil _⟩
  · exact Or.inr ⟨k (.error e), [], h, herror e, List.forall_mem_nil _, rfl, run_bind_of_ok hr⟩
  · refine Or.inr ⟨k' start, [.extended n h'.arena.top], h', hok start,
      List.forall_mem_singleton.mpr hn, hsize, ?_⟩
    rw [run_bind_of_ok hr, htold]
    rfl

theorem chronicles_extend {bytes : Nat} (hb : minBlockSize ≤ bytes) :
    Chronicles (extend bytes) fun _ => True := by
  have hwhole : Whole (alignUp bytes) := ⟨alignUp_dvd _, Nat.le_trans hb (le_alignUp _)⟩
  refine view_bind fun h => ?_
  split
  · exact .pure True.intro
  split
  · exact .pure True.intro
  refine chronicles_claim_bind hwhole (fun e => .pure True.intro) (fun start => rfl) fun start => ?_
  exact (chronicles_setBlock _ _ _).bind fun _ _ => (chronicles_putTag _ _).bind fun _ _ =>
    (chronicles_enlist _).bind fun _ _ => (chronicles_coalesce _).bind fun _ _ => .pure True.intro

/-! ## Allocating and freeing -/

theorem dvd_of_blockSize {h : Heap} {block size : Nat} (hs : h.blockSize block = .ok size) : 8 ∣ size := by
  rw [blockSize] at hs
  cases ht : h.header block with
  | error e =>
    rw [ht] at hs
    cases hs
  | ok tag =>
    rw [ht] at hs
    exact Except.ok.inj hs ▸ tag.dvd_size

theorem chronicles_place {block size : Nat} (h8 : 8 ∣ size) : Chronicles (place block size) fun _ => True := by
  have hcharge : Chronicles (do
      let payload ← Address.sub (← HeapM.read (·.blockSize block)) overhead
      account (Counters.recordAlloc payload)) fun _ => True :=
    read_bind fun _ _ _ => lift_bind fun _ _ => chronicles_account _
  refine read_bind fun h whole hw => require_bind ((chronicles_unlist _).bind fun _ _ => require_bind
    (view_bind fun g => ?_))
  have hrest : 8 ∣ whole - size := Nat.dvd_sub (dvd_of_blockSize hw) h8
  split
  · next hle =>
    have hsplit : Whole (whole - size) := ⟨hrest, Nat.le_trans g.policy.minBlock_le_split hle⟩
    exact (chronicles_setBlock _ _ _).bind fun _ _ => (chronicles_setBlock _ _ _).bind fun _ _ =>
      (chronicles_enlist _).bind fun _ _ => (chronicles_coalesce _).bind fun _ _ =>
        tell_bind ⟨rfl, hsplit⟩ hcharge
  · exact (chronicles_setBlock _ _ _).bind fun _ _ => tell_bind ⟨rfl, True.intro⟩ hcharge

theorem chronicles_obtain (size : Nat) : Chronicles (obtain size) fun _ => True := by
  refine read_bind fun _ r _ => ?_
  cases r with
  | some block => exact .pure True.intro
  | none =>
    exact view_bind fun h => chronicles_extend (Nat.le_trans h.policy.minBlock_le_chunk (Nat.le_max_right _ _))

theorem chronicles_serve (payload : Nat) : Chronicles (serve payload) fun _ => True := by
  refine view_bind fun _ => ?_
  split
  · cases hsize : blockSizeFor payload with
    | error e => exact .pure True.intro
    | ok size =>
      refine (chronicles_obtain size).bind fun r _ => ?_
      cases r with
      | error e => exact .pure True.intro
      | ok block =>
        have h8 : 8 ∣ size := (blockSizeFor_eq_ok_iff.mp hsize).1 ▸ alignUp_dvd _
        exact (chronicles_place h8).bind fun _ _ => .pure True.intro
  · exact .pure True.intro

theorem chronicles_tryMalloc (payload : Nat) : Chronicles (tryMalloc payload) fun _ => True := by
  refine (chronicles_selfCheck _).bind fun _ _ => ?_
  split
  · exact .pure True.intro
  · exact (chronicles_serve _).bind fun _ _ => .pure True.intro

theorem chronicles_malloc (payload : Nat) : Chronicles (malloc payload) fun _ => True := by
  refine (chronicles_tryMalloc _).bind fun r _ => ?_
  cases r with
  | ok p => exact .pure True.intro
  | error e => exact tell_bind ⟨rfl, True.intro⟩ (.pure True.intro)

theorem chronicles_free (p : Handle) : Chronicles (free p) fun _ => True := by
  refine (chronicles_selfCheck _).bind fun _ _ => read_bind fun _ owned _ => ?_
  split
  · refine read_bind fun _ tag _ => ?_
    split
    · exact lift_bind fun _ _ => (chronicles_account _).bind fun _ _ =>
        (chronicles_setBlock _ _ _).bind fun _ _ => (chronicles_enlist _).bind fun _ _ =>
          (chronicles_coalesce _).bind fun _ _ => .pure True.intro
    · exact .tell ⟨rfl, True.intro⟩
  · exact .tell ⟨rfl, True.intro⟩

/-! ## Resizing and writing -/

theorem chronicles_growDown (block size gained above : Nat) :
    Chronicles (growDown block size gained above) fun _ => True :=
  lift_bind fun _ _ => (chronicles_unlist _).bind fun _ _ => lift_bind fun _ _ =>
    (chronicles_move _ _ _).bind fun _ _ => (chronicles_setBlock _ _ _).bind fun _ _ =>
      tell_bind ⟨rfl, True.intro⟩ (.pure True.intro)

theorem chronicles_grow (block size : Nat) (before after : Tag) (g : Growth) :
    Chronicles (grow block size before after g) fun _ => True := by
  cases g with
  | down => exact chronicles_growDown _ _ _ _
  | up =>
    exact (chronicles_unlist _).bind fun _ _ => (chronicles_setBlock _ _ _).bind fun _ _ => .pure True.intro
  | both => exact (chronicles_unlist _).bind fun _ _ => chronicles_growDown _ _ _ _

theorem chronicles_relocate (p : Handle) (payload size : Nat) :
    Chronicles (relocate p payload size) fun _ => True := by
  refine (chronicles_selfCheck _).bind fun _ _ => (chronicles_serve _).bind fun r _ => ?_
  cases r with
  | error e => exact tell_bind ⟨rfl, True.intro⟩ (.fail _)
  | ok q =>
    exact lift_bind fun _ _ => (chronicles_move _ _ _).bind fun _ _ => (chronicles_free _).bind fun _ _ =>
      tell_bind ⟨rfl, True.intro⟩ (.pure True.intro)

theorem chronicles_enlarge (p : Handle) (payload need : Nat) :
    Chronicles (enlarge p payload need) fun _ => True := by
  refine read_bind fun _ size _ => ?_
  split
  · exact .pure True.intro
  refine read_bind fun _ before _ => read_bind fun _ after _ => ?_
  split
  · exact chronicles_relocate _ _ _
  · exact (chronicles_grow _ _ _ _ _).bind fun _ _ => lift_bind fun _ _ => read_bind fun _ _ _ =>
      lift_bind fun _ _ => (chronicles_account _).bind fun _ _ => .pure True.intro

theorem chronicles_resize (p : Handle) (payload : Nat) : Chronicles (resize p payload) fun _ => True := by
  refine read_bind fun _ owned _ => ?_
  split
  · split
    · exact tell_bind ⟨rfl, True.intro⟩ (.pure True.intro)
    · exact (chronicles_enlarge _ _ _).bind fun _ _ => .pure True.intro
  · exact tell_bind ⟨rfl, True.intro⟩ (.pure True.intro)

theorem chronicles_realloc (p : Option Handle) (payload : Nat) :
    Chronicles (realloc p payload) fun _ => True := by
  by_cases hn : payload = 0
  · cases p with
    | none =>
      rw [realloc, if_pos hn]
      exact .pure True.intro
    | some p =>
      rw [realloc, if_pos hn]
      exact (chronicles_free _).bind fun _ _ => .pure True.intro
  · cases p with
    | none =>
      rw [realloc, if_neg hn]
      exact chronicles_malloc _
    | some p =>
      rw [realloc, if_neg hn]
      exact chronicles_resize _ _

theorem chronicles_writePayload (p : Handle) (i : Nat) (src : ByteArray) :
    Chronicles (writePayload p i src) fun _ => True := read_bind fun _ _ _ => chronicles_splice _ _

end Heap

/-! ## Calls -/

open HeapM Chronicles

theorem Call.chronicles_action {c : Call} (hc : c ≠ .init) : Chronicles c.action fun _ => True := by
  cases c with
  | init => exact absurd rfl hc
  | setCheck level => exact update_bind (fun _ => rfl) (.pure True.intro)
  | malloc n => exact (Heap.chronicles_malloc n).bind fun _ _ => .pure True.intro
  | tryMalloc n => exact (Heap.chronicles_tryMalloc n).bind fun _ _ => .pure True.intro
  | free p => exact (Heap.chronicles_free p).bind fun _ _ => .pure True.intro
  | realloc p n => exact (Heap.chronicles_realloc p n).bind fun _ _ => .pure True.intro
  | write p i src => exact (Heap.chronicles_writePayload p i src).bind fun _ _ => .pure True.intro
  | read p i n => exact read_bind fun _ _ _ => .pure True.intro
  | check v => exact (Heap.chronicles_check v).bind fun _ _ => .pure True.intro

namespace Heap

/-- What is left to do once there is memory for the sentinels. -/
def layFirst : HeapM (Except AllocError Unit) := do
  putSentinels
  HeapM.update fun h => { h with initialized := true }
  match ← extend (← HeapM.view (·.policy.chunkSize)) with
  | .error e =>
    HeapM.update fun h => { h with initialized := false }
    return .error e
  | .ok _ =>
    tell (.initialized (← HeapM.view (·.arena.top)))
    return .ok ()

theorem chronicles_layFirst : Chronicles layFirst fun _ => True := by
  have hsentinels : Chronicles putSentinels fun _ => True :=
    (chronicles_putTag _ _).bind fun _ _ => (chronicles_putTag _ _).bind fun _ _ =>
      (chronicles_putTag _ _).bind fun _ _ => chronicles_putTag _ _
  refine hsentinels.bind fun _ _ => update_bind (fun _ => rfl) (view_bind fun h => ?_)
  refine (chronicles_extend h.policy.minBlock_le_chunk).bind fun r _ => ?_
  cases r with
  | error e => exact update_bind (fun _ => rfl) (.pure True.intro)
  | ok block => exact view_bind fun _ => tell_bind ⟨rfl, True.intro⟩ (.pure True.intro)

theorem init_chronicle (h : Heap) :
    (∀ e ∈ (init.run h).events, e.Sized) ∧ ((init.run h).result = .ok (.ok ()) →
      (init.run h).heap.arena.size = 16 + growth (init.run h).events) := by
  let g : Heap :=
    { h with arena := h.arena.reset, initialized := false, freeList := FreeList.empty, counters := {} }
  have hrun : init.run h = (do
      match ← claim sentinelBytes with
      | .error e => return .error e
      | .ok _ => layFirst : HeapM (Except AllocError Unit)).run g := rfl
  rw [hrun]
  obtain ⟨e, h', hr⟩ | ⟨e, hr⟩ | ⟨start, h', hr, hsize⟩ := claim_cases sentinelBytes g
  · rw [run_bind_of_error hr]
    exact ⟨List.forall_mem_nil _, fun he => nomatch he⟩
  · rw [run_bind_of_ok hr]
    exact ⟨List.forall_mem_nil _, fun he => nomatch he⟩
  · rw [run_bind_of_ok hr]
    refine ⟨chronicles_layFirst.sized h', fun he => ?_⟩
    have hend := chronicles_layFirst.complete he
    rw [hsize, Arena.size_reset, Nat.zero_add] at hend
    exact hend

end Heap

end BoundaryTag
