import BoundaryTag.Session

/-!
# What actions are made of

Every operation but initializing is made of a dozen basic actions, each of which looks at the heap, or
changes one part of it behind the check that the change needs. `HeapM.Made` says so. What is shown of the
basic actions, and of two actions in a row, then holds of all operations, by induction on `Made`.

What an action looks at depends neither on the counters nor on how much the policy checks (`Aloof`), except
that the heap may check itself first. Actions that free no block, `Made false`, never record that one was
freed.

Main statement: `Call.made_action`.
-/

namespace BoundaryTag

/-- The heap with other counters and another level of checks. -/
def Heap.aside (h : Heap) (c : Counters) (level : CheckLevel) : Heap :=
  { h with counters := c, policy := h.policy.withCheck level }

/-- What is read off the heap is the same with other counters and another level of checks. -/
def Aloof {α : Type} (f : Heap → α) : Prop := ∀ h c level, f (h.aside c level) = f h

namespace HeapM

inductive Made (frees : Bool) : {α : Type} → HeapM α → Prop where
  | observe {α : Type} {f : Heap → Traced α} : Aloof f → Made frees (HeapM.observe f)
  | bind {α β : Type} {m : HeapM α} {k : α → HeapM β} :
      Made frees m → (∀ a, Made frees (k a)) → Made frees (m >>= k)
  | selfCheck (caller : Caller) : Made frees (Heap.selfCheck caller)
  | putTag (i : Nat) (t : Tag) : Made frees (Heap.putTag i t)
  | splice (i : Nat) (src : ByteArray) : Made frees (Heap.splice i src)
  | move (src n dst : Nat) : Made frees (Heap.move src n dst)
  | growArena (n : Nat) : Made frees (Heap.growArena n)
  | reserve : Made frees (update fun h => { h with freeList := h.freeList.reserve h.arena.top })
  | enlist (block : Nat) : Made frees (Heap.enlist block)
  | unlist (block : Nat) : Made frees (Heap.unlist block)
  | extension (n : Nat) : Made frees (Heap.account (Counters.recordExtension n))
  | alloc (n : Nat) : Made frees (Heap.account (Counters.recordAlloc n))
  | growth (old new : Nat) : Made frees (Heap.account (Counters.recordGrowth old new))
  | release (n : Nat) : frees = true → Made frees (Heap.account (Counters.recordFree n))

section
variable {frees : Bool} {α : Type}

theorem Made.view {f : Heap → α} (hf : Aloof f) : Made frees (HeapM.view f) :=
  .observe (f := fun h => ⟨.ok (f h), []⟩) fun h c level => by simp only [hf h c level]

theorem Made.read {f : Heap → Except Fault α} (hf : Aloof f) : Made frees (HeapM.read f) :=
  .observe (f := fun h => ⟨f h, []⟩) fun h c level => by simp only [hf h c level]

theorem Made.lift (x : Except Fault α) : Made frees (liftM x : HeapM α) :=
  .observe (f := fun _ => ⟨x, []⟩) fun _ _ _ => rfl

theorem Made.pure (a : α) : Made frees (pure a : HeapM α) := .lift (.ok a)

theorem Made.fail (e : Fault) : Made frees (fail e : HeapM α) := .lift (.error e)

theorem Made.tell (e : Event) : Made frees (tell e) :=
  .observe (f := fun _ => ⟨.ok (), [e]⟩) fun _ _ _ => rfl

theorem Made.require (c : Bool) (e : Fault) : Made frees (require c e) := by
  cases c with
  | true => exact .pure ()
  | false => exact .fail e

end

end HeapM

namespace Heap

open HeapM

/-! ## What is read -/

theorem walkFrom_aside (h : Heap) (c : Counters) (level : CheckLevel) (block : Nat) :
    (h.aside c level).walkFrom block = h.walkFrom block := by
  have hhead : ∀ block, (h.aside c level).header block = h.header block := fun _ => rfl
  have hfoot : ∀ block, (h.aside c level).footer block = h.footer block := fun _ => rfl
  have harena : (h.aside c level).arena = h.arena := rfl
  fun_induction h.walkFrom block with
  | case1 block hlt => rw [walkFrom, harena, if_pos hlt]
  | case2 block hle e he => rw [walkFrom, harena, if_neg hle, hhead, he]
  | case3 block hle tag he hz =>
    rw [walkFrom, harena, if_neg hle, hhead, he]
    exact dif_pos hz
  | case4 block hle tag he hz hlt =>
    rw [walkFrom, harena, if_neg hle, hhead, he]
    simp only [dif_neg hz, dif_pos hlt]
  | case5 block hle tag he hz hlt e hf =>
    rw [walkFrom, harena, if_neg hle, hhead, he]
    simp only [dif_neg hz, dif_neg hlt, hfoot, hf]
  | case6 block hle tag he hz hlt foot hf rest ih =>
    rw [walkFrom, harena, if_neg hle, hhead, he]
    simp only [dif_neg hz, dif_neg hlt, hfoot, hf, ih, rest]

theorem checkMembers_aside (h : Heap) (c : Counters) (level : CheckLevel) (span : Span) (last : Option Nat)
    (members : List Nat) :
    (h.aside c level).checkMembers span last members = h.checkMembers span last members := by
  induction members generalizing last with
  | nil => rfl
  | cons block rest ih =>
    simp only [checkMembers, ih]
    rfl

theorem aloof_report (v : Bool) : Aloof (·.report v) := by
  intro h c level
  have hlist : (h.aside c level).checkFreeList = h.checkFreeList := by
    simp only [checkFreeList, checkMembers_aside]
    rfl
  simp only [report, walkFrom_aside, hlist]
  rfl

theorem aloof_findFit (size : Nat) : Aloof (·.findFit size) := by
  have hbetter : ∀ (candidates : List Nat) (h : Heap) (c : Counters) (level : CheckLevel)
      (best : Option (Nat × Nat)), (h.aside c level).betterFit size best candidates =
        h.betterFit size best candidates := by
    intro candidates
    induction candidates with
    | nil => exact fun _ _ _ _ => rfl
    | cons block rest ih =>
      intro h c level best
      simp only [betterFit, ih]
      rfl
  exact fun h c level => hbetter _ h c level none

/-! ## Growing -/

section
variable {frees : Bool}

theorem made_setBlock (block size : Nat) (allocated : Bool) :
    Made frees (setBlock block size allocated) :=
  (Made.lift _).bind fun _ => (Made.lift _).bind fun _ => (Made.putTag _ _).bind fun _ =>
    (Made.lift _).bind fun _ => .putTag _ _

theorem made_claim (n : Nat) : Made frees (claim n) := by
  refine (Made.growArena n).bind fun r => ?_
  cases r with
  | error e => exact .pure _
  | ok start => exact Made.reserve.bind fun _ => (Made.extension n).bind fun _ => .pure _

theorem made_coalesce (block : Nat) : Made frees (coalesce block) := by
  refine (Made.read fun _ _ _ => rfl).bind fun before => (Made.read fun _ _ _ => rfl).bind fun next =>
    (Made.read fun _ _ _ => rfl).bind fun after => (Made.read fun _ _ _ => rfl).bind fun size => ?_
  cases before.allocated <;> cases after.allocated
  · exact (Made.read fun _ _ _ => rfl).bind fun _ => (Made.unlist _).bind fun _ =>
      (Made.unlist _).bind fun _ => (Made.read fun _ _ _ => rfl).bind fun _ =>
        (made_setBlock _ _ _).bind fun _ => .pure _
  · exact (Made.read fun _ _ _ => rfl).bind fun _ => (Made.unlist _).bind fun _ =>
      (Made.read fun _ _ _ => rfl).bind fun _ => (made_setBlock _ _ _).bind fun _ => .pure _
  · exact (Made.unlist _).bind fun _ => (made_setBlock _ _ _).bind fun _ => .pure _
  · exact .pure _

theorem made_extend (bytes : Nat) : Made frees (extend bytes) := by
  refine (Made.view fun _ _ _ => rfl).bind fun top => ?_
  split
  · exact .pure _
  split
  · exact .pure _
  refine (made_claim _).bind fun r => ?_
  cases r with
  | error e => exact .pure _
  | ok block =>
    exact (Made.view fun _ _ _ => rfl).bind fun _ => (Made.tell _).bind fun _ =>
      (made_setBlock _ _ _).bind fun _ => (Made.putTag _ _).bind fun _ =>
        (Made.enlist _).bind fun _ => (made_coalesce _).bind fun _ => .pure _

/-! ## Allocating and freeing -/

theorem made_place (block size : Nat) : Made frees (place block size) := by
  have hcharge : Made frees (do
      let payload ← Address.sub (← HeapM.read (·.blockSize block)) overhead
      account (Counters.recordAlloc payload)) :=
    (Made.read fun _ _ _ => rfl).bind fun _ => (Made.lift _).bind fun _ => .alloc _
  refine (Made.read fun _ _ _ => rfl).bind fun whole => (Made.require _ _).bind fun _ =>
    (Made.unlist _).bind fun _ => (Made.require _ _).bind fun _ =>
      (Made.view fun _ _ _ => rfl).bind fun least => ?_
  split
  · exact (made_setBlock _ _ _).bind fun _ => (made_setBlock _ _ _).bind fun _ =>
      (Made.enlist _).bind fun _ => (made_coalesce _).bind fun _ => (Made.tell _).bind fun _ => hcharge
  · exact (made_setBlock _ _ _).bind fun _ => (Made.tell _).bind fun _ => hcharge

theorem made_obtain (size : Nat) : Made frees (obtain size) := by
  refine (Made.read (aloof_findFit size)).bind fun r => ?_
  cases r with
  | some block => exact .pure _
  | none => exact (Made.view fun _ _ _ => rfl).bind fun _ => made_extend _

theorem made_serve (payload : Nat) : Made frees (serve payload) := by
  refine (Made.view fun _ _ _ => rfl).bind fun ready => ?_
  split
  · split
    · exact .pure _
    · refine (made_obtain _).bind fun r => ?_
      cases r with
      | error e => exact .pure _
      | ok block => exact (made_place _ _).bind fun _ => .pure _
  · exact .pure _

theorem made_tryMalloc (payload : Nat) : Made frees (tryMalloc payload) := by
  refine (Made.selfCheck _).bind fun _ => ?_
  split
  · exact .pure _
  · exact (made_serve _).bind fun _ => .pure _

theorem made_malloc (payload : Nat) : Made frees (malloc payload) := by
  refine (made_tryMalloc _).bind fun r => ?_
  cases r with
  | ok p => exact .pure _
  | error e => exact (Made.tell _).bind fun _ => .pure _

theorem made_free (p : Handle) : Made true (free p) := by
  refine (Made.selfCheck _).bind fun _ => (Made.read fun _ _ _ => rfl).bind fun owned => ?_
  split
  · refine (Made.read fun _ _ _ => rfl).bind fun tag => ?_
    split
    · exact (Made.lift _).bind fun _ => (Made.release _ rfl).bind fun _ =>
        (made_setBlock _ _ _).bind fun _ => (Made.enlist _).bind fun _ =>
          (made_coalesce _).bind fun _ => .pure _
    · exact .tell _
  · exact .tell _

/-! ## Resizing and writing -/

theorem made_growDown (block size gained above : Nat) :
    Made frees (growDown block size gained above) :=
  (Made.lift _).bind fun _ => (Made.unlist _).bind fun _ => (Made.lift _).bind fun _ =>
    (Made.move _ _ _).bind fun _ => (made_setBlock _ _ _).bind fun _ =>
      (Made.tell _).bind fun _ => .pure _

theorem made_grow (block size : Nat) (before after : Tag) (g : Growth) :
    Made frees (grow block size before after g) := by
  cases g with
  | down => exact made_growDown _ _ _ _
  | up => exact (Made.unlist _).bind fun _ => (made_setBlock _ _ _).bind fun _ => .pure _
  | both => exact (Made.unlist _).bind fun _ => made_growDown _ _ _ _

theorem made_relocate (p : Handle) (payload size : Nat) : Made true (relocate p payload size) := by
  refine (Made.selfCheck _).bind fun _ => (made_serve _).bind fun r => ?_
  cases r with
  | error e => exact (Made.tell _).bind fun _ => .fail _
  | ok q =>
    exact (Made.lift _).bind fun _ => (Made.move _ _ _).bind fun _ => (made_free _).bind fun _ =>
      (Made.tell _).bind fun _ => .pure _

theorem made_enlarge (p : Handle) (payload need : Nat) : Made true (enlarge p payload need) := by
  refine (Made.read fun _ _ _ => rfl).bind fun size => ?_
  split
  · exact .pure _
  refine (Made.read fun _ _ _ => rfl).bind fun _ => (Made.read fun _ _ _ => rfl).bind fun _ => ?_
  split
  · exact made_relocate _ _ _
  · exact (made_grow _ _ _ _ _).bind fun _ => (Made.lift _).bind fun _ =>
      (Made.read fun _ _ _ => rfl).bind fun _ => (Made.lift _).bind fun _ =>
        (Made.growth _ _).bind fun _ => .pure _

theorem made_resize (p : Handle) (payload : Nat) : Made true (resize p payload) := by
  refine (Made.read fun _ _ _ => rfl).bind fun owned => ?_
  split
  · split
    · exact (Made.tell _).bind fun _ => .pure _
    · exact (made_enlarge _ _ _).bind fun _ => .pure _
  · exact (Made.tell _).bind fun _ => .pure _

theorem made_realloc (p : Option Handle) (payload : Nat) : Made p.isSome (realloc p payload) := by
  by_cases hn : payload = 0
  · cases p with
    | none =>
      rw [realloc, if_pos hn]
      exact .pure _
    | some p =>
      rw [realloc, if_pos hn]
      exact (made_free _).bind fun _ => .pure _
  · cases p with
    | none =>
      rw [realloc, if_neg hn]
      exact made_malloc _
    | some p =>
      rw [realloc, if_neg hn]
      exact made_resize _ _

theorem made_writePayload (p : Handle) (i : Nat) (src : ByteArray) :
    Made frees (writePayload p i src) :=
  (Made.read fun _ _ _ => rfl).bind fun _ => .splice _ _

end

end Heap

/-! ## Calls -/

open HeapM

def Call.mayFree : Call → Bool
  | free _ | realloc (some _) _ => true
  | init | setCheck _ | malloc _ | tryMalloc _ | realloc none _ | write .. | read .. | check _ => false

theorem Call.made_action {c : Call} (hi : c ≠ .init) (hc : ∀ level, c ≠ .setCheck level) :
    Made c.mayFree c.action := by
  cases c with
  | init => exact absurd rfl hi
  | setCheck level => exact absurd rfl (hc level)
  | malloc n => exact (Heap.made_malloc n).bind fun _ => .pure _
  | tryMalloc n => exact (Heap.made_tryMalloc n).bind fun _ => .pure _
  | free p => exact (Heap.made_free p).bind fun _ => .pure _
  | realloc p n =>
    cases p with
    | none => exact (Heap.made_realloc none n).bind fun _ => .pure _
    | some p => exact (Heap.made_realloc (some p) n).bind fun _ => .pure _
  | write p i src => exact (Heap.made_writePayload p i src).bind fun _ => .pure _
  | read p i n => exact (Made.read fun _ _ _ => rfl).bind fun _ => .pure _
  | check v => exact (Made.observe (Heap.aloof_report v)).bind fun _ => .pure _

end BoundaryTag
