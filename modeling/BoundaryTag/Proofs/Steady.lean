import BoundaryTag.Proofs.Agree
import BoundaryTag.Proofs.Extend
import BoundaryTag.Proofs.Lasting
import BoundaryTag.Proofs.Ready

/-!
# Heaps that differ in how much they check

An action is `Steady` if it runs alike on `Parallel` heaps, which are ready to be checked and differ in nothing
but the level of checks, and leaves heaps behind that are parallel again. Whatever is made of the basic actions
is steady: none of them looks at the level, and a heap that is ready stays so.

Main statements: `Steady.of_made`, `Call.steady_action` and `Heap.Ready.replay_withCheck` (whole sequences of calls, be
they legal or not).
-/

namespace BoundaryTag

/-! ## Ready heaps stay ready -/

namespace Heap.Ready

variable {h : Heap} {L : List Nat}

theorem withArena (hr : h.Ready) {a : Arena} (ha : a.announced = none) (hs : h.arena.size ≤ a.size) :
    { h with arena := a }.Ready :=
  ⟨ha, fun hi => Nat.le_trans (hr.roomy hi) hs, hr.list⟩

theorem withList (hr : h.Ready) {l : FreeList} (hl : l.Tracks L) : { h with freeList := l }.Ready :=
  ⟨hr.honest, hr.roomy, L, hl⟩

theorem withTag (hr : h.Ready) (i : Nat) (t : Tag) : (h.withTag i t).Ready :=
  hr.withArena ((Arena.announced_setTag _ i t).trans hr.honest) (Nat.le_of_eq (Arena.size_setTag _ i t).symm)

theorem splice (hr : h.Ready) {i : Nat} {src : ByteArray} (hs : i + src.size ≤ h.arena.size) :
    { h with arena := h.arena.splice i src }.Ready :=
  hr.withArena ((Arena.announced_splice _ i src).trans hr.honest) (Nat.le_of_eq (Arena.size_splice hs).symm)

theorem grow (hr : h.Ready) {n : Nat} (hn : n ≤ h.arena.remaining) :
    { h with arena := h.arena.grow n }.Ready :=
  hr.withArena (Arena.announced_grow _ _) (by rw [Arena.size_grow hn]; omega)

end Heap.Ready

theorem FreeList.Tracks.erase_of_check {l : FreeList} {L : List Nat} {b : Nat} {u : Unit}
    (hl : l.Tracks L) (hc : l.checkErase b = .ok u) : (l.erase b).Tracks (L.erase b) := by
  obtain ⟨_, ha, -⟩ := exists_of_bind_ok hc
  exact hl.erase (checkAligned_eq_ok_iff.mp ha)

/-! ## Steady actions -/

def Parallel (h g : Heap) : Prop := h.Ready ∧ ∃ level, g = h.withCheck level

namespace HeapM

def Steady {α : Type} (m : HeapM α) : Prop :=
  ∀ h g, Parallel h g → Agree m h g (fun _ => Parallel) Parallel

section
variable {α β : Type} {frees : Bool}

theorem Steady.bind {m : HeapM α} {k : α → HeapM β} (hm : Steady m) (hk : ∀ a, Steady (k a)) :
    Steady (m >>= k) := fun h g hp => (hm h g hp).seq hk

theorem steady_observe {f : Heap → Traced α} (hf : Aloof f) : Steady (observe f) := by
  rintro h _ ⟨hr, level, rfl⟩
  have e : (f (h.withCheck level)).result = (f h).result := congrArg _ (hf h h.counters level)
  cases hb : (f h).result with
  | ok a => exact .of_ok (m := observe f) hb (e.trans hb) ⟨hr, level, rfl⟩
  | error c => exact .of_error (m := observe f) hb (e.trans hb) ⟨hr, level, rfl⟩

theorem steady_guarded {f : Heap → Except Fault β} {u : Heap → Heap} (hf : Aloof f)
    (hu : ∀ h level, u (h.withCheck level) = (u h).withCheck level)
    (hr : ∀ h b, h.Ready → f h = .ok b → (u h).Ready) :
    Steady (do let _ ← HeapM.read f; HeapM.update u) := by
  rintro h _ ⟨hready, level, rfl⟩
  refine .read_cases (hf h h.counters level) ⟨hready, level, rfl⟩ fun b hb => ?_
  exact .of_ok rfl rfl ⟨hr h b hready hb, level, hu h level⟩

theorem steady_update {u : Heap → Heap} (hu : ∀ h level, u (h.withCheck level) = (u h).withCheck level)
    (hr : ∀ h, h.Ready → (u h).Ready) : Steady (update u) := by
  rintro h _ ⟨hready, level, rfl⟩
  exact .of_ok rfl rfl ⟨hr h hready, level, hu h level⟩

theorem steady_move (src n dst : Nat) : Steady (Heap.move src n dst) := by
  rintro h _ ⟨hr, level, rfl⟩
  refine .read_cases rfl ⟨hr, level, rfl⟩ fun _ hs => .read_cases rfl ⟨hr, level, rfl⟩ fun _ hd => ?_
  have hn := Arena.size_extract (Heap.inArena_eq_ok_iff.mp hs)
  exact .of_ok rfl rfl ⟨hr.splice (by rw [hn]; exact Heap.inArena_eq_ok_iff.mp hd), level, rfl⟩

theorem steady_growArena (n : Nat) : Steady (Heap.growArena n) := by
  rintro h _ ⟨hr, level, rfl⟩
  refine .view_bind rfl rfl ?_
  cases hn : h.arena.refusal? n with
  | some e => exact .pure ⟨hr, level, rfl⟩
  | none =>
    exact .view_bind rfl rfl (.update_bind (.pure ⟨hr.grow (Arena.refusal?_eq_none_iff.mp hn), level, rfl⟩))

theorem steady_unlist (block : Nat) : Steady (Heap.unlist block) := by
  rintro h _ ⟨hr, level, rfl⟩
  refine .read_cases rfl ⟨hr, level, rfl⟩ fun _ hc => .view_bind rfl rfl (.update_bind (.pure ?_))
  obtain ⟨L, hl⟩ := hr.list
  exact ⟨hr.withList (hl.erase_of_check hc), level, rfl⟩

theorem steady_account (m : EStateM Fault Counters α) : Steady (Heap.account m) := by
  rintro h _ ⟨hr, level, rfl⟩
  have hready : ∀ c, { h with counters := c }.Ready := fun _ => ⟨hr.honest, hr.roomy, hr.list⟩
  cases e : m.run h.counters with
  | ok a c =>
    have hrun := Heap.account_run_of_ok e
    have hrun' := Heap.account_run_of_ok (h := h.withCheck level) e
    refine .of_ok (congrArg (·.result) hrun) (congrArg (·.result) hrun') ?_
    rw [hrun, hrun']
    exact ⟨hready c, level, rfl⟩
  | error e' c =>
    have hrun := Heap.account_run_of_error e
    have hrun' := Heap.account_run_of_error (h := h.withCheck level) e
    refine .of_error (congrArg (·.result) hrun) (congrArg (·.result) hrun') ?_
    rw [hrun, hrun']
    exact ⟨hready c, level, rfl⟩

theorem steady_selfCheck (caller : Caller) : Steady (Heap.selfCheck caller) := by
  rintro h _ ⟨hr, level, rfl⟩
  have hr' : (h.withCheck level).Ready := ⟨hr.honest, hr.roomy, hr.list⟩
  refine .of_noFault (hr.selfCheck_meets caller) (hr'.selfCheck_meets caller) ?_
  rintro _ _ _ _ rfl rfl
  exact ⟨rfl, hr, level, rfl⟩

theorem Steady.of_made {m : HeapM α} (hm : Made frees m) : Steady m := by
  induction hm with
  | observe hf => exact steady_observe hf
  | bind _ _ ihm ihk => exact ihm.bind ihk
  | selfCheck caller => exact steady_selfCheck caller
  | putTag i t => exact steady_guarded (fun _ _ _ => rfl) (fun _ _ => rfl) fun _ _ hr _ => hr.withTag i t
  | splice i src =>
    exact steady_guarded (fun _ _ _ => rfl) (fun _ _ => rfl) fun _ _ hr hs =>
      hr.splice (Heap.inArena_eq_ok_iff.mp hs)
  | move src n dst => exact steady_move src n dst
  | growArena n => exact steady_growArena n
  | reserve =>
    refine steady_update (fun _ _ => rfl) fun h hr => ?_
    obtain ⟨L, hl⟩ := hr.list
    exact hr.withList (hl.reserve _)
  | enlist block =>
    refine steady_guarded (fun _ _ _ => rfl) (fun _ _ => rfl) fun h _ hr hc => ?_
    obtain ⟨L, hl⟩ := hr.list
    exact hr.withList (hl.insertFront hc)
  | unlist block => exact steady_unlist block
  | extension n => exact steady_account _
  | alloc n => exact steady_account _
  | growth old new => exact steady_account _
  | release n _ => exact steady_account _

end

end HeapM

/-! ## Calls -/

open HeapM

theorem Heap.steady_init : Steady Heap.init := by
  rintro h _ ⟨-, level, rfl⟩
  refine .update_bind (.update_bind (.bind ?_))
  cases hn : h.arena.reset.refusal? sentinelBytes with
  | some e =>
    have hclaim : ∀ g : Heap, g.arena = h.arena.reset →
        Meets (claim sentinelBytes) g (fun r g' => r = .error e ∧ g' = g) NoFault := fun g ha =>
      .of_run (claim_run_of_refused (ha ▸ hn)) ⟨rfl, rfl⟩
    refine .of_noFault (hclaim _ rfl) (hclaim _ rfl) ?_
    rintro _ _ _ _ ⟨rfl, rfl⟩ ⟨rfl, rfl⟩
    exact ⟨rfl, .pure ⟨⟨h.arena.announced_reset, nofun, [], .addressed FreeList.represents_empty⟩, level, rfl⟩⟩
  | none =>
    have hrem : 16 ≤ h.arena.reset.remaining := Arena.refusal?_eq_none_iff.mp hn
    have hsize : (h.arena.reset.grow 16).size = 16 := by rw [Arena.size_grow hrem, Arena.size_reset]
    have hclaim : ∀ g : Heap, g.arena = h.arena.reset → g.counters = {} → _ := fun g ha hc =>
      claim_meets (h := g) (n := sentinelBytes) (ha ▸ hrem) (hc ▸ (by decide)) (hc ▸ (by decide))
    refine .of_noFault (hclaim _ rfl rfl) (hclaim _ rfl rfl) ?_
    rintro _ _ _ _ ⟨rfl, rfl⟩ ⟨rfl, rfl⟩
    refine ⟨rfl, .bind (.of_noFault (putSentinels_meets hsize) (putSentinels_meets hsize) ?_)⟩
    rintro _ _ _ _ rfl rfl
    refine ⟨rfl, .update_bind (.view_bind rfl rfl ?_)⟩
    have hp : Parallel h.bare (h.bare.withCheck level) := ⟨(laid_bare hrem).legible.ready, level, rfl⟩
    refine (Steady.of_made (made_extend _ : Made false _) _ _ hp).seq ?_
    rintro (e | block) h' _ ⟨hr, level, rfl⟩
    · exact .update_bind (.pure ⟨⟨hr.honest, nofun, hr.list⟩, level, rfl⟩)
    · exact .view_bind rfl rfl (.tell_bind (.pure ⟨hr, level, rfl⟩))

theorem Call.steady_action (c : Call) : Steady c.action := by
  by_cases hi : c = .init
  · subst hi
    exact Heap.steady_init.bind fun _ => .of_made (.pure _ : Made false _)
  by_cases hc : ∃ level, c = .setCheck level
  · obtain ⟨level, rfl⟩ := hc
    rintro h _ ⟨hr, _, rfl⟩
    exact .update_bind (.pure ⟨⟨hr.honest, hr.roomy, hr.list⟩, level, rfl⟩)
  · exact .of_made (made_action hi fun level e => hc ⟨level, e⟩)

/-- The answers to a sequence of calls, and the heap that they leave. A client may go on after a fault. -/
def Heap.replay (h : Heap) : List Call → List (Except Fault Answer) × Heap
  | [] => ([], h)
  | c :: cs =>
    let o := c.action.run h
    let rest := o.heap.replay cs
    (o.result :: rest.1, rest.2)

theorem Parallel.replay {h g : Heap} (hp : Parallel h g) (cs : List Call) :
    (g.replay cs).1 = (h.replay cs).1 ∧ Parallel (h.replay cs).2 (g.replay cs).2 := by
  induction cs generalizing h g with
  | nil => exact ⟨rfl, hp⟩
  | cons c cs ih =>
    have hc := Call.steady_action c h g hp
    have hnext : Parallel (c.action.run h).heap (c.action.run g).heap := by
      cases hr : (c.action.run h).result with
      | ok a => exact hc.ok hr
      | error e => exact hc.error hr
    obtain ⟨has, hps⟩ := ih hnext
    exact ⟨congrArg₂ List.cons hc.result has, hps⟩

theorem Heap.Ready.replay_withCheck {h : Heap} (hr : h.Ready) (cs : List Call) (l l' : CheckLevel) :
    ((h.withCheck l).replay cs).1 = ((h.withCheck l').replay cs).1 ∧
      ((h.withCheck l).replay cs).2.withCheck .off = ((h.withCheck l').replay cs).2.withCheck .off := by
  obtain ⟨has, -, _, hl⟩ := Parallel.replay ⟨hr, l, rfl⟩ cs
  obtain ⟨has', -, _, hl'⟩ := Parallel.replay ⟨hr, l', rfl⟩ cs
  rw [has, has', hl, hl']
  exact ⟨rfl, rfl⟩

end BoundaryTag
