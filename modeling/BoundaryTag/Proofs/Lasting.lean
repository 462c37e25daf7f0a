import BoundaryTag.Proofs.Counted
import BoundaryTag.Proofs.Made

/-!
# What lasts

A relation is `Lasting` if it holds between the heap before and the heap after every basic update. It then holds
across whatever is made of these, once the action is through: a record of the counters that faults half way may
break it.

Main statement: `Made.lasts`.
-/

namespace BoundaryTag

/-- The records that an action makes in the counters. -/
inductive Records (frees : Bool) : EStateM Fault Counters Unit → Prop
  | extension (n : Nat) : Records frees (Counters.recordExtension n)
  | alloc (n : Nat) : Records frees (Counters.recordAlloc n)
  | growth (old new : Nat) : Records frees (Counters.recordGrowth old new)
  | release (n : Nat) : frees = true → Records frees (Counters.recordFree n)

structure Lasting (frees : Bool) (R : Heap → Heap → Prop) : Prop where
  refl : ∀ h, R h h
  trans : ∀ {h h' h''}, R h h' → R h' h'' → R h h''
  written : ∀ h {a}, a.size = h.arena.size → R h { h with arena := a }
  grown : ∀ h {n}, n ≤ h.arena.remaining → R h { h with arena := h.arena.grow n }
  relinked : ∀ h l, R h { h with freeList := l }
  recorded : ∀ h {m c}, Records frees m → m.run h.counters = .ok () c → R h { h with counters := c }

theorem Lasting.of_counters {frees : Bool} {R : Counters → Counters → Prop} (refl : ∀ c, R c c)
    (trans : ∀ {c c' c''}, R c c' → R c' c'' → R c c'')
    (recorded : ∀ {m c c'}, Records frees m → m.run c = .ok () c' → R c c') :
    Lasting frees fun h h' => R h.counters h'.counters where
  refl _ := refl _
  trans := trans
  written _ _ _ := refl _
  grown _ _ _ := refl _
  relinked _ _ := refl _
  recorded _ _ _ := recorded

theorem Heap.inArena_eq_ok_iff {h : Heap} {i n : Nat} {u : Unit} :
    h.inArena i n = .ok u ↔ i + n ≤ h.arena.size := by
  simp [inArena]

namespace HeapM

variable {α β : Type} {frees : Bool} {R : Heap → Heap → Prop}

/-- The relation holds between the heap that the action is run on and the one that it leaves. -/
def Leads (R : Heap → Heap → Prop) (m : HeapM α) : Prop :=
  ∀ h, Meets m h (fun _ h' => R h h') fun _ _ => True

/-- An update that comes after the check which it needs. -/
theorem leads_guarded {f : Heap → Except Fault β} {u : Heap → Heap}
    (hu : ∀ h b, f h = .ok b → R h (u h)) : Leads R (do let _ ← HeapM.read f; HeapM.update u) :=
  fun h => Meets.read_cases (fun b hb => Meets.of_update (hu h b hb)) fun _ _ => trivial

section
variable (hR : Lasting frees R)
include hR

theorem leads_of_same {m : HeapM α} (hm : ∀ h, (m.run h).heap = h) : Leads R m := fun h => by
  unfold Meets
  cases (m.run h).result with
  | ok a =>
    simp only [hm]
    exact hR.refl h
  | error e => trivial

theorem Leads.bind {m : HeapM α} {k : α → HeapM β} (hm : Leads R m) (hk : ∀ a, Leads R (k a)) :
    Leads R (m >>= k) := fun h =>
  (hm h).seq (fun _ _ => id) fun a h' h₁ =>
    (hk a h').mono (fun _ _ h₂ => hR.trans h₁ h₂) fun _ _ => id

theorem leads_selfCheck (caller : Caller) : Leads R (Heap.selfCheck caller) := by
  refine .bind hR (leads_of_same hR fun _ => rfl) fun level =>
    .bind hR (leads_of_same hR fun _ => rfl) fun ready => ?_
  split
  · exact .bind hR (leads_of_same hR fun _ => rfl) fun _ =>
      .bind hR (leads_of_same hR fun _ => rfl) fun _ => leads_of_same hR fun _ => rfl
  · exact leads_of_same hR fun _ => rfl

theorem leads_account {m : EStateM Fault Counters Unit} (hm : Records frees m) :
    Leads R (Heap.account m) := by
  intro h
  cases e : m.run h.counters with
  | ok _ c => exact Meets.of_run (Heap.account_run_of_ok e) (hR.recorded h hm e)
  | error _ c => exact Meets.of_run_error (Heap.account_run_of_error e) trivial

theorem leads_growArena (n : Nat) : Leads R (Heap.growArena n) := by
  intro h
  apply Meets.view_bind
  cases hn : h.arena.refusal? n with
  | some e => exact Meets.pure (hR.refl h)
  | none =>
    exact Meets.view_bind (Meets.update_bind (Meets.pure (hR.grown h (Arena.refusal?_eq_none_iff.mp hn))))

theorem leads_move (src n dst : Nat) : Leads R (Heap.move src n dst) := by
  refine .bind hR (leads_of_same hR fun _ => rfl) fun _ => leads_guarded fun h _ hd => ?_
  have hin := Heap.inArena_eq_ok_iff.mp hd
  have hsize : (h.arena.bytes.extract src (src + n)).size ≤ n := by
    rw [ByteArray.size_extract]
    omega
  exact hR.written h (Arena.size_splice (by omega))

theorem Made.lasts {m : HeapM α} (hm : Made frees m) : Leads R m := by
  induction hm with
  | observe => exact leads_of_same hR fun _ => rfl
  | bind _ _ ihm ihk => exact ihm.bind hR ihk
  | selfCheck caller => exact leads_selfCheck hR caller
  | putTag i t => exact leads_guarded fun h _ _ => hR.written h (Arena.size_setTag _ i t)
  | splice i src =>
    exact leads_guarded fun h _ hs =>
      hR.written h (Arena.size_splice (Heap.inArena_eq_ok_iff.mp hs))
  | move src n dst => exact leads_move hR src n dst
  | growArena n => exact leads_growArena hR n
  | reserve => exact fun h => Meets.of_update (hR.relinked h _)
  | enlist => exact leads_guarded fun h _ _ => hR.relinked h _
  | unlist =>
    exact .bind hR (leads_of_same hR fun _ => rfl) fun _ =>
      .bind hR (leads_of_same hR fun _ => rfl) fun _ => fun h =>
        Meets.update_bind (Meets.pure (hR.relinked h _))
  | extension n => exact leads_account hR (.extension n)
  | alloc n => exact leads_account hR (.alloc n)
  | growth old new => exact leads_account hR (.growth old new)
  | release n hn => exact leads_account hR (.release n hn)

end

end HeapM

end BoundaryTag
