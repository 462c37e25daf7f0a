import BoundaryTag.Proofs.Counted
import BoundaryTag.Proofs.Made

/-!
# Cumulative counters

The totals of a heap's counters are only added to. An action that is `Blind` does not depend on what
they were before: it runs in the same way on a heap that has counted more, as long as the sums still fit.

Main statement: `Blind.of_made`.
-/

namespace BoundaryTag

/-- The counters of a heap that had counted `t` allocations of `u` bytes before. -/
def Counters.prior (c : Counters) (t u : Nat) : Counters :=
  { c with
    totalAllocations := t + c.totalAllocations
    totalAllocated := u + c.totalAllocated }

def Heap.prior (h : Heap) (t u : Nat) : Heap := { h with counters := h.counters.prior t u }

/-- There is room for another `t` allocations of `u` bytes. -/
def Counters.Room (c : Counters) (t u : Nat) : Prop :=
  t + c.totalAllocations < addressSpace ∧ u + c.totalAllocated < addressSpace

def Counters.Upto (c c' : Counters) : Prop :=
  c.totalAllocations ≤ c'.totalAllocations ∧ c.totalAllocated ≤ c'.totalAllocated

theorem Counters.Upto.room {c c' : Counters} {t u : Nat} (h : c.Upto c') (hr : c'.Room t u) :
    c.Room t u :=
  ⟨Nat.lt_of_le_of_lt (Nat.add_le_add_left h.1 t) hr.1,
    Nat.lt_of_le_of_lt (Nat.add_le_add_left h.2 u) hr.2⟩

namespace HeapM

/-- The action takes the same course whatever the totals were, and faults if they overflow. -/
structure Blind {α : Type} (m : HeapM α) : Prop where
  upto : ∀ h : Heap, h.counters.Upto (m.run h).heap.counters
  prior : ∀ (h : Heap) t u, (m.run h).heap.counters.Room t u →
    m.run (h.prior t u) = ⟨(m.run h).toTraced, (m.run h).heap.prior t u⟩
  strict : ∀ (h : Heap) t u, h.counters.Room t u → ¬ (m.run h).heap.counters.Room t u →
    ∃ e, (m.run (h.prior t u)).result = .error e

section
variable {α β : Type}

theorem upto_refl (c : Counters) : c.Upto c := ⟨Nat.le_refl _, Nat.le_refl _⟩

theorem blind_of_same {m : HeapM α} (hc : ∀ h, (m.run h).heap.counters = h.counters)
    (hp : ∀ h t u, m.run (h.prior t u) = ⟨(m.run h).toTraced, (m.run h).heap.prior t u⟩) : Blind m := by
  refine ⟨fun h => ?_, fun h t u _ => hp h t u, fun h t u hr hn => ?_⟩
  · rw [hc]
    exact upto_refl _
  · rw [hc] at hn
    exact absurd hr hn

theorem blind_pure (a : α) : Blind (pure a : HeapM α) :=
  blind_of_same (fun _ => rfl) fun _ _ _ => rfl

theorem blind_tell (e : Event) : Blind (tell e) := blind_of_same (fun _ => rfl) fun _ _ _ => rfl

theorem blind_observe {f : Heap → Traced α} (hf : ∀ h t u, f (h.prior t u) = f h) :
    Blind (observe f) :=
  blind_of_same (fun _ => rfl) fun h t u => by rw [run_observe, run_observe, hf]

theorem blind_read {f : Heap → Except Fault α} (hf : ∀ h t u, f (h.prior t u) = f h) :
    Blind (read f) := blind_of_same (fun _ => rfl) fun h t u => by rw [run_read, run_read, hf]

theorem blind_view {f : Heap → α} (hf : ∀ h t u, f (h.prior t u) = f h) : Blind (view f) :=
  blind_of_same (fun _ => rfl) fun h t u => by rw [run_view, run_view, hf]

theorem blind_update {f : Heap → Heap} (hc : ∀ h, (f h).counters = h.counters)
    (hf : ∀ h t u, f (h.prior t u) = (f h).prior t u) : Blind (update f) :=
  blind_of_same hc fun h t u => by rw [run_update, run_update, hf]

theorem result_bind_of_error {m : HeapM α} {k : α → HeapM β} {h : Heap} {c : Fault}
    (hc : (m.run h).result = .error c) : ((m >>= k).run h).result = .error c := by
  rcases e : m.run h with ⟨⟨_ | a, es⟩, h'⟩
  · rw [e] at hc
    rw [run_bind_of_error e]
    exact congrArg Except.error (Except.error.inj hc)
  · rw [e] at hc
    cases hc

theorem Blind.bind {m : HeapM α} {k : α → HeapM β} (hm : Blind m) (hk : ∀ a, Blind (k a)) :
    Blind (m >>= k) := by
  refine ⟨fun h => ?_, fun h t u hr => ?_, fun h t u hr hn => ?_⟩ <;>
    rcases e : m.run h with ⟨⟨_ | a, es⟩, h'⟩
  · have hu := hm.upto h
    rw [run_bind_of_error e]
    rwa [e] at hu
  · have h₁ := hm.upto h
    have h₂ := (hk a).upto h'
    rw [run_bind_of_ok e]
    rw [e] at h₁
    exact ⟨Nat.le_trans h₁.1 h₂.1, Nat.le_trans h₁.2 h₂.2⟩
  · have hp := hm.prior h t u
    rw [e] at hp
    rw [run_bind_of_error e] at hr ⊢
    exact run_bind_of_error (hp hr)
  · have hp := hm.prior h t u
    rw [e] at hp
    rw [run_bind_of_ok e] at hr ⊢
    -- room after the second step is room after the first
    rw [run_bind_of_ok (hp (((hk a).upto h').room hr)), (hk a).prior h' t u hr]
  · have hs := hm.strict h t u hr
    rw [e] at hs
    rw [run_bind_of_error e] at hn
    obtain ⟨c, hc⟩ := hs hn
    exact ⟨c, result_bind_of_error hc⟩
  · have hp := hm.prior h t u
    have hs := hm.strict h t u hr
    rw [e] at hp hs
    rw [run_bind_of_ok e] at hn
    by_cases hroom : h'.counters.Room t u
    · rw [run_bind_of_ok (hp hroom)]
      exact (hk a).strict h' t u hroom hn
    · obtain ⟨c, hc⟩ := hs hroom
      exact ⟨c, result_bind_of_error hc⟩

theorem Blind.account_bind {m : EStateM Fault Counters α} {k : α → EStateM Fault Counters β}
    (hm : Blind (Heap.account m)) (hk : ∀ a, Blind (Heap.account (k a))) : Blind (Heap.account (m >>= k)) := by
  rw [Heap.account_bind]
  exact hm.bind hk

section
variable {value : Counters → Except Fault Nat} {store : Counters → Nat → Counters} {v : Counters → Nat}
  {p : Counters → Prop} [DecidablePred p]

theorem blind_change (hv : ∀ c, value c = if p c then .ok (v c) else .error .overflow)
    (hu : ∀ c : Counters, c.Upto (store c (v c)))
    (hs : ∀ c t u, store (c.prior t u) (v (c.prior t u)) = (store c (v c)).prior t u)
    (hp : ∀ c t u, p (c.prior t u) → p c)
    (hr : ∀ c t u, p c → c.Room t u → ((store c (v c)).Room t u ↔ p (c.prior t u))) :
    Blind (Heap.account (Counters.change value store)) := by
  have hok : ∀ h : Heap, p h.counters → (Heap.account (Counters.change value store)).run h =
      ⟨⟨.ok (), []⟩, { h with counters := store h.counters (v h.counters) }⟩ := fun h hc =>
    Heap.account_run_of_ok (by rw [Counters.run_change, hv, if_pos hc])
  have hfault : ∀ h : Heap, ¬ p h.counters →
      (Heap.account (Counters.change value store)).run h = ⟨⟨.error .overflow, []⟩, h⟩ := fun h hc =>
    Heap.account_run_of_error (by rw [Counters.run_change, hv, if_neg hc])
  refine ⟨fun h => ?_, fun h t u hroom => ?_, fun h t u hroom hn => ?_⟩ <;> by_cases hc : p h.counters
  · rw [hok h hc]
    exact hu h.counters
  · rw [hfault h hc]
    exact upto_refl _
  · rw [hok h hc] at hroom ⊢
    rw [hok _ ((hr _ t u hc ((hu _).room hroom)).mp hroom)]
    simp only [Heap.prior, hs]
  · rw [hfault h hc, hfault _ fun h' => hc (hp _ t u h')]
  · rw [hok h hc] at hn
    rw [hfault _ fun h' => hn ((hr _ t u hc hroom).mpr h')]
    exact ⟨_, rfl⟩
  · rw [hfault h hc] at hn
    exact absurd hroom hn

theorem blind_change_apart (hv : ∀ c, value c = if p c then .ok (v c) else .error .overflow)
    (hp : ∀ c t u, p (c.prior t u) ↔ p c)
    (hs : ∀ c t u, store (c.prior t u) (v (c.prior t u)) = (store c (v c)).prior t u)
    (ht : ∀ c n, (store c n).totalAllocations = c.totalAllocations ∧
      (store c n).totalAllocated = c.totalAllocated) :
    Blind (Heap.account (Counters.change value store)) := by
  refine blind_change hv (fun c => ?_) hs (fun c t u => (hp c t u).mp) fun c t u hc hroom => ?_
  · exact ⟨Nat.le_of_eq (ht c _).1.symm, Nat.le_of_eq (ht c _).2.symm⟩
  · simp only [Counters.Room, ht]
    exact ⟨fun _ => (hp c t u).mpr hc, fun _ => hroom⟩

end

end

end HeapM

/-! ## Records -/

namespace Counters

open HeapM

theorem blind_recordExtension (n : Nat) : Blind (Heap.account (recordExtension n)) := by
  refine .account_bind ?claimed fun _ => ?extensions
  case claimed =>
    exact blind_change_apart (fun _ => rfl) (fun _ _ _ => .rfl) (fun _ _ _ => rfl) fun _ _ => ⟨rfl, rfl⟩
  case extensions =>
    exact blind_change_apart (fun _ => rfl) (fun _ _ _ => .rfl) (fun _ _ _ => rfl) fun _ _ => ⟨rfl, rfl⟩

theorem blind_recordFree (n : Nat) : Blind (Heap.account (recordFree n)) := by
  refine .account_bind ?allocations fun _ => ?allocated
  case allocations =>
    exact blind_change_apart (fun _ => rfl) (fun _ _ _ => .rfl) (fun _ _ _ => rfl) fun _ _ => ⟨rfl, rfl⟩
  case allocated =>
    exact blind_change_apart (fun _ => rfl) (fun _ _ _ => .rfl) (fun _ _ _ => rfl) fun _ _ => ⟨rfl, rfl⟩

theorem blind_recordAlloc (n : Nat) : Blind (Heap.account (recordAlloc n)) := by
  refine .account_bind ?allocations fun _ => .account_bind ?allocated fun _ =>
    .account_bind ?totalAllocations fun _ => ?totalAllocated
  case allocations =>
    exact blind_change_apart (fun _ => rfl) (fun _ _ _ => .rfl) (fun _ _ _ => rfl) fun _ _ => ⟨rfl, rfl⟩
  case allocated =>
    exact blind_change_apart (fun _ => rfl) (fun _ _ _ => .rfl) (fun _ _ _ => rfl) fun _ _ => ⟨rfl, rfl⟩
  case totalAllocations =>
    refine blind_change (fun _ => rfl) (fun c => ?_) (fun c t u => ?_) (fun c t u => ?_) fun c t u => ?_
    · exact ⟨Nat.le_succ _, Nat.le_refl _⟩
    · simp only [prior, Nat.add_assoc]
    · simp only [prior]
      omega
    · simp only [prior, Room]
      omega
  case totalAllocated =>
    refine blind_change (fun _ => rfl) (fun c => ?_) (fun c t u => ?_) (fun c t u => ?_) fun c t u => ?_
    · exact ⟨Nat.le_refl _, Nat.le_add_right _ _⟩
    · simp only [prior, Nat.add_assoc]
    · simp only [prior]
      omega
    · simp only [prior, Room]
      omega

theorem blind_recordGrowth (old new : Nat) : Blind (Heap.account (recordGrowth old new)) := by
  refine .account_bind ?allocated fun _ => ?totalAllocated
  case allocated =>
    exact blind_change_apart (fun c => within_add_sub old new c.allocated) (fun _ _ _ => .rfl)
      (fun _ _ _ => rfl) fun _ _ => ⟨rfl, rfl⟩
  case totalAllocated =>
    refine blind_change (fun c => within_add_sub old new c.totalAllocated) (fun c => ?_) (fun c t u => ?_)
      (fun c t u => ?_) fun c t u => ?_
    · exact ⟨Nat.le_refl _, Nat.le_add_right _ _⟩
    · simp only [prior, Nat.add_assoc]
    · simp only [prior]
      omega
    · simp only [prior, Room]
      omega

end Counters

/-! ## Operations -/

theorem Aloof.prior {α : Type} {f : Heap → α} (hf : Aloof f) (h : Heap) (t u : Nat) :
    f (h.prior t u) = f h := hf h (h.counters.prior t u) h.policy.checkLevel

namespace Heap

open HeapM

theorem blind_selfCheck (caller : Caller) : Blind (selfCheck caller) := by
  have hcheck : ∀ v, Blind (check v) := fun v => blind_observe (aloof_report v).prior
  refine (blind_view fun _ _ _ => rfl).bind fun _ => (blind_view fun _ _ _ => rfl).bind fun _ => ?_
  split
  · exact (blind_tell _).bind fun _ => (hcheck _).bind fun _ => blind_pure _
  · exact blind_pure _

end Heap

namespace HeapM

variable {α : Type} {frees : Bool}

theorem blind_growArena (n : Nat) : Blind (Heap.growArena n) := by
  refine (blind_view fun _ _ _ => rfl).bind fun r => ?_
  cases r with
  | some e => exact blind_pure _
  | none =>
    exact (blind_view fun _ _ _ => rfl).bind fun _ =>
      .bind (blind_update (fun _ => rfl) fun _ _ _ => rfl) fun _ => blind_pure _

theorem blind_unlist (block : Nat) : Blind (Heap.unlist block) :=
  (blind_read fun _ _ _ => rfl).bind fun _ => (blind_view fun _ _ _ => rfl).bind fun _ =>
    .bind (blind_update (fun _ => rfl) fun _ _ _ => rfl) fun _ => blind_pure _

theorem Blind.of_made {m : HeapM α} (hm : Made frees m) : Blind m := by
  have hset : ∀ {f : Heap → Except Fault Unit} {g : Heap → Heap}, Aloof f →
      (∀ h, (g h).counters = h.counters) → (∀ h t u, g (h.prior t u) = (g h).prior t u) →
      Blind (do HeapM.read f; HeapM.update g) := fun hf hc hg =>
    (blind_read hf.prior).bind fun _ => blind_update hc hg
  induction hm with
  | observe hf => exact blind_observe hf.prior
  | bind _ _ ihm ihk => exact ihm.bind ihk
  | selfCheck caller => exact Heap.blind_selfCheck caller
  | putTag i t => exact hset (fun _ _ _ => rfl) (fun _ => rfl) fun _ _ _ => rfl
  | splice i src => exact hset (fun _ _ _ => rfl) (fun _ => rfl) fun _ _ _ => rfl
  | move src n dst =>
    exact (blind_read fun _ _ _ => rfl).bind fun _ => hset (fun _ _ _ => rfl) (fun _ => rfl) fun _ _ _ => rfl
  | growArena n => exact blind_growArena n
  | reserve => exact blind_update (fun _ => rfl) fun _ _ _ => rfl
  | enlist block => exact hset (fun _ _ _ => rfl) (fun _ => rfl) fun _ _ _ => rfl
  | unlist block => exact blind_unlist block
  | extension n => exact Counters.blind_recordExtension n
  | alloc n => exact Counters.blind_recordAlloc n
  | growth old new => exact Counters.blind_recordGrowth old new
  | release n _ => exact Counters.blind_recordFree n

end HeapM

end BoundaryTag
