import BoundaryTag.Heap.Update

/-!
# Contracts of heap actions

`Meets m h Q E`: run on `h`, the action `m` ends with a result and a heap that satisfy `Q`, or in a
fault that satisfies `E`. An action with no way to fault meets a contract whose `E` is `NoFault`.

The rules follow the shape of a `do` block: one for each basic action, and `Meets.seq` for a step whose
contract is known.
-/

namespace BoundaryTag.HeapM

variable {α β : Type}

def Meets (m : HeapM α) (h : Heap) (Q : α → Heap → Prop) (E : Fault → Heap → Prop) : Prop :=
  match (m.run h).result with
  | .ok a => Q a (m.run h).heap
  | .error e => E e (m.run h).heap

def NoFault : Fault → Heap → Prop := fun _ _ => False

section
variable {h : Heap} {Q : α → Heap → Prop} {E : Fault → Heap → Prop}

theorem Meets.of_run {m : HeapM α} {a : α} {es : List Event} {h' : Heap}
    (e : m.run h = ⟨⟨.ok a, es⟩, h'⟩) (hq : Q a h') : Meets m h Q E := by
  unfold Meets
  rw [e]
  exact hq

theorem Meets.of_run_error {m : HeapM α} {c : Fault} {es : List Event} {h' : Heap}
    (e : m.run h = ⟨⟨.error c, es⟩, h'⟩) (he : E c h') : Meets m h Q E := by
  unfold Meets
  rw [e]
  exact he

theorem Meets.mono {m : HeapM α} {Q' : α → Heap → Prop} {E' : Fault → Heap → Prop}
    (hm : Meets m h Q' E') (hq : ∀ a h', Q' a h' → Q a h') (he : ∀ e h', E' e h' → E e h') :
    Meets m h Q E := by
  unfold Meets at hm ⊢
  cases hr : (m.run h).result with
  | ok a =>
    rw [hr] at hm
    exact hq a _ hm
  | error e =>
    rw [hr] at hm
    exact he e _ hm

theorem Meets.of_noFault {m : HeapM α} {Q' : α → Heap → Prop} (hm : Meets m h Q' NoFault)
    (hq : ∀ a h', Q' a h' → Q a h') : Meets m h Q E := hm.mono hq fun _ _ e => e.elim

theorem Meets.and {m : HeapM α} {Q' : α → Heap → Prop} {E' : Fault → Heap → Prop} (hm : Meets m h Q E)
    (hm' : Meets m h Q' E') : Meets m h (fun a h' => Q a h' ∧ Q' a h') E := by
  unfold Meets at hm hm' ⊢
  cases hr : (m.run h).result with
  | ok a =>
    rw [hr] at hm hm'
    exact ⟨hm, hm'⟩
  | error e =>
    rw [hr] at hm
    exact hm

theorem Meets.ok {m : HeapM α} {a : α} (hm : Meets m h Q E) (hr : (m.run h).result = .ok a) :
    Q a (m.run h).heap := by
  unfold Meets at hm
  rwa [hr] at hm

theorem Meets.error {m : HeapM α} {e : Fault} (hm : Meets m h Q E)
    (hr : (m.run h).result = .error e) : E e (m.run h).heap := by
  unfold Meets at hm
  rwa [hr] at hm

theorem Meets.exists_ok {m : HeapM α} (hm : Meets m h Q NoFault) :
    ∃ a, (m.run h).result = .ok a ∧ Q a (m.run h).heap := by
  cases hr : (m.run h).result with
  | ok a => exact ⟨a, rfl, hm.ok hr⟩
  | error e => exact (hm.error hr).elim

theorem Meets.exists_error {m : HeapM α} (hm : Meets m h (fun _ _ => False) E) :
    ∃ e, (m.run h).result = .error e ∧ E e (m.run h).heap := by
  cases hr : (m.run h).result with
  | ok a => exact (hm.ok hr).elim
  | error e => exact ⟨e, rfl, hm.error hr⟩

theorem Meets.heap {m : HeapM α} {P : Heap → Prop} (hm : Meets m h (fun _ => P) fun _ => P) :
    P (m.run h).heap := by
  cases hr : (m.run h).result with
  | ok a => exact hm.ok hr
  | error e => exact hm.error hr

/-- What the contract says is said of this very run. -/
theorem Meets.traced {m : HeapM α} (hm : Meets m h Q E) :
    Meets m h (fun a h' => ((m.run h).result = .ok a ∧ h' = (m.run h).heap) ∧ Q a h')
      (fun e h' => (m.run h).result = .error e ∧ E e h') := by
  unfold Meets
  cases hr : (m.run h).result with
  | ok a => exact ⟨⟨rfl, rfl⟩, hm.ok hr⟩
  | error e => exact ⟨rfl, hm.error hr⟩

theorem Meets.pure {a : α} (hq : Q a h) : Meets (pure a) h Q E := hq

theorem Meets.fail {e : Fault} (he : E e h) : Meets (fail e : HeapM α) h Q E := he

theorem Meets.of_update {f : Heap → Heap} {Q : Unit → Heap → Prop} (hq : Q () (f h)) :
    Meets (update f) h Q E := hq

theorem Meets.tell_bind {ev : Event} {k : Unit → HeapM α} (hk : Meets (k ()) h Q E) :
    Meets (tell ev >>= k) h Q E := by
  unfold Meets at hk ⊢
  rw [run_bind_of_ok (run_tell ev h)]
  exact hk

theorem Meets.view_bind {f : Heap → β} {k : β → HeapM α} (hk : Meets (k (f h)) h Q E) :
    Meets (view f >>= k) h Q E := by
  unfold Meets at hk ⊢
  rw [run_bind_of_ok (run_view f h)]
  exact hk

theorem Meets.read_bind {f : Heap → Except Fault β} {k : β → HeapM α} {b : β} (e : f h = .ok b)
    (hk : Meets (k b) h Q E) : Meets (read f >>= k) h Q E := by
  have hr : (read f).run h = ⟨⟨.ok b, []⟩, h⟩ := by rw [run_read, e]
  unfold Meets at hk ⊢
  rw [run_bind_of_ok hr]
  exact hk

theorem Meets.lift_bind {x : Except Fault β} {k : β → HeapM α} {b : β} (e : x = .ok b)
    (hk : Meets (k b) h Q E) : Meets ((liftM x : HeapM β) >>= k) h Q E :=
  Meets.read_bind (f := fun _ => x) e hk

theorem Meets.read_cases {f : Heap → Except Fault β} {k : β → HeapM α}
    (hk : ∀ b, f h = .ok b → Meets (k b) h Q E) (he : ∀ e, f h = .error e → E e h) :
    Meets (read f >>= k) h Q E := by
  cases hf : f h with
  | ok b => exact Meets.read_bind hf (hk b hf)
  | error e =>
    have hr : (read f).run h = ⟨⟨.error e, []⟩, h⟩ := by rw [run_read, hf]
    exact Meets.of_run_error (run_bind_of_error hr) (he e hf)

theorem Meets.lift_cases {x : Except Fault β} {k : β → HeapM α} (hk : ∀ b, x = .ok b → Meets (k b) h Q E)
    (he : ∀ e, x = .error e → E e h) : Meets ((liftM x : HeapM β) >>= k) h Q E :=
  Meets.read_cases (f := fun _ => x) hk he

theorem Meets.require_bind {c : Bool} {e : Fault} {k : Unit → HeapM α} (hc : c = true)
    (hk : Meets (k ()) h Q E) : Meets (require c e >>= k) h Q E := by
  subst hc
  exact hk

theorem Meets.update_bind {f : Heap → Heap} {k : Unit → HeapM α} (hk : Meets (k ()) (f h) Q E) :
    Meets (update f >>= k) h Q E := by
  unfold Meets at hk ⊢
  rw [run_bind_of_ok (run_update f h)]
  exact hk

theorem Meets.bind {m : HeapM β} {k : β → HeapM α}
    (hm : Meets m h (fun b h' => Meets (k b) h' Q E) E) : Meets (m >>= k) h Q E := by
  unfold Meets at hm ⊢
  rcases hr : m.run h with ⟨⟨_ | b, es⟩, h'⟩
  · rw [hr] at hm
    rw [run_bind_of_error hr]
    exact hm
  · rw [hr] at hm
    rw [run_bind_of_ok hr]
    exact hm

theorem Meets.seq {m : HeapM β} {k : β → HeapM α} {R : β → Heap → Prop}
    {E' : Fault → Heap → Prop} (hm : Meets m h R E') (he : ∀ e h', E' e h' → E e h')
    (hk : ∀ b h', R b h' → Meets (k b) h' Q E) : Meets (m >>= k) h Q E :=
  Meets.bind (hm.mono hk he)

theorem Meets.then {m : HeapM β} {k : β → HeapM α} {R : β → Heap → Prop}
    (hm : Meets m h R NoFault) (hk : ∀ b h', R b h' → Meets (k b) h' Q E) :
    Meets (m >>= k) h Q E :=
  hm.seq (fun _ _ e => e.elim) hk

end

-- Unfolding a contract would run its action.
attribute [irreducible] Meets

end BoundaryTag.HeapM
