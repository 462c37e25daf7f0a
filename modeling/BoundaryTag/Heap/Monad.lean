import BoundaryTag.Heap.Basic
import BoundaryTag.Traced

/-!
# Actions on a heap

A `HeapM` action takes a heap to a result, a heap and the events told on the way. The heap that an
action leaves is there after a fault too, as the fault found it.

Main statements: `run_bind_of_ok` and `run_bind_of_error`, by which a run of several steps is taken
apart, and the `run_` equation of each basic action.
-/

namespace BoundaryTag

structure Outcome (α : Type) extends Traced α where
  heap : Heap

def HeapM (α : Type) : Type := Heap → Outcome α

namespace HeapM

variable {α β : Type}

def run (m : HeapM α) (h : Heap) : Outcome α := m h

def bind (m : HeapM α) (f : α → HeapM β) : HeapM β := fun h =>
  match m h with
  | ⟨⟨.ok a, events⟩, h⟩ => let o := f a h; ⟨⟨o.result, events ++ o.events⟩, o.heap⟩
  | ⟨⟨.error e, events⟩, h⟩ => ⟨⟨.error e, events⟩, h⟩

instance : Monad HeapM where
  pure a := fun h => ⟨⟨.ok a, []⟩, h⟩
  bind := bind

instance : MonadLift (Except Fault) HeapM := ⟨fun x h => ⟨⟨x, []⟩, h⟩⟩

def fail (e : Fault) : HeapM α := fun h => ⟨⟨.error e, []⟩, h⟩

def require (c : Bool) (e : Fault) : HeapM Unit := if c then pure () else fail e

def tell (e : Event) : HeapM Unit := fun h => ⟨⟨.ok (), [e]⟩, h⟩

def view (f : Heap → α) : HeapM α := fun h => ⟨⟨.ok (f h), []⟩, h⟩

def read (f : Heap → Except Fault α) : HeapM α := fun h => ⟨⟨f h, []⟩, h⟩

def observe (f : Heap → Traced α) : HeapM α := fun h => ⟨f h, h⟩

def update (f : Heap → Heap) : HeapM Unit := fun h => ⟨⟨.ok (), []⟩, f h⟩

/-! ## Runs -/

@[simp] theorem run_pure (a : α) (h : Heap) : (pure a : HeapM α).run h = ⟨⟨.ok a, []⟩, h⟩ := rfl

@[simp] theorem run_fail (e : Fault) (h : Heap) :
    (fail e : HeapM α).run h = ⟨⟨.error e, []⟩, h⟩ := rfl

@[simp] theorem run_tell (e : Event) (h : Heap) : (tell e).run h = ⟨⟨.ok (), [e]⟩, h⟩ := rfl

@[simp] theorem run_view (f : Heap → α) (h : Heap) : (view f).run h = ⟨⟨.ok (f h), []⟩, h⟩ := rfl

@[simp] theorem run_read (f : Heap → Except Fault α) (h : Heap) :
    (read f).run h = ⟨⟨f h, []⟩, h⟩ := rfl

@[simp] theorem run_observe (f : Heap → Traced α) (h : Heap) : (observe f).run h = ⟨f h, h⟩ := rfl

@[simp] theorem run_update (f : Heap → Heap) (h : Heap) :
    (update f).run h = ⟨⟨.ok (), []⟩, f h⟩ := rfl

theorem run_bind_of_ok {m : HeapM α} {f : α → HeapM β} {h h' : Heap} {a : α} {es : List Event}
    (e : m.run h = ⟨⟨.ok a, es⟩, h'⟩) :
    (m >>= f).run h =
      ⟨⟨((f a).run h').result, es ++ ((f a).run h').events⟩, ((f a).run h').heap⟩ := by
  show bind m f h = _
  have e : m h = ⟨⟨.ok a, es⟩, h'⟩ := e
  rw [bind, e]
  rfl

theorem run_bind_of_error {m : HeapM α} {f : α → HeapM β} {h h' : Heap} {c : Fault}
    {es : List Event} (e : m.run h = ⟨⟨.error c, es⟩, h'⟩) :
    (m >>= f).run h = ⟨⟨.error c, es⟩, h'⟩ := by
  show bind m f h = _
  have e : m h = ⟨⟨.error c, es⟩, h'⟩ := e
  rw [bind, e]

theorem run_bind_pure (m : HeapM α) (f : α → β) (h : Heap) :
    (m >>= fun a => pure (f a)).run h =
      ⟨⟨(m.run h).result.map f, (m.run h).events⟩, (m.run h).heap⟩ := by
  rcases hr : m.run h with ⟨⟨_ | a, es⟩, h'⟩
  · rw [run_bind_of_error hr]
    rfl
  · rw [run_bind_of_ok hr, run_pure, List.append_nil]
    rfl

theorem bind_pure_id (m : HeapM α) : bind m (fun a => pure (id a)) = m := by
  funext h
  rw [bind]
  split
  · next es h' e => rw [e]; simp [pure, Pure.pure]
  · next e => rw [e]

theorem bind_assoc {γ : Type} (m : HeapM α) (f : α → HeapM β) (g : β → HeapM γ) :
    bind (bind m f) g = bind m fun a => bind (f a) g := by
  funext h
  simp only [bind]
  rcases m h with ⟨⟨_ | a, es⟩, h'⟩
  · rfl
  · simp only
    rcases f a h' with ⟨⟨_ | b, es'⟩, h''⟩
    · rfl
    · simp only [List.append_assoc]

instance : LawfulMonad HeapM :=
  LawfulMonad.mk' HeapM bind_pure_id (fun _ _ => rfl) bind_assoc

end HeapM

end BoundaryTag
