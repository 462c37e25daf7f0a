import BoundaryTag.Proofs.Meets

/-!
# Two runs of one action

`Agree m h g R S`: run on the heaps `h` and `g`, the action `m` ends in the same way, either with one result,
and the two heaps that are left are then related by `R`, or in one fault, and they are related by `S`.

There is a rule for each basic action. A step whose contract tells all about the outcome needs no second look:
`Agree.of_meets` puts two contracts together.
-/

namespace BoundaryTag.HeapM

variable {α β : Type}

def Agree (m : HeapM α) (h g : Heap) (R : α → Heap → Heap → Prop) (S : Heap → Heap → Prop) : Prop :=
  (m.run g).result = (m.run h).result ∧
    match (m.run h).result with
    | .ok a => R a (m.run h).heap (m.run g).heap
    | .error _ => S (m.run h).heap (m.run g).heap

section
variable {h g : Heap} {R : α → Heap → Heap → Prop} {S : Heap → Heap → Prop}

theorem Agree.result {m : HeapM α} (hm : Agree m h g R S) : (m.run g).result = (m.run h).result := hm.1

theorem Agree.ok {m : HeapM α} {a : α} (hm : Agree m h g R S) (hr : (m.run h).result = .ok a) :
    R a (m.run h).heap (m.run g).heap := by
  have hm := hm.2
  rwa [hr] at hm

theorem Agree.error {m : HeapM α} {e : Fault} (hm : Agree m h g R S)
    (hr : (m.run h).result = .error e) : S (m.run h).heap (m.run g).heap := by
  have hm := hm.2
  rwa [hr] at hm

theorem Agree.meets {m : HeapM α} (hm : Agree m h g R S) :
    Meets m g (fun a g' => (m.run h).result = .ok a ∧ R a (m.run h).heap g')
      (fun e g' => (m.run h).result = .error e ∧ S (m.run h).heap g') := by
  unfold Meets
  cases hr : (m.run g).result with
  | ok a => exact ⟨hm.result.symm.trans hr, hm.ok (hm.result.symm.trans hr)⟩
  | error e => exact ⟨hm.result.symm.trans hr, hm.error (hm.result.symm.trans hr)⟩

theorem Agree.of_ok {m : HeapM α} {a : α} (hr : (m.run h).result = .ok a)
    (hr' : (m.run g).result = .ok a) (ha : R a (m.run h).heap (m.run g).heap) : Agree m h g R S := by
  refine ⟨hr'.trans hr.symm, ?_⟩
  rwa [hr]

theorem Agree.of_error {m : HeapM α} {e : Fault} (hr : (m.run h).result = .error e)
    (hr' : (m.run g).result = .error e) (hs : S (m.run h).heap (m.run g).heap) : Agree m h g R S := by
  refine ⟨hr'.trans hr.symm, ?_⟩
  rwa [hr]

theorem Agree.pure {a : α} (hr : R a h g) : Agree (pure a) h g R S := ⟨rfl, hr⟩

theorem Agree.fail {e : Fault} (hs : S h g) : Agree (fail e : HeapM α) h g R S := ⟨rfl, hs⟩

theorem Agree.mono {m : HeapM α} {R' : α → Heap → Heap → Prop} (hm : Agree m h g R' S)
    (hr : ∀ a h' g', R' a h' g' → R a h' g') : Agree m h g R S := by
  cases ha : (m.run h).result with
  | ok a => exact .of_ok ha (hm.result.trans ha) (hr _ _ _ (hm.ok ha))
  | error e => exact .of_error ha (hm.result.trans ha) (hm.error ha)

theorem Agree.and_meets {m : HeapM α} {Q : α → Heap → Prop} {E : Fault → Heap → Prop}
    (hm : Agree m h g R S) (hq : Meets m h Q E) : Agree m h g (fun a h' g' => R a h' g' ∧ Q a h') S := by
  cases ha : (m.run h).result with
  | ok a => exact .of_ok ha (hm.result.trans ha) ⟨hm.ok ha, hq.ok ha⟩
  | error e => exact .of_error ha (hm.result.trans ha) (hm.error ha)

theorem Agree.of_meets {m : HeapM α} {Q Q' : α → Heap → Prop} {E E' : Fault → Heap → Prop}
    (hm : Meets m h Q E) (hm' : Meets m g Q' E')
    (ok : ∀ a b h' g', Q a h' → Q' b g' → b = a ∧ R a h' g')
    (error : ∀ e e' h' g', E e h' → E' e' g' → e' = e ∧ S h' g')
    (left : ∀ a e h' g', Q a h' → ¬ E' e g') (right : ∀ e b h' g', E e h' → ¬ Q' b g') :
    Agree m h g R S := by
  cases ha : (m.run h).result with
  | ok a =>
    cases hb : (m.run g).result with
    | ok b =>
      obtain ⟨rfl, hr⟩ := ok _ _ _ _ (hm.ok ha) (hm'.ok hb)
      exact .of_ok ha hb hr
    | error e => exact absurd (hm'.error hb) (left _ _ _ _ (hm.ok ha))
  | error e =>
    cases hb : (m.run g).result with
    | ok b => exact absurd (hm'.ok hb) (right _ _ _ _ (hm.error ha))
    | error e' =>
      obtain ⟨rfl, hs⟩ := error _ _ _ _ (hm.error ha) (hm'.error hb)
      exact .of_error ha hb hs

theorem Agree.of_noFault {m : HeapM α} {Q Q' : α → Heap → Prop} (hm : Meets m h Q NoFault)
    (hm' : Meets m g Q' NoFault) (ok : ∀ a b h' g', Q a h' → Q' b g' → b = a ∧ R a h' g') :
    Agree m h g R S :=
  .of_meets hm hm' ok (fun _ _ _ _ he => he.elim) (fun _ _ _ _ _ he => he) fun _ _ _ _ he => he.elim

theorem Agree.bind {m : HeapM β} {k : β → HeapM α}
    (hm : Agree m h g (fun b h' g' => Agree (k b) h' g' R S) S) : Agree (m >>= k) h g R S := by
  obtain ⟨he, hm⟩ := hm
  unfold Agree
  rcases hr : m.run h with ⟨⟨_ | b, es⟩, h'⟩
  all_goals
    rcases hr' : m.run g with ⟨⟨x, es'⟩, g'⟩
    rw [hr, hr'] at he
    rw [hr, hr'] at hm
    obtain rfl : x = _ := he
  · rw [run_bind_of_error hr, run_bind_of_error hr']
    exact ⟨rfl, hm⟩
  · rw [run_bind_of_ok hr, run_bind_of_ok hr']
    exact hm

theorem Agree.seq {m : HeapM β} {k : β → HeapM α} {R' : β → Heap → Heap → Prop}
    (hm : Agree m h g R' S) (hk : ∀ b h' g', R' b h' g' → Agree (k b) h' g' R S) :
    Agree (m >>= k) h g R S := Agree.bind (hm.mono hk)

theorem Agree.tell_bind {ev : Event} {k : Unit → HeapM α} (hk : Agree (k ()) h g R S) :
    Agree (tell ev >>= k) h g R S := Agree.bind ⟨rfl, hk⟩

theorem Agree.view_bind {f : Heap → β} {k : β → HeapM α} {b : β} (e : f h = b) (e' : f g = b)
    (hk : Agree (k b) h g R S) : Agree (view f >>= k) h g R S := by
  subst e
  exact Agree.bind (.of_ok rfl (congrArg Except.ok e') hk)

theorem Agree.read_bind {f : Heap → Except Fault β} {k : β → HeapM α} {b : β} (e : f h = .ok b)
    (e' : f g = .ok b) (hk : Agree (k b) h g R S) : Agree (read f >>= k) h g R S :=
  Agree.bind (.of_ok e e' hk)

theorem Agree.read_cases {f : Heap → Except Fault β} {k : β → HeapM α} (e : f g = f h) (hs : S h g)
    (hk : ∀ b, f h = .ok b → Agree (k b) h g R S) : Agree (read f >>= k) h g R S := by
  cases hb : f h with
  | ok b => exact .read_bind hb (e.trans hb) (hk b hb)
  | error c => exact Agree.bind (.of_error (m := read f) hb (e.trans hb) hs)

theorem Agree.update_bind {f : Heap → Heap} {k : Unit → HeapM α} (hk : Agree (k ()) (f h) (f g) R S) :
    Agree (update f >>= k) h g R S := Agree.bind (.of_ok rfl rfl hk)

theorem Agree.lift_bind {x : Except Fault β} {k : β → HeapM α} {b : β} (e : x = .ok b)
    (hk : Agree (k b) h g R S) : Agree ((liftM x : HeapM β) >>= k) h g R S :=
  Agree.bind (.of_ok e e hk)

end

-- As with a contract, unfolding would run the action.
attribute [irreducible] Agree

end BoundaryTag.HeapM
