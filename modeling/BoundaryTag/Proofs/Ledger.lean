import BoundaryTag.Proofs.Figures

/-!
# What a run has freed

The counters know what was handed out and what is still allocated; the difference was freed. A `Ledger` keeps
the books of a run without them: it adds up the payload bytes of the allocations that each call did away with.

Main statement: `reachable_accounted`.
-/

namespace BoundaryTag

/-- A run from the heap `h` has led to the session, and since it last initialized the heap, it has freed `n`
payload bytes. -/
inductive Ledger (h : Heap) : Session → Nat → Prop where
  | start : Ledger h ⟨h, []⟩ 0
  | init {s : Session} {a : Answer} {n : Nat} : Ledger h s n → s.answer .init = .ok a →
      Ledger h (s.next .init a) 0
  | call {s : Session} {c : Call} {a : Answer} {bs bs' : List Block} {n : Nat} : Ledger h s n →
      s.answer c = .ok a → c ≠ .init → c.Legal s → s.heap.blocks = .ok bs →
      (s.next c a).heap.blocks = .ok bs' → Ledger h (s.next c a) (n + freedBytes bs bs')

section
variable {h₀ : Heap} {s : Session} {c : Call} {a : Answer} {n : Nat}

theorem Ledger.reachable (hl : Ledger h₀ s n) : Reachable h₀ s := by
  induction hl with
  | start => exact .start
  | init _ ha ih => exact .step ih trivial ha
  | call _ ha _ hl _ _ ih => exact .step ih hl ha

theorem Session.Valid.frees (hv : s.Valid) (hl : c.Legal s) (hc : c ≠ .init) (ha : s.answer c = .ok a) :
    ∃ bs bs', s.heap.blocks = .ok bs ∧ (s.next c a).heap.blocks = .ok bs' ∧
      ((s.next c a).heap.initialized = true → s.heap.initialized = true ∧
        s.heap.counters.Frees (s.next c a).heap.counters (freedBytes bs bs')) := by
  cases hv with
  | idle hi =>
    obtain ⟨hi', -, -⟩ := (Call.action_meets_of_uninitialized hi hl hc).ok ha
    have hblocks : ∀ h : Heap, h.initialized = false → h.blocks = .ok [] := fun h hi => by
      rw [Heap.blocks, hi]
      rfl
    exact ⟨[], [], hblocks _ hi, hblocks _ hi', fun hi'' => by cases hi'.symm.trans hi''⟩
  | live hs hh =>
    obtain ⟨-, bs', hadv⟩ := (Call.action_meets hs hh hl hc).ok ha
    obtain ⟨L', hs'⟩ := hadv.sound
    exact ⟨_, bs', hs.laid.blocks_eq, hs'.laid.blocks_eq, fun _ => ⟨hs.laid.initialized, hadv.frees⟩⟩

theorem Reachable.exists_ledger (hr : Reachable h₀ s) (hf : Fresh h₀) : ∃ n, Ledger h₀ s n := by
  induction hr with
  | start => exact ⟨0, .start⟩
  | @step s c a hr hl ha ih =>
    obtain ⟨n, hn⟩ := ih
    by_cases hc : c = .init
    · subst hc
      exact ⟨0, .init hn ha⟩
    · obtain ⟨_, _, hb, hb', -⟩ := (hr.valid hf).1.frees hl hc ha
      exact ⟨_, .call hn ha hc hl hb hb'⟩

theorem Session.init_counters (ha : s.answer .init = .ok a)
    (hi : (s.next .init a).heap.initialized = true) :
    (s.next .init a).heap.counters.totalAllocated = (s.next .init a).heap.counters.allocated := by
  obtain ⟨-, ⟨-, htotal⟩, hi' | ⟨bs, L, hs, hall⟩⟩ := (Call.init_meets s.heap).ok ha
  · cases hi'.symm.trans hi
  · refine htotal.trans (hs.counted.allocated.trans ?_).symm
    rw [payloads, hall]
    rfl

/-- What was handed out is still allocated, or it was freed. -/
theorem Ledger.balance (hl : Ledger h₀ s n) (hf : Fresh h₀) (hi : s.heap.initialized = true) :
    s.heap.counters.totalAllocated = s.heap.counters.allocated + n := by
  induction hl with
  | start => cases hf <;> cases hi
  | init _ ha => exact Session.init_counters ha hi
  | call hn ha hc hl hb hb' ih =>
    obtain ⟨bs, bs', hbs, hbs', hfrees⟩ := (hn.reachable.valid hf).1.frees hl hc ha
    cases hbs.symm.trans hb
    cases hbs'.symm.trans hb'
    obtain ⟨hi₀, hfrees⟩ := hfrees hi
    have := ih hi₀
    simp only [Counters.Frees] at hfrees
    omega

theorem reachable_accounted (hf : Fresh h₀) (hr : Reachable h₀ s) (hi : s.heap.initialized = true) :
    ∃ bs c, s.Accounted bs c ∧ (∃ n, Ledger h₀ s n) ∧ ∀ n, Ledger h₀ s n → c.totalFreed = .ok n := by
  obtain ⟨bs, c, hacc, htotal, hallocated⟩ := (hr.valid hf).1.accounted hi
  refine ⟨bs, c, hacc, hr.exists_ledger hf, fun n hn => ?_⟩
  have hbal := hn.balance hf hi
  rw [Counters.totalFreed, htotal, hallocated, hbal]
  exact Address.sub_eq_ok_iff.mpr (by omega)

/-- The first of two allocations moves to a block of its own, which is then given back. That frees 8 bytes
and 24 more. -/
theorem reachable_accounted_relocated :
    ∃ s bs c, Reachable (Heap.new (Arena.growable 100) .fineGrained) s ∧ Session.Accounted s bs c ∧
      c.allocated = 8 ∧ c.totalFreed = .ok 32 := by
  let h₀ := Heap.new (Arena.growable 100) .fineGrained
  let s₀ := Session.next ⟨h₀, []⟩ .init (.ready (.ok ()))
  let s₁ := s₀.next (.malloc 8) (.handle (some ⟨16⟩))
  let s₂ := s₁.next (.malloc 8) (.handle (some ⟨32⟩))
  let s₃ := s₂.next (.realloc (some ⟨16⟩) 20) (.handle (some ⟨48⟩))
  let s₄ := s₃.next (.free ⟨48⟩) .done
  have hb₀ : s₀.heap.blocks = .ok [⟨16, 64, false⟩] := by decide +kernel
  have hb₁ : s₁.heap.blocks = .ok [⟨16, 16, true⟩, ⟨32, 48, false⟩] := by decide +kernel
  have hb₂ : s₂.heap.blocks = .ok [⟨16, 16, true⟩, ⟨32, 16, true⟩, ⟨48, 32, false⟩] := by
    decide +kernel
  have hb₃ : s₃.heap.blocks = .ok [⟨16, 16, false⟩, ⟨32, 16, true⟩, ⟨48, 32, true⟩] := by
    decide +kernel
  have hb₄ : s₄.heap.blocks = .ok [⟨16, 16, false⟩, ⟨32, 16, true⟩, ⟨48, 32, false⟩] := by
    decide +kernel
  have ha₁ : s₀.answer (.malloc 8) = .ok (.handle (some ⟨16⟩)) := by decide +kernel
  have ha₂ : s₁.answer (.malloc 8) = .ok (.handle (some ⟨32⟩)) := by decide +kernel
  have ha₃ : s₂.answer (.realloc (some ⟨16⟩) 20) = .ok (.handle (some ⟨48⟩)) := by decide +kernel
  have ha₄ : s₃.answer (.free ⟨48⟩) = .ok .done := by decide +kernel
  have hl₀ : Ledger h₀ s₀ 0 := .init .start (by decide +kernel)
  have hl₁ := Ledger.call hl₀ ha₁ nofun trivial hb₀ hb₁
  have hl₂ := Ledger.call hl₁ ha₂ nofun trivial hb₁ hb₂
  have hl₃ := Ledger.call hl₂ ha₃ nofun ⟨_, .tail _ (.head _), rfl⟩ hb₂ hb₃
  have hl₄ := Ledger.call hl₃ ha₄ nofun ⟨_, .head _, rfl⟩ hb₃ hb₄
  obtain ⟨bs, c, hacc, -, hfreed⟩ := reachable_accounted (.growable _ _) hl₄.reachable (by decide +kernel)
  refine ⟨s₄, bs, c, hl₄.reachable, hacc, ?_, (hfreed _ hl₄).trans (by decide)⟩
  rw [hacc.allocated, Except.ok.inj (hacc.walk.symm.trans hb₄)]
  rfl

end

end BoundaryTag
