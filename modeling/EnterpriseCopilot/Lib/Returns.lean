universe u

/-! Partial computations that return, and lists of findings that they collect. -/

namespace EnterpriseCopilot.Lib

variable {ε α β σ : Type u}

/-- The computation ends with a value. -/
def Returns (x : Except ε α) : Prop := ∃ a, x = .ok a

@[simp] theorem returns_ok (a : α) : Returns (.ok a : Except ε α) := ⟨a, rfl⟩

@[simp] theorem returns_pure (a : α) : Returns (pure a : Except ε α) := ⟨a, rfl⟩

@[simp] theorem not_returns_error (e : ε) : ¬ Returns (.error e : Except ε α) := by
  rintro ⟨a, h⟩
  cases h

theorem returns_bind {x : Except ε α} {f : α → Except ε β} :
    Returns (x >>= f) ↔ ∃ a, x = .ok a ∧ Returns (f a) := by
  constructor
  · rintro ⟨b, h⟩
    cases x with
    | error e => cases h
    | ok a => exact ⟨a, rfl, b, h⟩
  · rintro ⟨a, rfl, hf⟩
    exact hf

/-- What follows does not depend on the value. -/
theorem returns_bind_and {x : Except ε α} {f : α → Except ε β} {P : Prop} (h : ∀ a, x = .ok a → (Returns (f a) ↔ P)) :
    Returns (x >>= f) ↔ Returns x ∧ P := by
  rw [returns_bind]
  constructor
  · rintro ⟨a, ha, hf⟩
    exact ⟨⟨a, ha⟩, (h a ha).mp hf⟩
  · rintro ⟨⟨a, ha⟩, hP⟩
    exact ⟨a, ha, (h a ha).mpr hP⟩

theorem returns_bind_pure {x : Except ε α} {f : α → β} : Returns (x >>= fun a => pure (f a)) ↔ Returns x := by
  rw [returns_bind_and (P := True) fun a _ => iff_of_true (returns_pure (f a)) trivial, and_true]

theorem returns_mapM {f : α → Except ε β} {l : List α} : Returns (l.mapM f) ↔ ∀ a ∈ l, Returns (f a) := by
  induction l with
  | nil => exact iff_of_true ⟨[], rfl⟩ fun _ h => nomatch h
  | cons a l ih =>
    rw [List.mapM_cons, returns_bind_and fun b _ => returns_bind_pure, ih, List.forall_mem_cons]

/-- Each element gives findings, and a state for the next one. -/
def collect (f : σ → α → Except ε (List β × σ)) (s : σ) : List α → Except ε (List β × σ)
  | [] => .ok ([], s)
  | a :: l => do
    let (found, s) ← f s a
    let (rest, s) ← collect f s l
    return (found ++ rest, s)

theorem returns_collect {f : σ → α → Except ε (List β × σ)} {P : α → Prop} {l : List α}
    (h : ∀ a ∈ l, ∀ s, Returns (f s a) ↔ P a) (s : σ) : Returns (collect f s l) ↔ ∀ a ∈ l, P a := by
  induction l generalizing s with
  | nil => exact iff_of_true ⟨_, rfl⟩ fun _ h => nomatch h
  | cons a l ih =>
    have hrest : ∀ s, Returns (collect f s l) ↔ ∀ a ∈ l, P a := ih fun a' ha' => h a' (List.mem_cons_of_mem _ ha')
    rw [collect, returns_bind_and (P := ∀ a ∈ l, P a) fun x _ => ?_, h a (.head _), List.forall_mem_cons]
    exact returns_bind_pure.trans (hrest x.2)

/-- Where nothing is found, no element gives a finding. -/
theorem collect_nil {f : σ → α → Except ε (List β × σ)} {l : List α} {s s' : σ} (h : collect f s l = .ok ([], s')) :
    ∀ a ∈ l, ∃ s s', f s a = .ok ([], s') := by
  induction l generalizing s s' with
  | nil => exact fun _ h => nomatch h
  | cons a l ih =>
    obtain ⟨⟨found, t⟩, hfirst, hreturns⟩ := returns_bind.mp ⟨_, h⟩
    obtain ⟨⟨rest, t'⟩, hrest, _⟩ := returns_bind.mp hreturns
    have heq : collect f s (a :: l) = .ok (found ++ rest, t') := by
      rw [collect, hfirst]
      change (collect f t l >>= _) = _
      rw [hrest]
      rfl
    rw [h] at heq
    obtain ⟨rfl, rfl⟩ := List.append_eq_nil_iff.mp (Prod.mk.inj (Except.ok.inj heq)).1.symm
    intro a' ha'
    rcases List.mem_cons.mp ha' with rfl | ha'
    · exact ⟨s, t, hfirst⟩
    · exact ih hrest a' ha'

end EnterpriseCopilot.Lib
