import Mathlib.Data.List.Induction

universe u v w

namespace EnterpriseCopilot.Lib

/-- An event in `A` happened, and none in `B` since. -/
def Since {E : Type w} (A B : E → Prop) (es : List E) : Prop :=
  ∃ pre e post, es = pre ++ e :: post ∧ A e ∧ ∀ x ∈ post, ¬ B x

@[simp] theorem not_since_nil {E : Type w} {A B : E → Prop} : ¬ Since A B [] := by
  rintro ⟨pre, e, post, h, _⟩
  simp at h

theorem since_snoc {E : Type w} {A B : E → Prop} {es : List E} {x : E} :
    Since A B (es ++ [x]) ↔ A x ∨ (Since A B es ∧ ¬ B x) := by
  constructor
  · rintro ⟨pre, e, post, he, hA, hB⟩
    rcases List.eq_nil_or_concat post with rfl | ⟨post', y, rfl⟩
    · obtain ⟨_, hl⟩ := List.append_inj' he rfl
      obtain rfl := List.singleton_inj.mp hl
      exact .inl hA
    · rw [List.concat_eq_append, ← List.cons_append, ← List.append_assoc] at he
      obtain ⟨rfl, hl⟩ := List.append_inj' he rfl
      obtain rfl := List.singleton_inj.mp hl
      exact .inr ⟨⟨pre, e, post', rfl, hA, fun z hz => hB z (by simp [hz])⟩, hB x (by simp)⟩
  · rintro (hA | ⟨⟨pre, e, post, rfl, hA, hB⟩, hx⟩)
    · exact ⟨es, x, [], rfl, hA, by simp⟩
    · refine ⟨pre, e, post ++ [x], by simp, hA, fun z hz => ?_⟩
      rcases List.mem_append.mp hz with hz | hz
      · exact hB z hz
      · exact List.mem_singleton.mp hz ▸ hx

/-- An event of `B` forgets everything before it. -/
theorem Since.after {E : Type w} {A B : E → Prop} {pre post : List E} {e : E}
    (h : Since A B (pre ++ e :: post)) (hA : ¬ A e) (hB : B e) : Since A B post := by
  induction post using List.reverseRecOn with
  | nil =>
    obtain hA' | ⟨_, hB'⟩ := since_snoc.mp h
    · exact absurd hA' hA
    · exact absurd hB hB'
  | append_singleton post x ih =>
    rw [← List.cons_append, ← List.append_assoc, since_snoc] at h
    exact since_snoc.mpr (h.imp_right fun ⟨h, hx⟩ => ⟨ih h, hx⟩)

/-- A state machine whose actions may be disabled.  An enabled action moves the
state and emits one event, so a run and its trace split at the same places. -/
structure Machine (S : Type u) (A : Type v) (E : Type w) where
  step : S → A → Option (S × E)

namespace Machine

variable {S : Type u} {A : Type v} {E : Type w} {M : Machine S A E} {G : S → A → Prop}

/-- Runs all of whose actions meet the guard `G` in the state they start from.
The trace lists the events in the order in which they happened. -/
inductive Run (M : Machine S A E) (G : S → A → Prop) : S → List E → S → Prop
  | nil {s} : Run M G s [] s
  | snoc {s es t a u e} : Run M G s es t → G t a → M.step t a = some (u, e) →
      Run M G s (es ++ [e]) u

/-- The guard that admits every action. -/
def Free : S → A → Prop := fun _ _ => True

instance : DecidableRel (Free : S → A → Prop) := fun _ _ => .isTrue trivial

theorem Run.trans (h : M.Run G s es t) (h' : M.Run G t fs u) : M.Run G s (es ++ fs) u := by
  induction h' with
  | nil => simpa using h
  | snoc _ hg hs ih => rw [← List.append_assoc]; exact .snoc ih hg hs

/-- An invariant of the trace so far and the state it led to. -/
theorem Run.invariant {I : List E → S → Prop} (h : M.Run G s es t) (h0 : I [] s)
    (hstep : ∀ es t a u e, M.Run G s es t → G t a → M.step t a = some (u, e) →
      I es t → I (es ++ [e]) u) : I es t := by
  induction h with
  | nil => exact h0
  | snoc hr hg hs ih => exact hstep _ _ _ _ _ hr hg hs ih

/-- Every event of a run was emitted by an admitted step between two runs. -/
theorem Run.at_event (h : M.Run G s es t) :
    ∀ {pre e post}, es = pre ++ e :: post →
      ∃ u a v, M.Run G s pre u ∧ G u a ∧ M.step u a = some (v, e) ∧ M.Run G v post t := by
  induction h with
  | nil => intro pre e post he; simp at he
  | snoc hr hg hs ih =>
    intro pre e post he
    rcases List.eq_nil_or_concat post with rfl | ⟨post', e', rfl⟩
    · obtain ⟨rfl, hl⟩ := List.append_inj' he rfl
      obtain rfl := List.singleton_inj.mp hl
      exact ⟨_, _, _, hr, hg, hs, .nil⟩
    · rw [List.concat_eq_append, ← List.cons_append, ← List.append_assoc] at he
      obtain ⟨hes, hl⟩ := List.append_inj' he rfl
      obtain rfl := List.singleton_inj.mp hl
      obtain ⟨u, a, v, hpre, hga, hsa, hpost⟩ := ih hes
      exact ⟨u, a, v, hpre, hga, hsa, by simpa using hpost.snoc hg hs⟩

/-- The last step of a run. -/
theorem Run.last (h : M.Run G s (es ++ [e]) t) :
    ∃ u a, M.Run G s es u ∧ G u a ∧ M.step u a = some (t, e) := by
  generalize hfs : es ++ [e] = fs at h
  cases h with
  | nil => simp at hfs
  | snoc hr hg hs =>
    obtain ⟨rfl, hl⟩ := List.append_inj' hfs rfl
    obtain rfl := List.singleton_inj.mp hl
    exact ⟨_, _, hr, hg, hs⟩

/-- Evaluate a list of actions, refusing those outside the guard. -/
def exec (M : Machine S A E) (G : S → A → Prop) [∀ s a, Decidable (G s a)] (s : S) :
    List A → Option (S × List E)
  | [] => some (s, [])
  | a :: as =>
    if G s a then
      match M.step s a with
      | none => none
      | some (t, e) => (exec M G t as).map fun (u, es) => (u, e :: es)
    else none

/-- A property of the run is evaluated with it. -/
theorem exec_of_any [∀ s a, Decidable (G s a)] {P : S → List E → Prop} [∀ s es, Decidable (P s es)] {as : List A}
    (h : (M.exec G s as).any (fun x => P x.1 x.2) = true) : ∃ t es, M.exec G s as = some (t, es) ∧ P t es := by
  obtain ⟨⟨t, es⟩, hexec, hP⟩ := (Option.any_eq_true _ _).mp h
  exact ⟨t, es, hexec, of_decide_eq_true hP⟩

theorem run_of_exec [∀ s a, Decidable (G s a)] (as : List A) :
    ∀ {s t es}, M.exec G s as = some (t, es) → M.Run G s es t := by
  induction as with
  | nil =>
    intro s t es h
    simp only [exec, Option.some.injEq, Prod.mk.injEq] at h
    obtain ⟨rfl, rfl⟩ := h
    exact .nil
  | cons a as ih =>
    intro s t es h
    unfold exec at h
    split at h
    · rename_i hg
      split at h
      · cases h
      · rename_i t' e hs
        rw [Option.map_eq_some_iff] at h
        obtain ⟨⟨u, fs⟩, hx, he⟩ := h
        simp only [Prod.mk.injEq] at he
        obtain ⟨rfl, rfl⟩ := he
        have hr := (Run.nil (M := M) (s := s)).snoc hg hs
        exact hr.trans (ih hx)
    · cases h

end Machine

end EnterpriseCopilot.Lib
