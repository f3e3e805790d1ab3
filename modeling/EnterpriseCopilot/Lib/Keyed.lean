import Mathlib.Data.List.Basic

universe u v w

namespace EnterpriseCopilot.Lib

/-- A machine whose state is a family of slots: an input reads and moves the slot at its key only. -/
structure Keyed (S : Type u) (ι : Type v) (ο : Type w) (κ : Type*) (σ : Type*) where
  step : S → ι → S × ο
  key : ι → κ
  view : S → κ → σ
  frame : ∀ {s x k}, k ≠ key x → view (step s x).1 k = view s k
  reads : ∀ {s t x}, view s (key x) = view t (key x) →
    (step s x).2 = (step t x).2 ∧ view (step s x).1 (key x) = view (step t x).1 (key x)

namespace Keyed

variable {S : Type u} {ι : Type v} {ο : Type w} {κ σ : Type*}

/-- Each input with its answer. -/
def answers (M : Keyed S ι ο κ σ) : S → List ι → List (ι × ο)
  | _, [] => []
  | s, x :: xs => (x, (M.step s x).2) :: M.answers (M.step s x).1 xs

/-- The answers to the inputs that `own` picks. -/
def answersTo (M : Keyed S ι ο κ σ) (own : ι → Bool) (s : S) (xs : List ι) : List (ι × ο) :=
  (M.answers s xs).filter (own ·.1)

/-- The state after the inputs. -/
def after (M : Keyed S ι ο κ σ) (s : S) (xs : List ι) : S := xs.foldl (fun s x => (M.step s x).1) s

/-- The states look the same at these keys. -/
def Agree (M : Keyed S ι ο κ σ) (K : κ → Prop) (s t : S) : Prop := ∀ k, K k → M.view s k = M.view t k

variable {M : Keyed S ι ο κ σ} {K : κ → Prop} {own keep : ι → Bool} {s t : S} {x : ι}

theorem answersTo_cons {xs : List ι} : M.answersTo own s (x :: xs) =
    if own x then (x, (M.step s x).2) :: M.answersTo own (M.step s x).1 xs
    else M.answersTo own (M.step s x).1 xs := by
  cases h : own x <;> simp [answersTo, answers, h]

theorem answersTo_append {xs ys : List ι} :
    M.answersTo own s (xs ++ ys) = M.answersTo own s xs ++ M.answersTo own (M.after s xs) ys := by
  induction xs generalizing s with
  | nil => rfl
  | cons x xs ih =>
    rw [List.cons_append, answersTo_cons, answersTo_cons, ih]
    split <;> rfl

theorem answers_append {xs ys : List ι} : M.answers s (xs ++ ys) = M.answers s xs ++ M.answers (M.after s xs) ys := by
  induction xs generalizing s with
  | nil => rfl
  | cons x xs ih => exact congrArg (_ :: ·) ih

theorem after_append {xs ys : List ι} : M.after s (xs ++ ys) = M.after (M.after s xs) ys := List.foldl_append

/-- Inputs that `own` does not pick. -/
theorem answersTo_others {xs : List ι} (h : ∀ x ∈ xs, own x = false) : M.answersTo own s xs = [] := by
  induction xs generalizing s with
  | nil => rfl
  | cons x xs ih =>
    rw [answersTo_cons, h x List.mem_cons_self, ih fun y hy => h y (List.mem_cons_of_mem x hy)]
    rfl

/-- One input over and over fills its slot step by step. -/
theorem view_after_replicate {slot : Nat → σ} {n : Nat}
    (hfill : ∀ k < n, ∀ s, M.view s (M.key x) = slot k → M.view (M.step s x).1 (M.key x) = slot (k + 1))
    {k : Nat} (hk : k ≤ n) (h : M.view s (M.key x) = slot 0) :
    M.view (M.after s (List.replicate k x)) (M.key x) = slot k := by
  induction k with
  | zero => exact h
  | succ k ih =>
    rw [List.replicate_succ', after, List.foldl_concat]
    exact hfill k hk _ (ih (Nat.le_of_succ_le hk))

/-- What one machine does alone, at a key that nobody looks at, is not seen. -/
theorem Agree.alone (h : M.Agree K s t) (hx : ¬ K (M.key x)) : M.Agree K (M.step s x).1 t := by
  intro k hk
  rw [M.frame fun he => hx (he ▸ hk)]
  exact h k hk

theorem Agree.both (h : M.Agree K s t) : M.Agree K (M.step s x).1 (M.step t x).1 := by
  intro k hk
  by_cases he : k = M.key x
  · subst he
    exact (M.reads (h _ hk)).2
  · rw [M.frame he, M.frame he]
    exact h k hk

/-- Inputs at other keys may be left out: the answers stay what they were. -/
theorem answersTo_filter (hown : ∀ x, own x = true → K (M.key x))
    (hkeep : ∀ x, keep x = false → ¬ K (M.key x)) {xs : List ι} {s t : S} (h : M.Agree K s t) :
    M.answersTo own s xs = M.answersTo own t (xs.filter keep) := by
  induction xs generalizing s t with
  | nil => rfl
  | cons x xs ih =>
    cases hk : keep x with
    | true =>
      rw [List.filter_cons_of_pos hk, answersTo_cons, answersTo_cons, ih h.both]
      cases ho : own x with
      | true => rw [if_pos rfl, if_pos rfl, (M.reads (h _ (hown x ho))).1]
      | false => rfl
    | false =>
      have hnot : own x ≠ true := fun ho => hkeep x hk (hown x ho)
      rw [List.filter_cons_of_neg (by simp [hk]), answersTo_cons, if_neg hnot]
      exact ih (h.alone (hkeep x hk))

end Keyed

end EnterpriseCopilot.Lib
