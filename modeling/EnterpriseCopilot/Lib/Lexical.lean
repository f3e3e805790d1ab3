/-! Texts that differ before either of them ends. -/

namespace EnterpriseCopilot.Lib

section Precedes

variable {α β : Type} [LT α] [LT β] {xs ys tail tail' : List α} {a b : α}

/-- The first elements in which the lists differ decide between them. -/
def Precedes (xs ys : List α) : Prop :=
  ∃ front a b rest rest', a < b ∧ xs = front ++ a :: rest ∧ ys = front ++ b :: rest'

theorem Precedes.here (h : a < b) : Precedes (a :: tail) (b :: tail') := ⟨[], a, b, tail, tail', h, rfl, rfl⟩

/-- What follows does not matter. -/
theorem Precedes.append (h : Precedes xs ys) : Precedes (xs ++ tail) (ys ++ tail') := by
  obtain ⟨front, a, b, rest, rest', hab, rfl, rfl⟩ := h
  exact ⟨front, a, b, rest ++ tail, rest' ++ tail', hab, by simp, by simp⟩

/-- Nor does what both start with. -/
theorem Precedes.after (front : List α) (h : Precedes xs ys) : Precedes (front ++ xs) (front ++ ys) := by
  obtain ⟨front', a, b, rest, rest', hab, rfl, rfl⟩ := h
  exact ⟨front ++ front', a, b, rest, rest', hab, by simp, by simp⟩

theorem Precedes.cons (a : α) (h : Precedes xs ys) : Precedes (a :: xs) (a :: ys) := h.after [a]

/-- It is kept by maps that keep the order of the elements. -/
theorem Precedes.map {f : α → β} (h : Precedes xs ys) (hf : ∀ a ∈ xs, ∀ b ∈ ys, a < b → f a < f b) :
    Precedes (xs.map f) (ys.map f) := by
  obtain ⟨front, a, b, rest, rest', hab, rfl, rfl⟩ := h
  exact ⟨front.map f, f a, f b, rest.map f, rest'.map f, hf a (by simp) b (by simp) hab, by simp, by simp⟩

theorem Precedes.lt (h : Precedes xs ys) : xs < ys := by
  obtain ⟨front, a, b, rest, rest', hab, rfl, rfl⟩ := h
  exact List.append_left_lt (.rel hab)

theorem Precedes.not_lt [Std.Asymm (α := α) (· < ·)] (h : Precedes xs ys) : ¬ ys < xs := List.lt_asymm h.lt

end Precedes

end EnterpriseCopilot.Lib
