import Mathlib.Order.Bounds.Basic
import Mathlib.Order.Nat

/-! The next element of a set of numbers, within a horizon. -/

namespace EnterpriseCopilot.Lib

/-- The least element of the set among the `n` numbers from `c` on. -/
def Next (s : Set Nat) (n c i : Nat) : Prop := IsLeast {j | j ∈ s ∧ c ≤ j ∧ j < c + n} i

namespace Next

variable {s : Set Nat} {n c d i j : Nat}

theorem mem (h : Next s n c i) : i ∈ s := h.1.1

theorem le (h : Next s n c i) : c ≤ i := h.1.2.1

theorem lt (h : Next s n c i) : i < c + n := h.1.2.2

theorem unique (h : Next s n c i) (h' : Next s n c j) : i = j := IsLeast.unique h h'

/-- Nothing in between. -/
theorem not_mem (h : Next s n c i) (hc : c ≤ j) (hj : j < i) : j ∉ s :=
  fun hs => absurd (h.2 ⟨hs, hc, hj.trans h.lt⟩) (Nat.not_le_of_lt hj)

theorem self (hs : c ∈ s) (hn : 0 < n) : Next s n c c :=
  ⟨⟨hs, le_rfl, by omega⟩, fun _ hj => hj.2.1⟩

theorem eq_self (hs : c ∈ s) (h : Next s n c i) : i = c :=
  Nat.le_antisymm (h.2 ⟨hs, le_rfl, Nat.lt_of_le_of_lt h.le h.lt⟩) h.le

theorem not_zero : ¬ Next s 0 c i := fun h => absurd h.lt (Nat.not_lt_of_le h.le)

/-- A start that is not an element can be skipped. -/
theorem succ_iff (hs : c ∉ s) : Next s n (c + 1) i ↔ Next s (n + 1) c i := by
  have hset : {j | j ∈ s ∧ c + 1 ≤ j ∧ j < c + 1 + n} = {j | j ∈ s ∧ c ≤ j ∧ j < c + (n + 1)} := by
    ext j
    constructor
    · rintro ⟨hj, hle, hlt⟩
      exact ⟨hj, by omega, by omega⟩
    · rintro ⟨hj, hle, hlt⟩
      have hne : j ≠ c := fun h => hs (h ▸ hj)
      exact ⟨hj, by omega, by omega⟩
  rw [Next, Next, hset]

/-- There is a next element if there is any. -/
theorem exists_iff : (∃ i, Next s n c i) ↔ ∃ j ∈ s, c ≤ j ∧ j < c + n := by
  constructor
  · exact fun ⟨i, h⟩ => ⟨i, h.mem, h.le, h.lt⟩
  · rintro ⟨j, hj⟩
    classical
    exact ⟨Nat.find (p := fun i => i ∈ s ∧ c ≤ i ∧ i < c + n) ⟨j, hj⟩, Nat.find_spec ⟨j, hj⟩,
      fun k hk => Nat.find_min' ⟨j, hj⟩ hk⟩

/-- A later start has a later next element. -/
theorem mono (h : Next s n c i) (h' : Next s n d j) (hcd : c ≤ d) : i ≤ j := by
  by_cases hlt : j < c + n
  · exact h.2 ⟨h'.mem, hcd.trans h'.le, hlt⟩
  · exact (h.lt.trans_le (Nat.not_lt.mp hlt)).le

end Next

end EnterpriseCopilot.Lib
