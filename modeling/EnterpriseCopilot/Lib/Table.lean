import Mathlib.Data.List.Pairwise

universe u

namespace EnterpriseCopilot.Lib

/-- Rows in the order of insertion, no two of which clash: primary keys and unique
constraints are clash relations. -/
structure Table (ρ : Type u) (clash : ρ → ρ → Prop) where
  rows : List ρ
  apart : rows.Pairwise fun a b => ¬ clash a b

namespace Table

variable {ρ : Type u} {clash : ρ → ρ → Prop} {t u : Table ρ clash} {row a b : ρ}

def empty : Table ρ clash := ⟨[], .nil⟩

/-- The row clashes with one that is there. -/
def Conflicts (t : Table ρ clash) (row : ρ) : Prop := ∃ r ∈ t.rows, clash r row

instance [DecidableRel clash] (t : Table ρ clash) (row : ρ) : Decidable (t.Conflicts row) :=
  inferInstanceAs (Decidable (∃ r ∈ t.rows, clash r row))

/-- `INSERT`, which fails on a clash. -/
def insert? [DecidableRel clash] (t : Table ρ clash) (row : ρ) : Option (Table ρ clash) :=
  if h : t.Conflicts row then none
  else some ⟨t.rows ++ [row], by
    refine List.pairwise_append.mpr ⟨t.apart, List.pairwise_singleton _ _, fun a ha b hb => ?_⟩
    obtain rfl := List.mem_singleton.mp hb
    exact fun hc => h ⟨a, ha, hc⟩⟩

theorem insert?_eq_some [DecidableRel clash] :
    t.insert? row = some u ↔ ¬ t.Conflicts row ∧ u.rows = t.rows ++ [row] := by
  unfold insert?
  split
  · rename_i h
    simp [h]
  · rename_i h
    simp only [Option.some.injEq, h, not_false_eq_true, true_and]
    constructor
    · rintro rfl
      rfl
    · intro hu
      cases u
      cases hu
      rfl

theorem insert?_eq_none [DecidableRel clash] : t.insert? row = none ↔ t.Conflicts row := by
  unfold insert?
  split <;> rename_i h <;> simp [h]

/-- Rows that clash are one row. -/
theorem eq_of_clash (hsymm : ∀ a b, clash a b → clash b a) (ha : a ∈ t.rows) (hb : b ∈ t.rows)
    (h : clash a b) : a = b := by
  by_contra hne
  have hs : Std.Symm fun a b : ρ => ¬ clash a b := ⟨fun a b hab hba => hab (hsymm b a hba)⟩
  exact List.Pairwise.forall t.apart ha hb hne h

/-- Change rows in a way that keeps what the constraints look at. -/
def update (t : Table ρ clash) (f : ρ → ρ) (hf : ∀ a b, clash (f a) (f b) → clash a b) :
    Table ρ clash :=
  ⟨t.rows.map f, List.pairwise_map.mpr (t.apart.imp fun hab hc => hab (hf _ _ hc))⟩

/-- `DELETE`: keep the rows of which the predicate is true. -/
def filter (t : Table ρ clash) (p : ρ → Bool) : Table ρ clash :=
  ⟨t.rows.filter p, t.apart.filter p⟩

end Table

end EnterpriseCopilot.Lib
