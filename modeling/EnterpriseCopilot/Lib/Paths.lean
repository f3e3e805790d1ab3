import Mathlib.Data.List.Nodup

namespace EnterpriseCopilot.Lib.Paths

variable {κ α : Type} {p q r : List κ} {xs ys : List (List κ × α)}

/-- Neither of the paths leads to the other. -/
def Apart (p q : List κ) : Prop := ¬ p <+: q ∧ ¬ q <+: p

theorem Apart.symm (h : Apart p q) : Apart q p := ⟨h.2, h.1⟩

/-- Nothing lies below both. -/
theorem Apart.not_prefix (h : Apart p q) (hr : p <+: r) : ¬ q <+: r := fun hq =>
  (List.prefix_or_prefix_of_prefix hr hq).elim h.1 h.2

theorem Apart.ne (h : Apart p q) : p ≠ q := fun heq => h.1 (heq ▸ List.prefix_refl _)

theorem Apart.append_right (h : Apart p q) (r : List κ) : Apart p (q ++ r) :=
  ⟨fun hp => h.not_prefix hp (List.prefix_append _ _), fun hq => h.2 ((List.prefix_append _ _).trans hq)⟩

theorem Apart.append (h : Apart p q) (r : List κ) : Apart (r ++ p) (r ++ q) :=
  ⟨fun hp => h.1 ((List.prefix_append_right_inj r).mp hp),
    fun hq => h.2 ((List.prefix_append_right_inj r).mp hq)⟩

theorem apart_of_head {a b : κ} (h : a ≠ b) : Apart (a :: p) (b :: q) :=
  ⟨fun hp => h (List.cons_prefix_cons.mp hp).1, fun hq => h (List.cons_prefix_cons.mp hq).1.symm⟩

/-- Entries moved below a path. -/
def under (p : List κ) (xs : List (List κ × α)) : List (List κ × α) := xs.map fun x => (p ++ x.1, x.2)

theorem mem_under {a : α} : (q, a) ∈ under p xs ↔ ∃ r, q = p ++ r ∧ (r, a) ∈ xs := by
  unfold under
  constructor
  · intro h
    obtain ⟨⟨r, b⟩, hx, heq⟩ := List.mem_map.mp h
    cases heq
    exact ⟨r, rfl, hx⟩
  · rintro ⟨r, rfl, hx⟩
    exact List.mem_map.mpr ⟨_, hx, rfl⟩

theorem nodup_under (h : (xs.map Prod.fst).Nodup) : ((under p xs).map Prod.fst).Nodup := by
  have hkeys : (under p xs).map Prod.fst = (xs.map Prod.fst).map (p ++ ·) := by
    rw [under, List.map_map, List.map_map]
    rfl
  rw [hkeys]
  exact h.map (List.append_right_injective p)

section Parts

variable [DecidableEq κ]

/-- The entries strictly below a path, under their names from there. -/
def below (p : List κ) (xs : List (List κ × α)) : List (List κ × α) :=
  xs.filterMap fun x => if p <+: x.1 ∧ p ≠ x.1 then some (x.1.drop p.length, x.2) else none

/-- The entries that are neither at a path nor below it. -/
def without (p : List κ) (xs : List (List κ × α)) : List (List κ × α) :=
  xs.filter fun x => ¬ p <+: x.1

theorem mem_below {a : α} : (q, a) ∈ below p xs ↔ q ≠ [] ∧ (p ++ q, a) ∈ xs := by
  unfold below
  constructor
  · intro h
    obtain ⟨x, hx, heq⟩ := List.mem_filterMap.mp h
    split at heq
    · rename_i hp
      obtain ⟨⟨s, hs⟩, hne⟩ := hp
      obtain ⟨path, b⟩ := x
      obtain rfl : p ++ s = path := hs
      simp only [List.drop_left, Option.some.injEq, Prod.mk.injEq] at heq
      obtain ⟨rfl, rfl⟩ := heq
      exact ⟨fun hnil => hne (by simp [hnil]), hx⟩
    · cases heq
  · rintro ⟨hne, hx⟩
    refine List.mem_filterMap.mpr ⟨_, hx, ?_⟩
    rw [if_pos ⟨List.prefix_append _ _, by simpa using hne⟩]
    simp

theorem mem_without {x : List κ × α} : x ∈ without p xs ↔ x ∈ xs ∧ ¬ p <+: x.1 := by
  simp [without]

@[simp] theorem below_append : below p (xs ++ ys) = below p xs ++ below p ys := List.filterMap_append

@[simp] theorem without_append : without p (xs ++ ys) = without p xs ++ without p ys :=
  List.filter_append ..

theorem below_cons_self (a : α) : below p ((p, a) :: xs) = below p xs := by
  simp [below]

theorem below_cons_apart (a : α) (h : ¬ q <+: p) : below q ((p, a) :: xs) = below q xs := by
  simp [below, h]

theorem below_eq_nil (h : ∀ x ∈ xs, p <+: x.1 → p = x.1) : below p xs = [] := by
  refine List.filterMap_eq_nil_iff.mpr fun x hx => ?_
  rw [if_neg fun hp => hp.2 (h x hx hp.1)]

/-- What lies below a path that was put there. -/
theorem below_under (hne : ∀ x ∈ xs, x.1 ≠ []) : below p (under p xs) = xs := by
  rw [below, under, List.filterMap_map]
  conv_rhs => rw [← List.filterMap_some (l := xs)]
  refine List.filterMap_congr fun x hx => ?_
  have hstrict : p ≠ p ++ x.1 := by simpa using hne x hx
  simp [Function.comp, hstrict]

theorem below_under_apart (h : Apart p q) : below q (under p xs) = [] := by
  refine below_eq_nil fun x hx hq => absurd hq ?_
  obtain ⟨y, _, rfl⟩ := List.mem_map.mp hx
  exact h.not_prefix (List.prefix_append _ _)

theorem below_without_apart (h : Apart p q) : below q (without p xs) = below q xs := by
  rw [below, below, without, List.filterMap_filter]
  refine List.filterMap_congr fun x _ => ?_
  by_cases hq : q <+: x.1
  · simp [h.symm.not_prefix hq]
  · simp [hq]

/-- Taking out a part leaves the table above it without that part. -/
theorem below_without_append : below p (without (p ++ q) xs) = without q (below p xs) := by
  rw [below, below, without, without, List.filterMap_filter, List.filter_filterMap]
  refine List.filterMap_congr fun x _ => ?_
  by_cases hp : p <+: x.1
  · obtain ⟨r, hr⟩ := hp
    simp only [← hr, List.prefix_append_right_inj, List.prefix_append, List.drop_left, true_and]
    by_cases hr : r = []
    · simp [hr]
    · by_cases hq : q <+: r <;> simp [hr, hq, Option.filter]
  · have hpq : ¬ p ++ q <+: x.1 := fun h => hp ((List.prefix_append _ _).trans h)
    simp [hp, hpq]

/-- A part that was put into a table. -/
theorem below_under_append (hq : q ≠ []) : below p (under (p ++ q) xs) = under q xs := by
  rw [below, under, under, List.filterMap_map, ← List.filterMap_eq_map]
  refine List.filterMap_congr fun x _ => ?_
  simp [Function.comp, hq]

theorem without_eq_self (h : ∀ x ∈ xs, ¬ p <+: x.1) : without p xs = xs := by
  rw [without, List.filter_eq_self]
  exact fun x hx => by simpa using h x hx

@[simp] theorem without_cons_self (a : α) : without p ((p, a) :: xs) = without p xs := by
  simp [without]

@[simp] theorem without_under : without p (under p xs) = [] := by
  refine List.filter_eq_nil_iff.mpr fun x hx => ?_
  obtain ⟨y, _, rfl⟩ := List.mem_map.mp hx
  simp

theorem below_below : below q (below p xs) = below (p ++ q) xs := by
  rw [below, below, below, List.filterMap_filterMap]
  refine List.filterMap_congr fun x _ => ?_
  by_cases hp : p <+: x.1
  · obtain ⟨r, hr⟩ := hp
    simp only [← hr, List.prefix_append, List.prefix_append_right_inj, List.drop_left, List.length_append]
    by_cases hr : r = []
    · subst hr
      by_cases hq : q = [] <;> simp [hq]
    · by_cases hq : q <+: r ∧ q ≠ r <;> simp [hr, hq]
  · have hpq : ¬ p ++ q <+: x.1 := fun h => hp ((List.prefix_append _ _).trans h)
    simp [hp, hpq]

theorem nodup_below (h : (xs.map Prod.fst).Nodup) : ((below p xs).map Prod.fst).Nodup := by
  refine List.Nodup.map_on ?_ ?_
  · rintro ⟨q, a⟩ hx ⟨r, b⟩ hy rfl
    have heq := List.inj_on_of_nodup_map h (mem_below.mp hx).2 (mem_below.mp hy).2 rfl
    cases heq
    rfl
  · refine (List.Nodup.of_map _ h).filterMap ?_
    rintro ⟨q, a⟩ ⟨r, b⟩ c hc hd
    simp only [Option.mem_def, Option.ite_none_right_eq_some, Option.some.injEq] at hc hd
    obtain ⟨⟨hq, _⟩, rfl⟩ := hc
    obtain ⟨⟨hr, _⟩, heq⟩ := hd
    obtain ⟨hdrop, rfl⟩ := Prod.mk.inj heq
    obtain ⟨s, rfl⟩ := hq
    obtain ⟨t, rfl⟩ := hr
    simpa using hdrop.symm

theorem nodup_without (h : (xs.map Prod.fst).Nodup) : ((without p xs).map Prod.fst).Nodup :=
  h.sublist (List.filter_sublist.map _)

end Parts

end EnterpriseCopilot.Lib.Paths
