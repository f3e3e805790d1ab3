import Mathlib.Data.List.Basic

/-! Records of a key and a mark of fixed length, one after the other without anything in between. -/

namespace EnterpriseCopilot.Lib.Records

variable {α : Type} {sign : α → Prop} {n : Nat} {a b : List α}

/-- The second key is the first one followed by signs: as many as a mark has, or fewer if it ends there. -/
def RunsOn (sign : α → Prop) (n : Nat) (a b : List α) : Prop :=
  ∃ rest, rest ≠ [] ∧ b = a ++ rest ∧ ∀ c ∈ rest.take n, sign c

/-- At no place the key of one list runs on where that of the other one ends. -/
def Apart (sign : α → Prop) (n : Nat) (keys keys' : List (List α)) : Prop :=
  ∀ x ∈ keys.zip keys', ¬ RunsOn sign n x.1 x.2 ∧ ¬ RunsOn sign n x.2 x.1

structure Mark (sign : α → Prop) (n : Nat) (mark : List α) : Prop where
  length : mark.length = n
  signs : ∀ c ∈ mark, sign c

def joined (records : List (List α × List α)) : List α := records.flatMap fun x => x.1 ++ x.2

theorem not_runsOn_self : ¬ RunsOn sign n a a := by
  rintro ⟨rest, hrest, h, _⟩
  exact hrest (List.self_eq_append_right.mp h)

theorem apart_self (keys : List (List α)) : Apart sign n keys keys := by
  induction keys with
  | nil => exact fun _ hx => absurd hx List.not_mem_nil
  | cons key keys ih => exact List.forall_mem_cons.mpr ⟨⟨not_runsOn_self, not_runsOn_self⟩, ih⟩

/-- Where one key is longer than the other, the mark after the short one begins what it goes on with. -/
theorem runsOn_of_append {mark rest after more : List α} (hmark : Mark sign n mark) (hrest : rest ≠ [])
    (hb : b = a ++ rest) (h : mark ++ after = rest ++ more) : RunsOn sign n a b := by
  refine ⟨rest, hrest, hb, fun c hc => hmark.signs c ?_⟩
  have htake : mark = (rest ++ more).take n := by
    rw [← h, List.take_left' hmark.length]
  rw [htake, List.take_append]
  exact List.mem_append_left _ hc

/-- Records can be read back from where they are joined, if at no place one key runs on where the other ends. -/
theorem joined_inj (hn : 0 < n) {xs ys : List (List α × List α)} (hx : ∀ x ∈ xs, Mark sign n x.2)
    (hy : ∀ y ∈ ys, Mark sign n y.2) (hapart : Apart sign n (xs.map Prod.fst) (ys.map Prod.fst))
    (h : joined xs = joined ys) : xs = ys := by
  have hnil : ∀ {x : List α × List α} {xs}, Mark sign n x.2 → joined (x :: xs) ≠ [] := by
    intro x xs hmark hj
    have hlen := hmark.length
    simp only [joined, List.flatMap_cons, List.append_eq_nil_iff] at hj
    rw [hj.1.2, List.length_nil] at hlen
    omega
  induction xs generalizing ys with
  | nil =>
    cases ys with
    | nil => rfl
    | cons y ys => exact absurd h.symm (hnil (hy y (List.mem_cons_self)))
  | cons x xs ih =>
    cases ys with
    | nil => exact absurd h (hnil (hx x (List.mem_cons_self)))
    | cons y ys =>
      obtain ⟨key, mark⟩ := x
      obtain ⟨key', mark'⟩ := y
      obtain ⟨hmark, hxs⟩ := List.forall_mem_cons.mp hx
      obtain ⟨hmark', hys⟩ := List.forall_mem_cons.mp hy
      obtain ⟨⟨hfwd, hbwd⟩, hrest⟩ := List.forall_mem_cons.mp hapart
      simp only [joined, List.flatMap_cons, List.append_assoc] at h
      have hkey : key = key' := by
        obtain ⟨rest, hk, hr⟩ | ⟨rest, hk, hr⟩ := List.append_eq_append_iff.mp h
        · by_contra hne
          exact hfwd (runsOn_of_append hmark (by rintro rfl; exact hne (by simpa using hk.symm)) hk hr)
        · by_contra hne
          exact hbwd (runsOn_of_append hmark' (by rintro rfl; exact hne (by simpa using hk)) hk hr)
      subst hkey
      obtain ⟨rfl, htail⟩ := List.append_inj (List.append_cancel_left h) (hmark.length.trans hmark'.length.symm)
      rw [ih hxs hys hrest htail]

/-- For records that are joined to the same list, this is when they are the same. -/
theorem joined_eq_iff (hn : 0 < n) {xs ys : List (List α × List α)} (hx : ∀ x ∈ xs, Mark sign n x.2)
    (hy : ∀ y ∈ ys, Mark sign n y.2) (h : joined xs = joined ys) :
    xs = ys ↔ Apart sign n (xs.map Prod.fst) (ys.map Prod.fst) :=
  ⟨fun heq => heq ▸ apart_self _, fun hapart => joined_inj hn hx hy hapart h⟩

end EnterpriseCopilot.Lib.Records
