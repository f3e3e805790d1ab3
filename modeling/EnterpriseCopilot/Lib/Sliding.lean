import Mathlib.Algebra.Order.Group.Defs
import Mathlib.Data.List.Pairwise

/-! Events counted in a sliding window. -/

namespace EnterpriseCopilot.Lib.Sliding

variable {T : Type*} [LinearOrder T]

theorem dropWhile_eq_filter {cutoff : T} {events : List T} (h : events.Pairwise (· ≤ ·)) :
    events.dropWhile (· ≤ cutoff) = events.filter (cutoff < ·) := by
  induction events with
  | nil => rfl
  | cons x events ih =>
    rw [List.pairwise_cons] at h
    by_cases hx : x ≤ cutoff
    · rw [List.dropWhile_cons_of_pos (by simpa using hx), List.filter_cons_of_neg (by simpa using hx)]
      exact ih h.2
    · have hall : ∀ y ∈ x :: events, decide (cutoff < y) = true := by
        simp only [List.forall_mem_cons, decide_eq_true_eq]
        exact ⟨not_le.mp hx, fun y hy => (not_le.mp hx).trans_le (h.1 y hy)⟩
      rw [List.dropWhile_cons_of_neg (by simpa using hx), List.filter_eq_self.mpr hall]

variable [AddCommGroup T]

/-- The events in the interval of length `w` up to and including `t`. -/
def window (w t : T) (events : List T) : List T := events.filter fun x => t - w < x ∧ x ≤ t

theorem window_sublist {w t : T} {times events : List T} (h : times.Sublist events) :
    (window w t times).length ≤ (window w t events).length := (h.filter _).length_le

/-- The events so far and those that are kept: the later ones, up to `bound` in every window. -/
structure Held (bound : Nat) (w last : T) (events kept : List T) : Prop where
  sorted : events.Pairwise (· ≤ ·)
  past : ∀ x ∈ events, x ≤ last
  kept : kept = events.filter (last - w < ·)
  bounded : ∀ t, (window w t events).length ≤ bound

variable {bound : Nat} {w last now : T} {events kept : List T}

theorem Held.nil : Held bound w last [] [] := ⟨.nil, by simp, rfl, fun _ => Nat.zero_le _⟩

theorem Held.kept_sorted (h : Held bound w last events kept) : kept.Pairwise (· ≤ ·) := by
  rw [h.kept]
  exact h.sorted.filter _

/-- What is kept is what the window up to the last event counts. -/
theorem Held.kept_eq (h : Held bound w last events kept) : kept = window w last events := by
  rw [h.kept]
  refine List.filter_congr fun x hx => ?_
  simp [h.past x hx]

theorem Held.kept_length (h : Held bound w last events kept) : kept.length ≤ bound := by
  rw [h.kept_eq]
  exact h.bounded last

theorem Held.later (h : Held bound w last events kept) (hnow : last ≤ now) :
    Held bound w now events (window w now events) where
  sorted := h.sorted
  past x hx := (h.past x hx).trans hnow
  kept := by
    refine List.filter_congr fun x hx => ?_
    simp [(h.past x hx).trans hnow]
  bounded := h.bounded

variable [IsOrderedAddMonoid T]

/-- Removing the old events from the front leaves the window up to now. -/
theorem Held.evict (h : Held bound w last events kept) (hnow : last ≤ now) :
    kept.dropWhile (· ≤ now - w) = window w now events := by
  rw [dropWhile_eq_filter h.kept_sorted, h.kept, List.filter_filter]
  refine List.filter_congr fun x hx => ?_
  have hpast : x ≤ now := (h.past x hx).trans hnow
  have hlast : now - w < x → last - w < x := (sub_le_sub_right hnow w).trans_lt
  by_cases hx' : now - w < x
  · simp [hx', hpast, hlast hx']
  · simp [hx']

/-- One more event, if the window has room for it. -/
theorem Held.push (h : Held bound w last events kept) (hnow : last ≤ now) (hw : 0 < w)
    (hroom : (window w now events).length < bound) :
    Held bound w now (events ++ [now]) (window w now events ++ [now]) where
  sorted := by
    rw [List.pairwise_append]
    refine ⟨h.sorted, List.pairwise_singleton _ _, fun x hx y hy => ?_⟩
    rw [List.mem_singleton.mp hy]
    exact (h.past x hx).trans hnow
  past x hx := by
    obtain hx | hx := List.mem_append.mp hx
    · exact (h.past x hx).trans hnow
    · exact (List.mem_singleton.mp hx).le
  kept := by
    rw [List.filter_append, (h.later hnow).kept]
    simp [hw]
  bounded t := by
    rw [window, List.filter_append, List.length_append]
    by_cases ht : now ≤ t
    · -- what this window counts of the earlier events is also in the one up to now
      have hsub : (events.filter fun x => t - w < x ∧ x ≤ t).length ≤ (window w now events).length := by
        rw [window, ← List.countP_eq_length_filter, ← List.countP_eq_length_filter]
        refine List.countP_mono_left fun x hx hin => ?_
        simp only [decide_eq_true_eq] at hin ⊢
        exact ⟨(sub_le_sub_right ht w).trans_lt hin.1, (h.past x hx).trans hnow⟩
      have hone : ([now].filter fun x => t - w < x ∧ x ≤ t).length ≤ 1 := List.length_filter_le _ _
      omega
    · have hout : ([now].filter fun x => t - w < x ∧ x ≤ t) = [] := by
        simp [ht]
      rw [hout]
      exact h.bounded t

end EnterpriseCopilot.Lib.Sliding
