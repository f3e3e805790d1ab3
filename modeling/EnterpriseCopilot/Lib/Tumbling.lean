import EnterpriseCopilot.Lib.Sliding

/-! Events counted in windows that open one after the other. -/

namespace EnterpriseCopilot.Lib.Tumbling

open Sliding

variable {T : Type*} [LinearOrder T] [AddCommGroup T]

/-- The events of the earlier windows and of the one that opened at `start`, of which `count` were asked for. -/
structure Filled (bound : Nat) (w start : T) (count : Nat) (earlier current : List T) : Prop where
  past : ∀ x ∈ earlier, x ≤ start
  present : ∀ x ∈ current, start ≤ x
  full : current.length ≤ min bound count
  /-- The first that was asked for is one at `start`. -/
  inner : (current.filter (start < ·)).length ≤ min bound count - 1
  spread : ∀ t, (window w t earlier).length ≤ 2 * bound - 1
  overlap : ∀ t, start ≤ t → (window w t earlier).length ≤ bound - 1

variable {bound count : Nat} {w start now : T} {earlier current : List T}

theorem window_length_append (t : T) : (window w t (earlier ++ current)).length =
    (window w t earlier).length + (window w t current).length := by
  rw [window, List.filter_append, List.length_append]
  rfl

/-- A window of the same length meets at most two of them, and of the first not its opening. -/
theorem Filled.bounded (h : Filled bound w start count earlier current) (t : T) :
    (window w t (earlier ++ current)).length ≤ 2 * bound - 1 := by
  rw [window_length_append]
  by_cases ht : start ≤ t
  · have hcurrent : (window w t current).length ≤ current.length := List.length_filter_le _ _
    have hearlier := h.overlap t ht
    have hfull := h.full
    omega
  · have hempty : window w t current = [] := by
      refine List.filter_eq_nil_iff.mpr fun x hx hin => ht ?_
      exact (h.present x hx).trans (decide_eq_true_eq.mp hin).2
    rw [hempty]
    exact h.spread t

/-- One more is asked for, in vain. -/
theorem Filled.more (h : Filled bound w start count earlier current) :
    Filled bound w start (count + 1) earlier current :=
  { h with full := h.full.trans (by omega), inner := h.inner.trans (by omega) }

/-- One more event, if the window has room for it. -/
theorem Filled.push (h : Filled bound w start count earlier current) (hnow : start ≤ now) (hcount : 1 ≤ count)
    (hroom : count + 1 ≤ bound) : Filled bound w start (count + 1) earlier (current ++ [now]) where
  past := h.past
  present x hx := by
    obtain hx | hx := List.mem_append.mp hx
    · exact h.present x hx
    · rw [List.mem_singleton.mp hx]
      exact hnow
  full := by
    have hfull := h.full
    rw [List.length_append, List.length_singleton]
    omega
  inner := by
    have hinner := h.inner
    have hone : ([now].filter (start < ·)).length ≤ 1 := List.length_filter_le _ _
    rw [List.filter_append, List.length_append]
    omega
  spread := h.spread
  overlap := h.overlap

variable [IsOrderedAddMonoid T]

/-- The next window opens after the end of this one. -/
theorem Filled.reopen (h : Filled bound w start count earlier current) (hlate : start + w < now) (hw : 0 ≤ w)
    (hpast : ∀ x ∈ current, x ≤ now) {opening : List T} (hopening : opening = [] ∨ opening = [now]) (hbound : 1 ≤ bound) :
    Filled bound w now 1 (earlier ++ current) opening where
  past x hx := by
    obtain hx | hx := List.mem_append.mp hx
    · exact (h.past x hx).trans ((le_add_of_nonneg_right hw).trans hlate.le)
    · exact hpast x hx
  present := by
    obtain rfl | rfl := hopening <;> simp
  full := by
    obtain rfl | rfl := hopening <;> simp [hbound]
  inner := by
    obtain rfl | rfl := hopening <;> simp
  spread := h.bounded
  overlap t ht := by
    rw [window_length_append]
    have hstart : start < t - w := lt_sub_iff_add_lt.mpr (hlate.trans_le ht)
    have hearlier : window w t earlier = [] := by
      refine List.filter_eq_nil_iff.mpr fun x hx hin => ?_
      exact absurd ((decide_eq_true_eq.mp hin).1.trans_le (h.past x hx)) hstart.not_gt
    -- what the window counts of the last one came after its opening
    have hcurrent : (window w t current).length ≤ (current.filter (start < ·)).length := by
      rw [window, ← List.countP_eq_length_filter, ← List.countP_eq_length_filter]
      refine List.countP_mono_left fun x _ hin => ?_
      simp only [decide_eq_true_eq] at hin ⊢
      exact hstart.trans hin.1
    have hinner := h.inner
    rw [hearlier, List.length_nil]
    omega

omit [IsOrderedAddMonoid T] in
/-- The first window. -/
theorem Filled.first {opening : List T} (hopening : opening = [] ∨ opening = [now]) (hbound : 1 ≤ bound) :
    Filled bound w now 1 [] opening where
  past := by simp
  present := by
    obtain rfl | rfl := hopening <;> simp
  full := by
    obtain rfl | rfl := hopening <;> simp [hbound]
  inner := by
    obtain rfl | rfl := hopening <;> simp
  spread _ := Nat.zero_le _
  overlap _ _ := Nat.zero_le _

end EnterpriseCopilot.Lib.Tumbling
