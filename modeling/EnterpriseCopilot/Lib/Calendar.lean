import EnterpriseCopilot.Lib.Civil

/-! The dates that occur in the calendar, and on which days of the week. -/

namespace EnterpriseCopilot.Lib.Civil

/-- The days of a month, in the years where it has most. -/
def monthLength (month : Nat) : Nat := [31, 29, 31, 30, 31, 30, 31, 31, 30, 31, 30, 31].getD (month - 1) 0

/-- A month and a day that some year has. -/
structure Occurs (month day : Nat) : Prop where
  month_pos : 1 ≤ month
  month_le : month ≤ 12
  day_pos : 1 ≤ day
  day_le : day ≤ monthLength month

theorem monthDay_occurs (leap : Bool) {n : Nat} (h : n < 365) : Occurs (monthDay leap n).1 (monthDay leap n).2 := by
  have key : ∀ leap : Bool, ∀ n : Fin 365, (monthDay leap n).2 ≤ monthLength (monthDay leap n).1 := by
    decide +kernel
  obtain ⟨_, hm, hm', hd, _⟩ := monthDay_spec leap h
  exact ⟨hm, hm', hd, key leap ⟨n, h⟩⟩

theorem ofDays_occurs (n : Nat) : Occurs (ofDays n).month (ofDays n).day := by
  have december : Occurs 12 31 := ⟨by decide, by decide, by decide, by decide⟩
  unfold ofDays
  dsimp only
  split
  · exact december
  · exact monthDay_occurs _ (Nat.mod_lt _ (by decide))

/-- A day of the leap years 2004 to 2028. -/
theorem ofDays_leap {k rest : Nat} (hk : k < 7) (hrest : rest < 366) :
    ((ofDays (731580 + 1461 * k + rest)).month, (ofDays (731580 + 1461 * k + rest)).day) = monthDay true rest := by
  have hcycle : (731580 + 1461 * k + rest) % 146097 = 1095 + 1461 * k + rest := by omega
  have hcentury : (1095 + 1461 * k + rest) % 36524 = 1095 + 1461 * k + rest := by omega
  have hnone : (1095 + 1461 * k + rest) / 36524 = 0 := by omega
  have hyears : (1095 + 1461 * k + rest) % 1461 = 1095 + rest := by omega
  have hquarter : (1095 + 1461 * k + rest) / 1461 = k := by omega
  unfold ofDays
  simp only [hcycle, hcentury, hnone, hyears, hquarter]
  by_cases hlast : rest = 365
  · subst hlast
    rfl
  · have hthird : (1095 + rest) / 365 = 3 := by omega
    have hday : (1095 + rest) % 365 = rest := by omega
    have hleap : k ≠ 24 := by omega
    simp [hthird, hday, hleap]

/-- These years have every date on every day of the week. -/
theorem exists_ofDays {month day weekday : Nat} (h : Occurs month day) (hw : weekday < 7) :
    ∃ n < 3652059, n % 7 = weekday ∧ (ofDays n).month = month ∧ (ofDays n).day = day := by
  have key : ∀ month : Fin 12, ∀ day : Fin 31, day.val + 1 ≤ monthLength (month.val + 1) →
      daysBeforeMonth true (month.val + 1) + day.val < 366 ∧
        monthDay true (daysBeforeMonth true (month.val + 1) + day.val) = (month.val + 1, day.val + 1) := by
    decide +kernel
  have hlong : ∀ month < 12, monthLength (month + 1) ≤ 31 := by decide
  obtain ⟨month_pos, month_le, day_pos, day_le⟩ := h
  obtain ⟨m, rfl⟩ : ∃ m, month = m + 1 := ⟨month - 1, by omega⟩
  obtain ⟨d, rfl⟩ : ∃ d, day = d + 1 := ⟨day - 1, by omega⟩
  have hlen := hlong m (by omega)
  obtain ⟨hrest, hdate⟩ := key ⟨m, by omega⟩ ⟨d, by omega⟩ day_le
  dsimp only at hrest hdate
  generalize daysBeforeMonth true (m + 1) + d = rest at hrest hdate
  -- 1461 is 5 modulo 7, and 3 is its inverse
  obtain ⟨k, hk, hweek⟩ : ∃ k < 7, (731580 + 1461 * k + rest) % 7 = weekday :=
    ⟨3 * (weekday + 7 - (731580 + rest) % 7) % 7, by omega, by omega⟩
  have hleap := (ofDays_leap hk hrest).trans hdate
  exact ⟨_, by omega, hweek, congrArg Prod.fst hleap, congrArg Prod.snd hleap⟩

section Order

variable {n m : Nat} {leap : Bool}

def yearLength (leap : Bool) : Nat := if leap then 366 else 365

/-- The year of a day, and the place of the day in it. -/
theorem ofDays_year (n : Nat) : 1 ≤ (ofDays n).year ∧ ∃ rest < yearLength (isLeap (ofDays n).year),
    n = daysBeforeYear (ofDays n).year + rest ∧
      ((ofDays n).month, (ofDays n).day) = monthDay (isLeap (ofDays n).year) rest := by
  have h1 : n / 146097 * 146097 + n % 146097 = n := Nat.div_add_mod' n 146097
  have h2 := Nat.div_add_mod' (n % 146097) 36524
  have h3 := Nat.div_add_mod' (n % 146097 % 36524) 1461
  have h4 := Nat.div_add_mod' (n % 146097 % 36524 % 1461) 365
  have l1 : n % 146097 < 146097 := Nat.mod_lt _ (by decide)
  have l2 : n % 146097 % 36524 < 36524 := Nat.mod_lt _ (by decide)
  have l3 : n % 146097 % 36524 % 1461 < 1461 := Nat.mod_lt _ (by decide)
  have l4 : n % 146097 % 36524 % 1461 % 365 < 365 := Nat.mod_lt _ (by decide)
  unfold ofDays
  revert h1 h2 h3 h4 l1 l2 l3 l4
  generalize n / 146097 = a
  generalize n % 146097 = r1
  generalize r1 / 36524 = b
  generalize r1 % 36524 = r2
  generalize r2 / 1461 = c
  generalize r2 % 1461 = r3
  generalize r3 / 365 = d
  generalize r3 % 365 = r4
  rintro rfl rfl rfl rfl l1 l2 l3 l4
  -- the day that the cycles leave over is the last of a leap year
  have december : ∀ {year : Nat}, isLeap year = true →
      (12, 31) = monthDay (isLeap year) 365 ∧ 365 < yearLength (isLeap year) := by
    intro year hleap
    rw [hleap]
    decide
  dsimp only
  split
  · rename_i hlast
    rcases hlast with rfl | rfl
    · obtain rfl : r4 = 0 := by omega
      have hy : a * 400 + b * 100 + c * 4 + 4 + 1 - 1 = a * 400 + b * 100 + c * 4 + 3 + 1 := by
        omega
      have hleap : isLeap (a * 400 + b * 100 + c * 4 + 3 + 1) = true := by
        rw [isLeap_eq (by omega) (by omega) (le_refl 3)]
        have hshort : c ≠ 24 ∨ b = 3 := by omega
        simpa using hshort
      rw [hy]
      refine ⟨Nat.le_add_left _ _, 365, (december hleap).2, ?_, (december hleap).1⟩
      rw [daysBeforeYear_eq (by omega) (by omega) (le_refl 3)]
      ring
    · obtain ⟨rfl, rfl, rfl⟩ : c = 0 ∧ d = 0 ∧ r4 = 0 := by omega
      have hy : a * 400 + 4 * 100 + 0 * 4 + 0 + 1 - 1 = a * 400 + 3 * 100 + 24 * 4 + 3 + 1 := by
        omega
      have hleap : isLeap (a * 400 + 3 * 100 + 24 * 4 + 3 + 1) = true := by
        rw [isLeap_eq (le_refl 3) (le_refl 24) (le_refl 3)]
        rfl
      have hyear := daysBeforeYear_eq (a := a) (le_refl 3) (le_refl 24) (le_refl 3)
      rw [hy]
      dsimp only
      exact ⟨by omega, 365, (december hleap).2, by omega, (december hleap).1⟩
  · refine ⟨Nat.le_add_left _ _, r4, Nat.lt_of_lt_of_le l4 ?_, ?_, ?_⟩
    · unfold yearLength
      split <;> decide
    · rw [daysBeforeYear_eq (by omega) (by omega) (by omega)]
      ring
    · rw [isLeap_eq (by omega) (by omega) (by omega)]

theorem daysBeforeYear_succ {year : Nat} (h : 1 ≤ year) :
    daysBeforeYear (year + 1) = daysBeforeYear year + yearLength (isLeap year) := by
  obtain ⟨u, rfl⟩ := Nat.exists_eq_add_of_le' h
  have hleap : isLeap (u + 1) = true ↔ 4 ∣ u + 1 ∧ (¬ 100 ∣ u + 1 ∨ 400 ∣ u + 1) := by
    simp only [isLeap, Bool.and_eq_true, Bool.or_eq_true, beq_iff_eq, bne_iff_ne, Nat.dvd_iff_mod_eq_zero, ne_eq]
  have hhundred : 100 ∣ u + 1 → 4 ∣ u + 1 := (Nat.dvd_trans (by decide) ·)
  have hcycle : 400 ∣ u + 1 → 100 ∣ u + 1 := (Nat.dvd_trans (by decide) ·)
  have hquarter : u / 100 ≤ u / 4 := Nat.div_le_div_left (by decide) (by decide)
  simp only [daysBeforeYear, yearLength, Nat.add_sub_cancel, Nat.succ_div, hleap]
  generalize u / 4 = a at hquarter ⊢
  generalize u / 100 = b at hquarter ⊢
  generalize u / 400 = c
  split_ifs <;> grind

theorem daysBeforeYear_mono : Monotone daysBeforeYear := by
  refine monotone_nat_of_le_succ fun year => ?_
  cases year with
  | zero => decide
  | succ year => rw [daysBeforeYear_succ (Nat.le_add_left _ _)]; exact Nat.le_add_right _ _

/-- Within a year months and days go up day by day. -/
theorem monthDay_lt (hm : m < yearLength leap) (h : n < m) : (monthDay leap n).1 < (monthDay leap m).1 ∨
    (monthDay leap n).1 = (monthDay leap m).1 ∧ (monthDay leap n).2 < (monthDay leap m).2 := by
  have hdays : ∀ leap, ∀ n : Fin 366, (monthDay leap n).2 < 100 := by decide +kernel
  have hstep : ∀ leap, ∀ n : Fin 365, n.val + 1 < yearLength leap →
      (monthDay leap n).1 * 100 + (monthDay leap n).2 <
        (monthDay leap (n + 1)).1 * 100 + (monthDay leap (n + 1)).2 := by
    decide +kernel
  have hle : yearLength leap ≤ 366 := by
    unfold yearLength
    split <;> decide
  have hmono : (monthDay leap n).1 * 100 + (monthDay leap n).2 < (monthDay leap m).1 * 100 + (monthDay leap m).2 := by
    induction m, h using Nat.le_induction with
    | base => exact hstep leap ⟨n, by omega⟩ hm
    | succ m hnm ih => exact Nat.lt_trans (ih (Nat.lt_of_succ_lt hm)) (hstep leap ⟨m, by omega⟩ hm)
  have hn := hdays leap ⟨n, by omega⟩
  have hm' := hdays leap ⟨m, by omega⟩
  dsimp only at hn hm'
  omega

/-- Later days have later dates. -/
theorem ofDays_lt (h : n < m) : (ofDays n).year < (ofDays m).year ∨ (ofDays n).year = (ofDays m).year ∧
    ((ofDays n).month < (ofDays m).month ∨ (ofDays n).month = (ofDays m).month ∧ (ofDays n).day < (ofDays m).day) := by
  obtain ⟨hn, i, hi, hni, hdate⟩ := ofDays_year n
  obtain ⟨hm, j, hj, hmj, hdate'⟩ := ofDays_year m
  rcases Nat.lt_trichotomy (ofDays n).year (ofDays m).year with hlt | heq | hgt
  · exact .inl hlt
  · rw [heq] at hni hdate
    have hmonth := monthDay_lt hj (by omega : i < j)
    rw [← hdate, ← hdate'] at hmonth
    exact .inr ⟨heq, hmonth⟩
  · have hyears := daysBeforeYear_mono (Nat.succ_le_of_lt hgt)
    have hlength := daysBeforeYear_succ hm
    simp only [Nat.succ_eq_add_one] at hyears
    omega

end Order

end EnterpriseCopilot.Lib.Civil
