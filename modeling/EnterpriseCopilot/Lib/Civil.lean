import Mathlib.Tactic.Ring

/-! The proleptic Gregorian calendar: days counted from 0001-01-01 and dates. -/

namespace EnterpriseCopilot.Lib.Civil

structure Date where
  year : Nat
  month : Nat
  day : Nat
  deriving DecidableEq, Repr

def isLeap (year : Nat) : Bool := year % 4 == 0 && (year % 100 != 0 || year % 400 == 0)

def daysBeforeYear (year : Nat) : Nat :=
  (year - 1) * 365 + (year - 1) / 4 - (year - 1) / 100 + (year - 1) / 400

/-- Days of the year before the first of the month. -/
def daysBeforeMonth (leap : Bool) (month : Nat) : Nat :=
  [0, 0, 31, 59, 90, 120, 151, 181, 212, 243, 273, 304, 334].getD month 0 +
    if leap && 2 < month then 1 else 0

/-- The number of days from 0001-01-01 to the date. -/
def toDays (d : Date) : Nat :=
  daysBeforeYear d.year + daysBeforeMonth (isLeap d.year) d.month + (d.day - 1)

/-- Month and day of the `n`-th day of a year, counted from 0.  The estimate of
the month is at most one too large. -/
def monthDay (leap : Bool) (n : Nat) : Nat × Nat :=
  let month := (n + 50) / 32
  if daysBeforeMonth leap month > n then
    (month - 1, n - daysBeforeMonth leap (month - 1) + 1)
  else (month, n - daysBeforeMonth leap month + 1)

/-- The date `n` days after 0001-01-01, by cycles of 400, 100, 4 and 1 years. -/
def ofDays (n : Nat) : Date :=
  let n400 := n / 146097
  let n100 := n % 146097 / 36524
  let n4 := n % 146097 % 36524 / 1461
  let n1 := n % 146097 % 36524 % 1461 / 365
  let rest := n % 146097 % 36524 % 1461 % 365
  let year := n400 * 400 + n100 * 100 + n4 * 4 + n1 + 1
  if n1 = 4 ∨ n100 = 4 then ⟨year - 1, 12, 31⟩
  else
    let md := monthDay (n1 = 3 && (n4 ≠ 24 || n100 = 3)) rest
    ⟨year, md.1, md.2⟩

theorem monthDay_spec (leap : Bool) {n : Nat} (h : n < 365) :
    daysBeforeMonth leap (monthDay leap n).1 + ((monthDay leap n).2 - 1) = n ∧
      1 ≤ (monthDay leap n).1 ∧ (monthDay leap n).1 ≤ 12 ∧
      1 ≤ (monthDay leap n).2 ∧ (monthDay leap n).2 ≤ 31 := by
  have key : ∀ leap : Bool, ∀ n : Fin 365,
      daysBeforeMonth leap (monthDay leap n).1 + ((monthDay leap n).2 - 1) = n ∧
      1 ≤ (monthDay leap n).1 ∧ (monthDay leap n).1 ≤ 12 ∧
      1 ≤ (monthDay leap n).2 ∧ (monthDay leap n).2 ≤ 31 := by
    decide +kernel
  exact key leap ⟨n, h⟩

theorem daysBeforeYear_eq {a b c d : Nat} (hb : b ≤ 3) (hc : c ≤ 24) (hd : d ≤ 3) :
    daysBeforeYear (a * 400 + b * 100 + c * 4 + d + 1) =
      a * 146097 + b * 36524 + c * 1461 + d * 365 := by
  simp only [daysBeforeYear]
  omega

theorem isLeap_eq {a b c d : Nat} (hb : b ≤ 3) (hc : c ≤ 24) (hd : d ≤ 3) :
    isLeap (a * 400 + b * 100 + c * 4 + d + 1) = (d = 3 && (c ≠ 24 || b = 3)) := by
  rw [Bool.eq_iff_iff]
  simp only [isLeap, Bool.and_eq_true, Bool.or_eq_true, beq_iff_eq, bne_iff_ne,
    decide_eq_true_eq]
  omega

/-- The last day of a leap year is the one the cycles leave over. -/
theorem toDays_december {a b c : Nat} (hb : b ≤ 3) (hc : c ≤ 24) (h : c ≠ 24 ∨ b = 3) :
    toDays ⟨a * 400 + b * 100 + c * 4 + 3 + 1, 12, 31⟩ =
      a * 146097 + b * 36524 + c * 1461 + 1460 := by
  have hleap : isLeap (a * 400 + b * 100 + c * 4 + 3 + 1) = true := by
    rw [isLeap_eq hb hc (le_refl 3)]
    simpa using h
  simp only [toDays, daysBeforeYear_eq hb hc (le_refl 3), hleap]
  simp [daysBeforeMonth]

theorem toDays_date {a b c d n : Nat} (hb : b ≤ 3) (hc : c ≤ 24) (hd : d ≤ 3) (hn : n < 365) :
    toDays ⟨a * 400 + b * 100 + c * 4 + d + 1, (monthDay (d = 3 && (c ≠ 24 || b = 3)) n).1,
        (monthDay (d = 3 && (c ≠ 24 || b = 3)) n).2⟩ =
      a * 146097 + b * 36524 + c * 1461 + d * 365 + n := by
  simp only [toDays, daysBeforeYear_eq hb hc hd, isLeap_eq hb hc hd]
  rw [Nat.add_assoc, (monthDay_spec _ hn).1]

theorem toDays_ofDays (n : Nat) : toDays (ofDays n) = n := by
  have h1 : n / 146097 * 146097 + n % 146097 = n := Nat.div_add_mod' n 146097
  have h2 := Nat.div_add_mod' (n % 146097) 36524
  have h3 := Nat.div_add_mod' (n % 146097 % 36524) 1461
  have h4 := Nat.div_add_mod' (n % 146097 % 36524 % 1461) 365
  have l1 : n % 146097 < 146097 := Nat.mod_lt _ (by decide)
  have l2 : n % 146097 % 36524 < 36524 := Nat.mod_lt _ (by decide)
  have l3 : n % 146097 % 36524 % 1461 < 1461 := Nat.mod_lt _ (by decide)
  have l4 : n % 146097 % 36524 % 1461 % 365 < 365 := Nat.mod_lt _ (by decide)
  unfold ofDays
  revert h1 h2 h3 h4 l1 l2 l3 l4
  generalize n / 146097 = a
  generalize n % 146097 = r1
  generalize r1 / 36524 = b
  generalize r1 % 36524 = r2
  generalize r2 / 1461 = c
  generalize r2 % 1461 = r3
  generalize r3 / 365 = d
  generalize r3 % 365 = r4
  rintro rfl rfl rfl rfl l1 l2 l3 l4
  dsimp only
  split
  · rename_i hlast
    rcases hlast with rfl | rfl
    · obtain rfl : r4 = 0 := by omega
      have hy : a * 400 + b * 100 + c * 4 + 4 + 1 - 1 = a * 400 + b * 100 + c * 4 + 3 + 1 := by
        omega
      rw [hy, toDays_december (by omega) (by omega) (by omega)]
      ring
    · obtain ⟨rfl, rfl, rfl⟩ : c = 0 ∧ d = 0 ∧ r4 = 0 := by omega
      have hy : a * 400 + 4 * 100 + 0 * 4 + 0 + 1 - 1 = a * 400 + 3 * 100 + 24 * 4 + 3 + 1 := by
        omega
      rw [hy]
      exact (toDays_december (b := 3) (c := 24) (by omega) (by omega) (by omega)).trans (by ring)
  · rw [toDays_date (by omega) (by omega) (by omega) l4]
    ring

theorem ofDays_injective : Function.Injective ofDays :=
  Function.LeftInverse.injective toDays_ofDays

/-- The fields of a date fit their printed widths. -/
theorem ofDays_bounds {n : Nat} (h : n < 3652059) :
    (ofDays n).year < 10000 ∧ (ofDays n).month < 100 ∧ (ofDays n).day < 100 := by
  unfold ofDays
  dsimp only
  split
  · refine ⟨?_, by simp, by simp⟩
    dsimp only
    omega
  · rename_i hlast
    have l4 : n % 146097 % 36524 % 1461 % 365 < 365 := Nat.mod_lt _ (by decide)
    obtain ⟨_, _, hm, _, hd⟩ := monthDay_spec (decide (n % 146097 % 36524 % 1461 / 365 = 3) &&
      (decide (n % 146097 % 36524 / 1461 ≠ 24) || decide (n % 146097 / 36524 = 3))) l4
    refine ⟨?_, Nat.lt_of_le_of_lt hm (by decide), Nat.lt_of_le_of_lt hd (by decide)⟩
    dsimp only
    omega

end EnterpriseCopilot.Lib.Civil
