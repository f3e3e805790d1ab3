import EnterpriseCopilot.Lib.Calendar
import EnterpriseCopilot.Schedule.Fields

/-! The expressions that mean what they mean in a crontab. -/

namespace EnterpriseCopilot.Schedule

open EnterpriseCopilot.Lib
open EnterpriseCopilot.Python

namespace CronExpression

/-- Whether the day of the month or the day of the week is a field that counts as `*`. -/
def unrestricted (star : List Char → Bool) (expression : String) : Bool :=
  star ((split expression.toList).getD 2 []) || star ((split expression.toList).getD 4 [])

/-- The rule of crontab for the two day fields; `weekday` counts from Monday, the field from Sunday. -/
def dayRule (cron : CronExpression) (either : Bool) (day weekday : Nat) : Bool :=
  if either then day ∈ cron.days && (weekday + 1) % 7 ∈ cron.weekdays
  else day ∈ cron.days || (weekday + 1) % 7 ∈ cron.weekdays

/-- The rule of crontab. -/
def crontab (cron : CronExpression) (either : Bool) (value : DateTime) : Bool :=
  value.minute ∈ cron.minutes && value.hour ∈ cron.hours && value.date.month ∈ cron.months &&
    cron.dayRule either value.date.day value.weekday

/-- Every day of the week is named and, where both day fields are restricted, every day of the months that
are named; or no day comes up at all. -/
def Aligned (cron : CronExpression) (either : Bool) : Prop :=
  ((∀ w < 7, w ∈ cron.weekdays) ∧
      (either = true ∨ ∀ month ∈ cron.months, ∀ day, Civil.Occurs month day → day ∈ cron.days)) ∨
    (either = true ∧ ∀ month ∈ cron.months, ∀ day ∈ cron.days, ¬ Civil.Occurs month day)

end CronExpression

section Days

variable {cron : CronExpression} {either : Bool} {month day weekday minute hour : Nat}

/-- Some datetime has these fields. -/
theorem exists_value (hminute : minute < 60) (hhour : hour < 24) (hdate : Civil.Occurs month day) (hw : weekday < 7) :
    ∃ value : DateTime, value.minute = minute ∧ value.hour = hour ∧ value.date.month = month ∧
      value.date.day = day ∧ value.weekday = weekday := by
  obtain ⟨n, hn, hweek, hmonth, hday⟩ := Civil.exists_ofDays hdate hw
  have hin : n * dayMicros + hour * 3600000000 + minute * 60000000 < wallEnd := by
    simp only [wallEnd, dayMicros]
    omega
  have hdiv : (n * dayMicros + hour * 3600000000 + minute * 60000000) / dayMicros = n := by
    simp only [dayMicros]
    omega
  refine ⟨⟨_, false, .utc, hin⟩, ?_, ?_, ?_, ?_, ?_⟩
  · simp only [DateTime.minute, dayMicros]
    omega
  · simp only [DateTime.hour, dayMicros]
    omega
  · rw [DateTime.date, hdiv, hmonth]
  · rw [DateTime.date, hdiv, hday]
  · rw [DateTime.weekday, hdiv, hweek]

theorem weekday_lt (value : DateTime) : value.weekday < 7 := Nat.mod_lt _ (by decide)

/-- The two rules agree on every datetime if they agree on the days of the months that are named. -/
theorem agree_iff (hw : cron.WellFormed) : (∀ value, cron.matches_ value = cron.crontab either value) ↔
    ∀ month ∈ cron.months, ∀ day, Civil.Occurs month day → ∀ weekday < 7,
      (day ∈ cron.days ∧ weekday ∈ cron.weekdays ↔ cron.dayRule either day weekday = true) := by
  constructor
  · intro h month hmonth day hdate weekday hweek
    obtain ⟨minute, hminute⟩ := List.exists_mem_of_ne_nil _ hw.minutes.nonempty
    obtain ⟨hour, hhour⟩ := List.exists_mem_of_ne_nil _ hw.hours.nonempty
    have hmi := (hw.minutes.bounds _ hminute).2
    have hh := (hw.hours.bounds _ hhour).2
    obtain ⟨value, rfl, rfl, rfl, rfl, rfl⟩ := exists_value (show minute < 60 by omega) (show hour < 24 by omega) hdate hweek
    have hvalue := h value
    rw [Bool.eq_iff_iff] at hvalue
    simpa [CronExpression.matches_, CronExpression.crontab, hminute, hhour, hmonth] using hvalue
  · intro h value
    rw [Bool.eq_iff_iff]
    simp only [CronExpression.matches_, CronExpression.crontab, Bool.and_eq_true, decide_eq_true_eq]
    constructor
    · rintro ⟨⟨⟨⟨hmi, hh⟩, hd⟩, hmo⟩, hwd⟩
      exact ⟨⟨⟨hmi, hh⟩, hmo⟩, (h _ hmo _ (Civil.ofDays_occurs _) _ (weekday_lt value)).mp ⟨hd, hwd⟩⟩
    · rintro ⟨⟨⟨hmi, hh⟩, hmo⟩, hrule⟩
      obtain ⟨hd, hwd⟩ := (h _ hmo _ (Civil.ofDays_occurs _) _ (weekday_lt value)).mpr hrule
      exact ⟨⟨⟨⟨hmi, hh⟩, hd⟩, hmo⟩, hwd⟩

/-- A set of days of the week that has the day after each of its days has all of them. -/
theorem all_weekdays {s : List Nat} {w : Nat} (hnext : ∀ v < 7, v ∈ s → (v + 1) % 7 ∈ s) (hw : w ∈ s) (hlt : w < 7) :
    ∀ v < 7, v ∈ s := by
  have hrun : ∀ k, (w + k) % 7 ∈ s := by
    intro k
    induction k with
    | zero => rwa [Nat.add_zero, Nat.mod_eq_of_lt hlt]
    | succ k ih =>
      have hstep := hnext _ (Nat.mod_lt _ (by decide)) ih
      rwa [show ((w + k) % 7 + 1) % 7 = (w + (k + 1)) % 7 by omega] at hstep
  intro v hv
  have hback := hrun (v + 7 - w)
  rwa [show (w + (v + 7 - w)) % 7 = v by omega] at hback

theorem occurs_first (hw : cron.WellFormed) (h : month ∈ cron.months) : Civil.Occurs month 1 := by
  obtain ⟨hlo, hhi⟩ := hw.months.bounds _ h
  have hlong : ∀ month < 13, 1 ≤ month → 1 ≤ Civil.monthLength month := by decide
  exact ⟨hlo, hhi, le_rfl, hlong _ (by omega) hlo⟩

theorem aligned_of_agree (hw : cron.WellFormed) (h : ∀ month ∈ cron.months, ∀ day, Civil.Occurs month day →
    ∀ weekday < 7, (day ∈ cron.days ∧ weekday ∈ cron.weekdays ↔ cron.dayRule either day weekday = true)) :
    cron.Aligned either := by
  obtain ⟨first, hfirst⟩ := List.exists_mem_of_ne_nil _ hw.weekdays.nonempty
  have hlt : first < 7 := by
    have := (hw.weekdays.bounds _ hfirst).2
    omega
  cases either with
  | true =>
    by_cases hday : ∃ month ∈ cron.months, ∃ day ∈ cron.days, Civil.Occurs month day
    · obtain ⟨month, hmonth, day, hd, hdate⟩ := hday
      refine .inl ⟨all_weekdays (fun v hv hmem => ?_) hfirst hlt, .inl rfl⟩
      simpa [CronExpression.dayRule, hd, hmem] using h month hmonth day hdate v hv
    · exact .inr ⟨rfl, fun month hmonth day hd hdate => hday ⟨month, hmonth, day, hd, hdate⟩⟩
  | false =>
    -- the day before a day of the week that is named lets every date through
    have hbefore : ∀ month ∈ cron.months, ∀ day, Civil.Occurs month day → day ∈ cron.days := by
      intro month hmonth day hdate
      have hrule := (h month hmonth day hdate ((first + 6) % 7) (Nat.mod_lt _ (by decide))).mpr (by
        simp [CronExpression.dayRule, show ((first + 6) % 7 + 1) % 7 = first by omega, hfirst])
      exact hrule.1
    obtain ⟨month, hmonth⟩ := List.exists_mem_of_ne_nil _ hw.months.nonempty
    have hdate := occurs_first hw hmonth
    have hd := hbefore month hmonth 1 hdate
    refine .inl ⟨fun v hv => ?_, .inr hbefore⟩
    simpa [CronExpression.dayRule, hd] using h month hmonth 1 hdate v hv

theorem agree_of_aligned (h : cron.Aligned either) (hmonth : month ∈ cron.months) (hdate : Civil.Occurs month day)
    (hlt : weekday < 7) : day ∈ cron.days ∧ weekday ∈ cron.weekdays ↔ cron.dayRule either day weekday = true := by
  obtain ⟨hall, heither⟩ | ⟨rfl, hnone⟩ := h
  · have hnext : (weekday + 1) % 7 ∈ cron.weekdays := hall _ (Nat.mod_lt _ (by decide))
    cases either with
    | true => simp [CronExpression.dayRule, hall weekday hlt, hnext]
    | false =>
      have hd : day ∈ cron.days := (heither.resolve_left (by decide)) month hmonth day hdate
      simp [CronExpression.dayRule, hall weekday hlt, hd]
  · have hd : day ∉ cron.days := fun hd => hnone month hmonth day hd hdate
    simp [CronExpression.dayRule, hd]

/-- An accepted expression means what it means in a crontab, for any reading of which fields are `*`, exactly
if the numbering of the days of the week and the rule for the two day fields make no difference to it. -/
theorem crontab_iff (star : List Char → Bool) {expression : String} (h : CronExpression.parse expression = .ok cron) :
    (∀ value, cron.matches_ value = cron.crontab (CronExpression.unrestricted star expression) value) ↔
      cron.Aligned (CronExpression.unrestricted star expression) := by
  have hw := CronExpression.parse_wellFormed h
  rw [agree_iff hw]
  exact ⟨aligned_of_agree hw, fun h month hmonth day hdate weekday hlt => agree_of_aligned h hmonth hdate hlt⟩

end Days

section Sample

/-- A field is `*` if it begins with one. -/
def firstStar (field : List Char) : Bool := field.head? = some '*'

def weekdayMornings : CronExpression := ⟨[0], [8], List.range' 1 31, List.range' 1 12, [1, 2, 3, 4, 5]⟩

/-- Monday, 5 January 2026, at eight. -/
def monday : DateTime := ⟨739620 * dayMicros + 8 * 3600000000, false, .utc, by decide⟩

/-- The weekday range that the design document gives does not cover Mondays. -/
theorem weekdays_miss_monday : CronExpression.parse "0 8 * * 1-5" = .ok weekdayMornings ∧
    monday.date = ⟨2026, 1, 5⟩ ∧ weekdayMornings.matches_ monday = false ∧
    weekdayMornings.crontab (CronExpression.unrestricted firstStar "0 8 * * 1-5") monday = true :=
  ⟨rfl, by decide, by decide, by decide⟩

def mornings : CronExpression := ⟨[0], [8], List.range' 1 31, List.range' 1 12, List.range 7⟩

theorem crontab_sample : CronExpression.parse "0 8 * * *" = .ok mornings ∧ ∀ value,
    mornings.matches_ value = mornings.crontab (CronExpression.unrestricted firstStar "0 8 * * *") value := by
  have hparse : CronExpression.parse "0 8 * * *" = .ok mornings := rfl
  exact ⟨hparse, (crontab_iff firstStar hparse).mpr (.inl ⟨fun _ hw => List.mem_range.mpr hw, .inl (by decide)⟩)⟩

end Sample

end EnterpriseCopilot.Schedule
