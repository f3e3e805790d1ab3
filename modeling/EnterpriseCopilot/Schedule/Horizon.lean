import EnterpriseCopilot.Lib.Calendar
import EnterpriseCopilot.Schedule.Fields
import EnterpriseCopilot.Schedule.NextRun

/-! Which cron expressions always have an occurrence within the 366 days of the search. -/

namespace EnterpriseCopilot.Schedule

open EnterpriseCopilot.Lib
open EnterpriseCopilot.Python

namespace CronExpression

/-- The day, counted from 0001-01-01 in the calendar without end, is in the sets of the three day fields. -/
structure NamesDay (cron : CronExpression) (n : Nat) : Prop where
  day : (Civil.ofDays n).day ∈ cron.days
  month : (Civil.ofDays n).month ∈ cron.months
  weekday : n % 7 ∈ cron.weekdays

instance (cron : CronExpression) : DecidablePred cron.NamesDay := fun n =>
  decidable_of_iff ((Civil.ofDays n).day ∈ cron.days ∧ (Civil.ofDays n).month ∈ cron.months ∧ n % 7 ∈ cron.weekdays)
    ⟨fun ⟨hd, hm, hw⟩ => ⟨hd, hm, hw⟩, fun ⟨hd, hm, hw⟩ => ⟨hd, hm, hw⟩⟩

/-- Every 366 days in a row have a day that is named. -/
def EveryYear (cron : CronExpression) : Prop := ∀ day, ∃ k < 366, cron.NamesDay (day + k)

end CronExpression

section Days

variable {cron : CronExpression} {day i c t : Nat}

theorem names_iff : cron.Names i ↔
    i < 3652059 * 1440 ∧ i % 60 ∈ cron.minutes ∧ i / 60 % 24 ∈ cron.hours ∧ cron.NamesDay (i / 1440) := by
  constructor
  · exact fun h => ⟨h.inRange, h.minute, h.hour, h.day, h.month, h.weekday⟩
  · exact fun ⟨hin, hmi, hh, hd⟩ => ⟨hin, hmi, hh, hd.day, hd.month, hd.weekday⟩

/-- The calendar repeats after 400 years, on the same days of the week. -/
theorem namesDay_period (n : Nat) : cron.NamesDay (day + 146097 * n) ↔ cron.NamesDay day := by
  have hdiv : (day + 146097 * n) / 146097 = day / 146097 + n := Nat.add_mul_div_left _ _ (by decide)
  have hmod : (day + 146097 * n) % 146097 = day % 146097 := Nat.add_mul_mod_self_left _ _ _
  have hweek : (day + 146097 * n) % 7 = day % 7 := by omega
  have hdate : (Civil.ofDays (day + 146097 * n)).day = (Civil.ofDays day).day ∧
      (Civil.ofDays (day + 146097 * n)).month = (Civil.ofDays day).month := by
    unfold Civil.ofDays
    rw [hdiv, hmod]
    dsimp only
    split <;> exact ⟨rfl, rfl⟩
  constructor
  · rintro ⟨hd, hm, hw⟩
    exact ⟨hdate.1 ▸ hd, hdate.2 ▸ hm, hweek ▸ hw⟩
  · rintro ⟨hd, hm, hw⟩
    exact ⟨hdate.1.symm ▸ hd, hdate.2.symm ▸ hm, hweek.symm ▸ hw⟩

/-- A time of day that the expression names. -/
theorem exists_time (h : cron.WellFormed) : ∃ t < 1440, t % 60 ∈ cron.minutes ∧ t / 60 ∈ cron.hours := by
  obtain ⟨minute, hminute⟩ := List.exists_mem_of_ne_nil _ h.minutes.nonempty
  obtain ⟨hour, hhour⟩ := List.exists_mem_of_ne_nil _ h.hours.nonempty
  have hm := (h.minutes.bounds _ hminute).2
  have hh := (h.hours.bounds _ hhour).2
  refine ⟨hour * 60 + minute, by omega, ?_, ?_⟩
  · rwa [show (hour * 60 + minute) % 60 = minute by omega]
  · rwa [show (hour * 60 + minute) / 60 = hour by omega]

/-- 366 days from any minute on have a minute that is named, if all 366 days in a row do. -/
theorem next_of_everyYear (hw : cron.WellFormed) (h : cron.EveryYear) (hc : c + horizon < 3652059 * 1440) :
    ∃ i, Next cron.occurrences horizon c i := by
  rw [Next.exists_iff]
  obtain ⟨t, ht, hmi, hh⟩ := exists_time hw
  -- a day whose time of day lies after `c`, or the day after
  obtain ⟨day, hlo, hhi⟩ : ∃ day, c ≤ day * 1440 + t ∧ day * 1440 + t ≤ c + 1439 := by
    by_cases hle : c % 1440 ≤ t
    · exact ⟨c / 1440, by omega, by omega⟩
    · exact ⟨c / 1440 + 1, by omega, by omega⟩
  obtain ⟨k, hk, hday⟩ := h day
  have hhorizon : horizon = 366 * 1440 := rfl
  have hnames : cron.Names ((day + k) * 1440 + t) := by
    rw [names_iff, show ((day + k) * 1440 + t) % 60 = t % 60 by omega,
      show ((day + k) * 1440 + t) / 60 % 24 = t / 60 by omega, show ((day + k) * 1440 + t) / 1440 = day + k by omega]
    exact ⟨by omega, hmi, hh, hday⟩
  have hle : c ≤ (day + k) * 1440 + t :=
    hlo.trans (Nat.add_le_add_right (Nat.mul_le_mul_right _ (Nat.le_add_right _ _)) _)
  have hlt : (day + k) * 1440 + t < c + horizon := by omega
  exact ⟨(day + k) * 1440 + t, hnames, hle, hlt⟩

/-- From midnight on, the 366 days of the search are whole days. -/
theorem namesDay_of_next (h : Next cron.occurrences horizon (day * 1440) i) : ∃ k < 366, cron.NamesDay (day + k) := by
  have hle := h.le
  have hlt := h.lt
  unfold horizon at hlt
  refine ⟨i / 1440 - day, by omega, ?_⟩
  rw [show day + (i / 1440 - day) = i / 1440 by omega]
  exact (names_iff.mp h.mem).2.2.2

end Days

section Searches

variable {L : Library} {d : ScheduleDefinition} {cron : CronExpression} {z : Zone} {o : Int} {now local_now : DateTime}

/-- The 366 days from the present minute on are in the calendar, in the zone and in UTC. -/
structure Room (o : Int) (local_now : DateTime) : Prop where
  local_ : firstMinute local_now.wall + horizon < 3652059 * 1440
  after : 0 ≤ 60000000 * (firstMinute local_now.wall : Int) - o
  before : 60000000 * ((firstMinute local_now.wall + horizon : Nat) : Int) - o ≤ wallEnd

theorem CronIn.wellFormed (hd : CronIn L d cron z) : cron.WellFormed := by
  obtain ⟨text, _, hparse⟩ := hd.expression
  exact CronExpression.parse_wellFormed hparse

/-- With that room, the search returns an occurrence or says that there is none. -/
theorem returns_iff (hd : CronIn L d cron z) (hz : z.IsFixed o) (hk : Known L now)
    (hl : now.astimezone (.zone d.timezone_name z) = .ok local_now) (hroom : Room o local_now) :
    (∃ u, d.scheduled_for L now = .ok (some u)) ↔
      ∃ i ∈ cron.occurrences, firstMinute local_now.wall ≤ i ∧ i < firstMinute local_now.wall + horizon := by
  have hanswers := (hd.result hk hl).answers hz
  rw [← Next.exists_iff]
  constructor
  · rintro ⟨u, hu⟩
    obtain ⟨i, _, _, hi, _⟩ := (hanswers.returns _).mp hu
    exact ⟨i, hi⟩
  · rintro ⟨i, hi⟩
    have hafter := hroom.after
    have hbefore := hroom.before
    have hle := hi.le
    have hlt := hi.lt
    obtain ⟨u, hu⟩ : ∃ u, DateTime.make (60000000 * i - o) false .utc = .ok u :=
      DateTime.exists_make _ _ (by omega) (by omega)
    obtain ⟨hw, hf, htz⟩ := DateTime.make_ok hu
    exact ⟨u, (hanswers.returns _).mpr ⟨i, u, rfl, hi, hw, hf, htz⟩⟩

theorem refuses_iff (hd : CronIn L d cron z) (hz : z.IsFixed o) (hk : Known L now)
    (hl : now.astimezone (.zone d.timezone_name z) = .ok local_now) (hroom : Room o local_now) :
    d.scheduled_for L now = .error noOccurrence ↔
      ¬ ∃ i ∈ cron.occurrences, firstMinute local_now.wall ≤ i ∧ i < firstMinute local_now.wall + horizon := by
  have hanswers := (hd.result hk hl).answers hz
  rw [← Next.exists_iff, not_exists]
  constructor
  · exact fun h => (hanswers.raises.mp ⟨_, h⟩).1
  · intro h
    obtain ⟨msg, hmsg⟩ := hanswers.raises.mpr ⟨h, hroom.local_⟩
    obtain he | he := hanswers.otherwise _ hmsg
    · rw [hmsg, he]
    · cases he

/-- Midnight of a day that begins 366 days without a day that is named, well inside the calendar. -/
theorem refused_midnight (hd : CronIn L d cron z) (hz : z.IsFixed o) (ho : o.natAbs < dayMicros)
    (h : ¬ cron.EveryYear) : ∃ now local_now, Known L now ∧ now.astimezone (.zone d.timezone_name z) = .ok local_now ∧
      Room o local_now ∧ d.scheduled_for L now = .error noOccurrence := by
  obtain ⟨start, hstart⟩ : ∃ day, ∀ k < 366, ¬ cron.NamesDay (day + k) := by
    simpa [CronExpression.EveryYear] using h
  obtain ⟨day, hday⟩ : ∃ day, day = start % 146097 + 146097 := ⟨_, rfl⟩
  have hnone : ∀ k < 366, ¬ cron.NamesDay (day + k) := by
    intro k hk hnamed
    refine hstart k hk ?_
    have hfront : cron.NamesDay (start % 146097 + k + 146097 * 1) ↔ cron.NamesDay (start % 146097 + k) :=
      namesDay_period 1
    have hback : cron.NamesDay (start % 146097 + k + 146097 * (start / 146097)) ↔ cron.NamesDay (start % 146097 + k) :=
      namesDay_period _
    rw [show start % 146097 + k + 146097 * 1 = day + k by omega] at hfront
    rw [show start % 146097 + k + 146097 * (start / 146097) = start + k by omega] at hback
    exact hback.mpr (hfront.mp hnamed)
  have hwall : day * dayMicros < wallEnd := by
    simp only [wallEnd, dayMicros]
    omega
  have hfirst : firstMinute (day * dayMicros) = day * 1440 := by
    simp only [firstMinute, dayMicros]
    omega
  obtain ⟨now, hnow⟩ : ∃ now : DateTime, now = ⟨day * dayMicros, false, .zone d.timezone_name z, hwall⟩ := ⟨_, rfl⟩
  have hk : Known L now := by
    intro key z' hz'
    rw [hnow] at hz'
    cases hz'
    exact hd.zone
  have hl : now.astimezone (.zone d.timezone_name z) = .ok now := by
    unfold DateTime.astimezone
    rw [if_pos (by simp [hnow, TzInfo.same])]
  have hroom : Room o now := by
    rw [hnow]
    refine ⟨?_, ?_, ?_⟩ <;> dsimp only <;> rw [hfirst] <;> simp only [horizon, wallEnd, dayMicros] at * <;> omega
  refine ⟨now, now, hk, hl, hroom, (refuses_iff hd hz hk hl hroom).mpr ?_⟩
  rw [hnow, hfirst, ← Next.exists_iff]
  rintro ⟨i, hi⟩
  obtain ⟨k, hk, hnamed⟩ := namesDay_of_next hi
  exact hnone k hk hnamed

/-- The search answers with an occurrence exactly if there is one in the 366 days; it does so at every time
exactly if every 366 days in a row have a day that the expression names. -/
theorem horizon_enough_iff (hd : CronIn L d cron z) (hz : z.IsFixed o) (ho : o.natAbs < dayMicros) :
    (∀ now local_now, Known L now → now.astimezone (.zone d.timezone_name z) = .ok local_now → Room o local_now →
      ((∃ u, d.scheduled_for L now = .ok (some u)) ↔
        ∃ i ∈ cron.occurrences, firstMinute local_now.wall ≤ i ∧ i < firstMinute local_now.wall + horizon) ∧
      (d.scheduled_for L now = .error noOccurrence ↔
        ¬ ∃ i ∈ cron.occurrences, firstMinute local_now.wall ≤ i ∧ i < firstMinute local_now.wall + horizon)) ∧
    ((∀ now local_now, Known L now → now.astimezone (.zone d.timezone_name z) = .ok local_now → Room o local_now →
      ∃ u, d.scheduled_for L now = .ok (some u)) ↔ cron.EveryYear) := by
  refine ⟨fun now local_now hk hl hroom => ⟨returns_iff hd hz hk hl hroom, refuses_iff hd hz hk hl hroom⟩, ?_, ?_⟩
  · intro h
    by_contra hnot
    obtain ⟨now, local_now, hk, hl, hroom, hrefused⟩ := refused_midnight hd hz ho hnot
    obtain ⟨u, hu⟩ := h now local_now hk hl hroom
    rw [hrefused] at hu
    cases hu
  · intro h now local_now hk hl hroom
    obtain ⟨i, hi⟩ := next_of_everyYear hd.wellFormed h hroom.local_
    exact (returns_iff hd hz hk hl hroom).mpr ⟨i, hi.mem, hi.le, hi.lt⟩

end Searches

section Sample

/-- 1 March 2025. -/
def march : DateTime := ⟨739310 * dayMicros, false, .utc, by decide⟩

def leapDays : CronExpression := ⟨[0], [0], [29], [2], List.range 7⟩

def midnights : CronExpression := ⟨[0], [0], List.range' 1 31, List.range' 1 12, List.range 7⟩

theorem cronIn_leapDays : CronIn utcOnly (cronSchedule "0 0 29 2 *") leapDays (.fixed 0) :=
  ⟨rfl, ⟨"0 0 29 2 *", rfl, rfl⟩, rfl⟩

/-- A leap day is more than 366 days away, though there is one in 2028. -/
theorem leap_day_refused : ¬ ∀ (L : Library) (d : ScheduleDefinition) (cron : CronExpression) (z : Zone) (o : Int)
    (now : DateTime), CronIn L d cron z → z.IsFixed o → o.natAbs < dayMicros → Known L now → (∃ i, cron.Names i) →
    ∃ u, d.scheduled_for L now = .ok (some u) := by
  intro h
  have hnames : leapDays.Names (740405 * 1440) := ⟨by decide, by decide, by decide, by decide, by decide, by decide⟩
  have hl : march.astimezone (.zone "UTC" (.fixed 0)) =
      .ok ⟨739310 * dayMicros, false, .zone "UTC" (.fixed 0), by decide⟩ := rfl
  obtain ⟨u, hu⟩ := h utcOnly (cronSchedule "0 0 29 2 *") leapDays (.fixed 0) 0 march cronIn_leapDays (fixed_isFixed 0)
    (by decide) (known_utc rfl) ⟨_, hnames⟩
  obtain ⟨i, _, _, hi, _⟩ := (((cronIn_leapDays.result (known_utc rfl) hl).answers (fixed_isFixed 0)).returns _).mp hu
  obtain ⟨k, hk, hday⟩ := namesDay_of_next (show Next leapDays.occurrences horizon (739310 * 1440) i from hi)
  have hnone : ∀ k < 366, ¬ leapDays.NamesDay (739310 + k) := by decide +kernel
  exact hnone k hk hday

theorem midnights_everyYear : midnights.EveryYear := by
  intro day
  obtain ⟨hm, hm', hd, hlen⟩ := Civil.ofDays_occurs day
  have hlong : ∀ month < 13, Civil.monthLength month ≤ 31 := by decide
  have hd' := hlen.trans (hlong _ (by omega))
  refine ⟨0, by decide, ?_⟩
  rw [Nat.add_zero]
  refine ⟨List.mem_range'_1.mpr ⟨hd, by omega⟩, List.mem_range'_1.mpr ⟨hm, by omega⟩, ?_⟩
  exact List.mem_range.mpr (Nat.mod_lt _ (by decide))

theorem horizon_enough_sample : ∃ u, (cronSchedule "0 0 * * *").scheduled_for utcOnly march = .ok (some u) := by
  have hd : CronIn utcOnly (cronSchedule "0 0 * * *") midnights (.fixed 0) := ⟨rfl, ⟨"0 0 * * *", rfl, rfl⟩, rfl⟩
  refine (horizon_enough_iff hd (fixed_isFixed 0) (by decide)).2.mpr midnights_everyYear march
    ⟨739310 * dayMicros, false, .zone "UTC" (.fixed 0), by decide⟩ (known_utc rfl) rfl ?_
  exact ⟨by decide, by decide, by decide⟩

end Sample

end EnterpriseCopilot.Schedule
