import EnterpriseCopilot.Lib.Next
import EnterpriseCopilot.Schedule.Runnable

/-! The minutes of the calendar that a cron expression names, and the search for the next one. -/

namespace EnterpriseCopilot.Schedule

open EnterpriseCopilot.Lib
open EnterpriseCopilot.Python

/-- The calendar holds this minute, counted from 0001-01-01T00:00, and its five fields are in the sets
of the expression. -/
structure CronExpression.Names (cron : CronExpression) (i : Nat) : Prop where
  inRange : i < 3652059 * 1440
  minute : i % 60 ∈ cron.minutes
  hour : i / 60 % 24 ∈ cron.hours
  day : (Civil.ofDays (i / 1440)).day ∈ cron.days
  month : (Civil.ofDays (i / 1440)).month ∈ cron.months
  weekday : i / 1440 % 7 ∈ cron.weekdays

def CronExpression.occurrences (cron : CronExpression) : Set Nat := {i | cron.Names i}

/-- The minutes that the search visits: 366 days. -/
def horizon : Nat := 60 * 24 * 366

/-- The first whole minute at or after a wall clock. -/
def firstMinute (wall : Nat) : Nat := (wall + 59999999) / 60000000

/-- `OverflowError` of an arithmetic result outside the years 1 to 9999. -/
def outOfRange : PyError := .overflowError "date value out of range"

/-- What the search does from the minute `c` on, where `fold` is the reading of that minute. -/
inductive SearchResult (cron : CronExpression) (tz : TzInfo) (fold : Bool) (n c : Nat) :
    Except PyError (Option DateTime) → Prop
  | found {i : Nat} {m : DateTime} (next : Next cron.occurrences n c i) (wall : m.wall = 60000000 * i)
      (tzinfo : m.tzinfo = tz) (reading : m.fold = (fold && i = c)) :
      SearchResult cron tz fold n c (m.astimezone .utc >>= fun u => .ok (some u))
  | none (empty : ∀ i, ¬ Next cron.occurrences n c i) (room : c + n < 3652059 * 1440) :
      SearchResult cron tz fold n c (.error noOccurrence)
  | overflow (empty : ∀ i, ¬ Next cron.occurrences n c i) (last : 3652059 * 1440 ≤ c + n) :
      SearchResult cron tz fold n c (.error outOfRange)

section Search

variable {cron : CronExpression} {cursor local_now : DateTime} {n c i : Nat} {fold : Bool} {tz : TzInfo}
  {r : Except PyError (Option DateTime)}

/-- The fields of a datetime are those of its minute. -/
theorem matches_iff : cron.matches_ cursor = true ↔ cursor.wall / 60000000 ∈ cron.occurrences := by
  have hin := cursor.inRange
  have hday : cursor.wall / dayMicros = cursor.wall / 60000000 / 1440 := by
    simp only [dayMicros]
    omega
  have hminute : cursor.minute = cursor.wall / 60000000 % 60 := by
    simp only [DateTime.minute]
    omega
  have hhour : cursor.hour = cursor.wall / 60000000 / 60 % 24 := by
    simp only [DateTime.hour, dayMicros]
    omega
  simp only [CronExpression.matches_, Bool.and_eq_true, decide_eq_true_eq, hminute, hhour, DateTime.date,
    DateTime.weekday, hday]
  constructor
  · rintro ⟨⟨⟨⟨hmi, hh⟩, hd⟩, hmo⟩, hwd⟩
    exact ⟨by simp only [wallEnd, dayMicros] at hin; omega, hmi, hh, hd, hmo, hwd⟩
  · exact fun h => ⟨⟨⟨⟨h.minute, h.hour⟩, h.day⟩, h.month⟩, h.weekday⟩

theorem names_of_wall (hw : cursor.wall = 60000000 * c) : cron.matches_ cursor = true ↔ c ∈ cron.occurrences := by
  rw [matches_iff, hw, Nat.mul_div_cancel_left _ (by decide)]

/-- No minute past the year 9999 is named. -/
theorem next_lt (h : Next cron.occurrences n c i) : i < 3652059 * 1440 := h.mem.inRange

/-- A minute that is not named is skipped; the reading of the first minute only matters to that minute. -/
theorem SearchResult.skip (hc : c ∉ cron.occurrences) (h : SearchResult cron tz false n (c + 1) r) :
    SearchResult cron tz fold (n + 1) c r := by
  have hempty : (∀ i, ¬ Next cron.occurrences n (c + 1) i) → ∀ i, ¬ Next cron.occurrences (n + 1) c i :=
    fun h i hi => h i ((Next.succ_iff hc).mpr hi)
  cases h with
  | found next wall tzinfo reading =>
    rename_i i m
    have hne : i ≠ c := Nat.ne_of_gt next.le
    exact .found ((Next.succ_iff hc).mp next) wall tzinfo (by simp [reading, hne])
  | none empty room => exact .none (hempty empty) (by omega)
  | overflow empty last => exact .overflow (hempty empty) (by omega)

theorem searchCron_result : ∀ {n c cursor}, cursor.wall = 60000000 * c →
    SearchResult cron cursor.tzinfo cursor.fold n c (searchCron cron n cursor) := by
  intro n
  induction n with
  | zero =>
    intro c cursor hw
    have hin := cursor.inRange
    refine .none (fun i => Next.not_zero) ?_
    simp only [wallEnd, dayMicros] at hin
    omega
  | succ n ih =>
    intro c cursor hw
    unfold searchCron
    by_cases hmatch : cron.matches_ cursor = true
    · rw [if_pos hmatch]
      exact .found (Next.self ((names_of_wall hw).mp hmatch) (Nat.succ_pos n)) hw rfl (by simp)
    · rw [if_neg hmatch]
      have hc : c ∉ cron.occurrences := fun h => hmatch ((names_of_wall hw).mpr h)
      cases hnext : cursor.add 60000000 with
      | error e =>
        obtain ⟨rfl, hout⟩ := make_error hnext
        -- the calendar ends here, so that there is no minute left to name
        have hend : 3652059 * 1440 ≤ c + 1 := by
          simp only [wallEnd, dayMicros] at hout
          omega
        refine .overflow (fun i hi => ?_) (by omega)
        have hle := ((Next.succ_iff hc).mpr hi).le
        have hlt := next_lt hi
        omega
      | ok next =>
        obtain ⟨hwall, hfold, htz⟩ := DateTime.make_ok hnext
        have hrest := ih (show next.wall = 60000000 * (c + 1) by omega)
        rw [htz, hfold] at hrest
        exact hrest.skip hc

theorem floorMinute_blt (htz : local_now.tzinfo.same local_now.tzinfo = true) :
    local_now.floorMinute.blt local_now = decide (local_now.wall % 60000000 ≠ 0) := by
  have hfloor : local_now.floorMinute.wall = local_now.wall - local_now.wall % 60000000 := rfl
  rw [DateTime.blt, if_pos (show local_now.floorMinute.tzinfo.same local_now.tzinfo = true from htz), hfloor]
  exact decide_eq_decide.mpr (by omega)

/-- The search starts at the first whole minute, in the reading of the present if that is one. -/
theorem ceilMinute_eq (htz : local_now.tzinfo.same local_now.tzinfo = true) : ceilMinute local_now =
    DateTime.make (60000000 * firstMinute local_now.wall : Nat)
      (local_now.fold && 60000000 * firstMinute local_now.wall = local_now.wall) local_now.tzinfo := by
  have hfloor : local_now.floorMinute.wall = local_now.wall - local_now.wall % 60000000 := rfl
  unfold ceilMinute
  rw [floorMinute_blt htz]
  by_cases hw : local_now.wall % 60000000 = 0
  · have hfirst : 60000000 * firstMinute local_now.wall = local_now.wall := by
      unfold firstMinute
      omega
    have hself : local_now.floorMinute = local_now := by
      unfold DateTime.floorMinute
      cases local_now
      simp_all
    rw [if_neg (by simp [hw]), hself, hfirst]
    simp only [decide_true, Bool.and_true, DateTime.make_wall]
  · have hfirst : (60000000 * firstMinute local_now.wall : Nat) = local_now.wall - local_now.wall % 60000000 + 60000000 := by
      unfold firstMinute
      omega
    have hne : 60000000 * firstMinute local_now.wall ≠ local_now.wall := by omega
    rw [if_pos (by simp [hw]), DateTime.add, hfloor, hfirst]
    have hne' : local_now.wall - local_now.wall % 60000000 + 60000000 ≠ local_now.wall := by omega
    simp only [hne', decide_false, Bool.and_false, Nat.cast_add, Nat.cast_ofNat]
    rfl

theorem cron_result (htz : local_now.tzinfo.same local_now.tzinfo = true) :
    SearchResult cron local_now.tzinfo (local_now.fold && 60000000 * firstMinute local_now.wall = local_now.wall)
      horizon (firstMinute local_now.wall)
      (ceilMinute local_now >>= fun cursor => searchCron cron (60 * 24 * 366) cursor) := by
  rw [ceilMinute_eq htz]
  cases hmake : DateTime.make (60000000 * firstMinute local_now.wall : Nat)
      (local_now.fold && 60000000 * firstMinute local_now.wall = local_now.wall) local_now.tzinfo with
  | error e =>
    obtain ⟨rfl, hout⟩ := make_error hmake
    have hend : 3652059 * 1440 ≤ firstMinute local_now.wall := by
      simp only [wallEnd, dayMicros] at hout
      omega
    refine .overflow (fun i hi => ?_) (by omega)
    exact absurd (hi.le.trans_lt (next_lt hi)) (Nat.not_lt_of_le hend)
  | ok cursor =>
    obtain ⟨hwall, hfold, htz'⟩ := DateTime.make_ok hmake
    rw [← hfold, ← htz']
    exact searchCron_result (by omega)

end Search

/-- The datetime of an instant, in UTC. -/
structure UtcAt (instant : Int) (u : DateTime) : Prop where
  wall : (u.wall : Int) = instant
  fold : u.fold = false
  tzinfo : u.tzinfo = .utc

theorem UtcAt.unique {t : Int} {u v : DateTime} (h : UtcAt t u) (h' : UtcAt t v) : u = v := by
  obtain ⟨hwall, hfold, htz⟩ := h
  obtain ⟨hwall', hfold', htz'⟩ := h'
  cases u
  cases v
  simp_all only [DateTime.mk.injEq, and_self, and_true]
  omega

/-- Between named zones and UTC. -/
theorem utcAt_of_astimezone {m u : DateTime} {key : String} {z : Zone} (hm : m.tzinfo = .zone key z) :
    m.astimezone .utc = .ok u ↔ UtcAt m.instant u := by
  have hconvert : m.astimezone .utc = DateTime.make m.instant false .utc >>= fun v => DateTime.make v.wall false .utc := by
    unfold DateTime.astimezone
    rw [if_neg (by simp [hm, TzInfo.same])]
    simp only [TzInfo.fromutc, add_zero, DateTime.instant]
  rw [hconvert]
  constructor
  · intro h
    obtain ⟨v, hv, hu⟩ := bind_ok h
    obtain ⟨hw, _, _⟩ := DateTime.make_ok hv
    obtain ⟨hw', hf', htz'⟩ := DateTime.make_ok hu
    exact ⟨hw'.trans hw, hf', htz'⟩
  · rintro ⟨hw, hf, htz⟩
    have hmake : DateTime.make u.wall false .utc = .ok u := by
      rw [← hf, ← htz, DateTime.make_wall]
    rw [← hw, hmake, ok_bind, hmake]

/-- The wall clock that a zone shows at an instant. -/
def shows (z : Zone) (t : Int) : Int := t + (z.fromutc t).1

/-- From UTC to a named zone. -/
theorem astimezone_of_utc {t : Int} {u : DateTime} {key : String} {z : Zone} (hu : UtcAt t u) :
    u.astimezone (.zone key z) = DateTime.make (shows z t) (z.fromutc t).2 (.zone key z) := by
  have hoff : u.utcoffset = 0 := by simp [DateTime.utcoffset, hu.tzinfo, TzInfo.utcoffset]
  have hin := u.inRange
  obtain ⟨w, hw⟩ : ∃ w, DateTime.make (u.wall - u.utcoffset) false (.zone key z) = .ok w := by
    rw [hoff]
    exact DateTime.exists_make _ _ (by omega) (by omega)
  have hww : (w.wall : Int) = t := by
    rw [(DateTime.make_ok hw).1, hoff, hu.wall, Int.sub_zero]
  unfold DateTime.astimezone
  rw [if_neg (by simp [hu.tzinfo, TzInfo.same]), hw]
  simp only [ok_bind, TzInfo.fromutc, hww, shows]

/-- A cron schedule with an expression that is accepted and a timezone that is known. -/
structure CronIn (L : Library) (d : ScheduleDefinition) (cron : CronExpression) (z : Zone) : Prop where
  type : d.schedule_type = "cron"
  expression : ∃ text, truthy d.expression = some text ∧ CronExpression.parse text = .ok cron
  zone : L.zoneInfo d.timezone_name = .ok z

/-- The zone of a datetime, if it has one by name, is that of the database. -/
def Known (L : Library) (now : DateTime) : Prop := ∀ key z, now.tzinfo = .zone key z → L.zoneInfo key = .ok z

section Slots

variable {L : Library} {d : ScheduleDefinition} {cron : CronExpression} {z : Zone} {now local_now : DateTime}

theorem tzinfo_local (hk : Known L now) (hz : L.zoneInfo d.timezone_name = .ok z)
    (h : now.astimezone (.zone d.timezone_name z) = .ok local_now) : local_now.tzinfo = .zone d.timezone_name z := by
  obtain htz | ⟨hs, rfl⟩ := DateTime.astimezone_tzinfo h
  · exact htz
  · cases hnow : local_now.tzinfo with
    | utc => rw [hnow] at hs; cases hs
    | fixed offset => rw [hnow] at hs; cases hs
    | zone key z' =>
      rw [hnow] at hs
      obtain rfl : key = d.timezone_name := by simpa [TzInfo.same] using hs
      have hz' := hk _ _ hnow
      rw [hz] at hz'
      cases hz'
      rfl

theorem timezone_eq (hz : L.zoneInfo d.timezone_name = .ok z) : d.timezone L = .ok (.zone d.timezone_name z) := by
  simp only [ScheduleDefinition.timezone, hz]

/-- The slot of a cron schedule is what the search finds in its zone. -/
theorem CronIn.result (hd : CronIn L d cron z) (hk : Known L now)
    (h : now.astimezone (.zone d.timezone_name z) = .ok local_now) :
    SearchResult cron (.zone d.timezone_name z)
      (local_now.fold && 60000000 * firstMinute local_now.wall = local_now.wall)
      horizon (firstMinute local_now.wall) (d.scheduled_for L now) := by
  obtain ⟨text, htext, hparse⟩ := hd.expression
  have htz := tzinfo_local hk hd.zone h
  have hslot : d.cronSlot local_now =
      ceilMinute local_now >>= fun cursor => searchCron cron (60 * 24 * 366) cursor := by
    unfold ScheduleDefinition.cronSlot
    rw [htext]
    simp only [hparse, ok_bind]
  rw [scheduled_for_cron (timezone_eq hd.zone) h hd.type, hslot, ← htz]
  exact cron_result (by simp [htz, TzInfo.same])

/-- A time that the zone cannot express has no slot. -/
theorem CronIn.outOfZone (hd : CronIn L d cron z) {e : PyError}
    (h : now.astimezone (.zone d.timezone_name z) = .error e) : d.scheduled_for L now = .error outOfRange := by
  obtain rfl := astimezone_error h
  simp only [ScheduleDefinition.scheduled_for, timezone_eq hd.zone, ok_bind, h]
  rfl

end Slots

end EnterpriseCopilot.Schedule
