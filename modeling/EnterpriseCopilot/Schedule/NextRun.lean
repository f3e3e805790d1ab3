import EnterpriseCopilot.Schedule.Occurrence

/-! The next run of a cron schedule in a zone with one offset is its next occurrence. -/

namespace EnterpriseCopilot.Schedule

open EnterpriseCopilot.Lib
open EnterpriseCopilot.Python

/-- The answers for the minutes from `c` on: the next minute named, in UTC, or `ValueError` if the calendar
goes on and there is none. -/
structure Answers (cron : CronExpression) (o : Int) (c : Nat) (r : Except PyError (Option DateTime)) : Prop where
  returns : ∀ slot, r = .ok slot ↔
    ∃ i u, slot = some u ∧ Next cron.occurrences horizon c i ∧ UtcAt (60000000 * i - o) u
  raises : (∃ msg, r = .error (.valueError msg)) ↔
    (∀ i, ¬ Next cron.occurrences horizon c i) ∧ c + horizon < 3652059 * 1440
  otherwise : ∀ e, r = .error e → e = noOccurrence ∨ e = outOfRange

section Fixed

variable {L : Library} {d : ScheduleDefinition} {cron : CronExpression} {z : Zone} {o : Int} {key : String} {c : Nat}
  {fold : Bool} {now now' local_now local_now' u v m : DateTime} {r : Except PyError (Option DateTime)}

theorem SearchResult.answers (hz : z.IsFixed o) (h : SearchResult cron (.zone key z) fold horizon c r) :
    Answers cron o c r := by
  cases h with
  | @found i m next wall tzinfo reading =>
    have hinst : m.instant = 60000000 * i - o := by
      rw [fixed_instant hz tzinfo, wall]
      omega
    cases hutc : m.astimezone .utc with
    | ok u =>
      have hu := (utcAt_of_astimezone tzinfo).mp hutc
      rw [hinst] at hu
      rw [ok_bind]
      refine ⟨fun slot => ⟨?_, ?_⟩, ⟨?_, ?_⟩, ?_⟩
      · rintro ⟨⟩
        exact ⟨i, u, rfl, next, hu⟩
      · rintro ⟨j, v, rfl, hj, hv⟩
        obtain rfl := next.unique hj
        rw [hu.unique hv]
      · rintro ⟨_, ⟨⟩⟩
      · exact fun ⟨hnone, _⟩ => absurd next (hnone i)
      · rintro _ ⟨⟩
    | error e =>
      obtain rfl := astimezone_error hutc
      refine ⟨fun slot => ⟨?_, ?_⟩, ⟨?_, ?_⟩, ?_⟩
      · rintro ⟨⟩
      · rintro ⟨j, v, rfl, hj, hv⟩
        obtain rfl := next.unique hj
        rw [← hinst, ← utcAt_of_astimezone tzinfo, hutc] at hv
        cases hv
      · rintro ⟨_, ⟨⟩⟩
      · exact fun ⟨hnone, _⟩ => absurd next (hnone i)
      · rintro _ ⟨⟩
        exact .inr rfl
  | none empty room =>
    refine ⟨fun slot => ⟨?_, ?_⟩, ⟨fun _ => ⟨empty, room⟩, fun _ => ⟨_, rfl⟩⟩, ?_⟩
    · rintro ⟨⟩
    · exact fun ⟨j, _, _, hj, _⟩ => absurd hj (empty j)
    · rintro _ ⟨⟩
      exact .inl rfl
  | overflow empty last =>
    refine ⟨fun slot => ⟨?_, ?_⟩, ⟨?_, ?_⟩, ?_⟩
    · rintro ⟨⟩
    · exact fun ⟨j, _, _, hj, _⟩ => absurd hj (empty j)
    · rintro ⟨_, ⟨⟩⟩
    · exact fun ⟨_, room⟩ => absurd room (Nat.not_lt_of_le last)
    · rintro _ ⟨⟩
      exact .inr rfl

theorem local_wall (hd : CronIn L d cron z) (hz : z.IsFixed o) (hk : Known L now)
    (hl : now.astimezone (.zone d.timezone_name z) = .ok local_now) : (local_now.wall : Int) = now.instant + o := by
  have hinst := DateTime.instant_of_astimezone hl
  rw [fixed_instant hz (tzinfo_local hk hd.zone hl)] at hinst
  omega

/-- A slot is the next minute of the expression for the time it was computed at. -/
theorem next_of_slot (hd : CronIn L d cron z) (hz : z.IsFixed o) (hk : Known L now)
    (h : d.scheduled_for L now = .ok (some u)) : ∃ local_now i, now.astimezone (.zone d.timezone_name z) = .ok local_now ∧
      (local_now.wall : Int) = now.instant + o ∧ Next cron.occurrences horizon (firstMinute local_now.wall) i ∧
      UtcAt (60000000 * i - o) u := by
  cases hl : now.astimezone (.zone d.timezone_name z) with
  | error e =>
    rw [hd.outOfZone hl] at h
    cases h
  | ok local_now =>
    obtain ⟨i, v, hv, hi, hat⟩ := (((hd.result hk hl).answers hz).returns _).mp h
    cases hv
    exact ⟨local_now, i, rfl, local_wall hd hz hk hl, hi, hat⟩

theorem known_utc (h : now.tzinfo = .utc) : Known L now := fun _ _ hz => by rw [h] at hz; cases hz

/-- A UTC time whose local time is in the calendar. -/
theorem exists_local (hz : z.IsFixed o) (hu : UtcAt (60000000 * c - o) u) (hc : c < 3652059 * 1440) :
    ∃ local_now, u.astimezone (.zone key z) = .ok local_now ∧ local_now.wall = 60000000 * c := by
  have hshows : shows z (60000000 * c - o) = 60000000 * c := by
    rw [shows, hz.2]
    ring
  rw [astimezone_of_utc hu, hshows]
  obtain ⟨l, hl⟩ : ∃ l, DateTime.make (60000000 * c) (z.fromutc (60000000 * c - o)).2 (.zone key z) = .ok l :=
    DateTime.exists_make _ _ (by omega) (by simp only [wallEnd, dayMicros]; omega)
  have hwall := (DateTime.make_ok hl).1
  exact ⟨l, hl, by omega⟩

/-- The next run is the least minute the expression names from the present minute on; a later time has no
earlier run, and a run is its own next run. -/
theorem next_run_least (hd : CronIn L d cron z) (hz : z.IsFixed o) :
    (∀ now local_now, Known L now → now.astimezone (.zone d.timezone_name z) = .ok local_now →
      (local_now.wall : Int) = now.instant + o ∧
        Answers cron o (firstMinute local_now.wall) (d.scheduled_for L now)) ∧
    (∀ now e, now.astimezone (.zone d.timezone_name z) = .error e → d.scheduled_for L now = .error outOfRange) ∧
    (∀ now now' u u', Known L now → Known L now' → now.instant ≤ now'.instant →
      d.scheduled_for L now = .ok (some u) → d.scheduled_for L now' = .ok (some u') → u.instant ≤ u'.instant) ∧
    (∀ now u, Known L now → d.scheduled_for L now = .ok (some u) → d.scheduled_for L u = .ok (some u)) := by
  refine ⟨fun now local_now hk hl => ⟨local_wall hd hz hk hl, (hd.result hk hl).answers hz⟩,
    fun now e he => hd.outOfZone he, ?_, ?_⟩
  · intro now now' u u' hk hk' hle h h'
    obtain ⟨l, i, _, hw, hi, hu⟩ := next_of_slot hd hz hk h
    obtain ⟨l', i', _, hw', hi', hu'⟩ := next_of_slot hd hz hk' h'
    have hfirst : firstMinute l.wall ≤ firstMinute l'.wall :=
      Nat.div_le_div_right (Nat.add_le_add_right (by omega) _)
    have hmin := hi.mono hi' hfirst
    rw [DateTime.instant_utc hu.tzinfo, DateTime.instant_utc hu'.tzinfo, hu.wall, hu'.wall]
    omega
  · intro now u hk h
    obtain ⟨l, i, _, _, hi, hu⟩ := next_of_slot hd hz hk h
    obtain ⟨l', hl', hw'⟩ := exists_local hz hu (next_lt hi)
    have hfirst : firstMinute l'.wall = i := by
      rw [hw', firstMinute]
      omega
    refine (((hd.result (known_utc hu.tzinfo) hl').answers hz).returns _).mpr ⟨i, u, rfl, ?_, hu⟩
    rw [hfirst]
    exact Next.self hi.mem (by decide)

end Fixed

section Sample

def cronSchedule (expression : String) : ScheduleDefinition :=
  { id := "order-status-demo", version := "0.1.0", agent := "customer-service-agent", schedule_type := "cron",
    expression := some expression }

def everyMinute : CronExpression := ⟨List.range 60, List.range 24, List.range' 1 31, List.range' 1 12, List.range 7⟩

theorem cronIn_everyMinute : CronIn utcOnly (cronSchedule "* * * * *") everyMinute (.fixed 0) :=
  ⟨rfl, ⟨"* * * * *", rfl, rfl⟩, rfl⟩

theorem fixed_isFixed (o : Int) : (Zone.fixed o).IsFixed o := ⟨fun _ _ => rfl, fun _ => rfl⟩

theorem names_epoch : 719162 * 1440 ∈ everyMinute.occurrences :=
  ⟨by decide, by decide, by decide, by decide, by decide, by decide⟩

theorem next_run_sample : (cronSchedule "* * * * *").scheduled_for utcOnly epoch = .ok (some epoch) := by
  obtain ⟨_, hanswers⟩ := (next_run_least cronIn_everyMinute (fixed_isFixed 0)).1 epoch
    ⟨epoch.wall, false, .zone "UTC" (.fixed 0), epoch.inRange⟩ (known_utc rfl) rfl
  exact (hanswers.returns _).mpr ⟨719162 * 1440, epoch, rfl, Next.self names_epoch (by decide), ⟨by decide, rfl, rfl⟩⟩

/-- Half a minute before the year 10000. -/
def lastMinute : DateTime := ⟨wallEnd - 30000000, false, .utc, by decide⟩

/-- At the end of the calendar there is no minute left, but the error is another one. -/
theorem calendar_ends : ¬ ∀ (L : Library) (d : ScheduleDefinition) (cron : CronExpression) (z : Zone) (o : Int)
    (now local_now : DateTime), CronIn L d cron z → z.IsFixed o → Known L now →
    now.astimezone (.zone d.timezone_name z) = .ok local_now →
    ((∃ msg, d.scheduled_for L now = .error (.valueError msg)) ↔
      ∀ i, ¬ Next cron.occurrences horizon (firstMinute local_now.wall) i) := by
  intro h
  have hl : lastMinute.astimezone (.zone "UTC" (.fixed 0)) =
      .ok ⟨wallEnd - 30000000, false, .zone "UTC" (.fixed 0), by decide⟩ := rfl
  obtain ⟨msg, hmsg⟩ := (h utcOnly (cronSchedule "* * * * *") everyMinute (.fixed 0) 0 lastMinute _ cronIn_everyMinute
    (fixed_isFixed 0) (known_utc rfl) hl).mpr fun i hi => absurd (next_lt hi) (Nat.not_lt_of_le hi.le)
  have hanswers := (cronIn_everyMinute.result (known_utc rfl) hl).answers (fixed_isFixed 0)
  exact absurd (hanswers.raises.mp ⟨msg, hmsg⟩).2 (by decide)

end Sample

end EnterpriseCopilot.Schedule
