import EnterpriseCopilot.Schedule.NextRun

/-! Slots in a zone whose offset changes. -/

namespace EnterpriseCopilot.Schedule

open EnterpriseCopilot.Lib
open EnterpriseCopilot.Python

/-- The instant of a wall clock in its first reading. -/
def firstReading (z : Zone) (wall : Nat) : Int := wall - z.utcoffset wall false

/-- The instant in its second reading, which is another one if a change of the offset skips or repeats it. -/
def secondReading (z : Zone) (wall : Nat) : Int := wall - z.utcoffset wall true

/-- What PEP 495 says of a zone. The clock gets to a time at one of its readings at the latest, stays below it before
both, and between them has the offset from before the change, that of the first, or from after it, that of the second.
It shows a time at both readings, but one that it skips with the offset of the other reading. -/
structure Pep495 (z : Zone) : Prop where
  before {wall : Nat} {u : Int} : u < min (firstReading z wall) (secondReading z wall) → shows z u < wall
  after {wall : Nat} {u : Int} : max (firstReading z wall) (secondReading z wall) ≤ u → wall ≤ shows z u
  between {wall : Nat} {u : Int} : min (firstReading z wall) (secondReading z wall) ≤ u →
    u < max (firstReading z wall) (secondReading z wall) →
      (z.fromutc u).1 = z.utcoffset wall false ∨ (z.fromutc u).1 = z.utcoffset wall true
  shown (wall : Nat) (fold : Bool) : (z.fromutc (wall - z.utcoffset wall fold)).1 =
    z.utcoffset wall (if z.utcoffset wall false < z.utcoffset wall true then !fold else fold)

theorem pep495_fixed (offset : Int) : Pep495 (.fixed offset) where
  before h := by
    simp only [firstReading, secondReading, shows, Zone.fixed] at h ⊢
    omega
  after h := by
    simp only [firstReading, secondReading, shows, Zone.fixed] at h ⊢
    omega
  between _ _ := .inl rfl
  shown _ _ := rfl

/-- The present is between the two readings of a time, and the change that skips or repeats this time is behind. -/
structure Amid (z : Zone) (wall : Nat) (now : Int) : Prop where
  from_ : min (firstReading z wall) (secondReading z wall) ≤ now
  until_ : now < max (firstReading z wall) (secondReading z wall)
  behind : (z.fromutc now).1 = z.utcoffset wall true

/-- The present is given in the zone itself as a time that it skips, and `wall` is between this time and what the clock
shows instead. -/
structure Skewed (z : Zone) (wall : Nat) (local_now : DateTime) : Prop where
  after : min (local_now.wall : Int) (shows z local_now.instant) < wall
  upto : wall ≤ max (local_now.wall : Int) (shows z local_now.instant)

section Zone

variable {z : Zone} {wall : Nat} {now : Int} {local_now : DateTime}

/-- The clock has got to a time from its first reading on, except while the present is amid its readings. -/
theorem Pep495.reached_iff (hz : Pep495 z) :
    (wall ≤ shows z now ↔ firstReading z wall ≤ now) ↔ ¬ Amid z wall now := by
  by_cases hlo : min (firstReading z wall) (secondReading z wall) ≤ now
  · by_cases hhi : now < max (firstReading z wall) (secondReading z wall)
    · have hamid : Amid z wall now ↔ (z.fromutc now).1 = z.utcoffset wall true :=
        ⟨Amid.behind, fun h => ⟨hlo, hhi, h⟩⟩
      have hoffset := hz.between hlo hhi
      rw [hamid]
      simp only [firstReading, secondReading, shows] at hlo hhi ⊢
      omega
    · have hshows := hz.after (not_lt.mp hhi)
      exact ⟨fun _ h => hhi h.until_, fun _ => ⟨fun _ => by omega, fun _ => hshows⟩⟩
  · have hshows := hz.before (not_le.mp hlo)
    exact ⟨fun _ h => hlo h.from_, fun _ => ⟨fun h => by omega, fun h => by omega⟩⟩

/-- So has the wall clock of `now`, unless one of the two holds without the other. -/
theorem Pep495.come_iff (hz : Pep495 z) : (wall ≤ local_now.wall ↔ firstReading z wall ≤ local_now.instant) ↔
    (Amid z wall local_now.instant ↔ Skewed z wall local_now) := by
  have hreached : (wall ≤ shows z local_now.instant ↔ firstReading z wall ≤ local_now.instant) ↔
      ¬ Amid z wall local_now.instant := hz.reached_iff
  have hskewed : Skewed z wall local_now ↔ ¬ (wall ≤ local_now.wall ↔ (wall : Int) ≤ shows z local_now.instant) := by
    constructor
    · rintro ⟨hafter, hupto⟩
      omega
    · intro h
      constructor <;> omega
  rw [hskewed]
  by_cases hamid : Amid z wall local_now.instant
  · simp only [hamid, not_true_eq_false, iff_false] at hreached
    simp only [hamid, true_iff]
    tauto
  · simp only [hamid, not_false_eq_true, iff_true] at hreached
    simp only [hamid, false_iff, not_not, hreached]

end Zone

/-- The UTC calendar holds an instant. -/
def InUtc (t : Int) : Prop := 0 ≤ t ∧ t < wallEnd

theorem UtcAt.inUtc {t : Int} {u : DateTime} (h : UtcAt t u) : InUtc t := by
  have hin : (u.wall : Int) < wallEnd := by exact_mod_cast u.inRange
  exact h.wall ▸ ⟨Int.natCast_nonneg _, hin⟩

theorem InUtc.exists_utcAt {t : Int} (h : InUtc t) : ∃ u, UtcAt t u := by
  obtain ⟨u, hu⟩ := DateTime.exists_make false .utc h.1 h.2
  obtain ⟨hw, hf, htz⟩ := DateTime.make_ok hu
  exact ⟨u, hw, hf, htz⟩

/-- The reading of the minute `i` that the search takes: that of the present if it is the present, else the first. -/
def minuteFold (local_now : DateTime) (i : Nat) : Bool := local_now.fold && 60000000 * i = local_now.wall

def minuteReading (z : Zone) (local_now : DateTime) (i : Nat) : Int :=
  60000000 * i - z.utcoffset (60000000 * i : Nat) (minuteFold local_now i)

/-- No change of the offset gets between the present and the next minute that is named, which comes as a time of the
calendar: the present is not amid its readings, and if the clock skips the minute, what it shows instead is named. -/
structure Undisturbed (z : Zone) (cron : CronExpression) (local_now : DateTime) (i : Nat) : Prop where
  ahead : 60000000 * i ≠ local_now.wall → firstReading z (60000000 * i) ≠ local_now.instant →
    (Amid z (60000000 * i) local_now.instant ↔ Skewed z (60000000 * i) local_now)
  skipped : z.utcoffset (60000000 * i : Nat) false < z.utcoffset (60000000 * i : Nat) true →
    ∃ w : Nat, (w : Int) = 60000000 * i +
        (z.utcoffset (60000000 * i : Nat) (!minuteFold local_now i) - z.utcoffset (60000000 * i : Nat) (minuteFold local_now i)) ∧
      w / 60000000 ∈ cron.occurrences

section Cron

variable {L : Library} {d : ScheduleDefinition} {cron : CronExpression} {z : Zone} {key : String}
  {now local_now u : DateTime} {i : Nat} {t : Int}

/-- What the clock shows at the reading of a minute that is named matches unless the clock skips the minute. -/
theorem Pep495.shown_iff (hz : Pep495 z) (hnamed : i ∈ cron.occurrences) {fold : Bool}
    (hu : UtcAt (60000000 * i - z.utcoffset (60000000 * i : Nat) fold) u) :
    (∃ shown, u.astimezone (.zone key z) = .ok shown ∧ cron.matches_ shown = true) ↔
      (z.utcoffset (60000000 * i : Nat) false < z.utcoffset (60000000 * i : Nat) true →
        ∃ w : Nat, (w : Int) = 60000000 * i +
            (z.utcoffset (60000000 * i : Nat) (!fold) - z.utcoffset (60000000 * i : Nat) fold) ∧
          w / 60000000 ∈ cron.occurrences) := by
  obtain ⟨offset, hoffset⟩ : ∃ offset, z.utcoffset (60000000 * i : Nat) fold = offset := ⟨_, rfl⟩
  have hshown := hz.shown (60000000 * i) fold
  simp only [Nat.cast_mul, Nat.cast_ofNat] at hoffset hshown hu ⊢
  rw [hoffset] at hshown hu ⊢
  have hclock : (∃ shown, u.astimezone (.zone key z) = .ok shown ∧ cron.matches_ shown = true) ↔
      ∃ w : Nat, (w : Int) = shows z (60000000 * i - offset) ∧ w / 60000000 ∈ cron.occurrences := by
    rw [astimezone_of_utc hu]
    constructor
    · rintro ⟨shown, hshown, hmatch⟩
      exact ⟨shown.wall, (DateTime.make_ok hshown).1, matches_iff.mp hmatch⟩
    · rintro ⟨w, hw, hnamed⟩
      have hin := hnamed.inRange
      rw [← hw]
      obtain ⟨shown, hshown⟩ : ∃ shown, DateTime.make w (z.fromutc (60000000 * i - offset)).2 (.zone key z) = .ok shown :=
        DateTime.exists_make _ _ (Int.natCast_nonneg w) (by simp only [wallEnd, dayMicros]; omega)
      have hwall : shown.wall = w := by exact_mod_cast (DateTime.make_ok hshown).1
      exact ⟨shown, hshown, matches_iff.mpr (hwall ▸ hnamed)⟩
  rw [hclock, shows, hshown]
  split
  · rename_i hgap
    simp only [hgap, true_imp_iff, sub_add_eq_add_sub, add_sub_assoc]
  · rename_i hgap
    simp only [hgap, false_imp_iff, iff_true, hoffset, sub_add_cancel]
    exact ⟨60000000 * i, by push_cast; rfl, by rwa [Nat.mul_div_cancel_left _ (by decide)]⟩

/-- What the search returns in a zone of any kind. -/
theorem slot_iff (hd : CronIn L d cron z) (hk : Known L now)
    (hl : now.astimezone (.zone d.timezone_name z) = .ok local_now) : d.scheduled_for L now = .ok (some u) ↔
      ∃ i : Nat, Next cron.occurrences horizon (firstMinute local_now.wall) i ∧ UtcAt (minuteReading z local_now i) u := by
  have hresult := hd.result hk hl
  generalize d.scheduled_for L now = r at hresult
  cases hresult with
  | @found i m next wall tzinfo reading =>
    have hfold : m.fold = minuteFold local_now i := by
      rw [reading, minuteFold]
      by_cases hc : i = firstMinute local_now.wall
      · simp [← hc]
      · have hne : 60000000 * i ≠ local_now.wall := by
          rintro heq
          exact hc (by rw [← heq, firstMinute]; omega)
        simp [hc, hne]
    have hinst : m.instant = minuteReading z local_now i := by
      simp only [DateTime.instant, DateTime.utcoffset, tzinfo, TzInfo.utcoffset, hfold, wall, minuteReading, Nat.cast_mul,
        Nat.cast_ofNat]
    constructor
    · intro h
      obtain ⟨v, hv, h⟩ := bind_ok h
      cases h
      exact ⟨i, next, hinst ▸ (utcAt_of_astimezone tzinfo).mp hv⟩
    · rintro ⟨j, hj, hu⟩
      obtain rfl := next.unique hj
      rw [(utcAt_of_astimezone tzinfo).mpr (hinst ▸ hu)]
      rfl
  | none empty room =>
    constructor
    · rintro ⟨⟩
    · rintro ⟨j, hj, _⟩
      exact absurd hj (empty j)
  | overflow empty last =>
    constructor
    · rintro ⟨⟩
    · rintro ⟨j, hj, _⟩
      exact absurd hj (empty j)

/-- The minute of the present is read as the present. -/
theorem minuteReading_now (htz : local_now.tzinfo = .zone key z) (hi : 60000000 * i = local_now.wall) :
    minuteReading z local_now i = local_now.instant := by
  have hwall : (60000000 * i : Int) = local_now.wall := by exact_mod_cast hi
  simp only [minuteReading, minuteFold, hi, hwall, decide_true, Bool.and_true, DateTime.instant, DateTime.utcoffset, htz,
    TzInfo.utcoffset]

theorem minuteReading_later (hi : 60000000 * i ≠ local_now.wall) :
    minuteReading z local_now i = firstReading z (60000000 * i) := by
  simp only [minuteReading, minuteFold, hi, decide_false, Bool.and_false, firstReading, Nat.cast_mul, Nat.cast_ofNat]

/-- The minute is read at the present or later, exactly if the present is not amid its readings. -/
theorem Pep495.ahead_iff (hz : Pep495 z) (htz : local_now.tzinfo = .zone key z) (hi : local_now.wall ≤ 60000000 * i) :
    local_now.instant ≤ minuteReading z local_now i ↔
      (60000000 * i ≠ local_now.wall → firstReading z (60000000 * i) ≠ local_now.instant →
        (Amid z (60000000 * i) local_now.instant ↔ Skewed z (60000000 * i) local_now)) := by
  by_cases hnow : 60000000 * i = local_now.wall
  · simp only [minuteReading_now htz hnow, le_refl, hnow, ne_eq, not_true_eq_false, false_imp_iff]
  · have hlater : ¬ 60000000 * i ≤ local_now.wall := by omega
    have hcome : (60000000 * i ≤ local_now.wall ↔ firstReading z (60000000 * i) ≤ local_now.instant) ↔
        (Amid z (60000000 * i) local_now.instant ↔ Skewed z (60000000 * i) local_now) := hz.come_iff
    rw [minuteReading_later hnow, ← hcome]
    simp only [hlater, false_iff, not_le, ne_eq, hnow, not_false_eq_true, true_imp_iff]
    omega

/-- A run comes neither too early nor at a minute that is not named, exactly if no change of the offset is in the way. -/
theorem cron_right_iff (hd : CronIn L d cron z) (hz : Pep495 z) (hk : Known L now) :
    (∀ u, d.scheduled_for L now = .ok (some u) → now.instant ≤ u.instant ∧
      ∃ shown, u.astimezone (.zone d.timezone_name z) = .ok shown ∧ cron.matches_ shown = true) ↔
    ∀ local_now, now.astimezone (.zone d.timezone_name z) = .ok local_now →
      ∀ i, Next cron.occurrences horizon (firstMinute local_now.wall) i → InUtc (minuteReading z local_now i) →
        Undisturbed z cron local_now i := by
  have hahead : ∀ {local_now u i}, now.astimezone (.zone d.timezone_name z) = .ok local_now →
      Next cron.occurrences horizon (firstMinute local_now.wall) i → UtcAt (minuteReading z local_now i) u →
      (now.instant ≤ u.instant ↔ (60000000 * i ≠ local_now.wall → firstReading z (60000000 * i) ≠ local_now.instant →
        (Amid z (60000000 * i) local_now.instant ↔ Skewed z (60000000 * i) local_now))) := by
    intro local_now u i hl hi hu
    have hle : local_now.wall ≤ 60000000 * i := by
      have hfirst := hi.le
      unfold firstMinute at hfirst
      omega
    rw [DateTime.instant_utc hu.tzinfo, hu.wall, ← DateTime.instant_of_astimezone hl,
      hz.ahead_iff (tzinfo_local hk hd.zone hl) hle]
  constructor
  · intro h local_now hl i hi hin
    obtain ⟨u, hu⟩ := hin.exists_utcAt
    obtain ⟨hle, hshown⟩ := h u ((slot_iff hd hk hl).mpr ⟨i, hi, hu⟩)
    exact ⟨(hahead hl hi hu).mp hle, (hz.shown_iff hi.mem hu).mp hshown⟩
  · intro h u hu
    cases hl : now.astimezone (.zone d.timezone_name z) with
    | error e =>
      rw [hd.outOfZone hl] at hu
      cases hu
    | ok local_now =>
      obtain ⟨i, hi, hat⟩ := (slot_iff hd hk hl).mp hu
      have hgood := h local_now hl i hi hat.inUtc
      exact ⟨(hahead hl hi hat).mpr hgood.ahead, (hz.shown_iff hi.mem hat).mpr hgood.skipped⟩

end Cron

/-- A one-shot schedule whose `at` reads as the wall clock, without an offset. -/
structure OneShotAt (L : Library) (d : ScheduleDefinition) (z : Zone) (wall : Nat) : Prop where
  type : d.schedule_type = "one_shot"
  at_ : ∃ text parsed, truthy d.at_ = some text ∧ L.isoParser text = .ok parsed ∧ parsed.wall = wall ∧ parsed.offset = none
  zone : L.zoneInfo d.timezone_name = .ok z

/-- The present is not amid the readings of `at`, and `at`, once it has come, is a time of the calendar and the present
one that the zone can express; before it comes, this is asked if both are. -/
structure InStep (z : Zone) (wall : Nat) (now : DateTime) (key : String) : Prop where
  come : firstReading z wall ≤ now.instant → InUtc (firstReading z wall) ∧
    ∃ local_now, now.astimezone (.zone key z) = .ok local_now ∧ (Amid z wall local_now.instant ↔ Skewed z wall local_now)
  ahead : now.instant < firstReading z wall → InUtc (firstReading z wall) →
    ∀ local_now, now.astimezone (.zone key z) = .ok local_now → (Amid z wall local_now.instant ↔ Skewed z wall local_now)

section OneShot

variable {L : Library} {d : ScheduleDefinition} {z : Zone} {wall : Nat} {now local_now : DateTime}

theorem due_iff (hd : OneShotAt L d z wall) (hk : Known L now)
    (hl : now.astimezone (.zone d.timezone_name z) = .ok local_now) : (∃ u, d.scheduled_for L now = .ok (some u)) ↔
      wall ≤ local_now.wall ∧ InUtc (firstReading z wall) := by
  obtain ⟨text, parsed, htext, hiso, rfl, hoff⟩ := hd.at_
  have horZone : parsed.orZone (.zone d.timezone_name z) = ⟨parsed.wall, false, .zone d.timezone_name z, parsed.inRange⟩ := by
    simp [Parsed.orZone, Parsed.tzinfo, hoff]
  have hinst : (parsed.orZone (.zone d.timezone_name z)).instant = firstReading z parsed.wall := by
    rw [horZone]
    rfl
  have hble : (parsed.orZone (.zone d.timezone_name z)).ble local_now = decide (parsed.wall ≤ local_now.wall) := by
    simp [horZone, DateTime.ble, tzinfo_local hk hd.zone hl, TzInfo.same]
  have hslot : d.scheduled_for L now =
      if parsed.wall ≤ local_now.wall then (parsed.orZone (.zone d.timezone_name z)).astimezone .utc >>= fun u => .ok (some u)
      else .ok none := by
    simp only [ScheduleDefinition.scheduled_for, timezone_eq hd.zone, ok_bind, hl, hd.type, if_true,
      ScheduleDefinition.oneShotSlot, htext, Library.fromisoformat, hiso, hble, decide_eq_true_eq]
    rfl
  rw [hslot, ← hinst, InUtc, ← DateTime.exists_astimezone_utc]
  split
  · rename_i hle
    constructor
    · rintro ⟨u, hu⟩
      obtain ⟨v, hv, _⟩ := bind_ok hu
      exact ⟨hle, v, hv⟩
    · rintro ⟨_, u, hu⟩
      exact ⟨u, by rw [hu]; rfl⟩
  · rename_i hle
    constructor
    · rintro ⟨u, ⟨⟩⟩
    · exact fun h => absurd h.1 hle

/-- A one-shot schedule is due from its time on, exactly if no change of the offset is in the way. -/
theorem one_shot_right_iff (hd : OneShotAt L d z wall) (hz : Pep495 z) (hk : Known L now) :
    ((∃ u, d.scheduled_for L now = .ok (some u)) ↔ firstReading z wall ≤ now.instant) ↔
      InStep z wall now d.timezone_name := by
  cases hl : now.astimezone (.zone d.timezone_name z) with
  | error e =>
    have hslot : d.scheduled_for L now = .error outOfRange := by
      obtain rfl := astimezone_error hl
      simp only [ScheduleDefinition.scheduled_for, timezone_eq hd.zone, ok_bind, hl]
      rfl
    simp only [hslot, reduceCtorEq, exists_false, false_iff]
    constructor
    · exact fun h => ⟨fun hcome => absurd hcome h, by simp [hl]⟩
    · intro h hcome
      obtain ⟨_, local_now, hlocal, _⟩ := h.come hcome
      rw [hl] at hlocal
      cases hlocal
  | ok local_now =>
    rw [due_iff hd hk hl, ← DateTime.instant_of_astimezone hl]
    have hcome : (wall ≤ local_now.wall ↔ firstReading z wall ≤ local_now.instant) ↔
        (Amid z wall local_now.instant ↔ Skewed z wall local_now) := hz.come_iff
    constructor
    · intro h
      constructor
      · intro hpast
        rw [← DateTime.instant_of_astimezone hl] at hpast
        obtain ⟨hle, hin⟩ := h.mpr hpast
        exact ⟨hin, local_now, hl, hcome.mp ⟨fun _ => hpast, fun _ => hle⟩⟩
      · intro hahead hin local_now' hl'
        rw [hl] at hl'
        cases hl'
        exact hcome.mp ⟨fun hle => h.mp ⟨hle, hin⟩, fun hpast => (h.mpr hpast).1⟩
    · intro h
      constructor
      · rintro ⟨hle, hin⟩
        by_contra hpast
        have hstep := h.ahead (DateTime.instant_of_astimezone hl ▸ not_le.mp hpast) hin local_now hl
        exact hpast ((hcome.mpr hstep).mp hle)
      · intro hpast
        obtain ⟨hin, local_now', hl', hstep⟩ := h.come (DateTime.instant_of_astimezone hl ▸ hpast)
        rw [hl] at hl'
        cases hl'
        exact ⟨(hcome.mpr hstep).mpr hpast, hin⟩

end OneShot

/-- Slots are right across changes of the offset exactly in these cases. -/
theorem transitions_iff {L : Library} {now : DateTime} (hk : Known L now) :
    (∀ d cron z, CronIn L d cron z → Pep495 z →
      ((∀ u, d.scheduled_for L now = .ok (some u) → now.instant ≤ u.instant ∧
          ∃ shown, u.astimezone (.zone d.timezone_name z) = .ok shown ∧ cron.matches_ shown = true) ↔
        ∀ local_now, now.astimezone (.zone d.timezone_name z) = .ok local_now →
          ∀ i, Next cron.occurrences horizon (firstMinute local_now.wall) i → InUtc (minuteReading z local_now i) →
            Undisturbed z cron local_now i)) ∧
    (∀ d z wall, OneShotAt L d z wall → Pep495 z →
      (((∃ u, d.scheduled_for L now = .ok (some u)) ↔ firstReading z wall ≤ now.instant) ↔
        InStep z wall now d.timezone_name)) :=
  ⟨fun _ _ _ hd hz => cron_right_iff hd hz hk, fun _ _ _ hd hz => one_shot_right_iff hd hz hk⟩

section Sample

theorem transitions_sample : Known utcOnly epoch ∧
    ∀ u, (cronSchedule "* * * * *").scheduled_for utcOnly epoch = .ok (some u) → epoch.instant ≤ u.instant ∧
      ∃ shown, u.astimezone (.zone "UTC" (.fixed 0)) = .ok shown ∧ everyMinute.matches_ shown = true := by
  refine ⟨known_utc rfl, ((transitions_iff (known_utc rfl)).1 _ _ _ cronIn_everyMinute (pep495_fixed 0)).mpr ?_⟩
  rintro local_now ⟨⟩ i hi _
  obtain rfl := Next.eq_self (c := 719162 * 1440) names_epoch hi
  exact ⟨fun hne => absurd rfl hne, fun hgap => absurd hgap (by decide)⟩

/-- A zone that changes its offset once: in a gap the first reading has the old offset, in a repeated hour too. -/
def switch (change before after : Int) : Zone where
  utcoffset w fold := if w < change + (if fold then min before after else max before after) then before else after
  fromutc u := if u < change then (before, false) else (after, decide (u + after < change + before))
  round_trip u := by
    by_cases h : u < change
    · have hlt : u + before < change + max before after := by omega
      simp [h, hlt]
    · by_cases hfold : u + after < change + before
      · have hlt : ¬ u + after < change + min before after := by omega
        simp [h, hfold, hlt]
      · have hlt : ¬ u + after < change + max before after := by omega
        simp [h, hfold, hlt]

section Switch

variable {change before after : Int}

theorem switch_fromutc (u : Int) : ((switch change before after).fromutc u).1 = if u < change then before else after := by
  simp only [switch]
  split <;> rfl

theorem switch_first (w : Int) : (switch change before after).utcoffset w false =
    if w < change + max before after then before else after := rfl

theorem switch_second (w : Int) : (switch change before after).utcoffset w true =
    if w < change + min before after then before else after := rfl

theorem pep495_switch (change before after : Int) : Pep495 (switch change before after) where
  before h := by
    simp only [firstReading, secondReading, shows, switch_fromutc, switch_first, switch_second] at h ⊢
    split_ifs at h ⊢ <;> omega
  after h := by
    simp only [firstReading, secondReading, shows, switch_fromutc, switch_first, switch_second] at h ⊢
    split_ifs at h ⊢ <;> omega
  between hlo hhi := by
    simp only [firstReading, secondReading, switch_fromutc, switch_first, switch_second] at hlo hhi ⊢
    split_ifs at hlo hhi ⊢ <;> omega
  shown wall fold := by
    cases fold
    · simp only [switch_fromutc, switch_first, switch_second, Bool.not_false]
      split_ifs <;> simp only [switch_first, switch_second] <;> split_ifs <;> omega
    · simp only [switch_fromutc, switch_first, switch_second, Bool.not_true]
      split_ifs <;> simp only [switch_first, switch_second] <;> split_ifs <;> omega

end Switch

/-- Central European summer time ends on 25 October 2026, at one o'clock UTC. -/
def autumn : Zone := switch (739913 * 86400000000 + 3600000000) 7200000000 3600000000

/-- A quarter to three on that day. -/
def quarterToThree : Nat := 739913 * dayMicros + 165 * 60000000

def autumnLibrary : Library where
  zoneInfo key := if key = "Europe/Berlin" then .ok autumn else .error .notFound
  isoParser text := if text = "2026-10-25T02:45" then .ok ⟨quarterToThree, none, by decide⟩ else .error "Invalid isoformat string"

def nightly : ScheduleDefinition := { cronSchedule "45 2 * * *" with timezone_name := "Europe/Berlin" }

def nightlyCron : CronExpression := ⟨[45], [2], List.range' 1 31, List.range' 1 12, List.range 7⟩

def once : ScheduleDefinition :=
  { nightly with schedule_type := "one_shot", at_ := some "2026-10-25T02:45" }

/-- 01:44:30 UTC, when the clock shows 02:44:30 for the second time. -/
def repeated : DateTime := ⟨739913 * dayMicros + 6270000000, false, .utc, by decide⟩

def repeatedLocal : DateTime := ⟨739913 * dayMicros + 9870000000, true, .zone "Europe/Berlin" autumn, by decide⟩

theorem repeated_local : repeated.astimezone (.zone "Europe/Berlin" autumn) = .ok repeatedLocal := by
  have hutc : UtcAt (739913 * 86400000000 + 6270000000) repeated := ⟨by decide, rfl, rfl⟩
  have hwall : shows autumn (739913 * 86400000000 + 6270000000) = repeatedLocal.wall := by decide
  have hfold : (autumn.fromutc (739913 * 86400000000 + 6270000000)).2 = repeatedLocal.fold := by decide
  rw [astimezone_of_utc hutc, hwall, hfold]
  exact DateTime.make_wall repeatedLocal

/-- In the repeated hour the next run is an hour ago, and a time that has come an hour ago is not due. -/
theorem repeated_hour : (¬ ∀ (L : Library) (d : ScheduleDefinition) (cron : CronExpression) (z : Zone) (now u : DateTime),
      CronIn L d cron z → Pep495 z → Known L now → d.scheduled_for L now = .ok (some u) → now.instant ≤ u.instant) ∧
    (¬ ∀ (L : Library) (d : ScheduleDefinition) (z : Zone) (wall : Nat) (now : DateTime),
      OneShotAt L d z wall → Pep495 z → Known L now → firstReading z wall ≤ now.instant →
        ∃ u, d.scheduled_for L now = .ok (some u)) := by
  have hcron : CronIn autumnLibrary nightly nightlyCron autumn := ⟨rfl, ⟨"45 2 * * *", rfl, rfl⟩, rfl⟩
  have honce : OneShotAt autumnLibrary once autumn quarterToThree :=
    ⟨rfl, ⟨"2026-10-25T02:45", ⟨quarterToThree, none, by decide⟩, rfl, rfl, rfl, rfl⟩, rfl⟩
  have hnames : 739913 * 1440 + 165 ∈ nightlyCron.occurrences :=
    ⟨by decide, by decide, by decide, by decide, by decide, by decide⟩
  constructor
  · intro h
    have hslot := (slot_iff (u := ⟨739913 * dayMicros + 45 * 60000000, false, .utc, by decide⟩) hcron (known_utc rfl)
      repeated_local).mpr ⟨739913 * 1440 + 165, Next.self hnames (by decide), by decide, rfl, rfl⟩
    exact absurd (h _ _ _ _ _ _ hcron (pep495_switch _ _ _) (known_utc rfl) hslot) (by decide)
  · intro h
    have hdue := h autumnLibrary once autumn quarterToThree repeated honce (pep495_switch _ _ _) (known_utc rfl) (by decide)
    exact absurd ((due_iff honce (known_utc rfl) repeated_local).mp hdue).1 (by decide)

end Sample

end EnterpriseCopilot.Schedule
