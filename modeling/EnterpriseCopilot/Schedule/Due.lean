import EnterpriseCopilot.Schedule.Definition

/-! When the slot of a schedule lies after the time it was computed for. -/

namespace EnterpriseCopilot.Schedule

open EnterpriseCopilot.Python

section Rounding

theorem roundHalfEven_bounds (a b : Nat) :
    a / b ≤ roundHalfEven a b ∧ roundHalfEven a b ≤ a / b + 1 := by
  have hpar := Nat.mod_lt (a / b) (show 0 < 2 by decide)
  unfold roundHalfEven
  split
  · exact ⟨le_rfl, Nat.le_succ _⟩
  split
  · exact ⟨Nat.le_succ _, le_rfl⟩
  · exact ⟨Nat.le_add_right _ _, by omega⟩

/-- Truncation gives the whole seconds, or one more. -/
theorem truncSeconds_bounds (n : Nat) :
    (n / 1000000 : Nat) ≤ truncSeconds n ∧ truncSeconds n ≤ (n / 1000000 : Nat) + 1 := by
  obtain ⟨k, hk⟩ : ∃ k, k = 52 - Nat.log2 (n / 1000000) := ⟨_, rfl⟩
  have htrunc : truncSeconds n = (roundHalfEven (n * 2 ^ k) 1000000 / 2 ^ k : Nat) := by
    simp [truncSeconds, hk]
  have hpos : 0 < 2 ^ k := Nat.two_pow_pos k
  have hdiv : n * 2 ^ k / 1000000 / 2 ^ k = n / 1000000 := by
    rw [Nat.div_div_eq_div_mul, Nat.mul_div_mul_right _ _ hpos]
  obtain ⟨hlo, hhi⟩ := roundHalfEven_bounds (n * 2 ^ k) 1000000
  have hlow := Nat.div_le_div_right (c := 2 ^ k) hlo
  rw [hdiv] at hlow
  have hlt : n * 2 ^ k / 1000000 < (n / 1000000 + 1) * 2 ^ k :=
    (Nat.div_lt_iff_lt_mul hpos).mp (by omega)
  have hupp : roundHalfEven (n * 2 ^ k) 1000000 / 2 ^ k ≤ n / 1000000 + 1 :=
    Nat.div_le_of_le_mul (by rw [mul_comm (2 ^ k)]; omega)
  rw [htrunc]
  exact ⟨by exact_mod_cast hlow, by exact_mod_cast hupp⟩

end Rounding

/-- Microseconds since the epoch. -/
def sinceEpoch (now : DateTime) : Nat := (now.instant - epoch.instant).toNat

/-- The seconds round up to the next whole second, which is a slot. -/
structure EarlyInterval (now : DateTime) (n : Int) : Prop where
  rounded : truncSeconds (sinceEpoch now) ≠ (sinceEpoch now / 1000000 : Nat)
  slot : n ∣ (sinceEpoch now / 1000000 : Nat) + 1
  inRange : 719162 * 86400 + (sinceEpoch now / 1000000 + 1) < 3652059 * 86400

/-- The expression does not match the present minute, or this minute has already
begun, and it does match a minute of the following 366 days. -/
structure EarlyCron (cron : CronExpression) (local_now : DateTime) : Prop where
  notNow : ¬ (local_now.wall % 60000000 = 0 ∧ cron.matches_ local_now)
  later : ∃ m u : DateTime, m.tzinfo = local_now.tzinfo ∧ m.wall % 60000000 = 0 ∧
    local_now.wall ≤ m.wall ∧ m.wall < local_now.wall + 60 * 24 * 366 * 60000000 ∧
    cron.matches_ m ∧ m.astimezone .utc = .ok u

/-- The times and schedules for which the slot lies in the future. -/
def Early (L : Library) (d : ScheduleDefinition) (now : DateTime) : Prop :=
  ∃ tz local_now, d.timezone L = .ok tz ∧ now.astimezone tz = .ok local_now ∧
    ((d.schedule_type = "interval" ∧ ∃ n, d.interval_seconds = some n ∧ EarlyInterval now n) ∨
      (d.schedule_type = "cron" ∧ ∃ text cron, truthy d.expression = some text ∧
        CronExpression.parse text = .ok cron ∧ EarlyCron cron local_now))

/-- The schedules and times in question: one of the three types with what it needs,
a zone with one offset in whole seconds, and a time since 1970. -/
structure Covered (L : Library) (d : ScheduleDefinition) (now : DateTime) : Prop where
  kind : d.schedule_type = "one_shot" ∨
    (d.schedule_type = "interval" ∧ ∃ n, d.interval_seconds = some n ∧ 0 < n) ∨
    (d.schedule_type = "cron" ∧ ∃ text cron, truthy d.expression = some text ∧
      CronExpression.parse text = .ok cron)
  zone : ∃ z o, L.zoneInfo d.timezone_name = .ok z ∧ z.IsFixed (1000000 * o)
  known : ∀ key z, now.tzinfo = .zone key z → L.zoneInfo key = .ok z
  since : epoch.instant ≤ now.instant

section Search

variable {cron : CronExpression}

theorem matches_congr {a b : DateTime} (h : a.wall = b.wall) : cron.matches_ a = cron.matches_ b := by
  cases a
  cases b
  subst h
  rfl

/-- A matching minute within reach is enough for the search to succeed, if the
minutes up to it can be expressed in UTC. -/
theorem searchCron_finds {m : DateTime} (hmm : cron.matches_ m) : ∀ {n cursor k}, k < n →
    m.wall = cursor.wall + 60000000 * k → cursor.tzinfo = m.tzinfo →
    (∀ x : DateTime, x.tzinfo = m.tzinfo → cursor.wall ≤ x.wall → x.wall ≤ m.wall →
      ∃ u, x.astimezone .utc = .ok u) →
    ∃ z, searchCron cron n cursor = .ok (some z) := by
  intro n
  induction n with
  | zero => intro cursor k hk; exact absurd hk (Nat.not_lt_zero k)
  | succ n ih =>
    intro cursor k hk hw htz hutc
    unfold searchCron
    split
    · obtain ⟨u, hu⟩ := hutc cursor htz le_rfl (by omega)
      exact ⟨u, by rw [hu]; rfl⟩
    · rename_i hc
      cases k with
      | zero => exact absurd (by rwa [matches_congr hw] at hmm) hc
      | succ k =>
        have hin := m.inRange
        obtain ⟨next, hnext⟩ : ∃ next, cursor.add 60000000 = .ok next :=
          DateTime.exists_make _ _ (by omega) (by omega)
        obtain ⟨hnw, _, hntz⟩ := DateTime.make_ok hnext
        obtain ⟨z, hz⟩ := ih (Nat.lt_of_succ_lt_succ hk) (by omega) (hntz.trans htz)
          fun x hx hle hxm => hutc x hx (by omega) hxm
        exact ⟨z, by rw [hnext]; exact hz⟩

end Search

section Slots

variable {L : Library} {d : ScheduleDefinition} {now local_now slot : DateTime} {key : String}
  {z : Zone} {o : Int}

theorem fixed_instant (hz : z.IsFixed o) {x : DateTime} (hx : x.tzinfo = .zone key z) :
    x.instant = x.wall - o := by
  simp [DateTime.instant, DateTime.utcoffset, hx, TzInfo.utcoffset, hz.1]

/-- A one-shot slot is not in the future. -/
theorem oneShot_due (hz : z.IsFixed o) (hl : local_now.tzinfo = .zone key z)
    (h : d.oneShotSlot L (.zone key z) local_now = .ok (some slot)) :
    slot.instant ≤ local_now.instant := by
  unfold ScheduleDefinition.oneShotSlot at h
  split at h
  · cases h
  · obtain ⟨parsed, _, h⟩ := bind_ok h
    dsimp only at h
    split at h
    · rename_i hble
      obtain ⟨u, hu, h⟩ := bind_ok h
      cases h
      rw [DateTime.instant_of_astimezone hu]
      cases hoff : parsed.offset with
      | none =>
        have htz : (parsed.orZone (.zone key z)).tzinfo = .zone key z := by
          simp [Parsed.orZone, Parsed.tzinfo, hoff]
        simp only [DateTime.ble, htz, hl, TzInfo.same, BEq.rfl, if_true, decide_eq_true_eq] at hble
        rw [fixed_instant hz htz, fixed_instant hz hl]
        omega
      | some n =>
        have hs : (parsed.orZone (.zone key z)).tzinfo.same local_now.tzinfo = false := by
          simp only [Parsed.orZone, Parsed.tzinfo, hoff, Option.map_some, Option.getD_some, hl]
          split <;> rfl
        simpa [DateTime.ble, hs] using hble
    · cases h

theorem timedelta_ok {seconds : Int} (h : (seconds / 86400).natAbs ≤ 999999999) :
    timedelta seconds = .ok (seconds * 1000000) := if_pos h

theorem interval_early {n : Int} {utc : DateTime} (hn : d.interval_seconds = some n) (hpos : 0 < n)
    (hsince : epoch.instant ≤ now.instant) (hutc : now.astimezone .utc = .ok utc) :
    (∃ slot, d.intervalSlot now = .ok (some slot) ∧ now.instant < slot.instant) ↔
      EarlyInterval now n := by
  have hwall : (utc.wall : Int) = now.instant := by
    rw [← DateTime.instant_of_astimezone hutc,
      DateTime.instant_utc (DateTime.tzinfo_of_astimezone hutc)]
  have hepoch : epoch.instant = epoch.wall := DateTime.instant_utc rfl
  have hwall₀ : (epoch.wall : Int) = 719162 * 86400000000 := by
    simp only [epoch, dayMicros, Nat.cast_mul, Nat.cast_ofNat]
  have helapsed : (utc.wall : Int) - epoch.wall = (sinceEpoch now : Nat) := by
    rw [hwall, sinceEpoch, Int.toNat_of_nonneg (Int.sub_nonneg_of_le hsince), hepoch]
  have hnow : now.instant = 719162 * 86400000000 + (sinceEpoch now : Nat) := by
    rw [sinceEpoch, Int.toNat_of_nonneg (Int.sub_nonneg_of_le hsince), hepoch, hwall₀]
    ring
  obtain ⟨hlo, hhi⟩ := truncSeconds_bounds (sinceEpoch now)
  have hn0 : n ≠ 0 := ne_of_gt hpos
  have hslot : d.intervalSlot now = (do
      let delta ← timedelta (truncSeconds (sinceEpoch now) - truncSeconds (sinceEpoch now) % n)
      return some (← epoch.add delta)) := by
    unfold ScheduleDefinition.intervalSlot
    split
    · rename_i hnone
      rw [hn] at hnone
      cases hnone
    · rename_i hzero
      rw [hn] at hzero
      cases hzero
      exact absurd rfl hn0
    · rename_i n' hsome
      rw [hn] at hsome
      cases hsome
      rw [hutc]
      simp only [bind, Except.bind, helapsed, Int.fmod_eq_emod_of_nonneg _ hpos.le]
  rw [hslot]
  have hmod := Int.emod_nonneg (truncSeconds (sinceEpoch now)) hn0
  constructor
  · rintro ⟨slot, h, hlt⟩
    obtain ⟨delta, hdelta, h⟩ := bind_ok h
    obtain ⟨t, ht, h⟩ := bind_ok h
    cases h
    obtain ⟨hw, _, htz⟩ := DateTime.make_ok ht
    unfold timedelta at hdelta
    split at hdelta
    · cases hdelta
      rw [DateTime.instant_utc htz, hw, hnow, hwall₀] at hlt
      rw [hwall₀] at hw
      have hin := slot.inRange
      simp only [wallEnd, dayMicros] at hin
      refine ⟨by omega, ?_, by omega⟩
      have hzero : truncSeconds (sinceEpoch now) % n = 0 := by omega
      have hnext : truncSeconds (sinceEpoch now) = (sinceEpoch now / 1000000 : Nat) + 1 := by omega
      rw [← hnext]
      exact Int.dvd_of_emod_eq_zero hzero
    · cases hdelta
  · rintro ⟨hround, hdvd, hrange⟩
    have hnext : truncSeconds (sinceEpoch now) = (sinceEpoch now / 1000000 : Nat) + 1 := by omega
    rw [hnext, Int.emod_eq_zero_of_dvd hdvd, Int.sub_zero]
    have hlt : (sinceEpoch now : Int) < ((sinceEpoch now / 1000000 : Nat) + 1) * 1000000 := by omega
    generalize sinceEpoch now / 1000000 = q at hrange hlt ⊢
    obtain ⟨t, ht⟩ : ∃ t, epoch.add ((q + 1) * 1000000) = .ok t :=
      DateTime.exists_make _ _ (by omega) (by
        simp only [wallEnd, dayMicros]
        omega)
    obtain ⟨hw, _, htz⟩ := DateTime.make_ok ht
    refine ⟨t, ?_, ?_⟩
    · rw [timedelta_ok (by omega), ok_bind, ht, ok_bind]
      rfl
    · rw [DateTime.instant_utc htz, hw, hnow, hwall₀]
      omega

theorem ceilMinute_spec (hl : local_now.tzinfo = .zone key z) :
    ∃ w : Nat, local_now.wall ≤ w ∧ w < local_now.wall + 60000000 ∧ w % 60000000 = 0 ∧
      (∀ c, ceilMinute local_now = .ok c → c.wall = w ∧ c.tzinfo = local_now.tzinfo) ∧
      (w < wallEnd → ∃ c, ceilMinute local_now = .ok c) := by
  have hfloor : local_now.floorMinute.wall = local_now.wall - local_now.wall % 60000000 := rfl
  have hblt : local_now.floorMinute.blt local_now = decide (local_now.wall % 60000000 ≠ 0) := by
    have hs : local_now.floorMinute.tzinfo.same local_now.tzinfo = true := by
      simp [DateTime.floorMinute, hl, TzInfo.same]
    rw [DateTime.blt, if_pos hs, hfloor]
    exact decide_eq_decide.mpr (by omega)
  unfold ceilMinute
  rw [hblt]
  by_cases hw : local_now.wall % 60000000 = 0
  · refine ⟨local_now.wall, le_rfl, by omega, hw, ?_, ?_⟩
    · intro c hc
      rw [if_neg (by simp [hw])] at hc
      cases hc
      exact ⟨by rw [hfloor, hw]; rfl, rfl⟩
    · intro _
      exact ⟨_, if_neg (by simp [hw])⟩
  · refine ⟨local_now.wall - local_now.wall % 60000000 + 60000000, by omega, by omega, by omega,
      ?_, ?_⟩
    · intro c hc
      rw [if_pos (by simp [hw])] at hc
      obtain ⟨hcw, _, htz⟩ := DateTime.make_ok hc
      rw [hfloor] at hcw
      exact ⟨by omega, htz⟩
    · intro hin
      rw [if_pos (by simp [hw])]
      exact DateTime.exists_make _ _ (by omega) (by rw [hfloor]; omega)

theorem cron_early {text : String} {cron : CronExpression} (hz : z.IsFixed o)
    (hl : local_now.tzinfo = .zone key z) (htext : truthy d.expression = some text)
    (hparse : CronExpression.parse text = .ok cron) (hpos : 0 ≤ local_now.instant) :
    (∃ slot, d.cronSlot local_now = .ok (some slot) ∧ local_now.instant < slot.instant) ↔
      EarlyCron cron local_now := by
  have hslot : d.cronSlot local_now =
      ceilMinute local_now >>= fun cursor => searchCron cron (60 * 24 * 366) cursor := by
    unfold ScheduleDefinition.cronSlot
    rw [htext]
    simp only [hparse, bind, Except.bind]
  obtain ⟨w, hle, hlt, hmin, hcursor, hexists⟩ := ceilMinute_spec hl
  have hnow := fixed_instant hz hl
  rw [hslot]
  constructor
  · rintro ⟨slot, h, hfut⟩
    obtain ⟨cursor, hc, h⟩ := bind_ok h
    obtain ⟨hcw, hctz⟩ := hcursor cursor hc
    obtain ⟨m, k, hk, hmw, hmtz, hmm, hu, hfirst⟩ := searchCron_some h
    have hm := fixed_instant hz (hmtz.trans (hctz.trans hl))
    rw [DateTime.instant_of_astimezone hu, hm, hnow] at hfut
    refine ⟨fun ⟨hwhole, hmatch⟩ => ?_, m, slot, hmtz.trans hctz, by omega, by omega, by omega, hmm, hu⟩
    have hcl : cursor.wall = local_now.wall := by omega
    have hk0 := hfirst (by rwa [matches_congr hcl])
    omega
  · rintro ⟨hnot, m, u, hmtz, hmmin, hmle, hmlt, hmm, hu⟩
    obtain ⟨cursor, hc⟩ := hexists (by
      have := m.inRange
      omega)
    obtain ⟨hcw, hctz⟩ := hcursor cursor hc
    have hminst := DateTime.exists_astimezone_utc.mp ⟨u, hu⟩
    rw [fixed_instant hz (hmtz.trans hl)] at hminst
    obtain ⟨slot, hslot'⟩ := searchCron_finds (n := 60 * 24 * 366) (k := (m.wall - w) / 60000000) hmm
      (by omega) (by omega) (hctz.trans hmtz.symm) fun x hx hxle hxm => by
        rw [DateTime.exists_astimezone_utc, fixed_instant hz (hx.trans (hmtz.trans hl))]
        omega
    refine ⟨slot, by rw [hc]; exact hslot', ?_⟩
    obtain ⟨m', k, _, hmw', hmtz', hmm', hu', _⟩ := searchCron_some hslot'
    rw [DateTime.instant_of_astimezone hu', fixed_instant hz (hmtz'.trans (hctz.trans hl)), hnow]
    by_contra hnlt
    refine hnot ⟨by omega, ?_⟩
    rwa [matches_congr (show local_now.wall = m'.wall by omega)]

theorem scheduled_for_interval {tz : TzInfo} (htz : d.timezone L = .ok tz)
    (hl : now.astimezone tz = .ok local_now) (h : d.schedule_type = "interval") :
    d.scheduled_for L now = d.intervalSlot now := by
  simp only [ScheduleDefinition.scheduled_for, htz, ok_bind, hl, h]
  rfl

theorem scheduled_for_cron {tz : TzInfo} (htz : d.timezone L = .ok tz)
    (hl : now.astimezone tz = .ok local_now) (h : d.schedule_type = "cron") :
    d.scheduled_for L now = d.cronSlot local_now := by
  simp only [ScheduleDefinition.scheduled_for, htz, ok_bind, hl, h]
  rfl

theorem utc_of_intervalSlot (h : d.intervalSlot now = .ok (some slot)) :
    ∃ utc, now.astimezone .utc = .ok utc := by
  unfold ScheduleDefinition.intervalSlot at h
  split at h
  · cases h
  · cases h
  · obtain ⟨utc, hutc, _⟩ := bind_ok h
    exact ⟨utc, hutc⟩

theorem EarlyInterval.instant_lt {n : Int} (h : EarlyInterval now n)
    (hsince : epoch.instant ≤ now.instant) : now.instant < wallEnd := by
  have hr := h.inRange
  have hnow : now.instant = epoch.instant + (sinceEpoch now : Nat) := by
    rw [sinceEpoch, Int.toNat_of_nonneg (Int.sub_nonneg_of_le hsince)]
    ring
  rw [DateTime.instant_utc (d := epoch) rfl] at hnow
  simp only [epoch, wallEnd, dayMicros] at hnow ⊢
  omega

theorem intervalSlot_whole (h : d.intervalSlot now = .ok (some slot)) : slot.microsecond = 0 := by
  unfold ScheduleDefinition.intervalSlot at h
  split at h
  · cases h
  · cases h
  · obtain ⟨current, _, h⟩ := bind_ok h
    obtain ⟨delta, hdelta, h⟩ := bind_ok h
    obtain ⟨t, ht, h⟩ := bind_ok h
    cases h
    obtain ⟨hw, _, _⟩ := DateTime.make_ok ht
    unfold timedelta at hdelta
    split at hdelta
    · cases hdelta
      simp only [epoch, dayMicros] at hw
      unfold DateTime.microsecond
      omega
    · cases hdelta

theorem cronSlot_whole (hz : z.IsFixed (1000000 * o)) (hl : local_now.tzinfo = .zone key z)
    (h : d.cronSlot local_now = .ok (some slot)) : slot.microsecond = 0 := by
  unfold ScheduleDefinition.cronSlot at h
  split at h
  · cases h
  · obtain ⟨cursor, hc, h⟩ := bind_ok h
    obtain ⟨cron, _, h⟩ := bind_ok h
    obtain ⟨w, _, _, hmin, hcursor, _⟩ := ceilMinute_spec hl
    obtain ⟨hcw, hctz⟩ := hcursor cursor hc
    obtain ⟨m, k, _, hmw, hmtz, _, hu, _⟩ := searchCron_some h
    have hinst := DateTime.instant_of_astimezone hu
    rw [DateTime.instant_utc (DateTime.tzinfo_of_astimezone hu),
      fixed_instant hz (hmtz.trans (hctz.trans hl))] at hinst
    unfold DateTime.microsecond
    omega

/-- The local time is in the zone of the schedule. -/
theorem Covered.tzinfo_local (hc : Covered L d now) (hz : L.zoneInfo d.timezone_name = .ok z)
    (h : now.astimezone (.zone d.timezone_name z) = .ok local_now) :
    local_now.tzinfo = .zone d.timezone_name z := by
  obtain htz | ⟨hs, rfl⟩ := DateTime.astimezone_tzinfo h
  · exact htz
  · cases hnow : local_now.tzinfo with
    | utc => rw [hnow] at hs; cases hs
    | fixed offset => rw [hnow] at hs; cases hs
    | zone key z' =>
      rw [hnow] at hs
      obtain rfl : key = d.timezone_name := by simpa [TzInfo.same] using hs
      have hz' := hc.known _ _ hnow
      rw [hz] at hz'
      cases hz'
      rfl

/-- The schedules and times whose slot lies in the future. -/
theorem early_iff (hc : Covered L d now) : Early L d now ↔
    ∃ slot, d.scheduled_for L now = .ok (some slot) ∧ now.instant < slot.instant := by
  obtain ⟨z, o, hzone, hfix⟩ := hc.zone
  have htz : d.timezone L = .ok (.zone d.timezone_name z) := by
    simp only [ScheduleDefinition.timezone, hzone]
  have hlocal : ∀ {local_now}, now.astimezone (.zone d.timezone_name z) = .ok local_now →
      local_now.tzinfo = .zone d.timezone_name z ∧ local_now.instant = now.instant :=
    fun h => ⟨hc.tzinfo_local hzone h, DateTime.instant_of_astimezone h⟩
  have hpos : 0 ≤ now.instant := le_trans (by decide) hc.since
  constructor
  · rintro ⟨tz, local_now, htz', hl, hkind⟩
    rw [htz] at htz'
    cases htz'
    obtain ⟨hltz, hinst⟩ := hlocal hl
    obtain ⟨htype, n, hn, he⟩ | ⟨htype, text, cron, htext, hparse, he⟩ := hkind
    · have hn0 : 0 < n := by
        obtain htype' | ⟨_, n', hn', hn0⟩ | ⟨htype', _⟩ := hc.kind
        · rw [htype] at htype'
          exact absurd htype' (by decide)
        · rw [hn] at hn'
          cases hn'
          exact hn0
        · rw [htype] at htype'
          exact absurd htype' (by decide)
      obtain ⟨utc, hutc⟩ := DateTime.exists_astimezone_utc.mpr ⟨hpos, he.instant_lt hc.since⟩
      obtain ⟨slot, hslot, hlt⟩ := (interval_early hn hn0 hc.since hutc).mpr he
      exact ⟨slot, by rw [scheduled_for_interval htz hl htype, hslot], hlt⟩
    · obtain ⟨slot, hslot, hlt⟩ := (cron_early hfix hltz htext hparse (hinst ▸ hpos)).mpr he
      exact ⟨slot, by rw [scheduled_for_cron htz hl htype, hslot], hinst ▸ hlt⟩
  · rintro ⟨slot, hslot, hlt⟩
    obtain ⟨tz, htz', h⟩ := bind_ok hslot
    rw [htz] at htz'
    cases htz'
    obtain ⟨local_now, hl, h⟩ := bind_ok h
    obtain ⟨hltz, hinst⟩ := hlocal hl
    refine ⟨_, local_now, htz, hl, ?_⟩
    obtain htype | ⟨htype, n, hn, hn0⟩ | ⟨htype, text, cron, htext, hparse⟩ := hc.kind
    · rw [if_pos htype] at h
      exact absurd hlt (not_lt.mpr (hinst ▸ oneShot_due hfix hltz h))
    · rw [scheduled_for_interval htz hl htype] at hslot
      obtain ⟨utc, hutc⟩ := utc_of_intervalSlot hslot
      exact .inl ⟨htype, n, hn, (interval_early hn hn0 hc.since hutc).mp ⟨slot, hslot, hlt⟩⟩
    · rw [scheduled_for_cron htz hl htype] at hslot
      exact .inr ⟨htype, text, cron, htext, hparse,
        (cron_early hfix hltz htext hparse (hinst ▸ hpos)).mp ⟨slot, hslot, hinst ▸ hlt⟩⟩

/-- A slot in the future is a whole second. -/
theorem Covered.whole (hc : Covered L d now) (hs : d.scheduled_for L now = .ok (some slot))
    (hlt : now.instant < slot.instant) : slot.microsecond = 0 := by
  obtain ⟨z, o, hzone, hfix⟩ := hc.zone
  have htz : d.timezone L = .ok (.zone d.timezone_name z) := by
    simp only [ScheduleDefinition.timezone, hzone]
  obtain ⟨tz, htz', h⟩ := bind_ok hs
  rw [htz] at htz'
  cases htz'
  obtain ⟨local_now, hl, h⟩ := bind_ok h
  have hltz := hc.tzinfo_local hzone hl
  obtain htype | ⟨htype, _⟩ | ⟨htype, text, cron, htext, hparse⟩ := hc.kind
  · rw [if_pos htype] at h
    have hle := oneShot_due hfix hltz h
    rw [DateTime.instant_of_astimezone hl] at hle
    exact absurd hlt (not_lt.mpr hle)
  · rw [scheduled_for_interval htz hl htype] at hs
    exact intervalSlot_whole hs
  · rw [scheduled_for_cron htz hl htype] at hs
    exact cronSlot_whole hfix hltz hs

end Slots

end EnterpriseCopilot.Schedule
