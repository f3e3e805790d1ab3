import EnterpriseCopilot.Lib.Lockstep
import EnterpriseCopilot.Schedule.Definition

/-! The five sets of a cron expression that is accepted. -/

namespace EnterpriseCopilot.Schedule

open EnterpriseCopilot.Lib
open EnterpriseCopilot.Python

namespace CronExpression

/-- A set of values of a field: not empty, and within its limits. -/
structure Within (minimum maximum : Nat) (values : List Nat) : Prop where
  nonempty : values ≠ []
  bounds : ∀ v ∈ values, minimum ≤ v ∧ v ≤ maximum

/-- The sets respect `_LIMITS`. -/
structure WellFormed (cron : CronExpression) : Prop where
  minutes : Within 0 59 cron.minutes
  hours : Within 0 23 cron.hours
  days : Within 1 31 cron.days
  months : Within 1 12 cron.months
  weekdays : Within 0 6 cron.weekdays

variable {field item : List Char} {minimum maximum v start stop step : Int} {values : List Int}

/-- A range ends at the last multiple of the step that is not behind its end. -/
theorem mem_span (hstep : 0 < step) :
    v ∈ span start stop step ↔ ∃ k : Nat, v = start + k * step ∧ v ≤ stop := by
  have hlast : ∀ k : Nat, k < ((stop - start) / step + 1).toNat ↔ start + k * step ≤ stop := by
    intro k
    have hmul : (k : Int) ≤ (stop - start) / step ↔ k * step ≤ stop - start := Int.le_ediv_iff_mul_le hstep
    constructor
    · intro h
      have := hmul.mp (by omega)
      omega
    · intro h
      have := hmul.mpr (by omega)
      omega
  simp only [span, List.mem_map, List.mem_range, hlast]
  constructor
  · rintro ⟨k, hk, rfl⟩
    rw [mul_comm step]
    exact ⟨k, rfl, hk⟩
  · rintro ⟨k, rfl, hk⟩
    exact ⟨k, hk, by rw [mul_comm step]⟩

theorem span_bounds (hstep : 0 < step) (h : v ∈ span start stop step) : start ≤ v ∧ v ≤ stop := by
  obtain ⟨k, rfl, hk⟩ := (mem_span hstep).mp h
  have hnonneg : 0 ≤ (k : Int) * step := Int.mul_nonneg (Int.natCast_nonneg k) hstep.le
  omega

theorem parse_item_bounds (h : _parse_item field minimum maximum item = .ok values) (hv : v ∈ values) :
    minimum ≤ v ∧ v ≤ maximum := by
  unfold _parse_item at h
  split at h
  · cases h
  obtain ⟨step, _, h⟩ := bind_ok h
  split at h
  · cases h
  rename_i hstep
  obtain ⟨bounds, _, h⟩ := bind_ok h
  split at h
  · cases h
  rename_i hbounds
  cases h
  obtain ⟨hlo, hhi⟩ := span_bounds (by omega) hv
  omega

theorem parse_field_bounds (h : _parse_field field minimum maximum = .ok values) :
    values ≠ [] ∧ ∀ v ∈ values, minimum ≤ v ∧ v ≤ maximum := by
  obtain ⟨items, hitems, h⟩ := bind_ok h
  split at h
  · cases h
  rename_i hne
  cases h
  refine ⟨fun hnil => hne (by rw [hnil]; rfl), fun v hv => ?_⟩
  obtain ⟨values, hvalues, hv⟩ := List.mem_flatten.mp hv
  obtain ⟨item, _, hitem⟩ := forall₂_mem (mapM_ok.mp hitems).flip hvalues
  exact parse_item_bounds hitem hv

theorem parse_field_within {lo hi : Nat} (h : _parse_field field lo hi = .ok values) :
    Within lo hi (values.map Int.toNat) := by
  obtain ⟨hne, hbounds⟩ := parse_field_bounds h
  refine ⟨fun hnil => hne (List.map_eq_nil_iff.mp hnil), fun v hv => ?_⟩
  obtain ⟨n, hn, rfl⟩ := List.mem_map.mp hv
  have := hbounds n hn
  omega

theorem parse_wellFormed {expression : String} {cron : CronExpression} (h : parse expression = .ok cron) :
    cron.WellFormed := by
  unfold parse at h
  split at h
  · obtain ⟨minutes, hminutes, h⟩ := bind_ok h
    obtain ⟨hours, hhours, h⟩ := bind_ok h
    obtain ⟨days, hdays, h⟩ := bind_ok h
    obtain ⟨months, hmonths, h⟩ := bind_ok h
    obtain ⟨weekdays, hweekdays, h⟩ := bind_ok h
    cases h
    exact ⟨parse_field_within hminutes, parse_field_within hhours, parse_field_within hdays,
      parse_field_within hmonths, parse_field_within hweekdays⟩
  · cases h

end CronExpression

end EnterpriseCopilot.Schedule
