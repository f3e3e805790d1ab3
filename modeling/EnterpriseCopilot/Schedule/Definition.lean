import EnterpriseCopilot.Python.DateTime
import EnterpriseCopilot.Python.Text

/-! Reviewed schedule definitions and the slots they are due in. -/

namespace EnterpriseCopilot.Schedule

open EnterpriseCopilot.Python

/-- Minutes, hours, days of the month, months and weekdays, Monday being 0. -/
structure CronExpression where
  minutes : List Nat
  hours : List Nat
  days : List Nat
  months : List Nat
  weekdays : List Nat
  deriving DecidableEq, Repr

namespace CronExpression

/-- `range(start, end + 1, step)`. -/
def span (start stop step : Int) : List Int :=
  (List.range ((stop - start) / step + 1).toNat).map fun i : Nat => start + step * i

/-- The bounds of an item: `*`, `a-b` or a single value. -/
def _parse_bounds (minimum maximum : Int) (base : List Char) : Except PyError (Int × Int) :=
  if base = ['*'] then return (minimum, maximum)
  else if '-' ∈ base then do
    let start ← int (base.takeWhile (· ≠ '-'))
    let stop ← int ((base.dropWhile (· ≠ '-')).drop 1)
    return (start, stop)
  else do
    let start ← int base
    return (start, start)

def _parse_step (step_text : List Char) : Except PyError Int :=
  if step_text.isEmpty then return 1 else int step_text

def _parse_item (field : List Char) (minimum maximum : Int) (item : List Char) :
    Except PyError (List Int) :=
  if item.isEmpty || 1 < item.count '/' then
    throw (.valueError ("invalid cron field: " ++ String.ofList field))
  else do
    let step ← _parse_step ((item.dropWhile (· ≠ '/')).drop 1)
    if step ≤ 0 then throw (.valueError "cron step must be positive")
    else do
      let bounds ← _parse_bounds minimum maximum (item.takeWhile (· ≠ '/'))
      if bounds.1 < minimum ∨ bounds.2 > maximum ∨ bounds.1 > bounds.2 then
        throw (.valueError ("cron value is outside " ++ toString minimum ++ "-" ++
          toString maximum ++ ": " ++ String.ofList field))
      else return span bounds.1 bounds.2 step

def _parse_field (field : List Char) (minimum maximum : Int) : Except PyError (List Int) := do
  let result ← (field.splitOn ',').mapM (_parse_item field minimum maximum)
  if result.flatten.isEmpty then throw (.valueError "cron field cannot be empty")
  else return result.flatten

def parse (expression : String) : Except PyError CronExpression :=
  match split expression.toList with
  | [minute, hour, day, month, weekday] => do
    return {
      minutes := (← _parse_field minute 0 59).map Int.toNat
      hours := (← _parse_field hour 0 23).map Int.toNat
      days := (← _parse_field day 1 31).map Int.toNat
      months := (← _parse_field month 1 12).map Int.toNat
      weekdays := (← _parse_field weekday 0 6).map Int.toNat }
  | _ => throw (.valueError "cron expression must contain five fields")

def matches_ (c : CronExpression) (value : DateTime) : Bool :=
  value.minute ∈ c.minutes && value.hour ∈ c.hours && value.date.day ∈ c.days &&
    value.date.month ∈ c.months && value.weekday ∈ c.weekdays

end CronExpression

structure ScheduleDefinition where
  id : String
  version : String
  agent : String
  schedule_type : String
  timezone_name : String := "UTC"
  expression : Option String := none
  at_ : Option String := none
  interval_seconds : Option Int := none
  max_runtime_seconds : Int := 300
  max_concurrency : Int := 1
  retry_limit : Int := 0
  permissions_mode : String := "read_only"
  query : Option String := none
  order_id : Option String := none
  allow_external_processing : Bool := false
  expires_at : Option String := none
  notify_channel : Option String := none
  notify_only_if : String := "finding_or_failure"
  deriving DecidableEq

/-- `datetime(1970, 1, 1, tzinfo=UTC)`. -/
def epoch : DateTime := ⟨719162 * dayMicros, false, .utc, by decide⟩

/-- The quotient rounded to an integer, ties to the even one. -/
def roundHalfEven (a b : Nat) : Nat :=
  if 2 * (a % b) < b then a / b
  else if b < 2 * (a % b) then a / b + 1
  else a / b + a / b % 2

/-- `int(delta.total_seconds())`: the seconds are a double, whose last place is
`2 ^ -k` seconds, before they are truncated. -/
def truncSeconds (micros : Int) : Int :=
  let n := micros.natAbs
  let k := 52 - Nat.log2 (n / 1000000)
  let seconds : Nat := roundHalfEven (n * 2 ^ k) 1000000 / 2 ^ k
  if micros < 0 then -seconds else seconds

/-- `timedelta(seconds=n)` in microseconds. -/
def timedelta (seconds : Int) : Except PyError Int :=
  if (seconds / 86400).natAbs ≤ 999999999 then .ok (seconds * 1000000)
  else .error (.overflowError ("days=" ++ toString (seconds / 86400) ++
    "; must have magnitude <= 999999999"))

/-- The first whole minute at or after the local time. -/
def ceilMinute (local_now : DateTime) : Except PyError DateTime :=
  if local_now.floorMinute.blt local_now then local_now.floorMinute.add 60000000
  else .ok local_now.floorMinute

/-- The minute-by-minute search for an occurrence. -/
def searchCron (cron : CronExpression) : Nat → DateTime → Except PyError (Option DateTime)
  | 0, _ => .error (.valueError "cron expression has no occurrence within one year")
  | n + 1, cursor =>
    if cron.matches_ cursor then do return some (← cursor.astimezone .utc)
    else do searchCron cron n (← cursor.add 60000000)

/-- The search stops at a matching minute, the first one if that matches. -/
theorem searchCron_some {cron : CronExpression} : ∀ {n cursor z},
    searchCron cron n cursor = .ok (some z) →
    ∃ (m : DateTime) (k : Nat), k < n ∧ m.wall = cursor.wall + 60000000 * k ∧
      m.tzinfo = cursor.tzinfo ∧ cron.matches_ m ∧ m.astimezone .utc = .ok z ∧
      (cron.matches_ cursor → k = 0) := by
  intro n
  induction n with
  | zero => intro cursor z h; cases h
  | succ n ih =>
    intro cursor z h
    unfold searchCron at h
    split at h
    · rename_i hm
      obtain ⟨u, hu, h⟩ := bind_ok h
      cases h
      exact ⟨cursor, 0, Nat.succ_pos n, rfl, rfl, hm, hu, fun _ => rfl⟩
    · rename_i hm
      obtain ⟨next, hnext, h⟩ := bind_ok h
      obtain ⟨hw, _, htz⟩ := DateTime.make_ok hnext
      obtain ⟨m, k, hk, hmw, hmtz, hmm, hz, _⟩ := ih h
      exact ⟨m, k + 1, Nat.succ_lt_succ hk, by omega, hmtz.trans htz, hmm, hz,
        fun hc => absurd hc hm⟩

namespace ScheduleDefinition

variable (L : Library) (d : ScheduleDefinition)

def timezone : Except PyError TzInfo :=
  match L.zoneInfo d.timezone_name with
  | .ok z => .ok (.zone d.timezone_name z)
  | .error .notFound => .error (.valueError ("unknown schedule timezone: " ++ d.timezone_name))
  | .error (.valueError msg) => .error (.valueError msg)
  | .error (.osError name) => .error (.exception name)

def oneShotSlot (tz : TzInfo) (local_now : DateTime) : Except PyError (Option DateTime) :=
  match truthy d.at_ with
  | none => .error (.valueError "one_shot schedule requires at")
  | some text => do
    let target := (← L.fromisoformat text).orZone tz
    if target.ble local_now then return some (← target.astimezone .utc) else return none

def intervalSlot (now : DateTime) : Except PyError (Option DateTime) :=
  match d.interval_seconds with
  | none | some 0 => .error (.valueError "interval schedule requires interval_seconds")
  | some n => do
    let current ← now.astimezone .utc
    let elapsed := truncSeconds (current.wall - epoch.wall)
    let slot := elapsed - elapsed.fmod n
    return some (← epoch.add (← timedelta slot))

def cronSlot (local_now : DateTime) : Except PyError (Option DateTime) :=
  match truthy d.expression with
  | none => .error (.valueError "cron schedule requires expression")
  | some expression => do
    let cursor ← ceilMinute local_now
    searchCron (← CronExpression.parse expression) (60 * 24 * 366) cursor

def scheduled_for (now : DateTime) : Except PyError (Option DateTime) := do
  let tz ← d.timezone L
  let local_now ← now.astimezone tz
  if d.schedule_type = "one_shot" then d.oneShotSlot L tz local_now
  else if d.schedule_type = "interval" then d.intervalSlot now
  else if d.schedule_type = "cron" then d.cronSlot local_now
  else throw (.valueError ("unsupported schedule type: " ++ d.schedule_type))

/-- Slots are in UTC. -/
theorem scheduled_for_utc {L : Library} (d : ScheduleDefinition) {now z : DateTime}
    (h : d.scheduled_for L now = .ok (some z)) : z.tzinfo = .utc := by
  obtain ⟨tz, _, h⟩ := bind_ok h
  obtain ⟨local_now, _, h⟩ := bind_ok h
  split at h
  · unfold oneShotSlot at h
    split at h
    · cases h
    · obtain ⟨parsed, _, h⟩ := bind_ok h
      dsimp only at h
      split at h
      · obtain ⟨u, hu, h⟩ := bind_ok h
        cases h
        exact DateTime.tzinfo_of_astimezone hu
      · cases h
  split at h
  · unfold intervalSlot at h
    split at h
    · cases h
    · cases h
    · obtain ⟨current, _, h⟩ := bind_ok h
      obtain ⟨delta, _, h⟩ := bind_ok h
      obtain ⟨slot, hslot, h⟩ := bind_ok h
      cases h
      exact (DateTime.make_ok hslot).2.2
  split at h
  · unfold cronSlot at h
    split at h
    · cases h
    · obtain ⟨cursor, _, h⟩ := bind_ok h
      obtain ⟨cron, _, h⟩ := bind_ok h
      obtain ⟨_, _, _, _, _, _, hu, _⟩ := searchCron_some h
      exact DateTime.tzinfo_of_astimezone hu
  · cases h

end ScheduleDefinition

end EnterpriseCopilot.Schedule
