import Mathlib.Logic.Function.Basic
import EnterpriseCopilot.Schedule.Definition

/-! The scheduler facade.  `trigger` is a program over single operations on the
scheduler's dictionaries, so that calls can be run alone or interleaved. -/

namespace EnterpriseCopilot.Schedule

open EnterpriseCopilot.Lib EnterpriseCopilot.Python

inductive ScheduleStatus
  | succeeded | failed | skipped | paused | expired | blocked | cancelled
  deriving DecidableEq, Repr

structure ScheduleRun where
  schedule_id : String
  idempotency_key : String
  scheduled_for : String
  started_at : String
  finished_at : String
  status : ScheduleStatus
  attempts : Nat
  message : String
  notification_sent : Bool := false
  notification_error : Option String := none
  deriving DecidableEq, Repr

/-- `_history`: every run is filed under its own key. -/
structure History where
  get : String → Option ScheduleRun
  keyed : ∀ {k r}, get k = some r → r.idempotency_key = k

def History.empty : History := ⟨fun _ => none, by simp⟩

def History.put (h : History) (run : ScheduleRun) : History where
  get := Function.update h.get run.idempotency_key (some run)
  keyed := by
    intro k r hr
    rw [Function.update_apply] at hr
    split at hr
    · rename_i hk
      cases hr
      exact hk.symm
    · exact h.keyed hr

theorem History.put_get (h : History) (run : ScheduleRun) (k : String) :
    (h.put run).get k = if k = run.idempotency_key then some run else h.get k := by
  simp only [History.put, Function.update_apply]

structure Scheduler where
  definitions : String → Option ScheduleDefinition
  history : History
  paused : String → Bool
  active : String → Option Int
  cancelled : String → Bool
  notifier : Bool

/-- A new scheduler; `notifier` says whether a sink was injected. -/
def Scheduler.init (notifier : Bool) : Scheduler :=
  ⟨fun _ => none, .empty, fun _ => false, fun _ => none, fun _ => false, notifier⟩

/-- The operations of `trigger` on the scheduler, and what it calls: the clock,
the executor, whose run begins with `enter` and ends with `leave`, and the sink. -/
inductive Cmd
  | definition (schedule_id : String)
  | now
  | isPaused (schedule_id : String)
  | inHistory (key : String)
  | fromHistory (key : String)
  | record (run : ScheduleRun)
  | isCancelled (key : String)
  | activeCount (schedule_id : String)
  | getActive (schedule_id : String)
  | setActive (schedule_id : String) (n : Int)
  | delActive (schedule_id : String)
  | enter (definition : ScheduleDefinition) (key : String)
  | leave (definition : ScheduleDefinition) (key : String)
  | hasNotifier
  | send (channel : String) (definition : ScheduleDefinition) (run : ScheduleRun)

/-- Missing keys answer `none` or `false`; the executor and the sink answer with
their result or the name of the exception they raised. -/
abbrev Reply : Cmd → Type
  | .definition _ => Option ScheduleDefinition
  | .now => DateTime
  | .isPaused _ => Bool
  | .inHistory _ => Bool
  | .fromHistory _ => Option ScheduleRun
  | .record _ => Unit
  | .isCancelled _ => Bool
  | .activeCount _ => Int
  | .getActive _ => Option Int
  | .setActive _ _ => Unit
  | .delActive _ => Bool
  | .enter _ _ => Unit
  | .leave _ _ => Except String String
  | .hasNotifier => Bool
  | .send _ _ _ => Option String

/-- A clock reading, what the executor does (its result and the keys it passes to
`cancel`) and the exception of the sink, if any. -/
structure Choice where
  clock : DateTime := epoch
  result : Except String String := .ok ""
  cancels : List String := []
  sink : Option String := none

instance : Inhabited Choice := ⟨{}⟩

/-- `cancel` refuses keys that are empty or too long. -/
def validKey (key : String) : Bool := !(key.isEmpty || 256 < key.length)

namespace Scheduler

def cancelAll (s : Scheduler) (keys : List String) : Scheduler :=
  { s with cancelled := fun k => s.cancelled k || (keys.contains k && validKey k) }

def setCount (s : Scheduler) (schedule_id : String) (n : Option Int) : Scheduler :=
  { s with active := Function.update s.active schedule_id n }

def apply (s : Scheduler) : (c : Cmd) → Choice → Reply c × Scheduler
  | .definition i, _ => (s.definitions i, s)
  | .now, ch => (ch.clock, s)
  | .isPaused i, _ => (s.paused i, s)
  | .inHistory k, _ => ((s.history.get k).isSome, s)
  | .fromHistory k, _ => (s.history.get k, s)
  | .record run, _ => ((), { s with history := s.history.put run })
  | .isCancelled k, _ => (s.cancelled k, s)
  | .activeCount i, _ => ((s.active i).getD 0, s)
  | .getActive i, _ => (s.active i, s)
  | .setActive i n, _ => ((), s.setCount i (some n))
  | .delActive i, _ => ((s.active i).isSome, s.setCount i none)
  | .enter _ _, _ => ((), s)
  | .leave _ _, ch => (ch.result, s.cancelAll ch.cancels)
  | .hasNotifier, _ => (s.notifier, s)
  | .send _ _ _, ch => (ch.sink, s)

section Operations

variable (L : Library) (s : Scheduler)

def require (schedule_id : String) : Except PyError ScheduleDefinition :=
  match s.definitions schedule_id with
  | some d => .ok d
  | none => .error (.keyError ("unknown schedule: " ++ schedule_id))

/-- A cron schedule with an expression must have a valid one. -/
def checkCron (d : ScheduleDefinition) : Except PyError Unit :=
  match truthy d.expression with
  | some expression =>
    if d.schedule_type = "cron" then do
      let _ ← CronExpression.parse expression
      return ()
    else return ()
  | none => return ()

def register (d : ScheduleDefinition) : Except PyError Scheduler :=
  if (s.definitions d.id).any (·.version ≠ d.version) then
    .error (.valueError "schedule replacement requires an explicit version migration")
  else if d.max_concurrency ≤ 0 ∨ d.retry_limit < 0 then
    .error (.valueError "invalid schedule concurrency or retry limit")
  else if d.notify_only_if ∉ ["always", "finding_or_failure", "failure"] then
    .error (.valueError "invalid schedule notification condition")
  else if d.notify_channel.any fun c => isBlank c || 64 < c.length then
    .error (.valueError "invalid schedule notification channel")
  else do
    let _ ← d.timezone L
    checkCron d
    return { s with definitions := Function.update s.definitions d.id (some d) }

def pause (schedule_id : String) : Except PyError Scheduler := do
  let _ ← s.require schedule_id
  return { s with paused := Function.update s.paused schedule_id true }

def resume (schedule_id : String) : Except PyError Scheduler := do
  let _ ← s.require schedule_id
  return { s with paused := Function.update s.paused schedule_id false }

def cancel (idempotency_key : String) : Except PyError Scheduler :=
  if validKey idempotency_key then
    .ok { s with cancelled := Function.update s.cancelled idempotency_key true }
  else .error (.valueError "invalid schedule idempotency key")

end Operations

end Scheduler

/-- The code of the scheduler. -/
abbrev Code := Program Cmd Reply PyError

namespace Code

def now : Code DateTime := .cmd .now .pure
def isPaused (i : String) : Code Bool := .cmd (.isPaused i) .pure
def inHistory (k : String) : Code Bool := .cmd (.inHistory k) .pure
def record (run : ScheduleRun) : Code Unit := .cmd (.record run) .pure
def isCancelled (k : String) : Code Bool := .cmd (.isCancelled k) .pure
def activeCount (i : String) : Code Int := .cmd (.activeCount i) .pure
def setActive (i : String) (n : Int) : Code Unit := .cmd (.setActive i n) .pure
def hasNotifier : Code Bool := .cmd .hasNotifier .pure

def fromHistory (k : String) : Code ScheduleRun :=
  .cmd (.fromHistory k) fun
    | some run => .pure run
    | none => .throw (.keyError k)

def getActive (i : String) : Code Int :=
  .cmd (.getActive i) fun
    | some n => .pure n
    | none => .throw (.keyError i)

def delActive (i : String) : Code Unit :=
  .cmd (.delActive i) fun
    | true => .pure ()
    | false => .throw (.keyError i)

/-- `executor(definition, key)`. -/
def executor (d : ScheduleDefinition) (key : String) : Code String :=
  .cmd (.enter d key) fun _ => .cmd (.leave d key) fun
    | .ok message => .pure message
    | .error name => .throw (.exception name)

/-- `send` with the name of the exception it raised. -/
def send (channel : String) (d : ScheduleDefinition) (run : ScheduleRun) : Code (Option String) :=
  .cmd (.send channel d run) .pure

end Code

def _require (schedule_id : String) : Code ScheduleDefinition :=
  .cmd (.definition schedule_id) fun
    | some d => .pure d
    | none => .throw (.keyError ("unknown schedule: " ++ schedule_id))

/-- The run that `_record` files for a slot in UTC. -/
def ScheduleRun.of (schedule_id : String) (status : ScheduleStatus) (started finished : DateTime)
    (attempts : Nat) (message : String) (utc : DateTime) : ScheduleRun where
  schedule_id := schedule_id
  idempotency_key := schedule_id ++ ":" ++ utc.isoformat
  scheduled_for := utc.isoformat
  started_at := started.isoformat
  finished_at := finished.isoformat
  status := status
  attempts := attempts
  message := message

def _record (schedule_id : String) (status : ScheduleStatus) (started finished : DateTime)
    (attempts : Nat) (message : String) (scheduled : DateTime) : Code ScheduleRun := do
  let utc ← Program.ofExcept (scheduled.astimezone .utc)
  let run := ScheduleRun.of schedule_id status started finished attempts message utc
  Code.record run
  return run

/-- `run.status in {FAILED, BLOCKED}`. -/
def ScheduleRun.isFailure (run : ScheduleRun) : Bool :=
  run.status = .failed || run.status = .blocked

def shouldNotify (d : ScheduleDefinition) (run : ScheduleRun) (finding : Bool) : Bool :=
  d.notify_only_if = "always" ||
    (d.notify_only_if = "finding_or_failure" && (finding || run.isFailure)) ||
    (d.notify_only_if = "failure" && run.isFailure)

def _notify (d : ScheduleDefinition) (run : ScheduleRun) (finding : Bool) : Code ScheduleRun := do
  let notifier ← Code.hasNotifier
  match notifier, d.notify_channel with
  | true, some channel =>
    if shouldNotify d run finding then
      let updated := match ← Code.send channel d run with
        | some name => { run with notification_error := some name }
        | none => { run with notification_sent := true }
      Code.record updated
      return updated
    else return run
  | _, _ => return run

/-- A slot that `trigger` is about to run. -/
structure Slot where
  definition : ScheduleDefinition
  schedule_id : String
  started : DateTime
  scheduled : DateTime
  finding : Bool

namespace Slot

variable (x : Slot)

def key : String := x.schedule_id ++ ":" ++ x.scheduled.isoformat

/-- The `try` of one iteration: the executor, the record and the notification. -/
def succeed (attempts : Nat) : Code ScheduleRun := do
  let message ← Code.executor x.definition x.key
  let finished ← Code.now
  let run ← _record x.schedule_id .succeeded x.started finished attempts message x.scheduled
  _notify x.definition run x.finding

/-- The `except` of one iteration: nothing unless the retries are used up. -/
def giveUp (attempts : Nat) : Code (Option ScheduleRun) := do
  if (attempts : Int) > x.definition.retry_limit then
    let finished ← Code.now
    let run ← _record x.schedule_id .failed x.started finished attempts
      "scheduled execution failed after retry limit" x.scheduled
    return some (← _notify x.definition run false)
  else return none

/-- The `while` loop with `left` iterations to go, `none` if it ends by its condition. -/
def attempt : Nat → Nat → Code (Option ScheduleRun)
  | 0, _ => return none
  | left + 1, attempts => do
    if ← Code.isCancelled x.key then
      let finished ← Code.now
      return some (← _record x.schedule_id .cancelled x.started finished attempts
        "schedule was cancelled" x.scheduled)
    else
      match ← Program.tryCatch (some <$> x.succeed (attempts + 1))
          (fun _ => x.giveUp (attempts + 1)) with
      | some run => return some run
      | none => attempt left (attempts + 1)

/-- The `finally` block. -/
def release : Code Unit := do
  let n ← Code.getActive x.schedule_id
  Code.setActive x.schedule_id (n - 1)
  let m ← Code.getActive x.schedule_id
  if m = 0 then Code.delActive x.schedule_id

def execute : Code ScheduleRun := do
  let n ← Code.activeCount x.schedule_id
  Code.setActive x.schedule_id (n + 1)
  match ← Program.tryFinally (x.attempt (x.definition.retry_limit + 1).toNat 0) x.release with
  | some run => return run
  | none => throw (.runtimeError "scheduler reached an invalid terminal state")

/-- What `trigger` does once it has a slot. -/
def run : Code ScheduleRun := do
  if ← Code.inHistory x.key then Code.fromHistory x.key
  else if ← Code.isCancelled x.key then
    _record x.schedule_id .cancelled x.started x.started 0 "schedule was cancelled" x.scheduled
  else if (← Code.activeCount x.schedule_id) ≥ x.definition.max_concurrency then
    _record x.schedule_id .skipped x.started x.started 0 "concurrency limit reached" x.scheduled
  else x.execute

end Slot

/-- `expires_at`, in the zone of the schedule unless it names its own. -/
def ScheduleDefinition.expiry (L : Library) (d : ScheduleDefinition) (text : String) :
    Except PyError DateTime := do
  let parsed ← L.fromisoformat text
  match parsed.tzinfo with
  | some tz => return parsed.orZone tz
  | none => return parsed.orZone (← d.timezone L)

def ScheduleDefinition.hasExpired (L : Library) (d : ScheduleDefinition) (now : DateTime) :
    Except PyError Bool :=
  match truthy d.expires_at with
  | none => return false
  | some text => do
    let expires ← d.expiry L text
    let current ← now.astimezone .utc
    let limit ← expires.astimezone .utc
    return limit.ble current

/-- The arguments of a `trigger` call, its executor apart. -/
structure Trigger where
  schedule_id : String
  now : DateTime
  approval_granted : Bool := false
  finding : Bool := false

def Trigger.program (L : Library) (c : Trigger) : Code ScheduleRun := do
  let d ← _require c.schedule_id
  let started ← Code.now
  if ← Code.isPaused c.schedule_id then
    _record c.schedule_id .paused started started 0 "schedule is paused" c.now
  else if d.permissions_mode ≠ "read_only" ∧ ¬ c.approval_granted then
    _record c.schedule_id .blocked started started 0
      "scheduled write requires explicit approval" c.now
  else if ← Program.ofExcept (d.hasExpired L c.now) then
    _record c.schedule_id .expired started started 0 "schedule has expired" c.now
  else
    match ← Program.ofExcept (d.scheduled_for L c.now) with
    | none => _record c.schedule_id .skipped started started 0 "not due" c.now
    | some scheduled => Slot.run ⟨d, c.schedule_id, started, scheduled, c.finding⟩

end EnterpriseCopilot.Schedule
