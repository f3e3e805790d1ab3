import EnterpriseCopilot.Plugin.Validation
import EnterpriseCopilot.Python.Yaml
import EnterpriseCopilot.Schedule.Scheduler

/-! The contract check of a schedule document, its loader, and what is done with the result. -/

namespace EnterpriseCopilot.Schedule

open EnterpriseCopilot.Python
open EnterpriseCopilot.Plugin (id_re semver_re)

section Validation

def _require_string (mapping : Mapping) (field_name : String) (max_length : Nat) : List String × Option String :=
  match mapping.get field_name with
  | .str value =>
    if isBlank value then ([field_name ++ " must be a non-empty string"], none)
    else (if value.length > max_length then [field_name ++ " exceeds " ++ toString max_length ++ " characters"] else [],
      some (str_strip value))
  | _ => ([field_name ++ " must be a non-empty string"], none)

/-- A field that must have a form once it is stripped. -/
def check_form (mapping : Mapping) (field_name : String) (max_length : Nat) (form : String → Bool) (issue : String) :
    List String :=
  let required := _require_string mapping field_name max_length
  required.1 ++ if required.2.any fun text => !form text then [issue] else []

def _check_id_and_version (mapping : Mapping) : List String :=
  check_form mapping "id" 63 id_re "id must contain lowercase letters, numbers and hyphens only" ++
    check_form mapping "version" 64 semver_re "version must use semantic-version format"

def issue_if (condition : Bool) (issue : String) : List String := if condition then [issue] else []

/-- `not isinstance(value, str) or not value.strip()`. -/
def blankOrOther : Yaml → Bool
  | .str s => isBlank s
  | _ => true

def isText (text : String) : Yaml → Bool
  | .str s => s = text
  | _ => false

def schedule_types : List String := ["one_shot", "interval", "cron"]

def schedule_issues (value : Yaml) : Except PyError (List String) :=
  match value.asMapping with
  | some schedule => do
    let schedule_type := schedule.get "type"
    let known ← schedule_type.oneOf schedule_types
    let fields := match schedule.get "expression" with
      | .str expression => (split expression.toList).length
      | _ => 0
    return issue_if (!known) "schedule.type must be one_shot, interval or cron" ++
      issue_if (isText "cron" schedule_type && fields ≠ 5) "cron schedule.expression must contain five fields" ++
      issue_if (isText "interval" schedule_type && !(schedule.get "seconds").asInt.any (0 < ·))
        "interval schedule.seconds must be a positive integer" ++
      issue_if (blankOrOther ((schedule.lookup "timezone").getD (.str "UTC")))
        "schedule.timezone must be a non-empty string"
  | none => .ok ["schedule must be a mapping"]

/-- An optional text of a bounded length. -/
def text_issues (value : Yaml) (max_length : Nat) (issue : String) : List String :=
  match value with
  | .null => []
  | .str s => issue_if (isBlank s || max_length < s.length) issue
  | _ => [issue]

def run_issues (value : Yaml) : Except PyError (List String) :=
  match value.asMapping with
  | some run => do
    let mode ← ((run.lookup "mode").getD (.str "isolated")).oneOf ["isolated", "shared"]
    return (["max_runtime_seconds", "max_concurrency", "retry_limit"].flatMap fun key =>
        issue_if (!(run.get key).asInt.any (0 ≤ ·)) ("run." ++ key ++ " must be a non-negative integer")) ++
      issue_if ((run.lookup "max_concurrency").getD (.int 0)).isZero "run.max_concurrency must be greater than zero" ++
      issue_if (!mode) "run.mode must be isolated or shared" ++
      text_issues (run.get "query") 4000 "run.query must be a non-empty string of at most 4000 characters" ++
      text_issues (run.get "order_id") 128 "run.order_id must be a non-empty string of at most 128 characters" ++
      match run.get "allow_external_processing" with
      | .null | .bool _ => []
      | _ => ["run.allow_external_processing must be a boolean"]
  | none => .ok ["run must be a mapping"]

def permission_issues (value : Yaml) : Except PyError (List String) :=
  match value.asMapping with
  | some permissions => do
    let known ← (permissions.get "mode").oneOf ["read_only", "approved_write"]
    return issue_if (!known) "permissions.mode must be read_only or approved_write"
  | none => .ok ["permissions.mode must be read_only or approved_write"]

def notify_conditions : List String := ["always", "finding_or_failure", "failure"]

def notify_issues (value : Yaml) : Except PyError (List String) :=
  match value.asMapping with
  | some notify => do
    let known ← ((notify.lookup "only_if").getD (.str "finding_or_failure")).oneOf notify_conditions
    return text_issues (notify.get "channel") 64 "notify.channel must be a non-empty string of at most 64 characters" ++
      issue_if (!known) "notify.only_if must be always, finding_or_failure or failure"
  | none => .ok ["notify must be a mapping"]

/-- The issues of a document. -/
def validate_schedule (raw : Yaml) : Except PyError (List String) :=
  match raw.asMapping with
  | some mapping => do
    let schedule ← schedule_issues (mapping.get "schedule")
    let run ← run_issues (mapping.get "run")
    let permissions ← permission_issues (mapping.get "permissions")
    let notify ← notify_issues ((mapping.lookup "notify").getD (.map []))
    return (["id", "version", "agent"].flatMap fun field_name => (_require_string mapping field_name 128).1) ++
      _check_id_and_version mapping ++ schedule ++ run ++ permissions ++ notify
  | none => .ok ["schedule must be a mapping"]

end Validation

/-- A definition as it is loaded: four of its fields have whatever value the document has there. -/
structure LoadedDefinition where
  id : String
  version : String
  agent : String
  schedule_type : String
  timezone_name : String
  expression : Yaml
  at_ : Yaml
  interval_seconds : Yaml
  max_runtime_seconds : Int
  max_concurrency : Int
  retry_limit : Int
  catch_up : Bool
  permissions_mode : String
  query : Option String
  order_id : Option String
  allow_external_processing : Bool
  expires_at : Yaml
  notify_channel : Option String
  notify_only_if : String

section Loading

variable (Y : YamlLibrary)

/-- A field of `run` that may be missing or null, but not be something else than a text. -/
def optional_text (run : Mapping) (field_name : String) : Except PyError (Option String) :=
  match run.get field_name with
  | .null => .ok none
  | .str s => .ok (some s)
  | _ => .error (.typeError ("run." ++ field_name ++ " must be a string"))

def read_consent (run : Mapping) : Except PyError Bool :=
  match (run.lookup "allow_external_processing").getD (.bool false) with
  | .bool b => .ok b
  | _ => .error (.typeError "run.allow_external_processing must be a boolean")

def load_definition (raw schedule run permissions notify : Mapping) : Except PyError LoadedDefinition := do
  let query ← optional_text run "query"
  let order_id ← optional_text run "order_id"
  let allow_external_processing ← read_consent run
  return {
    id := Y.to_str (← raw.item "id")
    version := Y.to_str (← raw.item "version")
    agent := Y.to_str (← raw.item "agent")
    schedule_type := Y.to_str (← schedule.item "type")
    timezone_name := Y.to_str ((schedule.lookup "timezone").getD (.str "UTC"))
    expression := schedule.get "expression"
    at_ := schedule.get "at"
    interval_seconds := schedule.get "seconds"
    max_runtime_seconds := ← Y.to_int ((run.lookup "max_runtime_seconds").getD (.int 300))
    max_concurrency := ← Y.to_int ((run.lookup "max_concurrency").getD (.int 1))
    retry_limit := ← Y.to_int ((run.lookup "retry_limit").getD (.int 0))
    catch_up := ((run.lookup "catch_up").getD (.bool false)).truth
    permissions_mode := Y.to_str ((permissions.lookup "mode").getD (.str "read_only"))
    query := query
    order_id := order_id
    allow_external_processing := allow_external_processing
    expires_at := schedule.get "expires_at"
    notify_channel := match notify.get "channel" with
      | .null => none
      | channel => some (Y.to_str channel)
    notify_only_if := Y.to_str ((notify.lookup "only_if").getD (.str "finding_or_failure")) }

def load_schedule (raw : Yaml) : Except PyError LoadedDefinition :=
  match raw.asMapping with
  | some raw =>
    match (raw.get "schedule").orEmpty.asMapping, (raw.get "run").orEmpty.asMapping,
      (raw.get "permissions").orEmpty.asMapping, (raw.get "notify").orEmpty.asMapping with
    | some schedule, some run, some permissions, some notify => load_definition Y raw schedule run permissions notify
    | _, _, _, _ => .error (.typeError "schedule, run, permissions and notify must be mappings")
  | none => .error (.typeError "schedule must be a mapping")

end Loading

namespace LoadedDefinition

variable (L : Library) (Y : YamlLibrary) (d : LoadedDefinition)

/-- The definition with these values in the untyped fields. -/
def typed (expression at_ : Option String) (interval_seconds : Option Int) (expires_at : Option String := none) :
    ScheduleDefinition where
  id := d.id
  version := d.version
  agent := d.agent
  schedule_type := d.schedule_type
  timezone_name := d.timezone_name
  expression := expression
  at_ := at_
  interval_seconds := interval_seconds
  max_runtime_seconds := d.max_runtime_seconds
  max_concurrency := d.max_concurrency
  retry_limit := d.retry_limit
  permissions_mode := d.permissions_mode
  query := d.query
  order_id := d.order_id
  allow_external_processing := d.allow_external_processing
  expires_at := expires_at
  notify_channel := d.notify_channel
  notify_only_if := d.notify_only_if

def timezone : Except PyError TzInfo := (d.typed none none none).timezone L

/-- What the code makes of an optional text: any other value is passed on to `use`, which refuses it. -/
def readText (value : Yaml) (refusal : PyError) : Except PyError (Option String) :=
  match value with
  | .str s => .ok (some s)
  | value => if value.truth then .error refusal else .ok none

def oneShotSlot (tz : TzInfo) (local_now : DateTime) : Except PyError (Option DateTime) := do
  let at_ ← readText d.at_ (.typeError "fromisoformat: argument must be str")
  (d.typed none at_ none).oneShotSlot L tz local_now

def intervalSlot (now : DateTime) : Except PyError (Option DateTime) :=
  match d.interval_seconds with
  | .float q =>
    if q = 0 then (d.typed none none none).intervalSlot now
    else do
      let current ← now.astimezone .utc
      let slot ← Y.float_slot (truncSeconds (current.wall - epoch.wall)) (.float q)
      return some (← epoch.add slot)
  | .special text => do
      let current ← now.astimezone .utc
      let slot ← Y.float_slot (truncSeconds (current.wall - epoch.wall)) (.special text)
      return some (← epoch.add slot)
  | value =>
    match value.asInt with
    | some n => (d.typed none none (some n)).intervalSlot now
    | none =>
      if value.truth then do
        let _ ← now.astimezone .utc
        throw (.typeError "unsupported operand type(s) for %")
      else (d.typed none none none).intervalSlot now

def noSplit : PyError := .exception "AttributeError"

def cronSlot (local_now : DateTime) : Except PyError (Option DateTime) :=
  match d.expression with
  | .str s => (d.typed (some s) none none).cronSlot local_now
  | value =>
    if value.truth then do
      let _ ← ceilMinute local_now
      throw noSplit
    else (d.typed none none none).cronSlot local_now

def scheduled_for (now : DateTime) : Except PyError (Option DateTime) := do
  let tz ← d.timezone L
  let local_now ← now.astimezone tz
  if d.schedule_type = "one_shot" then d.oneShotSlot L tz local_now
  else if d.schedule_type = "interval" then d.intervalSlot Y now
  else if d.schedule_type = "cron" then d.cronSlot local_now
  else throw (.valueError ("unsupported schedule type: " ++ d.schedule_type))

/-- A cron schedule with an expression must have a valid one. -/
def checkCron : Except PyError Unit :=
  if d.schedule_type = "cron" then do
    let expression ← readText d.expression noSplit
    Scheduler.checkCron (d.typed expression none none)
  else return ()

/-- `Scheduler.register`, on the definitions by id. -/
def register (definitions : String → Option LoadedDefinition) :
    Except PyError (String → Option LoadedDefinition) :=
  if (definitions d.id).any (·.version ≠ d.version) then
    .error (.valueError "schedule replacement requires an explicit version migration")
  else if d.max_concurrency ≤ 0 ∨ d.retry_limit < 0 then
    .error (.valueError "invalid schedule concurrency or retry limit")
  else if d.notify_only_if ∉ notify_conditions then
    .error (.valueError "invalid schedule notification condition")
  else if d.notify_channel.any fun c => isBlank c || 64 < c.length then
    .error (.valueError "invalid schedule notification channel")
  else do
    let _ ← d.timezone L
    d.checkCron
    return Function.update definitions d.id (some d)

end LoadedDefinition

end EnterpriseCopilot.Schedule
