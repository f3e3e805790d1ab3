import EnterpriseCopilot.Schedule.Definition

/-! Queue jobs for reviewed schedules. -/

namespace EnterpriseCopilot.Worker

open EnterpriseCopilot.Python EnterpriseCopilot.Schedule

/-- The reviewed inputs that a job repeats. -/
def expected (schedule : ScheduleDefinition) : Payload :=
  [("kind", .str "scheduled_agent"), ("schedule_id", .str schedule.id),
    ("schedule_version", .str schedule.version), ("agent", .str schedule.agent),
    ("permissions_mode", .str schedule.permissions_mode), ("query", .ofOption schedule.query),
    ("order_id", .ofOption schedule.order_id),
    ("allow_external_processing", .bool schedule.allow_external_processing)]

def build_schedule_job_payload (schedule : ScheduleDefinition) (scheduled_at : DateTime) :
    Payload :=
  [("kind", .str "scheduled_agent"), ("schedule_id", .str schedule.id),
    ("schedule_version", .str schedule.version), ("agent", .str schedule.agent),
    ("scheduled_at", .str scheduled_at.isoformat),
    ("permissions_mode", .str schedule.permissions_mode), ("query", .ofOption schedule.query),
    ("order_id", .ofOption schedule.order_id),
    ("allow_external_processing", .bool schedule.allow_external_processing)]

/-- `set(payload) == keys`. -/
def hasExactly (payload : Payload) (keys : List String) : Bool :=
  payload.all (fun x => x.1 ∈ keys) && keys.all fun k => (payload.lookup k).isSome

def matchesReviewed (payload : Payload) (schedule : ScheduleDefinition) : Bool :=
  hasExactly payload ("scheduled_at" :: (expected schedule).map Prod.fst) &&
    (expected schedule).all fun x => (payload.get x.1).eqScalar x.2

/-- The time of the job, which must name its offset. -/
def queuedAt (L : Library) (text : String) : Except PyError DateTime :=
  match L.fromisoformat text with
  | .error _ => .error (.workerConfigurationError "queued job scheduled_at is invalid")
  | .ok parsed =>
    match parsed.tzinfo with
    | none => .error (.workerConfigurationError "queued job scheduled_at must include a timezone")
    | some tz => .ok (parsed.orZone tz)

def validate_schedule_job_payload (L : Library) (payload : Payload)
    (schedule : ScheduleDefinition) : Except PyError DateTime :=
  if !matchesReviewed payload schedule then
    .error (.workerConfigurationError
      "queued job does not match the reviewed schedule definition")
  else
    match payload.get "scheduled_at" with
    | .str text =>
      if text.length > 64 then
        .error (.workerConfigurationError "queued job scheduled_at is invalid")
      else queuedAt L text
    | _ => .error (.workerConfigurationError "queued job scheduled_at is invalid")

end EnterpriseCopilot.Worker
