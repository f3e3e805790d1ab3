import EnterpriseCopilot.Lib.Program
import EnterpriseCopilot.Runtime.Models

/-! `AgentRuntime.run`, with every call of a collaborator as a command. -/

namespace EnterpriseCopilot.Runtime

open EnterpriseCopilot.Lib EnterpriseCopilot.Python

structure TraceRecord where
  trace_id : String
  span_id : String
  name : String
  start_time_unix_nano : Int
  end_time_unix_nano : Int
  attributes : List (String × Json)

/-- Whatever `complete` returned, if it is a `ModelCompletion` at all. -/
structure ModelCompletion where
  provider : Json
  model : Json
  text : Json

/-- A `ModelProviderError`, with the name of its class, or any other exception. -/
inductive ModelFailure
  | provider (type_name : String)
  | other (e : PyError)

inductive Cmd
  | uuid4
  | utc_now
  | time_ns
  | new_span_id
  | append (event : AuditEvent)
  | call (request : ToolCallRequest)
  | export_span (record : TraceRecord)
  | complete (query : String) (evidence : Payload) (request_id trace_id run_id : String)

/-- An exporter that raises is known by the class of the exception. -/
abbrev Reply : Cmd → Type
  | .uuid4 | .utc_now | .new_span_id => String
  | .time_ns => Int
  | .append _ => Unit
  | .call _ => Except PyError ToolResult
  | .export_span _ => Except String Unit
  | .complete _ _ _ _ _ => Except ModelFailure (Option ModelCompletion)

abbrev Code := Program Cmd Reply PyError

namespace Code

def uuid4 : Code String := .cmd .uuid4 .pure
def utc_now : Code String := .cmd .utc_now .pure
def time_ns : Code Int := .cmd .time_ns .pure
def new_span_id : Code String := .cmd .new_span_id .pure
def append (event : AuditEvent) : Code Unit := .cmd (.append event) .pure
def call (request : ToolCallRequest) : Code ToolResult := .cmd (.call request) Program.ofExcept
def export_span (record : TraceRecord) : Code (Except String Unit) := .cmd (.export_span record) .pure
def complete (query : String) (evidence : Payload) (request_id trace_id run_id : String) :
    Code (Except ModelFailure (Option ModelCompletion)) :=
  .cmd (.complete query evidence request_id trace_id run_id) .pure

end Code

structure Provider where
  provider_id : String
  model : String

/-- The collaborators that the runtime was built with. -/
structure AgentRuntime where
  policy : PolicyEngine
  trace_exporter : Bool := false
  model_provider : Option Provider := none
  sha256 : String → String

def agent_id : String := "customer-service-agent"
def tool_name : String := "erp.get_order_status"

/-- The identifiers of one run. -/
structure Ctx where
  request_id : String
  trace_id : String
  run_id : String
  identity : IdentityContext

def Ctx.event (x : Ctx) (event_type : String) (payload : Payload) (created_at : String) : AuditEvent :=
  ⟨event_type, x.request_id, x.trace_id, x.run_id, x.identity.workspace_id, agent_id, payload,
    created_at⟩

/-- `self._audit.append(AuditEvent(...))`. -/
def emit (x : Ctx) (event_type : String) (payload : Payload) : Code Unit := do
  let created_at ← Code.utc_now
  Code.append (x.event event_type payload created_at)

def _finish (x : Ctx) (status : RunStatus) (message : String) : Code RunResult := do
  emit x ("run." ++ status.value)
    [("message", .str message), ("tenant_id", .str x.identity.tenant_id)]
  return { status, run_id := x.run_id, trace_id := x.trace_id, agent_id, message }

/-- The text of an attribute value as `str(value)` has it. -/
def attributeLength : Json → Nat
  | .str s => s.length
  | .bool b => if b then 4 else 5
  | _ => 0

/-- `TraceRecord.__post_init__`, with the class of the exception.  The attribute names of the
two spans are safe ones. -/
def TraceRecord.post_init (r : TraceRecord) : Except String Unit :=
  if r.trace_id.isEmpty || r.trace_id.length > 128 then .error "ValueError"
  else if r.span_id.isEmpty || r.span_id.length > 128 then .error "ValueError"
  else if r.name.isEmpty || r.name.length > 128 then .error "ValueError"
  else if r.start_time_unix_nano ≤ 0 || r.end_time_unix_nano < r.start_time_unix_nano then
    .error "ValueError"
  else if r.attributes.any fun x => attributeLength x.2 > 256 then .error "ValueError"
  else .ok ()

/-- What `_export_tool_span` and `_export_model_span` share. -/
def export_named_span (rt : AgentRuntime) (x : Ctx) (name tool : String) (started_at : Int)
    (attributes : List (String × Json)) : Code Unit :=
  let failed (error_type : String) : Code Unit := emit x "trace.export_failed"
    [("error_type", .str error_type), ("tenant_id", .str x.identity.tenant_id), ("tool", .str tool)]
  if rt.trace_exporter then do
    let span_id ← Code.new_span_id
    let ended_at ← Code.time_ns
    let record : TraceRecord := ⟨x.trace_id, span_id, name, started_at, ended_at,
      [("request_id", .str x.request_id), ("run_id", .str x.run_id)] ++ attributes ++
        [("workspace_hash", .str ((rt.sha256 x.identity.workspace_id).take 16).toString)]⟩
    match record.post_init with
    | .error error_type => failed error_type
    | .ok () =>
      match ← Code.export_span record with
      | .error error_type => failed error_type
      | .ok () => return
  else return

def _export_tool_span (rt : AgentRuntime) (x : Ctx) (started_at : Int) (success : Bool) : Code Unit :=
  export_named_span rt x "agent.tool" tool_name started_at
    [("tool", .str tool_name), ("success", .bool success)]

def _export_model_span (rt : AgentRuntime) (x : Ctx) (started_at : Int) (provider model : String)
    (success : Bool) : Code Unit :=
  export_named_span rt x "agent.model" "model" started_at
    [("provider", .str provider), ("model", .str model), ("success", .bool success)]

/-- A string that is not blank. -/
def Json.filled : Json → Bool
  | .str s => !isBlank s
  | _ => false

def Json.text : Json → String
  | .str s => s
  | _ => ""

def ToolResult.fields (r : ToolResult) : Payload :=
  match r.data with
  | .obj kvs => kvs
  | _ => []

def provenance_verified (identity : IdentityContext) (requested_order_id : String) (r : ToolResult) :
    Bool :=
  r.success && r.workspace_id.eqScalar (.str identity.workspace_id) &&
    r.tenant_id.eqScalar (.str identity.tenant_id) &&
    r.external_ref.eqScalar (.str requested_order_id) && Json.filled r.source_id &&
    Json.filled r.observed_at && (r.fields.get "order_id").eqScalar (.str requested_order_id) &&
    Json.filled (r.fields.get "status") && (Json.text (r.fields.get "status")).length ≤ 256 &&
    ((r.fields.get "tenant_id").eqScalar .null ||
      (r.fields.get "tenant_id").eqScalar (.str identity.tenant_id))

/-- The provider, model and text of a completion that passes the checks. -/
def valid_completion : Option ModelCompletion → Option (String × String × String)
  | some c =>
    if Json.filled c.provider && Json.filled c.model && Json.filled c.text &&
        (Json.text c.text).length ≤ 32000 then
      some (Json.text c.provider, Json.text c.model, Json.text c.text)
    else none
  | none => none

def verified_message (requested_order_id : String) (r : ToolResult) : String :=
  "Order " ++ requested_order_id ++ " is " ++ Json.text (r.fields.get "status") ++ ". Observed at " ++
    Json.text r.observed_at ++ "."

/-- The handler of `ModelProviderError`. -/
def model_failed (rt : AgentRuntime) (x : Ctx) (p : Provider) (started_at : Int)
    (error_type message : String) : Code (RunStatus × String) := do
  _export_model_span rt x started_at p.provider_id p.model false
  emit x "model.failed" [("provider", .str p.provider_id), ("error_type", .str error_type),
    ("tenant_id", .str x.identity.tenant_id)]
  return (.partial_success, message ++ " Model explanation is unavailable.")

/-- The explanation of a verified answer: the status and the message of the run. -/
def explain (rt : AgentRuntime) (x : Ctx) (query requested_order_id : String) (r : ToolResult)
    (allow_external_model_processing : Bool) : Code (RunStatus × String) :=
  let message := verified_message requested_order_id r
  match rt.model_provider with
  | none => return (.succeeded, message)
  | some p =>
    if allow_external_model_processing then do
      let started_at ← Code.time_ns
      match ← Code.complete query
          [("order_id", .str requested_order_id), ("status", r.fields.get "status"),
            ("source_id", r.source_id), ("observed_at", r.observed_at)]
          x.request_id x.trace_id x.run_id with
      | .error (.other e) => throw e
      | .error (.provider type_name) => model_failed rt x p started_at type_name message
      | .ok completion =>
        match valid_completion completion with
        | none => model_failed rt x p started_at "ModelProviderError" message
        | some (provider, model, text) =>
          emit x "model.completed" [("provider", .str provider), ("model", .str model),
            ("external_processing_consent", .bool true), ("tenant_id", .str x.identity.tenant_id)]
          _export_model_span rt x started_at provider model true
          return (.succeeded, message ++ "\n\nModel explanation (unverified): " ++ text)
    else do
      emit x "model.blocked" [("provider", .str p.provider_id),
        ("reason", .str "external_processing_consent_required"),
        ("external_processing_consent", .bool false), ("tenant_id", .str x.identity.tenant_id)]
      return (.succeeded, message ++ " Model explanation was not requested.")

/-- The answer of a run whose tool result is verified. -/
def succeed (rt : AgentRuntime) (x : Ctx) (query requested_order_id : String) (r : ToolResult)
    (allow_external_model_processing : Bool) : Code RunResult := do
  let (status, message) ← explain rt x query requested_order_id r allow_external_model_processing
  let result : RunResult := ⟨status, x.run_id, x.trace_id, agent_id, message,
    some (Json.text r.source_id), some (Json.text r.observed_at), some (Json.text r.external_ref)⟩
  emit x ("run." ++ status.value) [("source_id", r.source_id), ("external_ref", r.external_ref),
    ("tenant_id", .str x.identity.tenant_id)]
  return result

def tool_request (x : Ctx) (requested_order_id : String) : ToolCallRequest :=
  ⟨x.request_id, x.trace_id, x.run_id, x.identity, tool_name,
    [("order_id", .str requested_order_id)],
    x.run_id ++ ":" ++ tool_name ++ ":" ++ requested_order_id⟩

/-- The authorised part of a run. -/
def call_tool (rt : AgentRuntime) (x : Ctx) (query requested_order_id : String)
    (allow_external_model_processing : Bool) : Code RunResult := do
  let started_at ← Code.time_ns
  let r ← Code.call (tool_request x requested_order_id)
  let verified := provenance_verified x.identity requested_order_id r
  _export_tool_span rt x started_at r.success
  emit x "tool.completed" [("tool", .str tool_name), ("success", .bool r.success),
    ("source_id", r.source_id), ("external_ref", r.external_ref), ("error", r.error),
    ("provenance_verified", .bool verified), ("tenant_id", .str x.identity.tenant_id)]
  if r.success then
    if verified then succeed rt x query requested_order_id r allow_external_model_processing
    else _finish x .failed "The ERP result failed provenance verification."
  else _finish x .failed "The order status could not be verified at this time."

def decision_payload (x : Ctx) (decision : PolicyDecision) : Payload :=
  [("tool", .str tool_name), ("outcome", .str decision.outcome.value), ("reason", .str decision.reason),
    ("risk", Json.ofOption (decision.risk.map ToolRisk.value)), ("tenant_id", .str x.identity.tenant_id)]

/-- A text that is not blank, if there is one. -/
def given : Option String → Option String
  | some s => if isBlank s then none else some s
  | none => none

/-- The run after its first event.  A `query` that is not a string is `none`. -/
def handle (rt : AgentRuntime) (x : Ctx) (query order_id : Option String)
    (allow_external_model_processing : Bool) : Code RunResult :=
  match given query with
  | none => _finish x .blocked "A non-empty customer request is required."
  | some query =>
    match given order_id with
    | none => _finish x .blocked
        "Please provide an order ID so the authorized ERP record can be checked."
    | some order_id => do
      let decision := rt.policy.authorize x.identity tool_name
      emit x "policy.decided" (decision_payload x decision)
      if decision.outcome = .allow then
        call_tool rt x query (str_strip order_id) allow_external_model_processing
      else _finish x .blocked "This request is not authorized for the requested operation."

/-- `request_id or f"req-{uuid4()}"`. -/
def or_uuid (given_id : Option String) (stem : String) : Code String :=
  match truthy given_id with
  | some id => return id
  | none => do return stem ++ (← Code.uuid4)

namespace AgentRuntime

def run (rt : AgentRuntime) (query : Option String) (identity : IdentityContext)
    (order_id request_id trace_id : Option String) (allow_external_model_processing : Bool) :
    Code RunResult := do
  let request_id ← or_uuid request_id "req-"
  let trace_id ← or_uuid trace_id "trace-"
  let run_id ← Code.uuid4
  let x : Ctx := ⟨request_id, trace_id, "run-" ++ run_id, identity⟩
  emit x "run.created" [("query_length", .num ((query.map String.length).getD 0 : Nat)),
    ("intent", .str "order_status"), ("tenant_id", .str identity.tenant_id)]
  handle rt x query order_id allow_external_model_processing

end AgentRuntime

end EnterpriseCopilot.Runtime
