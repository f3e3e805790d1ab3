import EnterpriseCopilot.Python.Text

/-! Typed contracts of the agent runtime. -/

namespace EnterpriseCopilot.Runtime

open EnterpriseCopilot.Python

inductive ToolRisk
  | read | write | external_send | destructive
  deriving DecidableEq, Repr

def ToolRisk.value : ToolRisk → String
  | .read => "read"
  | .write => "write"
  | .external_send => "external_send"
  | .destructive => "destructive"

inductive RunStatus
  | succeeded | partial_success | blocked | failed | cancelled
  deriving DecidableEq, Repr

def RunStatus.value : RunStatus → String
  | .succeeded => "succeeded"
  | .partial_success => "partial_success"
  | .blocked => "blocked"
  | .failed => "failed"
  | .cancelled => "cancelled"

@[ext] structure IdentityContext where
  user_id : String
  workspace_id : String
  tenant_id : String
  role : String
  deriving DecidableEq, Repr

structure ToolDefinition where
  name : String
  risk : ToolRisk
  description : String

structure ToolCallRequest where
  request_id : String
  trace_id : String
  run_id : String
  identity : IdentityContext
  tool_name : String
  arguments : Payload
  idempotency_key : String

/-- A gateway may put anything into the fields. -/
structure ToolResult where
  success : Bool
  data : Json := .obj []
  source_id : Json := .null
  observed_at : Json := .null
  external_ref : Json := .null
  workspace_id : Json := .null
  tenant_id : Json := .null
  error : Json := .null

inductive Outcome
  | allow | deny | approval_required
  deriving DecidableEq, Repr

def Outcome.value : Outcome → String
  | .allow => "allow"
  | .deny => "deny"
  | .approval_required => "approval_required"

structure PolicyDecision where
  outcome : Outcome
  reason : String
  tool_name : String
  risk : Option ToolRisk := none

structure AuditEvent where
  event_type : String
  request_id : String
  trace_id : String
  run_id : String
  workspace_id : String
  agent_id : String
  payload : Payload
  created_at : String

/-- The tenant scope that the event carries. -/
def AuditEvent.tenant_id (e : AuditEvent) : Option String :=
  match e.payload.get "tenant_id" with
  | .str value => if isBlank value then none else some value
  | _ => none

structure RunResult where
  status : RunStatus
  run_id : String
  trace_id : String
  agent_id : String
  message : String
  source_id : Option String := none
  observed_at : Option String := none
  external_ref : Option String := none
  deriving DecidableEq, Repr

/-- Tools and roles as the engine was configured. -/
structure PolicyEngine where
  tools : List (String × ToolDefinition)
  role_allowlist : List (String × List String)

/-- Missing context always denies. -/
def PolicyEngine.authorize (p : PolicyEngine) (identity : IdentityContext) (tool_name : String)
    (approval_token : Option String := none) : PolicyDecision :=
  if isBlank identity.user_id || isBlank identity.workspace_id || isBlank identity.tenant_id ||
      isBlank identity.role then
    ⟨.deny, "identity and workspace scope are required", tool_name, none⟩
  else
    match p.tools.lookup tool_name with
    | none => ⟨.deny, "tool is not registered", tool_name, none⟩
    | some definition =>
      if tool_name ∉ (p.role_allowlist.lookup identity.role).getD [] then
        ⟨.deny, "role is not allowed to use this tool", tool_name, some definition.risk⟩
      else if definition.risk = .read then
        ⟨.allow, "authorized read operation", tool_name, some definition.risk⟩
      else if (truthy approval_token).isSome then
        ⟨.allow, "approved high-risk operation", tool_name, some definition.risk⟩
      else ⟨.approval_required, "high-risk operation requires approval", tool_name,
        some definition.risk⟩

end EnterpriseCopilot.Runtime
