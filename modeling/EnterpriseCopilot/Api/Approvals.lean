import EnterpriseCopilot.Approval.Lifecycle
import EnterpriseCopilot.Limits.Throttle
import Mathlib.Data.List.Infix

/-! The endpoints for approvals, in any number of processes over one approval store and one audit log. -/

namespace EnterpriseCopilot.Api.Approvals

open EnterpriseCopilot.Lib EnterpriseCopilot.Python EnterpriseCopilot.Runtime
open EnterpriseCopilot.Approval (ApprovalRecord ApprovalStatus Backend Instant)
open EnterpriseCopilot.Limits (HTTPException)

/-- The commands of the approval service, and those that record an event. -/
inductive Cmd
  | service (c : Approval.Cmd)
  | uuid4
  | utc_now
  | append (event : AuditEvent)

abbrev Reply : Cmd → Type
  | .service c => Approval.Reply c
  | .uuid4 => Hex 32
  | .utc_now => String
  | .append _ => Except PyError Unit

abbrev Code := Program Cmd Reply PyError

namespace Code

/-- A call of the approval service. -/
def service {α : Type} (p : Approval.Code α) : Code α := p.lift Cmd.service fun _ r => r
def uuid4 : Code (Hex 32) := .cmd .uuid4 .pure
def utc_now : Code String := .cmd .utc_now .pure
def append (event : AuditEvent) : Code Unit := .cmd (.append event) Program.ofExcept

end Code

structure ApprovalPayload where
  id : String
  tool_name : String
  arguments : Json
  arguments_hash : String
  risk : String
  status : ApprovalStatus
  requested_at : Instant
  expires_at : Instant
  approver_user_id : Option String
  decided_at : Option Instant

def as_dict (record : ApprovalRecord) : ApprovalPayload where
  id := record.id
  tool_name := record.tool_name
  arguments := record.arguments
  arguments_hash := record.arguments_hash
  risk := record.risk.value
  status := record.status
  requested_at := record.requested_at
  expires_at := record.expires_at
  approver_user_id := record.approver_user_id
  decided_at := record.decided_at

inductive Response
  | items (items : List ApprovalPayload) (count : Nat)
  | created (payload : ApprovalPayload)
  | approved (payload : ApprovalPayload) (approval_token : String) (headers : List (String × String))
  | rejected (payload : ApprovalPayload)
  | http (e : HTTPException)

structure ApprovalCreateRequest where
  tool_name : String
  arguments : Payload := []
  idempotency_key : Option String := none
  ttl_seconds : Int := 900
  named : 1 ≤ tool_name.length ∧ tool_name.length ≤ 256
  keyed : ∀ key ∈ idempotency_key, 1 ≤ key.length ∧ key.length ≤ 200
  timed : 60 ≤ ttl_seconds ∧ ttl_seconds ≤ 86400

/-- The requests of authenticated identities.  `request_id` is what the middleware gave the request. -/
inductive Call
  | list_approvals (identity : IdentityContext) (approval_status : Option String)
  | create_approval (identity : IdentityContext) (request : ApprovalCreateRequest) (request_id : Option String)
  | approve_approval (identity : IdentityContext) (approval_id : String) (request_id : Option String)
  | reject_approval (identity : IdentityContext) (approval_id : String) (reason : Option String)
      (request_id : Option String)

/-- What the application was given: the definitions of the gateway and the policy of the runtime. -/
structure Deployment where
  world : Approval.World
  definitions : List (String × ToolDefinition)
  policy : PolicyEngine

def status_of : String → Option ApprovalStatus
  | "pending" => some .pending
  | "approved" => some .approved
  | "rejected" => some .rejected
  | "expired" => some .expired
  | _ => none

def approval_event (event_type : String) (identity : IdentityContext) (approval_id : String) (payload : Payload)
    (request_id : String) (trace_uuid : Hex 32) (created_at : String) : AuditEvent where
  event_type := event_type
  request_id := request_id
  trace_id := "approval-trace-" ++ trace_uuid.text
  run_id := "approval-" ++ approval_id
  workspace_id := identity.workspace_id
  agent_id := "approval-service"
  payload := [("approval_id", .str approval_id), ("tenant_id", .str identity.tenant_id)] ++ payload
  created_at := created_at

/-- `request_id or f"approval-request-{uuid.uuid4().hex}"`. -/
def event_request_id (request_id : Option String) : Code String :=
  match truthy request_id with
  | some request_id => return request_id
  | none => do
    let uuid ← Code.uuid4
    return "approval-request-" ++ uuid.text

def _record_approval_event (event_type : String) (identity : IdentityContext) (approval_id : String)
    (payload : Payload) (request_id : Option String) : Code Unit := do
  let request_id ← event_request_id request_id
  let trace_uuid ← Code.uuid4
  let created_at ← Code.utc_now
  Code.append (approval_event event_type identity approval_id payload request_id trace_uuid created_at)

/-- The handlers of a decision. -/
def decision_error : PyError → Code Response
  | .approvalNotFound _ => return .http ⟨404, "approval was not found", none⟩
  | .approvalError msg =>
    return .http ⟨if "only manager or admin".toList <:+: msg.toList then 403 else 409, msg, none⟩
  | e => .throw e

def list_approvals (identity : IdentityContext) (approval_status : Option String) : Code Response :=
  match approval_status with
  | some text =>
    match status_of text with
    | none => return .http ⟨422, "invalid approval status", none⟩
    | some status => do
      let records ← Code.service (Approval.ApprovalService.list identity (some status))
      return .items (records.map as_dict) records.length
  | none => do
    let records ← Code.service (Approval.ApprovalService.list identity none)
    return .items (records.map as_dict) records.length

def reject_approval (identity : IdentityContext) (approval_id : String) (reason : Option String)
    (request_id : Option String) : Code Response := do
  match ← (Code.service (Approval.ApprovalService.reject identity approval_id)).attempt with
  | .error e => decision_error e
  | .ok record =>
    _record_approval_event "approval.rejected" identity record.id
      [("tool", .str record.tool_name), ("risk", .str record.risk.value),
        ("reason", (reason.map Json.str).getD .null)] request_id
    return .rejected (as_dict record)

namespace Deployment

variable (D : Deployment)

def tool_definition (tool_name : String) : Option ToolDefinition := D.definitions.lookup tool_name

def policy_decision (identity : IdentityContext) (tool_name : String) : PolicyDecision :=
  D.policy.authorize identity tool_name

/-- The end of `create_approval`. -/
def request_approval (identity : IdentityContext) (definition : ToolDefinition) (request : ApprovalCreateRequest)
    (request_id : Option String) : Code Response := do
  match ← (Code.service (Approval.ApprovalService.request D.world identity definition.name (.obj request.arguments)
      definition.risk request.idempotency_key request.ttl_seconds)).attempt with
  | .error (.approvalNotFound msg) => return .http ⟨422, msg, none⟩
  | .error (.approvalError msg) => return .http ⟨422, msg, none⟩
  | .error e => .throw e
  | .ok record =>
    _record_approval_event "approval.requested" identity record.id
      [("tool", .str record.tool_name), ("risk", .str record.risk.value),
        ("arguments_hash", .str record.arguments_hash)] request_id
    return .created (as_dict record)

def create_approval (identity : IdentityContext) (request : ApprovalCreateRequest) (request_id : Option String) :
    Code Response :=
  match D.tool_definition request.tool_name with
  | none => return .http ⟨404, "tool is not registered", none⟩
  | some definition =>
    if definition.risk = .read then return .http ⟨422, "read operations do not require approval", none⟩
    else if (D.policy_decision identity definition.name).outcome = .deny then
      return .http ⟨403, "the requester is not authorized for this tool", none⟩
    else if (D.policy_decision identity definition.name).outcome ≠ .approval_required then
      return .http ⟨422, "the tool does not require an approval record", none⟩
    else D.request_approval identity definition request request_id

def approve_approval (identity : IdentityContext) (approval_id : String) (request_id : Option String) :
    Code Response := do
  match ← (Code.service (Approval.ApprovalService.approve D.world identity approval_id)).attempt with
  | .error e => decision_error e
  | .ok (record, token) =>
    _record_approval_event "approval.approved" identity record.id
      [("tool", .str record.tool_name), ("risk", .str record.risk.value)] request_id
    return .approved (as_dict record) token [("Cache-Control", "private, no-store")]

def program : Call → Code Response
  | .list_approvals identity approval_status => list_approvals identity approval_status
  | .create_approval identity request request_id => D.create_approval identity request request_id
  | .approve_approval identity approval_id request_id => D.approve_approval identity approval_id request_id
  | .reject_approval identity approval_id reason request_id => reject_approval identity approval_id reason request_id

/-- The call of the service that a request makes, if it gets so far. -/
def service_call : Call → Approval.Call
  | .list_approvals identity approval_status => .list identity (approval_status.bind status_of)
  | .create_approval identity request _ =>
    match D.tool_definition request.tool_name with
    | some definition => .request identity definition.name (.obj request.arguments) definition.risk
        request.idempotency_key request.ttl_seconds
    | none => .list identity none
  | .approve_approval identity approval_id _ => .approve identity approval_id
  | .reject_approval identity approval_id _ _ => .reject identity approval_id

end Deployment

/-- The store and the clock of the service, and the events of the audit log. -/
structure Desk (b : Backend) where
  service : Approval.Desk b
  audit : List AuditEvent

/-- What becomes of an `append`: the event can be stored although the caller is told otherwise. -/
inductive Written
  | stored
  | lost (e : PyError)
  | refused (e : PyError)
  deriving DecidableEq

structure Choice where
  service : Approval.Choice
  uuid : Hex 32
  utc_now : String
  written : Written

def Desk.apply {b : Backend} (D : Deployment) (s : Desk b) (call : Call) (c : Cmd) (ch : Choice) :
    Reply c × Desk b :=
  match c with
  | .service c =>
    ((s.service.apply D.world (D.service_call call) c ch.service).1,
      { s with service := (s.service.apply D.world (D.service_call call) c ch.service).2 })
  | .uuid4 => (ch.uuid, s)
  | .utc_now => (ch.utc_now, s)
  | .append event =>
    match ch.written with
    | .stored => (.ok (), { s with audit := s.audit ++ [event] })
    | .lost e => (.error e, { s with audit := s.audit ++ [event] })
    | .refused e => (.error e, s)

/-- The environment lets time pass. -/
def pool (b : Backend) (D : Deployment) : Pool (Desk b) Cmd Reply Choice Nat Call PyError Response where
  program := D.program
  apply := Desk.apply D
  env s n := { s with service := { s.service with clock := s.service.clock + n } }

abbrev State (b : Backend) := Pool.State (Desk b) Cmd Reply Call PyError Response
abbrev Action := Pool.Action Choice Nat Call
abbrev Event := Pool.Event Cmd Reply Nat Call PyError Response
abbrev Log := Lib.Exchange Cmd Reply

end EnterpriseCopilot.Api.Approvals
