import EnterpriseCopilot.Approval.Store
import EnterpriseCopilot.Lib.Pool
import EnterpriseCopilot.Python.DateTime

/-! `ApprovalService` in any number of processes that share one store. -/

namespace EnterpriseCopilot.Approval

open EnterpriseCopilot.Lib EnterpriseCopilot.Python EnterpriseCopilot.Runtime

/-- JSON, and `hashlib.sha256(text.encode("utf-8")).hexdigest()`. -/
structure World where
  codec : Codec
  sha256 : String → Hex 64

/-- What `secrets.token_urlsafe(32)` returns. -/
structure Token where
  text : String
  length : text.length = 43
  deriving DecidableEq

/-- The clock, the sources of randomness and the operations of the store. -/
inductive Cmd
  | now
  | uuid4
  | token_urlsafe
  | create (record : ApprovalRecord)
  | get (approval_id : String) (scope : Scope)
  | list (scope : Scope) (status : Option ApprovalStatus)
  | find_idempotent (scope : Scope) (user_id idempotency_key : String)
  | decide (approval_id : String) (scope : Scope) (status : ApprovalStatus)
      (approver_user_id : Option String) (decided_at : Instant) (token_hash : Option String)
  | token_hash (approval_id : String) (scope : Scope)

abbrev Reply : Cmd → Type
  | .now => Instant
  | .uuid4 => Hex 32
  | .token_urlsafe => Token
  | .create _ => Except PyError Unit
  | .get _ _ | .find_idempotent _ _ _ | .decide _ _ _ _ _ _ => Except PyError (Option ApprovalRecord)
  | .list _ _ => Except PyError (List ApprovalRecord)
  | .token_hash _ _ => Option String

abbrev Code := Program Cmd Reply PyError

namespace Code

def now : Code Instant := .cmd .now .pure
def uuid4 : Code (Hex 32) := .cmd .uuid4 .pure
def token_urlsafe : Code Token := .cmd .token_urlsafe .pure
def create (record : ApprovalRecord) : Code Unit := .cmd (.create record) Program.ofExcept
def get (approval_id : String) (scope : Scope) : Code (Option ApprovalRecord) :=
  .cmd (.get approval_id scope) Program.ofExcept
def list (scope : Scope) (status : Option ApprovalStatus) : Code (List ApprovalRecord) :=
  .cmd (.list scope status) Program.ofExcept
def find_idempotent (scope : Scope) (user_id idempotency_key : String) :
    Code (Option ApprovalRecord) :=
  .cmd (.find_idempotent scope user_id idempotency_key) Program.ofExcept
def decide (approval_id : String) (scope : Scope) (status : ApprovalStatus)
    (approver_user_id : Option String) (decided_at : Instant) (token_hash : Option String) :
    Code (Option ApprovalRecord) :=
  .cmd (.decide approval_id scope status approver_user_id decided_at token_hash) Program.ofExcept
def token_hash (approval_id : String) (scope : Scope) : Code (Option String) :=
  .cmd (.token_hash approval_id scope) .pure

end Code

def _scope (identity : IdentityContext) : Except PyError Unit :=
  if [identity.user_id, identity.workspace_id, identity.tenant_id, identity.role].all
      fun value => !isBlank value && value.length ≤ 256 then .ok ()
  else .error (.approvalError "authenticated identity scope is invalid")

/-- The canonical text of the arguments and its digest. -/
def _arguments_digest (W : World) (arguments : Json) : Except PyError (String × String) :=
  match W.codec.dumps arguments with
  | .error (.typeError _) | .error (.valueError _) =>
    .error (.approvalError "approval arguments must be JSON serializable")
  | .error e => .error e
  | .ok canonical =>
    if 100000 < canonical.utf8ByteSize then .error (.approvalError "approval arguments are too large")
    else .ok (canonical, (W.sha256 canonical).text)

/-- The sentinel for tokens that are empty or too long. -/
def _hash_token (W : World) (token : String) : String :=
  if token.isEmpty || 512 < token.length then "" else (W.sha256 token).text

/-- `value + timedelta(seconds=…)`. -/
def later (value : Instant) (seconds : Int) : Except PyError Instant :=
  if value + seconds.toNat * 1000000 < wallEnd then .ok (value + seconds.toNat * 1000000)
  else .error (.overflowError "date value out of range")

namespace ApprovalService

variable (W : World)

/-- The checks of `request`. -/
def check (requester : IdentityContext) (tool_name : String) (risk : ToolRisk)
    (idempotency_key : Option String) (ttl_seconds : Int) : Except PyError Unit := do
  _scope requester
  if tool_name.isEmpty || 256 < tool_name.length || risk = .read then
    throw (.approvalError "only registered high-risk operations require approval")
  else if idempotency_key.any fun key => isBlank key || 200 < key.length then
    throw (.approvalError "idempotency key must be 1-200 characters")
  else if ttl_seconds < 60 || 86400 < ttl_seconds then
    throw (.approvalError "approval TTL must be between 60 and 86400 seconds")
  else return ()

/-- The second half of `request`: no request with the key was found. -/
def request_new (requester : IdentityContext) (tool_name : String) (arguments : Json)
    (risk : ToolRisk) (idempotency_key : Option String) (ttl_seconds : Int) :
    Code ApprovalRecord := do
  let (canonical, digest) ← Program.ofExcept (_arguments_digest W arguments)
  let requested_at ← Code.now
  let id ← Code.uuid4
  let stored ← Program.ofExcept (W.codec.loads canonical)
  let expires_at ← Program.ofExcept (later requested_at ttl_seconds)
  let record : ApprovalRecord := {
    id := id.text
    requester := requester
    tool_name := tool_name
    arguments := stored
    arguments_hash := digest
    risk := risk
    idempotency_key := idempotency_key
    requested_at := requested_at
    expires_at := expires_at
    status := .pending }
  Code.create record
  return record

def request (requester : IdentityContext) (tool_name : String) (arguments : Json)
    (risk : ToolRisk) (idempotency_key : Option String) (ttl_seconds : Int) :
    Code ApprovalRecord := do
  Program.ofExcept (check requester tool_name risk idempotency_key ttl_seconds)
  match truthy idempotency_key with
  | none => request_new W requester tool_name arguments risk idempotency_key ttl_seconds
  | some key =>
    match ← Code.find_idempotent (.of requester) requester.user_id key with
    | some existing => return existing
    | none => request_new W requester tool_name arguments risk idempotency_key ttl_seconds

def list (identity : IdentityContext) (status : Option ApprovalStatus) :
    Code (List ApprovalRecord) := do
  Program.ofExcept (_scope identity)
  Code.list (.of identity) status

def _not_expired (record : ApprovalRecord) : Code Bool := do
  let now ← Code.now
  return decide (now < record.expires_at)

def _expire_if_needed (record : ApprovalRecord) : Code ApprovalRecord :=
  if record.status = .pending then do
    if ← _not_expired record then return record
    else
      let decided_at ← Code.now
      let updated ← Code.decide record.id (.of record.requester) .expired none decided_at none
      return updated.getD record
  else return record

def get (identity : IdentityContext) (approval_id : String) : Code ApprovalRecord := do
  Program.ofExcept (_scope identity)
  match ← Code.get approval_id (.of identity) with
  | none => throw (.approvalNotFound "approval was not found")
  | some record => _expire_if_needed record

/-- The guard of `approve` and `reject`. -/
def decider (approver : IdentityContext) (verb : String) : Except PyError Unit := do
  _scope approver
  if approver.role ∈ ["admin", "manager"] then return ()
  else throw (.approvalError ("only manager or admin can " ++ verb ++ " high-risk actions"))

def approve (approver : IdentityContext) (approval_id : String) : Code (ApprovalRecord × String) := do
  Program.ofExcept (decider approver "approve")
  let record ← get approver approval_id
  if record.status = .pending then
    let token ← Code.token_urlsafe
    let decided_at ← Code.now
    match ← Code.decide approval_id (.of approver) .approved (some approver.user_id) decided_at
        (some (_hash_token W token.text)) with
    | none => throw (.approvalError "approval changed before it could be approved")
    | some updated => return (updated, token.text)
  else throw (.approvalError "approval is no longer pending")

def reject (approver : IdentityContext) (approval_id : String) : Code ApprovalRecord := do
  Program.ofExcept (decider approver "reject")
  let record ← get approver approval_id
  if record.status = .pending then
    let decided_at ← Code.now
    match ← Code.decide approval_id (.of approver) .rejected (some approver.user_id) decided_at
        none with
    | none => throw (.approvalError "approval changed before it could be rejected")
    | some updated => return updated
  else throw (.approvalError "approval is no longer pending")

def verify (identity : IdentityContext) (approval_id token tool_name : String) (arguments : Json) :
    Code Bool := do
  let record ← get identity approval_id
  if record.status ≠ .approved || record.tool_name ≠ tool_name then return false
  else
    let (_, digest) ← Program.ofExcept (_arguments_digest W arguments)
    if record.arguments_hash ≠ digest then return false
    else
      match ← Code.token_hash approval_id (.of identity) with
      | none => return false
      | some hash => return hash == _hash_token W token

/-- The loop of `pending_count`. -/
def count : List ApprovalRecord → Code Nat
  | [] => return 0
  | record :: records => do
    let live ← _not_expired record
    return (← count records) + if live then 1 else 0

def pending_count (identity : IdentityContext) : Code Nat := do
  let records ← list identity (some .pending)
  count records

end ApprovalService

inductive Call
  | request (requester : IdentityContext) (tool_name : String) (arguments : Json) (risk : ToolRisk)
      (idempotency_key : Option String) (ttl_seconds : Int)
  | list (identity : IdentityContext) (status : Option ApprovalStatus)
  | get (identity : IdentityContext) (approval_id : String)
  | approve (approver : IdentityContext) (approval_id : String)
  | reject (approver : IdentityContext) (approval_id : String)
  | verify (identity : IdentityContext) (approval_id token tool_name : String) (arguments : Json)
  | pending_count (identity : IdentityContext)

inductive Answer
  | record (record : ApprovalRecord)
  | records (records : List ApprovalRecord)
  | approved (record : ApprovalRecord) (token : String)
  | verified (valid : Bool)
  | count (n : Nat)

def program (W : World) : Call → Code Answer
  | .request requester tool_name arguments risk idempotency_key ttl_seconds => do
    return .record (← ApprovalService.request W requester tool_name arguments risk idempotency_key
      ttl_seconds)
  | .list identity status => do return .records (← ApprovalService.list identity status)
  | .get identity approval_id => do return .record (← ApprovalService.get identity approval_id)
  | .approve approver approval_id => do
    let (record, token) ← ApprovalService.approve W approver approval_id
    return .approved record token
  | .reject approver approval_id => do
    return .record (← ApprovalService.reject approver approval_id)
  | .verify identity approval_id token tool_name arguments => do
    return .verified (← ApprovalService.verify W identity approval_id token tool_name arguments)
  | .pending_count identity => do return .count (← ApprovalService.pending_count identity)

/-- The store and the clock that all processes share. -/
structure Desk (b : Backend) where
  table : Approvals b
  clock : Instant

/-- What the sources of randomness return. -/
structure Choice where
  uuid : Hex 32
  token : Token

def Desk.apply {b : Backend} (W : World) (s : Desk b) (_ : Call) (c : Cmd) (ch : Choice) :
    Reply c × Desk b :=
  match c with
  | .now => (s.clock, s)
  | .uuid4 => (ch.uuid, s)
  | .token_urlsafe => (ch.token, s)
  | .create record => ((s.table.create W.codec record).1,
      { s with table := (s.table.create W.codec record).2 })
  | .get approval_id scope => (s.table.get W.codec approval_id scope, s)
  | .list scope status => (s.table.list W.codec scope status, s)
  | .find_idempotent scope user_id idempotency_key =>
    (s.table.find_idempotent W.codec scope user_id idempotency_key, s)
  | .decide approval_id scope status approver decided_at hash =>
    ((s.table.decide W.codec approval_id scope status approver decided_at hash).1,
      { s with table := (s.table.decide W.codec approval_id scope status approver decided_at hash).2 })
  | .token_hash approval_id scope => (s.table.token_hash approval_id scope, s)

/-- The environment lets time pass. -/
def pool (b : Backend) (W : World) : Pool (Desk b) Cmd Reply Choice Nat Call PyError Answer where
  program := program W
  apply := Desk.apply W
  env s n := { s with clock := s.clock + n }

abbrev State (b : Backend) := Pool.State (Desk b) Cmd Reply Call PyError Answer
abbrev Action := Pool.Action Choice Nat Call
abbrev Event := Pool.Event Cmd Reply Nat Call PyError Answer
abbrev Log := Exchange Cmd Reply

end EnterpriseCopilot.Approval
