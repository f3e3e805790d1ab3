import EnterpriseCopilot.Approval.Service

/-! The table `approval_requests` column by column, and the statements of the two durable stores. -/

namespace EnterpriseCopilot.Approval

open EnterpriseCopilot.Lib EnterpriseCopilot.Python EnterpriseCopilot.Runtime

def ApprovalStatus.value : ApprovalStatus → String
  | .pending => "pending"
  | .approved => "approved"
  | .rejected => "rejected"
  | .expired => "expired"

namespace Sql

inductive Column
  | id | workspace_id | tenant_id | requester_user_id | requester_role | tool_name | arguments_json
  | arguments_hash | risk | idempotency_key | requested_at | expires_at | status | approver_user_id
  | decided_at | token_hash
  deriving DecidableEq

/-- The value of a column.  The text of a timestamp is kept as the instant that it denotes. -/
inductive Cell
  | null
  | text (value : String)
  | time (value : Instant)
  deriving DecidableEq

abbrev Tuple := Column → Cell

inductive Engine
  | sqlite | postgres
  deriving DecidableEq

def Engine.backend : Engine → Backend
  | .sqlite => .sqlite
  | .postgres => .postgres

/-- The primary key, and the unique constraint, for which NULL keys are distinct. -/
def Clash (s t : Tuple) : Prop :=
  s .id = t .id ∨ (s .workspace_id = t .workspace_id ∧ s .tenant_id = t .tenant_id ∧
    s .requester_user_id = t .requester_user_id ∧ s .idempotency_key = t .idempotency_key ∧
    s .idempotency_key ≠ .null)

instance : DecidableRel Clash := fun s t => inferInstanceAs (Decidable (s .id = t .id ∨ _ ∧ _ ∧ _ ∧ _ ∧ _))

abbrev ApprovalRequests := Table Tuple Clash

def Cell.ofOption : Option String → Cell
  | some value => .text value
  | none => .null

def Cell.hasNul : Cell → Bool
  | .text value => value.toList.contains '\x00'
  | _ => false

/-- A text with a NUL cannot be a parameter of a statement for PostgreSQL. -/
def bind (e : Engine) (params : List Cell) : Except PyError Unit :=
  if e = .postgres && params.any Cell.hasNul then .error (.exception "DataError") else .ok ()

section Statements

/-- The columns of the INSERT, in its order. -/
def insert_columns : List Column :=
  [.id, .workspace_id, .tenant_id, .requester_user_id, .requester_role, .tool_name, .arguments_json,
    .arguments_hash, .risk, .idempotency_key, .requested_at, .expires_at, .status]

def insert_values (record : ApprovalRecord) (arguments_json : String) : List Cell :=
  [.text record.id, .text record.requester.workspace_id, .text record.requester.tenant_id,
    .text record.requester.user_id, .text record.requester.role, .text record.tool_name, .text arguments_json,
    .text record.arguments_hash, .text record.risk.value, .ofOption record.idempotency_key,
    .time record.requested_at, .time record.expires_at, .text record.status.value]

/-- The tuple of an INSERT: columns that are not named are NULL. -/
def insert (columns : List Column) (values : List Cell) : Tuple :=
  fun column => ((columns.zip values).lookup column).getD .null

/-- The columns of the SELECT, in its order. -/
def select_columns : List Column :=
  [.id, .workspace_id, .tenant_id, .requester_user_id, .requester_role, .tool_name, .arguments_json,
    .arguments_hash, .risk, .idempotency_key, .requested_at, .expires_at, .status, .approver_user_id,
    .decided_at, .token_hash]

def select (t : Tuple) : List Cell := select_columns.map t

/-- `str()` of a column. -/
def str : Cell → Except PyError String
  | .text value => .ok value
  | .null => .ok "None"
  | .time _ => .error (.typeError "timestamp")

def optional : Cell → Except PyError (Option String)
  | .null => .ok none
  | cell => (str cell).map some

/-- The instant of a timestamp. -/
def instant : Cell → Except PyError Instant
  | .time value => .ok value
  | _ => .error (.valueError "Invalid isoformat string")

def optional_instant : Cell → Except PyError (Option Instant)
  | .null => .ok none
  | cell => (instant cell).map some

def ToolRisk.ofValue (value : String) : Except PyError ToolRisk :=
  match [ToolRisk.read, .write, .external_send, .destructive].find? fun risk => risk.value = value with
  | some risk => .ok risk
  | none => .error (.valueError (value ++ " is not a valid ToolRisk"))

/-- The status with the text; the statements write no other text. -/
def ApprovalStatus.ofValue (value : String) : Except PyError ApprovalStatus :=
  match [ApprovalStatus.pending, .approved, .rejected, .expired].find? fun status => status.value = value with
  | some status => .ok status
  | none => .error (.valueError value)

def _from_row (codec : Codec) (row : List Cell) : Except PyError ApprovalRecord := do
  let cell (i : Nat) := row.getD i .null
  return {
    id := ← str (cell 0)
    requester := ⟨← str (cell 3), ← str (cell 1), ← str (cell 2), ← str (cell 4)⟩
    tool_name := ← str (cell 5)
    arguments := ← codec.loads (← str (cell 6))
    arguments_hash := ← str (cell 7)
    risk := ← ToolRisk.ofValue (← str (cell 8))
    idempotency_key := ← optional (cell 9)
    requested_at := ← instant (cell 10)
    expires_at := ← instant (cell 11)
    status := ← ApprovalStatus.ofValue (← str (cell 12))
    approver_user_id := ← optional (cell 13)
    decided_at := ← optional_instant (cell 14) }

/-- `WHERE id = ? AND workspace_id = ? AND tenant_id = ?`. -/
def in_scope (approval_id : String) (scope : Scope) (t : Tuple) : Bool :=
  t .id = .text approval_id && t .workspace_id = .text scope.workspace_id &&
    t .tenant_id = .text scope.tenant_id

def scope_params (approval_id : String) (scope : Scope) : List Cell :=
  [.text approval_id, .text scope.workspace_id, .text scope.tenant_id]

/-- `SET status = ?, approver_user_id = ?, decided_at = ?, token_hash = ?`. -/
def set (status : ApprovalStatus) (approver_user_id : Option String) (decided_at : Instant)
    (token_hash : Option String) (t : Tuple) : Tuple
  | .status => .text status.value
  | .approver_user_id => .ofOption approver_user_id
  | .decided_at => .time decided_at
  | .token_hash => .ofOption token_hash
  | column => t column

/-- The columns that identify a request are not set. -/
theorem set_kept {status : ApprovalStatus} {approver_user_id : Option String} {decided_at : Instant}
    {token_hash : Option String} {t : Tuple} {column : Column}
    (h : column ∉ [Column.status, .approver_user_id, .decided_at, .token_hash]) :
    set status approver_user_id decided_at token_hash t column = t column := by
  cases column <;> simp at h <;> rfl

theorem clash_set {status : ApprovalStatus} {approver_user_id : Option String} {decided_at : Instant}
    {token_hash : Option String} {p : Tuple → Bool} (s t : Tuple)
    (h : Clash (if p s then set status approver_user_id decided_at token_hash s else s)
      (if p t then set status approver_user_id decided_at token_hash t else t)) : Clash s t := by
  have same : ∀ t column, column ∉ [Column.status, .approver_user_id, .decided_at, .token_hash] →
      (if p t then set status approver_user_id decided_at token_hash t else t) column = t column := by
    intro t column hc
    split
    · exact set_kept hc
    · rfl
  unfold Clash at h ⊢
  rwa [same s .id (by decide), same t .id (by decide), same s .workspace_id (by decide),
    same t .workspace_id (by decide), same s .tenant_id (by decide), same t .tenant_id (by decide),
    same s .requester_user_id (by decide), same t .requester_user_id (by decide),
    same s .idempotency_key (by decide), same t .idempotency_key (by decide)] at h

end Statements

namespace ApprovalRequests

variable (e : Engine) (codec : Codec) (t : ApprovalRequests)

/-- SQLite reports constraint violations as a clash, PostgreSQL every failure. -/
def report (error : PyError) : PyError :=
  match e with
  | .sqlite => error
  | .postgres => .approvalError e.backend.duplicate

def create (record : ApprovalRecord) : Except PyError Unit × ApprovalRequests :=
  match codec.dumps record.arguments with
  | .error error => (.error (report e error), t)
  | .ok arguments_json =>
    match bind e (insert_values record arguments_json) with
    | .error error => (.error (report e error), t)
    | .ok _ =>
      match t.insert? (insert insert_columns (insert_values record arguments_json)) with
      | some u => (.ok (), u)
      | none => (.error (.approvalError e.backend.duplicate), t)

/-- The record of the first tuple that meets the condition. -/
def fetchone (p : Tuple → Bool) : Except PyError (Option ApprovalRecord) :=
  match t.rows.find? p with
  | none => .ok none
  | some tuple => (_from_row codec (select tuple)).map some

def get (approval_id : String) (scope : Scope) : Except PyError (Option ApprovalRecord) := do
  bind e (scope_params approval_id scope)
  fetchone codec t (in_scope approval_id scope)

/-- `ORDER BY requested_at DESC`. -/
def later (s t : Tuple) : Prop :=
  match s .requested_at, t .requested_at with
  | .time x, .time y => y < x
  | _, _ => False

instance : DecidableRel later := fun s t => by
  unfold later
  split <;> infer_instance

def list (scope : Scope) (status : Option ApprovalStatus) : Except PyError (List ApprovalRecord) := do
  bind e ([.text scope.workspace_id, .text scope.tenant_id] ++ status.toList.map fun s => .text s.value)
  let found := t.rows.filter fun tuple => tuple .workspace_id = .text scope.workspace_id &&
    tuple .tenant_id = .text scope.tenant_id && status.all fun s => tuple .status = .text s.value
  (found.insertionSort later).mapM fun tuple => _from_row codec (select tuple)

def find_idempotent (scope : Scope) (user_id idempotency_key : String) :
    Except PyError (Option ApprovalRecord) := do
  bind e [.text scope.workspace_id, .text scope.tenant_id, .text user_id, .text idempotency_key]
  fetchone codec t fun tuple => tuple .workspace_id = .text scope.workspace_id &&
    tuple .tenant_id = .text scope.tenant_id && tuple .requester_user_id = .text user_id &&
    tuple .idempotency_key = .text idempotency_key

/-- The condition of the UPDATE. -/
def undecided (approval_id : String) (scope : Scope) (tuple : Tuple) : Bool :=
  in_scope approval_id scope tuple && tuple .status = .text ApprovalStatus.pending.value

theorem clash_undecided (approval_id : String) (scope : Scope) (status : ApprovalStatus)
    (approver_user_id : Option String) (decided_at : Instant) (token_hash : Option String) (s t : Tuple) :
    Clash (if undecided approval_id scope s then set status approver_user_id decided_at token_hash s else s)
      (if undecided approval_id scope t then set status approver_user_id decided_at token_hash t else t) →
      Clash s t :=
  clash_set s t

def decide (approval_id : String) (scope : Scope) (status : ApprovalStatus) (approver_user_id : Option String)
    (decided_at : Instant) (token_hash : Option String) :
    Except PyError (Option ApprovalRecord) × ApprovalRequests :=
  match bind e ([.text status.value, .ofOption approver_user_id, .time decided_at, .ofOption token_hash] ++
      scope_params approval_id scope ++ [.text ApprovalStatus.pending.value]) with
  | .error error => (.error error, t)
  | .ok _ =>
    let u := t.update (fun tuple => if undecided approval_id scope tuple then
      set status approver_user_id decided_at token_hash tuple else tuple)
      (clash_undecided approval_id scope status approver_user_id decided_at token_hash)
    if t.rows.countP (undecided approval_id scope) = 1 then (get e codec u approval_id scope, u) else (.ok none, u)

/-- Asked for after `get` with the same parameters. -/
def token_hash (approval_id : String) (scope : Scope) : Option String :=
  match t.rows.find? (in_scope approval_id scope) with
  | none => none
  | some tuple => match tuple .token_hash with
    | .text value => truthy (some value)
    | _ => none

end ApprovalRequests

end Sql

/-- What does not come from a store: a clock reading, a UUID, a token. -/
structure Supply where
  now : Instant
  uuid : Hex 32
  token : Token

/-- A command over an `Approvals` store. -/
def Approvals.serve {b : Backend} (W : World) (t : Approvals b) : (c : Cmd) → Supply → Reply c × Approvals b
  | .now, ch => (ch.now, t)
  | .uuid4, ch => (ch.uuid, t)
  | .token_urlsafe, ch => (ch.token, t)
  | .create record, _ => t.create W.codec record
  | .get approval_id scope, _ => (t.get W.codec approval_id scope, t)
  | .list scope status, _ => (t.list W.codec scope status, t)
  | .find_idempotent scope user_id idempotency_key, _ =>
    (t.find_idempotent W.codec scope user_id idempotency_key, t)
  | .decide approval_id scope status approver decided_at hash, _ =>
    t.decide W.codec approval_id scope status approver decided_at hash
  | .token_hash approval_id scope, _ => (t.token_hash approval_id scope, t)

/-- A command over the table. -/
def Sql.ApprovalRequests.serve (e : Sql.Engine) (W : World) (t : Sql.ApprovalRequests) :
    (c : Cmd) → Supply → Reply c × Sql.ApprovalRequests
  | .now, ch => (ch.now, t)
  | .uuid4, ch => (ch.uuid, t)
  | .token_urlsafe, ch => (ch.token, t)
  | .create record, _ => create e W.codec t record
  | .get approval_id scope, _ => (get e W.codec t approval_id scope, t)
  | .list scope status, _ => (list e W.codec t scope status, t)
  | .find_idempotent scope user_id idempotency_key, _ =>
    (find_idempotent e W.codec t scope user_id idempotency_key, t)
  | .decide approval_id scope status approver decided_at hash, _ =>
    decide e W.codec t approval_id scope status approver decided_at hash
  | .token_hash approval_id scope, _ => (t.token_hash approval_id scope, t)

end EnterpriseCopilot.Approval
