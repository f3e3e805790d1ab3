import Mathlib.Data.List.Sort
import EnterpriseCopilot.Lib.Table
import EnterpriseCopilot.Runtime.Models

/-! Approval records and their stores: two dictionaries, or one of two tables. -/

namespace EnterpriseCopilot.Approval

open EnterpriseCopilot.Lib EnterpriseCopilot.Python EnterpriseCopilot.Runtime

/-- `json.dumps(…, sort_keys=True, separators=(",", ":"), ensure_ascii=False)` and `json.loads`. -/
structure Codec where
  dumps : Json → Except PyError String
  loads : String → Except PyError Json

inductive ApprovalStatus
  | pending | approved | rejected | expired
  deriving DecidableEq, Repr

/-- Timestamps are kept as the instants that their ISO texts denote, in microseconds from
0001-01-01T00:00 UTC. -/
abbrev Instant := Nat

structure ApprovalRecord where
  id : String
  requester : IdentityContext
  tool_name : String
  arguments : Json
  arguments_hash : String
  risk : ToolRisk
  idempotency_key : Option String
  requested_at : Instant
  expires_at : Instant
  status : ApprovalStatus
  approver_user_id : Option String := none
  decided_at : Option Instant := none

structure Scope where
  workspace_id : String
  tenant_id : String
  deriving DecidableEq, Repr

def Scope.of (i : IdentityContext) : Scope := ⟨i.workspace_id, i.tenant_id⟩

/-- A dictionary keeps the arguments themselves, a table their JSON text. -/
inductive Stored
  | value (arguments : Json)
  | text (arguments_json : String)

/-- What `create` writes. -/
structure Request where
  id : String
  requester : IdentityContext
  tool_name : String
  arguments : Stored
  arguments_hash : String
  risk : ToolRisk
  idempotency_key : Option String
  requested_at : Instant
  expires_at : Instant

def Request.scope (r : Request) : Scope := .of r.requester

/-- A request with what `decide` writes. -/
structure Row where
  request : Request
  status : ApprovalStatus
  approver_user_id : Option String
  decided_at : Option Instant
  token_hash : Option String

inductive Backend
  | memory | sqlite | postgres
  deriving DecidableEq

/-- `UNIQUE(workspace_id, tenant_id, requester_user_id, idempotency_key)`: NULL keys are
distinct. -/
def Request.SameKey (r s : Request) : Prop :=
  r.scope = s.scope ∧ r.requester.user_id = s.requester.user_id ∧
    r.idempotency_key = s.idempotency_key ∧ r.idempotency_key ≠ none

instance : DecidableRel Request.SameKey := fun r s =>
  inferInstanceAs (Decidable (r.scope = s.scope ∧ _ ∧ _ ∧ _))

/-- The memory store checks the id only. -/
def Clash (b : Backend) (r s : Row) : Prop :=
  r.request.id = s.request.id ∨ (b ≠ .memory ∧ r.request.SameKey s.request)

instance (b : Backend) : DecidableRel (Clash b) := fun r s =>
  inferInstanceAs (Decidable (r.request.id = s.request.id ∨ _ ∧ _))

theorem Clash.symm {b : Backend} {r s : Row} (h : Clash b r s) : Clash b s r :=
  h.imp Eq.symm fun ⟨hb, hscope, huser, hkey, hne⟩ =>
    ⟨hb, hscope.symm, huser.symm, hkey.symm, hkey ▸ hne⟩

abbrev Approvals (b : Backend) := Table Row (Clash b)

def _from_row (codec : Codec) (row : Row) : Except PyError ApprovalRecord := do
  let arguments ← match row.request.arguments with
    | .value arguments => .ok arguments
    | .text arguments_json => codec.loads arguments_json
  return {
    id := row.request.id
    requester := row.request.requester
    tool_name := row.request.tool_name
    arguments := arguments
    arguments_hash := row.request.arguments_hash
    risk := row.request.risk
    idempotency_key := row.request.idempotency_key
    requested_at := row.request.requested_at
    expires_at := row.request.expires_at
    status := row.status
    approver_user_id := row.approver_user_id
    decided_at := row.decided_at }

/-- The columns of a new record. -/
def ApprovalRecord.row (record : ApprovalRecord) (arguments : Stored) : Row where
  request := {
    id := record.id
    requester := record.requester
    tool_name := record.tool_name
    arguments := arguments
    arguments_hash := record.arguments_hash
    risk := record.risk
    idempotency_key := record.idempotency_key
    requested_at := record.requested_at
    expires_at := record.expires_at }
  status := record.status
  approver_user_id := none
  decided_at := none
  token_hash := none

/-- What `decide` makes of a row.  The memory store keeps only a hash that is not empty. -/
def Row.decided (b : Backend) (row : Row) (status : ApprovalStatus)
    (approver_user_id : Option String) (decided_at : Instant) (token_hash : Option String) : Row where
  request := row.request
  status := status
  approver_user_id := approver_user_id
  decided_at := some decided_at
  token_hash := match b with
    | .memory => (truthy token_hash).or row.token_hash
    | _ => token_hash

/-- The text of the error for a clash. -/
def Backend.duplicate : Backend → String
  | .memory => "approval id already exists"
  | _ => "approval id or idempotency key already exists"

/-- The arguments as `create` stores them.  PostgreSQL reports every failure as a clash. -/
def Backend.encode (codec : Codec) (arguments : Json) : Backend → Except PyError Stored
  | .memory => .ok (.value arguments)
  | .sqlite => (codec.dumps arguments).map .text
  | .postgres => ((codec.dumps arguments).map .text).mapError fun _ =>
      .approvalError Backend.postgres.duplicate

/-- A text with a NUL cannot be a parameter of a statement for PostgreSQL. -/
def Backend.bind (b : Backend) (params : List String) : Except PyError Unit :=
  if b = .postgres && params.any hasNul then .error (.exception "DataError") else .ok ()

@[simp] theorem bind_memory (params : List String) : Backend.memory.bind params = .ok () := rfl

theorem bind_eq_ok {b : Backend} {params : List String} :
    b.bind params = .ok () ↔ (b = .postgres → ∀ text ∈ params, hasNul text = false) := by
  unfold Backend.bind
  split
  · rename_i h
    simp only [Bool.and_eq_true, decide_eq_true_eq, List.any_eq_true] at h
    obtain ⟨hb, text, hmem, hnul⟩ := h
    simp only [reduceCtorEq, false_iff]
    exact fun hall => absurd (hall hb text hmem) (by simp [hnul])
  · rename_i h
    simpa using h

theorem hex_plain {n : Nat} (h : Hex n) : hasNul h.text = false := by
  have hnot : '\x00' ∉ h.chars := fun hmem => absurd (h.digits _ hmem) (by decide)
  rw [hasNul, Hex.text, String.toList_ofList]
  simpa using hnot

def Stored.params : Stored → List String
  | .value _ => []
  | .text arguments_json => [arguments_json]

/-- The texts of the INSERT. -/
def ApprovalRecord.params (record : ApprovalRecord) (arguments : Stored) : List String :=
  [record.id, record.requester.workspace_id, record.requester.tenant_id, record.requester.user_id,
    record.requester.role, record.tool_name] ++ arguments.params ++
    [record.arguments_hash, record.risk.value] ++ record.idempotency_key.toList

namespace Approvals

variable {b : Backend} (codec : Codec) (t : Approvals b)

def row? (approval_id : String) (scope : Scope) : Option Row :=
  t.rows.find? fun r => r.request.id = approval_id && r.request.scope = scope

def create (record : ApprovalRecord) : Except PyError Unit × Approvals b :=
  match b.encode codec record.arguments with
  | .error e => (.error e, t)
  | .ok arguments =>
    match b.bind (record.params arguments) with
    | .error _ => (.error (.approvalError b.duplicate), t)
    | .ok _ =>
      match t.insert? (record.row arguments) with
      | some u => (.ok (), u)
      | none => (.error (.approvalError b.duplicate), t)

def get (approval_id : String) (scope : Scope) : Except PyError (Option ApprovalRecord) :=
  match t.row? approval_id scope with
  | none => .ok none
  | some row => (_from_row codec row).map some

/-- `ORDER BY requested_at DESC` in the tables. -/
def list (scope : Scope) (status : Option ApprovalStatus) : Except PyError (List ApprovalRecord) :=
  let found := t.rows.filter fun r =>
    r.request.scope = scope && (status.isNone || status = some r.status)
  let ordered := match b with
    | .memory => found
    | _ => found.insertionSort fun r s => s.request.requested_at < r.request.requested_at
  ordered.mapM (_from_row codec)

def find_idempotent (scope : Scope) (user_id idempotency_key : String) :
    Except PyError (Option ApprovalRecord) :=
  match b.bind [scope.workspace_id, scope.tenant_id, user_id, idempotency_key] with
  | .error e => .error e
  | .ok _ =>
    match t.rows.find? fun r => r.request.scope = scope && r.request.requester.user_id = user_id &&
        r.request.idempotency_key = some idempotency_key with
    | none => .ok none
    | some row => (_from_row codec row).map some

/-- One conditional update, and the row as it is read back. -/
def decide (approval_id : String) (scope : Scope) (status : ApprovalStatus)
    (approver_user_id : Option String) (decided_at : Instant) (token_hash : Option String) :
    Except PyError (Option ApprovalRecord) × Approvals b :=
  match t.rows.find? fun r => r.request.id = approval_id && r.request.scope = scope &&
      r.status = .pending with
  | none => (.ok none, t)
  | some row =>
    ((_from_row codec (row.decided b status approver_user_id decided_at token_hash)).map some,
      t.update (fun r =>
          if r.request.id = approval_id && r.request.scope = scope && r.status = .pending then
            r.decided b status approver_user_id decided_at token_hash
          else r)
        fun r s h => by
          have same : ∀ r : Row, (if r.request.id = approval_id && r.request.scope = scope &&
              r.status = .pending then r.decided b status approver_user_id decided_at token_hash
              else r).request = r.request := by
            intro r
            split <;> rfl
          unfold Clash at h ⊢
          rwa [same r, same s] at h)

def token_hash (approval_id : String) (scope : Scope) : Option String :=
  match t.row? approval_id scope with
  | none => none
  | some row => match b with
    | .memory => row.token_hash
    | _ => truthy row.token_hash

section Lemmas

variable {codec} {t} {u : Approvals b} {approval_id : String} {scope : Scope} {row : Row}

theorem eq_of_id {r : Row} (hrow : row ∈ t.rows) (hr : r ∈ t.rows)
    (h : row.request.id = r.request.id) : row = r :=
  Table.eq_of_clash (fun _ _ => Clash.symm) hrow hr (.inl h)

theorem row?_eq_some : t.row? approval_id scope = some row ↔
    row ∈ t.rows ∧ row.request.id = approval_id ∧ row.request.scope = scope := by
  constructor
  · intro h
    have hp := List.find?_some h
    simp only [Bool.and_eq_true, decide_eq_true_eq] at hp
    exact ⟨List.mem_of_find?_eq_some h, hp.1, hp.2⟩
  · rintro ⟨hrow, rfl, rfl⟩
    have hsome : (t.row? row.request.id row.request.scope).isSome = true :=
      List.find?_isSome.mpr ⟨row, hrow, by simp⟩
    obtain ⟨r, hr⟩ := Option.isSome_iff_exists.mp hsome
    have hp := List.find?_some hr
    simp only [Bool.and_eq_true, decide_eq_true_eq] at hp
    rw [hr, eq_of_id (List.mem_of_find?_eq_some hr) hrow hp.1]

/-- A record is read from a row of the table. -/
theorem row_of_get {record : ApprovalRecord} (h : t.get codec approval_id scope = .ok (some record)) :
    ∃ row ∈ t.rows, row.request.id = approval_id ∧ row.request.scope = scope ∧
      _from_row codec row = .ok record := by
  unfold get at h
  split at h
  · cases h
  · rename_i row hrow
    obtain ⟨hmem, hid, hscope⟩ := row?_eq_some.mp hrow
    refine ⟨row, hmem, hid, hscope, ?_⟩
    cases hfrom : _from_row codec row with
    | error e =>
      rw [hfrom] at h
      cases h
    | ok r =>
      rw [hfrom] at h
      cases h
      rfl

theorem create_cases {record : ApprovalRecord} {r : Except PyError Unit}
    (h : t.create codec record = (r, u)) :
    (u = t ∧ ∃ e, r = .error e) ∨
      ∃ arguments, r = .ok () ∧ b.encode codec record.arguments = .ok arguments ∧
        u.rows = t.rows ++ [record.row arguments] := by
  unfold create at h
  split at h
  · cases h
    exact .inl ⟨rfl, _, rfl⟩
  · rename_i arguments henc
    split at h
    · cases h
      exact .inl ⟨rfl, _, rfl⟩
    split at h
    · rename_i hins
      cases h
      exact .inr ⟨arguments, rfl, henc, (Table.insert?_eq_some.mp hins).2⟩
    · cases h
      exact .inl ⟨rfl, _, rfl⟩

/-- A decision changes the row with the id, if it is in the scope and pending. -/
theorem decide_cases {status : ApprovalStatus} {approver : Option String} {now : Instant}
    {hash : Option String} {r : Except PyError (Option ApprovalRecord)}
    (h : t.decide codec approval_id scope status approver now hash = (r, u)) :
    (u = t ∧ r = .ok none) ∨
      ∃ row ∈ t.rows, row.request.id = approval_id ∧ row.request.scope = scope ∧
        row.status = .pending ∧ r = (_from_row codec (row.decided b status approver now hash)).map some ∧
        ∀ x, x ∈ u.rows ↔ x = row.decided b status approver now hash ∨ (x ∈ t.rows ∧ x ≠ row) := by
  unfold decide at h
  split at h
  · cases h
    exact .inl ⟨rfl, rfl⟩
  · rename_i row hrow
    have hp := List.find?_some hrow
    have hmem := List.mem_of_find?_eq_some hrow
    simp only [Bool.and_eq_true, decide_eq_true_eq] at hp
    obtain ⟨⟨hid, hscope⟩, hstatus⟩ := hp
    cases h
    refine .inr ⟨row, hmem, hid, hscope, hstatus, rfl, fun x => ?_⟩
    simp only [Table.update, List.mem_map]
    constructor
    · rintro ⟨y, hy, rfl⟩
      by_cases heq : y = row
      · subst heq
        exact .inl (by simp [hid, hscope, hstatus])
      · have hne : y.request.id ≠ approval_id := fun h => heq (eq_of_id hy hmem (h.trans hid.symm))
        rw [if_neg (by simp [hne])]
        exact .inr ⟨hy, heq⟩
    · rintro (rfl | ⟨hx, hne⟩)
      · exact ⟨row, hmem, by simp [hid, hscope, hstatus]⟩
      · have hid' : x.request.id ≠ approval_id := fun h => hne (eq_of_id hx hmem (h.trans hid.symm))
        exact ⟨x, hx, by rw [if_neg (by simp [hid'])]⟩

theorem row_of_token_hash {hash : String} (h : t.token_hash approval_id scope = some hash) :
    ∃ row ∈ t.rows, row.request.id = approval_id ∧ row.request.scope = scope ∧
      row.token_hash = some hash := by
  unfold token_hash at h
  split at h
  · cases h
  · rename_i row hrow
    obtain ⟨hmem, hid, hscope⟩ := row?_eq_some.mp hrow
    refine ⟨row, hmem, hid, hscope, ?_⟩
    cases b with
    | memory => exact h
    | sqlite => exact truthy_some h
    | postgres => exact truthy_some h

end Lemmas

end Approvals

end EnterpriseCopilot.Approval
