import EnterpriseCopilot.Approval.Columns
import EnterpriseCopilot.Audit.Log
import EnterpriseCopilot.Lib.Connections
import EnterpriseCopilot.Lib.Machine
import EnterpriseCopilot.Runs.Store

/-! Runs, approvals and audit events in one SQLite file, each over a connection of its own. -/

namespace EnterpriseCopilot.Storage

open EnterpriseCopilot.Lib EnterpriseCopilot.Python EnterpriseCopilot.Runtime
open EnterpriseCopilot.Approval (ApprovalRecord ApprovalStatus Instant Scope)

inductive Connection
  | audit | runs | approvals
  deriving DecidableEq

structure Tables where
  agent_runs : Runs.AgentRuns
  approval_requests : Approval.Sql.ApprovalRequests
  run_events : List Audit.EventRow

abbrev SharedFile := File Tables Connection

/-- The statements that write. -/
inductive Statement
  | insert_run (row : Runs.Row)
  | insert_approval (tuple : Approval.Sql.Tuple)
  | update_approval (approval_id : String) (scope : Scope) (status : ApprovalStatus)
      (approver_user_id : Option String) (decided_at : Instant) (token_hash : Option String)
  | insert_event (row : Audit.EventRow)

def integrityError : PyError := .exception "IntegrityError"

/-- JSON of arguments and of payloads; `json.dumps` raises no error of the database. -/
structure World where
  arguments : Approval.Codec
  payloads : Audit.Codec
  dumps_error : ∀ value e, arguments.dumps value = .error e → e ≠ integrityError

/-- Database is locked. -/
def operationalError : PyError := .exception "OperationalError"

/-- What a statement does, and its row count. -/
def Statement.run (t : Tables) : Statement → Except PyError (Nat × Tables)
  | .insert_run row =>
    match t.agent_runs.insert? row with
    | some agent_runs => .ok (1, { t with agent_runs })
    | none => .error integrityError
  | .insert_approval tuple =>
    match t.approval_requests.insert? tuple with
    | some approval_requests => .ok (1, { t with approval_requests })
    | none => .error integrityError
  | .update_approval approval_id scope status approver_user_id decided_at token_hash =>
    let approval_requests := t.approval_requests.update (fun tuple =>
      if Approval.Sql.ApprovalRequests.undecided approval_id scope tuple then
        Approval.Sql.set status approver_user_id decided_at token_hash tuple else tuple)
      (Approval.Sql.ApprovalRequests.clash_undecided approval_id scope status approver_user_id decided_at
        token_hash)
    .ok (t.approval_requests.rows.countP (Approval.Sql.ApprovalRequests.undecided approval_id scope),
      { t with approval_requests })
  | .insert_event row => .ok (1, { t with run_events := t.run_events ++ [row] })

inductive Cmd
  | execute (statement : Statement)
  | commit
  | fetch (approval_id : String) (scope : Scope)

abbrev Reply : Cmd → Type
  | .execute _ => Except PyError Nat
  | .commit => Unit
  | .fetch _ _ => Except PyError (Option ApprovalRecord)

abbrev Code := Program Cmd Reply PyError

namespace Code

def execute (statement : Statement) : Code Nat := .cmd (.execute statement) Program.ofExcept
def commit : Code Unit := .cmd .commit .pure
def fetch (approval_id : String) (scope : Scope) : Code (Option ApprovalRecord) :=
  .cmd (.fetch approval_id scope) Program.ofExcept

end Code

/-- A command over a connection. -/
def serve (W : World) (c : Connection) (f : SharedFile) : (cmd : Cmd) → Unit → Reply cmd × SharedFile
  | .execute statement, _ => f.execute operationalError c statement.run
  | .commit, _ => ((), f.commit c)
  | .fetch approval_id scope, _ =>
    (Approval.Sql.ApprovalRequests.get .sqlite W.arguments (f.view c).approval_requests approval_id scope, f)

def SQLiteRunStore.save (run : Runs.StoredRun) (created_at : String) : Code Runs.StoredRun := do
  let _ ← Code.execute (.insert_run ⟨run, created_at⟩)
  Code.commit
  return run

def SQLiteApprovalStore.create (W : World) (record : ApprovalRecord) : Code Unit :=
  Program.tryCatch (do
    let arguments_json ← Program.ofExcept (W.arguments.dumps record.arguments)
    let _ ← Code.execute (.insert_approval (Approval.Sql.insert Approval.Sql.insert_columns
      (Approval.Sql.insert_values record arguments_json)))
    Code.commit)
    fun e => if e = integrityError then throw (.approvalError Approval.Backend.sqlite.duplicate) else throw e

def SQLiteApprovalStore.decide (approval_id : String) (scope : Scope) (status : ApprovalStatus)
    (approver_user_id : Option String) (decided_at : Instant) (token_hash : Option String) :
    Code (Option ApprovalRecord) := do
  let rowcount ← Code.execute (.update_approval approval_id scope status approver_user_id decided_at token_hash)
  Code.commit
  if rowcount = 1 then Code.fetch approval_id scope else return none

def SqliteAuditStore.append (W : World) (event : AuditEvent) : Code Unit := do
  let _ ← Code.execute (.insert_event (.ofEvent W.payloads event))
  Code.commit

inductive Call
  | save (run : Runs.StoredRun) (created_at : String)
  | create (record : ApprovalRecord)
  | decide (approval_id : String) (scope : Scope) (status : ApprovalStatus) (approver_user_id : Option String)
      (decided_at : Instant) (token_hash : Option String)
  | append (event : AuditEvent)

inductive Answer
  | saved (run : Runs.StoredRun)
  | created
  | decided (record : Option ApprovalRecord)
  | appended

def Call.connection : Call → Connection
  | .save _ _ => .runs
  | .create _ | .decide .. => .approvals
  | .append _ => .audit

def program (W : World) : Call → Code Answer
  | .save run created_at => do return .saved (← SQLiteRunStore.save run created_at)
  | .create record => do
    SQLiteApprovalStore.create W record
    return .created
  | .decide approval_id scope status approver_user_id decided_at token_hash => do
    return .decided (← SQLiteApprovalStore.decide approval_id scope status approver_user_id decided_at token_hash)
  | .append event => do
    SqliteAuditStore.append W event
    return .appended

/-- A call, what it returned or raised, and the file before and after it. -/
structure Event where
  before : SharedFile
  call : Call
  result : Except PyError Answer
  after : SharedFile

/-- The calls of all stores, one after the other. -/
def machine (W : World) : Machine SharedFile Call Event where
  step f call :=
    let o := Program.run (serve W call.connection) (program W call) (fun _ => ()) f
    some (o.state, ⟨f, call, o.result, o.state⟩)

/-- The statement of the call violates a constraint of its table. -/
def Call.Violates (W : World) (t : Tables) : Call → Prop
  | .save run created_at => t.agent_runs.Conflicts ⟨run, created_at⟩
  | .create record => ∃ arguments_json, W.arguments.dumps record.arguments = .ok arguments_json ∧
      t.approval_requests.Conflicts (Approval.Sql.insert Approval.Sql.insert_columns
        (Approval.Sql.insert_values record arguments_json))
  | _ => False

/-- No write transaction is open, so every connection can take the lock. -/
structure Unlocked (f : SharedFile) : Prop where
  free : f.writer = none
  takes : ∀ c statement, (f.execute operationalError c (Statement.run · statement)).1 ≠ .error operationalError

/-- What the operation of the store does to its table. -/
def Call.stores (W : World) (t : Tables) : Call → Except PyError Answer × Tables
  | .save run created_at =>
    let o := Runs.SQLiteRunStore.save t.agent_runs run created_at
    (o.1.map .saved, { t with agent_runs := o.2 })
  | .create record =>
    let o := Approval.Sql.ApprovalRequests.create .sqlite W.arguments t.approval_requests record
    (o.1.map fun _ => .created, { t with approval_requests := o.2 })
  | .decide approval_id scope status approver_user_id decided_at token_hash =>
    let o := Approval.Sql.ApprovalRequests.decide .sqlite W.arguments t.approval_requests approval_id scope status
      approver_user_id decided_at token_hash
    (o.1.map .decided, { t with approval_requests := o.2 })
  | .append event => (.ok .appended, { t with run_events := t.run_events ++ [.ofEvent W.payloads event] })

section Calls

variable {W : World} {f : SharedFile} {call : Call}

theorem statement_error {t : Tables} {statement : Statement} {e : PyError} (h : statement.run t = .error e) :
    e = integrityError := by
  cases statement with
  | insert_run row =>
    simp only [Statement.run] at h
    split at h <;> cases h
    rfl
  | insert_approval tuple =>
    simp only [Statement.run] at h
    split at h <;> cases h
    rfl
  | update_approval => cases h
  | insert_event row => cases h

theorem unlocked_of_free (h : f.writer = none) : Unlocked f where
  free := h
  takes := by
    intro c statement
    rw [File.execute_of_free h]
    cases hs : statement.run f.committed with
    | ok x => simp
    | error e =>
      obtain rfl := statement_error hs
      simp [integrityError, operationalError]

theorem bind_sqlite (params : List Approval.Sql.Cell) : Approval.Sql.bind .sqlite params = .ok () := rfl

theorem run_fetch {c : Connection} {t : Tables} {approval_id : String} {scope : Scope} {ω : Nat → Unit} :
    (Program.run (serve W c) ((Code.fetch approval_id scope).bind fun record => .pure (Answer.decided record)) ω
        ⟨t, none⟩).result = (Approval.Sql.ApprovalRequests.get .sqlite W.arguments t.approval_requests approval_id
          scope).map .decided ∧
      (Program.run (serve W c) ((Code.fetch approval_id scope).bind fun record => .pure (Answer.decided record)) ω
        ⟨t, none⟩).state = ⟨t, none⟩ := by
  simp only [Code.fetch, Program.cmd_bind, Program.run_issue, serve, File.view]
  cases Approval.Sql.ApprovalRequests.get .sqlite W.arguments t.approval_requests approval_id scope <;>
    exact ⟨rfl, rfl⟩

/-- A call that finds no open transaction does what its store does; it leaves one open if it violates
a constraint. -/
theorem run_of_free (h : f.writer = none) :
    (Program.run (serve W call.connection) (program W call) (fun _ => ()) f).result = (call.stores W f.committed).1 ∧
      (Program.run (serve W call.connection) (program W call) (fun _ => ()) f).state.committed =
        (call.stores W f.committed).2 ∧
      ((Program.run (serve W call.connection) (program W call) (fun _ => ()) f).state.writer = none ↔
        ¬ call.Violates W f.committed) := by
  cases call with
  | save run created_at =>
    simp only [program, SQLiteRunStore.save, Code.execute, Code.commit, Call.connection, Call.stores, Call.Violates,
      Runs.SQLiteRunStore.save, Program.bind_eq, Program.cmd_bind, Program.run_issue, serve, File.execute_of_free h]
    cases hins : f.committed.agent_runs.insert? ⟨run, created_at⟩ with
    | none =>
      have hviolates := Table.insert?_eq_none.mp hins
      simp [Statement.run, hins, hviolates, integrityError, Except.map]
    | some u =>
      have hclear := (Table.insert?_eq_some.mp hins).1
      simp [Statement.run, hins, hclear, Except.map, Program.run_issue, serve, File.commit_draft]
  | create record =>
    simp only [program, SQLiteApprovalStore.create, Code.execute, Code.commit, Call.connection, Call.stores, Call.Violates,
      Approval.Sql.ApprovalRequests.create, bind_sqlite]
    cases hdumps : W.arguments.dumps record.arguments with
    | error e =>
      have hne := W.dumps_error record.arguments e hdumps
      simp [hne, h, Except.map, Approval.Sql.ApprovalRequests.report]
    | ok text =>
      simp only [Program.bind_eq, Program.ofExcept_ok, Program.pure_bind, Program.cmd_bind, Program.cmd_tryCatch,
        Program.run_issue, serve, File.execute_of_free h]
      cases hins : f.committed.approval_requests.insert? (Approval.Sql.insert Approval.Sql.insert_columns
        (Approval.Sql.insert_values record text)) with
      | none =>
        have hviolates := Table.insert?_eq_none.mp hins
        simp [Statement.run, hins, hviolates, Except.map, Approval.Sql.Engine.backend]
      | some u =>
        have hclear := (Table.insert?_eq_some.mp hins).1
        simp [Statement.run, hins, hclear, Except.map, Program.run_issue, serve, File.commit_draft]
  | decide approval_id scope status approver_user_id decided_at token_hash =>
    simp only [program, SQLiteApprovalStore.decide, Code.execute, Code.commit, Call.connection, Call.stores, Call.Violates,
      Approval.Sql.ApprovalRequests.decide, Program.bind_eq, Program.cmd_bind, Program.run_issue, serve, File.execute_of_free h,
      bind_sqlite]
    by_cases hcount : f.committed.approval_requests.rows.countP
      (Approval.Sql.ApprovalRequests.undecided approval_id scope) = 1
    · simp [Statement.run, Program.run_issue, serve, File.commit_draft, hcount, run_fetch]
    · simp [Statement.run, Program.run_issue, serve, File.commit_draft, hcount, Except.map]
  | append event =>
    simp only [program, SqliteAuditStore.append, Code.execute, Code.commit, Call.connection, Call.stores, Call.Violates,
      Program.bind_eq, Program.cmd_bind, Program.run_issue, serve, File.execute_of_free h]
    simp [Statement.run, Program.run_issue, serve, File.commit_draft]

variable {es : List Event} {g : SharedFile}

theorem step_cases {e : Event} (hs : (machine W).step f call = some (g, e)) (h : f.writer = none) :
    e.before = f ∧ e.call = call ∧ e.after = g ∧ e.result = (call.stores W f.committed).1 ∧
      g.committed = (call.stores W f.committed).2 ∧ (Unlocked g ↔ ¬ call.Violates W f.committed) := by
  cases hs
  obtain ⟨hresult, hcommitted, hwriter⟩ := run_of_free (W := W) h
  exact ⟨rfl, rfl, rfl, hresult, hcommitted, ⟨fun hu => hwriter.mp hu.free, fun hv => unlocked_of_free (hwriter.mpr hv)⟩⟩

/-- A run in which every call has left the file unlocked ends with a free file. -/
theorem free_of_unlocked (hfree : f.writer = none) (h : (machine W).Run Machine.Free f es g) :
    (∀ e ∈ es, Unlocked e.after) → g.writer = none := by
  refine h.invariant (I := fun es g => (∀ e ∈ es, Unlocked e.after) → g.writer = none) (fun _ => hfree) ?_
  intro es g call u e _ _ hs ih hall
  have hbefore := ih fun x hx => hall x (List.mem_append_left _ hx)
  obtain ⟨_, _, hafter, _⟩ := step_cases hs hbefore
  exact hafter ▸ (hall e (by simp)).free

/-- The file is unlocked after every call exactly if no call violates a constraint. -/
theorem unlocked_iff (hfree : f.writer = none) (h : (machine W).Run Machine.Free f es g) :
    (∀ e ∈ es, Unlocked e.after) ↔ ∀ e ∈ es, ¬ e.call.Violates W e.before.committed := by
  refine h.invariant (I := fun es _ => (∀ e ∈ es, Unlocked e.after) ↔ ∀ e ∈ es, ¬ e.call.Violates W e.before.committed)
    (by simp) ?_
  intro es g call u e hr _ hs ih
  simp only [List.forall_mem_append, List.forall_mem_singleton]
  constructor
  · rintro ⟨hall, hlast⟩
    obtain ⟨rfl, rfl, rfl, _, _, hiff⟩ := step_cases hs (free_of_unlocked hfree hr hall)
    exact ⟨ih.mp hall, hiff.mp hlast⟩
  · rintro ⟨hnone, hlast⟩
    have hall := ih.mpr hnone
    obtain ⟨rfl, rfl, rfl, _, _, hiff⟩ := step_cases hs (free_of_unlocked hfree hr hall)
    exact ⟨hall, hiff.mpr hlast⟩

/-- Until a constraint is violated, the calls do to the tables what their stores do. -/
theorem stores_of_unlocked (hfree : f.writer = none) (h : (machine W).Run Machine.Free f es g)
    (hall : ∀ e ∈ es, Unlocked e.after) :
    ∀ e ∈ es, (e.result, e.after.committed) = e.call.stores W e.before.committed := by
  intro e he
  obtain ⟨pre, post, rfl⟩ := List.append_of_mem he
  obtain ⟨u, a, v, hpre, _, hs, _⟩ := h.at_event rfl
  have hu := free_of_unlocked hfree hpre fun x hx => hall x (List.mem_append_left _ hx)
  obtain ⟨rfl, rfl, rfl, hresult, hcommitted, _⟩ := step_cases hs hu
  rw [hresult, hcommitted]

end Calls

section Sample

def sampleWorld : World where
  arguments := ⟨fun _ => .error (.typeError "Object is not JSON serializable"),
    fun _ => .error (.valueError "Expecting value")⟩
  payloads := ⟨fun _ => "\x7b\x7d", fun _ => .ok (.obj [])⟩
  dumps_error := by
    intro _ _ h
    cases h
    decide

def sampleFile : SharedFile := ⟨⟨Runs.sampleRuns, .empty, []⟩, none⟩

def sampleEvent : AuditEvent := ⟨"run.started", "req-2", "trace-2", "run-2", "workspace-a", "customer-service-agent", [],
  "2026-07-01T02:00:01+00:00"⟩

theorem unlocked_sample : ∃ es g, (machine sampleWorld).Run Machine.Free sampleFile es g ∧ es.length = 2 ∧
    ((∀ e ∈ es, Unlocked e.after) ↔ ∀ e ∈ es, ¬ e.call.Violates sampleWorld e.before.committed) := by
  obtain ⟨es, g, hrun, hlength⟩ : ∃ es g, (machine sampleWorld).exec Machine.Free sampleFile
      [.save (Runs.sampleRun "run-2" (some "retry-2")) "2026-07-01 02:00:01", .append sampleEvent] = some (g, es) ∧
        es.length = 2 := ⟨_, _, rfl, rfl⟩
  exact ⟨es, g, Machine.run_of_exec _ hrun, hlength, unlocked_iff rfl (Machine.run_of_exec _ hrun)⟩

/-- A second run with the idempotency key is refused, and then no audit event can be written. -/
theorem file_locked : ¬ ∀ (W : World) (f g : SharedFile) (es : List Event), f.writer = none →
    (machine W).Run Machine.Free f es g → ∀ e ∈ es, Unlocked e.after := by
  intro h
  obtain ⟨g, refused, raised, hrun, hcall, hraised⟩ : ∃ g refused raised, (machine sampleWorld).exec Machine.Free sampleFile
      [.save (Runs.sampleRun "run-2" (some "retry-1")) "2026-07-01 02:00:01", .append sampleEvent] =
        some (g, [refused, raised]) ∧ raised.call = .append sampleEvent ∧ raised.result = .error operationalError :=
    ⟨_, _, _, rfl, rfl, rfl⟩
  have hall := h sampleWorld sampleFile g _ rfl (Machine.run_of_exec _ hrun)
  have hstores := stores_of_unlocked rfl (Machine.run_of_exec _ hrun) hall raised (by simp)
  rw [hcall, hraised] at hstores
  cases congrArg Prod.fst hstores

end Sample

end EnterpriseCopilot.Storage
