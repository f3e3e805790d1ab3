import EnterpriseCopilot.Lib.Pool
import EnterpriseCopilot.Attachment.Shelf
import EnterpriseCopilot.Attachment.Backend

/-! Concurrent deletions over PostgreSQL: one deletion is a `SELECT`, a `DELETE` and a `COMMIT`. -/

namespace EnterpriseCopilot.Attachment

open EnterpriseCopilot.Lib EnterpriseCopilot.Python EnterpriseCopilot.Runtime

/-- Calls of the blob store, whole calls of the metadata store, and the statements of its `delete`. -/
inductive Statement
  | call (c : Cmd)
  | select (attachment_id : String) (scope : Scope)
  | delete (attachment_id : String) (scope : Scope)
  | commit (attachment_id : String) (scope : Scope)
  | utc_now
  | append (event : AuditEvent)

abbrev Statement.Reply : Statement → Type
  | .call c => Attachment.Reply c
  | .select _ _ => Option AttachmentRecord
  | .delete _ _ => Unit
  | .commit _ _ => Unit
  | .utc_now => String
  | .append _ => Unit

/-- The replicas share the database, the blobs and the audit log. -/
structure Shared (b : Backend) where
  service : State b
  events : List AuditEvent

/-- None of the statements fails. The other connections see a `DELETE` from its `COMMIT` on; the lock that it holds on
the row until then only makes another `DELETE` of this row wait, and a `SELECT` does not wait. -/
def Shared.apply {b : Backend} (W : World) (s : Shared b) (c : Statement) (utc_now : String) : c.Reply × Shared b :=
  match c with
  | .call c => ((s.service.apply W c {}).1, { s with service := (s.service.apply W c {}).2 })
  | .select attachment_id scope => (s.service.store.get attachment_id scope, s)
  | .delete _ _ => ((), s)
  | .commit attachment_id scope =>
    ((), { s with service := { s.service with
      store := Table.filter s.service.store fun r => !(r.id = attachment_id && r.scope = scope) } })
  | .utc_now => (utc_now, s)
  | .append event => ((), { s with events := s.events ++ [event] })

abbrev Routine := Program Statement Statement.Reply Failure

/-- `PostgresAttachmentStore.delete`: whether the statement deleted a row is not looked at. -/
def PostgresAttachmentStore.delete (attachment_id : String) (scope : Scope) : Routine (Option AttachmentRecord) :=
  .cmd (.select attachment_id scope) fun
    | none => .pure none
    | some record => .cmd (.delete attachment_id scope) fun _ => .cmd (.commit attachment_id scope) fun _ =>
      .pure (some record)

/-- A call of one of the stores, statement by statement. -/
def statements : (c : Cmd) → Routine (Reply c)
  | .store_delete attachment_id scope => .ok <$> PostgresAttachmentStore.delete attachment_id scope
  | c => .cmd (.call c) .pure

/-- `request_id or f"attachment-request-\x7buuid\x7d"`. -/
def request_id_or (request_id : Option String) : Routine String :=
  match truthy request_id with
  | some text => .pure text
  | none => .cmd (.call .uuid4) fun u => .pure ("attachment-request-" ++ u.text)

def _record_attachment_event (event_type : String) (identity : IdentityContext) (attachment_id : String)
    (payload : Payload) (request_id : Option String) : Routine Unit := do
  let trace ← Program.cmd (.call .uuid4) .pure
  let request_id ← request_id_or request_id
  let created_at ← Program.cmd .utc_now .pure
  Program.cmd (.append ⟨event_type, request_id, "attachment-trace-" ++ trace.text, "attachment-" ++ attachment_id,
    identity.workspace_id, "web-console",
    ("attachment_id", .str attachment_id) :: ("tenant_id", .str identity.tenant_id) :: payload, created_at⟩) .pure

/-- The endpoint, and the maintenance job. -/
inductive Removal
  | delete_attachment (identity : IdentityContext) (attachment_id : String) (request_id : Option String)
  | purge_expired (now : DateTime)

def Removal.program (S : AttachmentService) : Removal → Routine Answer
  | .delete_attachment identity attachment_id request_id => do
    let record ← (Steps.delete identity attachment_id).expand statements
    _record_attachment_event "attachment.deleted" identity record.id
      [("sha256", .str record.sha256), ("size_bytes", .num record.size_bytes)] request_id
    return .record record
  | .purge_expired now => do
    let deleted ← (Steps.purge_expired S now).expand statements
    return .records deleted

def removals (b : Backend) (S : AttachmentService) (W : World) :
    Pool (Shared b) Statement Statement.Reply String Empty Removal Failure Answer where
  program := Removal.program S
  apply s _ c utc_now := s.apply W c utc_now
  env _ move := move.elim

section Alone

/-- A service over PostgreSQL. -/
def AttachmentService.over (S : AttachmentService) (lt : String → String → Bool) : AttachmentService :=
  { S with backend := .postgres lt }

/-- Without other calls in between, the statements do what the call of the store does. -/
theorem exec_statements {W : World} {lt : String → String → Bool} (s : Shared (.postgres lt)) (c : Cmd) :
    ∃ log t, Program.Exec (Shared.apply W) (statements c) s log (.ok (s.service.apply W c {}).1) t ∧
      t.service = (s.service.apply W c {}).2 := by
  have single : ∀ c, ∃ log t, Program.Exec (Shared.apply W) (.cmd (.call c) .pure : Routine (Reply c)) s log
      (.ok (s.service.apply W c {}).1) t ∧ t.service = (s.service.apply W c {}).2 := fun c =>
    ⟨_, _, .cmd "" .pure, rfl⟩
  cases c with
  | store_delete id scope =>
    simp only [statements, PostgresAttachmentStore.delete, Program.map_eq, Program.cmd_bind, State.apply, Store.delete]
    cases hget : s.service.store.get id scope with
    | none =>
      refine ⟨_, s, Program.exec_issue.mpr ⟨"", [], rfl, ?_⟩, rfl⟩
      simp only [Shared.apply, hget, Program.pure_bind]
      exact .pure
    | some record =>
      refine ⟨_, { s with service := { s.service with
        store := Table.filter s.service.store fun r => !(r.id = id && r.scope = scope) } },
        Program.exec_issue.mpr ⟨"", [⟨.delete id scope, ()⟩, ⟨.commit id scope, ()⟩], rfl, ?_⟩, rfl⟩
      simp only [Shared.apply, hget, Program.cmd_bind, Program.pure_bind]
      exact .cmd "" (.cmd "" .pure)
  | _ => exact single _

/-- A call of the service that runs alone, statement by statement. -/
theorem exec_alone {S : AttachmentService} {W : World} {lt : String → String → Bool} (c : Call)
    (s : Shared (.postgres lt)) : ∃ log t, Program.Exec (Shared.apply W)
      ((c.program (S.over lt) W).expand statements) s log (perform (S.over lt) W c s.service).1 t ∧
        t.service = (perform (S.over lt) W c s.service).2 := by
  obtain ⟨log, t, h, ht⟩ := Program.exec_expand (π := Shared.service)
    (exec_statements (W := W)) (p := c.program (S.over lt) W) (s := s)
  have hquiet := quiet_program (S := S.over lt) (W := W) c s.service
  exact ⟨log, t, congrArg Prod.fst hquiet ▸ h, ht.trans (congrArg Prod.snd hquiet)⟩

end Alone

section Local

abbrev Record := Exchange Statement Statement.Reply

/-- The record that a `SELECT` of a deletion found. -/
def selected : (x : (c : Statement) × c.Reply) → Option AttachmentRecord
  | ⟨.select _ _, found⟩ => found
  | _ => none

/-- What a `SELECT` of a deletion asked for. -/
def asked : (x : (c : Statement) × c.Reply) → Option (String × Scope)
  | ⟨.select id scope, _⟩ => some (id, scope)
  | _ => none

/-- The `DELETE` that is due after a `SELECT` that found a record, and the `COMMIT` that is due after the `DELETE`. -/
def due : (x : (c : Statement) × c.Reply) → Option Statement
  | ⟨.select id scope, some _⟩ => some (.delete id scope)
  | ⟨.delete id scope, _⟩ => some (.commit id scope)
  | _ => none

def pending (log : Record) : Option Statement := log.getLast?.bind due

/-- A store raised. -/
def raisedBy : (x : (c : Statement) × c.Reply) → Option Failure
  | ⟨.call (.blob_delete _), .error e⟩ => some e
  | ⟨.call (.store_get _ _), .error e⟩ => some e
  | ⟨.call (.store_list_before _), .error e⟩ => some e
  | _ => none

/-- The records that a lookup or a listing returned. -/
def listed : (x : (c : Statement) × c.Reply) → List AttachmentRecord
  | ⟨.call (.store_get _ _), .ok (some record)⟩ => [record]
  | ⟨.call (.store_list_before _), .ok found⟩ => found
  | _ => []

/-- The event of the deletion of a record. -/
def IsDeletion (record : AttachmentRecord) (event : AuditEvent) : Prop :=
  event.event_type = "attachment.deleted" ∧ event.run_id = "attachment-" ++ record.id

variable (S : AttachmentService)

/-- What the call may ask to delete: the endpoint the one record that it is called for. -/
def Target (call : Removal) (id : String) (scope : Scope) : Prop :=
  match call with
  | .delete_attachment identity attachment_id _ => id = attachment_id ∧ scope = .of identity
  | .purge_expired _ => True

def isAppend : Statement → Bool
  | .append _ => true
  | _ => false

/-- A `SELECT` that found a record is followed by the `DELETE` and this by the `COMMIT`, at once; one audit event follows
the deletion. -/
def Orderly (call : Removal) (log : Record) (c : Statement) : Prop :=
  match c with
  | .call (.store_get _ _) | .call .uuid4 | .utc_now => pending log = none
  | .select id scope => pending log = none ∧ Target call id scope
  | .call (.store_list_before before) =>
    pending log = none ∧ ∃ now, call = .purge_expired now ∧ Steps.cutoff S now = .ok before
  | .call (.blob_delete key) => pending log = none ∧ ∃ record ∈ log.flatMap listed, key = record.storage_path
  | .delete id scope => pending log = some (.delete id scope)
  | .commit id scope => pending log = some (.commit id scope)
  | .append event => pending log = none ∧ (∀ x ∈ log, isAppend x.1 = false) ∧ ∃ identity id request_id record,
      call = .delete_attachment identity id request_id ∧ log.filterMap selected = [record] ∧ IsDeletion record event
  | _ => False

/-- How a call ends that no store refused. -/
def Ends (call : Removal) (log : Record) (o : Except Failure Answer) : Prop :=
  match call with
  | .delete_attachment identity id _ =>
    (∃ record event, log.filterMap selected = [record] ∧ ⟨.append event, ()⟩ ∈ log ∧ IsDeletion record event ∧
      o = .ok (.record record)) ∨
    (log.filterMap selected = [] ∧ o = .error (.attachmentNotFound "attachment was not found") ∧
      (⟨.call (.store_get id (.of identity)), .ok none⟩ ∈ log ∨ ⟨.select id (.of identity), none⟩ ∈ log)) ∨
    _validate_identity identity ≠ .ok ()
  | .purge_expired now =>
    (∃ cutoff found, Steps.cutoff S now = .ok cutoff ∧ ⟨.call (.store_list_before cutoff), .ok found⟩ ∈ log ∧
      (∀ record ∈ found, (record.id, record.scope) ∈ log.filterMap asked) ∧
      o = .ok (.records (log.filterMap selected))) ∨
    S.retention_days = 0 ∨ ∀ cutoff, Steps.cutoff S now ≠ .ok cutoff

/-- No statement is due, and the call has ended in order unless a store raised. -/
def Settled (call : Removal) (log : Record) (o : Except Failure Answer) : Prop :=
  pending log = none ∧ ((∀ x ∈ log, raisedBy x = none) → Ends S call log o)

variable {S} {call : Removal} {log : Record} {record : AttachmentRecord} {id msg : String} {scope : Scope}

@[simp] theorem pending_snoc {x : (c : Statement) × c.Reply} : pending (log ++ [x]) = due x := by
  simp [pending]

theorem settled_of_raised {x : (c : Statement) × c.Reply} {o : Except Failure Answer} (hdue : due x = none)
    (hx : raisedBy x ≠ none) : Settled S call (log ++ [x]) o :=
  ⟨by rw [pending_snoc, hdue], fun h => absurd (h x (by simp)) hx⟩

/-- What a deletion adds to the exchange. -/
structure Cleared (log : Record) (id : String) (scope : Scope) (log' : Record) (found : Option AttachmentRecord) :
    Prop where
  idle : pending log' = none
  selected : log'.filterMap selected = log.filterMap selected ++ found.toList
  asked : log'.filterMap asked = log.filterMap asked ++ [(id, scope)]
  missing : found = none → ⟨.select id scope, none⟩ ∈ log'
  more : ∀ x ∈ log, x ∈ log'
  silent : (∀ x ∈ log, isAppend x.1 = false) → ∀ x ∈ log', isAppend x.1 = false

theorem silent_snoc {x : (c : Statement) × c.Reply} (h : ∀ x ∈ log, isAppend x.1 = false)
    (hx : isAppend x.1 = false) : ∀ y ∈ log ++ [x], isAppend y.1 = false := by
  intro y hy
  rcases List.mem_append.mp hy with hy | hy
  · exact h y hy
  · exact List.mem_singleton.mp hy ▸ hx

theorem sat_remove {k : Option AttachmentRecord → Routine Answer} (hidle : pending log = none)
    (htarget : Target call id scope) (hrecord : record ∈ log.flatMap listed)
    (hk : ∀ log' found, Cleared log id scope log' found → Program.Sat (Orderly S call) (Settled S call) log' (k found)) :
    Program.Sat (Orderly S call) (Settled S call) log
      (((Steps.remove record id scope msg).expand statements).bind k) := by
  refine ⟨⟨hidle, record, hrecord, rfl⟩, fun r => ?_⟩
  cases r with
  | error e => exact settled_of_raised rfl (by simp [raisedBy])
  | ok _ =>
    refine ⟨⟨pending_snoc, htarget⟩, fun found => ?_⟩
    cases found with
    | none =>
      refine hk _ none ⟨pending_snoc, ?_, ?_, fun _ => by simp, fun x hx => by simp [hx],
        fun h => silent_snoc (silent_snoc h rfl) rfl⟩
      · simp only [List.append_assoc, List.filterMap_append]
        rfl
      · simp only [List.append_assoc, List.filterMap_append]
        rfl
    | some found =>
      refine ⟨pending_snoc, fun _ => ⟨pending_snoc, fun _ => ?_⟩⟩
      refine hk _ (some found) ⟨pending_snoc, ?_, ?_, fun h => (by cases h), fun x hx => by simp [hx],
        fun h => silent_snoc (silent_snoc (silent_snoc (silent_snoc h rfl) rfl) rfl) rfl⟩
      · simp only [List.append_assoc, List.filterMap_append]
        rfl
      · simp only [List.append_assoc, List.filterMap_append]
        rfl

theorem sat_purge {now : DateTime} {cutoff : DateTime} {found : List AttachmentRecord}
    (hcutoff : Steps.cutoff S now = .ok cutoff) : ∀ {expired log}, pending log = none →
    ⟨.call (.store_list_before cutoff), .ok found⟩ ∈ log → (∀ record ∈ expired, record ∈ found) →
    (∀ record ∈ found, record ∈ expired ∨ (record.id, record.scope) ∈ log.filterMap asked) →
    Program.Sat (Orderly S (.purge_expired now)) (Settled S (.purge_expired now)) log
      (((Steps.purge expired (log.filterMap selected)).expand statements).bind fun deleted => .pure (.records deleted)) := by
  intro expired
  induction expired with
  | nil =>
    intro log hidle hlisted _ hasked
    exact ⟨hidle, fun _ => .inl ⟨cutoff, found, hcutoff, hlisted, fun r hr => (hasked r hr).resolve_left (by simp), rfl⟩⟩
  | cons record expired ih =>
    intro log hidle hlisted hmem hasked
    have hrecord : record ∈ log.flatMap listed :=
      List.mem_flatMap.mpr ⟨_, hlisted, hmem record (by simp)⟩
    simp only [Steps.purge, Program.bind_eq, Program.expand_bind, Program.bind_assoc]
    refine sat_remove hidle trivial hrecord fun log' removed h => ?_
    rw [← h.selected]
    refine ih h.idle (h.more _ hlisted) (fun r hr => hmem r (by simp [hr])) fun r hr => ?_
    rw [h.asked]
    rcases hasked r hr with hin | hdone
    · rcases List.mem_cons.mp hin with rfl | hin
      · exact .inr (by simp)
      · exact .inl hin
    · exact .inr (List.mem_append_left _ hdone)

theorem sat_purge_expired (now : DateTime) : Program.Sat (Orderly S (.purge_expired now))
    (Settled S (.purge_expired now)) [] (Removal.program S (.purge_expired now)) := by
  simp only [Removal.program, Steps.purge_expired, Program.bind_eq]
  split
  · rename_i hzero
    exact ⟨rfl, fun _ => .inr (.inl hzero)⟩
  · cases hcutoff : Steps.cutoff S now with
    | error e => exact ⟨rfl, fun _ => .inr (.inr (by simp [hcutoff]))⟩
    | ok cutoff =>
      refine ⟨⟨rfl, now, rfl, hcutoff⟩, fun r => ?_⟩
      cases r with
      | error e => exact settled_of_raised rfl (by simp [raisedBy])
      | ok found =>
        exact sat_purge hcutoff rfl (by simp) (fun _ h => h) (fun _ h => .inl h)

theorem sat_event {identity : IdentityContext} {request_id : Option String} {payload : Payload}
    (hidle : pending log = none) (hselected : log.filterMap selected = [record])
    (hsilent : ∀ x ∈ log, isAppend x.1 = false) :
    Program.Sat (Orderly S (.delete_attachment identity id request_id))
      (Settled S (.delete_attachment identity id request_id)) log
      ((_record_attachment_event "attachment.deleted" identity record.id payload request_id).bind
        fun _ => .pure (.record record)) := by
  have htail : ∀ log' text (u : Hex 32), pending log' = none → log'.filterMap selected = [record] →
      (∀ x ∈ log', isAppend x.1 = false) → Program.Sat (Orderly S (.delete_attachment identity id request_id))
        (Settled S (.delete_attachment identity id request_id)) log'
        (.cmd .utc_now fun created_at => .cmd (.append ⟨"attachment.deleted", text, "attachment-trace-" ++ u.text,
          "attachment-" ++ record.id, identity.workspace_id, "web-console",
          ("attachment_id", .str record.id) :: ("tenant_id", .str identity.tenant_id) :: payload, created_at⟩)
          fun _ => .pure (.record record)) := by
    intro log' text u hidle' hselected' hsilent'
    refine ⟨hidle', fun created_at => ?_⟩
    have hstill : (log' ++ [(⟨.utc_now, created_at⟩ : (c : Statement) × c.Reply)]).filterMap selected = [record] := by
      rw [List.filterMap_append, hselected']
      rfl
    refine ⟨⟨pending_snoc, silent_snoc hsilent' rfl, identity, id, request_id, record, rfl, hstill, rfl, rfl⟩,
      fun _ => ⟨pending_snoc, fun _ => .inl ⟨record, _, ?_, List.mem_append_right _ (List.mem_singleton_self _),
        ⟨rfl, rfl⟩, rfl⟩⟩⟩
    rw [List.filterMap_append, hstill]
    rfl
  refine ⟨hidle, fun u => ?_⟩
  have hstill : (log ++ [(⟨.call .uuid4, u⟩ : (c : Statement) × c.Reply)]).filterMap selected = [record] := by
    rw [List.filterMap_append, hselected]
    rfl
  simp only [request_id_or]
  cases truthy request_id with
  | some text => exact htail _ text u pending_snoc hstill (silent_snoc hsilent rfl)
  | none =>
    refine ⟨pending_snoc, fun v => htail _ _ u pending_snoc ?_ (silent_snoc (silent_snoc hsilent rfl) rfl)⟩
    rw [List.filterMap_append, hstill]
    rfl

theorem sat_delete_attachment (identity : IdentityContext) (id : String) (request_id : Option String) :
    Program.Sat (Orderly S (.delete_attachment identity id request_id))
      (Settled S (.delete_attachment identity id request_id)) []
      (Removal.program S (.delete_attachment identity id request_id)) := by
  simp only [Removal.program, Steps.delete, Steps._scoped_record, Program.bind_eq, Program.expand_bind, Program.bind_assoc]
  cases hvalid : _validate_identity identity with
  | error e => exact ⟨rfl, fun _ => .inr (.inr (by simp [hvalid]))⟩
  | ok _ =>
    refine ⟨rfl, fun r => ?_⟩
    cases r with
    | error e => exact settled_of_raised rfl (by simp [raisedBy])
    | ok found =>
      cases found with
      | none => exact ⟨rfl, fun _ => .inr (.inl ⟨rfl, rfl, .inl (by simp)⟩)⟩
      | some record =>
        refine sat_remove rfl ⟨rfl, rfl⟩ (by simp [listed]) fun log' removed h => ?_
        cases removed with
        | none =>
          refine ⟨h.idle, fun _ => .inr (.inl ⟨?_, rfl, .inr (h.missing rfl)⟩)⟩
          rw [h.selected]
          rfl
        | some deleted =>
          refine sat_event h.idle ?_ (h.silent (silent_snoc (by simp) rfl))
          rw [h.selected]
          rfl

theorem program_sat (call : Removal) :
    Program.Sat (Orderly S call) (Settled S call) [] (call.program S) := by
  cases call with
  | delete_attachment identity id request_id => exact sat_delete_attachment identity id request_id
  | purge_expired now => exact sat_purge_expired now

end Local

end EnterpriseCopilot.Attachment
