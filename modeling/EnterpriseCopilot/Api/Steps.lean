import EnterpriseCopilot.Api.Attachments
import EnterpriseCopilot.Attachment.Shelf

/-! Everything a request to the attachment endpoints can do. -/

namespace EnterpriseCopilot.Api

open EnterpriseCopilot.Python EnterpriseCopilot.Runtime
open EnterpriseCopilot.Attachment (AttachmentRecord Scope)
open EnterpriseCopilot.Audit (AuditLog EventRow)
open EnterpriseCopilot.Limits (Endpoint respond)
open EnterpriseCopilot.Observability (MetricKey MetricsRegistry)

/-- What an event is about. -/
structure Mark where
  event_type : String
  run_id : String
  workspace_id : String
  tenant_id : Option String
  deriving DecidableEq

def Mark.of (row : EventRow) : Mark := ⟨row.event_type, row.run_id, row.workspace_id, row.tenant_id⟩

def Request.mark (r : Request) (event_type attachment_id : String) : Mark :=
  ⟨event_type, "attachment-" ++ attachment_id, r.identity.workspace_id, some r.identity.tenant_id⟩

/-- What is to be in the event table for a request with its response. -/
def audited (x : Exchange) : List Mark :=
  match x.request.operation, x.outcome with
  | .upload_attachment _ _ _ _ _ _, .response 201 (.attachment payload) =>
    [x.request.mark "attachment.created" payload.id]
  | .delete_attachment attachment_id, .response 204 .empty => [x.request.mark "attachment.deleted" attachment_id]
  | .analyze_attachment attachment_id _ _ _, .response 200 (.analysis _ _) =>
    [x.request.mark "attachment.analyzed" attachment_id]
  | .analyze_attachment attachment_id _ _ _, .http ⟨502, _, _⟩ =>
    [x.request.mark "attachment.analysis_failed" attachment_id]
  | _, _ => []

/-- The operation that an event is counted under. -/
def operations : List (String × String) :=
  [("upload", "attachment.created"), ("delete", "attachment.deleted"), ("analyze", "attachment.analyzed")]

def Operation.removes : Operation → Bool
  | .delete_attachment _ => true
  | .purge_expired _ => true
  | _ => false

/-- The call of the attachment service that a request makes to change something. -/
def Deployment.call? (D : Deployment) (r : Request) : Option Attachment.Call :=
  match r.operation with
  | .upload_attachment filename content_type image decode scan utc_now =>
    some (.upload r.identity ((truthy filename).getD "upload") ((truthy content_type).getD "")
      (image.take (D.attachments.max_bytes + 1))
      ⟨decode, fun data content_type => (scan data content_type).mapError Attachment.ScanError.toFailure, utc_now⟩)
  | .delete_attachment attachment_id => some (.delete r.identity attachment_id)
  | .purge_expired now => some (.purge_expired now)
  | _ => none

def Deployment.perform (D : Deployment) (c : Attachment.Call) (s : State D) :
    Except Attachment.Failure Attachment.Answer × Attachment.State D.attachments.backend :=
  Attachment.perform D.attachments D.world c s.attachments

/-- The event of a call that changes something. -/
def event_type_of : Attachment.Call → String
  | .upload _ _ _ _ _ => "attachment.created"
  | _ => "attachment.deleted"

def counter (operation : String) : MetricKey := ("attachments_total", [("operation", operation)])

/-- The image of the record goes to the provider. -/
structure Sends (D : Deployment) (r : Request) (s : State D) (limits : Limits.Store) (attachment_id : String)
    (request : AnalysisRequest) (record : AttachmentRecord) (data : Bytes) (o : Outgoing) : Prop where
  operation : ∃ http utc_now, r.operation = .analyze_attachment attachment_id request http utc_now
  admitted : D.check_limit .analyze r s = (.ok (), { s with limits := limits })
  read : D.attachments.read_content D.world r.identity attachment_id s.attachments = .ok (record, data)
  consent : request.allow_external_processing = true
  provider : ∃ p, D.vision = some ⟨some p⟩ ∧ o = p.outgoing data record.content_type request.task
    (Vision.VisionService.prompt_for request.prompt)

/-- The event, its counter and the response are those of one operation on one attachment. -/
structure Notes (D : Deployment) (r : Request) (attachment_id : String) (event : AuditEvent) (operation : String)
    (status_code : Nat) (body : Body) (sent : Option Outgoing) : Prop where
  mark : Mark.of (EventRow.ofEvent D.codec event) = r.mark event.event_type attachment_id
  counted : (operation, event.event_type) ∈ operations
  audited : audited ⟨r, .response status_code body, sent⟩ = [r.mark event.event_type attachment_id]

/-- The two ways in which `finish` ends. -/
inductive Finished (D : Deployment) (r : Request) (event : AuditEvent) (operation : String) (status_code : Nat)
    (body : Body) (s : State D) : Outcome × State D → Prop
  | raised {audit} : r.raises ≠ none → audit.rows = s.audit.rows →
      Finished D r event operation status_code body s (.unhandled, { s with audit := audit })
  | done : Finished D r event operation status_code body s (.response status_code body,
      { s with
        audit := s.audit.append D.codec D.audit_store event
        metrics := ⟨MetricsRegistry.add (counter operation) 1 s.metrics._counters⟩ })

/-- Everything a request can do. -/
inductive Handled (D : Deployment) (r : Request) (s : State D) : Served D → Prop
  | idle {outcome limits} : r.operation.removes = false → audited ⟨r, outcome, none⟩ = [] →
      Handled D r s ⟨outcome, none, { s with limits := limits }⟩
  | refused {outcome limits c e} : D.call? r = some c → (∀ now, r.operation ≠ .purge_expired now) →
      (D.perform c s).1 = .error e → audited ⟨r, outcome, none⟩ = [] →
      Handled D r s ⟨outcome, none, { s with limits := limits, attachments := (D.perform c s).2 }⟩
  | purged {outcome now} : r.operation = .purge_expired now → audited ⟨r, outcome, none⟩ = [] →
      (∀ records, outcome = .response 200 (.purged records) →
        (D.perform (.purge_expired now) s).1 = .ok (.records records)) →
      Handled D r s ⟨outcome, none, { s with attachments := (D.perform (.purge_expired now) s).2 }⟩
  | changed {limits c record event operation status_code body served} : D.call? r = some c →
      (D.perform c s).1 = .ok (.record record) → event.event_type = event_type_of c →
      Notes D r record.id event operation status_code body none →
      (event_type_of c = "attachment.created" → status_code = 201 ∧ body = .attachment (_attachment_payload record)) →
      Finished D r event operation status_code body
        { s with limits := limits, attachments := (D.perform c s).2 } served →
      Handled D r s ⟨served.1, none, served.2⟩
  | analyzed {limits attachment_id request record data o event body served} :
      Sends D r s limits attachment_id request record data o → event.event_type = "attachment.analyzed" →
      Notes D r attachment_id event "analyze" 200 body (some o) →
      Finished D r event "analyze" 200 body { s with limits := limits } served →
      Handled D r s ⟨served.1, some o, served.2⟩
  | failed {limits attachment_id request record data o event e} :
      Sends D r s limits attachment_id request record data o → event.event_type = "attachment.analysis_failed" →
      Mark.of (EventRow.ofEvent D.codec event) = r.mark event.event_type attachment_id →
      audited ⟨r, .http e, some o⟩ = [r.mark event.event_type attachment_id] →
      Handled D r s ⟨.http e, some o,
        { s with limits := limits, audit := s.audit.append D.codec D.audit_store event }⟩
  | lost {limits attachment_id request record data o audit} :
      Sends D r s limits attachment_id request record data o → audit.rows = s.audit.rows →
      Handled D r s ⟨.unhandled, some o, { s with limits := limits, audit := audit }⟩

section Steps

variable {D : Deployment} {r : Request} {s : State D}

theorem safe_char_range {c : Char} (h : Attachment.safeIdentityChar c = true) : 45 ≤ c.toNat ∧ c.toNat ≤ 122 := by
  have halpha : c.isAlpha = (decide (65 ≤ c.val ∧ c.val ≤ 90) || (decide (97 ≤ c.val) && decide (c.val ≤ 122))) := rfl
  simp only [Attachment.safeIdentityChar, Bool.or_eq_true, decide_eq_true_eq, Char.isAlphanum, halpha, Char.isDigit,
    Bool.and_eq_true, List.mem_cons, List.not_mem_nil, or_false] at h
  obtain ((⟨h, h'⟩ | ⟨h, h'⟩) | ⟨h, h'⟩) | rfl | rfl | rfl | rfl := h
  · exact ⟨(by decide : 45 ≤ 65).trans (UInt32.le_iff_toNat_le.mp h), (UInt32.le_iff_toNat_le.mp h').trans (by decide)⟩
  · exact ⟨(by decide : 45 ≤ 97).trans (UInt32.le_iff_toNat_le.mp h), (UInt32.le_iff_toNat_le.mp h').trans (by decide)⟩
  · exact ⟨(by decide : 45 ≤ 48).trans (UInt32.le_iff_toNat_le.mp h), (UInt32.le_iff_toNat_le.mp h').trans (by decide)⟩
  all_goals decide

theorem isBlank_of_safeIdentity {value : String} (h : Attachment.safeIdentity value = true) : isBlank value = false := by
  simp only [Attachment.safeIdentity, Bool.and_eq_true, decide_eq_true_eq] at h
  obtain ⟨⟨hall, hlength⟩, _⟩ := h
  cases hchars : value.toList with
  | nil =>
    rw [← String.length_toList, hchars] at hlength
    cases hlength
  | cons c cs =>
    have hc := safe_char_range (List.all_eq_true.mp hall c (by rw [hchars]; exact List.mem_cons_self))
    have hspace : isSpace c = false := by
      simp only [isSpace, Bool.or_eq_false_iff, Bool.and_eq_false_iff, decide_eq_false_iff_not, beq_eq_false_iff_ne]
      omega
    rw [isBlank, hchars, List.all_cons, hspace]
    rfl

theorem mark_attachment_event (hidentity : Attachment._validate_identity r.identity = .ok ())
    {event_type attachment_id : String} {payload : Payload} {request_id : Option String} :
    Mark.of (EventRow.ofEvent D.codec (attachment_event r event_type attachment_id payload request_id)) =
      r.mark event_type attachment_id := by
  have htenant : isBlank r.identity.tenant_id = false := by
    unfold Attachment._validate_identity at hidentity
    split at hidentity
    · cases hidentity
    split at hidentity
    · cases hidentity
    split at hidentity
    · cases hidentity
    rename_i h
    exact isBlank_of_safeIdentity (by simpa using h)
  simp [Mark.of, EventRow.ofEvent, attachment_event, Request.mark, AuditEvent.tenant_id, Payload.get, List.lookup_cons,
    htenant]

theorem record_cases (event : AuditEvent) (log : AuditLog) :
    (∃ e, (D.record r event log).1 = .error e ∧ r.raises ≠ none ∧ (D.record r event log).2.rows = log.rows) ∨
    D.record r event log = (.ok (), log.append D.codec D.audit_store event) := by
  unfold Deployment.record
  split
  · rename_i hraises
    exact .inl ⟨_, rfl, by rw [hraises]; exact Option.some_ne_none _, rfl⟩
  · exact .inr rfl

theorem increment_ok (m : MetricsRegistry) {operation : String} (h : operation.length ≤ 100) :
    m.increment "attachments_total" (some (operation_label operation)) 1 =
      .ok ⟨MetricsRegistry.add (counter operation) 1 m._counters⟩ := by
  have hname : Observability._SAFE_NAME "attachments_total" = true := by decide +kernel
  have hlabel : Observability._SAFE_LABEL "operation" = true := by decide +kernel
  have hnormalized : MetricsRegistry.normalized [("operation", operation)] = .ok [("operation", operation)] := by
    simp [MetricsRegistry.normalized, hlabel, Nat.not_lt.mpr h]
    rfl
  simp [MetricsRegistry.increment, hname, operation_label, hnormalized]
  rfl

theorem finish_cases {event : AuditEvent} {operation : String} {status_code : Nat} {body : Body}
    (h : operation.length ≤ 100) : Finished D r event operation status_code body s
      (D.finish r event operation status_code body s) := by
  unfold Deployment.finish
  obtain ⟨e, herror, hraises, hrows⟩ | hok := record_cases (D := D) (r := r) event s.audit
  · generalize D.record r event s.audit = x at herror hrows
    obtain ⟨_, audit⟩ := x
    subst herror
    exact .raised hraises hrows
  · rw [hok]
    simp only [increment_ok s.metrics h]
    exact .done

theorem respond_cases (endpoint : Endpoint) (answer : Bool × Int) :
    respond endpoint answer = .ok () ∨ ∃ e, respond endpoint answer = .error e ∧ e.status_code = 429 := by
  unfold respond
  split
  · exact .inl rfl
  · exact .inr ⟨_, rfl, rfl⟩

theorem check_limit_cases (endpoint : Endpoint) :
    (∃ e limits, D.check_limit endpoint r s = (.error e, { s with limits := limits }) ∧ e.status_code = 429) ∨
    ∃ limits, D.check_limit endpoint r s = (.ok (), { s with limits := limits }) := by
  have hchecked : (D.check_limit endpoint r s).1 = .ok () ∨
      ∃ e, (D.check_limit endpoint r s).1 = .error e ∧ e.status_code = 429 := by
    unfold Deployment.check_limit
    cases D.limiters with
    | in_memory limiter => exact respond_cases _ _
    | redis limiter => exact respond_cases _ _
  obtain hok | ⟨e, herror, hcode⟩ := hchecked
  · exact .inr ⟨_, Prod.ext hok rfl⟩
  · exact .inl ⟨e, _, Prod.ext herror rfl, hcode⟩

theorem audited_unhandled {sent : Option Outgoing} : audited ⟨r, .unhandled, sent⟩ = [] := by
  unfold audited
  split
  case h_5 => rfl
  all_goals
    rename_i heq
    cases heq

theorem audited_http {e : Limits.HTTPException} {sent : Option Outgoing} (h : e.status_code ≠ 502) :
    audited ⟨r, .http e, sent⟩ = [] := by
  unfold audited
  split
  case h_4 heq =>
    cases heq
    exact absurd rfl h
  case h_5 => rfl
  all_goals
    rename_i heq
    cases heq

theorem read_content_inv {attachment_id : String} {record : AttachmentRecord} {data : Bytes}
    {a : Attachment.State D.attachments.backend}
    (h : D.attachments.read_content D.world r.identity attachment_id a = .ok (record, data)) :
    Attachment._validate_identity r.identity = .ok () ∧ data.length = record.size_bytes := by
  obtain ⟨record', hrecord, h⟩ := bind_ok h
  split at h
  · cases h
  · cases h
  split at h
  · cases h
  · rename_i hsame
    cases h
    simp only [ne_eq, Bool.or_eq_true, decide_eq_true_eq, not_or, not_not] at hsame
    exact ⟨(Attachment._scoped_record_ok.mp hrecord).1, hsame.1⟩

theorem validated_of_upload {filename content_type : String} {data : Bytes} {oracle : Attachment.Oracle}
    {record : AttachmentRecord} {a : Attachment.State D.attachments.backend}
    (h : (D.attachments.upload D.world r.identity filename content_type data oracle a).1 = .ok record) :
    Attachment._validate_identity r.identity = .ok () := by
  generalize hup : D.attachments.upload D.world r.identity filename content_type data oracle a = x at h
  obtain ⟨answer, a'⟩ := x
  obtain ⟨⟨e, rfl⟩, _⟩ | ⟨_, _, _, _, _, hvalid, _, _⟩ := Attachment.upload_cases hup
  · cases h
  · exact hvalid

theorem upload_error_cases (scanned : Option Attachment.ScanError) (failure : Attachment.Failure) :
    upload_error scanned failure = .unhandled ∨ ∃ e, upload_error scanned failure = .http e := by
  unfold upload_error
  split
  · exact .inr ⟨_, rfl⟩
  · exact .inr ⟨_, rfl⟩
  · exact .inr ⟨_, rfl⟩
  · exact .inl rfl

theorem upload_handled {filename content_type : Option String} {image : Bytes}
    {decode : Bytes → Except Attachment.ImageError (Option String × Int × Int)}
    {scan : Bytes → String → Except Attachment.ScanError Unit} {utc_now : DateTime}
    (hop : r.operation = .upload_attachment filename content_type image decode scan utc_now) :
    Handled D r s ⟨(D.upload_attachment r filename content_type image decode scan utc_now s).1, none,
      (D.upload_attachment r filename content_type image decode scan utc_now s).2⟩ := by
  unfold Deployment.upload_attachment
  obtain ⟨e, limits, hlimit, _⟩ | ⟨limits, hlimit⟩ := check_limit_cases (D := D) (r := r) (s := s) .upload
  · rw [hlimit]
    exact .idle (by rw [hop]; rfl) (by simp [audited, hop])
  · rw [hlimit]
    dsimp only
    have hcall : D.call? r = some (.upload r.identity ((truthy filename).getD "upload") ((truthy content_type).getD "")
        (image.take (D.attachments.max_bytes + 1))
        ⟨decode, fun data content_type => (scan data content_type).mapError Attachment.ScanError.toFailure,
          utc_now⟩) := by
      simp only [Deployment.call?, hop]
    split
    · rename_i e herror
      refine .refused hcall (by simp [hop]) (e := e) ?_ ?_
      · exact congrArg (Except.map _) herror
      · obtain h | ⟨e, h⟩ := upload_error_cases (scan_error D.attachments r.identity ((truthy filename).getD "upload")
          ((truthy content_type).getD "") (image.take (D.attachments.max_bytes + 1)) decode scan utc_now) e
        · rw [h]
          simp [audited, hop]
        · rw [h]
          simp [audited, hop]
    · rename_i record hok
      have hnotes : Notes D r record.id (attachment_event r "attachment.created" record.id
          [("sha256", .str record.sha256), ("size_bytes", .num record.size_bytes),
            ("content_type", .str record.content_type)] (some r.request_id)) "upload" 201
          (.attachment (_attachment_payload record)) none :=
        ⟨mark_attachment_event (validated_of_upload hok), by simp [operations, attachment_event],
          by simp only [audited, hop]; rfl⟩
      exact .changed hcall (congrArg (Except.map _) hok) rfl hnotes (fun _ => ⟨rfl, rfl⟩) (finish_cases (by decide))

theorem validated_of_delete {attachment_id : String} {record : AttachmentRecord}
    {a : Attachment.State D.attachments.backend}
    (h : (D.attachments.delete r.identity attachment_id a).1 = .ok record) :
    Attachment._validate_identity r.identity = .ok () ∧ record.id = attachment_id := by
  unfold Attachment.AttachmentService.delete at h
  split at h
  · cases h
  rename_i hrecord
  split at h
  · cases h
  split at h
  · cases h
  · rename_i hdeleted
    cases h
    have hget := (Attachment.Store.delete_fst attachment_id (.of r.identity)).symm.trans
      (congrArg Prod.fst hdeleted)
    exact ⟨(Attachment._scoped_record_ok.mp hrecord).1, (Attachment.Store.get_eq_some.mp hget).2.1⟩

theorem delete_handled {attachment_id : String} (hop : r.operation = .delete_attachment attachment_id) :
    Handled D r s ⟨(D.delete_attachment r attachment_id s).1, none, (D.delete_attachment r attachment_id s).2⟩ := by
  have hcall : D.call? r = some (.delete r.identity attachment_id) := by
    simp only [Deployment.call?, hop]
  have hrefused : ∀ e outcome, (D.attachments.delete r.identity attachment_id s.attachments).1 = .error e →
      audited ⟨r, outcome, none⟩ = [] → Handled D r s ⟨outcome, none,
        { s with attachments := (D.attachments.delete r.identity attachment_id s.attachments).2 }⟩ :=
    fun e outcome herror haudited =>
      .refused hcall (by simp [hop]) (congrArg (Except.map Attachment.Answer.record) herror) haudited
  unfold Deployment.delete_attachment
  dsimp only
  split
  · rename_i herror
    exact hrefused _ _ herror (by simp [audited, hop])
  · rename_i herror
    exact hrefused _ _ herror (by simp [audited, hop])
  · rename_i herror
    exact hrefused _ _ herror (by simp [audited, hop])
  · rename_i record hok
    obtain ⟨hvalid, hid⟩ := validated_of_delete hok
    have hnotes : Notes D r record.id (attachment_event r "attachment.deleted" record.id
        [("sha256", .str record.sha256), ("size_bytes", .num record.size_bytes)] (some r.request_id)) "delete" 204
        .empty none :=
      ⟨mark_attachment_event hvalid, by simp [operations, attachment_event], by simp only [audited, hop, hid]; rfl⟩
    exact .changed hcall (congrArg (Except.map Attachment.Answer.record) hok) rfl hnotes
      (fun h => absurd h (by simp [event_type_of])) (finish_cases (by decide))

theorem purge_handled {now : DateTime} (hop : r.operation = .purge_expired now) :
    Handled D r s ⟨(D.purge_expired now s).1, none, (D.purge_expired now s).2⟩ := by
  unfold Deployment.purge_expired
  dsimp only
  split
  · exact .purged hop (by simp [audited, hop]) fun records h => by cases h
  · rename_i records hok
    refine .purged hop (by simp [audited, hop]) fun records' h => ?_
    cases h
    exact congrArg (Except.map Attachment.Answer.records) hok

/-- A request that changes nothing and sends nothing. -/
theorem idle_handled {outcome : Outcome} (hop : r.operation.removes = false) (h : audited ⟨r, outcome, none⟩ = []) :
    Handled D r s ⟨outcome, none, s⟩ := @Handled.idle D r s outcome s.limits hop h

theorem analyze_handled {attachment_id : String} {request : AnalysisRequest} {http : Http} {utc_now : DateTime}
    (hop : r.operation = .analyze_attachment attachment_id request http utc_now) :
    Handled D r s (D.analyze_attachment r attachment_id request http utc_now s) := by
  have hkeeps : r.operation.removes = false := by
    rw [hop]
    rfl
  unfold Deployment.analyze_attachment
  split
  · exact idle_handled hkeeps (by simp [audited, hop])
  rename_i vision hvision
  obtain ⟨e, limits, hlimit, hcode⟩ | ⟨limits, hlimit⟩ := check_limit_cases (D := D) (r := r) (s := s) .analyze
  · rw [hlimit]
    exact .idle hkeeps (audited_http (by rw [hcode]; decide))
  rw [hlimit]
  dsimp only
  split
  · exact .idle hkeeps (audited_http (by decide))
  · exact .idle hkeeps (audited_http (by decide))
  · exact .idle hkeeps (by simp only [audited, hop])
  rename_i record data hread
  obtain ⟨hvalid, hsize⟩ := read_content_inv hread
  have hcases := Vision.analyze_cases vision http request.prompt request.allow_external_processing utc_now.isoformat
    request.literal hsize
  generalize vision.analyze http record data request.task request.prompt request.allow_external_processing
    utc_now.isoformat = answered at hcases
  cases hcases with
  | not_configured => exact .idle hkeeps (audited_http (by decide))
  | consent_required => exact .idle hkeeps (audited_http (by decide))
  | @sent p hprovider hconsent =>
    have hsends : Sends D r s limits attachment_id request record data (p.outgoing data record.content_type request.task
        (Vision.VisionService.prompt_for request.prompt)) :=
      ⟨⟨http, utc_now, hop⟩, hlimit, hread, hconsent, p, by rw [hvision, ← hprovider], rfl⟩
    obtain ⟨text, hanswer⟩ | ⟨msg, hanswer⟩ | ⟨e, hanswer⟩ := Vision.read_cases http (http.post (p.outgoing data
      record.content_type request.task (Vision.VisionService.prompt_for request.prompt)))
    · rw [hanswer]
      refine .analyzed hsends rfl ⟨mark_attachment_event hvalid, by simp [operations, attachment_event], ?_⟩
        (finish_cases (by decide))
      simp only [audited, hop]
      rfl
    · rw [hanswer]
      simp only [Except.map, Deployment.analyzed]
      obtain ⟨e, herror, _, hrows⟩ | hok := record_cases (D := D) (r := r) (attachment_event r
        "attachment.analysis_failed" attachment_id [("task", .str request.task), ("reason", .str msg)] none) s.audit
      · generalize D.record r _ s.audit = recorded at herror hrows
        obtain ⟨_, audit⟩ := recorded
        subst herror
        exact .lost hsends hrows
      · rw [hok]
        refine .failed hsends rfl (mark_attachment_event hvalid) ?_
        simp only [audited, hop]
        rfl
    · rw [hanswer]
      exact .lost hsends rfl

theorem handle_cases (D : Deployment) (r : Request) (s : State D) : Handled D r s (D.handle r s) := by
  unfold Deployment.handle
  split
  case h_1 hop => exact idle_handled (by rw [hop]; rfl) (by simp [audited, hop])
  case h_2 hop => exact upload_handled hop
  case h_3 hop => exact idle_handled (by rw [hop]; rfl) (by simp [audited, hop])
  case h_4 hop => exact idle_handled (by rw [hop]; rfl) (by simp [audited, hop])
  case h_5 hop => exact delete_handled hop
  case h_6 hop => exact analyze_handled hop
  case h_7 hop => exact purge_handled hop

end Steps

end EnterpriseCopilot.Api
