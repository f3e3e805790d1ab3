import Mathlib.Data.List.Infix
import EnterpriseCopilot.Attachment.Scanner
import EnterpriseCopilot.Audit.Log
import EnterpriseCopilot.Limits.Throttle
import EnterpriseCopilot.Observability.Metrics
import EnterpriseCopilot.Vision.Service

/-! The endpoints for images: two throttles, the attachment service, the provider, the audit log and the counters. -/

namespace EnterpriseCopilot.Api

open EnterpriseCopilot.Python EnterpriseCopilot.Runtime
open EnterpriseCopilot.Attachment (AttachmentRecord AttachmentService ImageError Oracle ScanError)
open EnterpriseCopilot.Audit (AuditLog)
open EnterpriseCopilot.Limits (Endpoint HTTPException Limiters Link throttle)
open EnterpriseCopilot.Observability (MetricsRegistry)
open EnterpriseCopilot.Vision (VisionAnalysisResult VisionService)

structure AttachmentPayload where
  id : String
  filename : String
  content_type : String
  image_format : String
  size_bytes : Nat
  sha256 : String
  width : Int
  height : Int
  created_at : String
  content_url : String

def _attachment_payload (record : AttachmentRecord) : AttachmentPayload where
  id := record.id
  filename := record.filename
  content_type := record.content_type
  image_format := record.image_format
  size_bytes := record.size_bytes
  sha256 := record.sha256
  width := record.width
  height := record.height
  created_at := record.created_at
  content_url := "/api/v1/attachments/" ++ record.id ++ "/content"

inductive Body
  | attachments (items : List AttachmentPayload) (count : Nat)
  | attachment (payload : AttachmentPayload)
  | content (data : Bytes) (media_type : String)
  | analysis (attachment_id : String) (result : VisionAnalysisResult)
  | empty
  | purged (records : List AttachmentRecord)

/-- `unhandled` is an exception that no handler takes. -/
inductive Outcome
  | response (status_code : Nat) (body : Body)
  | http (e : HTTPException)
  | unhandled

structure AnalysisRequest where
  task : String
  allow_external_processing : Bool := false
  prompt : Option String := none
  literal : task ∈ ["describe", "ocr"]
  bounded : ∀ text ∈ prompt, text.length ≤ 2000

/-- The requests, and the calls of the retention job.  What comes from outside goes with them: the decoder and the
scanner, the provider, and the clock. -/
inductive Operation
  | list_attachments
  | upload_attachment (filename content_type : Option String) (image : Bytes)
      (decode : Bytes → Except ImageError (Option String × Int × Int))
      (scan : Bytes → String → Except ScanError Unit) (utc_now : DateTime)
  | get_attachment (attachment_id : String)
  | get_attachment_content (attachment_id : String)
  | delete_attachment (attachment_id : String)
  | analyze_attachment (attachment_id : String) (request : AnalysisRequest) (http : Http) (utc_now : DateTime)
  | purge_expired (now : DateTime)

/-- A request of an authenticated identity, with the clocks of the limiters, what becomes of their command, the ids
that are drawn for an event, its time, and what the event store raises. -/
structure Request where
  identity : IdentityContext
  operation : Operation
  now : Rat
  ms : Int
  link : Link
  request_id : String
  request_uuid : Hex 32
  trace_uuid : Hex 32
  created_at : DateTime
  raises : Option PyError

/-- What `create_app` was given. -/
structure Deployment where
  attachments : AttachmentService
  world : Attachment.World
  vision : Option VisionService
  limiters : Limiters
  codec : Audit.Codec
  audit_store : Option Audit.Backend

structure State (D : Deployment) where
  attachments : Attachment.State D.attachments.backend
  limits : Limits.Store
  audit : AuditLog
  metrics : MetricsRegistry

def State.init (D : Deployment) : State D := ⟨.init D.attachments.backend, .empty, ⟨[], []⟩, .init⟩

/-- The outcome of a request, and what was sent to the provider. -/
structure Served (D : Deployment) where
  outcome : Outcome
  sent : Option Outgoing
  state : State D

def attachment_event (r : Request) (event_type attachment_id : String) (payload : Payload)
    (request_id : Option String) : AuditEvent where
  event_type := event_type
  request_id := (truthy request_id).getD ("attachment-request-" ++ r.request_uuid.text)
  trace_id := "attachment-trace-" ++ r.trace_uuid.text
  run_id := "attachment-" ++ attachment_id
  workspace_id := r.identity.workspace_id
  agent_id := "web-console"
  payload := [("attachment_id", .str attachment_id), ("tenant_id", .str r.identity.tenant_id)] ++ payload
  created_at := r.created_at.isoformat

/-- The exception of the scanner, if the upload gets as far as the scan. -/
def scan_error (S : AttachmentService) (identity : IdentityContext) (filename content_type : String) (data : Bytes)
    (decode : Bytes → Except ImageError (Option String × Int × Int))
    (scan : Bytes → String → Except ScanError Unit) (utc_now : DateTime) : Option ScanError :=
  match S.check identity filename content_type data ⟨decode, fun _ _ => .ok (), utc_now⟩ with
  | .error _ => none
  | .ok _ =>
    match scan data content_type with
    | .error e => some e
    | .ok () => none

/-- The handlers of an upload. -/
def upload_error (scanned : Option ScanError) (failure : Attachment.Failure) : Outcome :=
  match scanned, failure with
  | some (.malwareDetected msg), _ => .http ⟨422, msg, none⟩
  | some (.malwareScanUnavailable msg), _ => .http ⟨503, msg, none⟩
  | _, .attachmentError msg => .http ⟨if "limit".toList <:+: msg.toList then 413 else 415, msg, none⟩
  | _, _ => .unhandled

theorem operation_label_nodup (operation : String) :
    (([("operation", operation)] : List (String × String)).map Prod.fst).Nodup := List.nodup_singleton _

/-- `{"operation": operation}`. -/
def operation_label (operation : String) : Observability.Mapping := ⟨[("operation", operation)], operation_label_nodup operation⟩

namespace Deployment

variable (D : Deployment)

/-- `AuditLog.append`: the store may raise after the list has the event. -/
def record (r : Request) (event : AuditEvent) (log : AuditLog) : Except PyError Unit × AuditLog :=
  match D.audit_store, r.raises with
  | some _, some e => (.error e, { log with events := log.events ++ [event] })
  | _, _ => (.ok (), log.append D.codec D.audit_store event)

/-- The end of the handlers that change something: record it, count it and answer. -/
def finish (r : Request) (event : AuditEvent) (operation : String) (status_code : Nat) (body : Body) (s : State D) :
    Outcome × State D :=
  match D.record r event s.audit with
  | (.error _, audit) => (.unhandled, { s with audit := audit })
  | (.ok (), audit) =>
    match s.metrics.increment "attachments_total" (some (operation_label operation)) 1 with
    | .error _ => (.unhandled, { s with audit := audit })
    | .ok metrics => (.response status_code body, { s with audit := audit, metrics := metrics })

def check_limit (endpoint : Endpoint) (r : Request) (s : State D) : Except HTTPException Unit × State D :=
  let checked := throttle D.limiters D.world.sha256 s.limits ⟨endpoint, r.identity, r.now, r.ms, r.link⟩
  (checked.2, { s with limits := checked.1 })

def list_attachments (r : Request) (s : State D) : Outcome :=
  match D.attachments.list r.identity s.attachments with
  | .error _ => .unhandled
  | .ok records => .response 200 (.attachments (records.map _attachment_payload) records.length)

def upload_attachment (r : Request) (filename content_type : Option String) (image : Bytes)
    (decode : Bytes → Except ImageError (Option String × Int × Int))
    (scan : Bytes → String → Except ScanError Unit) (utc_now : DateTime) (s : State D) : Outcome × State D :=
  match D.check_limit .upload r s with
  | (.error e, s) => (.http e, s)
  | (.ok (), s) =>
    let filename := (truthy filename).getD "upload"
    let content_type := (truthy content_type).getD ""
    let data := image.take (D.attachments.max_bytes + 1)
    let oracle : Oracle := ⟨decode, fun data content_type => (scan data content_type).mapError ScanError.toFailure, utc_now⟩
    let uploaded := D.attachments.upload D.world r.identity filename content_type data oracle s.attachments
    let s := { s with attachments := uploaded.2 }
    match uploaded.1 with
    | .error e =>
      (upload_error (scan_error D.attachments r.identity filename content_type data decode scan utc_now) e, s)
    | .ok record =>
      D.finish r (attachment_event r "attachment.created" record.id
          [("sha256", .str record.sha256), ("size_bytes", .num record.size_bytes),
            ("content_type", .str record.content_type)] (some r.request_id))
        "upload" 201 (.attachment (_attachment_payload record)) s

def get_attachment (r : Request) (attachment_id : String) (s : State D) : Outcome :=
  match D.attachments.metadata r.identity attachment_id s.attachments with
  | .ok record => .response 200 (.attachment (_attachment_payload record))
  | .error (.attachmentNotFound _) => .http ⟨404, "attachment was not found", none⟩
  | .error _ => .unhandled

def get_attachment_content (r : Request) (attachment_id : String) (s : State D) : Outcome :=
  match D.attachments.read_content D.world r.identity attachment_id s.attachments with
  | .ok (record, data) => .response 200 (.content data record.content_type)
  | .error (.attachmentNotFound _) => .http ⟨404, "attachment was not found", none⟩
  | .error (.attachmentError _) => .http ⟨503, "attachment content is unavailable", none⟩
  | .error _ => .unhandled

def delete_attachment (r : Request) (attachment_id : String) (s : State D) : Outcome × State D :=
  let deleted := D.attachments.delete r.identity attachment_id s.attachments
  let s := { s with attachments := deleted.2 }
  match deleted.1 with
  | .error (.attachmentNotFound _) => (.http ⟨404, "attachment was not found", none⟩, s)
  | .error (.attachmentError msg) => (.http ⟨409, msg, none⟩, s)
  | .error _ => (.unhandled, s)
  | .ok record =>
    D.finish r (attachment_event r "attachment.deleted" record.id
        [("sha256", .str record.sha256), ("size_bytes", .num record.size_bytes)] (some r.request_id))
      "delete" 204 .empty s

/-- What becomes of the answer of the analysis. -/
def analyzed (r : Request) (attachment_id : String) (request : AnalysisRequest) (record : AttachmentRecord)
    (answer : Except Vision.VisionError VisionAnalysisResult) (s : State D) : Outcome × State D :=
  match answer with
  | .error (.visionNotConfigured msg) => (.http ⟨503, msg, none⟩, s)
  | .error (.visionConsentRequired msg) => (.http ⟨403, msg, none⟩, s)
  | .error (.visionAnalysisError msg) =>
    match D.record r (attachment_event r "attachment.analysis_failed" attachment_id
        [("task", .str request.task), ("reason", .str msg)] none) s.audit with
    | (.error _, audit) => (.unhandled, { s with audit := audit })
    | (.ok (), audit) =>
      (.http ⟨502, "Vision/OCR provider did not return a verified result", none⟩, { s with audit := audit })
  | .error (.other _) => (.unhandled, s)
  | .ok result =>
    D.finish r (attachment_event r "attachment.analyzed" attachment_id
        [("task", .str result.task), ("provider", .str result.provider), ("model", .str result.model),
          ("observed_at", .str result.observed_at),
          ("external_processing_consent", .bool request.allow_external_processing),
          ("sha256", .str record.sha256)] (some r.request_id))
      "analyze" 200 (.analysis attachment_id result) s

def analyze_attachment (r : Request) (attachment_id : String) (request : AnalysisRequest) (http : Http)
    (utc_now : DateTime) (s : State D) : Served D :=
  match D.vision with
  | none => ⟨.http ⟨503, "Vision/OCR provider is not configured", none⟩, none, s⟩
  | some vision =>
    match D.check_limit .analyze r s with
    | (.error e, s) => ⟨.http e, none, s⟩
    | (.ok (), s) =>
      match D.attachments.read_content D.world r.identity attachment_id s.attachments with
      | .error (.attachmentNotFound _) => ⟨.http ⟨404, "attachment was not found", none⟩, none, s⟩
      | .error (.attachmentError _) => ⟨.http ⟨503, "attachment content is unavailable", none⟩, none, s⟩
      | .error _ => ⟨.unhandled, none, s⟩
      | .ok (record, data) =>
        let answer := vision.analyze http record data request.task request.prompt
          request.allow_external_processing utc_now.isoformat
        let answered := D.analyzed r attachment_id request record answer.1 s
        ⟨answered.1, answer.2, answered.2⟩

def purge_expired (now : DateTime) (s : State D) : Outcome × State D :=
  let purged := D.attachments.purge_expired D.world now s.attachments
  let s := { s with attachments := purged.2 }
  match purged.1 with
  | .error _ => (.unhandled, s)
  | .ok records => (.response 200 (.purged records), s)

def handle (r : Request) (s : State D) : Served D :=
  match r.operation with
  | .list_attachments => ⟨D.list_attachments r s, none, s⟩
  | .upload_attachment filename content_type image decode scan utc_now =>
    let served := D.upload_attachment r filename content_type image decode scan utc_now s
    ⟨served.1, none, served.2⟩
  | .get_attachment attachment_id => ⟨D.get_attachment r attachment_id s, none, s⟩
  | .get_attachment_content attachment_id => ⟨D.get_attachment_content r attachment_id s, none, s⟩
  | .delete_attachment attachment_id =>
    let served := D.delete_attachment r attachment_id s
    ⟨served.1, none, served.2⟩
  | .analyze_attachment attachment_id request http utc_now =>
    D.analyze_attachment r attachment_id request http utc_now s
  | .purge_expired now =>
    let served := D.purge_expired now s
    ⟨served.1, none, served.2⟩

end Deployment

/-- A request that was served. -/
structure Exchange where
  request : Request
  outcome : Outcome
  sent : Option Outgoing

section Run

variable (D : Deployment)

def after (requests : List Request) (s : State D) : State D :=
  requests.foldl (fun s r => (D.handle r s).state) s

def trace : List Request → State D → List Exchange
  | [], _ => []
  | r :: requests, s => ⟨r, (D.handle r s).outcome, (D.handle r s).sent⟩ :: trace requests (D.handle r s).state

end Run

end EnterpriseCopilot.Api
