import EnterpriseCopilot.Api.Approvals

/-! What a request about an approval does and returns, whatever it is answered. -/

namespace EnterpriseCopilot.Api.Approvals

open EnterpriseCopilot.Lib EnterpriseCopilot.Python EnterpriseCopilot.Runtime
open EnterpriseCopilot.Approval (ApprovalRecord ApprovalStatus Backend Instant Row Scope _from_row _hash_token)

/-- The part of a call that the approval service does. -/
def part (log : Log) : Approval.Log := log.filterMap fun
  | ⟨.service c, r⟩ => some ⟨c, r⟩
  | _ => none

/-- Nothing has been recorded yet. -/
def Unannounced (log : Log) : Prop := ∀ x ∈ log, ∀ e, x.1 ≠ .append e

section Part

variable {log : Log}

theorem part_service {c : Approval.Cmd} {r : Approval.Reply c} :
    part (log ++ [⟨.service c, r⟩]) = part log ++ [⟨c, r⟩] := by
  simp [part, List.filterMap_append]

theorem part_other {c : Cmd} {r : Reply c} (h : ∀ c', c ≠ .service c') : part (log ++ [⟨c, r⟩]) = part log := by
  cases c with
  | service c' => exact absurd rfl (h c')
  | _ => simp [part, List.filterMap_append]

theorem mem_part {c : Approval.Cmd} {r : Approval.Reply c} : ⟨c, r⟩ ∈ part log ↔ ⟨.service c, r⟩ ∈ log := by
  unfold part
  rw [List.mem_filterMap]
  constructor
  · rintro ⟨⟨c', r'⟩, hx, heq⟩
    cases c' with
    | service c' =>
      cases heq
      exact hx
    | _ => cases heq
  · exact fun h => ⟨_, h, rfl⟩

theorem Unannounced.snoc {c : Cmd} {r : Reply c} (h : Unannounced log) (hc : ∀ e, c ≠ .append e) :
    Unannounced (log ++ [⟨c, r⟩]) := by
  intro x hx
  rcases List.mem_append.mp hx with hx | hx
  · exact h x hx
  · obtain rfl := List.mem_singleton.mp hx
    exact hc

end Part

section Service

variable {W : Approval.World} {a requester : IdentityContext} {id tool_name : String} {risk : ToolRisk}

/-- Where the record that a request returns comes from. -/
def Obtained (requester : IdentityContext) (log : Approval.Log) (record : ApprovalRecord) : Prop :=
  ⟨.create record, .ok ()⟩ ∈ log ∨
    ∃ key, ⟨.find_idempotent (.of requester) requester.user_id key, .ok (some record)⟩ ∈ log

/-- A new record is for the tool and the risk that it was asked for. -/
def Chosen (requester : IdentityContext) (tool_name : String) (risk : ToolRisk) : Approval.Cmd → Prop
  | .create record => record.requester = requester ∧ record.tool_name = tool_name ∧ record.risk = risk
  | _ => True

/-- A record was created exactly if it is new and returned. -/
def Requests (requester : IdentityContext) (log : Approval.Log) (o : Except PyError ApprovalRecord) : Prop :=
  (∀ record, o = .ok record → Obtained requester log record) ∧
    ∀ record, ⟨.create record, .ok ()⟩ ∈ log → o = .ok record

theorem requests_error {log : Approval.Log} {e : PyError} (h : ∀ record, ⟨.create record, .ok ()⟩ ∉ log) :
    Requests requester log (.error e) := ⟨fun _ ho => (by cases ho), fun record hmem => absurd hmem (h record)⟩

theorem sat_request_new {arguments : Json} {key : Option String} {ttl : Int} {log : Approval.Log}
    (h : ∀ record, ⟨.create record, .ok ()⟩ ∉ log) :
    Program.Sat (fun _ c => Chosen requester tool_name risk c) (Requests requester) log
      (Approval.ApprovalService.request_new W requester tool_name arguments risk key ttl) := by
  unfold Approval.ApprovalService.request_new
  cases Approval._arguments_digest W arguments with
  | error e => exact requests_error h
  | ok digest =>
    refine ⟨trivial, fun now => ⟨trivial, fun uuid => ?_⟩⟩
    have hdrawn : ∀ record, (⟨.create record, .ok ()⟩ : (c : Approval.Cmd) × Approval.Reply c) ∉
        log ++ [⟨.now, now⟩] ++ [⟨.uuid4, uuid⟩] := by
      simp [h]
    cases W.codec.loads digest.1 with
    | error e => exact requests_error hdrawn
    | ok stored =>
      cases Approval.later now ttl with
      | error e => exact requests_error hdrawn
      | ok expires_at =>
        refine ⟨⟨rfl, rfl, rfl⟩, fun r => ?_⟩
        cases r with
        | error e =>
          refine requests_error fun record hmem => ?_
          rcases List.mem_append.mp hmem with hmem | hmem
          · exact hdrawn record hmem
          · cases List.mem_singleton.mp hmem
        | ok _ =>
          refine ⟨fun record ho => ?_, fun record hmem => ?_⟩
          · cases ho
            exact .inl (List.mem_append_right _ (List.mem_singleton_self _))
          · rcases List.mem_append.mp hmem with hmem | hmem
            · exact absurd hmem (hdrawn record)
            · cases List.mem_singleton.mp hmem
              rfl

theorem sat_request {arguments : Json} {key : Option String} {ttl : Int} :
    Program.Sat (fun _ c => Chosen requester tool_name risk c) (Requests requester) []
      (Approval.ApprovalService.request W requester tool_name arguments risk key ttl) := by
  unfold Approval.ApprovalService.request
  cases Approval.ApprovalService.check requester tool_name risk key ttl with
  | error e => exact requests_error (by simp)
  | ok _ =>
    simp only [Program.bind_eq, Program.ofExcept_ok, Program.pure_bind]
    split
    · exact sat_request_new (by simp)
    · rename_i key' _
      refine ⟨trivial, fun r => ?_⟩
      cases r with
      | error e => exact requests_error (by simp)
      | ok existing =>
        cases existing with
        | none => exact sat_request_new (by simp)
        | some existing =>
          refine ⟨fun record ho => ?_, fun record hmem => by simp at hmem⟩
          cases ho
          exact .inr ⟨key', List.mem_append_right _ (List.mem_singleton_self _)⟩

/-- A rejection was carried out exactly if it returns, with the record that was read back. -/
def Rejects (a : IdentityContext) (id : String) (log : Approval.Log) (o : Except PyError ApprovalRecord) : Prop :=
  (∀ record, o = .ok record → ∃ decided_at,
    ⟨.decide id (.of a) .rejected (some a.user_id) decided_at none, .ok (some record)⟩ ∈ log) ∧
  ∀ decided_at record, ⟨.decide id (.of a) .rejected (some a.user_id) decided_at none, .ok (some record)⟩ ∈ log →
    o = .ok record

theorem rejects_error {log : Approval.Log} {e : PyError} (h : Approval.NoFinal log) : Rejects a id log (.error e) :=
  ⟨fun _ ho => (by cases ho), fun _ _ hmem => absurd (fun hne => by cases hne) (h _ hmem)⟩

theorem sat_reject : Program.Sat (Approval.Issues W (.reject a id)) (Rejects a id) []
    (Approval.ApprovalService.reject a id) := by
  have h₀ := Approval.noFinal_nil
  unfold Approval.ApprovalService.reject
  simp only [Program.bind_eq]
  cases hguard : Approval.ApprovalService.decider a "reject" with
  | error e => exact rejects_error h₀
  | ok _ =>
    have hrole := Approval.role_of_decider hguard
    refine Approval.sat_get h₀ (fun _ _ h => rejects_error h) fun log record h _ => ?_
    split
    · refine ⟨⟨h, trivial⟩, fun decided_at => ?_⟩
      have h₁ := h.snoc (c := .now) (r := decided_at) not_false
      refine ⟨⟨h₁, a, rfl, hrole, rfl, rfl, rfl⟩, fun r => ?_⟩
      have hlast : ∀ {decided_at' record'}, (⟨.decide id (.of a) .rejected (some a.user_id) decided_at' none,
          .ok (some record')⟩ : (c : Approval.Cmd) × Approval.Reply c) ∈ log ++ [⟨.now, decided_at⟩] ++
            [⟨.decide id (.of a) .rejected (some a.user_id) decided_at none, r⟩] → r = .ok (some record') := by
        intro decided_at' record' hmem
        rcases List.mem_append.mp hmem with hmem | hmem
        · exact absurd (fun hne => by cases hne) (h₁ _ hmem)
        · cases List.mem_singleton.mp hmem
          rfl
      cases r with
      | error e => exact ⟨fun _ ho => (by cases ho), fun _ _ hmem => (by cases hlast hmem)⟩
      | ok updated =>
        cases updated with
        | none => exact ⟨fun _ ho => (by cases ho), fun _ _ hmem => (by cases hlast hmem)⟩
        | some updated =>
          refine ⟨fun record' ho => ?_, fun _ _ hmem => ?_⟩
          · cases ho
            exact ⟨decided_at, List.mem_append_right _ (List.mem_singleton_self _)⟩
          · cases hlast hmem
            rfl
    · exact rejects_error h

end Service

section Programs

variable (D : Deployment)

/-- What every event says of a record. -/
def brief (record : ApprovalRecord) : Payload :=
  [("tool", .str record.tool_name), ("risk", .str record.risk.value)]

/-- The event of a request about a record. -/
def Reports (event_type : String) (identity : IdentityContext) (record : ApprovalRecord) (more : Payload)
    (e : AuditEvent) : Prop :=
  ∃ request_id trace_uuid created_at, e = approval_event event_type identity record.id
    (brief record ++ more) request_id trace_uuid created_at

/-- What an event is recorded for. -/
inductive Announces : Call → Approval.Log → AuditEvent → Prop
  | requested {identity request request_id log record e} : Obtained identity log record →
      Reports "approval.requested" identity record [("arguments_hash", .str record.arguments_hash)] e →
      Announces (.create_approval identity request request_id) log e
  | approved {a id request_id log decided_at hash record e} :
      ⟨.decide id (.of a) .approved (some a.user_id) decided_at hash, .ok (some record)⟩ ∈ log →
      Reports "approval.approved" a record [] e → Announces (.approve_approval a id request_id) log e
  | rejected {a id reason request_id log decided_at record e} :
      ⟨.decide id (.of a) .rejected (some a.user_id) decided_at none, .ok (some record)⟩ ∈ log →
      Reports "approval.rejected" a record [("reason", (reason.map Json.str).getD .null)] e →
      Announces (.reject_approval a id reason request_id) log e

/-- The tool is registered with the risk, and the policy asks the requester for an approval. -/
def Warranted (requester : IdentityContext) (tool_name : String) (risk : ToolRisk) : Prop :=
  ∃ name definition, D.definitions.lookup name = some definition ∧ definition.name = tool_name ∧
    definition.risk = risk ∧ risk ≠ .read ∧ (D.policy_decision requester tool_name).outcome = .approval_required

def Creates : Approval.Cmd → Prop
  | .create record => Warranted D record.requester record.tool_name record.risk
  | _ => True

/-- Nothing follows the event of a request. -/
def Issues (call : Call) (log : Log) (c : Cmd) : Prop :=
  Unannounced log ∧ match c with
    | .service c => Approval.Issues D.world (D.service_call call) (part log) c ∧ Creates D c
    | .append e => Announces call (part log) e
    | _ => True

/-- What was created or decided is recorded, and a token is handed out afterwards. -/
def Returns : Call → Log → Except PyError Response → Prop
  | .approve_approval a id _, log, o =>
    (∀ payload token headers, o = .ok (.approved payload token headers) → ∃ decided_at record e,
      ⟨.service (.decide id (.of a) .approved (some a.user_id) decided_at (some (_hash_token D.world token))),
        .ok (some record)⟩ ∈ log ∧ payload = as_dict record ∧ Reports "approval.approved" a record [] e ∧
        ⟨.append e, .ok ()⟩ ∈ log) ∧
    ∀ decided_at hash record, ⟨.service (.decide id (.of a) .approved (some a.user_id) decided_at hash),
      .ok (some record)⟩ ∈ log → ∃ e r, Reports "approval.approved" a record [] e ∧ ⟨.append e, r⟩ ∈ log
  | .reject_approval a id reason _, log, o => (∀ payload token headers, o ≠ .ok (.approved payload token headers)) ∧
    ∀ decided_at record, ⟨.service (.decide id (.of a) .rejected (some a.user_id) decided_at none),
      .ok (some record)⟩ ∈ log → ∃ e r, Reports "approval.rejected" a record
        [("reason", (reason.map Json.str).getD .null)] e ∧ ⟨.append e, r⟩ ∈ log
  | .create_approval identity _ _, log, o => (∀ payload token headers, o ≠ .ok (.approved payload token headers)) ∧
    ∀ record, ⟨.service (.create record), .ok ()⟩ ∈ log → ∃ e r, Reports "approval.requested" identity record
        [("arguments_hash", .str record.arguments_hash)] e ∧ ⟨.append e, r⟩ ∈ log
  | .list_approvals _ _, _, o => ∀ payload token headers, o ≠ .ok (.approved payload token headers)

variable {D} {call : Call} {log : Log} {Q : Log → Except PyError Response → Prop}

theorem unannounced_nil : Unannounced [] := fun _ h => (List.not_mem_nil h).elim

section Service

variable {α : Type} {p : Approval.Code α} {Q' : Approval.Log → Except PyError α → Prop}

/-- What holds of a call of the service holds of what the request does by it. -/
theorem sat_lift (hp : Program.Sat (fun log c => Approval.Issues D.world (D.service_call call) log c ∧ Creates D c)
      Q' [] p) :
    Program.Sat (Issues D call) (fun log o => Unannounced log ∧ Q' (part log) o) [] (Code.service p) := by
  have hpart : ∀ (log : Log) (c : Approval.Cmd) (r : Approval.Reply c),
      part (log ++ [⟨.service c, r⟩]) = part log ++ [⟨c, r⟩] := fun _ _ _ => part_service
  have hunannounced : ∀ (log : Log) (c : Approval.Cmd) (r : Approval.Reply c), Unannounced log →
      Unannounced (log ++ [⟨.service c, r⟩]) := fun _ _ _ h => h.snoc (by simp)
  have hnil : Program.Sat _ Q' (part []) p := hp
  refine (Program.Sat.lift hpart hunannounced hnil unannounced_nil).mono ?_ fun _ _ h => h
  rintro log c ⟨hlog, c, rfl, hissues⟩
  exact ⟨hlog, hissues⟩

variable (Q') in
/-- A call of the service, and what follows it. -/
theorem sat_service {f : Except PyError α → Code Response}
    (hp : Program.Sat (fun log c => Approval.Issues D.world (D.service_call call) log c ∧ Creates D c) Q' [] p)
    (hf : ∀ log o, Unannounced log → Q' (part log) o → Program.Sat (Issues D call) Q log (f o)) :
    Program.Sat (Issues D call) Q [] ((Code.service p).attempt.bind f) := by
  exact Program.Sat.bind (Program.Sat.attempt ((sat_lift hp).mono (fun _ _ h => h) fun log o h => hf log o h.1 h.2))

end Service

/-- The event of a request is the last that it does. -/
theorem sat_record {event_type : String} {identity : IdentityContext} {record : ApprovalRecord} (more : Payload)
    {request_id : Option String} {response : Response} (hlog : Unannounced log)
    (hann : ∀ e, Reports event_type identity record more e → Announces call (part log) e)
    (hend : ∀ log' e r o, (∀ x ∈ log, x ∈ log') → part log' = part log → Reports event_type identity record more e →
      (o = .ok response → r = .ok ()) → (∀ response', o = .ok response' → response' = response) →
      Q (log' ++ [⟨.append e, r⟩]) o) :
    Program.Sat (Issues D call) Q log ((_record_approval_event event_type identity record.id
      (brief record ++ more) request_id).bind
        fun _ => .pure response) := by
  have hrest : ∀ (log' : Log) (text : String), Unannounced log' → (∀ x ∈ log, x ∈ log') → part log' = part log →
      Program.Sat (Issues D call) Q log' ((do
        let trace_uuid ← Code.uuid4
        let created_at ← Code.utc_now
        Code.append (approval_event event_type identity record.id
          (brief record ++ more) text trace_uuid created_at)).bind
            fun _ => .pure response) := by
    intro log' text hlog' hsub hpart
    refine ⟨⟨hlog', trivial⟩, fun uuid => ⟨⟨hlog'.snoc (by simp), trivial⟩, fun now => ?_⟩⟩
    have hlog'' : Unannounced (log' ++ [⟨.uuid4, uuid⟩] ++ [⟨.utc_now, now⟩]) :=
      (hlog'.snoc (c := .uuid4) (r := uuid) (by simp)).snoc (c := .utc_now) (r := now) (by simp)
    have hpart'' : part (log' ++ [⟨.uuid4, uuid⟩] ++ [⟨.utc_now, now⟩]) = part log := by
      rw [part_other (c := .utc_now) (by simp), part_other (c := .uuid4) (by simp), hpart]
    have hsub'' : ∀ x ∈ log, x ∈ log' ++ [⟨.uuid4, uuid⟩] ++ [⟨.utc_now, now⟩] := fun x hx =>
      List.mem_append_left _ (List.mem_append_left _ (hsub x hx))
    refine ⟨⟨hlog'', ?_⟩, fun r => ?_⟩
    · rw [hpart'']
      exact hann _ ⟨text, uuid, now, rfl⟩
    · cases r with
      | error e => exact hend _ _ _ _ hsub'' hpart'' ⟨text, uuid, now, rfl⟩ (fun ho => by cases ho) fun _ ho => by cases ho
      | ok _ => exact hend _ _ _ _ hsub'' hpart'' ⟨text, uuid, now, rfl⟩ (fun _ => rfl) fun _ ho => by cases ho; rfl
  unfold _record_approval_event event_request_id
  split
  · exact hrest log _ hlog (fun _ hx => hx) rfl
  · refine ⟨⟨hlog, trivial⟩, fun uuid => ?_⟩
    exact hrest _ _ (hlog.snoc (c := .uuid4) (r := uuid) (by simp)) (fun _ hx => List.mem_append_left _ hx)
      (part_other (c := .uuid4) (by simp))

theorem not_approved_list {identity : IdentityContext} {status : Option ApprovalStatus}
    (hcall : D.service_call call = .list identity status)
    (hQ : ∀ log o, (∀ payload token headers, o ≠ .ok (.approved payload token headers)) → Q log o) :
    Program.Sat (Issues D call) Q [] ((Code.service (Approval.ApprovalService.list identity status)).bind fun records =>
      .pure (.items (records.map as_dict) records.length)) := by
  have hlist : Program.Sat (fun log c => Approval.Issues D.world (D.service_call call) log c ∧ Creates D c)
      (fun _ _ => True) [] (Approval.ApprovalService.list identity status) := by
    rw [hcall]
    unfold Approval.ApprovalService.list
    cases Approval._scope identity with
    | error e => trivial
    | ok _ =>
      refine ⟨⟨⟨Approval.noFinal_nil, trivial⟩, trivial⟩, fun r => ?_⟩
      cases r <;> trivial
  refine Program.Sat.bind ((sat_lift hlist).mono (fun _ _ h => h) fun log o _ => ?_)
  cases o with
  | error e => exact hQ _ _ fun _ _ _ ho => by cases ho
  | ok records => exact hQ _ _ fun _ _ _ ho => by cases ho

theorem sat_list {identity : IdentityContext} {approval_status : Option String} :
    Program.Sat (Issues D (.list_approvals identity approval_status))
      (Returns D (.list_approvals identity approval_status)) [] (list_approvals identity approval_status) := by
  unfold list_approvals
  split
  · rename_i text
    split
    · exact fun _ _ _ ho => by cases ho
    · rename_i status hstatus
      exact not_approved_list (by simp [Deployment.service_call, hstatus]) fun _ _ h => h
  · exact not_approved_list rfl fun _ _ h => h

/-- The request of a warranted approval. -/
theorem sat_request_approval {identity : IdentityContext} {request : ApprovalCreateRequest} {request_id : Option String}
    {definition : ToolDefinition} (hdefinition : D.tool_definition request.tool_name = some definition)
    (hwarranted : Warranted D identity definition.name definition.risk) :
    Program.Sat (Issues D (.create_approval identity request request_id))
      (Returns D (.create_approval identity request request_id)) []
      (D.request_approval identity definition request request_id) := by
  have hcall : D.service_call (.create_approval identity request request_id) = .request identity definition.name
      (.obj request.arguments) definition.risk request.idempotency_key request.ttl_seconds := by
    simp [Deployment.service_call, hdefinition]
  have hissued := Program.Sat.of_map (@Approval.sat_request D.world identity definition.name (.obj request.arguments)
    definition.risk request.idempotency_key request.ttl_seconds)
  unfold Deployment.request_approval
  refine sat_service (Requests identity) ?_ fun log o hlog hrequests => ?_
  · rw [hcall]
    refine (hissued.and sat_request).mono ?_ fun _ _ h => h.2
    rintro log c ⟨hc, hchosen⟩
    refine ⟨hc, ?_⟩
    cases c with
    | create record =>
      obtain ⟨hrequester, htool, hrisk⟩ := hchosen
      rw [Creates, hrequester, htool, hrisk]
      exact hwarranted
    | _ => trivial
  · obtain ⟨hforth, hback⟩ := hrequests
    split
    · exact ⟨fun _ _ _ ho => (by cases ho), fun _ hmem => (by cases hback _ (mem_part.mpr hmem))⟩
    · exact ⟨fun _ _ _ ho => (by cases ho), fun _ hmem => (by cases hback _ (mem_part.mpr hmem))⟩
    · exact ⟨fun _ _ _ ho => (by cases ho), fun _ hmem => (by cases hback _ (mem_part.mpr hmem))⟩
    · rename_i record
      refine sat_record [("arguments_hash", .str record.arguments_hash)] hlog
        (fun e he => .requested (hforth record rfl) he) fun log' e r o _ hpart he _ hresponse =>
          ⟨fun _ _ _ ho => (by cases hresponse _ ho), fun record' hmem => ?_⟩
      have hold := mem_part.mpr hmem
      rw [part_other (c := .append e) (by simp), hpart] at hold
      cases hback _ hold
      exact ⟨e, r, he, List.mem_append_right _ (List.mem_singleton_self _)⟩

theorem sat_create {identity : IdentityContext} {request : ApprovalCreateRequest} {request_id : Option String} :
    Program.Sat (Issues D (.create_approval identity request request_id))
      (Returns D (.create_approval identity request request_id)) []
      (D.create_approval identity request request_id) := by
  unfold Deployment.create_approval
  split
  · exact ⟨fun _ _ _ ho => (by cases ho), fun _ hmem => (List.not_mem_nil hmem).elim⟩
  rename_i definition hdefinition
  split
  · exact ⟨fun _ _ _ ho => (by cases ho), fun _ hmem => (List.not_mem_nil hmem).elim⟩
  rename_i hrisk
  split
  · exact ⟨fun _ _ _ ho => (by cases ho), fun _ hmem => (List.not_mem_nil hmem).elim⟩
  split
  · exact ⟨fun _ _ _ ho => (by cases ho), fun _ hmem => (List.not_mem_nil hmem).elim⟩
  rename_i hpolicy
  exact sat_request_approval hdefinition ⟨_, definition, hdefinition, rfl, rfl, hrisk, not_not.mp hpolicy⟩

theorem sat_decision_error {e : PyError}
    (hQ : ∀ o, (∀ payload token headers, o ≠ .ok (.approved payload token headers)) → Q log o) :
    Program.Sat (Issues D call) Q log (decision_error e) := by
  unfold decision_error
  split <;> exact hQ _ fun _ _ _ ho => by cases ho

theorem sat_approve {a : IdentityContext} {id : String} {request_id : Option String} :
    Program.Sat (Issues D (.approve_approval a id request_id)) (Returns D (.approve_approval a id request_id)) []
      (D.approve_approval a id request_id) := by
  have happroved := Program.Sat.of_map (@Approval.sat_approve D.world a id)
  unfold Deployment.approve_approval
  refine sat_service (fun log o => Approval.Returns D.world (.approve a id) log
    (o.map fun x => .approved x.1 x.2)) ?_ fun log o hlog hreturns => ?_
  · refine happroved.mono ?_ fun _ _ h => h
    intro log c hc
    refine ⟨hc, ?_⟩
    cases c with
    | create record => exact absurd hc.2 fun ⟨_, _, _, _, _, _, hne, _⟩ => by cases hne
    | _ => trivial
  · obtain ⟨hforth, hback⟩ := hreturns
    cases o with
    | error e =>
      refine sat_decision_error fun o ho => ⟨fun _ _ _ heq => absurd heq (ho _ _ _), fun _ _ _ hmem => ?_⟩
      obtain ⟨_, _, _, heq⟩ := hback _ _ _ (mem_part.mpr hmem)
      cases heq
    | ok x =>
      obtain ⟨record, token⟩ := x
      obtain ⟨pre, decided_at, hash, record', hlast⟩ := hforth _ rfl
      have hdecided : ⟨.decide id (.of a) .approved (some a.user_id) decided_at hash, .ok (some record')⟩ ∈ part log := by
        rw [hlast]
        exact List.mem_append_right _ (List.mem_singleton_self _)
      obtain ⟨t, _, rfl, heq⟩ := hback _ _ _ hdecided
      cases heq
      refine sat_record [] hlog (fun e he => .approved hdecided he)
        fun log' e r o hsub hpart he hok hresponse => ⟨fun payload token headers ho => ?_, fun _ hash' record' hmem => ?_⟩
      · cases hresponse _ ho
        refine ⟨decided_at, record, e, List.mem_append_left _ (hsub _ (mem_part.mp hdecided)), rfl, he, ?_⟩
        rw [hok ho]
        exact List.mem_append_right _ (List.mem_singleton_self _)
      · have hold := mem_part.mpr hmem
        rw [part_other (c := .append e) (by simp), hpart] at hold
        obtain ⟨_, _, _, heq⟩ := hback _ _ _ hold
        obtain ⟨rfl, _⟩ := Approval.Answer.approved.inj (Except.ok.inj heq)
        exact ⟨e, r, he, List.mem_append_right _ (List.mem_singleton_self _)⟩

theorem sat_rejection {a : IdentityContext} {id : String} {reason request_id : Option String} :
    Program.Sat (Issues D (.reject_approval a id reason request_id))
      (Returns D (.reject_approval a id reason request_id)) [] (reject_approval a id reason request_id) := by
  unfold reject_approval
  refine sat_service (Rejects a id) ?_ fun log o hlog hrejects => ?_
  · refine (sat_reject (W := D.world)).mono ?_ fun _ _ h => h
    intro log c hc
    refine ⟨hc, ?_⟩
    cases c with
    | create record => exact absurd hc.2 fun ⟨_, _, _, _, _, _, hne, _⟩ => by cases hne
    | _ => trivial
  · obtain ⟨hforth, hback⟩ := hrejects
    cases o with
    | error e =>
      refine sat_decision_error fun o ho => ⟨ho, fun _ _ hmem => ?_⟩
      cases hback _ _ (mem_part.mpr hmem)
    | ok record =>
      obtain ⟨decided_at, hdecided⟩ := hforth _ rfl
      refine sat_record [("reason", (reason.map Json.str).getD .null)] hlog (fun e he => .rejected hdecided he) fun log' e r o hsub hpart he hok hresponse =>
        ⟨fun _ _ _ ho => (by cases hresponse _ ho), fun _ record' hmem => ?_⟩
      have hold := mem_part.mpr hmem
      rw [part_other (c := .append e) (by simp), hpart] at hold
      cases hback _ _ hold
      exact ⟨e, r, he, List.mem_append_right _ (List.mem_singleton_self _)⟩

/-- Every request issues and returns what is said above. -/
theorem program_sat (call : Call) : Program.Sat (Issues D call) (Returns D call) [] (D.program call) := by
  cases call with
  | list_approvals identity approval_status => exact sat_list
  | create_approval identity request request_id => exact sat_create
  | approve_approval identity approval_id request_id => exact sat_approve
  | reject_approval identity approval_id reason request_id => exact sat_rejection

end Programs

end EnterpriseCopilot.Api.Approvals
