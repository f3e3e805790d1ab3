import EnterpriseCopilot.Api.ApprovalCalls
import EnterpriseCopilot.Approval.Races

/-! The audit trail of the approvals, over every interleaving of the requests. -/

namespace EnterpriseCopilot.Api.Approvals

open EnterpriseCopilot.Lib EnterpriseCopilot.Python EnterpriseCopilot.Runtime
open EnterpriseCopilot.Approval (ApprovalRecord ApprovalStatus Backend Instant Row Scope _from_row _hash_token)

section Served

variable (D : Deployment) {es : List Event} {e : Event}

/-- What the approval service does in an event. -/
def service_event : Event → Option Approval.Event
  | .did i call (.service c) r _ => some (.did i (D.service_call call) c r none)
  | _ => none

def served (es : List Event) : List Approval.Event := es.filterMap (service_event D)

variable {D}

theorem served_snoc_service {i : Nat} {call : Call} {c : Approval.Cmd} {r : Approval.Reply c}
    {out : Option (Except PyError Response)} : served D (es ++ [.did i call (.service c) r out]) =
      served D es ++ [.did i (D.service_call call) c r none] := by
  simp [served, service_event, List.filterMap_append]

theorem served_snoc_other (h : service_event D e = none) : served D (es ++ [e]) = served D es := by
  simp [served, h, List.filterMap_append]

theorem mem_served {i : Nat} {call' : Approval.Call} {c : Approval.Cmd} {r : Approval.Reply c}
    {out' : Option (Except PyError Approval.Answer)} (h : .did i call' c r out' ∈ served D es) :
    ∃ call out, D.service_call call = call' ∧ .did i call (.service c) r out ∈ es := by
  obtain ⟨e, he, heq⟩ := List.mem_filterMap.mp h
  unfold service_event at heq
  split at heq
  · simp only [Option.some.injEq, Pool.Event.did.injEq] at heq
    obtain ⟨rfl, rfl, rfl, hr, rfl⟩ := heq
    cases hr
    exact ⟨_, _, rfl, he⟩
  · cases heq

theorem served_of_did {i : Nat} {call : Call} {c : Approval.Cmd} {r : Approval.Reply c}
    {out : Option (Except PyError Response)} (h : .did i call (.service c) r out ∈ es) :
    .did i (D.service_call call) c r none ∈ served D es :=
  List.mem_filterMap.mpr ⟨_, h, rfl⟩

theorem approve_of_call {call : Call} {a : IdentityContext} {id : String}
    (h : D.service_call call = .approve a id) : ∃ request_id, call = .approve_approval a id request_id := by
  cases call with
  | approve_approval a' id' request_id =>
    cases h
    exact ⟨request_id, rfl⟩
  | create_approval identity request request_id =>
    simp only [Deployment.service_call] at h
    split at h <;> cases h
  | _ => cases h

theorem reject_of_call {call : Call} {a : IdentityContext} {id : String}
    (h : D.service_call call = .reject a id) : ∃ reason request_id, call = .reject_approval a id reason request_id := by
  cases call with
  | reject_approval a' id' reason request_id =>
    cases h
    exact ⟨reason, request_id, rfl⟩
  | create_approval identity request request_id =>
    simp only [Deployment.service_call] at h
    split at h <;> cases h
  | _ => cases h

end Served

section Rows

variable {b : Backend} {codec : Approval.Codec}

/-- The record was read from the row or written to it, and the request stays. -/
structure Names (row : Row) (record : ApprovalRecord) : Prop where
  id : row.request.id = record.id
  tool_name : row.request.tool_name = record.tool_name
  risk : row.request.risk = record.risk
  arguments_hash : row.request.arguments_hash = record.arguments_hash
  requester : row.request.requester = record.requester

theorem Names.of_row {row : Row} {record : ApprovalRecord} (h : _from_row codec row = .ok record) :
    Names row record := by
  unfold _from_row at h
  split at h
  · cases h
    exact ⟨rfl, rfl, rfl, rfl, rfl⟩
  · obtain ⟨_, _, h⟩ := bind_ok h
    cases h
    exact ⟨rfl, rfl, rfl, rfl, rfl⟩

theorem Names.later {row row' : Row} {record : ApprovalRecord} (h : Names row record) (hlater : row.Later row') :
    Names row' record := by
  obtain ⟨hrequest, _⟩ := hlater
  exact ⟨hrequest ▸ h.id, hrequest ▸ h.tool_name, hrequest ▸ h.risk, hrequest ▸ h.arguments_hash,
    hrequest ▸ h.requester⟩

variable (codec) in
/-- What an answer of the store says of the table from then on. -/
def Kept (t : Approval.Approvals b) : (c : Approval.Cmd) → Approval.Reply c → Prop
  | .create record, .ok () => ∃ row ∈ t.rows, Names row record
  | .find_idempotent scope _ _, .ok (some record) => ∃ row ∈ t.rows, Names row record ∧ row.request.scope = scope
  | .decide id scope status _ _ _, .ok (some record) => ∃ row ∈ t.rows, _from_row codec row = .ok record ∧
      row.request.id = id ∧ row.request.scope = scope ∧ row.status = status ∧ status ≠ .pending
  | _, _ => True

variable {t u : Approval.Approvals b} {W : Approval.World} {s s' : Approval.Desk b} {call : Approval.Call}
  {log : Approval.Log} {c : Approval.Cmd} {r : Approval.Reply c} {ch : Approval.Choice}

theorem Kept.later (h : Kept codec t c r) (hlater : ∀ row ∈ t.rows, ∃ row' ∈ u.rows, row.Later row') : Kept codec u c r := by
  unfold Kept at h ⊢
  split at h
  · obtain ⟨row, hrow, hnames⟩ := h
    obtain ⟨row', hrow', hl⟩ := hlater row hrow
    exact ⟨row', hrow', hnames.later hl⟩
  · obtain ⟨row, hrow, hnames, hscope⟩ := h
    obtain ⟨row', hrow', hl⟩ := hlater row hrow
    refine ⟨row', hrow', hnames.later hl, ?_⟩
    rw [hl.1, hscope]
  · obtain ⟨row, hrow, hfrom, hid, hscope, hstatus, hdone⟩ := h
    obtain ⟨row', hrow', hl⟩ := hlater row hrow
    obtain rfl := hl.eq (hstatus ▸ hdone)
    exact ⟨row', hrow', hfrom, hid, hscope, hstatus, hdone⟩
  · trivial

theorem kept_apply (hI : Approval.Issues W call log c) (h : s.apply W call c ch = (r, s')) : Kept W.codec s'.table c r := by
  cases c with
  | create record =>
    obtain ⟨_, e, rfl⟩ | ⟨arguments, rfl, _, hrows⟩ := Approval.apply_create h
    · trivial
    · refine ⟨record.row arguments, ?_, rfl, rfl, rfl, rfl, rfl⟩
      rw [hrows]
      exact List.mem_append_right _ (List.mem_singleton_self _)
  | find_idempotent scope user_id idempotency_key =>
    cases h
    unfold Approval.Approvals.find_idempotent
    split
    · trivial
    split
    · trivial
    · rename_i row hrow
      have hp := List.find?_some hrow
      simp only [Bool.and_eq_true, decide_eq_true_eq] at hp
      cases hfrom : _from_row W.codec row with
      | error e => trivial
      | ok record => exact ⟨row, List.mem_of_find?_eq_some hrow, .of_row hfrom, hp.1.1⟩
  | decide id scope status approver decided_at hash =>
    obtain ⟨_, rfl⟩ | ⟨row, _, hid, hscope, _, _, rfl, hrows⟩ := Approval.apply_decide h
    · trivial
    · cases hfrom : _from_row W.codec (row.decided b status approver decided_at hash) with
      | error e => trivial
      | ok record =>
        refine ⟨_, (hrows _).mpr (.inl rfl), hfrom, hid, hscope, rfl, ?_⟩
        rintro rfl
        exact hI.2
  | _ => trivial

end Rows

section Attests

variable {b : Backend} {D : Deployment} {t u : Approval.Approvals b} {e : AuditEvent} {row row' : Row}

/-- What an event says is so. -/
structure Attests (row : Row) (e : AuditEvent) : Prop where
  workspace : e.workspace_id = row.request.scope.workspace_id
  subject : [("approval_id", .str row.request.id), ("tenant_id", .str row.request.scope.tenant_id),
    ("tool", .str row.request.tool_name), ("risk", .str row.request.risk.value)] <+: e.payload
  kind : e.event_type = "approval.requested" ∧
      e.payload.get "arguments_hash" = .str row.request.arguments_hash ∨
    e.event_type = "approval.approved" ∧ row.status = .approved ∨
    e.event_type = "approval.rejected" ∧ row.status = .rejected

theorem Attests.later (h : Attests row e) (hlater : row.Later row') : Attests row' e := by
  obtain ⟨hrequest, hstatus⟩ := hlater
  refine ⟨hrequest ▸ h.workspace, hrequest ▸ h.subject, ?_⟩
  obtain hrequested | ⟨htype, happroved⟩ | ⟨htype, hrejected⟩ := h.kind
  · exact .inl (hrequest ▸ hrequested)
  · obtain rfl | ⟨hpending, _⟩ := hstatus
    · exact .inr (.inl ⟨htype, happroved⟩)
    · rw [happroved] at hpending
      cases hpending
  · obtain rfl | ⟨hpending, _⟩ := hstatus
    · exact .inr (.inr ⟨htype, hrejected⟩)
    · rw [hrejected] at hpending
      cases hpending

theorem attests_of_reports {event_type : String} {identity : IdentityContext} {record : ApprovalRecord} {more : Payload}
    (hnames : Names row record) (hscope : row.request.scope = .of identity)
    (h : Reports event_type identity record more e)
    (hkind : event_type = "approval.requested" ∧ more = [("arguments_hash", .str record.arguments_hash)] ∨
      event_type = "approval.approved" ∧ row.status = .approved ∨
      event_type = "approval.rejected" ∧ row.status = .rejected) : Attests row e := by
  obtain ⟨request_id, trace_uuid, created_at, rfl⟩ := h
  refine ⟨by rw [hscope]; rfl, ⟨more, ?_⟩, ?_⟩
  · rw [hscope, hnames.id, hnames.tool_name, hnames.risk]
    rfl
  · obtain ⟨rfl, rfl⟩ | hrest := hkind
    · refine .inl ⟨rfl, ?_⟩
      rw [hnames.arguments_hash]
      rfl
    · exact .inr hrest

/-- The event of a request, whose calls of the store are known. -/
theorem attested_of_announces {call : Call} {log : Log} (hann : Announces call (part log) e)
    (hkept : ∀ c r, ⟨.service c, r⟩ ∈ log → Kept D.world.codec t c r)
    (hmade : ∀ record, ⟨.service (.create record), .ok ()⟩ ∈ log → ∃ identity request request_id,
      call = .create_approval identity request request_id ∧ record.requester = identity) :
    ∃ row ∈ t.rows, Attests row e := by
  cases hann with
  | @requested identity request request_id _ record _ hobtained hreports =>
    obtain hcreated | ⟨key, hfound⟩ := hobtained
    · obtain ⟨row, hrow, hnames⟩ := hkept _ _ (mem_part.mp hcreated)
      obtain ⟨_, _, _, hcall, hrequester⟩ := hmade _ (mem_part.mp hcreated)
      cases hcall
      have hscope : row.request.scope = .of identity := by
        rw [Approval.Request.scope, hnames.requester, hrequester]
      exact ⟨row, hrow, attests_of_reports hnames hscope hreports (.inl ⟨rfl, rfl⟩)⟩
    · obtain ⟨row, hrow, hnames, hscope⟩ := hkept _ _ (mem_part.mp hfound)
      exact ⟨row, hrow, attests_of_reports hnames hscope hreports (.inl ⟨rfl, rfl⟩)⟩
  | @approved a id request_id _ decided_at hash record _ hdecided hreports =>
    obtain ⟨row, hrow, hfrom, _, hscope, hstatus, _⟩ := hkept _ _ (mem_part.mp hdecided)
    exact ⟨row, hrow, attests_of_reports (.of_row hfrom) hscope hreports (.inr (.inl ⟨rfl, hstatus⟩))⟩
  | @rejected a id reason request_id _ decided_at record _ hdecided hreports =>
    obtain ⟨row, hrow, hfrom, _, hscope, hstatus, _⟩ := hkept _ _ (mem_part.mp hdecided)
    exact ⟨row, hrow, attests_of_reports (.of_row hfrom) hscope hreports (.inr (.inr ⟨rfl, hstatus⟩))⟩

end Attests

section Rely

variable (D : Deployment) {b : Backend}

/-- The ledger of the service, and the events of the log. -/
structure Books (es : List Event) (s : Desk b) : Prop where
  ledger : Approval.Ledger D.world (served D es) s.service.table
  attested : ∀ e ∈ s.audit, ∃ row ∈ s.service.table.rows, Attests row e

/-- What an answer says from then on. -/
def Told (s : Desk b) (call : Call) : (c : Cmd) → Reply c → Prop
  | .service c, r => Kept D.world.codec s.service.table c r ∧ ∀ record, c = .create record →
      ∃ request request_id, call = .create_approval record.requester request request_id
  | .append e, .ok () => e ∈ s.audit
  | _, _ => True

variable {D} {es : List Event} {s s' : Desk b} {i : Nat} {call : Call} {log : Log} {c : Cmd} {r : Reply c}
  {ch : Choice} {out : Option (Except PyError Response)}

theorem create_of_call {requester : IdentityContext} {tool_name : String} {arguments : Json} {risk : ToolRisk}
    {key : Option String} {ttl : Int}
    (h : D.service_call call = .request requester tool_name arguments risk key ttl) :
    ∃ request request_id, call = .create_approval requester request request_id := by
  cases call with
  | create_approval identity request request_id =>
    simp only [Deployment.service_call] at h
    split at h
    · cases h
      exact ⟨request, request_id, rfl⟩
    · cases h
  | _ => cases h

theorem Books.still {e : Event} (h : Books D es s) (he : service_event D e = none) : Books D (es ++ [e]) s :=
  ⟨by rw [served_snoc_other he]; exact h.ledger, h.attested⟩

theorem Told.grow {call' : Call} {c' : Cmd} {r' : Reply c'} (h : Told D s call' c' r')
    (hlater : ∀ row ∈ s.service.table.rows, ∃ row' ∈ s'.service.table.rows, row.Later row')
    (haudit : ∀ e ∈ s.audit, e ∈ s'.audit) : Told D s' call' c' r' := by
  unfold Told at h ⊢
  split at h
  · exact ⟨h.1.later hlater, h.2⟩
  · exact haudit _ h
  · trivial

/-- A command of the service. -/
theorem books_service {c : Approval.Cmd} {r : Approval.Reply c} (h : Books D es s)
    (hI : Issues D call log (.service c)) (happly : s.apply D call (.service c) ch = (r, s')) :
    Books D (es ++ [.did i call (.service c) r out]) s' ∧ Told D s' call (.service c) r ∧
      ∀ {call' c' r'}, Told D s call' c' r' → Told D s' call' c' r' := by
  change ((s.service.apply D.world (D.service_call call) c ch.service).1,
    { s with service := (s.service.apply D.world (D.service_call call) c ch.service).2 }) = (r, s') at happly
  generalize hx : s.service.apply D.world (D.service_call call) c ch.service = x at happly
  obtain ⟨r', d⟩ := x
  cases happly
  have hlater := Approval.rows_later hI.2.1 hx
  refine ⟨⟨?_, fun e he => ?_⟩, ⟨kept_apply hI.2.1 hx, fun record hc => ?_⟩, fun ht => ht.grow hlater fun _ he => he⟩
  · rw [served_snoc_service]
    exact Approval.ledger_apply h.ledger hI.2.1 hx
  · obtain ⟨row, hrow, hattests⟩ := h.attested e he
    obtain ⟨row', hrow', hl⟩ := hlater row hrow
    exact ⟨row', hrow', hattests.later hl⟩
  · subst hc
    obtain ⟨_, _, _, _, _, _, hcall, _⟩ := hI.2.1.2
    exact create_of_call hcall

/-- An event that becomes part of the log. -/
theorem attested_append {e : AuditEvent} (h : Books D es s) (hI : Issues D call log (.append e))
    (hlog : ∀ x ∈ log, Told D s call x.1 x.2) :
    ∀ e' ∈ s.audit ++ [e], ∃ row ∈ s.service.table.rows, Attests row e' := by
  intro e' he'
  rcases List.mem_append.mp he' with he' | he'
  · exact h.attested e' he'
  · obtain rfl := List.mem_singleton.mp he'
    refine attested_of_announces hI.2 (fun c r hx => (hlog _ hx).1) fun record hx => ?_
    obtain ⟨request, request_id, hcall⟩ := (hlog _ hx).2 record rfl
    exact ⟨_, request, request_id, hcall, rfl⟩

theorem books_step (h : Books D es s) (hlog : ∀ x ∈ log, Told D s call x.1 x.2) (hI : Issues D call log c)
    (happly : s.apply D call c ch = (r, s')) :
    Books D (es ++ [.did i call c r out]) s' ∧ Told D s' call c r ∧
      ∀ {call' c' r'}, Told D s call' c' r' → Told D s' call' c' r' := by
  cases c with
  | service c => exact books_service h hI happly
  | uuid4 =>
    cases happly
    exact ⟨h.still rfl, trivial, id⟩
  | utc_now =>
    cases happly
    exact ⟨h.still rfl, trivial, id⟩
  | append e =>
    have hattested := attested_append h hI hlog
    have hsame : ∀ row ∈ s.service.table.rows, ∃ row' ∈ s.service.table.rows, row.Later row' :=
      fun row hrow => ⟨row, hrow, .refl row⟩
    unfold Desk.apply at happly
    dsimp only at happly
    split at happly
    · cases happly
      refine ⟨⟨(h.still rfl).ledger, hattested⟩, List.mem_append_right _ (List.mem_singleton_self _), fun ht => ?_⟩
      exact ht.grow hsame fun _ he => List.mem_append_left _ he
    · cases happly
      refine ⟨⟨(h.still rfl).ledger, hattested⟩, trivial, fun ht => ?_⟩
      exact ht.grow hsame fun _ he => List.mem_append_left _ he
    · cases happly
      exact ⟨h.still rfl, trivial, id⟩

/-- The books are right at every time, and what a request has been told stays true. -/
def rely (b : Backend) (D : Deployment) (G : State b → Action → Prop) : (pool b D).Rely G (Issues D) where
  inv es s := Books D es s
  known _ s call c r := Told D s call c r
  step _ _ h hlog hI _ _ happly := books_step h hlog hI happly
  quiet {_ _ e} he h := by
    refine ⟨h.still ?_, id⟩
    cases e with
    | did => exact he.elim
    | _ => rfl
  env h := ⟨⟨(h.still rfl).ledger, h.attested⟩, fun ht => ht.grow (fun row hrow => ⟨row, hrow, .refl row⟩) fun _ he => he⟩

end Rely

section Runs

variable {D : Deployment} {b : Backend} {clock : Instant} {G : State b → Action → Prop} {es : List Event} {s : State b}
  {id : String} {e : AuditEvent}

/-- The approval was given by a person of its scope who may give it, and this is its token. -/
structure Approved (W : Approval.World) (a : IdentityContext) (token : String) (row : Row) : Prop where
  status : row.status = .approved
  approver : row.approver_user_id = some a.user_id
  role : a.role ∈ ["admin", "manager"]
  scope : row.request.scope = .of a
  token_hash : row.token_hash = some (_hash_token W token)

/-- The event says that the approval was decided. -/
def Decides (id : String) (e : AuditEvent) : Prop :=
  (e.event_type = "approval.approved" ∨ e.event_type = "approval.rejected") ∧ e.payload.get "approval_id" = .str id

theorem holds_of_run (h : (pool b D).machine.Run G (.init ⟨⟨Table.empty, clock⟩, []⟩) es s) :
    (rely b D G).Holds (Returns D) es s := by
  have h0 : (rely b D G).inv [] ⟨⟨Table.empty, clock⟩, []⟩ :=
    ⟨Approval.ledger_empty, fun _ he => (List.not_mem_nil he).elim⟩
  exact (rely b D G).of_run program_sat h0 h

theorem told_of_run (h : (pool b D).machine.Run G (.init ⟨⟨Table.empty, clock⟩, []⟩) es s) {i : Nat} {call : Call}
    {c : Cmd} {r : Reply c} {out : Option (Except PyError Response)} (hd : .did i call c r out ∈ es) :
    Told D s.shared call c r := by
  refine h.invariant (I := fun es s => ∀ {i call c r out}, .did i call c r out ∈ es → Told D s.shared call c r)
    (by simp) ?_ hd
  intro es s a t x hr hg hs ih i call c r out hd
  cases Pool.step_cases hs with
  | start hi => exact ih (by simpa using hd)
  | crash hi => exact ih (by simpa using hd)
  | env => exact (ih (by simpa using hd)).grow (fun row hrow => ⟨row, hrow, .refl row⟩) fun _ he => he
  | @step j ch call₀ log c₀ k hj =>
    obtain ⟨hsat, hlog⟩ := (holds_of_run hr).live hj
    obtain ⟨_, hnew, hgrow⟩ := (rely b D G).step hg hj (holds_of_run hr).inv hlog hsat.1 rfl
    rcases List.mem_append.mp hd with hd | hd
    · exact hgrow (ih hd)
    · cases List.mem_singleton.mp hd
      exact hnew

/-- What a command says of the request that issued it. -/
theorem issued_of_run (h : (pool b D).machine.Run G (.init ⟨⟨Table.empty, clock⟩, []⟩) es s) {i : Nat} {call : Call}
    {c : Cmd} {r : Reply c} {out : Option (Except PyError Response)} (hd : .did i call c r out ∈ es) :
    ∃ log, Issues D call log c ∧ ∀ x ∈ log, ∃ out, .did i call x.1 x.2 out ∈ es := by
  obtain ⟨pre, post, heq⟩ := List.append_of_mem hd
  obtain ⟨u, ch, log, k, hu, _, hi, htraced, _, _⟩ := Pool.did_of_run program_sat h heq
  refine ⟨log, htraced.sat.1, fun x hx => (htraced.log x hx).imp fun _ hmem => ?_⟩
  rw [heq]
  exact List.mem_append_left _ hmem

theorem warranted_of_run (h : (pool b D).machine.Run G (.init ⟨⟨Table.empty, clock⟩, []⟩) es s) {row : Row}
    (hrow : row ∈ s.shared.service.table.rows) :
    Warranted D row.request.requester row.request.tool_name row.request.risk := by
  obtain ⟨i, call', record, arguments, out', _, hd', hrequest⟩ := (holds_of_run h).inv.ledger.made row hrow
  obtain ⟨call, out, _, hd⟩ := mem_served hd'
  obtain ⟨log, hissues, _⟩ := issued_of_run h hd
  rw [hrequest]
  exact hissues.2.2

/-- The decision that an event is recorded for. -/
theorem settles_of_append (h : (pool b D).machine.Run G (.init ⟨⟨Table.empty, clock⟩, []⟩) es s) {i : Nat} {call : Call}
    {r : Reply (.append e)} {out : Option (Except PyError Response)} (hd : .did i call (.append e) r out ∈ es)
    (hdec : Decides id e) : ∃ c r, .did i (D.service_call call) c r none ∈ served D es ∧
      Approval.Settles id (.did i (D.service_call call) c r none) := by
  obtain ⟨log, hissues, hlog⟩ := issued_of_run h hd
  obtain ⟨htype, hid⟩ := hdec
  have settles : ∀ {id' scope status approver decided_at hash record}, status ≠ .expired → record.id = id →
      ⟨.decide id' scope status approver decided_at hash, .ok (some record)⟩ ∈ part log →
      ∃ c r, .did i (D.service_call call) c r none ∈ served D es ∧
        Approval.Settles id (.did i (D.service_call call) c r none) := by
    intro id' scope status approver decided_at hash record hstatus hrecord hmem
    obtain ⟨out', hdecided⟩ := hlog _ (mem_part.mp hmem)
    obtain ⟨⟨row, _, hfrom, hrow, _⟩, _⟩ := told_of_run h hdecided
    refine ⟨_, _, served_of_did hdecided, ?_, hstatus⟩
    rw [← hrow, (Names.of_row hfrom).id, hrecord]
  cases hissues.2 with
  | requested _ hreports =>
    obtain ⟨_, _, _, rfl⟩ := hreports
    obtain htype | htype := htype <;> simp [approval_event] at htype
  | approved hdecided hreports =>
    obtain ⟨_, _, _, rfl⟩ := hreports
    exact settles (by simp) (Json.str.inj hid) hdecided
  | rejected hdecided hreports =>
    obtain ⟨_, _, _, rfl⟩ := hreports
    exact settles (by simp) (Json.str.inj hid) hdecided

/-- One decision of an approval was carried out. -/
theorem settles_unique (h : (pool b D).machine.Run G (.init ⟨⟨Table.empty, clock⟩, []⟩) es s) {x y : Approval.Event}
    (hx : x ∈ served D es) (hy : y ∈ served D es) (hsx : Approval.Settles id x) (hsy : Approval.Settles id y) : x = y := by
  by_contra hne
  have hs : Std.Symm fun x y : Approval.Event => ¬ (Approval.Settles id x ∧ Approval.Settles id y) :=
    ⟨fun _ _ hab hba => hab hba.symm⟩
  exact List.Pairwise.forall ((holds_of_run h).inv.ledger.once id) hx hy hne ⟨hsx, hsy⟩

/-- The events that requests have tried to record. -/
def appended : Event → Option AuditEvent
  | .did _ _ (.append e) _ _ => some e
  | _ => none

theorem appended_eq_some {x : Event} (h : appended x = some e) :
    ∃ i call r out, x = .did i call (.append e) r out := by
  unfold appended at h
  split at h
  · cases h
    exact ⟨_, _, _, _, rfl⟩
  · cases h

theorem audit_sublist (h : (pool b D).machine.Run G (.init ⟨⟨Table.empty, clock⟩, []⟩) es s) :
    s.shared.audit.Sublist (es.filterMap appended) := by
  refine h.invariant (I := fun es s => s.shared.audit.Sublist (es.filterMap appended)) .slnil ?_
  intro es s a t x _ _ hs ih
  rw [List.filterMap_append]
  have hkeep := ih.trans (List.sublist_append_left _ ([x].filterMap appended))
  cases Pool.step_cases hs with
  | @step i ch call log c k hi =>
    cases c with
    | append e =>
      simp only [pool, Desk.apply, Pool.State.set_shared]
      split
      · exact ih.append (.refl _)
      · exact ih.append (.refl _)
      · exact hkeep
    | _ => exact hkeep
  | _ => exact hkeep

/-- No two requests try to record a decision of one approval. -/
theorem decisions_apart (h : (pool b D).machine.Run G (.init ⟨⟨Table.empty, clock⟩, []⟩) es s) :
    (es.filterMap appended).Pairwise fun e e' => ∀ id, ¬ (Decides id e ∧ Decides id e') := by
  refine h.invariant (I := fun es _ => (es.filterMap appended).Pairwise fun e e' => ∀ id,
    ¬ (Decides id e ∧ Decides id e')) .nil ?_
  intro es s a t x hr hg hs ih
  rw [List.filterMap_append]
  refine List.pairwise_append.mpr ⟨ih, ?_, fun e he e' he' id => ?_⟩
  · cases hx : appended x <;> simp [hx]
  · rintro ⟨hdec, hdec'⟩
    obtain ⟨y, hy, hye⟩ := List.mem_filterMap.mp he
    obtain ⟨z, hz, hze⟩ := List.mem_filterMap.mp he'
    obtain rfl := List.mem_singleton.mp hz
    obtain ⟨j, call', r', out', rfl⟩ := appended_eq_some hye
    obtain ⟨i, call, r, out, rfl⟩ := appended_eq_some hze
    obtain ⟨c₁, r₁, hmem₁, hset₁⟩ := settles_of_append (hr.snoc hg hs) (List.mem_append_left _ hy) hdec
    obtain ⟨c₂, r₂, hmem₂, hset₂⟩ := settles_of_append (hr.snoc hg hs)
      (List.mem_append_right _ (List.mem_singleton_self _)) hdec'
    have hsame := settles_unique (hr.snoc hg hs) hmem₁ hmem₂ hset₁ hset₂
    simp only [Pool.Event.did.injEq] at hsame
    obtain ⟨rfl, _⟩ := hsame
    obtain ⟨u, ch, log, k, hu, _, hi, _, _⟩ := Pool.did_last (hr.snoc hg hs)
    have hlog := Pool.log_complete hu hi hy
    exact ((holds_of_run hu).live hi).1.1.1 _ hlog _ rfl

/-- A token that was handed out is that of an approval that was given. -/
theorem approved_of_run (h : (pool b D).machine.Run G (.init ⟨⟨Table.empty, clock⟩, []⟩) es s) {i : Nat}
    {a : IdentityContext} {request_id : Option String} {record : ApprovalRecord} {decided_at : Instant} {token : String}
    {out : Option (Except PyError Response)}
    (hd : .did i (.approve_approval a id request_id) (.service (.decide id (.of a) .approved (some a.user_id) decided_at (some (_hash_token D.world token))))
      (.ok (some record)) out ∈ es) :
    ∃ row ∈ s.shared.service.table.rows, row.request.id = id ∧ Names row record ∧ Approved D.world a token row := by
  obtain ⟨⟨row, hrow, hfrom, hid, hscope, hstatus, _⟩, _⟩ := told_of_run h hd
  refine ⟨row, hrow, hid, .of_row hfrom, ?_⟩
  have hlawful := (holds_of_run h).inv.ledger.lawful row hrow
  unfold Approval.Lawful at hlawful
  rw [hstatus] at hlawful
  obtain ⟨j, a', decided_at', hash, out', happrover, hrole, hscope', hhash, hmem⟩ := hlawful
  have hread : ((_from_row D.world.codec row).map some : Except PyError (Option ApprovalRecord)) = .ok (some record) := by
    rw [hfrom]
    rfl
  rw [hread, hid] at hmem
  have hsame := settles_unique h (served_of_did hd) hmem ⟨rfl, by simp⟩ ⟨rfl, by simp⟩
  simp only [Pool.Event.did.injEq] at hsame
  obtain ⟨_, hcall, hdecide, _⟩ := hsame
  cases hcall
  simp only [Approval.Cmd.decide.injEq, Option.some.injEq, true_and] at hdecide
  exact ⟨hstatus, happrover, hrole, hscope, by rw [hhash, hdecide.2]⟩

/-- Every approval is one that the policy asks for, every event of the log says what is so, no approval is decided twice
in the log, and a token is handed out only for an approval that was given, and that the log says was given. -/
structure Sound (D : Deployment) (es : List Event) (s : State b) : Prop where
  warranted : ∀ row ∈ s.shared.service.table.rows,
    Warranted D row.request.requester row.request.tool_name row.request.risk
  attested : ∀ e ∈ s.shared.audit, ∃ row ∈ s.shared.service.table.rows, Attests row e
  once : s.shared.audit.Pairwise fun e e' => ∀ id, ¬ (Decides id e ∧ Decides id e')
  handed_out : ∀ {i call c r payload token headers},
    .did i call c r (some (.ok (.approved payload token headers))) ∈ es →
      ∃ a request_id, call = .approve_approval a payload.id request_id ∧ ∃ row ∈ s.shared.service.table.rows,
        row.request.id = payload.id ∧ Approved D.world a token row ∧
          ∃ e ∈ s.shared.audit, e.event_type = "approval.approved" ∧ Attests row e

/-- However requests interleave, crash and lose what they append. -/
theorem trail_sound (D : Deployment) (b : Backend) (clock : Instant) (es : List Event) (s : State b)
    (h : (pool b D).machine.Run Machine.Free (.init ⟨⟨Table.empty, clock⟩, []⟩) es s) : Sound D es s := by
  refine ⟨fun row hrow => warranted_of_run h hrow, (holds_of_run h).inv.attested,
    (decisions_apart h).sublist (audit_sublist h), fun {i call c r payload token headers} hd => ?_⟩
  obtain ⟨log, hreturns, hdid⟩ := Pool.returned_of_run program_sat h hd
  cases call with
  | approve_approval a id request_id =>
    obtain ⟨decided_at, record, e, hdecided, rfl, hreports, happended⟩ := hreturns.1 _ _ _ rfl
    obtain ⟨out, hdecided⟩ := (hdid _).mp hdecided
    obtain ⟨out', happended⟩ := (hdid _).mp happended
    obtain ⟨row, hrow, hid, hnames, happroved⟩ := approved_of_run h hdecided
    refine ⟨a, request_id, ?_, row, hrow, hnames.id, happroved, e, told_of_run h happended, ?_, ?_⟩
    · rw [show (as_dict record).id = id from hnames.id.symm.trans hid]
    · obtain ⟨_, _, _, rfl⟩ := hreports
      rfl
    · exact attests_of_reports hnames happroved.scope hreports (.inr (.inl ⟨rfl, happroved.status⟩))
  | list_approvals identity approval_status => exact absurd rfl (hreturns _ _ _)
  | create_approval identity request request_id => exact absurd rfl (hreturns.1 _ _ _)
  | reject_approval a id reason request_id => exact absurd rfl (hreturns.1 _ _ _)

end Runs

section Stored

variable {b : Backend} {W : Approval.World} {row : Row}

variable (W b) in
/-- The arguments are as the store writes them. -/
def Stored (row : Row) : Prop := ∃ arguments, b.encode W.codec arguments = .ok row.request.arguments

theorem stored_apply {s s' : Approval.Desk b} {call : Approval.Call} {c : Approval.Cmd} {r : Approval.Reply c}
    {ch : Approval.Choice} (hs : ∀ row ∈ s.table.rows, Stored b W row) (h : s.apply W call c ch = (r, s')) :
    ∀ row ∈ s'.table.rows, Stored b W row := by
  intro row hrow
  obtain ⟨old, hold, heq⟩ | ⟨record, arguments, _, henc, rfl⟩ := Approval.rows_origin h hrow
  · rw [Stored, ← heq]
    exact hs old hold
  · exact ⟨record.arguments, henc⟩

theorem readable_of_stored (hjson : Approval.RoundTrip W.codec) (h : Stored b W row) :
    ∃ record, _from_row W.codec row = .ok record := by
  obtain ⟨arguments, henc⟩ := h
  have htext : ∀ {text : String}, row.request.arguments = .text text → W.codec.dumps arguments = .ok text →
      ∃ record, _from_row W.codec row = .ok record := by
    intro text hrow hdumps
    obtain ⟨value, hloads, _⟩ := hjson arguments text hdumps
    unfold _from_row
    rw [hrow]
    dsimp only
    rw [hloads]
    exact ⟨_, rfl⟩
  cases b with
  | memory =>
    unfold _from_row
    rw [← Except.ok.inj henc]
    exact ⟨_, rfl⟩
  | sqlite =>
    cases hdumps : W.codec.dumps arguments with
    | error e =>
      simp [Approval.Backend.encode, hdumps, Except.map] at henc
    | ok text =>
      simp only [Approval.Backend.encode, hdumps, Except.map, Except.ok.injEq] at henc
      exact htext henc.symm hdumps
  | postgres =>
    cases hdumps : W.codec.dumps arguments with
    | error e =>
      simp [Approval.Backend.encode, hdumps, Except.map, Except.mapError] at henc
    | ok text =>
      simp only [Approval.Backend.encode, hdumps, Except.map, Except.mapError, Except.ok.injEq] at henc
      exact htext henc.symm hdumps

end Stored

section Complete

variable {D : Deployment} {b : Backend} {clock : Instant} {es : List Event} {s : State b} {row : Row}

/-- No process crashes, and the log takes every event. -/
def Calm : State b → Action → Prop
  | _, .crash _ => False
  | _, .step _ ch => ch.written = .stored
  | _, _ => True

instance : DecidableRel (Calm : State b → Action → Prop) := fun _ a =>
  match a with
  | .crash _ => .isFalse not_false
  | .step _ ch => inferInstanceAs (Decidable (ch.written = .stored))
  | .start _ _ => .isTrue trivial
  | .env _ => .isTrue trivial

theorem stored_of_run {G : State b → Action → Prop}
    (h : (pool b D).machine.Run G (.init ⟨⟨Table.empty, clock⟩, []⟩) es s) :
    ∀ row ∈ s.shared.service.table.rows, Stored b D.world row := by
  refine h.invariant (I := fun _ s => ∀ row ∈ s.shared.service.table.rows, Stored b D.world row)
    (fun _ hrow => (List.not_mem_nil hrow).elim) ?_
  intro es s a t x _ _ hs ih
  cases Pool.step_cases hs with
  | @step i ch call log c k hi =>
    cases c with
    | service c => exact @stored_apply b D.world s.shared.service _ (D.service_call call) c _ ch.service ih rfl
    | append e =>
      simp only [pool, Desk.apply, Pool.State.set_shared]
      split <;> exact ih
    | _ => exact ih
  | _ => exact ih

/-- What a calm run appends is in the log. -/
theorem recorded_of_run (h : (pool b D).machine.Run Calm (.init ⟨⟨Table.empty, clock⟩, []⟩) es s) {i : Nat} {call : Call}
    {e : AuditEvent} {r : Reply (.append e)} {out : Option (Except PyError Response)}
    (hd : .did i call (.append e) r out ∈ es) : e ∈ s.shared.audit := by
  obtain ⟨pre, post, heq⟩ := List.append_of_mem hd
  obtain ⟨u, ch, log, k, _, hcalm, _, _, hr, _⟩ := Pool.did_of_run program_sat h heq
  have hok : r = .ok () := by
    rw [hr]
    change ch.written = .stored at hcalm
    simp only [pool, Desk.apply, hcalm]
  subst hok
  exact told_of_run h hd

/-- In a calm run that has come to rest, what has begun has returned. -/
theorem returned_of_calm (h : (pool b D).machine.Run Calm (.init ⟨⟨Table.empty, clock⟩, []⟩) es s)
    (hended : ∀ i th, s.threads i ≠ .live th) {i : Nat} {call : Call} {c : Cmd} {r : Reply c}
    {out : Option (Except PyError Response)} (hd : .did i call c r out ∈ es) :
    ∃ log o, Returns D call log o ∧ ∀ x : (c : Cmd) × Reply c, x ∈ log ↔ ∃ out, .did i call x.1 x.2 out ∈ es := by
  obtain ⟨th, hth⟩ | ⟨c', r', o, hret⟩ | hcrash := Pool.fate_of_did h hd
  · exact absurd hth (hended i th)
  · obtain ⟨log, hreturns, hdid⟩ := Pool.returned_of_run program_sat h hret
    exact ⟨_, o, hreturns, hdid⟩
  · obtain ⟨pre, post, heq⟩ := List.append_of_mem hcrash
    obtain ⟨u, a, v, _, hcalm, hs, _⟩ := h.at_event heq
    generalize hx : Pool.Event.crashed i call = x at hs
    cases Pool.step_cases hs with
    | crash hi => exact hcalm.elim
    | _ => cases hx

/-- The event of a record, in a calm run. -/
theorem requested_of_run (h : (pool b D).machine.Run Calm (.init ⟨⟨Table.empty, clock⟩, []⟩) es s)
    (hended : ∀ i th, s.threads i ≠ .live th) (hrow : row ∈ s.shared.service.table.rows) :
    ∃ e ∈ s.shared.audit, e.event_type = "approval.requested" ∧ Attests row e := by
  obtain ⟨i, call', record, arguments, out', _, hd', hrequest⟩ := (holds_of_run h).inv.ledger.made row hrow
  obtain ⟨call, out, _, hd⟩ := mem_served hd'
  obtain ⟨request, request_id, rfl⟩ := (told_of_run h hd).2 record rfl
  obtain ⟨log, o, hreturns, hdid⟩ := returned_of_calm h hended hd
  obtain ⟨e, r, hreports, hmem⟩ := hreturns.2 record ((hdid _).mpr ⟨out, hd⟩)
  obtain ⟨out, hd⟩ := (hdid _).mp hmem
  have hnames : Names row record := by
    constructor <;> rw [hrequest] <;> rfl
  have hscope : row.request.scope = .of record.requester := by
    rw [hrequest]
    rfl
  refine ⟨e, recorded_of_run h hd, ?_, attests_of_reports hnames hscope hreports (.inl ⟨rfl, rfl⟩)⟩
  obtain ⟨_, _, _, rfl⟩ := hreports
  rfl

/-- The event of a decision, in a calm run. -/
theorem decided_of_run (hjson : Approval.RoundTrip D.world.codec)
    (h : (pool b D).machine.Run Calm (.init ⟨⟨Table.empty, clock⟩, []⟩) es s)
    (hended : ∀ i th, s.threads i ≠ .live th) (hrow : row ∈ s.shared.service.table.rows)
    (hdecided : row.status = .approved ∨ row.status = .rejected) :
    ∃ e ∈ s.shared.audit, Decides row.request.id e ∧ Attests row e := by
  obtain ⟨record, hfrom⟩ := readable_of_stored hjson (stored_of_run h row hrow)
  have hread : ((_from_row D.world.codec row).map some : Except PyError (Option ApprovalRecord)) = .ok (some record) := by
    rw [hfrom]
    rfl
  have hlawful := (holds_of_run h).inv.ledger.lawful row hrow
  unfold Approval.Lawful at hlawful
  obtain hstatus | hstatus := hdecided
  · rw [hstatus] at hlawful
    obtain ⟨i, a, decided_at, hash, out, _, _, hscope, _, hmem⟩ := hlawful
    rw [hread] at hmem
    obtain ⟨call, out, hcall, hd⟩ := mem_served hmem
    obtain ⟨request_id, rfl⟩ := approve_of_call hcall
    obtain ⟨log, o, hreturns, hdid⟩ := returned_of_calm h hended hd
    obtain ⟨e, r, hreports, hmem⟩ := hreturns.2 _ _ _ ((hdid _).mpr ⟨out, hd⟩)
    obtain ⟨out, hd⟩ := (hdid _).mp hmem
    refine ⟨e, recorded_of_run h hd, ?_,
      attests_of_reports (.of_row hfrom) hscope hreports (.inr (.inl ⟨rfl, hstatus⟩))⟩
    obtain ⟨_, _, _, rfl⟩ := hreports
    rw [(Names.of_row hfrom).id]
    exact ⟨.inl rfl, rfl⟩
  · rw [hstatus] at hlawful
    obtain ⟨_, i, a, decided_at, out, _, _, hscope, hmem⟩ := hlawful
    rw [hread] at hmem
    obtain ⟨call, out, hcall, hd⟩ := mem_served hmem
    obtain ⟨reason, request_id, rfl⟩ := reject_of_call hcall
    obtain ⟨log, o, hreturns, hdid⟩ := returned_of_calm h hended hd
    obtain ⟨e, r, hreports, hmem⟩ := hreturns.2 _ _ ((hdid _).mpr ⟨out, hd⟩)
    obtain ⟨out, hd⟩ := (hdid _).mp hmem
    refine ⟨e, recorded_of_run h hd, ?_,
      attests_of_reports (.of_row hfrom) hscope hreports (.inr (.inr ⟨rfl, hstatus⟩))⟩
    obtain ⟨_, _, _, rfl⟩ := hreports
    rw [(Names.of_row hfrom).id]
    exact ⟨.inr rfl, rfl⟩

/-- The log has the request of every approval, and of one that was approved or rejected that decision, once. -/
structure Complete (s : State b) : Prop where
  requested : ∀ row ∈ s.shared.service.table.rows,
    ∃ e ∈ s.shared.audit, e.event_type = "approval.requested" ∧ Attests row e
  decided : ∀ row ∈ s.shared.service.table.rows, row.status = .approved ∨ row.status = .rejected →
    ∃ before e after, s.shared.audit = before ++ e :: after ∧ Decides row.request.id e ∧ Attests row e ∧
      ∀ e' ∈ before ++ after, ¬ Decides row.request.id e'

/-- If no process crashes and the log takes every event, then the log is complete when the requests have returned. -/
theorem trail_complete (D : Deployment) (b : Backend) (clock : Instant) (es : List Event) (s : State b)
    (hjson : Approval.RoundTrip D.world.codec)
    (h : (pool b D).machine.Run Calm (.init ⟨⟨Table.empty, clock⟩, []⟩) es s)
    (hended : ∀ i th, s.threads i ≠ .live th) : Complete s := by
  refine ⟨fun row hrow => requested_of_run h hended hrow, fun row hrow hdecided => ?_⟩
  obtain ⟨e, he, hdecides, hattests⟩ := decided_of_run hjson h hended hrow hdecided
  obtain ⟨before, after, heq⟩ := List.append_of_mem he
  have hapart := (decisions_apart h).sublist (audit_sublist h)
  rw [heq] at hapart
  obtain ⟨_, hafter, hbefore⟩ := List.pairwise_append.mp hapart
  refine ⟨before, e, after, heq, hdecides, hattests, fun e' he' hdecides' => ?_⟩
  rcases List.mem_append.mp he' with he' | he'
  · exact hbefore e' he' e List.mem_cons_self _ ⟨hdecides', hdecides⟩
  · exact (List.pairwise_cons.mp hafter).1 e' he' _ ⟨hdecides, hdecides'⟩

end Complete

section Sample

def sample : Deployment where
  world := Approval.strictWorld
  definitions := [("erp.create_return", ⟨"erp.create_return", .write, "Create a return"⟩)]
  policy := {
    tools := [("erp.create_return", ⟨"erp.create_return", .write, "Create a return"⟩)]
    role_allowlist := [("support", ["erp.create_return"])] }

def sampleCreate : ApprovalCreateRequest where
  tool_name := "erp.create_return"
  arguments := [("order_id", .str "SO-1001")]
  named := by decide
  keyed := by simp
  timed := by decide

def steps (i n : Nat) (written : Written) : List Action :=
  List.replicate n (.step i ⟨Approval.sampleChoice, Approval.sampleId, "2026-01-05T09:00:00+00:00", written⟩)

/-- A request for an approval, and two people who have both read it as pending; `written` is what becomes of the event
of the first decision. -/
def sampleRace (written : Written) : List Action :=
  [.start 0 (.create_approval ⟨"u1", "w1", "t1", "support"⟩ sampleCreate (some "req-1"))] ++ steps 0 6 .stored ++
    [.start 1 (.approve_approval Approval.sampleManager Approval.sampleId.text (some "req-2")),
      .start 2 (.reject_approval ⟨"a1", "w1", "t1", "admin"⟩ Approval.sampleId.text none (some "req-3"))] ++
    steps 1 3 .stored ++ steps 2 2 .stored ++ steps 1 5 written ++ steps 2 2 .stored

def events {b : Backend} (s : State b) : List String := s.shared.audit.map AuditEvent.event_type

/-- The event of the approval is in the log, but its answer is lost: no token is handed out. -/
theorem trail_sound_sample : ∃ s es, (pool .sqlite sample).machine.exec Machine.Free (.init ⟨⟨Table.empty, 0⟩, []⟩)
      (sampleRace (.lost (.exception "OperationalError"))) = some (s, es) ∧
    events s = ["approval.requested", "approval.approved"] ∧ Sound sample es s := by
  obtain ⟨s, es, hrun, hevents⟩ : ∃ s es, (pool .sqlite sample).machine.exec Machine.Free
      (.init ⟨⟨Table.empty, 0⟩, []⟩) (sampleRace (.lost (.exception "OperationalError"))) = some (s, es) ∧
    events s = ["approval.requested", "approval.approved"] := ⟨_, _, rfl, rfl⟩
  exact ⟨s, es, hrun, hevents, trail_sound sample .sqlite 0 es s (Machine.run_of_exec _ hrun)⟩

theorem trail_complete_sample : ∃ s es, (pool .sqlite sample).machine.exec Calm (.init ⟨⟨Table.empty, 0⟩, []⟩)
      (sampleRace .stored) = some (s, es) ∧
    events s = ["approval.requested", "approval.approved"] ∧ Complete s := by
  obtain ⟨s, es, hrun, hevents, hthreads⟩ : ∃ s es, (pool .sqlite sample).machine.exec Calm
      (.init ⟨⟨Table.empty, 0⟩, []⟩) (sampleRace .stored) = some (s, es) ∧
    events s = ["approval.requested", "approval.approved"] ∧
    ∀ i, s.threads i = if i < 3 then .finished else .unused :=
    ⟨_, _, rfl, rfl, fun i => by obtain _ | _ | _ | i := i <;> rfl⟩
  refine ⟨s, es, hrun, hevents, ?_⟩
  refine trail_complete sample .sqlite 0 es s Approval.strict_roundTrip (Machine.run_of_exec _ hrun) fun i th hlive => ?_
  rw [hthreads] at hlive
  split at hlive <;> cases hlive

end Sample

end EnterpriseCopilot.Api.Approvals
