import EnterpriseCopilot.Approval.Service

/-! What each call of the service issues and returns, whatever it is answered. -/

namespace EnterpriseCopilot.Approval

open EnterpriseCopilot.Lib EnterpriseCopilot.Python EnterpriseCopilot.Runtime

/-- A decision that a person made. -/
def Final : Cmd → Prop
  | .decide _ _ status _ _ _ => status ≠ .expired
  | _ => False

def NoFinal (log : Log) : Prop := ∀ x ∈ log, ¬ Final x.1

section Local

variable (W : World)

/-- Who decides, and what is written. -/
def Deciding (call : Call) (log : Log) (id : String) (scope : Scope) (approver : Option String)
    (decided_at : Instant) (hash : Option String) : ApprovalStatus → Prop
  | .approved => ∃ a pre record, ∃ token : Token, call = .approve a id ∧
      a.role ∈ ["admin", "manager"] ∧ scope = .of a ∧ approver = some a.user_id ∧
      hash = some (_hash_token W token.text) ∧ ⟨.get id scope, .ok (some record)⟩ ∈ pre ∧
      log = pre ++ [⟨.token_urlsafe, token⟩] ++ [⟨.now, decided_at⟩]
  | .rejected => ∃ a, call = .reject a id ∧ a.role ∈ ["admin", "manager"] ∧ scope = .of a ∧
      approver = some a.user_id ∧ hash = none
  | .expired => approver = none ∧ hash = none
  | .pending => False

/-- A new record is what its request says. -/
def Creating (call : Call) (record : ApprovalRecord) : Prop :=
  ∃ tool_name arguments risk key ttl canonical,
    call = .request record.requester tool_name arguments risk key ttl ∧
    record.tool_name = tool_name ∧
    _arguments_digest W arguments = .ok (canonical, record.arguments_hash) ∧
    W.codec.loads canonical = .ok record.arguments ∧ record.status = .pending

/-- The record comes from a read of the approval, or from its expiry after the read. -/
def Seen (log : Log) (id : String) (scope : Scope) (record : ApprovalRecord) : Prop :=
  ∃ found, ⟨.get id scope, .ok (some found)⟩ ∈ log ∧ (record = found ∨ ∃ id' scope' decided_at,
    ⟨.decide id' scope' .expired none decided_at none, .ok (some record)⟩ ∈ log)

/-- What `verify` has compared before it asks for the hash. -/
def Checked (log : Log) (id : String) (scope : Scope) (tool_name : String) (arguments : Json) :
    Prop :=
  ∃ record canonical, Seen log id scope record ∧ record.status = .approved ∧
    record.tool_name = tool_name ∧
    _arguments_digest W arguments = .ok (canonical, record.arguments_hash)

/-- After a decision of a person nothing more is issued. -/
def Issues (call : Call) (log : Log) (c : Cmd) : Prop :=
  NoFinal log ∧ match c with
    | .decide id scope status approver decided_at hash =>
      Deciding W call log id scope approver decided_at hash status
    | .create record => Creating W call record
    | .token_hash id scope => ∃ identity token tool_name arguments,
      call = .verify identity id token tool_name arguments ∧ scope = .of identity ∧
        Checked W log id scope tool_name arguments
    | _ => True

def Returns : Call → Log → Except PyError Answer → Prop
  | .approve a id, log, o =>
    (∀ answer, o = .ok answer → ∃ pre decided_at hash record,
      log = pre ++ [⟨.decide id (.of a) .approved (some a.user_id) decided_at hash,
        .ok (some record)⟩]) ∧
    ∀ decided_at hash record, ⟨.decide id (.of a) .approved (some a.user_id) decided_at hash,
      .ok (some record)⟩ ∈ log → ∃ t : Token, ⟨.token_urlsafe, t⟩ ∈ log ∧
        hash = some (_hash_token W t.text) ∧ o = .ok (.approved record t.text)
  | .reject a id, log, o =>
    ∀ answer, o = .ok answer → ∃ pre decided_at record,
      log = pre ++ [⟨.decide id (.of a) .rejected (some a.user_id) decided_at none,
        .ok (some record)⟩]
  | .verify identity id token tool_name arguments, log, o =>
    o = .ok (.verified true) → ∃ pre, log = pre ++ [⟨.token_hash id (.of identity),
        some (_hash_token W token)⟩] ∧ Checked W pre id (.of identity) tool_name arguments
  | _, _, _ => True

end Local

section Sat

variable {W : World} {call : Call} {log : Log}

theorem NoFinal.snoc {c : Cmd} {r : Reply c} (h : NoFinal log) (hc : ¬ Final c) :
    NoFinal (log ++ [⟨c, r⟩]) := by
  intro x hx
  rcases List.mem_append.mp hx with hx | hx
  · exact h x hx
  · obtain rfl := List.mem_singleton.mp hx
    exact hc

theorem Seen.snoc {id : String} {scope : Scope} {record : ApprovalRecord}
    (h : Seen log id scope record) (x : (c : Cmd) × Reply c) : Seen (log ++ [x]) id scope record := by
  obtain ⟨found, hfound, h | ⟨id', scope', decided_at, h⟩⟩ := h
  · exact ⟨found, List.mem_append_left _ hfound, .inl h⟩
  · exact ⟨found, List.mem_append_left _ hfound, .inr ⟨id', scope', decided_at,
      List.mem_append_left _ h⟩⟩

theorem sat_expire_if_needed {α : Type} {id : String} {scope : Scope} {record : ApprovalRecord}
    {f : ApprovalRecord → Code α} {Q : Log → Except PyError α → Prop} (h : NoFinal log)
    (hseen : Seen log id scope record) (hraise : ∀ log e, NoFinal log → Q log (.error e))
    (hf : ∀ log record, NoFinal log → Seen log id scope record →
      Program.Sat (Issues W call) Q log (f record)) :
    Program.Sat (Issues W call) Q log ((ApprovalService._expire_if_needed record).bind f) := by
  unfold ApprovalService._expire_if_needed
  split
  · refine ⟨⟨h, trivial⟩, fun now => ?_⟩
    have h₁ := h.snoc (c := .now) (r := now) not_false
    have hseen₁ := hseen.snoc ⟨.now, now⟩
    simp only [Program.pure_eq, Program.pure_bind]
    split
    · exact hf _ _ h₁ hseen₁
    · refine ⟨⟨h₁, trivial⟩, fun decided_at => ?_⟩
      have h₂ := h₁.snoc (c := .now) (r := decided_at) not_false
      refine ⟨⟨h₂, rfl, rfl⟩, fun r => ?_⟩
      have h₃ := h₂.snoc (c := .decide record.id (.of record.requester) .expired none decided_at none)
        (r := r) fun hne => hne rfl
      cases r with
      | error e => exact hraise _ _ h₃
      | ok updated =>
        cases updated with
        | none => exact hf _ _ h₃ ((hseen₁.snoc _).snoc _)
        | some updated =>
          obtain ⟨found, hfound, _⟩ := (hseen₁.snoc ⟨.now, decided_at⟩).snoc ⟨.decide record.id
            (.of record.requester) .expired none decided_at none, .ok (some updated)⟩
          exact hf _ _ h₃ ⟨found, hfound, .inr ⟨_, _, _, List.mem_append_right _ (.head _)⟩⟩
  · exact hf _ _ h hseen

/-- `get`, whatever follows it. -/
theorem sat_get {α : Type} {identity : IdentityContext} {id : String} {f : ApprovalRecord → Code α}
    {Q : Log → Except PyError α → Prop} (h : NoFinal log)
    (hraise : ∀ log e, NoFinal log → Q log (.error e))
    (hf : ∀ log record, NoFinal log → Seen log id (.of identity) record →
      Program.Sat (Issues W call) Q log (f record)) :
    Program.Sat (Issues W call) Q log ((ApprovalService.get identity id).bind f) := by
  unfold ApprovalService.get
  cases hscope : _scope identity with
  | error e => exact hraise _ _ h
  | ok _ =>
    refine ⟨⟨h, trivial⟩, fun r => ?_⟩
    have h₁ := h.snoc (r := r) (c := .get id (.of identity)) not_false
    cases r with
    | error e => exact hraise _ _ h₁
    | ok found =>
      cases found with
      | none => exact hraise _ _ h₁
      | some record =>
        have hseen : Seen (log ++ [⟨.get id (.of identity), .ok (some record)⟩]) id (.of identity)
          record := ⟨record, List.mem_append_right _ (.head _), .inl rfl⟩
        exact sat_expire_if_needed h₁ hseen hraise hf

theorem returns_error {e : PyError} (h : NoFinal log) : Returns W call log (.error e) := by
  cases call with
  | approve a id =>
    refine ⟨fun _ ho => (by cases ho), fun _ _ _ hmem => absurd ?_ (h _ hmem)⟩
    exact fun hne => by cases hne
  | reject a id =>
    intro _ ho
    cases ho
  | verify identity id token tool_name arguments =>
    intro ho
    cases ho
  | _ => trivial

theorem noFinal_nil : NoFinal [] := fun _ h => (List.not_mem_nil h).elim

theorem role_of_decider {a : IdentityContext} {verb : String}
    (h : ApprovalService.decider a verb = .ok ()) : a.role ∈ ["admin", "manager"] := by
  obtain ⟨_, _, h⟩ := bind_ok h
  split at h
  · assumption
  · cases h

theorem sat_approve {a : IdentityContext} {id : String} :
    Program.Sat (Issues W (.approve a id)) (Returns W (.approve a id)) []
      (program W (.approve a id)) := by
  have h₀ := noFinal_nil
  simp only [program, ApprovalService.approve, Program.bind_eq, Program.bind_assoc]
  cases hguard : ApprovalService.decider a "approve" with
  | error e => exact returns_error h₀
  | ok _ =>
    have hrole := role_of_decider hguard
    refine sat_get h₀ (fun _ _ h => returns_error h) fun log record h hseen => ?_
    split
    · refine ⟨⟨h, trivial⟩, fun token => ?_⟩
      have h₁ := h.snoc (c := .token_urlsafe) (r := token) not_false
      refine ⟨⟨h₁, trivial⟩, fun decided_at => ?_⟩
      have h₂ := h₁.snoc (c := .now) (r := decided_at) not_false
      have htoken : (⟨.token_urlsafe, token⟩ : (c : Cmd) × Reply c) ∈
          log ++ [⟨.token_urlsafe, token⟩] ++ [⟨.now, decided_at⟩] := by simp
      obtain ⟨found, hfound, _⟩ := hseen
      refine ⟨⟨h₂, a, log, found, token, rfl, hrole, rfl, rfl, rfl, hfound, rfl⟩, fun r => ?_⟩
      have hlast : ∀ {r' decided_at' hash record}, (⟨.decide id (.of a) .approved (some a.user_id)
          decided_at' hash, .ok (some record)⟩ : (c : Cmd) × Reply c) ∈
            log ++ [⟨.token_urlsafe, token⟩] ++ [⟨.now, decided_at⟩] ++ [⟨.decide id (.of a) .approved
              (some a.user_id) decided_at (some (_hash_token W token.text)), r'⟩] →
          hash = some (_hash_token W token.text) ∧ r' = .ok (some record) := by
        intro r' decided_at' hash record hmem
        rcases List.mem_append.mp hmem with hmem | hmem
        · exact absurd (fun hne => by cases hne) (h₂ _ hmem)
        · cases List.mem_singleton.mp hmem
          exact ⟨rfl, rfl⟩
      cases r with
      | error e =>
        exact ⟨fun _ ho => (by cases ho), fun _ _ _ hmem => (by cases (hlast hmem).2)⟩
      | ok updated =>
        cases updated with
        | none =>
          exact ⟨fun _ ho => (by cases ho), fun _ _ _ hmem => (by cases (hlast hmem).2)⟩
        | some updated =>
          refine ⟨fun _ _ => ⟨_, decided_at, _, updated, rfl⟩, fun _ _ record' hmem => ?_⟩
          obtain ⟨rfl, hr⟩ := hlast hmem
          cases hr
          exact ⟨token, List.mem_append_left _ htoken, rfl, rfl⟩
    · exact returns_error h

theorem sat_reject {a : IdentityContext} {id : String} :
    Program.Sat (Issues W (.reject a id)) (Returns W (.reject a id)) []
      (program W (.reject a id)) := by
  have h₀ := noFinal_nil
  simp only [program, ApprovalService.reject, Program.bind_eq, Program.bind_assoc]
  cases hguard : ApprovalService.decider a "reject" with
  | error e => exact returns_error h₀
  | ok _ =>
    have hrole := role_of_decider hguard
    refine sat_get h₀ (fun _ _ h => returns_error h) fun log record h _ => ?_
    split
    · refine ⟨⟨h, trivial⟩, fun decided_at => ?_⟩
      have h₁ := h.snoc (c := .now) (r := decided_at) not_false
      refine ⟨⟨h₁, a, rfl, hrole, rfl, rfl, rfl⟩, fun r => ?_⟩
      cases r with
      | error e => exact fun _ ho => (by cases ho)
      | ok updated =>
        cases updated with
        | none => exact fun _ ho => (by cases ho)
        | some updated => exact fun _ _ => ⟨_, decided_at, updated, rfl⟩
    · exact returns_error h

theorem sat_verify {identity : IdentityContext} {id token tool_name : String} {arguments : Json} :
    Program.Sat (Issues W (.verify identity id token tool_name arguments))
      (Returns W (.verify identity id token tool_name arguments)) []
      (program W (.verify identity id token tool_name arguments)) := by
  simp only [program, ApprovalService.verify, Program.bind_eq, Program.bind_assoc]
  refine sat_get noFinal_nil (fun _ _ h => returns_error h) fun log record h hseen => ?_
  split
  · exact fun ho => (by cases ho)
  · rename_i hrecord
    simp only [Bool.or_eq_true, decide_eq_true_eq, not_or, not_not] at hrecord
    cases hdigest : _arguments_digest W arguments with
    | error e => exact returns_error h
    | ok x =>
      obtain ⟨canonical, digest⟩ := x
      simp only [Program.ofExcept_ok, Program.pure_bind]
      split
      · exact fun ho => (by cases ho)
      · rename_i hhash
        have hchecked : Checked W log id (.of identity) tool_name arguments :=
          ⟨record, canonical, hseen, hrecord.1, hrecord.2, by rw [not_not.mp hhash, hdigest]⟩
        refine ⟨⟨h, identity, token, tool_name, arguments, rfl, rfl, hchecked⟩, fun r => ?_⟩
        cases r with
        | none => exact fun ho => (by cases ho)
        | some hash =>
          intro ho
          have hsame : (hash == _hash_token W token) = true :=
            Answer.verified.inj (Except.ok.inj ho)
          refine ⟨log, ?_, hchecked⟩
          rw [eq_of_beq hsame]

theorem sat_request_new {requester : IdentityContext} {tool_name : String} {arguments : Json}
    {risk : ToolRisk} {key : Option String} {ttl : Int} (h : NoFinal log) :
    Program.Sat (Issues W (.request requester tool_name arguments risk key ttl))
      (Returns W (.request requester tool_name arguments risk key ttl)) log
      ((ApprovalService.request_new W requester tool_name arguments risk key ttl).bind
        fun record => .pure (.record record)) := by
  unfold ApprovalService.request_new
  cases hdigest : _arguments_digest W arguments with
  | error e => exact returns_error h
  | ok x =>
    obtain ⟨canonical, digest⟩ := x
    refine ⟨⟨h, trivial⟩, fun now => ?_⟩
    have h₁ := h.snoc (c := .now) (r := now) not_false
    refine ⟨⟨h₁, trivial⟩, fun uuid => ?_⟩
    have h₂ := h₁.snoc (c := .uuid4) (r := uuid) not_false
    cases hloads : W.codec.loads canonical with
    | error e => exact returns_error h₂
    | ok stored =>
      cases later now ttl with
      | error e => exact returns_error h₂
      | ok expires_at =>
        refine ⟨⟨h₂, tool_name, arguments, risk, key, ttl, canonical, rfl, rfl, hdigest, hloads,
          rfl⟩, fun r => ?_⟩
        cases r <;> trivial

theorem sat_request {requester : IdentityContext} {tool_name : String} {arguments : Json}
    {risk : ToolRisk} {key : Option String} {ttl : Int} :
    Program.Sat (Issues W (.request requester tool_name arguments risk key ttl))
      (Returns W (.request requester tool_name arguments risk key ttl)) []
      (program W (.request requester tool_name arguments risk key ttl)) := by
  simp only [program, ApprovalService.request, Program.bind_eq, Program.bind_assoc]
  cases ApprovalService.check requester tool_name risk key ttl with
  | error e => exact returns_error noFinal_nil
  | ok _ =>
    simp only [Program.ofExcept_ok, Program.pure_bind]
    split
    · exact sat_request_new noFinal_nil
    · rename_i key' _
      refine ⟨⟨noFinal_nil, trivial⟩, fun r => ?_⟩
      have h₁ := noFinal_nil.snoc (c := .find_idempotent (.of requester) requester.user_id key')
        (r := r) not_false
      cases r with
      | error e => exact returns_error h₁
      | ok existing =>
        cases existing with
        | none => exact sat_request_new h₁
        | some existing => trivial

theorem sat_count {α : Type} {records : List ApprovalRecord} {f : Nat → Code α}
    {Q : Log → Except PyError α → Prop} (h : NoFinal log)
    (hf : ∀ log n, NoFinal log → Program.Sat (Issues W call) Q log (f n)) :
    Program.Sat (Issues W call) Q log ((ApprovalService.count records).bind f) := by
  induction records generalizing log f with
  | nil => exact hf _ _ h
  | cons record records ih =>
    refine ⟨⟨h, trivial⟩, fun now => ?_⟩
    have h₁ := h.snoc (c := .now) (r := now) not_false
    simp only [Program.pure_eq, Program.pure_bind, Program.bind_eq, Program.bind_assoc]
    exact ih h₁ fun log n hlog => hf _ _ hlog

/-- Every call issues and returns what is said above. -/
theorem program_sat (call : Call) :
    Program.Sat (Issues W call) (Returns W call) [] (program W call) := by
  cases call with
  | request requester tool_name arguments risk key ttl => exact sat_request
  | approve a id => exact sat_approve
  | reject a id => exact sat_reject
  | verify identity id token tool_name arguments => exact sat_verify
  | get identity id =>
    exact sat_get noFinal_nil (fun _ _ h => returns_error h) fun _ _ _ _ => trivial
  | list identity status =>
    simp only [program, ApprovalService.list, Program.bind_eq, Program.bind_assoc]
    cases _scope identity with
    | error e => trivial
    | ok _ =>
      refine ⟨⟨noFinal_nil, trivial⟩, fun r => ?_⟩
      cases r <;> trivial
  | pending_count identity =>
    simp only [program, ApprovalService.pending_count, ApprovalService.list, Program.bind_eq,
      Program.bind_assoc]
    cases _scope identity with
    | error e => trivial
    | ok _ =>
      refine ⟨⟨noFinal_nil, trivial⟩, fun r => ?_⟩
      have h₁ := noFinal_nil.snoc (c := .list (.of identity) (some .pending)) (r := r) not_false
      cases r with
      | error e => trivial
      | ok records => exact sat_count h₁ fun _ _ _ => trivial

end Sat

end EnterpriseCopilot.Approval
