import EnterpriseCopilot.Approval.Refinement
import EnterpriseCopilot.Lib.Machine

/-! The same calls over a dictionary and over a table. -/

namespace EnterpriseCopilot.Approval

open EnterpriseCopilot.Lib EnterpriseCopilot.Python EnterpriseCopilot.Runtime

/-- Two outcomes of one call.  Lists are equal up to their order; an id that is in use is reported in
the words of the store. -/
inductive Same (e : Sql.Engine) : Except PyError Answer → Except PyError Answer → Prop
  | eq {o} : Same e o o
  | records {l l' : List ApprovalRecord} : l'.Perm l → Same e (.ok (.records l)) (.ok (.records l'))
  | duplicate : Same e (.error (.approvalError Backend.memory.duplicate)) (.error (.approvalError e.backend.duplicate))

structure CleanIdentity (e : Sql.Engine) (i : IdentityContext) : Prop where
  user : Clean e i.user_id
  workspace : Clean e i.workspace_id
  tenant : Clean e i.tenant_id
  role : Clean e i.role

theorem CleanIdentity.scope {e : Sql.Engine} {i : IdentityContext} (h : CleanIdentity e i) : CleanScope e (.of i) :=
  ⟨h.workspace, h.tenant⟩

/-- The texts of a call that become parameters. -/
def Call.Clean (e : Sql.Engine) : Call → Prop
  | .request requester tool_name _ _ idempotency_key _ =>
    CleanIdentity e requester ∧ Approval.Clean e tool_name ∧ ∀ key ∈ idempotency_key, Approval.Clean e key
  | .list identity _ | .pending_count identity => CleanIdentity e identity
  | .get identity approval_id | .verify identity approval_id _ _ _ => CleanIdentity e identity ∧ Approval.Clean e approval_id
  | .approve approver approval_id | .reject approver approval_id =>
    CleanIdentity e approver ∧ Approval.Clean e approval_id

/-- The programs end alike, and leave the same records. -/
abbrev Alike (e : Sql.Engine) (W : World) (p p' : Code Answer) (m : Approvals .memory)
    (d : Sql.ApprovalRequests) : Prop :=
  Program.Lockstep (Approvals.serve W) (Sql.ApprovalRequests.serve e W) (Same e) (Refines e W) p p' m d

section Calls

variable {e : Sql.Engine} {W : World} {m : Approvals .memory} {d : Sql.ApprovalRequests}
  {identity : IdentityContext} {approval_id : String}

theorem alike_pure {answer : Answer} (h : Refines e W m d) : Alike e W (.pure answer) (.pure answer) m d :=
  .pure .eq h

theorem alike_throw {error : PyError} (h : Refines e W m d) : Alike e W (.throw error) (.throw error) m d :=
  .throw .eq h

theorem hex_clean {n : Nat} (hex : Hex n) : Clean e hex.text := by
  intro _ hmem
  rw [Hex.text, String.toList_ofList] at hmem
  exact absurd (hex.digits _ hmem) (by decide)

theorem hash_token_clean (token : Token) : Clean e (_hash_token W token.text) := by
  unfold _hash_token
  split
  · intro _
    decide
  · exact hex_clean _

theorem from_row_identity {codec : Codec} {row : Row} {record : ApprovalRecord} (h : _from_row codec row = .ok record) :
    record.id = row.request.id ∧ record.requester = row.request.requester := by
  unfold _from_row at h
  split at h
  · cases h
    exact ⟨rfl, rfl⟩
  · obtain ⟨_, _, h⟩ := bind_ok h
    cases h
    exact ⟨rfl, rfl⟩

theorem alike_now {f : Instant → Code Answer} (hf : ∀ now, Alike e W (f now) (f now) m d) :
    Alike e W (Code.now.bind f) (Code.now.bind f) m d :=
  .cmd fun ch => hf ch.now

theorem alike_token {f : Token → Code Answer} (hf : ∀ token, Alike e W (f token) (f token) m d) :
    Alike e W (Code.token_urlsafe.bind f) (Code.token_urlsafe.bind f) m d :=
  .cmd fun ch => hf ch.token

theorem alike_uuid {f : Hex 32 → Code Answer} (hf : ∀ uuid, Alike e W (f uuid) (f uuid) m d) :
    Alike e W (Code.uuid4.bind f) (Code.uuid4.bind f) m d :=
  .cmd fun ch => hf ch.uuid

/-- A decision, whatever follows it. -/
theorem alike_decide {f : Option ApprovalRecord → Code Answer} {scope : Scope} {status : ApprovalStatus}
    {approver : Option String} {decided_at : Instant} {hash : Option String} (h : Refines e W m d)
    (hid : Clean e approval_id) (hscope : CleanScope e scope) (happrover : ∀ text ∈ approver, Clean e text)
    (hclean : ∀ text ∈ hash, Clean e text) (hstatus : status ≠ .pending) (hhash : truthy hash = hash)
    (hf : ∀ updated m' d', Refines e W m' d' → Alike e W (f updated) (f updated) m' d') :
    Alike e W ((Code.decide approval_id scope status approver decided_at hash).bind f)
      ((Code.decide approval_id scope status approver decided_at hash).bind f) m d := by
  obtain ⟨hreply, hnext⟩ := h.decide hid hscope happrover hclean hstatus hhash
  refine Program.Lockstep.cmd fun ch => ?_
  change Alike e W ((Program.ofExcept (m.decide W.codec approval_id scope status approver decided_at hash).1).bind f)
    ((Program.ofExcept (Sql.ApprovalRequests.decide e W.codec d approval_id scope status approver decided_at hash).1).bind f)
    _ _
  rw [hreply]
  cases (m.decide W.codec approval_id scope status approver decided_at hash).1 with
  | error error => exact alike_throw hnext
  | ok updated => exact hf updated _ _ hnext

theorem alike_get {f : ApprovalRecord → Code Answer} (h : Refines e W m d) (hidentity : CleanIdentity e identity)
    (hid : Clean e approval_id) (hf : ∀ record m' d', Refines e W m' d' → Alike e W (f record) (f record) m' d') :
    Alike e W ((ApprovalService.get identity approval_id).bind f) ((ApprovalService.get identity approval_id).bind f)
      m d := by
  unfold ApprovalService.get
  cases _scope identity with
  | error error => exact alike_throw h
  | ok _ =>
    refine Program.Lockstep.cmd fun ch => ?_
    dsimp only [Approvals.serve, Sql.ApprovalRequests.serve]
    rw [h.get hid hidentity.scope]
    cases hget : m.get W.codec approval_id (.of identity) with
    | error error => exact alike_throw h
    | ok found =>
      cases found with
      | none => exact alike_throw h
      | some record =>
        obtain ⟨row, _, hrow, hscope, hread⟩ := Approvals.row_of_get hget
        obtain ⟨hrecord, hrequester⟩ := from_row_identity hread
        simp only [Program.ofExcept_ok, Program.pure_bind]
        unfold ApprovalService._expire_if_needed
        split
        · simp only [Program.bind_eq, Program.bind_assoc]
          refine alike_now fun now => ?_
          simp only [Program.pure_eq]
          split
          · exact hf record m d h
          · simp only [Program.bind_assoc]
            refine alike_now fun decided_at => ?_
            rw [hrecord, hrow, hrequester, ← Request.scope, hscope]
            exact alike_decide h hid hidentity.scope (by simp) (by simp) (by decide) rfl
              fun updated m' d' h' => hf _ m' d' h'
        · exact hf record m d h

theorem alike_approve (h : Refines e W m d) (hidentity : CleanIdentity e identity) (hid : Clean e approval_id) :
    Alike e W (program W (.approve identity approval_id)) (program W (.approve identity approval_id)) m d := by
  simp only [program, ApprovalService.approve, Program.bind_eq, Program.bind_assoc]
  cases ApprovalService.decider identity "approve" with
  | error error => exact alike_throw h
  | ok _ =>
    refine alike_get h hidentity hid fun record m' d' h' => ?_
    split
    · simp only [Program.bind_assoc]
      refine alike_token fun token => alike_now fun decided_at => ?_
      refine alike_decide h' hid hidentity.scope ?_ ?_ (by decide) (truthy_hash token) fun updated m₂ d₂ h₂ => ?_
      · simpa using hidentity.user
      · simpa using hash_token_clean token
      · cases updated with
        | none => exact alike_throw h₂
        | some updated => exact alike_pure h₂
    · exact alike_throw h'

theorem alike_reject (h : Refines e W m d) (hidentity : CleanIdentity e identity) (hid : Clean e approval_id) :
    Alike e W (program W (.reject identity approval_id)) (program W (.reject identity approval_id)) m d := by
  simp only [program, ApprovalService.reject, Program.bind_eq, Program.bind_assoc]
  cases ApprovalService.decider identity "reject" with
  | error error => exact alike_throw h
  | ok _ =>
    refine alike_get h hidentity hid fun record m' d' h' => ?_
    split
    · simp only [Program.bind_assoc]
      refine alike_now fun decided_at => ?_
      refine alike_decide h' hid hidentity.scope ?_ (by simp) (by decide) rfl fun updated m₂ d₂ h₂ => ?_
      · simpa using hidentity.user
      · cases updated with
        | none => exact alike_throw h₂
        | some updated => exact alike_pure h₂
    · exact alike_throw h'

theorem alike_verify {token tool_name : String} {arguments : Json} (h : Refines e W m d)
    (hidentity : CleanIdentity e identity) (hid : Clean e approval_id) :
    Alike e W (program W (.verify identity approval_id token tool_name arguments))
      (program W (.verify identity approval_id token tool_name arguments)) m d := by
  simp only [program, ApprovalService.verify, Program.bind_eq, Program.bind_assoc]
  refine alike_get h hidentity hid fun record m' d' h' => ?_
  split
  · exact alike_pure h'
  · cases _arguments_digest W arguments with
    | error error => exact alike_throw h'
    | ok x =>
      obtain ⟨canonical, digest⟩ := x
      simp only [Program.ofExcept_ok, Program.pure_bind]
      split
      · exact alike_pure h'
      · refine Program.Lockstep.cmd fun ch => ?_
        dsimp only [Approvals.serve, Sql.ApprovalRequests.serve]
        rw [h'.token_hash]
        cases m'.token_hash approval_id (.of identity) <;> exact alike_pure h'

theorem alike_list {status : Option ApprovalStatus} (h : Refines e W m d) (hidentity : CleanIdentity e identity) :
    Alike e W (program W (.list identity status)) (program W (.list identity status)) m d := by
  simp only [program, ApprovalService.list, Program.bind_eq, Program.bind_assoc]
  cases _scope identity with
  | error error => exact alike_throw h
  | ok _ =>
    refine Program.Lockstep.cmd fun ch => ?_
    obtain ⟨records, records', hm, hd, hperm⟩ := h.list (e := e) hidentity.scope status
    dsimp only [Approvals.serve, Sql.ApprovalRequests.serve]
    rw [hm, hd]
    exact .pure (.records hperm) h

/-- A new request of a key that no row has. -/
theorem alike_request_new (h : Refines e W m d) (hjson : JsonLaws W.codec) {tool_name : String} {arguments : Json}
    {risk : ToolRisk} {key : Option String} {ttl_seconds : Int} (hidentity : CleanIdentity e identity)
    (htool : Clean e tool_name) (hkey : ∀ k ∈ key, Clean e k)
    (hfree : ∀ row ∈ m.rows, ∀ k ∈ key, row.request.key? ≠ some ⟨.of identity, identity.user_id, k⟩) :
    Alike e W ((ApprovalService.request_new W identity tool_name arguments risk key ttl_seconds).bind
        fun record => .pure (.record record))
      ((ApprovalService.request_new W identity tool_name arguments risk key ttl_seconds).bind
        fun record => .pure (.record record)) m d := by
  unfold ApprovalService.request_new
  cases hdigest : _arguments_digest W arguments with
  | error error => exact alike_throw h
  | ok x =>
    obtain ⟨canonical, digest⟩ := x
    obtain ⟨hdumps, rfl⟩ := digest_inv hdigest
    simp only [Program.bind_eq, Program.bind_assoc, Program.ofExcept_ok, Program.pure_bind]
    refine alike_now fun now => alike_uuid fun uuid => ?_
    cases hloads : W.codec.loads canonical with
    | error error => exact alike_throw h
    | ok stored =>
      cases later now ttl_seconds with
      | error error => exact alike_throw h
      | ok expires_at =>
        simp only [Program.ofExcept_ok, Program.pure_bind]
        refine Program.Lockstep.cmd fun _ => ?_
        dsimp only [Approvals.serve, Sql.ApprovalRequests.serve]
        generalize hrecord : ({ id := uuid.text, requester := identity, tool_name := tool_name, arguments := stored, arguments_hash := (W.sha256 canonical).text, risk := risk, idempotency_key := key, requested_at := now, expires_at := expires_at, status := .pending } : ApprovalRecord) = record
        have hclean : CleanRecord e record := by
          subst hrecord
          exact ⟨hex_clean _, hidentity.workspace, hidentity.tenant, hidentity.user, hidentity.role, htool, hex_clean _, hkey⟩
        have hloads' : W.codec.loads canonical = .ok record.arguments := by
          subst hrecord
          exact hloads
        have hfree' : ∀ row ∈ m.rows, ∀ k ∈ record.key?, row.request.key? ≠ some k := by
          subst hrecord
          intro row hrow k hk
          obtain ⟨text, htext, rfl⟩ := Option.map_eq_some_iff.mp hk
          exact hfree row hrow text htext
        obtain ⟨hreply, hnext⟩ := h.create (e := e) hjson hdumps hloads' hclean hfree'
        obtain hreply | ⟨hm, hd⟩ := hreply
        · rw [hreply]
          cases (m.create W.codec record).1 with
          | error error => exact alike_throw hnext
          | ok _ => exact alike_pure hnext
        · rw [hm, hd]
          exact .throw .duplicate hnext

theorem find_idempotent_none {scope : Scope} {user_id key : String}
    (h : m.find_idempotent W.codec scope user_id key = .ok none) :
    ∀ row ∈ m.rows, row.request.key? ≠ some ⟨scope, user_id, key⟩ := by
  intro row hrow hkey
  simp only [Approvals.find_idempotent, bind_memory] at h
  split at h
  · rename_i hnone
    obtain ⟨text, htext, hsame⟩ := Option.map_eq_some_iff.mp hkey
    cases hsame
    exact List.find?_eq_none.mp hnone row hrow (by simp [htext])
  · rename_i found _
    cases hread : _from_row W.codec found <;> rw [hread] at h <;> cases h

theorem key_of_check {tool_name : String} {risk : ToolRisk} {key : Option String} {ttl_seconds : Int}
    (h : ApprovalService.check identity tool_name risk key ttl_seconds = .ok ()) : truthy key = key := by
  cases key with
  | none => rfl
  | some text =>
    have hblank := (ttl_of_check h).2 text rfl
    simp only [truthy]
    split
    · rename_i hempty
      rw [String.isEmpty_iff.mp hempty] at hblank
      cases hblank
    · rfl

theorem alike_request (h : Refines e W m d) (hjson : JsonLaws W.codec) {tool_name : String} {arguments : Json}
    {risk : ToolRisk} {key : Option String} {ttl_seconds : Int} (hidentity : CleanIdentity e identity)
    (htool : Clean e tool_name) (hkey : ∀ k ∈ key, Clean e k) :
    Alike e W (program W (.request identity tool_name arguments risk key ttl_seconds))
      (program W (.request identity tool_name arguments risk key ttl_seconds)) m d := by
  simp only [program, ApprovalService.request, Program.bind_eq, Program.bind_assoc]
  cases hcheck : ApprovalService.check identity tool_name risk key ttl_seconds with
  | error error => exact alike_throw h
  | ok _ =>
    simp only [Program.ofExcept_ok, Program.pure_bind]
    rw [key_of_check hcheck]
    cases key with
    | none => exact alike_request_new h hjson hidentity htool hkey (by simp)
    | some key =>
      refine Program.Lockstep.cmd fun ch => ?_
      dsimp only [Approvals.serve, Sql.ApprovalRequests.serve]
      rw [h.find_idempotent hidentity.scope hidentity.user (hkey key rfl)]
      cases hfind : m.find_idempotent W.codec (.of identity) identity.user_id key with
      | error error => exact alike_throw h
      | ok existing =>
        cases existing with
        | some existing => exact alike_pure h
        | none =>
          refine alike_request_new h hjson hidentity htool hkey fun row hrow k hk hsame => ?_
          obtain rfl := Option.mem_some_iff.mp hk
          exact find_idempotent_none hfind row hrow hsame

theorem count_cons (record : ApprovalRecord) (records : List ApprovalRecord) (f : Nat → Answer) :
    ((ApprovalService.count (record :: records)).bind fun n => .pure (f n)) = Program.cmd .now fun now =>
      (ApprovalService.count records).bind fun n => .pure (f (n + if decide (now < record.expires_at) then 1 else 0)) := by
  simp only [ApprovalService.count, ApprovalService._not_expired, Program.bind_eq, Program.bind_assoc]
  rfl

/-- The loop of `pending_count`, when the readings agree on which records are live. -/
theorem run_count {S : Type} (apply : S → (c : Cmd) → Supply → Reply c × S)
    (hnow : ∀ s ch, apply s .now ch = (ch.now, s)) {live : ApprovalRecord → Bool} {s : S} {records : List ApprovalRecord} :
    ∀ {f : Nat → Answer} {ω : Nat → Supply},
      (∀ n, ∀ record ∈ records, decide ((ω n).now < record.expires_at) = live record) →
      (Program.run apply ((ApprovalService.count records).bind fun n => .pure (f n)) ω s).result =
          .ok (f (records.countP live)) ∧
        (Program.run apply ((ApprovalService.count records).bind fun n => .pure (f n)) ω s).state = s := by
  induction records with
  | nil => exact fun _ => ⟨rfl, rfl⟩
  | cons record records ih =>
    intro f ω h
    have hlive := h 0 record (.head _)
    obtain ⟨hresult, hstate⟩ := ih (f := fun n => f (n + if live record then 1 else 0)) (ω := fun n => ω (n + 1))
      fun n r hr => h (n + 1) r (List.mem_cons_of_mem _ hr)
    rw [count_cons, Program.run_issue, hnow]
    simp only [hlive]
    exact ⟨by rw [hresult, List.countP_cons], hstate⟩

/-- No reading falls between another and the expiry of a pending record that is counted. -/
def Steady (m : Approvals .memory) (identity : IdentityContext) (ω : Nat → Supply) : Prop :=
  ∀ row ∈ m.rows, row.request.scope = .of identity → row.status = .pending →
    ∀ j k, (ω j).now < row.request.expires_at → (ω k).now < row.request.expires_at

theorem list_rows {scope : Scope} {status : Option ApprovalStatus} {records : List ApprovalRecord}
    (h : m.list W.codec scope status = .ok records) : ∀ record ∈ records, ∃ row ∈ m.rows, row.request.scope = scope ∧
      (∀ s ∈ status, row.status = s) ∧ _from_row W.codec row = .ok record := by
  intro record hrecord
  obtain ⟨row, hrow, hread⟩ := (forall₂_exists (mapM_ok.mp h) (p := fun row => _from_row W.codec row = .ok record)
    (q := fun r => r = record) fun row r hr => by rw [hr, Except.ok.injEq]).mpr ⟨record, hrecord, rfl⟩
  obtain ⟨hmem, hp⟩ := List.mem_filter.mp hrow
  simp only [Bool.and_eq_true, Bool.or_eq_true, decide_eq_true_eq] at hp
  refine ⟨row, hmem, hp.1, fun s hs => ?_, hread⟩
  obtain rfl := Option.mem_def.mp hs
  exact (by simpa using hp.2 : s = row.status).symm

theorem pending_count_eq {u : Unit} (h : _scope identity = .ok u) : program W (.pending_count identity) =
    .cmd (.list (.of identity) (some .pending)) fun r => (Program.ofExcept r).bind fun records =>
      (ApprovalService.count records).bind fun n => .pure (.count n) := by
  simp only [program, ApprovalService.pending_count, ApprovalService.list, Program.bind_eq, Program.bind_assoc]
  rw [h]
  rfl

theorem pending_count_alike {ω : Nat → Supply} (h : Refines e W m d) (hidentity : CleanIdentity e identity)
    (hsteady : Steady m identity ω) :
    Same e (Program.run (Approvals.serve W) (program W (.pending_count identity)) ω m).result
        (Program.run (Sql.ApprovalRequests.serve e W) (program W (.pending_count identity)) ω d).result ∧
      Refines e W (Program.run (Approvals.serve W) (program W (.pending_count identity)) ω m).state
        (Program.run (Sql.ApprovalRequests.serve e W) (program W (.pending_count identity)) ω d).state := by
  cases hscope : _scope identity with
  | error error =>
    simp only [program, ApprovalService.pending_count, ApprovalService.list, hscope]
    exact ⟨.eq, h⟩
  | ok _ =>
    obtain ⟨records, records', hm, hd, hperm⟩ := h.list (e := e) hidentity.scope (some .pending)
    have hlive : ∀ n, ∀ record ∈ records,
        decide ((ω (n + 1)).now < record.expires_at) = decide ((ω 0).now < record.expires_at) := by
      intro n record hrecord
      obtain ⟨row, hrow, hscope, hstatus, hread⟩ := list_rows hm record hrecord
      rw [(from_row_request hread).2.2]
      have := hsteady row hrow hscope (hstatus _ rfl)
      exact decide_eq_decide.mpr ⟨this _ _, this _ _⟩
    have hleft := run_count (Approvals.serve W) (s := m) (fun _ _ => rfl) (f := .count)
      (ω := fun n => ω (n + 1)) hlive
    have hright := run_count (Sql.ApprovalRequests.serve e W) (s := d) (fun _ _ => rfl) (f := .count)
      (ω := fun n => ω (n + 1)) fun n record hr => hlive n record (hperm.subset hr)
    rw [pending_count_eq hscope, Program.run_issue, Program.run_issue]
    dsimp only [Approvals.serve, Sql.ApprovalRequests.serve]
    rw [hm, hd]
    simp only [Program.ofExcept_ok, Program.pure_bind]
    rw [hleft.1, hleft.2, hright.1, hright.2, hperm.countP_eq]
    exact ⟨.eq, h⟩

end Calls

/-- One store of either kind. -/
structure Twin where
  memory : Approvals .memory
  table : Sql.ApprovalRequests

/-- A call, and what it returned or raised over either store. -/
structure Twin.Event where
  call : Call
  memory : Except PyError Answer
  table : Except PyError Answer

/-- Each call runs over both stores, with the same readings, ids and tokens. -/
def twin (e : Sql.Engine) (W : World) : Machine Twin (Call × (Nat → Supply)) Twin.Event where
  step s a :=
    let o := Program.run (Approvals.serve W) (program W a.1) a.2 s.memory
    let o' := Program.run (Sql.ApprovalRequests.serve e W) (program W a.1) a.2 s.table
    some (⟨o.state, o'.state⟩, ⟨a.1, o.result, o'.result⟩)

/-- The texts are clean, and no record expires while `pending_count` counts. -/
def Guarded (e : Sql.Engine) (s : Twin) (a : Call × (Nat → Supply)) : Prop :=
  a.1.Clean e ∧ ∀ identity, a.1 = .pending_count identity → Steady s.memory identity a.2

section Twins

variable {e : Sql.Engine} {W : World} {m m' : Approvals .memory} {d : Sql.ApprovalRequests} {call : Call}
  {record : ApprovalRecord}

theorem program_alike {ω : Nat → Supply} (h : Refines e W m d) (hjson : JsonLaws W.codec) (hclean : call.Clean e)
    (hsteady : ∀ identity, call = .pending_count identity → Steady m identity ω) :
    Same e (Program.run (Approvals.serve W) (program W call) ω m).result
        (Program.run (Sql.ApprovalRequests.serve e W) (program W call) ω d).result ∧
      Refines e W (Program.run (Approvals.serve W) (program W call) ω m).state
        (Program.run (Sql.ApprovalRequests.serve e W) (program W call) ω d).state := by
  cases call with
  | request requester tool_name arguments risk key ttl =>
    exact alike_request h hjson hclean.1 hclean.2.1 hclean.2.2 ω
  | list identity status => exact alike_list h hclean ω
  | get identity id => exact alike_get h hclean.1 hclean.2 (fun _ _ _ h => alike_pure h) ω
  | approve approver id => exact alike_approve h hclean.1 hclean.2 ω
  | reject approver id => exact alike_reject h hclean.1 hclean.2 ω
  | verify identity id token tool_name arguments => exact alike_verify h hclean.1 hclean.2 ω
  | pending_count identity => exact pending_count_alike h hclean (hsteady identity rfl)

theorem twin_step {s t : Twin} {a : Call × (Nat → Supply)} {ev : Twin.Event} (hjson : JsonLaws W.codec)
    (h : Refines e W s.memory s.table) (hg : Guarded e s a) (hstep : (twin e W).step s a = some (t, ev)) :
    Same e ev.memory ev.table ∧ Refines e W t.memory t.table := by
  cases hstep
  exact program_alike h hjson hg.1 hg.2

/-- Requests stay. -/
theorem serve_kept (c : Cmd) (ch : Supply) :
    ∀ row ∈ m.rows, ∃ row' ∈ (m.serve W c ch).2.rows, row'.request = row.request := by
  intro row hrow
  cases c with
  | create record =>
    have hcreate : m.create W.codec record = ((m.create W.codec record).1, (m.create W.codec record).2) := rfl
    obtain ⟨hsame, _⟩ | ⟨_, _, _, hrows⟩ := Approvals.create_cases hcreate
    · exact ⟨row, by rw [Approvals.serve, hsame]; exact hrow, rfl⟩
    · exact ⟨row, by rw [Approvals.serve, hrows]; exact List.mem_append_left _ hrow, rfl⟩
  | decide id scope status approver decided_at hash =>
    have hdecide : m.decide W.codec id scope status approver decided_at hash =
      ((m.decide W.codec id scope status approver decided_at hash).1,
        (m.decide W.codec id scope status approver decided_at hash).2) := rfl
    obtain ⟨hsame, _⟩ | ⟨old, _, _, _, _, _, hrows⟩ := Approvals.decide_cases hdecide
    · exact ⟨row, by rw [Approvals.serve, hsame]; exact hrow, rfl⟩
    · by_cases heq : row = old
      · subst heq
        exact ⟨_, (hrows _).mpr (.inl rfl), rfl⟩
      · exact ⟨row, (hrows _).mpr (.inr ⟨hrow, heq⟩), rfl⟩
  | _ => exact ⟨row, hrow, rfl⟩

theorem program_kept {ω : Nat → Supply} :
    ∀ row ∈ m.rows, ∃ row' ∈ (Program.run (Approvals.serve W) (program W call) ω m).state.rows,
      row'.request = row.request := by
  intro row hrow
  refine (Program.all_of_forall (P := fun _ => True) (fun _ => trivial) (program W call)).invariant
    (I := fun m => ∃ row' ∈ m.rows, row'.request = row.request) (fun m c ch _ => ?_)
    (Program.exec_of_run (Approvals.serve W) (program W call) ω m) ⟨row, hrow, rfl⟩
  rintro ⟨row', hrow', hsame⟩
  obtain ⟨row₂, hrow₂, hsame₂⟩ := serve_kept (W := W) c ch row' hrow'
  exact ⟨row₂, hrow₂, hsame₂.trans hsame⟩

/-- A dictionary reads back what was created. -/
theorem from_new_row {codec : Codec} (happrover : record.approver_user_id = none) (hdecided : record.decided_at = none) :
    _from_row codec (record.row (.value record.arguments)) = .ok record := by
  cases record
  cases happrover
  cases hdecided
  rfl

theorem found_row {scope : Scope} {user_id key : String}
    (h : m.find_idempotent W.codec scope user_id key = .ok (some record)) :
    ∃ row ∈ m.rows, _from_row W.codec row = .ok record := by
  simp only [Approvals.find_idempotent, bind_memory] at h
  split at h
  · cases h
  · rename_i row hrow
    cases hread : _from_row W.codec row with
    | error error =>
      rw [hread] at h
      cases h
    | ok found =>
      rw [hread] at h
      cases h
      exact ⟨row, List.mem_of_find?_eq_some hrow, hread⟩

section Requests

variable {identity : IdentityContext} {tool_name : String} {arguments : Json} {risk : ToolRisk} {key : Option String}
  {ttl_seconds : Int} {log : Log}

theorem request_new_reads
    (h : Program.Exec (Approvals.serve W) ((ApprovalService.request_new W identity tool_name arguments risk key
      ttl_seconds).bind fun record => .pure (Answer.record record)) m log (.ok (.record record)) m') :
    ∃ row ∈ m'.rows, _from_row W.codec row = .ok record := by
  unfold ApprovalService.request_new at h
  simp only [Program.bind_eq, Program.bind_assoc] at h
  cases hdigest : _arguments_digest W arguments with
  | error error =>
    rw [hdigest] at h
    cases h
  | ok x =>
    rw [hdigest] at h
    obtain ⟨now, _, _, h⟩ := Program.exec_issue.mp h
    obtain ⟨uuid, _, _, h⟩ := Program.exec_issue.mp h
    obtain ⟨canonical, digest⟩ := x
    cases hloads : W.codec.loads canonical with
    | error error =>
      rw [hloads] at h
      cases h
    | ok stored =>
      rw [hloads] at h
      cases hlater : later (Approvals.serve W m .now now).1 ttl_seconds with
      | error error =>
        simp only [Program.pure_bind, Program.ofExcept_ok, hlater] at h
        cases h
      | ok expires_at =>
        simp only [Program.pure_bind, Program.ofExcept_ok, hlater] at h
        obtain ⟨ch, _, _, h⟩ := Program.exec_issue.mp h
        dsimp only [Approvals.serve] at h
        generalize hcreate : Approvals.create W.codec m _ = x at h
        obtain ⟨reply, m₁⟩ := x
        obtain ⟨_, error, rfl⟩ | ⟨stored', rfl, hstored, hrows⟩ := Approvals.create_cases hcreate
        · cases h
        · obtain ⟨_, hrecord, rfl⟩ := Program.exec_pure.mp h
          cases hrecord
          cases hstored
          exact ⟨_, hrows ▸ List.mem_append_right _ (.head _), from_new_row rfl rfl⟩

theorem request_reads
    (h : Program.Exec (Approvals.serve W) (program W (.request identity tool_name arguments risk key ttl_seconds)) m log
      (.ok (.record record)) m') : ∃ row ∈ m'.rows, _from_row W.codec row = .ok record := by
  simp only [program, ApprovalService.request, Program.bind_eq, Program.bind_assoc] at h
  cases hcheck : ApprovalService.check identity tool_name risk key ttl_seconds with
  | error error =>
    rw [hcheck] at h
    cases h
  | ok _ =>
    rw [hcheck] at h
    simp only [Program.ofExcept_ok, Program.pure_bind] at h
    split at h
    · exact request_new_reads h
    · rename_i key' _
      obtain ⟨ch, _, _, h⟩ := Program.exec_issue.mp h
      dsimp only [Approvals.serve] at h
      cases hfind : m.find_idempotent W.codec (.of identity) identity.user_id key' with
      | error error =>
        rw [hfind] at h
        cases h
      | ok existing =>
        rw [hfind] at h
        cases existing with
        | none => exact request_new_reads h
        | some existing =>
          obtain ⟨_, hrecord, rfl⟩ := Program.exec_pure.mp h
          cases hrecord
          exact found_row hfind

end Requests

/-- The store has the request of the record, perhaps decided since. -/
def Recorded (W : World) (m : Approvals .memory) (record : ApprovalRecord) : Prop :=
  ∃ row ∈ m.rows, ∃ old : Row, old.request = row.request ∧ _from_row W.codec old = .ok record

theorem from_row_decided {codec : Codec} {row old : Row} (hsame : old.request = row.request)
    (h : _from_row codec old = .ok record) : _from_row codec row = .ok { record with
      status := row.status, approver_user_id := row.approver_user_id, decided_at := row.decided_at } := by
  unfold _from_row at h ⊢
  rw [hsame] at h
  split at h
  · cases h
    rfl
  · obtain ⟨arguments, hloads, h⟩ := bind_ok h
    cases h
    rw [hloads]
    rfl

/-- The table gives the records of the dictionary. -/
theorem Refines.get_row (h : Refines e W m d) {row : Row} (hrow : row ∈ m.rows) (hread : _from_row W.codec row = .ok record) :
    Sql.ApprovalRequests.get e W.codec d record.id (.of record.requester) = .ok (some record) := by
  obtain ⟨hid, hrequester⟩ := from_row_identity hread
  obtain ⟨t, _, ht⟩ := forall₂_mem h hrow
  rw [hid, hrequester, ← Request.scope, h.get ht.clean.1 ht.clean.2, Approvals.get,
    Approvals.row?_eq_some.mpr ⟨hrow, rfl, rfl⟩]
  simp [hread, Except.map]

/-- A call that asks for an approval. -/
def Call.Asks : Call → Prop
  | .request .. => True
  | _ => False

theorem same_record {o : Except PyError Answer} (h : Same e o (.ok (.record record))) : o = .ok (.record record) := by
  cases h
  rfl

variable {es : List Twin.Event} {s t : Twin} {a : Call × (Nat → Supply)} {ev : Twin.Event}

/-- A request that returned left its record in the dictionary. -/
theorem step_reads (hstep : (twin e W).step s a = some (t, ev)) (hasks : ev.call.Asks)
    (hreply : ev.memory = .ok (.record record)) : ∃ row ∈ t.memory.rows, _from_row W.codec row = .ok record := by
  obtain ⟨call, ω⟩ := a
  cases hstep
  cases call with
  | request requester tool_name arguments risk key ttl =>
    have hexec := Program.exec_of_run (Approvals.serve W) (program W (.request requester tool_name arguments risk key ttl))
      ω s.memory
    dsimp only at hreply
    rw [hreply] at hexec
    exact request_reads hexec
  | _ => exact hasks.elim

theorem run_recorded (hjson : JsonLaws W.codec) (h : (twin e W).Run (Guarded e) ⟨.empty, .empty⟩ es t) :
    Refines e W t.memory t.table ∧ ∀ made ∈ es, ∀ record, made.call.Asks → made.table = .ok (.record record) →
      Recorded W t.memory record := by
  refine h.invariant (I := fun es t => Refines e W t.memory t.table ∧ ∀ made ∈ es, ∀ record, made.call.Asks →
    made.table = .ok (.record record) → Recorded W t.memory record)
    ⟨show List.Forall₂ _ _ _ from .nil, by simp⟩ ?_
  rintro es s a t ev _ hg hstep ⟨hrefines, hrecorded⟩
  obtain ⟨hsame, hnext⟩ := twin_step hjson hrefines hg hstep
  refine ⟨hnext, fun made hmade record hasks hreply => ?_⟩
  rcases List.mem_append.mp hmade with hmade | hmade
  · obtain ⟨row, hrow, old, hold, hread⟩ := hrecorded made hmade record hasks hreply
    obtain ⟨row', hrow', hsame'⟩ : ∃ row' ∈ t.memory.rows, row'.request = row.request := by
      cases hstep
      exact program_kept row hrow
    exact ⟨row', hrow', old, hold.trans hsame'.symm, hread⟩
  · obtain rfl := List.mem_singleton.mp hmade
    rw [hreply] at hsame
    obtain ⟨row, hrow, hread⟩ := step_reads hstep hasks (same_record hsame)
    exact ⟨row, hrow, row, rfl, hread⟩

/-- The tables do call by call what the dictionary does, and read back every record that was made. -/
theorem durable_refines (hjson : JsonLaws W.codec) (h : (twin e W).Run (Guarded e) ⟨.empty, .empty⟩ es s)
    (hg : Guarded e s a) (hstep : (twin e W).step s a = some (t, ev)) :
    Same e ev.memory ev.table ∧
      (∀ approval_id scope, Clean e approval_id → CleanScope e scope →
        Sql.ApprovalRequests.get e W.codec t.table approval_id scope = t.memory.get W.codec approval_id scope) ∧
      (∀ record, ev.call.Asks → ev.table = .ok (.record record) →
        Sql.ApprovalRequests.get e W.codec t.table record.id (.of record.requester) = .ok (some record)) ∧
      ∀ made ∈ es ++ [ev], ∀ record, made.call.Asks → made.table = .ok (.record record) →
        ∃ status approver_user_id decided_at, Sql.ApprovalRequests.get e W.codec t.table record.id
          (.of record.requester) = .ok (some { record with status, approver_user_id, decided_at }) := by
  obtain ⟨hrefines, _⟩ := run_recorded hjson h
  obtain ⟨hsame, hnext⟩ := twin_step hjson hrefines hg hstep
  obtain ⟨_, hrecorded⟩ := run_recorded hjson (h.snoc hg hstep)
  refine ⟨hsame, fun _ _ hid hscope => hnext.get hid hscope, fun record hasks hreply => ?_, ?_⟩
  · rw [hreply] at hsame
    obtain ⟨row, hrow, hread⟩ := step_reads hstep hasks (same_record hsame)
    exact hnext.get_row hrow hread
  · intro made hmade record hasks hreply
    obtain ⟨row, hrow, old, hold, hread⟩ := hrecorded made hmade record hasks hreply
    have hget := hnext.get_row hrow (from_row_decided hold hread)
    exact ⟨_, _, _, hget⟩

end Twins

section Sample

theorem strict_laws : JsonLaws strictWorld.codec where
  back := strict_roundTrip
  clean := by
    intro value text h
    simp only [strictWorld] at h
    split at h
    · cases h
      decide
    · cases h

def supplyAt (uuid : Hex 32) (now : Instant) : Nat → Supply := fun _ => ⟨now, uuid, sampleToken⟩

theorem sample_clean (e : Sql.Engine) {i : IdentityContext}
    (h : [i.user_id, i.workspace_id, i.tenant_id, i.role].all fun text => !text.toList.contains '\x00') :
    CleanIdentity e i := by
  simp only [List.all_cons, List.all_nil, Bool.and_true, Bool.and_eq_true, Bool.not_eq_true', List.contains_eq_mem,
    decide_eq_false_iff_not] at h
  exact ⟨fun _ => h.1, fun _ => h.2.1, fun _ => h.2.2.1, fun _ => h.2.2.2⟩

theorem request_clean (e : Sql.Engine) : sampleRequest.Clean e :=
  ⟨sample_clean e (by decide), fun _ => by decide, by simp⟩

/-- A request that was approved is read back with the decision. -/
theorem durable_refines_sample : ∃ (es : List Twin.Event) (s t : Twin) (ev : Twin.Event) (record : ApprovalRecord),
    (twin .postgres strictWorld).Run (Guarded .postgres) ⟨.empty, .empty⟩ es s ∧
      (twin .postgres strictWorld).step s (.approve sampleManager sampleId.text, supplyAt sampleId 30000000) =
        some (t, ev) ∧
      Same .postgres ev.memory ev.table ∧ record.id = sampleId.text ∧
      ∃ status approver_user_id decided_at, Sql.ApprovalRequests.get .postgres strictWorld.codec t.table record.id
        (.of record.requester) = .ok (some { record with status, approver_user_id, decided_at }) := by
  obtain ⟨s, t, ev, made, record, hrequest, hstep, hasks, hreply, hid⟩ : ∃ (s t : Twin) (ev made : Twin.Event) (record : ApprovalRecord),
      (twin .postgres strictWorld).step ⟨.empty, .empty⟩ (sampleRequest, supplyAt sampleId 0) = some (s, made) ∧
      (twin .postgres strictWorld).step s (.approve sampleManager sampleId.text, supplyAt sampleId 30000000) =
        some (t, ev) ∧ made.call = sampleRequest ∧ made.table = .ok (.record record) ∧ record.id = sampleId.text :=
    ⟨_, _, _, _, _, rfl, rfl, rfl, rfl, rfl⟩
  have hrun := Machine.Run.nil.snoc (G := Guarded .postgres) ⟨request_clean _, fun _ h => by cases h⟩ hrequest
  have hguarded : Guarded .postgres s (.approve sampleManager sampleId.text, supplyAt sampleId 30000000) :=
    ⟨⟨sample_clean _ (by decide), hex_clean _⟩, fun _ h => by cases h⟩
  obtain ⟨hsame, _, _, hback⟩ := durable_refines strict_laws hrun hguarded hstep
  exact ⟨_, _, _, _, record, hrun, hstep, hsame, hid,
    hback made (by simp) record (by rw [hasks]; trivial) hreply⟩

def laterRequest : Call :=
  .request ⟨"u1", "w1", "t1", "support"⟩ "erp.create_return" sampleArguments .write none 120

/-- Requests at 0 s and at 1 s, which expire at 60 s and at 121 s. -/
def twoPending : Twin where
  memory := (Program.run (Approvals.serve strictWorld) (program strictWorld laterRequest) (supplyAt otherId 1000000)
    (Program.run (Approvals.serve strictWorld) (program strictWorld sampleRequest) (supplyAt sampleId 0)
      (Table.empty : Approvals .memory)).state).state
  table := (Program.run (Sql.ApprovalRequests.serve .sqlite strictWorld) (program strictWorld laterRequest)
    (supplyAt otherId 1000000) (Program.run (Sql.ApprovalRequests.serve .sqlite strictWorld)
      (program strictWorld sampleRequest) (supplyAt sampleId 0) Table.empty).state).state

/-- The first record is compared at 59.5 s, the second at 60.5 s. -/
def countReadings : Nat → Supply := fun n => ⟨if n = 1 then 59500000 else 60500000, sampleId, sampleToken⟩

/-- A record expires between two readings of `pending_count`: a table counts it last, a dictionary first. -/
theorem pending_counts_differ : ¬ ∀ (e : Sql.Engine) (W : World) (es : List Twin.Event) (s t : Twin)
    (a : Call × (Nat → Supply)) (ev : Twin.Event), JsonLaws W.codec →
    (twin e W).Run (fun _ a => a.1.Clean e) ⟨.empty, .empty⟩ es s → a.1.Clean e →
    (twin e W).step s a = some (t, ev) → Same e ev.memory ev.table := by
  intro h
  obtain ⟨s, made, made', hfirst, hsecond⟩ : ∃ s made made',
      (twin .sqlite strictWorld).step ⟨.empty, .empty⟩ (sampleRequest, supplyAt sampleId 0) = some (s, made) ∧
      (twin .sqlite strictWorld).step s (laterRequest, supplyAt otherId 1000000) = some (twoPending, made') :=
    ⟨_, _, _, rfl, rfl⟩
  obtain ⟨t, ev, hstep, hmemory, htable⟩ : ∃ t ev,
      (twin .sqlite strictWorld).step twoPending (.pending_count sampleManager, countReadings) = some (t, ev) ∧
      ev.memory = .ok (.count 2) ∧ ev.table = .ok (.count 1) := ⟨_, _, rfl, rfl, rfl⟩
  have hclean : laterRequest.Clean .sqlite := ⟨sample_clean _ (by decide), fun _ => by decide, by simp⟩
  have hrun := (Machine.Run.nil.snoc (G := fun _ a => a.1.Clean .sqlite) (request_clean _) hfirst).snoc hclean hsecond
  have hcount : (Call.pending_count sampleManager).Clean .sqlite := sample_clean _ (by decide)
  have hsame := h .sqlite strictWorld _ _ _ _ _ strict_laws hrun hcount hstep
  rw [hmemory, htable] at hsame
  cases hsame

end Sample

end EnterpriseCopilot.Approval
