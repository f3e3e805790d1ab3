import EnterpriseCopilot.Approval.Simulation

/-! What the reads of the service show as pending. -/

namespace EnterpriseCopilot.Approval

open EnterpriseCopilot.Lib EnterpriseCopilot.Python EnterpriseCopilot.Runtime

variable {b : Backend} {W : World}

/-- The commands of a call that runs alone. -/
def Desk.alone (W : World) (call : Call) (s : Desk b) (c : Cmd) (ch : Choice) : Reply c × Desk b := s.apply W call c ch

/-- What a call returns that runs alone from the state. -/
def Desk.answer (W : World) (s : Desk b) (ω : Nat → Choice) (call : Call) : Except PyError Answer :=
  (Program.run (Desk.alone W call) (program W call) ω s).result

/-- No approval that is stored as pending in the scope has expired. -/
def Desk.Fresh (s : Desk b) (scope : Scope) : Prop :=
  ∀ row ∈ s.table.rows, row.request.scope = scope → row.status = .pending → s.clock < row.request.expires_at

instance (s : Desk b) (scope : Scope) : Decidable (s.Fresh scope) :=
  inferInstanceAs (Decidable (∀ row ∈ s.table.rows, row.request.scope = scope → row.status = .pending →
    s.clock < row.request.expires_at))

/-- The reads of an identity agree on what is pending, and show nothing as pending that has expired. -/
structure Agree (W : World) (s : Desk b) (identity : IdentityContext) : Prop where
  listed : ∀ ω records, s.answer W ω (.list identity (some .pending)) = .ok (.records records) →
    ∀ record ∈ records, s.clock < record.expires_at
  counted : ∀ ω ω' records n, s.answer W ω (.list identity (some .pending)) = .ok (.records records) →
    s.answer W ω' (.pending_count identity) = .ok (.count n) → n = records.length
  got : ∀ ω approval_id record, s.answer W ω (.get identity approval_id) = .ok (.record record) →
    record.status = .pending → s.clock < record.expires_at
  same : ∀ ω ω' records approval_id record, s.answer W ω (.list identity (some .pending)) = .ok (.records records) →
    s.answer W ω' (.get identity approval_id) = .ok (.record record) →
    (record.status = .pending ↔ ∃ r ∈ records, r.id = approval_id)
  requested : ∀ ω tool_name arguments risk idempotency_key ttl_seconds record,
    s.answer W ω (.request identity tool_name arguments risk idempotency_key ttl_seconds) = .ok (.record record) →
    record.status = .pending → s.clock < record.expires_at

section Alone

variable {s : Desk b} {call : Call} {ω : Nat → Choice} {α : Type}

theorem result_now (f : Instant → Code α) : (Program.run (Desk.alone W call) (.cmd .now f) ω s).result =
    (Program.run (Desk.alone W call) (f s.clock) (fun n => ω (n + 1)) s).result := by
  rw [Program.run_issue]
  rfl

theorem result_get (id : String) (scope : Scope) (f : Except PyError (Option ApprovalRecord) → Code α) :
    (Program.run (Desk.alone W call) (.cmd (.get id scope) f) ω s).result =
      (Program.run (Desk.alone W call) (f (s.table.get W.codec id scope)) (fun n => ω (n + 1)) s).result := by
  rw [Program.run_issue]
  rfl

theorem result_list (scope : Scope) (status : Option ApprovalStatus) (f : Except PyError (List ApprovalRecord) → Code α) :
    (Program.run (Desk.alone W call) (.cmd (.list scope status) f) ω s).result =
      (Program.run (Desk.alone W call) (f (s.table.list W.codec scope status)) (fun n => ω (n + 1)) s).result := by
  rw [Program.run_issue]
  rfl

theorem result_find (scope : Scope) (user_id key : String) (f : Except PyError (Option ApprovalRecord) → Code α) :
    (Program.run (Desk.alone W call) (.cmd (.find_idempotent scope user_id key) f) ω s).result =
      (Program.run (Desk.alone W call) (f (s.table.find_idempotent W.codec scope user_id key)) (fun n => ω (n + 1)) s).result := by
  rw [Program.run_issue]
  rfl

theorem result_uuid4 (f : Hex 32 → Code α) : (Program.run (Desk.alone W call) (.cmd .uuid4 f) ω s).result =
    (Program.run (Desk.alone W call) (f (ω 0).uuid) (fun n => ω (n + 1)) s).result := by
  rw [Program.run_issue]
  rfl

theorem result_create (record : ApprovalRecord) (f : Except PyError Unit → Code α) :
    (Program.run (Desk.alone W call) (.cmd (.create record) f) ω s).result =
      (Program.run (Desk.alone W call) (f (s.table.create W.codec record).1) (fun n => ω (n + 1))
        { s with table := (s.table.create W.codec record).2 }).result := by
  rw [Program.run_issue]
  rfl

theorem result_decide (id : String) (scope : Scope) (status : ApprovalStatus) (approver : Option String) (decided_at : Instant)
    (hash : Option String) (f : Except PyError (Option ApprovalRecord) → Code α) :
    (Program.run (Desk.alone W call) (.cmd (.decide id scope status approver decided_at hash) f) ω s).result =
      (Program.run (Desk.alone W call) (f (s.table.decide W.codec id scope status approver decided_at hash).1)
        (fun n => ω (n + 1)) { s with table := (s.table.decide W.codec id scope status approver decided_at hash).2 }).result := by
  rw [Program.run_issue]
  rfl

/-- A value that is there goes on. -/
theorem result_ofExcept {β : Type} {x : Except PyError α} {f : α → Code β} {a : β}
    (h : (Program.run (Desk.alone W call) ((Program.ofExcept x).bind f) ω s).result = .ok a) :
    ∃ v, x = .ok v ∧ (Program.run (Desk.alone W call) (f v) ω s).result = .ok a := by
  cases x with
  | error e => cases h
  | ok v => exact ⟨v, rfl, h⟩

end Alone

section Answers

variable {s : Desk b} {ω : Nat → Choice} {identity : IdentityContext} {approval_id : String} {call : Call}

/-- Nobody without a valid scope is answered. -/
theorem scope_of_answer {answer : Answer} (h : s.answer W ω (.list identity (some .pending)) = .ok answer) :
    _scope identity = .ok () := by
  cases hscope : _scope identity with
  | ok _ => rfl
  | error e => simp [Desk.answer, program, ApprovalService.list, hscope] at h

theorem answer_list {u : Unit} (h : _scope identity = .ok u) (status : Option ApprovalStatus) :
    s.answer W ω (.list identity status) = (s.table.list W.codec (.of identity) status).map .records := by
  simp only [Desk.answer, program, ApprovalService.list, h, Code.list, Program.bind_eq, Program.pure_eq,
    Program.ofExcept_ok, Program.pure_bind, Program.cmd_bind, result_list]
  cases s.table.list W.codec (.of identity) status <;> rfl

theorem run_count_alone {records : List ApprovalRecord} : ∀ {f : Nat → Answer} {ω : Nat → Choice},
    (Program.run (Desk.alone W call) ((ApprovalService.count records).bind fun n => .pure (f n)) ω s).result =
      .ok (f (records.countP fun r => decide (s.clock < r.expires_at))) := by
  induction records with
  | nil => exact fun {_ _} => rfl
  | cons record records ih =>
    intro f ω
    rw [count_cons, result_now]
    simp only [List.countP_cons]
    exact ih (f := fun n => f (n + if decide (s.clock < record.expires_at) then 1 else 0))

theorem answer_count {u : Unit} (h : _scope identity = .ok u) :
    s.answer W ω (.pending_count identity) = (s.table.list W.codec (.of identity) (some .pending)).map fun records =>
      .count (records.countP fun r => decide (s.clock < r.expires_at)) := by
  rw [Desk.answer, pending_count_eq h, result_list]
  cases s.table.list W.codec (.of identity) (some .pending) with
  | error e => rfl
  | ok records => exact run_count_alone

theorem from_row_scope {codec : Codec} {row : Row} {record : ApprovalRecord} (h : _from_row codec row = .ok record) :
    record.id = row.request.id ∧ Scope.of record.requester = row.request.scope := by
  unfold _from_row at h
  split at h
  · cases h
    exact ⟨rfl, rfl⟩
  · obtain ⟨_, _, h⟩ := bind_ok h
    cases h
    exact ⟨rfl, rfl⟩

/-- A pending approval can always be decided. -/
theorem decide_pending {t : Approvals b} {row : Row} (hrow : row ∈ t.rows) (hpending : row.status = .pending)
    {status : ApprovalStatus} {approver : Option String} {now : Instant} {hash : Option String} {updated : Option ApprovalRecord}
    (h : (t.decide W.codec row.request.id row.request.scope status approver now hash).1 = .ok updated) :
    ∃ record, updated = some record ∧ record.status = status ∧ record.expires_at = row.request.expires_at := by
  unfold Approvals.decide at h
  split at h
  · rename_i hnone
    have hrefused := List.find?_eq_none.mp hnone row hrow
    simp [hpending] at hrefused
  · rename_i found hfound
    have hp := List.find?_some hfound
    simp only [Bool.and_eq_true, decide_eq_true_eq] at hp
    obtain rfl := Approvals.eq_of_id (List.mem_of_find?_eq_some hfound) hrow hp.1.1
    dsimp only at h
    cases hread : _from_row W.codec (found.decided b status approver now hash) with
    | error e => simp [hread, Except.map] at h
    | ok record =>
      rw [hread] at h
      cases h
      exact ⟨record, rfl, status_from_row hread, (from_row_request hread).2.2⟩

/-- `get` shows a pending record that has not expired, or one that is not pending. -/
theorem answer_get {record : ApprovalRecord} (h : s.answer W ω (.get identity approval_id) = .ok (.record record)) :
    ∃ row ∈ s.table.rows, row.request.id = approval_id ∧ row.request.scope = .of identity ∧
      (record.status = .pending ↔ row.status = .pending ∧ s.clock < row.request.expires_at) ∧
      record.expires_at = row.request.expires_at := by
  cases hscope : _scope identity with
  | error e => simp [Desk.answer, program, ApprovalService.get, hscope] at h
  | ok _ =>
    simp only [Desk.answer, program, ApprovalService.get, hscope, Code.get, Program.bind_eq, Program.pure_eq,
      Program.ofExcept_ok, Program.pure_bind, Program.cmd_bind, result_get] at h
    cases hget : s.table.get W.codec approval_id (.of identity) with
    | error e => simp [hget] at h
    | ok found =>
      cases found with
      | none => simp [hget] at h
      | some found =>
        obtain ⟨row, hrow, hid, hrowscope, hread⟩ := Approvals.row_of_get hget
        have hstatus := status_from_row hread
        have hexpires := (from_row_request hread).2.2
        refine ⟨row, hrow, hid, hrowscope, ?_⟩
        simp only [hget, Program.ofExcept_ok, Program.pure_bind, ApprovalService._expire_if_needed] at h
        split at h
        · rename_i hpending
          rw [hpending] at hstatus
          simp only [ApprovalService._not_expired, Code.now, Program.bind_eq, Program.pure_eq, Program.cmd_bind,
            Program.pure_bind, result_now, decide_eq_true_eq] at h
          by_cases hlive : s.clock < found.expires_at
          · rw [if_pos hlive] at h
            simp only [Program.pure_bind, Program.run_pure] at h
            cases h
            exact ⟨iff_of_true hpending ⟨hstatus.symm, hexpires ▸ hlive⟩, hexpires⟩
          · rw [if_neg hlive] at h
            obtain ⟨hfid, hfscope⟩ := from_row_scope hread
            simp only [Code.decide, Program.cmd_bind, Program.bind_assoc, result_now, result_decide] at h
            rw [hfid, hfscope] at h
            cases hdecide : (s.table.decide W.codec row.request.id row.request.scope .expired none s.clock none).1 with
            | error e => simp [hdecide] at h
            | ok updated =>
              obtain ⟨expired, rfl, hnow, hsame⟩ := decide_pending hrow hstatus.symm hdecide
              simp only [hdecide, Program.ofExcept_ok, Program.pure_bind, Option.getD_some, Program.run_pure] at h
              cases h
              refine ⟨iff_of_false (by simp [hnow]) fun h => hlive ?_, hsame⟩
              rw [hexpires]
              exact h.2
        · rename_i hdone
          cases h
          exact ⟨iff_of_false hdone fun h => hdone (hstatus.trans h.1), hexpires⟩

theorem row_of_find {t : Approvals b} {codec : Codec} {scope : Scope} {user_id key : String} {record : ApprovalRecord}
    (h : t.find_idempotent codec scope user_id key = .ok (some record)) :
    ∃ row ∈ t.rows, row.request.scope = scope ∧ _from_row codec row = .ok record := by
  unfold Approvals.find_idempotent at h
  split at h
  · cases h
  split at h
  · cases h
  · rename_i row hfound
    have hp := List.find?_some hfound
    simp only [Bool.and_eq_true, decide_eq_true_eq] at hp
    refine ⟨row, List.mem_of_find?_eq_some hfound, hp.1.1, ?_⟩
    cases hread : _from_row codec row with
    | error e => simp [hread, Except.map] at h
    | ok found =>
      rw [hread] at h
      cases h
      rfl

theorem minute_of_check {tool_name : String} {risk : ToolRisk} {key : Option String} {ttl : Int}
    (h : ApprovalService.check identity tool_name risk key ttl = .ok ()) : 60 ≤ ttl := by
  obtain ⟨_, _, h⟩ := bind_ok h
  split at h
  · cases h
  split at h
  · cases h
  split at h
  · cases h
  · rename_i httl
    simp only [Bool.or_eq_true, decide_eq_true_eq, not_or, not_lt] at httl
    exact httl.1

theorem lt_later {now expires_at : Instant} {ttl : Int} (httl : 60 ≤ ttl) (h : later now ttl = .ok expires_at) :
    now < expires_at := by
  unfold later at h
  split at h
  · cases h
    have hminute : 0 < ttl.toNat := by omega
    exact Nat.lt_add_of_pos_right (Nat.mul_pos hminute (Nat.succ_pos _))
  · cases h

/-- A new approval has not expired. -/
theorem live_of_request_new {tool_name : String} {arguments : Json} {risk : ToolRisk} {key : Option String} {ttl : Int}
    {record : ApprovalRecord} (httl : 60 ≤ ttl)
    (h : (Program.run (Desk.alone W call) ((ApprovalService.request_new W identity tool_name arguments risk key ttl).bind
      fun r => .pure (Answer.record r)) ω s).result = .ok (.record record)) : s.clock < record.expires_at := by
  simp only [ApprovalService.request_new, Code.now, Code.uuid4, Code.create, Program.bind_eq, Program.pure_eq,
    Program.bind_assoc, Program.pure_bind, Program.cmd_bind] at h
  obtain ⟨⟨canonical, digest⟩, _, h⟩ := result_ofExcept h
  rw [result_now, result_uuid4] at h
  obtain ⟨stored, _, h⟩ := result_ofExcept h
  obtain ⟨expires_at, hlater, h⟩ := result_ofExcept h
  rw [result_create] at h
  obtain ⟨_, _, h⟩ := result_ofExcept h
  cases h
  exact lt_later httl hlater

/-- A request is answered with an approval found in the scope, or with a new one that has not expired. -/
theorem answer_request {tool_name : String} {arguments : Json} {risk : ToolRisk} {key : Option String} {ttl : Int}
    {record : ApprovalRecord}
    (h : s.answer W ω (.request identity tool_name arguments risk key ttl) = .ok (.record record)) :
    s.clock < record.expires_at ∨ (_scope identity = .ok () ∧ ∃ row ∈ s.table.rows, row.request.scope = .of identity ∧
      record.status = row.status ∧ record.expires_at = row.request.expires_at) := by
  cases hcheck : ApprovalService.check identity tool_name risk key ttl with
  | error e => simp [Desk.answer, program, ApprovalService.request, hcheck] at h
  | ok _ =>
    have httl := minute_of_check hcheck
    simp only [Desk.answer, program, ApprovalService.request, hcheck, Program.bind_eq, Program.pure_eq, Program.ofExcept_ok,
      Program.pure_bind] at h
    cases hkey : truthy key with
    | none =>
      simp only [hkey] at h
      exact .inl (live_of_request_new httl h)
    | some k =>
      simp only [hkey, Code.find_idempotent, Program.cmd_bind, Program.bind_assoc, result_find] at h
      cases hfind : s.table.find_idempotent W.codec (.of identity) identity.user_id k with
      | error e => simp [hfind] at h
      | ok existing =>
        simp only [hfind, Program.ofExcept_ok, Program.pure_bind] at h
        cases existing with
        | none => exact .inl (live_of_request_new httl h)
        | some existing =>
          cases h
          obtain ⟨row, hrow, hscope, hread⟩ := row_of_find hfind
          obtain ⟨_, hvalid, _⟩ := bind_ok hcheck
          exact .inr ⟨hvalid, row, hrow, hscope, status_from_row hread, (from_row_request hread).2.2⟩

/-- The records that `list` returns are those of the rows. -/
theorem mem_list {t : Approvals b} {codec : Codec} {scope : Scope} {status : ApprovalStatus} {records : List ApprovalRecord}
    (h : t.list codec scope (some status) = .ok records) (p : ApprovalRecord → Prop) :
    (∃ record ∈ records, p record) ↔ ∃ row ∈ t.rows, row.request.scope = scope ∧ row.status = status ∧
      ∃ record, _from_row codec row = .ok record ∧ p record := by
  have hread := (forall₂_exists (mapM_ok.mp h) (p := fun row => ∃ record, _from_row codec row = .ok record ∧ p record)
    (q := p) fun row record hr => by simp [hr]).symm
  have hmem : ∀ row, row ∈ t.rows.filter (fun r => r.request.scope = scope && ((some status).isNone || some status = some r.status)) ↔
      row ∈ t.rows ∧ row.request.scope = scope ∧ row.status = status := by
    intro row
    simp only [List.mem_filter, Option.isNone_some, Bool.false_or, Bool.and_eq_true, decide_eq_true_eq, Option.some.injEq]
    exact and_congr_right fun _ => and_congr_right fun _ => eq_comm
  refine hread.trans ?_
  cases b <;> simp only [List.mem_insertionSort, hmem, and_assoc]

/-- Every record of a readable table is listed. -/
theorem list_ok {t : Approvals b} (hread : ∀ row ∈ t.rows, Readable W row.request) (scope : Scope)
    (status : Option ApprovalStatus) : ∃ records, t.list W.codec scope status = .ok records := by
  refine mapM_total fun row hrow => ?_
  have hmem : row ∈ t.rows := by
    cases b <;> simp only [List.mem_insertionSort, List.mem_filter] at hrow <;> exact hrow.1
  exact from_row_readable (hread row hmem)

/-- The reads agree if and only if nothing that is stored as pending has expired. -/
theorem agree_iff (hread : ∀ row ∈ s.table.rows, Readable W row.request) (identity : IdentityContext) :
    Agree W s identity ↔ (_scope identity = .ok () → s.Fresh (.of identity)) := by
  constructor
  · intro hagree hscope row hrow hrowscope hpending
    by_contra hexpired
    obtain ⟨records, hlist⟩ := list_ok hread (.of identity) (some .pending)
    obtain ⟨record, hrecord⟩ := from_row_readable (hread row hrow)
    obtain ⟨shown, hshown, hstale⟩ := (mem_list hlist fun r => ¬ s.clock < r.expires_at).mpr
      ⟨row, hrow, hrowscope, hpending, record, hrecord, by rwa [(from_row_request hrecord).2.2]⟩
    have hanswer := answer_list (W := W) (s := s) (ω := fun _ => sampleChoice) hscope (some .pending)
    rw [hlist] at hanswer
    exact hstale (hagree.listed _ records hanswer shown hshown)
  · intro hfresh
    have listed : ∀ {ω records}, s.answer W ω (.list identity (some .pending)) = .ok (.records records) →
        _scope identity = .ok () ∧ s.table.list W.codec (.of identity) (some .pending) = .ok records := by
      intro ω records h
      have hscope := scope_of_answer h
      rw [answer_list hscope] at h
      cases hlist : s.table.list W.codec (.of identity) (some .pending) with
      | error e => simp [hlist, Except.map] at h
      | ok found =>
        rw [hlist] at h
        cases h
        exact ⟨hscope, rfl⟩
    have live : ∀ {records}, _scope identity = .ok () →
        s.table.list W.codec (.of identity) (some .pending) = .ok records → ∀ r ∈ records, s.clock < r.expires_at := by
      intro records hscope hlist record hrecord
      by_contra hexpired
      obtain ⟨row, hrow, hrowscope, hpending, r, hr, hstale⟩ :=
        (mem_list hlist fun r => ¬ s.clock < r.expires_at).mp ⟨record, hrecord, hexpired⟩
      rw [(from_row_request hr).2.2] at hstale
      exact hstale (hfresh hscope row hrow hrowscope hpending)
    refine ⟨?_, ?_, ?_, ?_, ?_⟩
    · intro ω records h
      obtain ⟨hscope, hlist⟩ := listed h
      exact live hscope hlist
    · intro ω ω' records n h hcount
      obtain ⟨hscope, hlist⟩ := listed h
      rw [answer_count hscope, hlist] at hcount
      cases hcount
      exact List.countP_eq_length.mpr fun r hr => decide_eq_true (live hscope hlist r hr)
    · intro ω approval_id record h hpending
      obtain ⟨row, _, _, _, hiff, hexpires⟩ := answer_get h
      rw [hexpires]
      exact (hiff.mp hpending).2
    · intro ω ω' records approval_id record h hget
      obtain ⟨hscope, hlist⟩ := listed h
      obtain ⟨row, hrow, hid, hrowscope, hiff, _⟩ := answer_get hget
      rw [hiff, mem_list hlist fun r => r.id = approval_id]
      constructor
      · rintro ⟨hpending, _⟩
        obtain ⟨shown, hshown⟩ := from_row_readable (hread row hrow)
        exact ⟨row, hrow, hrowscope, hpending, shown, hshown, (from_row_scope hshown).1.trans hid⟩
      · rintro ⟨row', hrow', _, hpending, shown, hshown, hsame⟩
        obtain rfl := Approvals.eq_of_id hrow' hrow (by rw [← (from_row_scope hshown).1, hsame, hid])
        exact ⟨hpending, hfresh hscope row' hrow hrowscope hpending⟩
    · intro ω tool_name arguments risk key ttl record h hpending
      obtain hlive | ⟨hscope, row, hrow, hrowscope, hstatus, hexpires⟩ := answer_request h
      · exact hlive
      · rw [hexpires]
        exact hfresh hscope row hrow hrowscope (hstatus ▸ hpending)

end Answers

/-- In every state that the processes reach, the reads of an identity agree on what is pending if and
only if no approval of its scope that is stored as pending has expired. -/
theorem pending_reads_iff (b : Backend) (W : World) (clock : Instant) (es : List Event) (s : State b)
    (h : (pool b W).machine.Run Machine.Free (.init ⟨Table.empty, clock⟩) es s) (hjson : RoundTrip W.codec)
    (identity : IdentityContext) :
    Agree W s.shared identity ↔ (_scope identity = .ok () → s.shared.Fresh (.of identity)) :=
  agree_iff (rows_readable h hjson) identity

section Sample

/-- One microsecond before its expiry a request is pending for every read. -/
theorem pending_reads_sample : ∃ s es, (pool .sqlite strictWorld).machine.exec Machine.Free (.init ⟨Table.empty, 0⟩)
      ([.start 0 keyedRequest] ++ stepsOf sampleId 0 4 ++ [.env 899999999]) = some (s, es) ∧
    statuses s = [.pending] ∧ Agree strictWorld s.shared sampleManager := by
  obtain ⟨s, es, hrun, hstatus, hfresh⟩ : ∃ s es,
      (pool .sqlite strictWorld).machine.exec Machine.Free (.init ⟨Table.empty, 0⟩)
        ([.start 0 keyedRequest] ++ stepsOf sampleId 0 4 ++ [.env 899999999]) = some (s, es) ∧
      statuses s = [.pending] ∧ decide (s.shared.Fresh (.of sampleManager)) = true := ⟨_, _, rfl, rfl, rfl⟩
  refine ⟨s, es, hrun, hstatus, ?_⟩
  have hiff := pending_reads_iff .sqlite strictWorld 0 es s (Machine.run_of_exec _ hrun) strict_roundTrip sampleManager
  exact hiff.mpr fun _ => of_decide_eq_true hfresh

def shown : Except PyError Answer → Option (List (ApprovalStatus × Instant) × Nat)
  | .ok (.records records) => some (records.map fun r => (r.status, r.expires_at), records.length)
  | .ok (.record r) => some ([(r.status, r.expires_at)], 1)
  | .ok (.count n) => some ([], n)
  | _ => none

/-- At its expiry `list` and the repeated request still show it as pending, `pending_count` and `get` do not. -/
theorem expired_listed : ∃ s es, (pool .sqlite strictWorld).machine.exec Machine.Free (.init ⟨Table.empty, 0⟩)
      ([.start 0 keyedRequest] ++ stepsOf sampleId 0 4 ++ [.env 900000000]) = some (s, es) ∧
    s.shared.clock = 900000000 ∧
    shown (s.shared.answer strictWorld (fun _ => sampleChoice) (.list sampleManager (some .pending))) =
      some ([(.pending, 900000000)], 1) ∧
    shown (s.shared.answer strictWorld (fun _ => sampleChoice) keyedRequest) = some ([(.pending, 900000000)], 1) ∧
    shown (s.shared.answer strictWorld (fun _ => sampleChoice) (.pending_count sampleManager)) = some ([], 0) ∧
    shown (s.shared.answer strictWorld (fun _ => sampleChoice) (.get sampleManager sampleId.text)) =
      some ([(.expired, 900000000)], 1) ∧
    ¬ Agree strictWorld s.shared sampleManager := by
  refine ⟨_, _, rfl, rfl, rfl, rfl, rfl, rfl, fun hagree => ?_⟩
  exact absurd (hagree.listed (fun _ => sampleChoice) _ rfl _ (.head _)) (lt_irrefl 900000000)

end Sample

end EnterpriseCopilot.Approval
