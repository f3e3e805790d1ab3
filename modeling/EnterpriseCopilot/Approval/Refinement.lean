import EnterpriseCopilot.Approval.Columns
import EnterpriseCopilot.Approval.Races
import EnterpriseCopilot.Lib.Lockstep

/-! The durable stores do what the dictionaries do. -/

namespace EnterpriseCopilot.Approval

open EnterpriseCopilot.Lib EnterpriseCopilot.Python EnterpriseCopilot.Runtime

/-- A text that the store takes as a parameter. -/
def Clean (e : Sql.Engine) (text : String) : Prop := e = .postgres → '\x00' ∉ text.toList

instance (e : Sql.Engine) : DecidablePred (Clean e) := fun text =>
  inferInstanceAs (Decidable (e = .postgres → '\x00' ∉ text.toList))

def CleanScope (e : Sql.Engine) (scope : Scope) : Prop := Clean e scope.workspace_id ∧ Clean e scope.tenant_id

/-- JSON is read back as it was written, and has no NUL. -/
structure JsonLaws (codec : Codec) : Prop where
  back : RoundTrip codec
  clean : ∀ value text, codec.dumps value = .ok text → '\x00' ∉ text.toList

section Rows

/-- The columns of a row. -/
def Row.tuple (row : Row) (arguments_json : String) : Sql.Tuple
  | .id => .text row.request.id
  | .workspace_id => .text row.request.requester.workspace_id
  | .tenant_id => .text row.request.requester.tenant_id
  | .requester_user_id => .text row.request.requester.user_id
  | .requester_role => .text row.request.requester.role
  | .tool_name => .text row.request.tool_name
  | .arguments_json => .text arguments_json
  | .arguments_hash => .text row.request.arguments_hash
  | .risk => .text row.request.risk.value
  | .idempotency_key => .ofOption row.request.idempotency_key
  | .requested_at => .time row.request.requested_at
  | .expires_at => .time row.request.expires_at
  | .status => .text row.status.value
  | .approver_user_id => .ofOption row.approver_user_id
  | .decided_at => match row.decided_at with
    | some decided_at => .time decided_at
    | none => .null
  | .token_hash => .ofOption row.token_hash

/-- The tuple has the row of the dictionary in its columns. -/
structure Holds (e : Sql.Engine) (W : World) (row : Row) (t : Sql.Tuple) : Prop where
  columns : ∃ arguments text, row.request.arguments = .value arguments ∧ W.codec.loads text = .ok arguments ∧
    t = row.tuple text
  clean : Clean e row.request.id ∧ CleanScope e row.request.scope
  undecided : row.status = .pending → row.token_hash = none
  hash : truthy row.token_hash = row.token_hash

theorem status_value_injective : Function.Injective ApprovalStatus.value := by
  intro a b h
  cases a <;> cases b <;> first | rfl | exact absurd h (by decide)

theorem risk_of_value (risk : ToolRisk) : Sql.ToolRisk.ofValue risk.value = .ok risk := by
  cases risk <;> decide

theorem status_of_value (status : ApprovalStatus) : Sql.ApprovalStatus.ofValue status.value = .ok status := by
  cases status <;> decide

theorem optional_ofOption (value : Option String) : Sql.optional (.ofOption value) = .ok value := by
  cases value <;> rfl

/-- What is read from the columns is the record. -/
theorem from_tuple {codec : Codec} {row : Row} {text : String} {arguments : Json}
    (hvalue : row.request.arguments = .value arguments) (hloads : codec.loads text = .ok arguments) :
    Sql._from_row codec (Sql.select (row.tuple text)) = _from_row codec row := by
  have hdecided : Sql.optional_instant ((row.tuple text) .decided_at) = .ok row.decided_at := by
    cases h : row.decided_at <;> simp [Row.tuple, h, Sql.optional_instant, Sql.instant, Except.map]
  unfold Sql._from_row _from_row
  simp only [Sql.select, Sql.select_columns, List.map_cons, List.map_nil, List.getD_cons_zero, List.getD_cons_succ,
    hdecided]
  simp only [Row.tuple, Sql.str, Sql.instant, ok_bind, optional_ofOption, risk_of_value, status_of_value, hloads, hvalue]

variable {e : Sql.Engine} {W : World} {row : Row} {t : Sql.Tuple}

theorem Holds.read (h : Holds e W row t) : ∃ record, _from_row W.codec row = .ok record ∧
    Sql._from_row W.codec (Sql.select t) = .ok record := by
  obtain ⟨arguments, text, hvalue, hloads, rfl⟩ := h.columns
  have hreadable : Readable W row.request := by
    unfold Readable
    rw [hvalue]
    trivial
  obtain ⟨record, hread⟩ := from_row_readable hreadable
  exact ⟨record, hread, (from_tuple hvalue hloads).trans hread⟩

@[simp] theorem cell_ofOption_eq_text {value : Option String} {text : String} :
    Sql.Cell.ofOption value = .text text ↔ value = some text := by
  cases value <;> simp [Sql.Cell.ofOption]

/-- A row and its tuple meet the conditions of a scope together. -/
theorem Holds.in_scope (h : Holds e W row t) (approval_id : String) (scope : Scope) :
    (decide (row.request.id = approval_id) && decide (row.request.scope = scope)) = Sql.in_scope approval_id scope t := by
  obtain ⟨_, text, _, _, rfl⟩ := h.columns
  cases scope
  rw [Bool.eq_iff_iff]
  simp [Sql.in_scope, Row.tuple, Request.scope, Scope.of, and_assoc]

theorem Holds.status_eq (h : Holds e W row t) (status : ApprovalStatus) :
    t .status = .text status.value ↔ row.status = status := by
  obtain ⟨_, text, _, _, rfl⟩ := h.columns
  simp [Row.tuple, status_value_injective.eq_iff]

theorem Holds.undecided_eq (h : Holds e W row t) (approval_id : String) (scope : Scope) :
    (decide (row.request.id = approval_id) && decide (row.request.scope = scope) && decide (row.status = .pending)) =
      Sql.ApprovalRequests.undecided approval_id scope t := by
  rw [h.in_scope, Sql.ApprovalRequests.undecided]
  simp [h.status_eq .pending]

/-- The decided row is in the tuple with the new columns. -/
theorem Holds.decided (h : Holds e W row t) {status : ApprovalStatus} {approver : Option String} {decided_at : Instant}
    {hash : Option String} (hpend : row.status = .pending) (hstatus : status ≠ .pending)
    (hhash : truthy hash = hash) : Holds e W (row.decided .memory status approver decided_at hash)
      (Sql.set status approver decided_at hash t) := by
  obtain ⟨⟨arguments, text, hvalue, hloads, rfl⟩, hclean, hnone, _⟩ := h
  have hsame : (truthy hash).or row.token_hash = hash := by
    rw [hnone hpend, Option.or_none, hhash]
  refine ⟨⟨arguments, text, hvalue, hloads, ?_⟩, hclean, fun h => absurd h hstatus, ?_⟩
  · funext column
    cases column <;> simp [Sql.set, Row.tuple, Row.decided, hsame]
  · change truthy ((truthy hash).or row.token_hash) = (truthy hash).or row.token_hash
    rw [hsame, hhash]

/-- A new row is what the INSERT writes. -/
theorem inserted_eq (record : ApprovalRecord) (arguments : Stored) (text : String) :
    Sql.insert Sql.insert_columns (Sql.insert_values record text) = (record.row arguments).tuple text := by
  funext column
  cases column <;> rfl

end Rows

section Operations

variable {W : World} {m : Approvals .memory} {d : Sql.ApprovalRequests} {e : Sql.Engine} {approval_id : String}
  {scope : Scope}

/-- The table has the rows of the dictionary, in their order. -/
def Refines (e : Sql.Engine) (W : World) (m : Approvals .memory) (d : Sql.ApprovalRequests) : Prop :=
  List.Forall₂ (Holds e W) m.rows d.rows

/-- A parameter that the store takes. -/
def Taken (e : Sql.Engine) (cell : Sql.Cell) : Prop := e = .postgres → cell.hasNul = false

theorem bind_clean {params : List Sql.Cell} (h : ∀ cell ∈ params, Taken e cell) : Sql.bind e params = .ok () := by
  unfold Sql.bind
  cases e with
  | sqlite => rfl
  | postgres =>
    have hany : params.any Sql.Cell.hasNul = false := List.any_eq_false.mpr fun cell hc => by simp [h cell hc rfl]
    simp [hany]

theorem text_clean {text : String} (h : Clean e text) : Taken e (.text text) := by
  intro he
  simpa [Sql.Cell.hasNul] using h he

theorem option_clean {value : Option String} (h : ∀ text ∈ value, Clean e text) : Taken e (.ofOption value) := by
  cases value with
  | none => exact fun _ => rfl
  | some text => exact text_clean (h text rfl)

theorem status_clean (status : ApprovalStatus) : Taken e (.text status.value) := by
  intro _
  cases status <;> decide

theorem scope_params_clean (hid : Clean e approval_id) (hscope : CleanScope e scope) :
    ∀ cell ∈ Sql.scope_params approval_id scope, Taken e cell := by
  simp [Sql.scope_params, text_clean hid, text_clean hscope.1, text_clean hscope.2]

/-- The row of the scope, and its tuple. -/
theorem Refines.find (h : Refines e W m d) (approval_id : String) (scope : Scope) :
    (m.row? approval_id scope = none ∧ d.rows.find? (Sql.in_scope approval_id scope) = none) ∨
      ∃ row t, Holds e W row t ∧ m.row? approval_id scope = some row ∧
        d.rows.find? (Sql.in_scope approval_id scope) = some t :=
  forall₂_find? h fun _ _ hr => hr.in_scope approval_id scope

theorem Refines.get (h : Refines e W m d) (hid : Clean e approval_id) (hscope : CleanScope e scope) :
    Sql.ApprovalRequests.get e W.codec d approval_id scope = m.get W.codec approval_id scope := by
  unfold Sql.ApprovalRequests.get Approvals.get Sql.ApprovalRequests.fetchone
  rw [bind_clean (scope_params_clean hid hscope), ok_bind]
  obtain ⟨hm, hd⟩ | ⟨row, t, hr, hm, hd⟩ := h.find approval_id scope
  · rw [hm, hd]
  · obtain ⟨record, hrow, ht⟩ := hr.read
    rw [hm, hd]
    simp only [hrow, ht]

theorem Refines.token_hash (h : Refines e W m d) :
    d.token_hash approval_id scope = m.token_hash approval_id scope := by
  unfold Sql.ApprovalRequests.token_hash Approvals.token_hash
  obtain ⟨hm, hd⟩ | ⟨row, t, hr, hm, hd⟩ := h.find approval_id scope
  · rw [hm, hd]
  · rw [hm, hd]
    obtain ⟨_, text, _, _, rfl⟩ := hr.columns
    have hhash := hr.hash
    cases hvalue : row.token_hash with
    | none => simp [Row.tuple, hvalue, Sql.Cell.ofOption]
    | some hash =>
      rw [hvalue] at hhash
      simp [Row.tuple, hvalue, Sql.Cell.ofOption, hhash]

theorem Refines.find_idempotent (h : Refines e W m d) {user_id key : String} (hscope : CleanScope e scope)
    (huser : Clean e user_id) (hkey : Clean e key) :
    Sql.ApprovalRequests.find_idempotent e W.codec d scope user_id key =
      m.find_idempotent W.codec scope user_id key := by
  unfold Sql.ApprovalRequests.find_idempotent Sql.ApprovalRequests.fetchone
  simp only [Approvals.find_idempotent, bind_memory]
  rw [bind_clean (by simp [text_clean, hscope.1, hscope.2, huser, hkey]), ok_bind]
  have hsame : ∀ row t, Holds e W row t → (decide (row.request.scope = scope) &&
      decide (row.request.requester.user_id = user_id) && decide (row.request.idempotency_key = some key)) =
        (decide (t .workspace_id = .text scope.workspace_id) && decide (t .tenant_id = .text scope.tenant_id) &&
          decide (t .requester_user_id = .text user_id) && decide (t .idempotency_key = .text key)) := by
    intro row t hr
    obtain ⟨_, text, _, _, rfl⟩ := hr.columns
    cases scope
    rw [Bool.eq_iff_iff]
    simp [Row.tuple, Request.scope, Scope.of]
  obtain ⟨hm, hd⟩ | ⟨row, t, hr, hm, hd⟩ := forall₂_find? h hsame
  · rw [hm, hd]
  · obtain ⟨record, hrow, ht⟩ := hr.read
    rw [hm, hd]
    simp only [hrow, ht]

/-- The tables list the records of the dictionary, in another order. -/
theorem Refines.list (h : Refines e W m d) (hscope : CleanScope e scope) (status : Option ApprovalStatus) :
    ∃ records records', m.list W.codec scope status = .ok records ∧
      Sql.ApprovalRequests.list e W.codec d scope status = .ok records' ∧ records'.Perm records := by
  have hbind : Sql.bind e ([.text scope.workspace_id, .text scope.tenant_id] ++
      status.toList.map fun s => .text s.value) = .ok () := by
    refine bind_clean fun cell hc => ?_
    cases status with
    | none => simp at hc; rcases hc with rfl | rfl <;> simp [text_clean, hscope.1, hscope.2]
    | some s =>
      simp at hc
      rcases hc with rfl | rfl | rfl
      · exact text_clean hscope.1
      · exact text_clean hscope.2
      · exact status_clean s
  have hfilter : List.Forall₂ (Holds e W)
      (m.rows.filter fun r => r.request.scope = scope && (status.isNone || status = some r.status))
      (d.rows.filter fun tuple => tuple .workspace_id = .text scope.workspace_id &&
        tuple .tenant_id = .text scope.tenant_id && status.all fun s => tuple .status = .text s.value) := by
    refine List.rel_filter (fun row t hr => ?_) h
    obtain ⟨_, text, _, _, rfl⟩ := hr.columns
    cases scope
    cases status with
    | none => simp [Row.tuple, Request.scope, Scope.of]
    | some s =>
      simp [Row.tuple, Request.scope, Scope.of, status_value_injective.eq_iff]
      exact fun _ _ => eq_comm
  have hread : ∃ records, (m.rows.filter fun r => r.request.scope = scope && (status.isNone || status = some r.status)).mapM
      (_from_row W.codec) = .ok records ∧
      (d.rows.filter fun tuple => tuple .workspace_id = .text scope.workspace_id &&
        tuple .tenant_id = .text scope.tenant_id && status.all fun s => tuple .status = .text s.value).mapM
          (fun tuple => Sql._from_row W.codec (Sql.select tuple)) = .ok records := by
    generalize m.rows.filter _ = rows at hfilter
    generalize d.rows.filter _ = tuples at hfilter
    induction hfilter with
    | nil => exact ⟨[], rfl, rfl⟩
    | cons hr _ ih =>
      obtain ⟨record, hrow, ht⟩ := hr.read
      obtain ⟨records, hrows, hts⟩ := ih
      refine ⟨record :: records, ?_, ?_⟩
      · rw [List.mapM_cons, hrow, hrows]
        rfl
      · rw [List.mapM_cons, ht, hts]
        rfl
  obtain ⟨records, hrows, hts⟩ := hread
  obtain ⟨records', hts', hperm⟩ := mapM_perm hts (List.perm_insertionSort Sql.ApprovalRequests.later _)
  refine ⟨records, records', hrows, ?_, hperm⟩
  unfold Sql.ApprovalRequests.list
  rw [hbind, ok_bind]
  exact hts'

theorem countP_le_one {α : Type} {R : α → α → Prop} {l : List α} {p : α → Bool} (h : l.Pairwise R)
    (hp : ∀ a b, p a = true → p b = true → ¬ R a b) : l.countP p ≤ 1 := by
  induction h with
  | nil => simp
  | @cons a l ha _ ih =>
    rw [List.countP_cons]
    cases hpa : p a with
    | false => simpa using ih
    | true =>
      have hzero : l.countP p = 0 := List.countP_eq_zero.mpr fun b hb hpb => hp a b hpa hpb (ha b hb)
      simp [hzero]

/-- The UPDATE does to the tuples what the decision does to the rows. -/
theorem Refines.update (h : Refines e W m d) (approval_id : String) (scope : Scope) {status : ApprovalStatus}
    (approver : Option String) (decided_at : Instant) {hash : Option String} (hstatus : status ≠ .pending) (hhash : truthy hash = hash) :
    List.Forall₂ (Holds e W)
      (m.rows.map fun r => if r.request.id = approval_id && r.request.scope = scope && r.status = .pending then
        r.decided .memory status approver decided_at hash else r)
      (d.rows.map fun t => if Sql.ApprovalRequests.undecided approval_id scope t then
        Sql.set status approver decided_at hash t else t) := by
  rw [List.forall₂_map_left_iff, List.forall₂_map_right_iff]
  refine List.Forall₂.imp (fun row t hr => ?_) h
  rw [hr.undecided_eq]
  split
  · rename_i hyes
    rw [← hr.undecided_eq] at hyes
    simp only [Bool.and_eq_true, decide_eq_true_eq] at hyes
    exact hr.decided hyes.2 hstatus hhash
  · exact hr

theorem decide_rows {b : Backend} (codec : Codec) (t : Approvals b) (approval_id : String) (scope : Scope)
    (status : ApprovalStatus) (approver : Option String) (decided_at : Instant) (hash : Option String) :
    (t.decide codec approval_id scope status approver decided_at hash).2.rows =
      t.rows.map fun r => if r.request.id = approval_id && r.request.scope = scope && r.status = .pending then
        r.decided b status approver decided_at hash else r := by
  unfold Approvals.decide
  split
  · rename_i hnone
    refine (List.map_id _).symm.trans (List.map_congr_left fun row hrow => ?_)
    rw [if_neg (List.find?_eq_none.mp hnone row hrow)]
    rfl
  · rfl

theorem Refines.decide (h : Refines e W m d) (hid : Clean e approval_id) (hscope : CleanScope e scope)
    {status : ApprovalStatus} {approver : Option String} {decided_at : Instant} {hash : Option String}
    (happrover : ∀ text ∈ approver, Clean e text) (hclean : ∀ text ∈ hash, Clean e text)
    (hstatus : status ≠ .pending) (hhash : truthy hash = hash) :
    (Sql.ApprovalRequests.decide e W.codec d approval_id scope status approver decided_at hash).1 =
        (m.decide W.codec approval_id scope status approver decided_at hash).1 ∧
      Refines e W (m.decide W.codec approval_id scope status approver decided_at hash).2
        (Sql.ApprovalRequests.decide e W.codec d approval_id scope status approver decided_at hash).2 := by
  have hbind : Sql.bind e ([.text status.value, .ofOption approver, .time decided_at, .ofOption hash] ++
      Sql.scope_params approval_id scope ++ [.text ApprovalStatus.pending.value]) = .ok () := by
    refine bind_clean fun cell hc => ?_
    rcases List.mem_append.mp hc with hc | hc
    · rcases List.mem_append.mp hc with hc | hc
      · simp only [List.mem_cons, List.not_mem_nil, or_false] at hc
        rcases hc with rfl | rfl | rfl | rfl
        · exact status_clean status
        · exact option_clean happrover
        · exact fun _ => rfl
        · exact option_clean hclean
      · exact scope_params_clean hid hscope cell hc
    · obtain rfl := List.mem_singleton.mp hc
      exact status_clean .pending
  have hrows : Refines e W (m.decide W.codec approval_id scope status approver decided_at hash).2
      (Sql.ApprovalRequests.decide e W.codec d approval_id scope status approver decided_at hash).2 := by
    have hsql : (Sql.ApprovalRequests.decide e W.codec d approval_id scope status approver decided_at hash).2.rows =
        d.rows.map fun t => if Sql.ApprovalRequests.undecided approval_id scope t then
          Sql.set status approver decided_at hash t else t := by
      unfold Sql.ApprovalRequests.decide
      rw [hbind]
      dsimp only
      split <;> rfl
    rw [Refines, decide_rows, hsql]
    exact h.update approval_id scope approver decided_at hstatus hhash
  refine ⟨?_, hrows⟩
  obtain ⟨hm, hd⟩ | ⟨row, t, hr, hm, hd⟩ := forall₂_find? h fun _ _ hr => hr.undecided_eq approval_id scope
  · have hcount : d.rows.countP (Sql.ApprovalRequests.undecided approval_id scope) = 0 :=
      List.countP_eq_zero.mpr (List.find?_eq_none.mp hd)
    have hreply : (m.decide W.codec approval_id scope status approver decided_at hash).1 = .ok none := by
      unfold Approvals.decide
      split
      · rfl
      · rename_i hsome
        cases hm.symm.trans hsome
    rw [hreply]
    unfold Sql.ApprovalRequests.decide
    rw [hbind]
    simp [hcount]
  · have hyes := List.find?_some hm
    simp only [Bool.and_eq_true, decide_eq_true_eq] at hyes
    -- ids are unique, so one tuple is changed
    have hcount : d.rows.countP (Sql.ApprovalRequests.undecided approval_id scope) = 1 := by
      refine le_antisymm (countP_le_one d.apart fun a b ha hb hapart => hapart (.inl ?_))
        (List.countP_pos_iff.mpr ⟨t, List.mem_of_find?_eq_some hd, List.find?_some hd⟩)
      simp only [Sql.ApprovalRequests.undecided, Sql.in_scope, Bool.and_eq_true, decide_eq_true_eq] at ha hb
      rw [ha.1.1.1, hb.1.1.1]
    have hreply : (m.decide W.codec approval_id scope status approver decided_at hash).1 =
        (_from_row W.codec (row.decided .memory status approver decided_at hash)).map some := by
      unfold Approvals.decide
      split
      · rename_i hnone
        cases hm.symm.trans hnone
      · rename_i hsome
        cases hm.symm.trans hsome
        rfl
    have hread : (m.decide W.codec approval_id scope status approver decided_at hash).2.row? approval_id scope =
        some (row.decided .memory status approver decided_at hash) := by
      refine Approvals.row?_eq_some.mpr ⟨?_, hyes.1.1, hyes.1.2⟩
      rw [decide_rows]
      exact List.mem_map.mpr ⟨row, List.mem_of_find?_eq_some hm, by simp [hyes.1.1, hyes.1.2, hyes.2]⟩
    have hsql : (Sql.ApprovalRequests.decide e W.codec d approval_id scope status approver decided_at hash).1 =
        Sql.ApprovalRequests.get e W.codec
          (Sql.ApprovalRequests.decide e W.codec d approval_id scope status approver decided_at hash).2
          approval_id scope := by
      unfold Sql.ApprovalRequests.decide
      rw [hbind]
      simp [hcount]
    rw [hsql, hrows.get hid hscope, Approvals.get, hread, hreply]

/-- The texts of a new record. -/
structure CleanRecord (e : Sql.Engine) (record : ApprovalRecord) : Prop where
  id : Clean e record.id
  workspace : Clean e record.requester.workspace_id
  tenant : Clean e record.requester.tenant_id
  user : Clean e record.requester.user_id
  role : Clean e record.requester.role
  tool : Clean e record.tool_name
  hash : Clean e record.arguments_hash
  key : ∀ key ∈ record.idempotency_key, Clean e key

theorem insert_values_clean {record : ApprovalRecord} {text : String} (h : CleanRecord e record) (htext : Clean e text) :
    ∀ cell ∈ Sql.insert_values record text, Taken e cell := by
  have hrisk : Taken e (.text record.risk.value) := by
    intro _
    cases record.risk <;> decide
  intro cell hc
  simp only [Sql.insert_values, List.mem_cons, List.not_mem_nil, or_false] at hc
  rcases hc with rfl | rfl | rfl | rfl | rfl | rfl | rfl | rfl | rfl | rfl | rfl | rfl | rfl
  · exact text_clean h.id
  · exact text_clean h.workspace
  · exact text_clean h.tenant
  · exact text_clean h.user
  · exact text_clean h.role
  · exact text_clean h.tool
  · exact text_clean htext
  · exact text_clean h.hash
  · exact hrisk
  · exact option_clean h.key
  · exact fun _ => rfl
  · exact fun _ => rfl
  · exact status_clean _

/-- The constraints of the table, on rows. -/
theorem tuple_clash_iff {row new : Row} {text text' : String} :
    Sql.Clash (row.tuple text) (new.tuple text') ↔ Clash .sqlite row new := by
  have hnull : (row.tuple text) .idempotency_key ≠ .null ↔ row.request.idempotency_key ≠ none := by
    cases h : row.request.idempotency_key <;> simp [Row.tuple, Sql.Cell.ofOption, h]
  have hkey : (row.tuple text) .idempotency_key = (new.tuple text') .idempotency_key ↔
      row.request.idempotency_key = new.request.idempotency_key := by
    cases h : row.request.idempotency_key <;> cases h' : new.request.idempotency_key <;>
      simp [Row.tuple, Sql.Cell.ofOption, h, h']
  unfold Sql.Clash Clash Request.SameKey
  rw [hnull, hkey]
  simp [Row.tuple, Request.scope, Scope.of, and_assoc]

/-- Without a row of its key, a new row clashes where its tuple clashes. -/
theorem clash_iff {row new : Row} {t : Sql.Tuple} {text : String} (hr : Holds e W row t)
    (hkey : ∀ k ∈ new.request.key?, row.request.key? ≠ some k) :
    Clash .memory row new ↔ Sql.Clash t (new.tuple text) := by
  obtain ⟨_, text', _, _, rfl⟩ := hr.columns
  rw [tuple_clash_iff]
  constructor
  · rintro (hid | ⟨hne, _⟩)
    · exact .inl hid
    · exact absurd rfl hne
  · rintro (hid | ⟨_, hsame⟩)
    · exact .inl hid
    · obtain ⟨k, hrow, hnew⟩ := sameKey_iff.mp hsame
      exact absurd hrow (hkey k hnew)

theorem Refines.create (h : Refines e W m d) (hjson : JsonLaws W.codec) {record : ApprovalRecord} {value : Json}
    {text : String} (hdumps : W.codec.dumps value = .ok text) (hloads : W.codec.loads text = .ok record.arguments)
    (hclean : CleanRecord e record)
    (hfree : ∀ row ∈ m.rows, ∀ k ∈ record.key?, row.request.key? ≠ some k) :
    ((Sql.ApprovalRequests.create e W.codec d record).1 = (m.create W.codec record).1 ∨
      (m.create W.codec record).1 = .error (.approvalError Backend.memory.duplicate) ∧
        (Sql.ApprovalRequests.create e W.codec d record).1 = .error (.approvalError e.backend.duplicate)) ∧
      Refines e W (m.create W.codec record).2 (Sql.ApprovalRequests.create e W.codec d record).2 := by
  obtain ⟨value', hloads', hdumps'⟩ := hjson.back value text hdumps
  obtain rfl := Except.ok.inj (hloads'.symm.trans hloads)
  have hbind : Sql.bind e (Sql.insert_values record text) = .ok () :=
    bind_clean (insert_values_clean hclean fun _ => hjson.clean _ _ hdumps)
  have hholds : Holds e W (record.row (.value record.arguments)) ((record.row (.value record.arguments)).tuple text) :=
    ⟨⟨_, text, rfl, hloads, rfl⟩, ⟨hclean.id, hclean.workspace, hclean.tenant⟩, fun _ => rfl, rfl⟩
  -- the dictionary and the table see the same clash
  have hclash : m.Conflicts (record.row (.value record.arguments)) ↔
      d.Conflicts ((record.row (.value record.arguments)).tuple text) := by
    have hrows : List.Forall₂ (fun row t => row ∈ m.rows ∧ Holds e W row t) m.rows d.rows :=
      (List.forall₂_and_left _ _).mpr ⟨fun _ hrow => hrow, h⟩
    exact forall₂_exists hrows fun row t hr => clash_iff hr.2 (hfree row hr.1)
  unfold Approvals.create Sql.ApprovalRequests.create
  simp only [Backend.encode, bind_memory, hdumps', hbind, inserted_eq record (.value record.arguments)]
  by_cases hc : m.Conflicts (record.row (.value record.arguments))
  · rw [Table.insert?_eq_none.mpr hc, Table.insert?_eq_none.mpr (hclash.mp hc)]
    exact ⟨.inr ⟨rfl, rfl⟩, h⟩
  · obtain ⟨u, hu⟩ := Option.ne_none_iff_exists'.mp fun hnone => hc (Table.insert?_eq_none.mp hnone)
    obtain ⟨u', hu'⟩ := Option.ne_none_iff_exists'.mp fun hnone =>
      hc (hclash.mpr (Table.insert?_eq_none.mp hnone))
    rw [hu, hu']
    refine ⟨.inl rfl, ?_⟩
    change List.Forall₂ (Holds e W) u.rows u'.rows
    rw [(Table.insert?_eq_some.mp hu).2, (Table.insert?_eq_some.mp hu').2]
    exact List.rel_append h (.cons hholds .nil)

end Operations

end EnterpriseCopilot.Approval
