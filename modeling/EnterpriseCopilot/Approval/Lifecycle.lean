import EnterpriseCopilot.Approval.Calls

/-! What becomes of an approval when calls run in any order. -/

namespace EnterpriseCopilot.Approval

open EnterpriseCopilot.Lib EnterpriseCopilot.Python EnterpriseCopilot.Runtime

/-- The row at a later time: the request is the same, and a decision is made once. -/
def Row.Later (row row' : Row) : Prop :=
  row'.request = row.request ∧ (row' = row ∨ row.status = .pending ∧ row'.status ≠ .pending)

theorem Row.Later.refl (row : Row) : row.Later row := ⟨rfl, .inl rfl⟩

theorem Row.Later.trans {a b c : Row} (h : a.Later b) (h' : b.Later c) : a.Later c := by
  obtain ⟨hreq, rfl | ⟨hpend, hdone⟩⟩ := h
  · exact h'
  · obtain ⟨hreq', rfl | ⟨hpend', _⟩⟩ := h'
    · exact ⟨hreq, .inr ⟨hpend, hdone⟩⟩
    · exact absurd hpend' hdone

theorem Row.Later.eq {a b : Row} (h : a.Later b) (ha : a.status ≠ .pending) : b = a := by
  obtain ⟨_, heq | ⟨hpend, _⟩⟩ := h
  · exact heq
  · exact absurd hpend ha

section Ledger

variable (W : World)

/-- What stands in a row, and the call that decided it. -/
def Lawful (es : List Event) (row : Row) : Prop :=
  match row.status with
  | .pending => row.approver_user_id = none ∧ row.token_hash = none
  | .approved => ∃ i a decided_at hash out, row.approver_user_id = some a.user_id ∧
      a.role ∈ ["admin", "manager"] ∧ row.request.scope = .of a ∧ row.token_hash = some hash ∧
      Pool.Event.did i (.approve a row.request.id) (.decide row.request.id (.of a) .approved
        (some a.user_id) decided_at (some hash)) ((_from_row W.codec row).map some) out ∈ es
  | .rejected => row.token_hash = none ∧ ∃ i a decided_at out,
      row.approver_user_id = some a.user_id ∧ a.role ∈ ["admin", "manager"] ∧
      row.request.scope = .of a ∧
      Pool.Event.did i (.reject a row.request.id) (.decide row.request.id (.of a) .rejected
        (some a.user_id) decided_at none) ((_from_row W.codec row).map some) out ∈ es
  | .expired => row.approver_user_id = none ∧ row.token_hash = none

/-- The call that made the request. -/
def Made (es : List Event) (row : Row) : Prop :=
  ∃ i call record arguments out, Creating W call record ∧
    Pool.Event.did i call (.create record) (.ok ()) out ∈ es ∧
    row.request = (record.row arguments).request

/-- A person's decision on the approval was carried out. -/
def Settles (id : String) : Event → Prop
  | .did _ _ (.decide id' _ status _ _ _) (.ok (some _)) _ => id' = id ∧ status ≠ .expired
  | _ => False

structure Ledger {b : Backend} (es : List Event) (t : Approvals b) : Prop where
  lawful : ∀ row ∈ t.rows, Lawful W es row
  made : ∀ row ∈ t.rows, Made W es row
  settled : ∀ id, ∀ e ∈ es, Settles id e → ∃ row ∈ t.rows, row.request.id = id ∧ row.status ≠ .pending
  once : ∀ id, es.Pairwise fun e e' => ¬ (Settles id e ∧ Settles id e')

variable {W} {b : Backend} {es : List Event} {row : Row} {t u : Approvals b}

theorem Lawful.snoc (h : Lawful W es row) (e : Event) : Lawful W (es ++ [e]) row := by
  unfold Lawful at h ⊢
  split at h
  · exact h
  · obtain ⟨i, a, decided_at, hash, out, happ, hrole, hscope, hhash, hmem⟩ := h
    exact ⟨i, a, decided_at, hash, out, happ, hrole, hscope, hhash, List.mem_append_left _ hmem⟩
  · obtain ⟨hhash, i, a, decided_at, out, happ, hrole, hscope, hmem⟩ := h
    exact ⟨hhash, i, a, decided_at, out, happ, hrole, hscope, List.mem_append_left _ hmem⟩
  · exact h

theorem Made.snoc (h : Made W es row) (e : Event) : Made W (es ++ [e]) row := by
  obtain ⟨i, call, record, arguments, out, hcall, hmem, hreq⟩ := h
  exact ⟨i, call, record, arguments, out, hcall, List.mem_append_left _ hmem, hreq⟩

theorem hash_token_eq (token : Token) : _hash_token W token.text = (W.sha256 token.text).text := by
  have hlen := token.length
  have hne : token.text ≠ "" := by
    intro h
    rw [h] at hlen
    cases hlen
  simp [_hash_token, hne, hlen]

theorem hex_text_ne (h : Hex 64) : h.text ≠ "" := by
  intro ht
  have := congrArg String.toList ht
  rw [Hex.text, String.toList_ofList] at this
  exact h.chars_ne_nil (by decide) this

theorem truthy_hash (token : Token) :
    truthy (some (_hash_token W token.text)) = some (_hash_token W token.text) := by
  have hne := hex_text_ne (W.sha256 token.text)
  rw [hash_token_eq]
  simp [truthy, hne]

/-- A decision leaves a lawful row. -/
theorem lawful_decided {i : Nat} {call : Call} {log : Log} {id : String} {scope : Scope}
    {status : ApprovalStatus} {approver : Option String} {decided_at : Instant}
    {hash : Option String} {out : Option (Except PyError Answer)} (h : Lawful W es row)
    (hpend : row.status = .pending) (hid : row.request.id = id) (hscope : row.request.scope = scope)
    (hdec : Deciding W call log id scope approver decided_at hash status) :
    Lawful W (es ++ [.did i call (.decide id scope status approver decided_at hash)
      ((_from_row W.codec (row.decided b status approver decided_at hash)).map some) out])
      (row.decided b status approver decided_at hash) := by
  have hnone : row.token_hash = none := by
    unfold Lawful at h
    rw [hpend] at h
    exact h.2
  cases status with
  | pending => exact hdec.elim
  | approved =>
    obtain ⟨a, _, _, token, rfl, hrole, rfl, rfl, rfl, _, _⟩ := hdec
    refine ⟨i, a, decided_at, _hash_token W token.text, out, rfl, hrole, hscope, ?_, ?_⟩
    · cases b with
      | memory => simp [Row.decided, truthy_hash]
      | sqlite => rfl
      | postgres => rfl
    · subst hid
      exact List.mem_append_right _ (.head _)
  | rejected =>
    obtain ⟨a, rfl, hrole, rfl, rfl, rfl⟩ := hdec
    refine ⟨?_, i, a, decided_at, out, rfl, hrole, hscope, ?_⟩
    · cases b with
      | memory => exact hnone
      | sqlite => rfl
      | postgres => rfl
    · subst hid
      exact List.mem_append_right _ (.head _)
  | expired =>
    obtain ⟨rfl, rfl⟩ := hdec
    refine ⟨rfl, ?_⟩
    cases b with
    | memory => exact hnone
    | sqlite => rfl
    | postgres => rfl

section Step

variable {s s' : Desk b} {call : Call} {ch : Choice}

theorem apply_create {record : ApprovalRecord} {r : Except PyError Unit}
    (h : s.apply W call (.create record) ch = (r, s')) :
    (s' = s ∧ ∃ e, r = .error e) ∨ ∃ arguments, r = .ok () ∧ s'.clock = s.clock ∧
      s'.table.rows = s.table.rows ++ [record.row arguments] := by
  change ((s.table.create W.codec record).1,
    { s with table := (s.table.create W.codec record).2 }) = (r, s') at h
  generalize hx : s.table.create W.codec record = x at h
  obtain ⟨r', u⟩ := x
  cases h
  obtain ⟨rfl, herr⟩ | ⟨arguments, hok, _, hrows⟩ := Approvals.create_cases hx
  · exact .inl ⟨rfl, herr⟩
  · exact .inr ⟨arguments, hok, rfl, hrows⟩

theorem apply_decide {id : String} {scope : Scope} {status : ApprovalStatus}
    {approver : Option String} {decided_at : Instant} {hash : Option String}
    {r : Except PyError (Option ApprovalRecord)}
    (h : s.apply W call (.decide id scope status approver decided_at hash) ch = (r, s')) :
    (s' = s ∧ r = .ok none) ∨ ∃ row ∈ s.table.rows, row.request.id = id ∧
      row.request.scope = scope ∧ row.status = .pending ∧ s'.clock = s.clock ∧
      r = (_from_row W.codec (row.decided b status approver decided_at hash)).map some ∧
      ∀ x, x ∈ s'.table.rows ↔
        x = row.decided b status approver decided_at hash ∨ (x ∈ s.table.rows ∧ x ≠ row) := by
  change ((s.table.decide W.codec id scope status approver decided_at hash).1,
    { s with table := (s.table.decide W.codec id scope status approver decided_at hash).2 }) =
      (r, s') at h
  generalize hx : s.table.decide W.codec id scope status approver decided_at hash = x at h
  obtain ⟨r', u⟩ := x
  cases h
  obtain ⟨rfl, hnone⟩ | ⟨row, hrow, hid, hscope, hpend, hr, hrows⟩ := Approvals.decide_cases hx
  · exact .inl ⟨rfl, hnone⟩
  · exact .inr ⟨row, hrow, hid, hscope, hpend, rfl, hr, hrows⟩

/-- Rows are only added and decided. -/
theorem rows_later {log : Log} {c : Cmd} {r : Reply c} (hI : Issues W call log c)
    (h : s.apply W call c ch = (r, s')) :
    ∀ row ∈ s.table.rows, ∃ row' ∈ s'.table.rows, row.Later row' := by
  intro row hrow
  cases c with
  | create record =>
    obtain ⟨rfl, _⟩ | ⟨arguments, _, _, hrows⟩ := apply_create h
    · exact ⟨row, hrow, .refl row⟩
    · exact ⟨row, by rw [hrows]; exact List.mem_append_left _ hrow, .refl row⟩
  | decide id scope status approver decided_at hash =>
    obtain ⟨rfl, _⟩ | ⟨old, _, _, _, hpend, _, _, hrows⟩ := apply_decide h
    · exact ⟨row, hrow, .refl row⟩
    · by_cases heq : row = old
      · refine ⟨_, (hrows _).mpr (.inl rfl), by rw [heq]; rfl, .inr ⟨by rw [heq]; exact hpend, ?_⟩⟩
        rintro rfl
        exact hI.2
      · exact ⟨row, (hrows row).mpr (.inr ⟨hrow, heq⟩), .refl row⟩
  | _ =>
    cases h
    exact ⟨row, hrow, .refl row⟩

/-- The ledger after an event: the new rows are lawful, and an event that settles an
approval found it pending. -/
theorem Ledger.snoc {e : Event} (hL : Ledger W es t)
    (hlater : ∀ row ∈ t.rows, ∃ row' ∈ u.rows, row.Later row')
    (hlawful : ∀ row ∈ u.rows, Lawful W (es ++ [e]) row)
    (hmade : ∀ row ∈ u.rows, Made W (es ++ [e]) row)
    (hnew : ∀ id, Settles id e →
      (∃ row ∈ t.rows, row.request.id = id ∧ row.status = .pending) ∧
        ∃ row ∈ u.rows, row.request.id = id ∧ row.status ≠ .pending) :
    Ledger W (es ++ [e]) u := by
  refine ⟨hlawful, hmade, fun id x hx hset => ?_, fun id => ?_⟩
  · rcases List.mem_append.mp hx with hx | hx
    · obtain ⟨row, hrow, hid, hdone⟩ := hL.settled id x hx hset
      obtain ⟨row', hrow', hrow''⟩ := hlater row hrow
      obtain rfl := hrow''.eq hdone
      exact ⟨row', hrow', hid, hdone⟩
    · obtain rfl := List.mem_singleton.mp hx
      exact (hnew id hset).2
  · refine List.pairwise_append.mpr ⟨hL.once id, List.pairwise_singleton _ _, fun x hx y hy => ?_⟩
    obtain rfl := List.mem_singleton.mp hy
    rintro ⟨hset, hset'⟩
    obtain ⟨row, hrow, hid, hdone⟩ := hL.settled id x hx hset
    obtain ⟨⟨row', hrow', hid', hpend⟩, _⟩ := hnew id hset'
    rw [Approvals.eq_of_id hrow hrow' (hid.trans hid'.symm)] at hdone
    exact hdone hpend

/-- An event that neither touches the rows nor settles anything. -/
theorem Ledger.quiet {e : Event} (hL : Ledger W es t) (he : ∀ id, ¬ Settles id e) :
    Ledger W (es ++ [e]) t :=
  hL.snoc (fun row hrow => ⟨row, hrow, .refl row⟩) (fun row hrow => (hL.lawful row hrow).snoc e)
    (fun row hrow => (hL.made row hrow).snoc e) fun id h => absurd h (he id)

theorem settles_id {id id' : String} {scope : Scope} {status : ApprovalStatus}
    {approver : Option String} {decided_at : Instant} {hash : Option String} {i : Nat}
    {r : Except PyError (Option ApprovalRecord)} {out : Option (Except PyError Answer)}
    (h : Settles id' (.did i call (.decide id scope status approver decided_at hash) r out)) :
    id = id' := by
  cases r with
  | error e => exact h.elim
  | ok updated =>
    cases updated with
    | none => exact h.elim
    | some updated => exact h.1

/-- One command keeps the ledger. -/
theorem ledger_apply {log : Log} {c : Cmd} {r : Reply c} {i : Nat}
    {out : Option (Except PyError Answer)} (hL : Ledger W es s.table)
    (hI : Issues W call log c) (h : s.apply W call c ch = (r, s')) :
    Ledger W (es ++ [.did i call c r out]) s'.table := by
  have hlater := rows_later hI h
  cases c with
  | create record =>
    obtain ⟨rfl, e, rfl⟩ | ⟨arguments, rfl, _, hrows⟩ := apply_create h
    · exact hL.quiet fun id hset => hset
    · refine hL.snoc hlater (fun row hrow => ?_) (fun row hrow => ?_) fun id hset => hset.elim
      all_goals rw [hrows] at hrow; rcases List.mem_append.mp hrow with hrow | hrow
      · exact (hL.lawful row hrow).snoc _
      · obtain rfl := List.mem_singleton.mp hrow
        obtain ⟨_, _, _, _, _, _, _, _, _, _, hpend⟩ := hI.2
        unfold Lawful
        rw [show (record.row arguments).status = .pending from hpend]
        exact ⟨rfl, rfl⟩
      · exact (hL.made row hrow).snoc _
      · obtain rfl := List.mem_singleton.mp hrow
        exact ⟨i, call, record, arguments, out, hI.2, List.mem_append_right _ (.head _), rfl⟩
  | decide id scope status approver decided_at hash =>
    obtain ⟨rfl, rfl⟩ | ⟨old, hold, hid, hscope, hpend, _, rfl, hrows⟩ := apply_decide h
    · exact hL.quiet fun id hset => hset
    · refine hL.snoc hlater (fun row hrow => ?_) (fun row hrow => ?_) fun id' hset => ?_
      · obtain rfl | ⟨hrow, _⟩ := (hrows row).mp hrow
        · exact lawful_decided (hL.lawful old hold) hpend hid hscope hI.2
        · exact (hL.lawful row hrow).snoc _
      · obtain rfl | ⟨hrow, _⟩ := (hrows row).mp hrow
        · exact (hL.made old hold).snoc _
        · exact (hL.made row hrow).snoc _
      · obtain rfl := settles_id hset
        refine ⟨⟨old, hold, hid, hpend⟩, _, (hrows _).mpr (.inl rfl), hid, ?_⟩
        rintro rfl
        exact hI.2
  | _ =>
    cases h
    exact hL.quiet fun id hset => hset

end Step

end Ledger

section Rely

variable (W : World) {b : Backend}

/-- What an answer says about the table from then on. -/
def Known (t : Approvals b) : (c : Cmd) → Reply c → Prop
  | .get id scope, .ok (some record) => ∃ row, _from_row W.codec row = .ok record ∧
      row.request.id = id ∧ row.request.scope = scope ∧ ∃ row' ∈ t.rows, row.Later row'
  | .decide _ _ .expired _ _ _, .ok (some record) => record.status = .expired
  | .token_hash id scope, some hash => ∃ row ∈ t.rows, row.request.id = id ∧
      row.request.scope = scope ∧ row.token_hash = some hash ∧ row.status ≠ .pending
  | _, _ => True

variable {W} {es : List Event} {t u : Approvals b} {c : Cmd} {r : Reply c}

theorem Known.later (h : Known W t c r) (hlater : ∀ row ∈ t.rows, ∃ row' ∈ u.rows, row.Later row') :
    Known W u c r := by
  unfold Known at h ⊢
  split at h
  · obtain ⟨row, hfrom, hid, hscope, row', hrow', hl⟩ := h
    obtain ⟨row'', hrow'', hl'⟩ := hlater row' hrow'
    exact ⟨row, hfrom, hid, hscope, row'', hrow'', hl.trans hl'⟩
  · exact h
  · obtain ⟨row, hrow, hid, hscope, hhash, hdone⟩ := h
    obtain ⟨row', hrow', hl⟩ := hlater row hrow
    obtain rfl := hl.eq hdone
    exact ⟨row', hrow', hid, hscope, hhash, hdone⟩
  · trivial

theorem status_from_row {codec : Codec} {row : Row} {record : ApprovalRecord}
    (h : _from_row codec row = .ok record) : record.status = row.status := by
  unfold _from_row at h
  split at h
  · cases h
    rfl
  · obtain ⟨_, _, h⟩ := bind_ok h
    cases h
    rfl

theorem from_row_request {codec : Codec} {row : Row} {record : ApprovalRecord}
    (h : _from_row codec row = .ok record) : record.tool_name = row.request.tool_name ∧
      record.arguments_hash = row.request.arguments_hash ∧
      record.expires_at = row.request.expires_at := by
  unfold _from_row at h
  split at h
  · cases h
    exact ⟨rfl, rfl, rfl⟩
  · obtain ⟨_, _, h⟩ := bind_ok h
    cases h
    exact ⟨rfl, rfl, rfl⟩

theorem known_apply {s s' : Desk b} (call : Call) {ch : Choice} (hL : Ledger W es s.table)
    (h : s.apply W call c ch = (r, s')) : Known W s'.table c r := by
  cases c with
  | get id scope =>
    obtain rfl : s = s' := congrArg Prod.snd h
    cases r with
    | error e => trivial
    | ok found =>
      cases found with
      | none => trivial
      | some record =>
        obtain ⟨row, hrow, hid, hscope, hfrom⟩ := Approvals.row_of_get (congrArg Prod.fst h)
        exact ⟨row, hfrom, hid, hscope, row, hrow, .refl row⟩
  | decide id scope status approver decided_at hash =>
    cases status with
    | expired =>
      cases r with
      | error e => trivial
      | ok updated =>
        cases updated with
        | none => trivial
        | some record =>
          obtain ⟨_, hr⟩ | ⟨row, _, _, _, _, _, hr, _⟩ := apply_decide h
          · cases hr
          · cases hfrom : _from_row W.codec (row.decided b .expired approver decided_at hash) with
            | error e =>
              rw [hfrom] at hr
              cases hr
            | ok record' =>
              rw [hfrom] at hr
              cases hr
              exact status_from_row hfrom
    | _ => trivial
  | token_hash id scope =>
    obtain rfl : s = s' := congrArg Prod.snd h
    cases r with
    | none => trivial
    | some hash =>
      obtain ⟨row, hrow, hid, hscope, hhash⟩ := Approvals.row_of_token_hash (congrArg Prod.fst h)
      refine ⟨row, hrow, hid, hscope, hhash, fun hpend => ?_⟩
      have hlaw := hL.lawful row hrow
      unfold Lawful at hlaw
      rw [hpend] at hlaw
      rw [hlaw.2] at hhash
      cases hhash
  | _ => trivial

/-- The table is lawful at every time, and what a call has read stays true. -/
def rely (b : Backend) (W : World) (G : State b → Action → Prop) : (pool b W).Rely G (Issues W) where
  inv es s := Ledger W es s.table
  known _ s _ c r := Known W s.table c r
  step {_ _ _ _ call _ _ _} _ _ hL _ hI _ _ h :=
    ⟨ledger_apply hL hI h, known_apply call hL h, fun hk => hk.later (rows_later hI h)⟩
  quiet {_ _ e} he hL := by
    refine ⟨hL.quiet fun id hset => ?_, id⟩
    cases e with
    | did => exact he
    | _ => exact hset
  env hL := ⟨hL.quiet fun _ hset => hset, id⟩

theorem ledger_empty : Ledger W [] (Table.empty : Approvals b) :=
  ⟨fun _ h => (List.not_mem_nil h).elim, fun _ h => (List.not_mem_nil h).elim,
    fun _ _ h => (List.not_mem_nil h).elim, fun _ => .nil⟩

end Rely

section Lifecycle

variable {b : Backend} {W : World} {G : State b → Action → Prop} {clock : Instant}
  {es fs : List Event} {s u : State b}

theorem holds_of_run (h : (pool b W).machine.Run G (.init ⟨Table.empty, clock⟩) es s) :
    (rely b W G).Holds (Returns W) es s := by
  have h0 : (rely b W G).inv [] ⟨Table.empty, clock⟩ := ledger_empty
  exact (rely b W G).of_run program_sat h0 h

theorem run_later (h : (pool b W).machine.Run G (.init ⟨Table.empty, clock⟩) es u)
    (h' : (pool b W).machine.Run G u fs s) :
    ∀ row ∈ u.shared.table.rows, ∃ row' ∈ s.shared.table.rows, row.Later row' := by
  refine h'.invariant (I := fun _ s => ∀ row ∈ u.shared.table.rows,
    ∃ row' ∈ s.shared.table.rows, row.Later row') (fun row hrow => ⟨row, hrow, .refl row⟩) ?_
  intro fs s a s' e hr _ hs ih row hrow
  obtain ⟨row₁, hrow₁, hl⟩ := ih row hrow
  cases Pool.step_cases hs with
  | @step i ch call log c k hi =>
    have hI := ((holds_of_run (h.trans hr)).live hi).1.1
    obtain ⟨row₂, hrow₂, hl'⟩ := rows_later hI rfl row₁ hrow₁
    exact ⟨row₂, hrow₂, hl.trans hl'⟩
  | start hi => exact ⟨row₁, hrow₁, hl⟩
  | crash hi => exact ⟨row₁, hrow₁, hl⟩
  | env => exact ⟨row₁, hrow₁, hl⟩

/-- A call of `approve` or `reject` on the approval has returned. -/
def Succeeds (id : String) : Event → Prop
  | .did _ (.approve _ id') _ _ (some (.ok _)) => id' = id
  | .did _ (.reject _ id') _ _ (some (.ok _)) => id' = id
  | .started _ (.approve _ id') (some (.ok _)) => id' = id
  | .started _ (.reject _ id') (some (.ok _)) => id' = id
  | _ => False

/-- What stands in a row of a store, and who put it there. -/
structure Decided (es : List Event) (row : Row) : Prop where
  token : row.token_hash ≠ none ↔ row.status = .approved
  approved : row.status = .approved → ∃ i a c r out, Pool.Event.did i (.approve a row.request.id) c r
    out ∈ es ∧ row.approver_user_id = some a.user_id ∧ a.role ∈ ["admin", "manager"] ∧
    a.workspace_id = row.request.requester.workspace_id ∧ a.tenant_id = row.request.requester.tenant_id
  rejected : row.status = .rejected → ∃ i a c r out, Pool.Event.did i (.reject a row.request.id) c r
    out ∈ es ∧ row.approver_user_id = some a.user_id ∧ a.role ∈ ["admin", "manager"] ∧
    a.workspace_id = row.request.requester.workspace_id ∧ a.tenant_id = row.request.requester.tenant_id
  expired : row.status = .expired → row.approver_user_id = none

theorem decided_of_lawful {row : Row} (h : Lawful W es row) : Decided es row := by
  unfold Lawful at h
  cases hstatus : row.status with
  | pending =>
    rw [hstatus] at h
    exact ⟨by simp [h.2, hstatus], by simp [hstatus], by simp [hstatus], by simp [hstatus]⟩
  | approved =>
    rw [hstatus] at h
    obtain ⟨i, a, decided_at, hash, out, happ, hrole, hscope, hhash, hmem⟩ := h
    obtain ⟨hw, ht⟩ := Scope.mk.inj hscope
    refine ⟨by simp [hhash, hstatus], fun _ => ?_, by simp [hstatus], by simp [hstatus]⟩
    exact ⟨i, a, _, _, out, hmem, happ, hrole, hw.symm, ht.symm⟩
  | rejected =>
    rw [hstatus] at h
    obtain ⟨hhash, i, a, decided_at, out, happ, hrole, hscope, hmem⟩ := h
    obtain ⟨hw, ht⟩ := Scope.mk.inj hscope
    refine ⟨by simp [hhash, hstatus], by simp [hstatus], fun _ => ?_, by simp [hstatus]⟩
    exact ⟨i, a, _, _, out, hmem, happ, hrole, hw.symm, ht.symm⟩
  | expired =>
    rw [hstatus] at h
    exact ⟨by simp [h.2, hstatus], by simp [hstatus], by simp [hstatus], fun _ => h.1⟩

/-- What a call returned before its first command. -/
theorem returns_started (h : (pool b W).machine.Run G (.init ⟨Table.empty, clock⟩) es s)
    {i : Nat} {call : Call} {o : Except PyError Answer} (he : .started i call (some o) ∈ es) :
    Returns W call [] o := by
  obtain ⟨pre, post, heq⟩ := List.append_of_mem he
  obtain ⟨u, a, v, _, _, hs, _⟩ := h.at_event heq
  generalize hout : some o = out at hs
  cases Pool.step_cases hs with
  | start hi => exact (program_sat call).outcome hout.symm

/-- A call that returned has carried out a decision. -/
theorem settles_of_succeeds (h : (pool b W).machine.Run G (.init ⟨Table.empty, clock⟩) es s)
    {id : String} {e : Event} (he : e ∈ es) (hs : Succeeds id e) : Settles id e := by
  unfold Succeeds at hs
  split at hs
  · obtain ⟨log, hQ, _⟩ := (holds_of_run h).ended he
    obtain ⟨pre, decided_at, hash, record, heq⟩ := hQ.1 _ rfl
    obtain ⟨_, hlast⟩ := List.append_inj' heq rfl
    cases hlast
    exact ⟨hs, by decide⟩
  · obtain ⟨log, hQ, _⟩ := (holds_of_run h).ended he
    obtain ⟨pre, decided_at, record, heq⟩ := hQ _ rfl
    obtain ⟨_, hlast⟩ := List.append_inj' heq rfl
    cases hlast
    exact ⟨hs, by decide⟩
  · obtain ⟨pre, decided_at, hash, record, heq⟩ := (returns_started h he).1 _ rfl
    simp at heq
  · obtain ⟨pre, decided_at, record, heq⟩ := returns_started h he _ rfl
    simp at heq
  · exact hs.elim

/-- However calls of any number of services interleave over one store: a request never changes and
is decided at most once, rows hold what their decision says, and at most one of the calls
that approve or reject an approval returns. -/
theorem lifecycle (b : Backend) (W : World) (clock : Instant) (es fs : List Event) (u s : State b)
    (h : (pool b W).machine.Run Machine.Free (.init ⟨Table.empty, clock⟩) es u)
    (h' : (pool b W).machine.Run Machine.Free u fs s) :
    (∀ row ∈ u.shared.table.rows, ∃ row' ∈ s.shared.table.rows, row.Later row') ∧
    (∀ row ∈ s.shared.table.rows, Decided (es ++ fs) row) ∧
    ∀ id, (es ++ fs).Pairwise fun e e' => ¬ (Succeeds id e ∧ Succeeds id e') := by
  have hrun := h.trans h'
  have hL : Ledger W (es ++ fs) s.shared.table := (holds_of_run hrun).inv
  refine ⟨run_later h h', fun row hrow => decided_of_lawful (hL.lawful row hrow), fun id => ?_⟩
  refine (hL.once id).imp_of_mem fun he he' hne => ?_
  rintro ⟨hs, hs'⟩
  exact hne ⟨settles_of_succeeds hrun he hs, settles_of_succeeds hrun he' hs'⟩

end Lifecycle

section Sample

def sampleArguments : Json := .obj [("order_id", .str "SO-1001")]

def sampleText : String := "\x7b\"order_id\":\"SO-1001\"\x7d"

def sampleToken : Token := ⟨"Drmhze6EPcv0fN_81Bj-nA3QvX7yKz2LwT5uGhJ9sRk", by decide⟩

def sampleWorld : World where
  codec := {
    dumps
      | .obj [("order_id", .str id)] => .ok ("\x7b\"order_id\":\"" ++ id ++ "\"\x7d")
      | _ => .error (.typeError "Object is not JSON serializable")
    loads text := if text = sampleText then .ok sampleArguments else .error (.valueError "Expecting value") }
  sha256 text :=
    if text = sampleText then
      ⟨["079ae537", "1038b394", "76464650", "f145f4c4", "522322b9", "e37422ce", "7f509a0b", "4e636582"].flatMap String.toList,
        by decide, Hex.digits_of_all (by decide)⟩
    else if text = sampleToken.text then
      ⟨["a51bce5a", "3ffda33e", "437ffa59", "d8cf02b5", "b4af840f", "24a13fc1", "1a525258", "5625ae3d"].flatMap String.toList,
        by decide, Hex.digits_of_all (by decide)⟩
    else
      ⟨["e3b0c442", "98fc1c14", "9afbf4c8", "996fb924", "27ae41e4", "649b934c", "a495991b", "7852b855"].flatMap String.toList,
        by decide, Hex.digits_of_all (by decide)⟩

def sampleId : Hex 32 := ⟨["0b6d1a2f", "5c4e4d7f", "9a3b8c7d", "6e5f4a3b"].flatMap String.toList,
  by decide, Hex.digits_of_all (by decide)⟩

def sampleChoice : Choice := ⟨sampleId, sampleToken⟩

def sampleRequest : Call :=
  .request ⟨"u1", "w1", "t1", "support"⟩ "erp.create_return" sampleArguments .write none 60

def sampleManager : IdentityContext := ⟨"m1", "w1", "t1", "manager"⟩

def steps (i n : Nat) : List Action := List.replicate n (.step i sampleChoice)

def sampleVerify : Call :=
  .verify ⟨"u1", "w1", "t1", "support"⟩ sampleId.text sampleToken.text "erp.create_return"
    sampleArguments

/-- A request that expires after 60 seconds, approved at once. -/
def sampleApproval : List Action :=
  [.start 0 sampleRequest] ++ steps 0 3 ++ [.start 1 (.approve sampleManager sampleId.text)] ++
    steps 1 5

/-- A request, and two people who have both read it as pending. -/
def sampleRace : List Action :=
  [.start 0 sampleRequest] ++ steps 0 3 ++ [.start 1 (.approve sampleManager sampleId.text),
    .start 2 (.reject ⟨"a1", "w1", "t1", "admin"⟩ sampleId.text)] ++ steps 1 3 ++ steps 2 3

def statuses {b : Backend} (s : State b) : List ApprovalStatus := s.shared.table.rows.map Row.status

/-- One of the two decisions is carried out, the other call raises. -/
theorem lifecycle_race : ∃ u es s fs,
    (pool .sqlite sampleWorld).machine.exec Machine.Free (.init ⟨Table.empty, 0⟩) sampleRace =
      some (u, es) ∧
    (pool .sqlite sampleWorld).machine.exec Machine.Free u (steps 1 2 ++ steps 2 1) = some (s, fs) ∧
    statuses u = [.pending] ∧ statuses s = [.approved] ∧
    (∀ row ∈ u.shared.table.rows, ∃ row' ∈ s.shared.table.rows, row.Later row') ∧
    (∀ row ∈ s.shared.table.rows, Decided (es ++ fs) row) ∧
    ∀ id, (es ++ fs).Pairwise fun e e' => ¬ (Succeeds id e ∧ Succeeds id e') := by
  obtain ⟨u, es, s, fs, hu, hs, hpend, happ⟩ : ∃ u es s fs,
      (pool .sqlite sampleWorld).machine.exec Machine.Free (.init ⟨Table.empty, 0⟩) sampleRace =
        some (u, es) ∧
      (pool .sqlite sampleWorld).machine.exec Machine.Free u (steps 1 2 ++ steps 2 1) =
        some (s, fs) ∧
      statuses u = [.pending] ∧ statuses s = [.approved] := ⟨_, _, _, _, rfl, rfl, rfl, rfl⟩
  exact ⟨u, es, s, fs, hu, hs, hpend, happ, lifecycle .sqlite sampleWorld 0 es fs u s
    (Machine.run_of_exec _ hu) (Machine.run_of_exec _ hs)⟩

end Sample

end EnterpriseCopilot.Approval
