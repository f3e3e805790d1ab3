import EnterpriseCopilot.Approval.Token

/-! Requests with the same idempotency key. -/

namespace EnterpriseCopilot.Approval

open EnterpriseCopilot.Lib EnterpriseCopilot.Python EnterpriseCopilot.Runtime

/-- Workspace and tenant, user and idempotency key. -/
structure Key where
  scope : Scope
  user_id : String
  idempotency_key : String
  deriving DecidableEq

def Request.key? (r : Request) : Option Key :=
  r.idempotency_key.map fun key => ⟨r.scope, r.requester.user_id, key⟩

def ApprovalRecord.key? (record : ApprovalRecord) : Option Key :=
  record.idempotency_key.map fun key => ⟨.of record.requester, record.requester.user_id, key⟩

def Call.key? : Call → Option Key
  | .request requester _ _ _ idempotency_key _ =>
    idempotency_key.map fun key => ⟨.of requester, requester.user_id, key⟩
  | _ => none

theorem sameKey_iff {r s : Request} : r.SameKey s ↔ ∃ k, r.key? = some k ∧ s.key? = some k := by
  unfold Request.SameKey Request.key?
  constructor
  · rintro ⟨hscope, huser, hkey, hne⟩
    obtain ⟨key, hsome⟩ := Option.ne_none_iff_exists'.mp hne
    exact ⟨⟨r.scope, r.requester.user_id, key⟩, by simp [hsome], by simp [← hkey, hsome, hscope, huser]⟩
  · rintro ⟨k, hr, hs⟩
    obtain ⟨key, hkey, rfl⟩ := Option.map_eq_some_iff.mp hr
    obtain ⟨key', hkey', heq⟩ := Option.map_eq_some_iff.mp hs
    obtain ⟨hscope, huser, rfl⟩ := Key.mk.inj heq
    exact ⟨hscope.symm, huser.symm, by rw [hkey, hkey'], by simp [hkey]⟩

/-- The request passes the checks, and its arguments have a digest. -/
def Valid (W : World) : Call → Prop
  | .request requester tool_name arguments risk idempotency_key ttl_seconds =>
    ApprovalService.check requester tool_name risk idempotency_key ttl_seconds = .ok () ∧
      ∃ canonical digest, _arguments_digest W arguments = .ok (canonical, digest)
  | _ => False

/-- Over PostgreSQL, the texts of the request can be parameters. -/
def Bindable (b : Backend) : Call → Prop
  | .request requester tool_name _ _ idempotency_key _ => b = .postgres →
    ∀ text ∈ [requester.workspace_id, requester.tenant_id, requester.user_id, requester.role, tool_name] ++
      idempotency_key.toList, hasNul text = false
  | _ => True

/-- JSON texts have no control characters in them. -/
def Escapes (codec : Codec) : Prop := ∀ value text, codec.dumps value = .ok text → hasNul text = false

/-- What is written as JSON is read back, and written in the same way again. -/
def RoundTrip (codec : Codec) : Prop :=
  ∀ value text, codec.dumps value = .ok text → ∃ value', codec.loads text = .ok value' ∧
    codec.dumps value' = .ok text

section Local

variable (W : World)

def isCreate : Cmd → Bool
  | .create _ => true
  | _ => false

/-- Nothing follows the creation of a record, which follows a lookup that found none. -/
def Asks (call : Call) (log : Log) (c : Cmd) : Prop :=
  (call.key? ≠ none → ∀ x ∈ log, isCreate x.1 = false) ∧ match c with
    | .create record => (∃ u, ⟨.uuid4, u⟩ ∈ log ∧ record.id = u.text) ∧ record.key? = call.key? ∧
        Valid W call ∧ (∃ arguments canonical, W.codec.dumps arguments = .ok canonical ∧
          W.codec.loads canonical = .ok record.arguments) ∧
        (record.approver_user_id = none ∧ record.decided_at = none) ∧
        ∀ k ∈ call.key?, ⟨.find_idempotent k.scope k.user_id k.idempotency_key, .ok none⟩ ∈ log
    | _ => True

/-- The expiry would be out of range, or the arguments are not read back. -/
def Hindered (log : Log) : Prop :=
  (∃ now : Instant, ⟨.now, now⟩ ∈ log ∧ wallEnd ≤ now + 86400 * 1000000) ∨
    ∃ arguments canonical e, W.codec.dumps arguments = .ok canonical ∧ W.codec.loads canonical = .error e

/-- A request ends with the record that was found, with its own, or with an error of the store. -/
def Ends (k : Key) (log : Log) (o : Except PyError Answer) : Prop :=
  (∃ pre record, log = pre ++ [⟨.find_idempotent k.scope k.user_id k.idempotency_key, .ok (some record)⟩] ∧
    o = .ok (.record record)) ∨
  (∃ pre e, log = pre ++ [⟨.find_idempotent k.scope k.user_id k.idempotency_key, .error e⟩] ∧ o = .error e) ∨
  (∃ pre record, log = pre ++ [⟨.create record, .ok ()⟩] ∧ o = .ok (.record record)) ∨
  (∃ pre record e, log = pre ++ [⟨.create record, .error e⟩] ∧ o = .error e) ∨
  (Hindered W log ∧ ∃ e, o = .error e)

def Answers (call : Call) (log : Log) (o : Except PyError Answer) : Prop :=
  Valid W call → ∀ k ∈ call.key?, Ends W k log o

variable {W} {requester : IdentityContext} {tool_name : String} {arguments : Json} {risk : ToolRisk}
  {key : Option String} {ttl : Int} {log : Log}

theorem ttl_of_check (h : ApprovalService.check requester tool_name risk key ttl = .ok ()) :
    ttl ≤ 86400 ∧ ∀ text ∈ key, isBlank text = false := by
  obtain ⟨_, _, h⟩ := bind_ok h
  split at h
  · cases h
  split at h
  · cases h
  rename_i hkey
  split at h
  · cases h
  rename_i httl
  refine ⟨by simp at httl; omega, ?_⟩
  rintro text ⟨⟩
  simp at hkey
  simpa using hkey.1

theorem later_error {now : Instant} {e : PyError} (h : later now ttl = .error e) (httl : ttl ≤ 86400) :
    wallEnd ≤ now + 86400 * 1000000 := by
  unfold later at h
  split at h
  · cases h
  · rename_i hlate
    have hle : wallEnd ≤ now + ttl.toNat * 1000000 := Nat.le_of_not_lt hlate
    have hsec : ttl.toNat ≤ 86400 := by omega
    exact hle.trans (Nat.add_le_add_left (Nat.mul_le_mul_right _ hsec) _)

theorem noCreate_snoc {c : Cmd} {r : Reply c} (h : ∀ x ∈ log, isCreate x.1 = false)
    (hc : isCreate c = false) : ∀ x ∈ log ++ [⟨c, r⟩], isCreate x.1 = false := by
  intro x hx
  rcases List.mem_append.mp hx with hx | hx
  · exact h x hx
  · exact List.mem_singleton.mp hx ▸ hc

theorem asks_request_new (hquiet : ∀ x ∈ log, isCreate x.1 = false)
    (hcheck : ApprovalService.check requester tool_name risk key ttl = .ok ())
    (hlooked : ∀ k ∈ (Call.request requester tool_name arguments risk key ttl).key?,
      ⟨.find_idempotent k.scope k.user_id k.idempotency_key, .ok none⟩ ∈ log) :
    Program.Sat (Asks W (.request requester tool_name arguments risk key ttl))
      (Answers W (.request requester tool_name arguments risk key ttl)) log
      ((ApprovalService.request_new W requester tool_name arguments risk key ttl).bind
        fun record => .pure (.record record)) := by
  unfold ApprovalService.request_new
  cases hdigest : _arguments_digest W arguments with
  | error e =>
    rintro ⟨_, canonical, digest, hok⟩
    rw [hdigest] at hok
    cases hok
  | ok x =>
    obtain ⟨canonical, digest⟩ := x
    have hdumps := (digest_inv hdigest).1
    refine ⟨⟨fun _ => hquiet, trivial⟩, fun now => ?_⟩
    have h₁ := noCreate_snoc (c := .now) (r := now) hquiet rfl
    refine ⟨⟨fun _ => h₁, trivial⟩, fun uuid => ?_⟩
    have h₂ := noCreate_snoc (c := .uuid4) (r := uuid) h₁ rfl
    cases hloads : W.codec.loads canonical with
    | error e =>
      exact fun _ _ _ => .inr (.inr (.inr (.inr ⟨.inr ⟨arguments, canonical, e, hdumps, hloads⟩, e, rfl⟩)))
    | ok stored =>
      cases hlater : later now ttl with
      | error e =>
        have hlate := later_error hlater (ttl_of_check hcheck).1
        exact fun _ _ _ => .inr (.inr (.inr (.inr ⟨.inl ⟨now, by simp, hlate⟩, e, rfl⟩)))
      | ok expires_at =>
        refine ⟨⟨fun _ => h₂, ⟨uuid, by simp, rfl⟩, rfl, ⟨hcheck, canonical, digest, hdigest⟩,
          ⟨arguments, canonical, hdumps, hloads⟩, ⟨rfl, rfl⟩, fun k hk => ?_⟩, fun r => ?_⟩
        · exact List.mem_append_left _ (List.mem_append_left _ (hlooked k hk))
        · cases r with
          | error e => exact fun _ _ _ => .inr (.inr (.inr (.inl ⟨_, _, e, rfl, rfl⟩)))
          | ok _ => exact fun _ _ _ => .inr (.inr (.inl ⟨_, _, rfl, rfl⟩))

theorem asks_request : Program.Sat (Asks W (.request requester tool_name arguments risk key ttl))
    (Answers W (.request requester tool_name arguments risk key ttl)) []
    (program W (.request requester tool_name arguments risk key ttl)) := by
  simp only [program, ApprovalService.request, Program.bind_eq, Program.bind_assoc]
  cases hcheck : ApprovalService.check requester tool_name risk key ttl with
  | error e =>
    rintro ⟨hok, _⟩
    rw [hcheck] at hok
    cases hok
  | ok _ =>
    simp only [Program.ofExcept_ok, Program.pure_bind]
    split
    · rename_i hfalsy
      refine asks_request_new (by simp) hcheck fun k hk => ?_
      obtain ⟨text, rfl, rfl⟩ := Option.map_eq_some_iff.mp hk
      have hblank := (ttl_of_check hcheck).2 text rfl
      simp only [truthy, ite_eq_left_iff, reduceCtorEq, imp_false, Bool.not_eq_true, Bool.not_eq_false] at hfalsy
      rw [String.isEmpty_iff.mp hfalsy] at hblank
      cases hblank
    · rename_i text htext
      have hkey := truthy_some htext
      subst hkey
      refine ⟨⟨by simp, trivial⟩, fun r => ?_⟩
      cases r with
      | error e =>
        rintro _ k ⟨⟩
        exact .inr (.inl ⟨[], e, rfl, rfl⟩)
      | ok existing =>
        cases existing with
        | none =>
          refine asks_request_new (by simp [isCreate]) hcheck ?_
          rintro k ⟨⟩
          exact List.mem_singleton_self _
        | some existing =>
          rintro _ k ⟨⟩
          exact .inl ⟨[], existing, rfl, rfl⟩

theorem program_asks (call : Call) : Program.Sat (Asks W call) (Answers W call) [] (program W call) := by
  have other : call.key? = none → (∀ requester tool_name arguments risk key ttl,
      call ≠ .request requester tool_name arguments risk key ttl) →
      Program.Sat (Asks W call) (Answers W call) [] (program W call) := by
    intro hnone hcall
    have hissues : ∀ log c, Issues W call log c → Asks W call log c := by
      refine fun log c hc => ⟨fun h => absurd hnone h, ?_⟩
      cases c with
      | create record =>
        obtain ⟨tool_name, arguments, risk, key, ttl, _, heq, _⟩ := hc.2
        exact absurd heq (hcall _ _ _ _ _ _)
      | _ => trivial
    refine (program_sat call).mono hissues fun log o _ _ k hk => ?_
    rw [hnone] at hk
    cases hk
  cases call with
  | request => exact asks_request
  | _ => exact other rfl (by simp)

end Local

section Events

/-- Call `i` looked for a record with the key, and there was none. -/
def Looked (k : Key) (i : Nat) (e : Event) : Prop :=
  ∃ call out, e = .did i call (.find_idempotent k.scope k.user_id k.idempotency_key) (.ok none) out

/-- Call `i`, whose texts the store takes, tried to create a record with the key. -/
def Creates (b : Backend) (k : Key) (i : Nat) (e : Event) : Prop :=
  ∃ call record r out, e = .did i call (.create record) r out ∧ record.key? = some k ∧ Bindable b call

/-- A record with the key was created. -/
def Created (k : Key) (e : Event) : Prop :=
  ∃ i call record out, e = .did i call (.create record) (.ok ()) out ∧ record.key? = some k

/-- A record with the key was created between the lookup of a call and its own attempt. -/
def Raced (b : Backend) (es : List Event) : Prop :=
  ∃ k i looked created creates, [looked, created, creates].Sublist es ∧ Looked k i looked ∧ Created k created ∧
    Creates b k i creates

def drawn : Event → Option (Hex 32)
  | .did _ _ .uuid4 u _ => some u
  | _ => none

/-- The call that ended with the event, and its outcome. -/
def ended : Event → Option (Call × Except PyError Answer)
  | .started _ call out => out.map fun o => (call, o)
  | .did _ call _ _ out => out.map fun o => (call, o)
  | _ => none

/-- There is one record with a key, and every valid request with the key returned it. -/
structure Idempotent {b : Backend} (W : World) (es : List Event) (s : State b) : Prop where
  one : ∀ row ∈ s.shared.table.rows, ∀ row' ∈ s.shared.table.rows,
    row.request.SameKey row'.request → row = row'
  returned : ∀ e ∈ es, ∀ call o, ended e = some (call, o) → Valid W call → Bindable b call → ∀ k ∈ call.key?,
    ∃ row ∈ s.shared.table.rows, row.request.key? = some k ∧
      ∃ then_ record, then_.Later row ∧ _from_row W.codec then_ = .ok record ∧ o = .ok (.record record)

end Events

section Runs

variable {b : Backend} {W : World} {clock : Instant} {es : List Event} {s : State b} {i : Nat} {call : Call}
  {record : ApprovalRecord}

theorem traced (h : (pool b W).machine.Run Machine.Free (.init ⟨Table.empty, clock⟩) es s) {th} (hi : s.threads i = .live th) :
    Pool.Traced (Asks W) (Answers W) es i th := Pool.traced_of_run program_asks h i th hi

/-- A request ends with its attempt to create a record. -/
theorem create_ends (h : (pool b W).machine.Run Machine.Free (.init ⟨Table.empty, clock⟩) es s)
    {r : Except PyError Unit} {out : Option (Except PyError Answer)} (he : .did i call (.create record) r out ∈ es)
    (hkey : call.key? ≠ none) : ∃ o, out = some o := by
  obtain ⟨pre, post, heq⟩ := List.append_of_mem he
  obtain ⟨u, ch, log, k, _, _, _, htraced, _, rfl⟩ := Pool.did_of_run program_asks h heq
  obtain ⟨o, ho, _⟩ := (htraced.sat.2 r).ended fun c hc => by
    have hfalse := hc.1 hkey ⟨.create record, r⟩ (by simp)
    cases hfalse
  exact ⟨o, ho⟩

/-- The id of a record was drawn by the call that creates it. -/
theorem id_drawn (h : (pool b W).machine.Run Machine.Free (.init ⟨Table.empty, clock⟩) es s)
    {r : Except PyError Unit} {out : Option (Except PyError Answer)} (he : .did i call (.create record) r out ∈ es) :
    ∃ u out', .did i call .uuid4 u out' ∈ es ∧ record.id = u.text := by
  obtain ⟨pre, post, heq⟩ := List.append_of_mem he
  obtain ⟨_, ch, log, k, _, _, _, htraced, _, _⟩ := Pool.did_of_run program_asks h heq
  obtain ⟨_, ⟨u, hu, hid⟩, _⟩ := htraced.sat.1
  obtain ⟨out', hmem⟩ := htraced.log _ hu
  exact ⟨u, out', by rw [heq]; exact List.mem_append_left _ hmem, hid⟩

/-- A value that is drawn once is drawn by one event. -/
theorem eq_of_drawn (hnodup : (es.filterMap drawn).Nodup) {e e' : Event} (he : e ∈ es) (he' : e' ∈ es)
    {u : Hex 32} (hu : drawn e = some u) (hu' : drawn e' = some u) : e = e' := by
  induction es with
  | nil => cases he
  | cons x es ih =>
    have hmem : ∀ y ∈ es, drawn y = some u → u ∈ es.filterMap drawn := fun y hy hyu =>
      List.mem_filterMap.mpr ⟨y, hy, hyu⟩
    have htail : (es.filterMap drawn).Nodup := by
      rw [List.filterMap_cons] at hnodup
      split at hnodup
      · exact hnodup
      · exact (List.nodup_cons.mp hnodup).2
    have hhead : drawn x = some u → u ∉ es.filterMap drawn := by
      intro hx
      rw [List.filterMap_cons_some hx] at hnodup
      exact (List.nodup_cons.mp hnodup).1
    rcases List.mem_cons.mp he with rfl | hin <;> rcases List.mem_cons.mp he' with rfl | hin'
    · rfl
    · exact absurd (hmem e' hin' hu') (hhead hu)
    · exact absurd (hmem e hin hu) (hhead hu')
    · exact ih htail hin hin'

/-- No row has the id of a record that is about to be created. -/
theorem id_fresh (h : (pool b W).machine.Run Machine.Free (.init ⟨Table.empty, clock⟩) es s)
    (hnodup : (es.filterMap drawn).Nodup) {log : Log} {k}
    (hi : s.threads i = .live ⟨call, log, .cmd (.create record) k⟩) (hkey : call.key? ≠ none) :
    ∀ row ∈ s.shared.table.rows, row.request.id ≠ record.id := by
  intro row hrow hid
  have hL : Ledger W es s.shared.table := (holds_of_run h).inv
  obtain ⟨j, call', record', arguments, out, _, hcreated, hreq⟩ := hL.made row hrow
  obtain ⟨u', out', hdrawn', hid'⟩ := id_drawn h hcreated
  have htraced := traced h hi
  obtain ⟨_, ⟨u, hu, hid''⟩, _⟩ := htraced.sat.1
  obtain ⟨out'', hdrawn⟩ := htraced.log _ hu
  have hsame : u' = u := Hex.text_injective (by
    rw [← hid', ← hid'', ← hid, hreq]
    rfl)
  subst hsame
  -- the draw belongs to one call, whose record was created already
  cases eq_of_drawn hnodup hdrawn hdrawn' rfl rfl
  obtain ⟨o, rfl⟩ := create_ends h hcreated hkey
  have hend := (Pool.owned_of_run h).ended hcreated
  rw [hi] at hend
  cases hend

/-- The arguments of a request can be read back. -/
def Readable (W : World) (r : Request) : Prop :=
  match r.arguments with
  | .value _ => True
  | .text text => ∃ value, W.codec.loads text = .ok value

theorem from_row_readable {row : Row} (h : Readable W row.request) : ∃ record, _from_row W.codec row = .ok record := by
  unfold Readable at h
  unfold _from_row
  cases harguments : row.request.arguments with
  | value arguments => exact ⟨_, rfl⟩
  | text text =>
    rw [harguments] at h
    obtain ⟨value, hvalue⟩ := h
    simp only [hvalue]
    exact ⟨_, rfl⟩

/-- Where the requests of the rows come from. -/
theorem rows_origin {d d' : Desk b} {c : Cmd} {r : Reply c} {ch : Choice} (h : d.apply W call c ch = (r, d'))
    {row : Row} (hrow : row ∈ d'.table.rows) : (∃ old ∈ d.table.rows, old.request = row.request) ∨
      ∃ record arguments, c = .create record ∧ b.encode W.codec record.arguments = .ok arguments ∧
        row = record.row arguments := by
  cases c with
  | create record =>
    change ((d.table.create W.codec record).1,
      { d with table := (d.table.create W.codec record).2 }) = (r, d') at h
    generalize hx : d.table.create W.codec record = x at h
    obtain ⟨r', u⟩ := x
    cases h
    obtain ⟨rfl, _⟩ | ⟨arguments, _, henc, hrows⟩ := Approvals.create_cases hx
    · exact .inl ⟨row, hrow, rfl⟩
    · rw [hrows] at hrow
      rcases List.mem_append.mp hrow with hrow | hrow
      · exact .inl ⟨row, hrow, rfl⟩
      · exact .inr ⟨record, arguments, rfl, henc, List.mem_singleton.mp hrow⟩
  | decide id scope status approver decided_at hash =>
    obtain ⟨rfl, _⟩ | ⟨old, hold, _, _, _, _, _, hrows⟩ := apply_decide h
    · exact .inl ⟨row, hrow, rfl⟩
    · obtain rfl | ⟨hrow, _⟩ := (hrows row).mp hrow
      · exact .inl ⟨old, hold, rfl⟩
      · exact .inl ⟨row, hrow, rfl⟩
  | _ =>
    cases h
    exact .inl ⟨row, hrow, rfl⟩

theorem rows_readable (h : (pool b W).machine.Run Machine.Free (.init ⟨Table.empty, clock⟩) es s)
    (hjson : RoundTrip W.codec) : ∀ row ∈ s.shared.table.rows, Readable W row.request := by
  refine h.invariant (I := fun _ s => ∀ row ∈ s.shared.table.rows, Readable W row.request) (by simp [Pool.State.init, Table.empty]) ?_
  intro es s a t e _ _ hs ih row hrow
  cases Pool.step_cases hs with
  | start | crash | env => exact ih row hrow
  | @step i ch call log c k hi =>
    have hx : s.shared.apply W call c ch = ((s.shared.apply W call c ch).1, (s.shared.apply W call c ch).2) := rfl
    obtain ⟨old, hold, heq⟩ | ⟨record, arguments, _, henc, rfl⟩ := rows_origin hx hrow
    · rw [← heq]
      exact ih old hold
    · have hdumped : ∀ text, W.codec.dumps record.arguments = .ok text → ∃ value, W.codec.loads text = .ok value :=
        fun text htext => (hjson _ _ htext).imp fun _ hv => hv.1
      cases hdumps : W.codec.dumps record.arguments with
      | error e =>
        cases b with
        | memory =>
          cases henc
          trivial
        | sqlite | postgres =>
          simp [Backend.encode, hdumps, Except.map, Except.mapError] at henc
      | ok text =>
        cases b with
        | memory =>
          cases henc
          trivial
        | sqlite | postgres =>
          simp only [Backend.encode, hdumps, Except.map, Except.mapError] at henc
          cases henc
          exact hdumped text hdumps

theorem clock_mono (h : (pool b W).machine.Run Machine.Free (.init ⟨Table.empty, clock⟩) es s) :
    ∀ j call' now out, .did j call' .now now out ∈ es → now ≤ s.shared.clock := by
  refine h.invariant (I := fun es s => ∀ j call' now out, Pool.Event.did j call' .now now out ∈ es →
    now ≤ s.shared.clock) (by simp) ?_
  intro es s a t e _ _ hs ih j call' now out he
  cases Pool.step_cases hs with
  | start | crash => exact ih j call' now out (by simpa using he)
  | @env n => exact (ih j call' now out (by simpa using he)).trans (Nat.le_add_right _ _)
  | @step i ch call log c k hi =>
    have hclock : s.shared.clock = (s.shared.apply W call c ch).2.clock := by cases c <;> rfl
    rcases List.mem_append.mp he with he | he
    · exact (ih j call' now out he).trans_eq hclock
    · cases List.mem_singleton.mp he
      exact le_refl _

/-- The texts of a key can be parameters if those of the call can. -/
theorem Bindable.key {k : Key} (h : Bindable b call) (hk : k ∈ call.key?) :
    b.bind [k.scope.workspace_id, k.scope.tenant_id, k.user_id, k.idempotency_key] = .ok () := by
  refine bind_eq_ok.mpr fun hb text hmem => ?_
  cases call with
  | request requester tool_name arguments risk key ttl =>
    obtain ⟨key, rfl, rfl⟩ := Option.map_eq_some_iff.mp hk
    refine h hb text ?_
    simp only [Scope.of, List.mem_cons, List.not_mem_nil, or_false] at hmem
    simp only [Option.toList_some, List.mem_append, List.mem_cons, List.not_mem_nil, or_false]
    tauto
  | _ => cases hk

/-- What a lookup finds. -/
theorem apply_find {d d' : Desk b} {k : Key} {ch : Choice} {r : Except PyError (Option ApprovalRecord)}
    (h : d.apply W call (.find_idempotent k.scope k.user_id k.idempotency_key) ch = (r, d')) : d' = d ∧
      ((r = .ok none ∧ ∀ row ∈ d.table.rows, row.request.key? ≠ some k) ∨
        (∃ row ∈ d.table.rows, row.request.key? = some k ∧ r = (_from_row W.codec row).map some) ∨
        ∃ e, r = .error e ∧
          b.bind [k.scope.workspace_id, k.scope.tenant_id, k.user_id, k.idempotency_key] = .error e) := by
  obtain ⟨rfl, rfl⟩ := Prod.mk.inj h
  have hkey : ∀ row : Row, (row.request.scope = k.scope && row.request.requester.user_id = k.user_id &&
      row.request.idempotency_key = some k.idempotency_key) = true ↔ row.request.key? = some k := by
    intro row
    cases k
    simp only [Bool.and_eq_true, decide_eq_true_eq, Request.key?, Option.map_eq_some_iff, Key.mk.injEq]
    exact ⟨fun ⟨⟨hs, hu⟩, hk⟩ => ⟨_, hk, hs, hu, rfl⟩, fun ⟨_, hk, hs, hu, heq⟩ => ⟨⟨hs, hu⟩, heq ▸ hk⟩⟩
  refine ⟨rfl, ?_⟩
  unfold Approvals.find_idempotent
  split
  · rename_i e he
    exact .inr (.inr ⟨e, rfl, he⟩)
  split
  · rename_i hnone
    exact .inl ⟨rfl, fun row hrow hk => List.find?_eq_none.mp hnone row hrow ((hkey row).mpr hk)⟩
  · rename_i row hrow
    have hfound := List.find?_some hrow
    exact .inr (.inl ⟨row, List.mem_of_find?_eq_some hrow, (hkey row).mp hfound, rfl⟩)

/-- A record is created unless it clashes with a row, or the store does not take its texts. -/
theorem apply_create_fresh {d d' : Desk b} {ch : Choice} {r : Except PyError Unit} {arguments : Stored}
    (h : d.apply W call (.create record) ch = (r, d')) (henc : b.encode W.codec record.arguments = .ok arguments) :
    (d' = d ∧ ((∃ row ∈ d.table.rows, Clash b row (record.row arguments)) ∨
      b.bind (record.params arguments) ≠ .ok ())) ∨
      (r = .ok () ∧ b.bind (record.params arguments) = .ok () ∧
        d'.table.rows = d.table.rows ++ [record.row arguments]) := by
  change ((d.table.create W.codec record).1,
    { d with table := (d.table.create W.codec record).2 }) = (r, d') at h
  unfold Approvals.create at h
  rw [henc] at h
  cases hbind : b.bind (record.params arguments) with
  | error e =>
    simp only [hbind] at h
    cases h
    exact .inl ⟨rfl, .inr (by simp)⟩
  | ok _ =>
  cases hinsert : d.table.insert? (record.row arguments) with
  | none =>
    simp only [hbind, hinsert] at h
    cases h
    exact .inl ⟨rfl, .inl (Table.insert?_eq_none.mp hinsert)⟩
  | some u =>
    simp only [hbind, hinsert] at h
    cases h
    exact .inr ⟨rfl, rfl, (Table.insert?_eq_some.mp hinsert).2⟩

/-- A new record has been written as it is read. -/
theorem encode_readable (hjson : RoundTrip W.codec) {value : Json} {text : String}
    (hdumps : W.codec.dumps value = .ok text) (hloads : W.codec.loads text = .ok record.arguments)
    (hnew : record.approver_user_id = none ∧ record.decided_at = none) :
    ∃ arguments, b.encode W.codec record.arguments = .ok arguments ∧
      _from_row W.codec (record.row arguments) = .ok record := by
  obtain ⟨value', hloads', hdumps'⟩ := hjson value text hdumps
  obtain rfl := Except.ok.inj (hloads'.symm.trans hloads)
  have hback : ∀ arguments, (arguments = .value record.arguments ∨ arguments = .text text) →
      _from_row W.codec (record.row arguments) = .ok record := by
    rintro arguments (rfl | rfl) <;> obtain ⟨happrover, hdecided⟩ := hnew <;> cases record <;> cases happrover <;>
      cases hdecided
    · rfl
    · simp only [_from_row, ApprovalRecord.row, hloads]
      rfl
  cases b with
  | memory => exact ⟨_, rfl, hback _ (.inl rfl)⟩
  | sqlite | postgres =>
    refine ⟨.text text, ?_, hback _ (.inr rfl)⟩
    simp [Backend.encode, hdumps', Except.map, Except.mapError]

/-- As long as nothing raced: where a record stands for a key that a call found none for, it was
created after the lookup. -/
structure Watch (W : World) (es : List Event) (s : State b) : Prop extends Idempotent W es s where
  overtaken : ∀ i th, s.threads i = .live th → ∀ k ∈ th.call.key?,
    ⟨.find_idempotent k.scope k.user_id k.idempotency_key, .ok none⟩ ∈ th.log →
    ∀ row ∈ s.shared.table.rows, row.request.key? = some k →
      ∃ looked created, [looked, created].Sublist es ∧ Looked k i looked ∧ Created k created

variable {u : State b}

theorem Idempotent.later (hi : Idempotent W es s) {e : Event}
    (hlater : ∀ row ∈ s.shared.table.rows, ∃ row' ∈ u.shared.table.rows, row.Later row')
    (hone : ∀ row ∈ u.shared.table.rows, ∀ row' ∈ u.shared.table.rows,
      row.request.SameKey row'.request → row = row')
    (hnew : ∀ call o, ended e = some (call, o) → Valid W call → Bindable b call → ∀ k ∈ call.key?,
      ∃ row ∈ u.shared.table.rows, row.request.key? = some k ∧
        ∃ then_ record, then_.Later row ∧ _from_row W.codec then_ = .ok record ∧ o = .ok (.record record)) :
    Idempotent W (es ++ [e]) u := by
  refine ⟨hone, fun e' he' call o hend hvalid hbindable k hk => ?_⟩
  rcases List.mem_append.mp he' with he' | he'
  · obtain ⟨row, hrow, hkey, then_, record, hl, hfrom, ho⟩ := hi.returned e' he' call o hend hvalid hbindable k hk
    obtain ⟨row', hrow', hl'⟩ := hlater row hrow
    exact ⟨row', hrow', by rw [hl'.1, hkey], then_, record, hl.trans hl', hfrom, ho⟩
  · obtain rfl := List.mem_singleton.mp he'
    exact hnew call o hend hvalid hbindable k hk

/-- Rows that come from rows are one for each key. -/
theorem one_of_origin (hone : ∀ row ∈ s.shared.table.rows, ∀ row' ∈ s.shared.table.rows,
      row.request.SameKey row'.request → row = row')
    (horigin : ∀ row ∈ u.shared.table.rows, ∃ old ∈ s.shared.table.rows, old.request = row.request) :
    ∀ row ∈ u.shared.table.rows, ∀ row' ∈ u.shared.table.rows, row.request.SameKey row'.request → row = row' := by
  intro row hrow row' hrow' hsame
  obtain ⟨old, hold, heq⟩ := horigin row hrow
  obtain ⟨old', hold', heq'⟩ := horigin row' hrow'
  rw [← heq, ← heq'] at hsame
  obtain rfl := hone old hold old' hold' hsame
  exact Approvals.eq_of_id hrow hrow' (by rw [← heq, ← heq'])

/-- The threads of the next state, with what they were told. -/
theorem live_set {x : Pool.Slot Cmd Reply Call PyError Answer} {d : Desk b} {j : Nat} {th}
    (hj : (({ s with shared := d } : State b).set i x).threads j = .live th) :
    (j = i ∧ x = .live th) ∨ s.threads j = .live th := by
  rw [Pool.State.set_threads] at hj
  split at hj
  · rename_i hji
    exact .inl ⟨hji, hj⟩
  · exact .inr hj

theorem sublist_snoc {e : Event} {xs : List Event} (h : xs.Sublist es) : xs.Sublist (es ++ [e]) :=
  h.trans (List.sublist_append_left _ _)

theorem not_hindered {log : Log} (hjson : RoundTrip W.codec)
    (hclock : ∀ now : Instant, ⟨.now, now⟩ ∈ log → now + 86400 * 1000000 < wallEnd) : ¬ Hindered W log := by
  rintro (⟨now, hnow, hlate⟩ | ⟨arguments, canonical, e, hdumps, hloads⟩)
  · exact absurd (hclock now hnow) (Nat.not_lt.mpr hlate)
  · obtain ⟨value, hvalue, _⟩ := hjson _ _ hdumps
    rw [hvalue] at hloads
    cases hloads

/-- An event that leaves the rows alone, and tells no call anything. -/
theorem Watch.quiet (hw : Watch W es s) {e : Event} (hrows : u.shared.table.rows = s.shared.table.rows)
    (hlive : ∀ j th, u.threads j = .live th → th.log = [] ∨ s.threads j = .live th)
    (hend : ∀ call o, ended e = some (call, o) → Valid W call → ∀ k ∈ call.key?, False) :
    Watch W (es ++ [e]) u := by
  refine ⟨hw.toIdempotent.later ?_ ?_ ?_, ?_⟩
  · rw [hrows]
    exact fun row hrow => ⟨row, hrow, .refl row⟩
  · rw [hrows]
    exact hw.one
  · exact fun call o ho hvalid _ k hk => (hend call o ho hvalid k hk).elim
  · intro j th hj k hk hnone row hrow hrowkey
    rw [hrows] at hrow
    rcases hlive j th hj with hnil | hj'
    · rw [hnil] at hnone
      cases hnone
    · obtain ⟨looked, created, hsub, hl, hc⟩ := hw.overtaken j th hj' k hk hnone row hrow hrowkey
      exact ⟨looked, created, sublist_snoc hsub, hl, hc⟩

section Step

variable {log : Log} {c : Cmd} {k : Reply c → Code Answer} {ch : Choice} {r : Reply c} {d : Desk b}

/-- The clock readings of a call, with a bound on the clock. -/
theorem readings (h : (pool b W).machine.Run Machine.Free (.init ⟨Table.empty, clock⟩) es s)
    (hi : s.threads i = .live ⟨call, log, .cmd c k⟩) (hx : s.shared.apply W call c ch = (r, d))
    (hclock : s.shared.clock + 86400 * 1000000 < wallEnd) :
    ∀ now : Instant, ⟨.now, now⟩ ∈ log ++ [⟨c, r⟩] → now + 86400 * 1000000 < wallEnd := by
  intro now hnow
  have hle : now ≤ s.shared.clock := by
    rcases List.mem_append.mp hnow with hnow | hnow
    · obtain ⟨out, hmem⟩ := (traced h hi).log _ hnow
      exact clock_mono h i call now out hmem
    · cases List.mem_singleton.mp hnow
      exact (congrArg Prod.fst hx).symm.le
  exact (Nat.add_le_add_right hle _).trans_lt hclock

/-- A lookup ends a request with the record that it finds. -/
theorem returned_other (h : (pool b W).machine.Run Machine.Free (.init ⟨Table.empty, clock⟩) es s)
    (hjson : RoundTrip W.codec) (hclock : s.shared.clock + 86400 * 1000000 < wallEnd)
    (hi : s.threads i = .live ⟨call, log, .cmd c k⟩) (hx : s.shared.apply W call c ch = (r, d))
    (hc : isCreate c = false) {o : Except PyError Answer} (ho : (k r).outcome? = some o) (hvalid : Valid W call)
    (hbindable : Bindable b call) {key : Key} (hkey : key ∈ call.key?) : ∃ row ∈ d.table.rows, row.request.key? = some key ∧
      ∃ then_ record, then_.Later row ∧ _from_row W.codec then_ = .ok record ∧ o = .ok (.record record) := by
  have hends := ((traced h hi).sat.2 r).outcome ho hvalid key hkey
  have last : ∀ {c' r'} {pre : Log}, log ++ [⟨c, r⟩] = pre ++ [⟨c', r'⟩] → (⟨c, r⟩ : (c : Cmd) × Reply c) = ⟨c', r'⟩ :=
    fun heq => List.singleton_inj.mp (List.append_inj' heq rfl).2
  rcases hends with ⟨pre, record, heq, rfl⟩ | ⟨pre, e, heq, rfl⟩ | ⟨pre, record, heq, _⟩ | ⟨pre, record, e, heq, _⟩ | ⟨hhind, _⟩
  · cases last heq
    obtain ⟨rfl, ⟨hnone, _⟩ | ⟨row, hrow, hrowkey, hr⟩ | ⟨e, he, _⟩⟩ := apply_find hx
    · cases hnone
    rotate_left
    · cases he
    · cases hfrom : _from_row W.codec row with
      | error e =>
        rw [hfrom] at hr
        cases hr
      | ok found =>
        rw [hfrom] at hr
        cases hr
        exact ⟨row, hrow, hrowkey, row, record, .refl row, hfrom, rfl⟩
  · cases last heq
    obtain ⟨rfl, ⟨hnone, _⟩ | ⟨row, hrow, hrowkey, hr⟩ | ⟨_, _, hrefused⟩⟩ := apply_find hx
    · cases hnone
    · obtain ⟨found, hfrom⟩ := from_row_readable (rows_readable h hjson row hrow)
      rw [hfrom] at hr
      cases hr
    · rw [hbindable.key hkey] at hrefused
      cases hrefused
  · cases last heq
    cases hc
  · cases last heq
    cases hc
  · exact absurd hhind (not_hindered hjson (readings h hi hx hclock))

theorem watch_other (h : (pool b W).machine.Run Machine.Free (.init ⟨Table.empty, clock⟩) es s)
    (hjson : RoundTrip W.codec) (hclock : s.shared.clock + 86400 * 1000000 < wallEnd) (hw : Watch W es s)
    (hi : s.threads i = .live ⟨call, log, .cmd c k⟩) (hx : s.shared.apply W call c ch = (r, d))
    (hc : isCreate c = false) : Watch W (es ++ [.did i call c r (k r).outcome?])
      (({ s with shared := d } : State b).set i (Pool.Thread.slot ⟨call, log ++ [⟨c, r⟩], k r⟩)) := by
  have hissues := ((holds_of_run h).live hi).1.1
  have horigin : ∀ row ∈ d.table.rows, ∃ old ∈ s.shared.table.rows, old.request = row.request := by
    intro row hrow
    obtain hold | ⟨record, _, rfl, _⟩ := rows_origin hx hrow
    · exact hold
    · cases hc
  refine ⟨hw.toIdempotent.later (rows_later hissues hx) (one_of_origin (u := { s with shared := d }) hw.one horigin) ?_, ?_⟩
  · rintro call' o hend hvalid hbindable key hkey
    obtain ⟨o', ho, heq⟩ := Option.map_eq_some_iff.mp hend
    cases heq
    exact returned_other h hjson hclock hi hx hc ho hvalid hbindable hkey
  · intro j th hj key hkey hnone row hrow hrowkey
    obtain ⟨old, hold, heq⟩ := horigin row hrow
    rw [← heq] at hrowkey
    have before : ∀ {th'}, s.threads j = .live th' → th'.call = th.call →
        ⟨.find_idempotent key.scope key.user_id key.idempotency_key, .ok none⟩ ∈ th'.log →
        ∃ looked created, [looked, created].Sublist (es ++ [.did i call c r (k r).outcome?]) ∧
          Looked key j looked ∧ Created key created := by
      intro th' hj' hcall hmem
      obtain ⟨looked, created, hsub, hlooked, hcreated⟩ :=
        hw.overtaken j th' hj' key (hcall ▸ hkey) hmem old hold hrowkey
      exact ⟨looked, created, sublist_snoc hsub, hlooked, hcreated⟩
    rcases live_set hj with ⟨rfl, hslot⟩ | hj'
    · obtain rfl := Pool.Thread.slot_eq_live hslot
      rcases List.mem_append.mp hnone with hold' | hlast
      · exact before hi rfl hold'
      · -- the lookup itself saw no such row
        cases List.mem_singleton.mp hlast
        obtain ⟨_, ⟨_, hno⟩ | ⟨found, _, _, hr⟩ | ⟨_, hr, _⟩⟩ := apply_find hx
        · exact absurd hrowkey (hno old hold)
        · cases hfrom : _from_row W.codec found <;> rw [hfrom] at hr <;> cases hr
        · cases hr
    · exact before hj' rfl hnone

/-- A creation that does not succeed leaves the rows alone, and is reported to the caller. -/
theorem watch_failed {k : Except PyError Unit → Code Answer} {r : Except PyError Unit}
    (hw : Watch W es s) (hi : s.threads i = .live ⟨call, log, .cmd (.create record) k⟩)
    (hkey : Bindable b call → call.key? = none) :
    Watch W (es ++ [.did i call (.create record) r (k r).outcome?])
      (s.set i (Pool.Thread.slot ⟨call, log ++ [⟨.create record, r⟩], k r⟩)) := by
  refine ⟨hw.toIdempotent.later (fun row hrow => ⟨row, hrow, .refl row⟩) hw.one ?_, ?_⟩
  · rintro call' o hend hvalid hbindable key hkey'
    obtain ⟨o', ho, heq⟩ := Option.map_eq_some_iff.mp hend
    cases heq
    rw [hkey hbindable] at hkey'
    cases hkey'
  · intro j th hj key hkey' hnone row hrow hrowkey
    have before : ∀ {th'}, s.threads j = .live th' → th'.call = th.call →
        ⟨.find_idempotent key.scope key.user_id key.idempotency_key, .ok none⟩ ∈ th'.log →
        ∃ looked created, [looked, created].Sublist (es ++ [.did i call (.create record) r (k r).outcome?]) ∧
          Looked key j looked ∧ Created key created := by
      intro th' hj' hcall hmem
      obtain ⟨looked, created, hsub, hlooked, hcreated⟩ :=
        hw.overtaken j th' hj' key (hcall ▸ hkey') hmem row hrow hrowkey
      exact ⟨looked, created, sublist_snoc hsub, hlooked, hcreated⟩
    rw [Pool.State.set_threads] at hj
    split at hj
    · rename_i hji
      subst hji
      obtain rfl := Pool.Thread.slot_eq_live hj
      rcases List.mem_append.mp hnone with hold | hlast
      · exact before hi rfl hold
      · cases List.mem_singleton.mp hlast
    · exact before hj rfl hnone

/-- A creation adds the one row for its key. -/
theorem watch_created {k : Except PyError Unit → Code Answer}
    (h : (pool b W).machine.Run Machine.Free (.init ⟨Table.empty, clock⟩) es s) (hw : Watch W es s)
    (hjson : RoundTrip W.codec) (hclock : s.shared.clock + 86400 * 1000000 < wallEnd)
    (hi : s.threads i = .live ⟨call, log, .cmd (.create record) k⟩) {arguments : Stored}
    (hx : s.shared.apply W call (.create record) ch = (.ok (), d))
    (hrows : d.table.rows = s.shared.table.rows ++ [record.row arguments])
    (hback : _from_row W.codec (record.row arguments) = .ok record)
    (halone : ∀ row ∈ s.shared.table.rows, ∀ key ∈ record.key?, row.request.key? ≠ some key) :
    Watch W (es ++ [.did i call (.create record) (.ok ()) (k (.ok ())).outcome?])
      (({ s with shared := d } : State b).set i (Pool.Thread.slot ⟨call, log ++ [⟨.create record, .ok ()⟩], k (.ok ())⟩)) := by
  have htraced := traced h hi
  obtain ⟨_, _, hsame, _, _, _, hlooked⟩ := htraced.sat.1
  have hold : ∀ row ∈ s.shared.table.rows, row ∈ d.table.rows := fun row hrow => by
    rw [hrows]
    exact List.mem_append_left _ hrow
  have hnew : record.row arguments ∈ d.table.rows := by
    rw [hrows]
    exact List.mem_append_right _ (List.mem_singleton_self _)
  refine ⟨hw.toIdempotent.later (fun row hrow => ⟨row, hold row hrow, .refl row⟩) ?_ ?_, ?_⟩
  · intro row hrow row' hrow' hkeys
    obtain ⟨key, hkey, hkey'⟩ := sameKey_iff.mp hkeys
    change row ∈ d.table.rows at hrow
    change row' ∈ d.table.rows at hrow'
    rw [hrows] at hrow hrow'
    rcases List.mem_append.mp hrow with hin | hin <;> rcases List.mem_append.mp hrow' with hin' | hin'
    · exact hw.one row hin row' hin' hkeys
    · obtain rfl := List.mem_singleton.mp hin'
      exact absurd hkey (halone row hin key hkey')
    · obtain rfl := List.mem_singleton.mp hin
      exact absurd hkey' (halone row' hin' key hkey)
    · rw [List.mem_singleton.mp hin, List.mem_singleton.mp hin']
  · rintro call' o hend hvalid _ key hkey
    obtain ⟨o', ho, heq⟩ := Option.map_eq_some_iff.mp hend
    cases heq
    have hends := (htraced.sat.2 (.ok ())).outcome ho hvalid key hkey
    refine ⟨record.row arguments, hnew, hsame.trans hkey, record.row arguments, record, .refl _, hback, ?_⟩
    rcases hends with ⟨pre, record', heq, _⟩ | ⟨pre, e, heq, _⟩ | ⟨pre, record', heq, rfl⟩ | ⟨pre, record', e, heq, _⟩ | ⟨hhind, _⟩
    · cases (List.append_inj' heq rfl).2
    · cases (List.append_inj' heq rfl).2
    · cases (List.append_inj' heq rfl).2
      rfl
    · cases (List.append_inj' heq rfl).2
    · exact absurd hhind (not_hindered hjson (readings h hi hx hclock))
  · intro j th hj key hkey hnone row hrow hrowkey
    change row ∈ d.table.rows at hrow
    rw [hrows] at hrow
    rcases live_set hj with ⟨rfl, hslot⟩ | hj'
    · -- the call has ended
      obtain ⟨o, ho, _⟩ := (htraced.sat.2 (.ok ())).ended fun c hc => by
        have hkey' : call.key? ≠ none := by
          obtain rfl := Pool.Thread.slot_eq_live hslot
          rw [Option.mem_def.mp hkey]
          exact Option.some_ne_none _
        have hfalse := hc.1 hkey' ⟨.create record, .ok ()⟩ (by simp)
        cases hfalse
      rw [Pool.Thread.slot, show (k (.ok ())).outcome? = some o from ho] at hslot
      cases hslot
    · rcases List.mem_append.mp hrow with hin | hin
      · obtain ⟨looked, created, hsub, hlooked, hcreated⟩ := hw.overtaken j th hj' key hkey hnone row hin hrowkey
        exact ⟨looked, created, sublist_snoc hsub, hlooked, hcreated⟩
      · obtain rfl := List.mem_singleton.mp hin
        obtain ⟨out, hmem⟩ := (traced h hj').log _ hnone
        refine ⟨_, _, ?_, ⟨th.call, out, rfl⟩, ⟨i, call, record, (k (.ok ())).outcome?, rfl, hrowkey⟩⟩
        exact (List.singleton_sublist.mpr hmem).append (List.Sublist.refl [_])

/-- What a request creates can be bound exactly if the texts of the request can. -/
theorem bind_record (hescapes : Escapes W.codec) (hnew : Creating W call record)
    (hid : ∃ u : Hex 32, record.id = u.text) (hkey : record.key? = call.key?) {arguments : Stored}
    (henc : b.encode W.codec record.arguments = .ok arguments) :
    b.bind (record.params arguments) = .ok () ↔ Bindable b call := by
  obtain ⟨tool_name, args, risk, key, ttl, canonical, rfl, rfl, hdigest, -, -⟩ := hnew
  obtain ⟨u, hu⟩ := hid
  have hkeys : record.idempotency_key = key :=
    Option.map_injective (fun _ _ heq => (Key.mk.inj heq).2.2) hkey
  have hhash := (digest_inv hdigest).2
  have hcall : Bindable b (.request record.requester record.tool_name args risk key ttl) ↔ (b = .postgres →
      ∀ text ∈ [record.requester.workspace_id, record.requester.tenant_id, record.requester.user_id,
        record.requester.role, record.tool_name] ++ record.idempotency_key.toList, hasNul text = false) := by
    rw [hkeys]
    rfl
  rw [bind_eq_ok, hcall]
  refine forall_congr' fun hb => ?_
  subst hb
  have htext : ∀ text ∈ arguments.params, hasNul text = false := by
    cases hdumps : W.codec.dumps record.arguments with
    | error e => simp [Backend.encode, hdumps, Except.map, Except.mapError] at henc
    | ok json =>
      simp only [Backend.encode, hdumps, Except.map, Except.mapError, Except.ok.injEq] at henc
      subst henc
      simpa [Stored.params] using hescapes _ _ hdumps
  have hrisk : hasNul record.risk.value = false := by cases record.risk <;> decide
  have hid : hasNul record.id = false := hu ▸ hex_plain u
  have hdigit : hasNul record.arguments_hash = false := hhash ▸ hex_plain _
  simp only [ApprovalRecord.params, List.forall_mem_append, List.forall_mem_cons, hid, hdigit, hrisk,
    List.not_mem_nil, false_implies, implies_true, and_true, true_and]
  exact ⟨fun ⟨⟨hmem, _⟩, hkey⟩ => ⟨hmem, hkey⟩, fun ⟨hmem, hkey⟩ => ⟨⟨hmem, htext⟩, hkey⟩⟩

theorem watch_create {k : Except PyError Unit → Code Answer} {r : Except PyError Unit}
    (h : (pool b W).machine.Run Machine.Free (.init ⟨Table.empty, clock⟩) es s) (hescapes : Escapes W.codec)
    (hjson : RoundTrip W.codec) (hclock : s.shared.clock + 86400 * 1000000 < wallEnd)
    (hnodup : (es.filterMap drawn).Nodup) (hw : Watch W es s)
    (hi : s.threads i = .live ⟨call, log, .cmd (.create record) k⟩)
    (hx : s.shared.apply W call (.create record) ch = (r, d))
    (hraced : ¬ Raced b (es ++ [.did i call (.create record) r (k r).outcome?])) :
    Watch W (es ++ [.did i call (.create record) r (k r).outcome?])
      (({ s with shared := d } : State b).set i (Pool.Thread.slot ⟨call, log ++ [⟨.create record, r⟩], k r⟩)) := by
  obtain ⟨_, ⟨u, _, hid⟩, hsame, _, ⟨value, text, hdumps, hloads⟩, hnew, hlooked⟩ := (traced h hi).sat.1
  obtain ⟨arguments, henc, hback⟩ := encode_readable (b := b) hjson hdumps hloads hnew
  have hbound : b.bind (record.params arguments) = .ok () ↔ Bindable b call :=
    bind_record hescapes ((holds_of_run h).live hi).1.1.2 ⟨u, hid⟩ hsame henc
  -- a row with the key would have been created since the lookup
  have halone : Bindable b call → ∀ row ∈ s.shared.table.rows, ∀ key ∈ record.key?,
      row.request.key? ≠ some key := by
    intro hbindable row hrow key hkey hrowkey
    have hcall : key ∈ call.key? := by
      rw [← show record.key? = call.key? from hsame]
      exact hkey
    obtain ⟨looked, created, hsub, hl, hc⟩ := hw.overtaken i _ hi key hcall (hlooked key hcall) row hrow hrowkey
    refine hraced ⟨key, i, looked, created, _, hsub.append (List.Sublist.refl [_]), hl, hc, ?_⟩
    exact ⟨call, record, r, (k r).outcome?, rfl, hkey, hbindable⟩
  obtain ⟨rfl, hrefused⟩ | ⟨rfl, hbind, hrows⟩ := apply_create_fresh hx henc
  · refine watch_failed hw hi fun hbindable => ?_
    by_contra hkey
    obtain ⟨row, hrow, hid | ⟨_, hkeys⟩⟩ | hbind := hrefused
    · exact absurd hid (id_fresh h hnodup hi hkey row hrow)
    · obtain ⟨key, hrowkey, hkey'⟩ := sameKey_iff.mp hkeys
      exact absurd hrowkey (halone hbindable row hrow key hkey')
    · exact hbind (hbound.mpr hbindable)
  · exact watch_created h hw hjson hclock hi hx hrows hback (halone (hbound.mp hbind))

end Step

theorem watch_of_run (h : (pool b W).machine.Run Machine.Free (.init ⟨Table.empty, clock⟩) es s)
    (hescapes : Escapes W.codec) (hjson : RoundTrip W.codec) (hclock : s.shared.clock + 86400 * 1000000 < wallEnd)
    (hnodup : (es.filterMap drawn).Nodup) (hraced : ¬ Raced b es) : Watch W es s := by
  refine h.invariant (I := fun es s => s.shared.clock + 86400 * 1000000 < wallEnd →
    (es.filterMap drawn).Nodup → ¬ Raced b es → Watch W es s) ?_ ?_ hclock hnodup hraced
  · refine fun _ _ _ => ⟨⟨fun row hrow => ?_, by simp⟩, fun i th hi => ?_⟩
    · cases hrow
    · cases hi
  intro es s a t e hr _ hs ih hclock hnodup hraced
  have hnodup' : (es.filterMap drawn).Nodup := by
    rw [List.filterMap_append] at hnodup
    exact hnodup.of_append_left
  have hraced' : ¬ Raced b es := fun ⟨k, i, looked, created, creates, hsub, hrest⟩ =>
    hraced ⟨k, i, looked, created, creates, sublist_snoc hsub, hrest⟩
  cases Pool.step_cases hs with
  | @start i call hi =>
    refine (ih hclock hnodup' hraced').quiet rfl (fun j th hj => ?_) fun call' o hend hvalid k hk => ?_
    · rw [Pool.State.set_threads] at hj
      split at hj
      · exact .inl (by rw [Pool.Thread.slot_eq_live hj])
      · exact .inr hj
    · obtain ⟨o', ho, heq⟩ := Option.map_eq_some_iff.mp hend
      cases heq
      -- a valid request does not end before its first command
      rcases (program_asks call).outcome ho hvalid k hk with ⟨pre, _, hnil, _⟩ | ⟨pre, _, hnil, _⟩ | ⟨pre, _, hnil, _⟩ |
        ⟨pre, _, _, hnil, _⟩ | ⟨hhind, _⟩
      · simp at hnil
      · simp at hnil
      · simp at hnil
      · simp at hnil
      · exact not_hindered hjson (by simp) hhind
  | @crash i th hi =>
    refine (ih hclock hnodup' hraced').quiet rfl (fun j th' hj => ?_) (by simp [ended])
    rw [Pool.State.set_threads] at hj
    split at hj
    · cases hj
    · exact .inr hj
  | @env n =>
    have hclock' : s.shared.clock + 86400 * 1000000 < wallEnd :=
      (Nat.add_le_add_right (Nat.le_add_right _ n) _).trans_lt hclock
    exact (ih hclock' hnodup' hraced').quiet rfl (fun j th hj => .inr hj) (by simp [ended])
  | @step i ch call log c k hi =>
    have hsame : s.shared.clock = (s.shared.apply W call c ch).2.clock := by cases c <;> rfl
    have hclock' : s.shared.clock + 86400 * 1000000 < wallEnd := hsame ▸ hclock
    have hw := ih hclock' hnodup' hraced'
    have hx : s.shared.apply W call c ch = ((s.shared.apply W call c ch).1, (s.shared.apply W call c ch).2) := rfl
    cases hc : isCreate c with
    | false => exact watch_other hr hjson hclock' hw hi hx hc
    | true =>
      cases c with
      | create record => exact watch_create hr hescapes hjson hclock' hnodup' hw hi hx hraced
      | _ => cases hc

/-- What was created is still there. -/
theorem row_of_created (h : (pool b W).machine.Run Machine.Free (.init ⟨Table.empty, clock⟩) es s) {e : Event}
    (he : e ∈ es) {key : Key} (hc : Created key e) : ∃ row ∈ s.shared.table.rows, row.request.key? = some key := by
  obtain ⟨j, call, record, out, rfl, hkey⟩ := hc
  obtain ⟨pre, post, heq⟩ := List.append_of_mem he
  obtain ⟨_, a, v, hpre, _, hs, hpost⟩ := h.at_event heq
  have hv := hpre.snoc trivial hs
  obtain ⟨u, ch, log, k, _, _, _, hx, _⟩ := Pool.did_last hv
  change u.shared.apply W call (.create record) ch = (.ok (), v.shared) at hx
  obtain ⟨_, e, herr⟩ | ⟨arguments, _, _, hrows⟩ := apply_create hx
  · cases herr
  · have hnew : record.row arguments ∈ v.shared.table.rows := by
      rw [hrows]
      exact List.mem_append_right _ (List.mem_singleton_self _)
    obtain ⟨row, hrow, hlater⟩ := run_later hv hpost _ hnew
    exact ⟨row, hrow, by rw [hlater.1]; exact hkey⟩

/-- A request whose record could not be created raises. -/
theorem error_of_refused {key : Key} {pre : Log} {e : PyError} {o : Except PyError Answer}
    (h : Ends W key (pre ++ [⟨.create record, .error e⟩]) o) : ∃ e', o = .error e' := by
  rcases h with ⟨_, _, heq, _⟩ | ⟨_, e', _, rfl⟩ | ⟨_, _, heq, _⟩ | ⟨_, _, e', _, rfl⟩ | ⟨_, herr⟩
  · cases (List.append_inj' heq rfl).2
  · exact ⟨e', rfl⟩
  · cases (List.append_inj' heq rfl).2
  · exact ⟨e', rfl⟩
  · exact herr

/-- After a race there are two records, or a valid request has failed. -/
theorem not_idempotent_of_raced (h : (pool b W).machine.Run Machine.Free (.init ⟨Table.empty, clock⟩) es s)
    (hraced : Raced b es) : ¬ Idempotent W es s := by
  rintro hid
  obtain ⟨key, i, looked, created, creates, hsub, _, hcreated, call, record, r, out, rfl, hkey, hbindable⟩ := hraced
  obtain ⟨pre', post', rfl, hpre', hpost'⟩ := List.append_sublist_iff.mp
    (show ([looked, created] ++ [_]).Sublist es from hsub)
  obtain ⟨mid, post, rfl⟩ := List.append_of_mem (List.singleton_sublist.mp hpost')
  have heq : pre' ++ (mid ++ Pool.Event.did i call (.create record) r out :: post) =
      (pre' ++ mid) ++ .did i call (.create record) r out :: post := by simp
  have hcreated' : created ∈ pre' ++ mid := List.mem_append_left _ (hpre'.subset (by simp))
  obtain ⟨_, a, v, hpre, _, hs, hpost⟩ := h.at_event heq
  have hv := hpre.snoc trivial hs
  obtain ⟨u, ch, log, k, hu, _, hi, hx, hout⟩ := Pool.did_last hv
  have htraced := traced hu hi
  obtain ⟨row, hrow, hrowkey⟩ := row_of_created hu hcreated' hcreated
  obtain ⟨_, _, hsame, hvalid, _⟩ := htraced.sat.1
  have hcall : key ∈ call.key? := by
    rw [← show record.key? = call.key? from hsame]
    exact hkey
  change u.shared.apply W call (.create record) ch = (r, v.shared) at hx
  obtain ⟨_, e, rfl⟩ | ⟨arguments, rfl, _, hrows⟩ := apply_create hx
  · -- the call has raised
    obtain ⟨o, ho, hQ⟩ := (htraced.sat.2 (.error e)).ended fun c hc => by
      have hfalse := hc.1 (by rw [hcall]; simp) ⟨.create record, .error e⟩ (by simp)
      cases hfalse
    obtain ⟨e', rfl⟩ := error_of_refused (hQ hvalid key hcall)
    have hend : ended (.did i call (.create record) (.error e) out) = some (call, .error e') := by
      rw [hout]
      exact congrArg (Option.map _) ho
    obtain ⟨_, _, _, _, _, _, _, hok⟩ := hid.returned _ (by simp) call _ hend hvalid hbindable key hcall
    cases hok
  · -- the two records stay apart
    have hold : row ∈ v.shared.table.rows := by
      rw [hrows]
      exact List.mem_append_left _ hrow
    have hnew : record.row arguments ∈ v.shared.table.rows := by
      rw [hrows]
      exact List.mem_append_right _ (List.mem_singleton_self _)
    obtain ⟨row', hrow', hlater⟩ := run_later hv hpost _ hold
    obtain ⟨new', hnew', hlater'⟩ := run_later hv hpost _ hnew
    have hkeys : row'.request.SameKey new'.request :=
      sameKey_iff.mpr ⟨key, by rw [hlater.1, hrowkey], by rw [hlater'.1]; exact hkey⟩
    obtain rfl := hid.one row' hrow' new' hnew' hkeys
    have hids : row.request.id = (record.row arguments).request.id := by rw [← hlater.1, ← hlater'.1]
    have hapart := v.shared.table.apart
    rw [hrows] at hapart
    exact (List.pairwise_append.mp hapart).2.2 row hrow _ (List.mem_singleton_self _) (.inl hids)

/-- Requests are idempotent exactly as long as no record is created between the lookup of another
request with its key and the attempt of that to create one. -/
theorem idempotent_iff_unraced (b : Backend) (W : World) (clock : Instant) (es : List Event) (s : State b)
    (h : (pool b W).machine.Run Machine.Free (.init ⟨Table.empty, clock⟩) es s)
    (hescapes : Escapes W.codec) (hjson : RoundTrip W.codec) (hclock : s.shared.clock + 86400 * 1000000 < wallEnd)
    (hnodup : (es.filterMap drawn).Nodup) : Idempotent W es s ↔ ¬ Raced b es := by
  constructor
  · exact fun hid hraced => not_idempotent_of_raced h hraced hid
  · exact fun hraced => (watch_of_run h hescapes hjson hclock hnodup hraced).toIdempotent

end Runs

section Sample

/-- Only the arguments of the sample are JSON serializable. -/
def strictWorld : World where
  codec := {
    dumps
      | .obj [("order_id", .str "SO-1001")] => .ok sampleText
      | _ => .error (.typeError "Object is not JSON serializable")
    loads := sampleWorld.codec.loads }
  sha256 := sampleWorld.sha256

theorem strict_roundTrip : RoundTrip strictWorld.codec := by
  intro value text h
  simp only [strictWorld] at h
  split at h
  · cases h
    exact ⟨sampleArguments, rfl, rfl⟩
  · cases h

theorem strict_escapes : Escapes strictWorld.codec := by
  intro value text h
  simp only [strictWorld] at h
  split at h
  · cases h
    decide
  · cases h

def keyedRequest : Call :=
  .request ⟨"u1", "w1", "t1", "support"⟩ "erp.create_return" sampleArguments .write (some "retry-1") 900

def otherId : Hex 32 := ⟨"5d2c9e1b7a6f4083b1c2d3e4f5a60718".toList, by decide, Hex.digits_of_all (by decide)⟩

def stepsOf (uuid : Hex 32) (i n : Nat) : List Action := List.replicate n (.step i ⟨uuid, sampleToken⟩)

/-- Two requests, one after the other. -/
def keyedInTurn : List Action :=
  [.start 0 keyedRequest] ++ stepsOf sampleId 0 4 ++ [.start 1 keyedRequest] ++ stepsOf otherId 1 1

/-- Two requests that both look before one creates. -/
def keyedRace : List Action :=
  [.start 0 keyedRequest, .start 1 keyedRequest] ++ stepsOf sampleId 0 1 ++ stepsOf otherId 1 1 ++
    stepsOf sampleId 0 3 ++ stepsOf otherId 1 3

def returnedIds (es : List Event) : List (Option String) := es.filterMap fun e => (ended e).map fun x =>
  match x.2 with
  | .ok (.record record) => some record.id
  | _ => none

theorem idempotent_iff_unraced_sample : ∃ s es,
    (pool .sqlite strictWorld).machine.exec Machine.Free (.init ⟨Table.empty, 0⟩) keyedInTurn = some (s, es) ∧
      returnedIds es = [some sampleId.text, some sampleId.text] ∧ (Idempotent strictWorld es s ↔ ¬ Raced .sqlite es) := by
  obtain ⟨s, es, hrun, hids, hclock, hnodup⟩ : ∃ s es,
      (pool .sqlite strictWorld).machine.exec Machine.Free (.init ⟨Table.empty, 0⟩) keyedInTurn = some (s, es) ∧
        returnedIds es = [some sampleId.text, some sampleId.text] ∧ s.shared.clock = 0 ∧
        es.filterMap drawn = [sampleId] := ⟨_, _, rfl, rfl, rfl, rfl⟩
  refine ⟨s, es, hrun, hids, idempotent_iff_unraced .sqlite strictWorld 0 es s (Machine.run_of_exec _ hrun)
    strict_escapes strict_roundTrip ?_ ?_⟩
  · rw [hclock]
    decide
  · rw [hnodup]
    exact List.nodup_singleton _

/-- Two requests that race make two records in memory. -/
theorem request_race : ¬ ∀ (b : Backend) (W : World) (clock : Instant) (es : List Event) (s : State b),
    (pool b W).machine.Run Machine.Free (.init ⟨Table.empty, clock⟩) es s → Escapes W.codec → RoundTrip W.codec →
    s.shared.clock + 86400 * 1000000 < wallEnd → (es.filterMap drawn).Nodup → Idempotent W es s := by
  intro h
  obtain ⟨s, es, hrun, hids, hclock, hdrawn, hkeys⟩ : ∃ s es,
      (pool .memory strictWorld).machine.exec Machine.Free (.init ⟨Table.empty, 0⟩) keyedRace = some (s, es) ∧
        s.shared.table.rows.map (fun row => row.request.id) = [sampleId.text, otherId.text] ∧ s.shared.clock = 0 ∧
        es.filterMap drawn = [sampleId, otherId] ∧
        s.shared.table.rows.map (fun row => row.request.key?) =
          [some ⟨⟨"w1", "t1"⟩, "u1", "retry-1"⟩, some ⟨⟨"w1", "t1"⟩, "u1", "retry-1"⟩] :=
    ⟨_, _, rfl, rfl, rfl, rfl, rfl⟩
  have hne : sampleId ≠ otherId := fun heq => absurd (congrArg Hex.chars heq) (by decide)
  have hone := (h .memory strictWorld 0 es s (Machine.run_of_exec _ hrun) strict_escapes strict_roundTrip
    (by rw [hclock]; decide) (by rw [hdrawn]; simpa using hne)).one
  obtain ⟨row, row', hrows⟩ := List.length_eq_two.mp (by simpa using congrArg List.length hids)
  rw [hrows] at hone hids hkeys
  simp only [List.map_cons, List.map_nil, List.cons.injEq, and_true] at hids hkeys
  have heq := hone row (by simp) row' (by simp) (sameKey_iff.mpr ⟨_, hkeys.1, hkeys.2⟩)
  rw [heq] at hids
  exact hne (Hex.text_injective (hids.1.symm.trans hids.2))

end Sample

end EnterpriseCopilot.Approval
