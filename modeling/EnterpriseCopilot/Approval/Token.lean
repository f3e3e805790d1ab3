import EnterpriseCopilot.Approval.Lifecycle

/-! What a verified token stands for. -/

namespace EnterpriseCopilot.Approval

open EnterpriseCopilot.Lib EnterpriseCopilot.Python EnterpriseCopilot.Runtime

/-- The canonical text of the arguments, if there is one. -/
def canonical? (W : World) (arguments : Json) : List String :=
  match W.codec.dumps arguments with
  | .ok text => [text]
  | .error _ => []

def Call.texts (W : World) : Call → List String
  | .request _ _ arguments _ _ _ => canonical? W arguments
  | .verify _ _ token _ arguments => token :: canonical? W arguments
  | _ => []

def texts (W : World) : Event → List String
  | .did _ call .token_urlsafe token _ => token.text :: call.texts W
  | .did _ call _ _ _ => call.texts W
  | _ => []

/-- The texts whose digests a run may compare: tokens that were presented or drawn, and the
canonical texts of arguments. -/
def hashed (W : World) (es : List Event) : List String := es.flatMap (texts W)

section Run

variable {b : Backend} {W : World} {G : State b → Action → Prop} {clock : Instant}
  {es : List Event} {s : State b}

theorem mem_hashed {i : Nat} {call : Call} {c : Cmd} {r : Reply c}
    {out : Option (Except PyError Answer)} (he : .did i call c r out ∈ es) {text : String}
    (ht : text ∈ call.texts W) : text ∈ hashed W es := by
  refine List.mem_flatMap.mpr ⟨_, he, ?_⟩
  cases c with
  | token_urlsafe => exact .tail _ ht
  | _ => exact ht

theorem mem_hashed_drawn {i : Nat} {call : Call} {t : Token}
    {out : Option (Except PyError Answer)} (he : .did i call .token_urlsafe t out ∈ es) :
    t.text ∈ hashed W es := List.mem_flatMap.mpr ⟨_, he, .head _⟩

theorem mem_canonical {arguments : Json} {text : String} (h : W.codec.dumps arguments = .ok text) :
    text ∈ canonical? W arguments := by
  unfold canonical?
  rw [h]
  exact .head _

theorem digest_inv {arguments : Json} {canonical digest : String}
    (h : _arguments_digest W arguments = .ok (canonical, digest)) :
    W.codec.dumps arguments = .ok canonical ∧ digest = (W.sha256 canonical).text := by
  unfold _arguments_digest at h
  split at h
  · cases h
  · cases h
  · cases h
  · rename_i hdumps
    split at h
    · cases h
    · cases h
      exact ⟨hdumps, rfl⟩

/-- Only a text of an acceptable length has the hash of a drawn token. -/
theorem hash_token_inv {token : String} {t : Token}
    (h : _hash_token W t.text = _hash_token W token) :
    token ≠ "" ∧ token.length ≤ 512 ∧ W.sha256 t.text = W.sha256 token := by
  rw [hash_token_eq] at h
  unfold _hash_token at h
  split at h
  · exact absurd h (hex_text_ne _)
  · rename_i hne
    simp only [Bool.or_eq_true, decide_eq_true_eq, not_or, String.isEmpty_iff] at hne
    exact ⟨hne.1, Nat.le_of_not_lt hne.2, Hex.text_injective h⟩

/-- The row that a successful `verify` has compared with. -/
theorem row_of_verified (h : (pool b W).machine.Run G (.init ⟨Table.empty, clock⟩) es s)
    {i : Nat} {identity : IdentityContext} {id token tool_name : String} {arguments : Json}
    {c : Cmd} {r : Reply c}
    (he : .did i (.verify identity id token tool_name arguments) c r (some (.ok (.verified true))) ∈ es) :
    ∃ row ∈ s.shared.table.rows, ∃ record canonical, row.request.id = id ∧
      row.request.scope = .of identity ∧ row.status = .approved ∧
      row.token_hash = some (_hash_token W token) ∧ row.request.tool_name = tool_name ∧
      _from_row W.codec row = .ok record ∧
      _arguments_digest W arguments = .ok (canonical, row.request.arguments_hash) := by
  obtain ⟨log, hQ, hk⟩ := (holds_of_run h).ended he
  obtain ⟨pre, heq, record, canonical, ⟨found, hfound, hseen⟩, hstatus, htool, hdigest⟩ := hQ rfl
  obtain ⟨rfl, hlast⟩ := List.append_inj' heq rfl
  cases hlast
  obtain rfl | ⟨id', scope', decided_at, hexp⟩ := hseen
  · obtain ⟨row, hfrom, hid, hscope, row', hrow', hl⟩ := hk _ (List.mem_append_left _ hfound)
    have happ : row.status = .approved := (status_from_row hfrom).symm.trans hstatus
    obtain rfl := hl.eq (by rw [happ]; decide)
    obtain ⟨row₁, hrow₁, hid₁, _, hhash, _⟩ := hk _ (List.mem_append_right _ (.head _))
    obtain rfl := Approvals.eq_of_id hrow₁ hrow' (hid₁.trans hid.symm)
    obtain ⟨htool', hhash', _⟩ := from_row_request hfrom
    exact ⟨row₁, hrow₁, record, canonical, hid, hscope, happ, hhash, htool'.symm.trans htool, hfrom,
      by rw [hdigest, hhash']⟩
  · have hexpired := hk _ (List.mem_append_left _ hexp)
    cases hstatus.symm.trans hexpired

/-- A token whose hash is stored was drawn and returned by the `approve` that stored it. -/
theorem approved_returned (h : (pool b W).machine.Run G (.init ⟨Table.empty, clock⟩) es s)
    {i : Nat} {a : IdentityContext} {id : String} {decided_at : Instant} {hash : Option String}
    {record : ApprovalRecord} {out : Option (Except PyError Answer)}
    (he : .did i (.approve a id) (.decide id (.of a) .approved (some a.user_id) decided_at hash)
      (.ok (some record)) out ∈ es) :
    ∃ t : Token, hash = some (_hash_token W t.text) ∧ out = some (.ok (.approved record t.text)) ∧
      ∃ out', Pool.Event.did i (.approve a id) .token_urlsafe t out' ∈ es := by
  obtain ⟨pre, post, heq⟩ := List.append_of_mem he
  obtain ⟨u, ch, log, k, _, _, _, htraced, _, hout⟩ := Pool.did_of_run program_sat h heq
  -- the call has nothing more to issue, so it has returned
  have hended := (htraced.sat.2 (.ok (some record))).ended fun c hI =>
    hI.1 _ (List.mem_append_right _ (.head _)) fun hne => by cases hne
  obtain ⟨o, ho, hQ⟩ := hended
  obtain ⟨t, ht, hhash, rfl⟩ := hQ.2 _ _ _ (List.mem_append_right _ (.head _))
  refine ⟨t, hhash, hout.trans ho, ?_⟩
  rcases List.mem_append.mp ht with ht | ht
  · obtain ⟨out', hmem⟩ := htraced.log _ ht
    exact ⟨out', by rw [heq]; exact List.mem_append_left _ hmem⟩
  · cases List.mem_singleton.mp ht

/-- The `approve` behind an approved row has returned a token with the stored hash. -/
theorem approve_of_row (h : (pool b W).machine.Run G (.init ⟨Table.empty, clock⟩) es s)
    {row : Row} (hrow : row ∈ s.shared.table.rows) (happ : row.status = .approved)
    {record : ApprovalRecord} (hfrom : _from_row W.codec row = .ok record) :
    ∃ i a, ∃ t : Token, ∃ c r, row.token_hash = some (_hash_token W t.text) ∧ t.text ∈ hashed W es ∧
      a.role ∈ ["admin", "manager"] ∧ row.request.scope = .of a ∧
      Pool.Event.did i (.approve a row.request.id) c r (some (.ok (.approved record t.text))) ∈ es := by
  have hlaw := (holds_of_run h).inv.lawful row hrow
  unfold Lawful at hlaw
  rw [happ] at hlaw
  obtain ⟨i, a, decided_at, hash, out, _, hrole, hscope, hhash, hmem⟩ := hlaw
  rw [hfrom] at hmem
  obtain ⟨t, ht, rfl, out', hdrawn⟩ := approved_returned h hmem
  exact ⟨i, a, t, _, _, hhash.trans ht, mem_hashed_drawn hdrawn, hrole, hscope, hmem⟩

/-- A token verifies only as the one that was returned for the approval, for the tool, the scope
and the arguments of its request. -/
theorem verify_bound (b : Backend) (W : World) (clock : Instant) (pre es : List Event) (s : State b)
    (i : Nat) (identity : IdentityContext) (id token tool_name : String) (arguments : Json) (c : Cmd)
    (r : Reply c)
    (hes : es = pre ++ [.did i (.verify identity id token tool_name arguments) c r
      (some (.ok (.verified true)))])
    (h : (pool b W).machine.Run Machine.Free (.init ⟨Table.empty, clock⟩) es s)
    (hsha : ∀ x ∈ hashed W es, ∀ y ∈ hashed W es, W.sha256 x = W.sha256 y → x = y) :
    token ≠ "" ∧ token.length ≤ 512 ∧
    (∃ j approver record c' r', .did j (.approve approver id) c' r'
        (some (.ok (.approved record token))) ∈ pre ∧ approver.role ∈ ["admin", "manager"] ∧
      approver.workspace_id = identity.workspace_id ∧ approver.tenant_id = identity.tenant_id) ∧
    ∃ j requester arguments₀ risk key ttl record out text,
      .did j (.request requester tool_name arguments₀ risk key ttl) (.create record) (.ok ()) out ∈
        pre ∧ record.id = id ∧ requester.workspace_id = identity.workspace_id ∧
      requester.tenant_id = identity.tenant_id ∧ W.codec.loads text = .ok record.arguments ∧
      W.codec.dumps arguments₀ = .ok text ∧ W.codec.dumps arguments = .ok text := by
  have hself : .did i (.verify identity id token tool_name arguments) c r
      (some (.ok (.verified true))) ∈ es := by
    rw [hes]
    exact List.mem_append_right _ (.head _)
  -- the other events that are found are not calls of `verify`, so they came before
  have earlier : ∀ {e : Event}, e ∈ es → e ≠ .did i (.verify identity id token tool_name arguments) c r
      (some (.ok (.verified true))) → e ∈ pre := by
    intro e he hne
    rw [hes] at he
    rcases List.mem_append.mp he with he | he
    · exact he
    · exact absurd (List.mem_singleton.mp he) hne
  obtain ⟨row, hrow, record, canonical, rfl, hscope, happ, hhash, rfl, hfrom, hdigest⟩ :=
    row_of_verified h hself
  obtain ⟨j, a, t, c', r', ht, hdrawn, hrole, hscope', happroved⟩ := approve_of_row h hrow happ hfrom
  obtain ⟨hne, hlen, hsame⟩ := hash_token_inv (Option.some.inj (ht.symm.trans hhash))
  obtain rfl := hsha _ hdrawn _ (mem_hashed hself (.head _)) hsame
  obtain ⟨hw, htenant⟩ := Scope.mk.inj (hscope'.symm.trans hscope)
  refine ⟨hne, hlen, ⟨j, a, record, c', r', earlier happroved (by simp), hrole, hw, htenant⟩, ?_⟩
  obtain ⟨j', call, record', stored, out, hcall, hcreate, hreq⟩ := (holds_of_run h).inv.made row hrow
  obtain ⟨_, arguments₀, risk, key, ttl, text, rfl, rfl, hdigest₀, hloads, _⟩ := hcall
  obtain ⟨hdumps, hd⟩ := digest_inv hdigest
  obtain ⟨hdumps₀, hd₀⟩ := digest_inv hdigest₀
  have htext : text = canonical := by
    refine hsha _ (mem_hashed hcreate (mem_canonical hdumps₀)) _
      (mem_hashed hself (.tail _ (mem_canonical hdumps))) ?_
    rw [hreq] at hd
    exact Hex.text_injective (hd₀.symm.trans hd)
  rw [hreq] at hscope ⊢
  obtain ⟨hw', htenant'⟩ := Scope.mk.inj hscope
  exact ⟨j', record'.requester, arguments₀, risk, key, ttl, record', out, text,
    earlier hcreate (by simp), rfl, hw', htenant', hloads, hdumps₀, by rw [htext]; exact hdumps⟩

end Run

/-- The requester presents the token that the manager was given. -/
theorem verify_bound_sample : ∃ s es record j approver c r,
    (pool .postgres sampleWorld).machine.exec Machine.Free (.init ⟨Table.empty, 0⟩)
      (sampleApproval ++ [.start 2 sampleVerify] ++ steps 2 2) = some (s, es) ∧
    .did j (.approve approver sampleId.text) c r
      (some (.ok (.approved record sampleToken.text))) ∈ es ∧
    approver.workspace_id = "w1" ∧ approver.tenant_id = "t1" := by
  obtain ⟨s, es, hs, hlast, hhashed⟩ : ∃ s es,
      (pool .postgres sampleWorld).machine.exec Machine.Free (.init ⟨Table.empty, 0⟩)
        (sampleApproval ++ [.start 2 sampleVerify] ++ steps 2 2) = some (s, es) ∧
      es.getLast? = some (.did 2 sampleVerify (.token_hash sampleId.text ⟨"w1", "t1"⟩)
        (some (_hash_token sampleWorld sampleToken.text)) (some (.ok (.verified true)))) ∧
      (hashed sampleWorld es).all (fun x => x = sampleText || x = sampleToken.text) = true :=
    ⟨_, _, rfl, rfl, rfl⟩
  obtain ⟨pre, hes⟩ := List.getLast?_eq_some_iff.mp hlast
  have hsha : ∀ x ∈ hashed sampleWorld es, ∀ y ∈ hashed sampleWorld es,
      sampleWorld.sha256 x = sampleWorld.sha256 y → x = y := by
    intro x hx y hy hxy
    have hx' := List.all_eq_true.mp hhashed x hx
    have hy' := List.all_eq_true.mp hhashed y hy
    simp only [Bool.or_eq_true, decide_eq_true_eq] at hx' hy'
    have hne : sampleWorld.sha256 sampleText ≠ sampleWorld.sha256 sampleToken.text := by decide
    rcases hx' with rfl | rfl <;> rcases hy' with rfl | rfl
    · rfl
    · exact absurd hxy hne
    · exact absurd hxy.symm hne
    · rfl
  obtain ⟨_, _, ⟨j, a, record, c, r, hmem, _, hw, ht⟩, _⟩ := verify_bound .postgres sampleWorld 0 pre
    es s 2 _ _ _ _ _ _ _ hes (Machine.run_of_exec _ hs) hsha
  refine ⟨s, es, record, j, a, c, r, hs, ?_, hw, ht⟩
  rw [hes]
  exact List.mem_append_left _ hmem

end EnterpriseCopilot.Approval
