import EnterpriseCopilot.Runtime.Agent

/-! The audit trail of a run. -/

namespace EnterpriseCopilot.Runtime

open EnterpriseCopilot.Lib EnterpriseCopilot.Python

abbrev Log := Exchange Cmd Reply

/-- How the gateway and the model provider answer when they are called. -/
structure Collaborators where
  gateway : Except PyError ToolResult
  model : Except ModelFailure (Option ModelCompletion)

/-- Fresh identifiers, clock readings and the behaviour of the trace exporter. -/
structure Choice where
  text : String := ""
  ns : Int := 0
  exported : Except String Unit := .ok ()

/-- The audit log does not fail. -/
def apply (env : Collaborators) (events : List AuditEvent) (c : Cmd) (ch : Choice) :
    Reply c × List AuditEvent :=
  match c with
  | .uuid4 => (ch.text, events)
  | .utc_now => (ch.text, events)
  | .new_span_id => (ch.text, events)
  | .time_ns => (ch.ns, events)
  | .append event => ((), events ++ [event])
  | .call _ => (env.gateway, events)
  | .export_span _ => (ch.exported, events)
  | .complete _ _ _ _ _ => (env.model, events)

/-- The requests sent to the gateway. -/
def calls (log : Log) : List ToolCallRequest :=
  log.filterMap fun
    | ⟨.call request, _⟩ => some request
    | _ => none

/-- The queries sent to the model provider. -/
def completions (log : Log) : List String :=
  log.filterMap fun
    | ⟨.complete query _ _ _ _, _⟩ => some query
    | _ => none

@[simp] theorem calls_append (l₁ l₂ : Log) : calls (l₁ ++ l₂) = calls l₁ ++ calls l₂ :=
  List.filterMap_append

@[simp] theorem completions_append (l₁ l₂ : Log) :
    completions (l₁ ++ l₂) = completions l₁ ++ completions l₂ := List.filterMap_append

/-- Neither the gateway nor the model provider is called. -/
structure Silent (log : Log) : Prop where
  calls : calls log = []
  completions : completions log = []

theorem Silent.append {l₁ l₂ : Log} (h₁ : Silent l₁) (h₂ : Silent l₂) : Silent (l₁ ++ l₂) :=
  ⟨by simp [h₁.calls, h₂.calls], by simp [h₁.completions, h₂.completions]⟩

/-- The event carries the identifiers of the run and the scope of its caller. -/
structure Ctx.Owns (x : Ctx) (e : AuditEvent) : Prop where
  request_id : e.request_id = x.request_id
  trace_id : e.trace_id = x.trace_id
  run_id : e.run_id = x.run_id
  workspace_id : e.workspace_id = x.identity.workspace_id
  tenant_id : e.payload.get "tenant_id" = .str x.identity.tenant_id

theorem Ctx.owns_event {x : Ctx} {event_type at_ : String} {payload : Payload}
    (h : payload.get "tenant_id" = .str x.identity.tenant_id) :
    x.Owns (x.event event_type payload at_) := ⟨rfl, rfl, rfl, rfl, h⟩

/-- A part of a run that appended events of these types. -/
structure Wrote (x : Ctx) (s t : List AuditEvent) (word : List String) : Prop where
  trail : ∃ trail, t = s ++ trail ∧ trail.map AuditEvent.event_type = word ∧ ∀ e ∈ trail, x.Owns e

theorem Wrote.nil {x : Ctx} {s : List AuditEvent} : Wrote x s s [] := ⟨[], by simp, rfl, by simp⟩

theorem Wrote.append {x : Ctx} {s t u : List AuditEvent} {w₁ w₂ : List String}
    (h₁ : Wrote x s t w₁) (h₂ : Wrote x t u w₂) : Wrote x s u (w₁ ++ w₂) := by
  obtain ⟨l₁, rfl, rfl, ho₁⟩ := h₁.trail
  obtain ⟨l₂, rfl, rfl, ho₂⟩ := h₂.trail
  refine ⟨l₁ ++ l₂, by simp, by simp, fun e he => ?_⟩
  exact (List.mem_append.mp he).elim (ho₁ e) (ho₂ e)

section Parts

variable {env : Collaborators} {rt : AgentRuntime} {x : Ctx} {s t : List AuditEvent} {log : Log}

abbrev Does {α : Type} (env : Collaborators) (p : Code α) (s : List AuditEvent) (log : Log)
    (o : Except PyError α) (t : List AuditEvent) : Prop := Program.Exec (apply env) p s log o t

theorem exec_emit {event_type : String} {payload : Payload} {o : Except PyError Unit}
    (h : Does env (emit x event_type payload) s log o t)
    (htenant : payload.get "tenant_id" = .str x.identity.tenant_id) :
    o = .ok () ∧ Wrote x s t [event_type] ∧ Silent log ∧
      ∃ at_, ⟨.append (x.event event_type payload at_), ()⟩ ∈ log := by
  obtain ⟨ch, _, rfl, h₁⟩ := Program.exec_issue.mp h
  obtain ⟨ch', _, rfl, h₂⟩ := Program.exec_issue.mp h₁
  obtain ⟨rfl, rfl, rfl⟩ := Program.exec_pure.mp h₂
  refine ⟨rfl, ⟨_, rfl, rfl, ?_⟩, ⟨rfl, rfl⟩, _, .tail _ (.head _)⟩
  simpa using Ctx.owns_event htenant

theorem exec_emit_bind {α : Type} {event_type : String} {payload : Payload} {f : Unit → Code α}
    {o : Except PyError α} (h : Does env ((emit x event_type payload).bind f) s log o t)
    (htenant : payload.get "tenant_id" = .str x.identity.tenant_id) :
    ∃ u l₁ l₂, Wrote x s u [event_type] ∧ Silent l₁ ∧ Does env (f ()) u l₂ o t ∧ log = l₁ ++ l₂ := by
  obtain ⟨e, h₁, rfl⟩ | ⟨_, u, l₁, l₂, h₁, hf, rfl⟩ := Program.exec_bind.mp h
  · obtain ⟨he, _⟩ := exec_emit h₁ htenant
    cases he
  · obtain ⟨_, hw, hs, _⟩ := exec_emit h₁ htenant
    exact ⟨u, l₁, l₂, hw, hs, hf, rfl⟩

/-- The texts of a result that its identifiers do not give. -/
def RunResult.told (r : RunResult) : List String :=
  [r.agent_id, r.message] ++ r.source_id.toList ++ r.observed_at.toList ++ r.external_ref.toList

theorem exec_finish {status : RunStatus} {message : String} {o : Except PyError RunResult}
    (h : Does env (_finish x status message) s log o t) :
    (∃ result, o = .ok result ∧ result.status = status ∧ result.run_id = x.run_id ∧
      result.trace_id = x.trace_id ∧ result.told = [agent_id, message]) ∧ Wrote x s t ["run." ++ status.value] ∧ Silent log := by
  obtain ⟨u, l₁, l₂, hw, hs, hend, rfl⟩ := exec_emit_bind h (by rfl)
  obtain ⟨rfl, rfl, rfl⟩ := Program.exec_pure.mp hend
  rw [List.append_nil]
  exact ⟨⟨_, rfl, rfl, rfl, rfl, rfl⟩, hw, hs⟩

/-- What exporting a span may add. -/
def SpanWord (word : List String) : Prop := word = [] ∨ word = ["trace.export_failed"]

/-- A span is exported, or the failure is on record. -/
theorem exec_span {name tool : String} {started_at : Int} {attributes : List (String × Json)}
    {o : Except PyError Unit} (h : Does env (export_named_span rt x name tool started_at attributes) s
      log o t) : o = .ok () ∧ Silent log ∧ ∃ word, Wrote x s t word ∧ SpanWord word := by
  unfold export_named_span at h
  dsimp only at h
  split at h
  · obtain ⟨_, _, rfl, h₁⟩ := Program.exec_issue.mp h
    obtain ⟨_, _, rfl, h₂⟩ := Program.exec_issue.mp h₁
    dsimp only [Program.pure_bind] at h₂
    split at h₂
    · obtain ⟨rfl, hw, hs, _⟩ := exec_emit h₂ (by rfl)
      exact ⟨rfl, ⟨hs.calls, hs.completions⟩, _, hw, .inr rfl⟩
    · obtain ⟨ch, _, rfl, h₃⟩ := Program.exec_issue.mp h₂
      dsimp only [Program.pure_bind] at h₃
      split at h₃
      · obtain ⟨rfl, hw, hs, _⟩ := exec_emit h₃ (by rfl)
        exact ⟨rfl, ⟨hs.calls, hs.completions⟩, _, hw, .inr rfl⟩
      · obtain ⟨rfl, rfl, rfl⟩ := Program.exec_pure.mp h₃
        exact ⟨rfl, ⟨rfl, rfl⟩, _, .nil, .inl rfl⟩
  · obtain ⟨rfl, rfl, rfl⟩ := Program.exec_pure.mp h
    exact ⟨rfl, ⟨rfl, rfl⟩, _, .nil, .inl rfl⟩

theorem exec_span_bind {α : Type} {name tool : String} {started_at : Int}
    {attributes : List (String × Json)} {f : Unit → Code α} {o : Except PyError α}
    (h : Does env ((export_named_span rt x name tool started_at attributes).bind f) s log o t) :
    ∃ u l₁ l₂ word, Wrote x s u word ∧ SpanWord word ∧ Silent l₁ ∧ Does env (f ()) u l₂ o t ∧
      log = l₁ ++ l₂ := by
  obtain ⟨e, h₁, rfl⟩ | ⟨_, u, l₁, l₂, h₁, hf, rfl⟩ := Program.exec_bind.mp h
  · obtain ⟨he, _⟩ := exec_span h₁
    cases he
  · obtain ⟨_, hs, word, hw, hword⟩ := exec_span h₁
    exact ⟨u, l₁, l₂, word, hw, hword, hs, hf, rfl⟩

/-- What the explanation may add: at most one event of the model. -/
inductive ModelWord : List String → Prop
  | none : ModelWord []
  | blocked : ModelWord ["model.blocked"]
  | failed {span} : SpanWord span → ModelWord (span ++ ["model.failed"])
  | completed {span} : SpanWord span → ModelWord (["model.completed"] ++ span)

theorem exec_model_failed {p : Provider} {started_at : Int} {error_type message : String}
    {o : Except PyError (RunStatus × String)}
    (h : Does env (model_failed rt x p started_at error_type message) s log o t) :
    ∃ word, o = .ok (.partial_success, message ++ " Model explanation is unavailable.") ∧
      Wrote x s t word ∧ ModelWord word ∧ Silent log := by
  obtain ⟨u, l₁, l₂, word, hw, hword, hs, h₁, rfl⟩ := exec_span_bind h
  obtain ⟨v, l₃, l₄, hw', hs', hend, rfl⟩ := exec_emit_bind h₁ (by rfl)
  obtain ⟨rfl, rfl, rfl⟩ := Program.exec_pure.mp hend
  rw [List.append_nil]
  exact ⟨_, rfl, hw.append hw', .failed hword, hs.append hs'⟩

/-- The model provider, if it is called, raises something other than a `ModelProviderError`. -/
def ModelRaises (rt : AgentRuntime) (env : Collaborators) (allow : Bool) : Prop :=
  rt.model_provider ≠ none ∧ allow = true ∧ ∃ e, env.model = .error (.other e)

/-- The text of the model, if the answer quotes it. -/
def model_text (rt : AgentRuntime) (env : Collaborators) (allow : Bool) : Option String :=
  match rt.model_provider, allow, env.model with
  | some _, true, .ok completion => (valid_completion completion).map fun (_, _, text) => text
  | _, _, _ => none

/-- The message says what was verified, and what the model has added. -/
def Tells (rt : AgentRuntime) (env : Collaborators) (order_id : String) (r : ToolResult) (allow : Bool)
    (message : String) : Prop :=
  hasNul message = (hasNul (verified_message order_id r) || (model_text rt env allow).any hasNul)

theorem tells_plain {order_id suffix : String} {r : ToolResult} {allow : Bool}
    (htext : model_text rt env allow = none) (hsuffix : hasNul suffix = false) :
    Tells rt env order_id r allow (verified_message order_id r ++ suffix) := by
  rw [Tells, hasNul_append, htext, hsuffix]
  rfl

theorem exec_explain {query order_id : String} {r : ToolResult} {allow : Bool}
    {o : Except PyError (RunStatus × String)}
    (h : Does env (explain rt x query order_id r allow) s log o t) : calls log = [] ∧
      (completions log = [] ∨ (allow = true ∧ completions log = [query])) ∧
      ((∃ status message word, o = .ok (status, message) ∧ Tells rt env order_id r allow message ∧
        ¬ ModelRaises rt env allow ∧
        (status = .succeeded ∨ status = .partial_success) ∧ Wrote x s t word ∧ ModelWord word) ∨
      ((∃ e, o = .error e) ∧ t = s ∧ ModelRaises rt env allow)) := by
  unfold explain at h
  dsimp only at h
  split at h
  · rename_i hnone
    obtain ⟨rfl, rfl, rfl⟩ := Program.exec_pure.mp h
    have htells : Tells rt env order_id r allow (verified_message order_id r) := by
      have htext : model_text rt env allow = none := by simp [model_text, hnone]
      have hplain : Tells rt env order_id r allow (verified_message order_id r ++ "") := tells_plain htext rfl
      rwa [String.append_empty] at hplain
    exact ⟨rfl, .inl rfl, .inl ⟨_, _, _, rfl, htells, fun hr => hr.1 hnone, .inl rfl, .nil, .none⟩⟩
  · rename_i p hsome
    split at h
    · rename_i hallow
      obtain ⟨ch, _, rfl, h₁⟩ := Program.exec_issue.mp h
      obtain ⟨ch', _, rfl, h₂⟩ := Program.exec_issue.mp h₁
      dsimp only [Program.pure_bind, apply] at h₂
      -- the answer of the provider
      split at h₂
      · rename_i e he
        obtain ⟨rfl, rfl, rfl⟩ := Program.exec_throw.mp h₂
        exact ⟨rfl, .inr ⟨hallow, rfl⟩, .inr ⟨⟨e, rfl⟩, rfl, by simp [hsome], hallow, e, he⟩⟩
      · rename_i type_name he
        obtain ⟨word, rfl, hw, hword, hs⟩ := exec_model_failed h₂
        refine ⟨hs.calls, .inr ⟨hallow, ?_⟩, .inl ⟨_, _, word, rfl, ?_, ?_, .inr rfl, hw, hword⟩⟩
        · exact congrArg (query :: ·) hs.completions
        · exact tells_plain (by simp [model_text, he]) (by decide)
        · rintro ⟨_, _, e', he'⟩
          rw [he] at he'
          cases he'
      · rename_i completion he
        have hfine : ¬ ModelRaises rt env allow := by
          rintro ⟨_, _, e', he'⟩
          rw [he] at he'
          cases he'
        split at h₂
        · rename_i hinvalid
          obtain ⟨word, rfl, hw, hword, hs⟩ := exec_model_failed h₂
          exact ⟨hs.calls, .inr ⟨hallow, congrArg (query :: ·) hs.completions⟩,
            .inl ⟨_, _, word, rfl, tells_plain (by simp [model_text, hsome, hallow, he, hinvalid]) (by decide),
              hfine, .inr rfl, hw, hword⟩⟩
        · rename_i provider model text hvalid
          have htells : Tells rt env order_id r allow
              (verified_message order_id r ++ "\n\nModel explanation (unverified): " ++ text) := by
            have htext : model_text rt env allow = some text := by simp [model_text, hsome, hallow, he, hvalid]
            have hlabel : hasNul "\n\nModel explanation (unverified): " = false := by decide
            rw [Tells, hasNul_append, hasNul_append, htext, hlabel, Bool.or_false]
            rfl
          obtain ⟨u, l₁, l₂, hw, hs, h₃, rfl⟩ := exec_emit_bind h₂ (by rfl)
          obtain ⟨v, l₃, l₄, word, hw', hword, hs', hend, rfl⟩ := exec_span_bind h₃
          obtain ⟨rfl, rfl, rfl⟩ := Program.exec_pure.mp hend
          rw [List.append_nil]
          have hs'' := hs.append hs'
          exact ⟨hs''.calls, .inr ⟨hallow, congrArg (query :: ·) hs''.completions⟩,
            .inl ⟨_, _, _, rfl, htells, hfine, .inl rfl, hw.append hw', .completed hword⟩⟩
    · rename_i hallow
      obtain ⟨u, l₁, l₂, hw, hs, hend, rfl⟩ := exec_emit_bind h (by rfl)
      obtain ⟨rfl, rfl, rfl⟩ := Program.exec_pure.mp hend
      rw [List.append_nil]
      exact ⟨hs.calls, .inl hs.completions, .inl ⟨_, _, _, rfl,
        tells_plain (by simp [model_text, hallow]) (by decide), fun hr => hallow hr.2.1, .inl rfl, hw, .blocked⟩⟩

end Parts

/-- The evidence that an answer rests on: a tool result for the requested order in the scope of
the caller. -/
structure Verified (identity : IdentityContext) (order_id : String) (r : ToolResult) : Prop where
  success : r.success = true
  workspace_id : r.workspace_id = .str identity.workspace_id
  tenant_id : r.tenant_id = .str identity.tenant_id
  external_ref : r.external_ref = .str order_id
  order_id : r.fields.get "order_id" = .str order_id
  source_id : ∃ text, r.source_id = .str text ∧ isBlank text = false
  observed_at : ∃ text, r.observed_at = .str text ∧ isBlank text = false
  status : ∃ text, r.fields.get "status" = .str text ∧ isBlank text = false ∧ text.length ≤ 256
  record_tenant : r.fields.get "tenant_id" = .null ∨ r.fields.get "tenant_id" = .str identity.tenant_id

theorem eqScalar_str {j : Json} {text : String} : j.eqScalar (.str text) = true ↔ j = .str text := by
  cases j <;> simp [Json.eqScalar]

theorem eqScalar_null {j : Json} : j.eqScalar .null = true ↔ j = .null := by
  cases j <;> simp [Json.eqScalar]

theorem filled_iff {j : Json} : Json.filled j = true ↔ ∃ text, j = .str text ∧ isBlank text = false := by
  cases j <;> simp [Json.filled]

theorem provenance_verified_iff {identity : IdentityContext} {order_id : String} {r : ToolResult} :
    provenance_verified identity order_id r = true ↔ Verified identity order_id r := by
  simp only [provenance_verified, Bool.and_eq_true, Bool.or_eq_true, eqScalar_str, eqScalar_null,
    decide_eq_true_eq]
  constructor
  · rintro ⟨⟨⟨⟨⟨⟨⟨⟨⟨hok, hw⟩, ht⟩, href⟩, hsrc⟩, hobs⟩, hord⟩, hst⟩, hlen⟩, hrec⟩
    obtain ⟨text, htext, hblank⟩ := filled_iff.mp hst
    rw [htext] at hlen
    exact ⟨hok, hw, ht, href, hord, filled_iff.mp hsrc, filled_iff.mp hobs,
      ⟨text, htext, hblank, hlen⟩, hrec⟩
  · intro h
    obtain ⟨text, htext, hblank, hlen⟩ := h.status
    refine ⟨⟨⟨⟨⟨⟨⟨⟨⟨h.success, h.workspace_id⟩, h.tenant_id⟩, h.external_ref⟩, filled_iff.mpr h.source_id⟩,
      filled_iff.mpr h.observed_at⟩, h.order_id⟩, filled_iff.mpr ⟨text, htext, hblank⟩⟩, ?_⟩,
      h.record_tenant⟩
    rw [htext]
    exact hlen

/-- The texts of the collaborators that the answer to an order quotes. -/
def quoted (rt : AgentRuntime) (env : Collaborators) (identity : IdentityContext) (order_id : String)
    (allow : Bool) : List String :=
  match env.gateway with
  | .ok r =>
    if provenance_verified identity order_id r then
      [order_id, Json.text (r.fields.get "status"), Json.text r.source_id, Json.text r.observed_at] ++
        (model_text rt env allow).toList
    else []
  | .error _ => []

theorem hasNul_verified_message {order_id : String} {r : ToolResult} : hasNul (verified_message order_id r) =
    (hasNul order_id || hasNul (Json.text (r.fields.get "status")) || hasNul (Json.text r.observed_at)) := by
  have hwords : hasNul "Order " = false ∧ hasNul " is " = false ∧ hasNul ". Observed at " = false ∧
      hasNul "." = false := by decide
  simp [verified_message, hasNul_append, hwords]

/-- What an answer says besides the quotations has no NUL. -/
theorem told_quoted {rt : AgentRuntime} {env : Collaborators} {identity : IdentityContext} {order_id : String}
    {allow : Bool} {r : ToolResult} {result : RunResult} {message : String} (hg : env.gateway = .ok r)
    (hv : Verified identity order_id r) (htells : Tells rt env order_id r allow message)
    (htold : result.told = [agent_id, message, Json.text r.source_id, Json.text r.observed_at,
      Json.text r.external_ref]) :
    result.told.any hasNul = (quoted rt env identity order_id allow).any hasNul := by
  have hid : hasNul agent_id = false := by decide
  have hmodel : (model_text rt env allow).toList.any hasNul = (model_text rt env allow).any hasNul := by
    cases model_text rt env allow <;> simp
  have hq : quoted rt env identity order_id allow = [order_id, Json.text (r.fields.get "status"),
      Json.text r.source_id, Json.text r.observed_at] ++ (model_text rt env allow).toList := by
    simp only [quoted, hg, provenance_verified_iff.mpr hv, if_true]
  have href : Json.text r.external_ref = order_id := by
    rw [hv.external_ref]
    rfl
  rw [Tells, hasNul_verified_message] at htells
  rw [hq, htold, href, List.any_append, hmodel]
  simp only [List.any_cons, List.any_nil, hid, htells]
  generalize hasNul order_id = a
  generalize hasNul (Json.text (r.fields.get "status")) = b
  generalize hasNul (Json.text r.source_id) = c
  generalize hasNul (Json.text r.observed_at) = d
  generalize (model_text rt env allow).any hasNul = e
  revert a b c d e
  decide

/-- The words of event types that a run may leave. -/
inductive RunWord : RunStatus → List String → Prop
  | refused : RunWord .blocked ["run.created", "run.blocked"]
  | denied : RunWord .blocked ["run.created", "policy.decided", "run.blocked"]
  | failed {span} : SpanWord span →
      RunWord .failed (["run.created", "policy.decided"] ++ span ++ ["tool.completed", "run.failed"])
  | answered {span model status} : SpanWord span → ModelWord model →
      status = .succeeded ∨ status = .partial_success →
      RunWord status (["run.created", "policy.decided"] ++ span ++ ["tool.completed"] ++ model ++
        ["run." ++ status.value])

section Run

variable {env : Collaborators} {rt : AgentRuntime} {x : Ctx} {s t : List AuditEvent} {log : Log}
  {query order_id : String} {allow : Bool}

theorem exec_succeed {r : ToolResult} {o : Except PyError RunResult}
    (h : Does env (succeed rt x query order_id r allow) s log o t) : calls log = [] ∧
      (completions log = [] ∨ (allow = true ∧ completions log = [query])) ∧
      ((∃ result word, o = .ok result ∧ result.run_id = x.run_id ∧ result.trace_id = x.trace_id ∧
        (∃ message, Tells rt env order_id r allow message ∧ result.told = [agent_id, message,
          Json.text r.source_id, Json.text r.observed_at, Json.text r.external_ref]) ∧
        ¬ ModelRaises rt env allow ∧ (result.status = .succeeded ∨ result.status = .partial_success) ∧
        ModelWord word ∧ Wrote x s t (word ++ ["run." ++ result.status.value])) ∨
      ((∃ e, o = .error e) ∧ t = s ∧ ModelRaises rt env allow)) := by
  obtain ⟨e, h₁, rfl⟩ | ⟨⟨status, message⟩, u, l₁, l₂, h₁, hf, rfl⟩ := Program.exec_bind.mp h
  · obtain ⟨hcalls, hcomp, ⟨_, _, _, ho, _⟩ | ⟨_, hsame, hraises⟩⟩ := exec_explain h₁
    · cases ho
    · exact ⟨hcalls, hcomp, .inr ⟨⟨e, rfl⟩, hsame, hraises⟩⟩
  · obtain ⟨v, l₃, l₄, hw', hs, hend, rfl⟩ := exec_emit_bind hf (by rfl)
    obtain ⟨rfl, rfl, rfl⟩ := Program.exec_pure.mp hend
    obtain ⟨hcalls, hcomp, ⟨_, _, word, ho, htells, hfine, hstatus, hw, hword⟩ | ⟨⟨_, ho⟩, _⟩⟩ :=
      exec_explain h₁
    · cases ho
      refine ⟨by simp [hcalls, hs.calls], ?_, .inl ⟨_, word, rfl, rfl, rfl, ⟨_, htells, rfl⟩, hfine, hstatus,
        hword, hw.append hw'⟩⟩
      simpa [hs.completions] using hcomp
    · cases ho

/-- The word of a call of the tool, without its first two events. -/
inductive CallWord : RunStatus → List String → Prop
  | failed {span} : SpanWord span → CallWord .failed (span ++ ["tool.completed", "run.failed"])
  | answered {span model status} : SpanWord span → ModelWord model →
      status = .succeeded ∨ status = .partial_success →
      CallWord status (span ++ ["tool.completed"] ++ model ++ ["run." ++ status.value])

theorem CallWord.runWord {status : RunStatus} {word : List String} (h : CallWord status word) :
    RunWord status (["run.created", "policy.decided"] ++ word) := by
  cases h with
  | failed hspan =>
    rw [← List.append_assoc]
    exact .failed hspan
  | answered hspan hmodel hstatus =>
    simp only [← List.append_assoc]
    exact .answered hspan hmodel hstatus

/-- A call of the tool is not followed by a regular end of the run. -/
def CallRaises (rt : AgentRuntime) (env : Collaborators) (identity : IdentityContext)
    (order_id : String) (allow : Bool) : Prop :=
  (∃ e, env.gateway = .error e) ∨
    ∃ r, env.gateway = .ok r ∧ Verified identity order_id r ∧ ModelRaises rt env allow

/-- The exchange has one call of the gateway, made after the exchange `pre`. -/
def CalledAfter (pre log : Log) (request : ToolCallRequest) : Prop :=
  ∃ post r, log = pre ++ ⟨.call request, r⟩ :: post ∧ calls pre = [] ∧ calls post = []

/-- What a finished call of the tool shows. -/
structure Answered (rt : AgentRuntime) (env : Collaborators) (x : Ctx) (order_id : String) (allow : Bool)
    (result : RunResult) : Prop where
  run_id : result.run_id = x.run_id
  trace_id : result.trace_id = x.trace_id
  told : result.told.any hasNul = (quoted rt env x.identity order_id allow).any hasNul
  evidence : result.status = .succeeded ∨ result.status = .partial_success →
    ∃ r, env.gateway = .ok r ∧ Verified x.identity order_id r

theorem exec_call_tool {o : Except PyError RunResult}
    (h : Does env (call_tool rt x query order_id allow) s log o t) :
    (∃ pre, completions pre = [] ∧ CalledAfter pre log (tool_request x order_id)) ∧
    (completions log = [] ∨ (allow = true ∧ completions log = [query] ∧
      ∃ r, env.gateway = .ok r ∧ Verified x.identity order_id r)) ∧
    ((∃ result word, o = .ok result ∧ Answered rt env x order_id allow result ∧
        ¬ CallRaises rt env x.identity order_id allow ∧ CallWord result.status word ∧ Wrote x s t word) ∨
      ((∃ e, o = .error e) ∧ CallRaises rt env x.identity order_id allow ∧
        ∃ word, Wrote x s t word ∧ (word = [] ∨ ∃ span, SpanWord span ∧ word = span ++ ["tool.completed"]))) := by
  obtain ⟨ch, _, rfl, h₁⟩ := Program.exec_issue.mp h
  obtain ⟨ch', rest, rfl, h₂⟩ := Program.exec_issue.mp h₁
  dsimp only [Program.bind_eq, Program.pure_bind, apply] at h₂
  have called : calls rest = [] → CalledAfter [⟨.time_ns, ch.ns⟩]
      (⟨.time_ns, ch.ns⟩ :: ⟨.call (tool_request x order_id), env.gateway⟩ :: rest)
      (tool_request x order_id) := fun hrest => ⟨rest, env.gateway, rfl, rfl, hrest⟩
  cases hg : env.gateway with
  | error e =>
    rw [hg] at h₂
    obtain ⟨rfl, rfl, rfl⟩ := Program.exec_throw.mp h₂
    exact ⟨⟨_, rfl, called rfl⟩, .inl rfl, .inr ⟨⟨e, rfl⟩, .inl ⟨e, hg⟩, [], .nil, .inl rfl⟩⟩
  | ok r =>
    rw [hg] at h₂
    dsimp only [Program.ofExcept_ok, Program.pure_bind] at h₂
    obtain ⟨u, l₁, l₂, span, hw, hspan, hs, h₃, rfl⟩ := exec_span_bind h₂
    obtain ⟨v, l₃, l₄, hw', hs', h₄, rfl⟩ := exec_emit_bind h₃ (by rfl)
    have hwrote : Wrote x s v (span ++ ["tool.completed"]) := hw.append hw'
    have hcalls : ∀ {l}, calls l = [] → calls (l₁ ++ (l₃ ++ l)) = [] := by
      intro l hl
      simp [hs.calls, hs'.calls, hl]
    have hcompletions : ∀ l, completions (l₁ ++ (l₃ ++ l)) = completions l := by
      intro l
      simp [hs.completions, hs'.completions]
    by_cases hv : Verified x.identity order_id r
    · rw [if_pos hv.success, if_pos (provenance_verified_iff.mpr hv)] at h₄
      obtain ⟨hc, hcomp, hcases⟩ := exec_succeed h₄
      refine ⟨⟨_, rfl, called (hcalls hc)⟩, ?_, ?_⟩
      · exact hcomp.imp (hcompletions l₄).trans fun ⟨hallow, hcomp⟩ =>
          ⟨hallow, (hcompletions l₄).trans hcomp, r, rfl, hv⟩
      · obtain ⟨result, word, rfl, hrun, htrace, ⟨message, htells, htold⟩, hfine, hstatus, hword, hw''⟩ |
          ⟨ho, rfl, hraises⟩ := hcases
        · have hquoted := told_quoted hg hv htells htold
          refine .inl ⟨result, _, rfl, ⟨hrun, htrace, hquoted, fun _ => ⟨r, hg, hv⟩⟩, ?_,
            .answered hspan hword hstatus, ?_⟩
          · rintro (⟨e, he⟩ | ⟨_, _, _, hraises⟩)
            · rw [hg] at he
              cases he
            · exact hfine hraises
          · rw [List.append_assoc]
            exact hwrote.append hw''
        · exact .inr ⟨ho, .inr ⟨r, hg, hv, hraises⟩, _, hwrote, .inr ⟨span, hspan, rfl⟩⟩
    · obtain ⟨message, hplain, hmessage⟩ : ∃ message, hasNul message = false ∧
          Does env (_finish x .failed message) v l₄ o t := by
        split at h₄
        · rw [if_neg (fun hp => hv (provenance_verified_iff.mp hp))] at h₄
          exact ⟨_, by decide, h₄⟩
        · exact ⟨_, by decide, h₄⟩
      obtain ⟨⟨result, rfl, hstatus, hrun, htrace, htold⟩, hw'', hs''⟩ := exec_finish hmessage
      have hquoted : result.told.any hasNul = (quoted rt env x.identity order_id allow).any hasNul := by
        have hid : hasNul agent_id = false := by decide
        have hnot : provenance_verified x.identity order_id r = false :=
          Bool.eq_false_iff.mpr fun hp => hv (provenance_verified_iff.mp hp)
        simp [htold, quoted, hg, hnot, hid, hplain]
      refine ⟨⟨_, rfl, called (hcalls hs''.calls)⟩, .inl ((hcompletions l₄).trans hs''.completions),
        .inl ⟨result, span ++ ["tool.completed", "run.failed"], rfl, ⟨hrun, htrace, hquoted, ?_⟩, ?_, ?_, ?_⟩⟩
      · rw [hstatus]
        simp
      · rintro (⟨e, he⟩ | ⟨r', hr', hv', _⟩)
        · rw [hg] at he
          cases he
        · rw [hg] at hr'
          cases hr'
          exact hv hv'
      · rw [hstatus]
        exact .failed hspan
      · rw [← List.singleton_append, ← List.append_assoc]
        exact hwrote.append hw''

theorem CalledAfter.prepend {pre l : Log} {request : ToolCallRequest} (h : CalledAfter pre log request)
    (hl : calls l = []) : CalledAfter (l ++ pre) (l ++ log) request := by
  obtain ⟨post, r, rfl, hpre, hpost⟩ := h
  exact ⟨post, r, by simp, by simp [hl, hpre], hpost⟩

/-- The run gets to the tool: a query and an order are given and the policy allows the call. -/
def Reaches (rt : AgentRuntime) (identity : IdentityContext) (query order_id : Option String)
    (q order : String) : Prop :=
  given query = some q ∧ (∃ raw, given order_id = some raw ∧ order = str_strip raw) ∧
    (rt.policy.authorize identity tool_name).outcome = .allow

theorem Reaches.unique {identity : IdentityContext} {query order_id : Option String}
    {q order q' order' : String} (h : Reaches rt identity query order_id q order)
    (h' : Reaches rt identity query order_id q' order') : q = q' ∧ order = order' := by
  obtain ⟨hq, ⟨raw, hraw, rfl⟩, _⟩ := h
  obtain ⟨hq', ⟨raw', hraw', rfl⟩, _⟩ := h'
  rw [hq] at hq'
  rw [hraw] at hraw'
  cases hq'
  cases hraw'
  exact ⟨rfl, rfl⟩

/-- The collaborators that the run calls, and what it calls them with. -/
structure Asks (rt : AgentRuntime) (env : Collaborators) (query order_id : Option String)
    (allow : Bool) (x : Ctx) (log : Log) : Prop where
  gateway : calls log = [] ∨ ∃ q order pre at_, Reaches rt x.identity query order_id q order ∧
    CalledAfter pre log (tool_request x order) ∧
    ⟨.append (x.event "policy.decided" (decision_payload x (rt.policy.authorize x.identity tool_name))
      at_), ()⟩ ∈ pre
  model : completions log = [] ∨ ∃ q order r, Reaches rt x.identity query order_id q order ∧
    env.gateway = .ok r ∧ Verified x.identity order r ∧ allow = true ∧ completions log = [q]

theorem Silent.asks {query order_id : Option String} (h : Silent log) :
    Asks rt env query order_id allow x log := ⟨.inl h.calls, .inl h.completions⟩

theorem Asks.prepend {query order_id : Option String} {l : Log} (h : Asks rt env query order_id allow x log)
    (hl : Silent l) : Asks rt env query order_id allow x (l ++ log) where
  gateway := by
    obtain hc | ⟨q, order, pre, at_, hreach, hcall, hmem⟩ := h.gateway
    · exact .inl (by simp [hl.calls, hc])
    · exact .inr ⟨q, order, _, at_, hreach, hcall.prepend hl.calls, List.mem_append_right _ hmem⟩
  model := by
    rw [completions_append, hl.completions]
    exact h.model

/-- How a run ends: with a result, or with an exception that leaves the trail open. -/
inductive Ended (rt : AgentRuntime) (env : Collaborators) (query order_id : Option String)
    (allow : Bool) (x : Ctx) : Except PyError RunResult → List String → Prop
  | returned {result word} : result.run_id = x.run_id → result.trace_id = x.trace_id →
      (result.told.any hasNul = true ↔ ∃ q order, Reaches rt x.identity query order_id q order ∧
        (quoted rt env x.identity order allow).any hasNul = true) →
      (result.status = .succeeded ∨ result.status = .partial_success →
        ∃ q order r, Reaches rt x.identity query order_id q order ∧ env.gateway = .ok r ∧
          Verified x.identity order r) →
      (∀ q order, Reaches rt x.identity query order_id q order →
        ¬ CallRaises rt env x.identity order allow) →
      RunWord result.status ("run.created" :: word) →
      Ended rt env query order_id allow x (.ok result) word
  | raised {e word q order} : Reaches rt x.identity query order_id q order →
      CallRaises rt env x.identity order allow →
      (word = ["policy.decided"] ∨ ∃ span, SpanWord span ∧
        word = ["policy.decided"] ++ span ++ ["tool.completed"]) →
      Ended rt env query order_id allow x (.error e) word

theorem ended_blocked {query order_id : Option String} {result : RunResult} {word : List String}
    (hstatus : result.status = .blocked) (hrun : result.run_id = x.run_id)
    (htrace : result.trace_id = x.trace_id) {message : String} (htold : result.told = [agent_id, message])
    (hplain : hasNul message = false) (hno : ∀ q order, ¬ Reaches rt x.identity query order_id q order)
    (hword : RunWord .blocked ("run.created" :: word)) :
    Ended rt env query order_id allow x (.ok result) word := by
  have hid : hasNul agent_id = false := by decide
  refine .returned hrun htrace ?_ ?_ (fun q order h => absurd h (hno q order)) (hstatus ▸ hword)
  · simp [htold, hid, hplain, hno]
  · rw [hstatus]
    simp

theorem exec_handle {query order_id : Option String} {o : Except PyError RunResult}
    (h : Does env (handle rt x query order_id allow) s log o t) :
    Asks rt env query order_id allow x log ∧
      ∃ word, Wrote x s t word ∧ Ended rt env query order_id allow x o word := by
  unfold handle at h
  split at h
  · rename_i hq
    obtain ⟨⟨result, rfl, hstatus, hrun, htrace, htold⟩, hw, hs⟩ := exec_finish h
    refine ⟨hs.asks, _, hw, ended_blocked hstatus hrun htrace htold (by decide) ?_ .refused⟩
    rintro q order ⟨hq', _⟩
    rw [hq] at hq'
    cases hq'
  · rename_i q hq
    split at h
    · rename_i hraw
      obtain ⟨⟨result, rfl, hstatus, hrun, htrace, htold⟩, hw, hs⟩ := exec_finish h
      refine ⟨hs.asks, _, hw, ended_blocked hstatus hrun htrace htold (by decide) ?_ .refused⟩
      rintro q order ⟨_, ⟨raw, hraw', _⟩, _⟩
      rw [hraw] at hraw'
      cases hraw'
    · rename_i raw hraw
      obtain ⟨e, h₁, rfl⟩ | ⟨_, u, l₁, l₂, h₁, hf, rfl⟩ := Program.exec_bind.mp h
      · obtain ⟨he, _⟩ := exec_emit h₁ (by rfl)
        cases he
      · obtain ⟨_, hw, hs, at_, hmem⟩ := exec_emit h₁ (by rfl)
        split at hf
        · rename_i hallow
          have hreach : Reaches rt x.identity query order_id q (str_strip raw) :=
            ⟨hq, ⟨raw, hraw, rfl⟩, hallow⟩
          obtain ⟨⟨pre, hpre, hcall⟩, hcomp, hcases⟩ := exec_call_tool hf
          refine ⟨⟨.inr ⟨q, _, l₁ ++ pre, at_, hreach, hcall.prepend hs.calls,
            List.mem_append_left _ hmem⟩, ?_⟩, ?_⟩
          · rw [completions_append, hs.completions]
            exact hcomp.imp id fun ⟨hcons, hcomp, r, hr, hv⟩ => ⟨q, _, r, hreach, hr, hv, hcons, hcomp⟩
          · obtain ⟨result, word, rfl, hans, hfine, hword, hw'⟩ | ⟨⟨e, rfl⟩, hraises, word, hw', hword⟩ :=
              hcases
            · refine ⟨_, hw.append hw', .returned hans.run_id hans.trace_id ?_ ?_ ?_ hword.runWord⟩
              · rw [hans.told]
                constructor
                · exact fun hnul => ⟨q, _, hreach, hnul⟩
                · rintro ⟨q', order', hreach', hnul⟩
                  obtain ⟨rfl, rfl⟩ := hreach.unique hreach'
                  exact hnul
              · intro hstatus
                obtain ⟨r, hr, hv⟩ := hans.evidence hstatus
                exact ⟨q, _, r, hreach, hr, hv⟩
              · intro q' order' hreach'
                obtain ⟨rfl, rfl⟩ := hreach.unique hreach'
                exact hfine
            · refine ⟨_, hw.append hw', .raised hreach hraises ?_⟩
              obtain rfl | ⟨span, hspan, rfl⟩ := hword
              · exact .inl rfl
              · exact .inr ⟨span, hspan, by simp⟩
        · rename_i hdeny
          obtain ⟨⟨result, rfl, hstatus, hrun, htrace, htold⟩, hw', hs'⟩ := exec_finish hf
          refine ⟨(hs.append hs').asks, _, hw.append hw',
            ended_blocked hstatus hrun htrace htold (by decide) ?_ .denied⟩
          rintro q' order' ⟨_, _, hallow⟩
          exact hdeny hallow

theorem exec_or_uuid {α : Type} {id : Option String} {stem : String} {f : String → Code α}
    {o : Except PyError α} (h : Does env ((or_uuid id stem).bind f) s log o t) :
    ∃ text l₁ l₂, Silent l₁ ∧ Does env (f text) s l₂ o t ∧ log = l₁ ++ l₂ ∧
      (∀ given_id, truthy id = some given_id → text = given_id) ∧
      (truthy id = none → ∃ uuid, text = stem ++ uuid ∧ ⟨.uuid4, uuid⟩ ∈ l₁) := by
  unfold or_uuid at h
  split at h
  · rename_i given_id hid
    refine ⟨given_id, [], log, ⟨rfl, rfl⟩, h, rfl, fun other hother => ?_, fun hnone => ?_⟩
    · rw [hid] at hother
      cases hother
      rfl
    · rw [hid] at hnone
      cases hnone
  · rename_i hid
    obtain ⟨ch, rest, rfl, h₁⟩ := Program.exec_issue.mp h
    refine ⟨_, [_], rest, ⟨rfl, rfl⟩, h₁, rfl, fun other hother => ?_, fun _ => ⟨_, rfl, .head _⟩⟩
    rw [hid] at hother
    cases hother

/-- The identifiers of a run are those it was given, where it was given any. -/
structure Ctx.For (x : Ctx) (identity : IdentityContext) (request_id trace_id : Option String) :
    Prop where
  identity : x.identity = identity
  request_id : ∀ id, truthy request_id = some id → x.request_id = id
  trace_id : ∀ id, truthy trace_id = some id → x.trace_id = id

theorem exec_run {query order_id request_id trace_id : Option String} {identity : IdentityContext}
    {o : Except PyError RunResult}
    (h : Does env (rt.run query identity order_id request_id trace_id allow) s log o t) :
    ∃ x : Ctx, x.For identity request_id trace_id ∧ ((∃ uuid, x.run_id = "run-" ++ uuid ∧
        ⟨.uuid4, uuid⟩ ∈ log) ∧ (truthy trace_id = none → ∃ uuid, x.trace_id = "trace-" ++ uuid ∧
        ⟨.uuid4, uuid⟩ ∈ log)) ∧ Asks rt env query order_id allow x log ∧
      ∃ word, Wrote x s t ("run.created" :: word) ∧ Ended rt env query order_id allow x o word := by
  obtain ⟨request, l₁, l₂, hs₁, h₁, rfl, hrequest, _⟩ := exec_or_uuid h
  obtain ⟨trace, l₃, l₄, hs₂, h₂, rfl, htrace, hdrawn⟩ := exec_or_uuid h₁
  obtain ⟨ch, rest, rfl, h₃⟩ := Program.exec_issue.mp h₂
  obtain ⟨u, l₅, l₆, hw, hs₃, h₄, rfl⟩ := exec_emit_bind h₃ (by rfl)
  obtain ⟨hasks, word, hw', hended⟩ := exec_handle h₄
  have huuid : Silent [⟨.uuid4, (apply env s .uuid4 ch).1⟩] := ⟨rfl, rfl⟩
  have htraced : truthy trace_id = none → ∃ uuid, trace = "trace-" ++ uuid ∧ ⟨.uuid4, uuid⟩ ∈ l₃ := hdrawn
  refine ⟨_, ⟨rfl, hrequest, htrace⟩, ⟨⟨_, rfl, by simp⟩, fun hnone => ?_⟩, ?_, word, hw.append hw', hended⟩
  · obtain ⟨uuid, htext, hmem⟩ := htraced hnone
    exact ⟨uuid, htext, List.mem_append_right _ (List.mem_append_left _ hmem)⟩
  have hall := (((hasks.prepend hs₃).prepend huuid).prepend hs₂).prepend hs₁
  exact hall

end Run

section Verified

variable (rt : AgentRuntime) (query : Option String) (identity : IdentityContext)
  (order_id request_id trace_id : Option String) (allow : Bool) (env : Collaborators) (ω : Nat → Choice)
  (events : List AuditEvent)

/-- A run alone, from a log of earlier events. -/
def AgentRuntime.outcome : Program.Outcome (List AuditEvent) Cmd Reply PyError RunResult :=
  Program.run (apply env) (rt.run query identity order_id request_id trace_id allow) ω events

/-- Whatever the collaborators answer, the run returns, asks them only what it may, answers only
with evidence, and leaves one word of events in its own name. -/
theorem run_verified (hgateway : ∃ r, env.gateway = .ok r) (hmodel : ∀ e, env.model ≠ .error (.other e)) :
    ∃ (x : Ctx) (trail : List AuditEvent) (result : RunResult),
      (rt.outcome query identity order_id request_id trace_id allow env ω events).result = .ok result ∧
      (rt.outcome query identity order_id request_id trace_id allow env ω events).state =
        events ++ trail ∧
      x.For identity request_id trace_id ∧ x.run_id = result.run_id ∧ x.trace_id = result.trace_id ∧
      Asks rt env query order_id allow x
        (rt.outcome query identity order_id request_id trace_id allow env ω events).log ∧
      (result.status = .succeeded ∨ result.status = .partial_success → ∃ q order r,
        Reaches rt identity query order_id q order ∧ env.gateway = .ok r ∧ Verified identity order r) ∧
      RunWord result.status (trail.map AuditEvent.event_type) ∧ ∀ e ∈ trail, x.Owns e := by
  obtain ⟨x, hfor, _, hasks, word, hw, hended⟩ := exec_run (Program.exec_of_run (apply env)
    (rt.run query identity order_id request_id trace_id allow) ω events)
  obtain ⟨trail, hstate, hword, howns⟩ := hw.trail
  generalize hresult : (Program.run (apply env)
    (rt.run query identity order_id request_id trace_id allow) ω events).result = o at hended
  obtain ⟨hrun, htrace, _, hevidence, _, hrunword⟩ | ⟨_, hraises, _⟩ := hended
  · refine ⟨x, trail, _, hresult, hstate, hfor, hrun.symm, htrace.symm, hasks, ?_, ?_, howns⟩
    · rw [← hfor.identity]
      exact hevidence
    · rw [hword]
      exact hrunword
  · obtain ⟨e, he⟩ | ⟨_, _, _, _, _, e, he⟩ := hraises
    · obtain ⟨r, hr⟩ := hgateway
      rw [hr] at he
      cases he
    · exact absurd he (hmodel e)

end Verified

section Sample

def sampleRuntime : AgentRuntime where
  policy := ⟨[(tool_name, ⟨tool_name, .read, "Return a tenant-scoped synthetic order status."⟩)],
    [("support", [tool_name])]⟩
  trace_exporter := true
  model_provider := some ⟨"openai-compatible", "gpt"⟩
  sha256 := id

def sampleCaller : IdentityContext := ⟨"user-1", "workspace-a", "tenant-a", "support"⟩

def sampleResult : ToolResult where
  success := true
  data := .obj [("order_id", .str "SO-1"), ("status", .str "shipped")]
  source_id := .str "erpnext:Sales Order:SO-1"
  observed_at := .str "2026-07-01T02:00:00+00:00"
  external_ref := .str "SO-1"
  workspace_id := .str "workspace-a"
  tenant_id := .str "tenant-a"

/-- The provider is down and so is the exporter. -/
def sampleAnswers : Collaborators := ⟨.ok sampleResult, .error (.provider "ModelProviderError")⟩

def sampleChoices (_ : Nat) : Choice := { text := "5a0e", ns := 1, exported := .error "TraceExportError" }

def sampleOutcome (env : Collaborators) :
    Program.Outcome (List AuditEvent) Cmd Reply PyError RunResult :=
  sampleRuntime.outcome (some "Where is my order?") sampleCaller (some " SO-1 ") none none true env
    sampleChoices []

theorem run_verified_sample : ∃ (x : Ctx) (trail : List AuditEvent) (result : RunResult),
    (sampleOutcome sampleAnswers).result = .ok result ∧ result.status = .partial_success ∧
    (sampleOutcome sampleAnswers).state = trail ∧ x.run_id = "run-5a0e" ∧
    RunWord .partial_success (trail.map AuditEvent.event_type) ∧ ∀ e ∈ trail, x.Owns e := by
  obtain ⟨x, trail, result, hresult, hstate, hfor, hrun, htrace, hasks, hevidence, hword, howns⟩ :=
    run_verified sampleRuntime (some "Where is my order?") sampleCaller (some " SO-1 ") none none true
      sampleAnswers sampleChoices [] ⟨_, rfl⟩ (by simp [sampleAnswers])
  obtain ⟨r, hr, hstatus, hid⟩ : ∃ r, (sampleOutcome sampleAnswers).result = .ok r ∧
      r.status = .partial_success ∧ r.run_id = "run-5a0e" := ⟨_, rfl, rfl, rfl⟩
  obtain rfl : result = r := Except.ok.inj (hresult.symm.trans hr)
  exact ⟨x, trail, result, hresult, hstatus, hstate, hrun.trans hid, hstatus ▸ hword, howns⟩

end Sample

end EnterpriseCopilot.Runtime
