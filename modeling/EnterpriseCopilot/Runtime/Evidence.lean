import EnterpriseCopilot.Runtime.Completion
import EnterpriseCopilot.Runtime.World

/-! What a remote server can bring into a run. -/

namespace EnterpriseCopilot.Runtime

open EnterpriseCopilot.Lib EnterpriseCopilot.Python

theorem bounded_str {bound : Nat} {text : String} : Json.bounded bound (.str text) = true ↔
    isBlank text = false ∧ text.length ≤ bound := by
  rw [Json.bounded, Bool.and_eq_true]
  exact and_congr (by simp [Json.filled]) decide_eq_true_iff

theorem bounded_iff {bound : Nat} {value : Json} : Json.bounded bound value = true ↔
    ∃ text, value = .str text ∧ isBlank text = false ∧ text.length ≤ bound := by
  constructor
  · intro h
    cases value with
    | str text => exact ⟨text, rfl, bounded_str.mp h⟩
    | _ => cases h
  · rintro ⟨text, rfl, h⟩
    exact bounded_str.mpr h

theorem bounded_mono {bound bound' : Nat} {value : Json} (h : Json.bounded bound value = true)
    (hle : bound ≤ bound') : Json.bounded bound' value = true := by
  obtain ⟨text, rfl, hfilled, hlength⟩ := bounded_iff.mp h
  exact bounded_str.mpr ⟨hfilled, hlength.trans hle⟩

section Gateway

open StreamableHttpMcpGateway

/-- A result that the gateway made of structured content. -/
structure Accepted (identity : IdentityContext) (structured : Payload) (r : ToolResult) : Prop where
  source_id : r.source_id = structured.get "source_id"
  observed_at : r.observed_at = structured.get "observed_at"
  external_ref : r.external_ref = structured.get "external_ref"
  data : r.data = (structured.lookup "data").getD (.obj structured)
  source_id_bounded : Json.bounded _MAX_SOURCE_ID r.source_id = true
  observed_at_bounded : Json.bounded _MAX_OBSERVED_AT r.observed_at = true
  external_ref_bounded : Json.bounded _MAX_EXTERNAL_REF r.external_ref = true
  workspace_id : structured.get "workspace_id" = .str identity.workspace_id
  tenant_id : structured.get "tenant_id" = .str identity.tenant_id
  no_error : r.error = .null

theorem of_structured_cases (identity : IdentityContext) (structured : Payload) :
    (∃ error ∈ errors, of_structured identity structured = refuse error) ∨
      Accepted identity structured (of_structured identity structured) := by
  unfold of_structured
  dsimp only
  split
  · exact .inl ⟨_, by simp [errors], rfl⟩
  split
  · exact .inl ⟨_, by simp [errors], rfl⟩
  split
  · exact .inl ⟨_, by simp [errors], rfl⟩
  split
  · exact .inl ⟨_, by simp [errors], rfl⟩
  rename_i hsource hobserved hexternal hscope
  simp only [Bool.not_eq_true', Bool.not_eq_false, Bool.and_eq_true, eqScalar_str] at hsource hobserved hexternal hscope
  split
  · exact .inr ⟨rfl, rfl, rfl, rfl, hsource, hobserved, hexternal, hscope.1, hscope.2, rfl⟩
  · exact .inl ⟨_, by simp [errors], rfl⟩

theorem structured_of_error {body : Json} {error : String} (h : structured_of body = .error error) :
    error ∈ errors := by
  unfold structured_of at h
  repeat' split at h
  all_goals cases h
  all_goals simp [errors]

/-- The server answers a request with this value. -/
def Answers (g : StreamableHttpMcpGateway) (H : Http) (request : ToolCallRequest) (body : Json) : Prop :=
  ∃ response, H.post (g.outgoing request) = .ok response ∧
    H.loads (response.take (responseLimit + 1)) = .ok body

/-- Whatever the server answers, the gateway refuses it in its own words or accepts bounded fields of
the scope of the caller. -/
theorem call_cases {g : StreamableHttpMcpGateway} {H : Http} {request : ToolCallRequest} {r : ToolResult}
    (h : g.call H request = .ok r) : (∃ error ∈ errors, r = refuse error) ∨
      ∃ body structured, Answers g H request body ∧ structured_of body = .ok structured ∧
        Accepted request.identity structured r := by
  unfold call at h
  split at h
  · cases h
    exact .inl ⟨_, by simp [errors], rfl⟩
  split at h
  · cases h
    exact .inl ⟨_, by simp [errors], rfl⟩
  · cases h
  rename_i response hpost
  dsimp only at h
  split at h
  · cases h
    exact .inl ⟨_, by simp [errors], rfl⟩
  split at h
  · cases h
    exact .inl ⟨_, by simp [errors], rfl⟩
  · cases h
  rename_i body hloads
  obtain rfl := Except.ok.inj h
  unfold of_body
  split
  · rename_i error herror
    exact .inl ⟨error, structured_of_error herror, rfl⟩
  · rename_i structured hstructured
    obtain hrefused | haccepted := of_structured_cases request.identity structured
    · exact .inl hrefused
    · exact .inr ⟨body, structured, ⟨response, hpost, hloads⟩, hstructured, haccepted⟩

end Gateway

/-- The adapters of a runtime, and the servers that they talk to. -/
structure Remote where
  gateway : StreamableHttpMcpGateway
  mcp : Http
  provider : OpenAICompatibleModelProvider
  llm : Http
  uuid4 : Nat → String

/-- What the runtime makes of an outcome of `complete`. -/
def completed : Except CompletionError ModelCompletion → Except ModelFailure (Option ModelCompletion)
  | .ok completion => .ok (some completion)
  | .error (.provider _) => .error (.provider "ModelProviderError")
  | .error (.other e) => .error (.other e)

def Remote.world (N : Remote) : World where
  uuid4 := N.uuid4
  gateway := N.gateway.call N.mcp
  complete query evidence request_id trace_id run_id :=
    completed (N.provider.complete N.llm query evidence request_id trace_id run_id)

/-- The runtime over these adapters, with or without the model provider. -/
def Remote.runtime (N : Remote) (policy : PolicyEngine) (sha256 : String → String)
    (trace_exporter explains : Bool) : AgentRuntime where
  policy
  trace_exporter
  sha256
  model_provider :=
    if explains then some ⟨OpenAICompatibleModelProvider.provider_id, N.provider.model⟩ else none

/-- The response carries the scope of the caller and the order that was asked for. -/
def Echoes (identity : IdentityContext) (order_id : String) (body : Json) : Prop :=
  ∃ structured data, StreamableHttpMcpGateway.structured_of body = .ok structured ∧
    structured.get "workspace_id" = .str identity.workspace_id ∧
    structured.get "tenant_id" = .str identity.tenant_id ∧
    structured.get "external_ref" = .str order_id ∧
    (structured.lookup "data").getD (.obj structured) = .obj data ∧
    Payload.get data "order_id" = .str order_id

/-- The texts that the runtime writes itself. -/
def ownTexts : List String :=
  StreamableHttpMcpGateway.errors ++
  ["order_status", tool_name, OpenAICompatibleModelProvider.provider_id,
    "allow", "deny", "approval_required", "read", "write", "external_send", "destructive",
    "identity and workspace scope are required", "tool is not registered",
    "role is not allowed to use this tool", "authorized read operation", "approved high-risk operation",
    "high-risk operation requires approval", "model", "external_processing_consent_required",
    "A non-empty customer request is required.",
    "Please provide an order ID so the authorized ERP record can be checked.",
    "This request is not authorized for the requested operation.",
    "The ERP result failed provenance verification.",
    "The order status could not be verified at this time."]

/-- An entry of an audit payload: a bounded text of the server, a text of the runtime, its provider
or its caller, the class of an exception, or no text at all. -/
inductive Carried (N : Remote) (identity : IdentityContext) : String × Json → Prop
  | source_id {text} : text.length ≤ _MAX_SOURCE_ID → Carried N identity ("source_id", .str text)
  | external_ref {text} : text.length ≤ _MAX_EXTERNAL_REF → Carried N identity ("external_ref", .str text)
  | own {key text} : text ∈ ownTexts → Carried N identity (key, .str text)
  | caller : Carried N identity ("tenant_id", .str identity.tenant_id)
  | model : Carried N identity ("model", .str N.provider.model)
  | error_type {name} : Carried N identity ("error_type", .str name)
  | null {key} : Carried N identity (key, .null)
  | bool {key b} : Carried N identity (key, .bool b)
  | num {key q} : Carried N identity (key, .num q)

/-- Evidence that is bounded as the gateway bounds it. -/
structure BoundedEvidence (evidence : Payload) : Prop where
  source_id : Json.bounded _MAX_SOURCE_ID (evidence.get "source_id") = true
  observed_at : Json.bounded _MAX_OBSERVED_AT (evidence.get "observed_at") = true
  status : Json.bounded 256 (evidence.get "status") = true

/-- What a run may do: append such payloads, and ask the provider for what it accepts. -/
def Fine (N : Remote) (identity : IdentityContext) : Cmd → Prop
  | .append event => ∀ entry ∈ event.payload, Carried N identity entry
  | .complete query evidence _ _ _ =>
    OpenAICompatibleModelProvider.input_error query evidence = none ∧ BoundedEvidence evidence
  | _ => True

/-- The answer to the caller: bounded texts of the server around those of the runtime. -/
def Told (order_id message : String) : Prop :=
  ∃ status observed_at explanation, status.length ≤ 256 ∧ observed_at.length ≤ _MAX_OBSERVED_AT ∧
    message = "Order " ++ order_id ++ " is " ++ status ++ ". Observed at " ++ observed_at ++ "." ++
      explanation ∧
    (explanation ∈ ["", " Model explanation was not requested.", " Model explanation is unavailable."] ∨
      ∃ text, text.length ≤ 32000 ∧ explanation = "\n\nModel explanation (unverified): " ++ text)

/-- A result whose texts of the server are bounded, and that succeeds on an echo only. -/
structure Bounded (N : Remote) (x : Ctx) (order_id : Option String) (result : RunResult) : Prop where
  run_id : result.run_id = x.run_id
  trace_id : result.trace_id = x.trace_id
  source_id : ∀ text ∈ result.source_id, text.length ≤ _MAX_SOURCE_ID
  observed_at : ∀ text ∈ result.observed_at, text.length ≤ _MAX_OBSERVED_AT
  external_ref : ∀ text ∈ result.external_ref, text.length ≤ _MAX_EXTERNAL_REF
  message : result.message ∈ ownTexts ∨ ∃ raw ∈ order_id, Told (str_strip raw) result.message
  echoed : result.status = .succeeded ∨ result.status = .partial_success →
    ∃ raw body, order_id = some raw ∧
      Answers N.gateway N.mcp (tool_request x (str_strip raw)) body ∧
      Echoes x.identity (str_strip raw) body

section Parts

variable {N : Remote} {policy : PolicyEngine} {sha256 : String → String} {tracer explains : Bool}
  {x : Ctx} {α : Type} {P : α → Prop}

/-- A part of a run in which every command is fine. -/
abbrev Holds (N : Remote) (x : Ctx) (P : α → Prop) (p : Code α) : Prop :=
  Program.Assured N.world.respond (Fine N x.identity) P p

theorem holds_emit {event_type : String} {payload : Payload} {f : Unit → Code α}
    (hpayload : ∀ entry ∈ payload, Carried N x.identity entry) (hf : Holds N x P (f ())) :
    Holds N x P ((emit x event_type payload).bind f) :=
  ⟨trivial, fun _ _ => ⟨hpayload, fun _ _ => hf⟩⟩

theorem holds_failed {error_type : String} {tool : String} (htool : tool ∈ ownTexts) :
    Holds N x (fun _ => True) (emit x "trace.export_failed"
      [("error_type", .str error_type), ("tenant_id", .str x.identity.tenant_id), ("tool", .str tool)]) := by
  have hpayload : ∀ entry ∈ [("error_type", Json.str error_type),
      ("tenant_id", .str x.identity.tenant_id), ("tool", .str tool)], Carried N x.identity entry := by
    simp only [List.forall_mem_cons]
    exact ⟨.error_type, .caller, .own htool, by simp⟩
  exact ⟨trivial, fun _ _ => ⟨hpayload, fun _ _ => trivial⟩⟩

theorem holds_span {rt : AgentRuntime} {name tool : String} {started_at : Int}
    {attributes : List (String × Json)} (htool : tool ∈ ownTexts) :
    Holds N x (fun _ => True) (export_named_span rt x name tool started_at attributes) := by
  unfold export_named_span
  dsimp only
  split
  · refine ⟨trivial, fun _ _ => ⟨trivial, fun _ _ => ?_⟩⟩
    dsimp only [Program.pure_bind]
    split
    · exact holds_failed htool
    · refine ⟨trivial, fun s ch => ?_⟩
      dsimp only [Program.pure_bind]
      split
      · exact holds_failed htool
      · trivial
  · trivial

theorem holds_span_bind {rt : AgentRuntime} {name tool : String} {started_at : Int}
    {attributes : List (String × Json)} {f : Unit → Code α} (htool : tool ∈ ownTexts)
    (hf : Holds N x P (f ())) :
    Holds N x P ((export_named_span rt x name tool started_at attributes).bind f) :=
  .bind ((holds_span htool).imp fun _ _ => hf)

theorem holds_finish {status : RunStatus} {message : String} {order_id : Option String}
    (hstatus : ¬ (status = .succeeded ∨ status = .partial_success)) (hmessage : message ∈ ownTexts) :
    Holds N x (Bounded N x order_id) (_finish x status message) := by
  refine holds_emit ?_ ⟨rfl, rfl, by simp, by simp, by simp, .inl hmessage, fun h => absurd h hstatus⟩
  simp only [List.forall_mem_cons]
  exact ⟨.own hmessage, .caller, by simp⟩

/-- What an explanation returns. -/
def Explained (order_id : String) (outcome : RunStatus × String) : Prop :=
  (outcome.1 = .succeeded ∨ outcome.1 = .partial_success) ∧ Told order_id outcome.2

theorem holds_model_failed {rt : AgentRuntime} {p : Provider} {started_at : Int} {type_name : String}
    {order_id message : String} (hp : p.provider_id ∈ ownTexts)
    (htold : Told order_id (message ++ " Model explanation is unavailable.")) :
    Holds N x (Explained order_id) (model_failed rt x p started_at type_name message) := by
  refine holds_span_bind (by simp [ownTexts]) (holds_emit ?_ ⟨.inr rfl, htold⟩)
  simp only [List.forall_mem_cons]
  exact ⟨.own hp, .error_type, .caller, by simp⟩

/-- The evidence of a verified result passes the checks of the provider. -/
theorem evidence_accepted {query order_id : String} {r : ToolResult} {structured : Payload}
    (haccepted : Accepted x.identity structured r) (hverified : Verified x.identity order_id r)
    (hquery : isBlank query = false ∧ query.length ≤ 4000)
    (horder : isBlank order_id = false ∧ order_id.length ≤ 128) :
    Fine N x.identity (.complete query [("order_id", .str order_id), ("status", r.fields.get "status"),
      ("source_id", r.source_id), ("observed_at", r.observed_at)] x.request_id x.trace_id x.run_id) := by
  have hstatus : Json.bounded 256 (r.fields.get "status") = true := bounded_iff.mpr hverified.status
  have hall : ∀ entry ∈ [("order_id", Json.str order_id), ("status", r.fields.get "status"),
      ("source_id", r.source_id), ("observed_at", r.observed_at)], Json.bounded 512 entry.2 = true := by
    simp only [List.forall_mem_cons]
    exact ⟨bounded_str.mpr ⟨horder.1, horder.2.trans (by decide)⟩, bounded_mono hstatus (by decide),
      haccepted.source_id_bounded, bounded_mono haccepted.observed_at_bounded (by decide), by simp⟩
  refine ⟨?_, haccepted.source_id_bounded, haccepted.observed_at_bounded, hstatus⟩
  have hlong : ¬ 4000 < query.length := not_lt.mpr hquery.2
  unfold OpenAICompatibleModelProvider.input_error
  rw [if_neg (by simp [hquery.1, hlong]), if_neg]
  rw [Bool.or_eq_true, not_or]
  refine ⟨by simp [OpenAICompatibleModelProvider.evidence_keys], ?_⟩
  simpa using hall

/-- A completion of the provider carries the names of the provider. -/
theorem complete_texts {query request_id trace_id run_id : String} {evidence : Payload}
    {completion : Option ModelCompletion} {provider model text : String}
    (h : N.world.complete query evidence request_id trace_id run_id = .ok completion)
    (hvalid : valid_completion completion = some (provider, model, text)) :
    provider = OpenAICompatibleModelProvider.provider_id ∧ model = N.provider.model ∧
      text.length ≤ 32000 := by
  change completed (N.provider.complete N.llm query evidence request_id trace_id run_id) = _ at h
  generalize hc : N.provider.complete N.llm query evidence request_id trace_id run_id = outcome at h
  cases outcome with
  | error e => cases e <;> cases h
  | ok c =>
    obtain rfl := Except.ok.inj h
    have hnames : c.provider = .str OpenAICompatibleModelProvider.provider_id ∧
        c.model = .str N.provider.model := by
      unfold OpenAICompatibleModelProvider.complete at hc
      dsimp only at hc
      repeat' split at hc
      all_goals cases hc
      exact ⟨rfl, rfl⟩
    unfold valid_completion at hvalid
    dsimp only at hvalid
    split at hvalid
    · rename_i hchecks
      obtain ⟨rfl, rfl, rfl⟩ := Prod.mk.inj (Option.some.inj hvalid) |>.imp id Prod.mk.inj
      rw [Bool.and_eq_true, decide_eq_true_iff] at hchecks
      exact ⟨by rw [hnames.1, Json.text], by rw [hnames.2, Json.text], hchecks.2⟩
    · cases hvalid

/-- The caller of the API: a query of at most 4000 characters and an order of at most 128. -/
structure Admitted (query order_id : String) : Prop where
  query : isBlank query = false ∧ query.length ≤ 4000
  order_id : isBlank order_id = false ∧ order_id.length ≤ 128

variable {query order_id : String} {r : ToolResult} {structured : Payload} {allow : Bool}

theorem told_verified {explanation : String} (haccepted : Accepted x.identity structured r)
    (hverified : Verified x.identity order_id r)
    (hex : explanation ∈ ["", " Model explanation was not requested.", " Model explanation is unavailable."] ∨
      ∃ text, text.length ≤ 32000 ∧ explanation = "\n\nModel explanation (unverified): " ++ text) :
    Told order_id (verified_message order_id r ++ explanation) := by
  obtain ⟨status, hstatus, _, hlength⟩ := hverified.status
  obtain ⟨observed_at, hobserved, _, hlength'⟩ := bounded_iff.mp haccepted.observed_at_bounded
  refine ⟨status, observed_at, explanation, hlength, hlength', ?_, hex⟩
  rw [verified_message, hstatus, hobserved, Json.text, Json.text]

theorem holds_explain (haccepted : Accepted x.identity structured r)
    (hverified : Verified x.identity order_id r) (hadmitted : Admitted query order_id) :
    Holds N x (Explained order_id)
      (explain (N.runtime policy sha256 tracer explains) x query order_id r allow) := by
  have htold := @told_verified x order_id r structured
  unfold explain
  dsimp only
  split
  · refine ⟨.inl rfl, ?_⟩
    have hplain := htold haccepted hverified (.inl (by simp : "" ∈ _))
    rwa [String.append_empty] at hplain
  · rename_i p hp
    have hname : p = ⟨OpenAICompatibleModelProvider.provider_id, N.provider.model⟩ := by
      unfold Remote.runtime at hp
      dsimp only at hp
      split at hp
      · exact (Option.some.inj hp).symm
      · cases hp
    subst hname
    have hown : OpenAICompatibleModelProvider.provider_id ∈ ownTexts := by simp [ownTexts]
    have hunavailable := htold haccepted hverified
      (.inl (by simp : " Model explanation is unavailable." ∈ _))
    split
    · refine ⟨trivial, fun _ _ => ⟨evidence_accepted haccepted hverified hadmitted.query
        hadmitted.order_id, fun s ch => ?_⟩⟩
      dsimp only [Program.pure_bind, World.respond]
      -- the answer of the provider
      split
      · trivial
      · exact holds_model_failed hown hunavailable
      · rename_i completion hcompletion
        split
        · exact holds_model_failed hown hunavailable
        · rename_i provider model text hvalid
          obtain ⟨rfl, rfl, hlength⟩ := complete_texts hcompletion hvalid
          refine holds_emit ?_ (holds_span_bind (by simp [ownTexts]) ⟨.inl rfl, ?_⟩)
          · simp only [List.forall_mem_cons]
            exact ⟨.own hown, .model, .bool, .caller, by simp⟩
          · rw [String.append_assoc]
            exact htold haccepted hverified (.inr ⟨text, hlength, rfl⟩)
    · refine holds_emit ?_ ⟨.inl rfl, htold haccepted hverified (.inl (by simp))⟩
      simp only [List.forall_mem_cons]
      exact ⟨.own hown, .own (by simp [ownTexts]), .bool, .caller, by simp⟩

/-- The fields of a result that go into payloads. -/
structure CarriedResult (N : Remote) (identity : IdentityContext) (r : ToolResult) : Prop where
  source_id : Carried N identity ("source_id", r.source_id)
  external_ref : Carried N identity ("external_ref", r.external_ref)
  error : Carried N identity ("error", r.error)

theorem Accepted.carried (h : Accepted x.identity structured r) : CarriedResult N x.identity r := by
  obtain ⟨source_id, hsource, _, hsource_length⟩ := bounded_iff.mp h.source_id_bounded
  obtain ⟨external_ref, hexternal, _, hexternal_length⟩ := bounded_iff.mp h.external_ref_bounded
  refine ⟨?_, ?_, ?_⟩
  · rw [hsource]
    exact .source_id hsource_length
  · rw [hexternal]
    exact .external_ref hexternal_length
  · rw [h.no_error]
    exact .null

theorem carried_refuse {error : String} (h : error ∈ StreamableHttpMcpGateway.errors) :
    CarriedResult N x.identity (StreamableHttpMcpGateway.refuse error) :=
  ⟨.null, .null, .own (List.mem_append_left _ h)⟩

theorem echoes_of_verified {body : Json}
    (hstructured : StreamableHttpMcpGateway.structured_of body = .ok structured)
    (haccepted : Accepted x.identity structured r) (hverified : Verified x.identity order_id r) :
    Echoes x.identity order_id body := by
  have hdata : ∃ data, r.data = .obj data := by
    have hreturned := hverified.order_id
    unfold ToolResult.fields at hreturned
    split at hreturned
    · rename_i data hdata
      exact ⟨data, hdata⟩
    · cases hreturned
  obtain ⟨data, hdata⟩ := hdata
  have hreturned := hverified.order_id
  rw [ToolResult.fields, hdata] at hreturned
  refine ⟨structured, data, hstructured, haccepted.workspace_id, haccepted.tenant_id, ?_, ?_, hreturned⟩
  · rw [← haccepted.external_ref, hverified.external_ref]
  · rw [← haccepted.data, hdata]

theorem holds_succeed {raw : String} {body : Json} (horder : order_id = str_strip raw)
    (hanswers : Answers N.gateway N.mcp (tool_request x order_id) body)
    (hstructured : StreamableHttpMcpGateway.structured_of body = .ok structured)
    (haccepted : Accepted x.identity structured r) (hverified : Verified x.identity order_id r)
    (hadmitted : Admitted query order_id) : Holds N x (Bounded N x (some raw))
      (succeed (N.runtime policy sha256 tracer explains) x query order_id r allow) := by
  subst horder
  refine .bind ((holds_explain haccepted hverified hadmitted).imp ?_)
  rintro ⟨status, message⟩ ⟨_, htold⟩
  obtain ⟨source_id, hsource, _, hsource_length⟩ := bounded_iff.mp haccepted.source_id_bounded
  obtain ⟨observed_at, hobserved, _, hobserved_length⟩ := bounded_iff.mp haccepted.observed_at_bounded
  obtain ⟨external_ref, hexternal, _, hexternal_length⟩ := bounded_iff.mp haccepted.external_ref_bounded
  refine holds_emit ?_ ⟨rfl, rfl, ?_, ?_, ?_, .inr ⟨raw, rfl, htold⟩, fun _ => ⟨raw, body, rfl, hanswers,
    echoes_of_verified hstructured haccepted hverified⟩⟩
  · have hcarried := haccepted.carried (N := N)
    simp only [List.forall_mem_cons]
    exact ⟨hcarried.source_id, hcarried.external_ref, .caller, by simp⟩
  · rw [hsource]
    simpa [Json.text] using hsource_length
  · rw [hobserved]
    simpa [Json.text] using hobserved_length
  · rw [hexternal]
    simpa [Json.text] using hexternal_length

theorem holds_call_tool {raw : String} (horder : order_id = str_strip raw)
    (hadmitted : Admitted query order_id) : Holds N x (Bounded N x (some raw))
      (call_tool (N.runtime policy sha256 tracer explains) x query order_id allow) := by
  refine ⟨trivial, fun _ _ => ⟨trivial, fun s ch => ?_⟩⟩
  change Holds N x _ ((Program.ofExcept (N.gateway.call N.mcp (tool_request x order_id))).bind _)
  cases hcall : N.gateway.call N.mcp (tool_request x order_id) with
  | error e => trivial
  | ok r =>
    have hcases := call_cases hcall
    have hcarried : CarriedResult N x.identity r := by
      obtain ⟨error, herror, rfl⟩ | ⟨_, _, _, _, haccepted⟩ := hcases
      · exact carried_refuse herror
      · exact haccepted.carried
    refine holds_span_bind (by simp [ownTexts]) (holds_emit ?_ ?_)
    · simp only [List.forall_mem_cons]
      exact ⟨.own (by simp [ownTexts]), .bool, hcarried.source_id, hcarried.external_ref, hcarried.error,
        .bool, .caller, by simp⟩
    · split
      · split
        · rename_i hsuccess hprovenance
          have hverified := provenance_verified_iff.mp hprovenance
          obtain ⟨error, _, rfl⟩ | ⟨body, structured, hanswers, hstructured, haccepted⟩ := hcases
          · cases hsuccess
          · exact holds_succeed horder hanswers hstructured haccepted hverified hadmitted
        · exact holds_finish (by simp) (by simp [ownTexts])
      · exact holds_finish (by simp) (by simp [ownTexts])

theorem carried_decision : ∀ entry ∈ decision_payload x (policy.authorize x.identity tool_name),
    Carried N x.identity entry := by
  have houtcome : ∀ outcome : Outcome, outcome.value ∈ ownTexts := by
    intro outcome
    cases outcome <;> simp [ownTexts, Outcome.value]
  have hrisk : ∀ risk : Option ToolRisk,
      Carried N x.identity ("risk", Json.ofOption (risk.map ToolRisk.value)) := by
    intro risk
    cases risk with
    | none => exact .null
    | some risk => exact .own (by cases risk <;> simp [ownTexts, ToolRisk.value])
  have hreason : (policy.authorize x.identity tool_name).reason ∈ ownTexts := by
    unfold PolicyEngine.authorize
    repeat' split
    all_goals simp [ownTexts]
  simp only [decision_payload, List.forall_mem_cons]
  exact ⟨.own (by simp [ownTexts]), .own (houtcome _), .own hreason, hrisk _, .caller, by simp⟩

theorem given_some {text : Option String} {value : String} (h : given text = some value) :
    text = some value ∧ isBlank value = false := by
  unfold given at h
  split at h
  · split at h
    · cases h
    · rename_i hblank
      cases h
      exact ⟨rfl, by simpa using hblank⟩
  · cases h

theorem holds_handle {query order_id : Option String} (hquery : ∀ text ∈ query, text.length ≤ 4000)
    (horder : ∀ text ∈ order_id, text.length ≤ 128) : Holds N x (Bounded N x order_id)
      (handle (N.runtime policy sha256 tracer explains) x query order_id allow) := by
  unfold handle
  split
  · exact holds_finish (by simp) (by simp [ownTexts])
  · rename_i q hq
    obtain ⟨rfl, hfilled⟩ := given_some hq
    split
    · exact holds_finish (by simp) (by simp [ownTexts])
    · rename_i raw hraw
      obtain ⟨rfl, hraw_filled⟩ := given_some hraw
      refine holds_emit carried_decision ?_
      split
      · refine holds_call_tool rfl ⟨⟨hfilled, hquery q rfl⟩, ?_, ?_⟩
        · rw [isBlank_str_strip, hraw_filled]
        · exact (length_str_strip_le raw).trans (horder raw rfl)
      · exact holds_finish (by simp) (by simp [ownTexts])

end Parts

section Run

variable (N : Remote) (policy : PolicyEngine) (sha256 : String → String) (tracer explains : Bool)
  (query : String) (identity : IdentityContext) (order_id request_id trace_id : Option String)
  (allow : Bool) (ω : Nat → Choice)

/-- A run over the adapters, from an empty audit log. -/
def Remote.ran : Program.Outcome Ran Cmd Reply PyError RunResult :=
  (N.runtime policy sha256 tracer explains).ran N.world (some query) identity order_id request_id trace_id
    allow ω

/-- What a run may leave in the audit log, and what it returns. -/
def RunBounded (o : Program.Outcome Ran Cmd Reply PyError RunResult) : Prop :=
  (∀ event ∈ o.state.events, ∀ entry ∈ event.payload, Carried N identity entry) ∧
  (∀ x ∈ o.log, Fine N identity x.1) ∧
  ∀ result, o.result = .ok result → ∃ x : Ctx, x.identity = identity ∧ Bounded N x order_id result

theorem holds_or_uuid {α : Type} {P : α → Prop} {I : Cmd → Prop} (huuid : I .uuid4) {id : Option String}
    {stem : String} {f : String → Code α} (hf : ∀ text, Program.Assured N.world.respond I P (f text)) :
    Program.Assured N.world.respond I P ((or_uuid id stem).bind f) := by
  unfold or_uuid
  split
  · exact hf _
  · exact ⟨huuid, fun _ _ => hf _⟩

/-- Whatever the server answers to a run that the API admits: what it sends is bounded wherever it
shows up, the provider is asked only for what it accepts, and the run succeeds on an echo only. -/
theorem remote_bounded (hquery : query.length ≤ 4000) (horder : ∀ text ∈ order_id, text.length ≤ 128) :
    RunBounded N identity order_id
      (N.ran policy sha256 tracer explains query identity order_id request_id trace_id allow ω) := by
  have hrun : Program.Assured N.world.respond (Fine N identity)
      (fun result => ∃ x : Ctx, x.identity = identity ∧ Bounded N x order_id result)
      ((N.runtime policy sha256 tracer explains).run (some query) identity order_id request_id trace_id
        allow) := by
    refine holds_or_uuid N trivial fun request => holds_or_uuid N trivial fun trace => ⟨trivial, fun s ch => ?_⟩
    refine holds_emit (x := ⟨_, _, _, identity⟩) ?_ ((holds_handle ?_ horder).imp fun _ h => ⟨_, rfl, h⟩)
    · simp only [List.forall_mem_cons]
      exact ⟨.num, .own (by simp [ownTexts]), .caller, by simp⟩
    · rintro text ⟨⟩
      exact hquery
  obtain ⟨hlog, hresult, hstate⟩ := hrun.run
    (J := fun s => ∀ event ∈ s.events, ∀ entry ∈ event.payload, Carried N identity entry)
    (fun s c ch hc hs => by
      cases c with
      | append event =>
        intro e he
        rcases List.mem_append.mp he with he | he
        · exact hs e he
        · exact List.mem_singleton.mp he ▸ hc
      | _ => exact hs) (ω := ω) (s := {}) (by simp)
  exact ⟨hstate, hlog, hresult⟩

end Run

section Sample

/-- The order is in the envelope itself, next to its provenance. -/
def sampleBody : Json :=
  .obj [("result", .obj [("structuredContent", .obj []), ("data", .obj [("order_id", .str "SO-1"),
    ("status", .str "shipped"), ("source_id", .str "erp:SO-1"),
    ("observed_at", .str "2026-07-01T02:00:00+00:00"), ("external_ref", .str "SO-1"),
    ("workspace_id", .str "workspace-a"), ("tenant_id", .str "tenant-a")])])]

def sampleCompletion : Json :=
  .obj [("choices", .arr [.obj [("message", .obj [("content", .str " It was shipped. ")])]])]

def sampleRemote : Remote where
  gateway := ⟨"https://mcp.example.test/tools",
    [(tool_name, ⟨tool_name, .read, "Return a tenant-scoped synthetic order status."⟩)], none⟩
  mcp := { post := fun _ => .ok [0x7b, 0x7d], loads := fun _ => .ok sampleBody, dumps := fun _ => "" }
  provider := { endpoint := "https://llm.example.test/v1/chat/completions", api_key := "key", model := "gpt" }
  llm := { post := fun _ => .ok [0x7b, 0x7d], loads := fun _ => .ok sampleCompletion, dumps := fun _ => "" }
  uuid4 _ := "5a0e"

def sampleRemoteRun : Program.Outcome Ran Cmd Reply PyError RunResult :=
  sampleRemote.ran sampleRuntime.policy id true true "Where is my order?" sampleCaller (some " SO-1 ") none none
    true sampleChoices

theorem remote_bounded_sample : RunBounded sampleRemote sampleCaller (some " SO-1 ") sampleRemoteRun ∧
    ∃ result, sampleRemoteRun.result = .ok result ∧ result.status = .succeeded :=
  ⟨remote_bounded sampleRemote sampleRuntime.policy id true true "Where is my order?" sampleCaller
    (some " SO-1 ") none none true sampleChoices (by decide) (by rintro text ⟨⟩; decide), _, rfl, rfl⟩

end Sample

end EnterpriseCopilot.Runtime
