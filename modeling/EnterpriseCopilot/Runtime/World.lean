import EnterpriseCopilot.Runtime.Trail

/-! Runs in a world that answers by what it is asked. -/

namespace EnterpriseCopilot.Runtime

open EnterpriseCopilot.Lib EnterpriseCopilot.Python

/-- The identifiers that `uuid4` draws, and the answers of the gateway and the model provider. -/
structure World where
  uuid4 : Nat → String
  gateway : ToolCallRequest → Except PyError ToolResult
  complete : (query : String) → (evidence : Payload) → (request_id trace_id run_id : String) →
    Except ModelFailure (Option ModelCompletion)

/-- How many identifiers were drawn, and the audit log. -/
structure Ran where
  drawn : Nat := 0
  events : List AuditEvent := []

/-- Clock readings, span ids and the exporter are left to the choice. -/
def World.respond (W : World) (s : Ran) (c : Cmd) (ch : Choice) : Reply c × Ran :=
  match c with
  | .uuid4 => (W.uuid4 s.drawn, { s with drawn := s.drawn + 1 })
  | .utc_now => (ch.text, s)
  | .new_span_id => (ch.text, s)
  | .time_ns => (ch.ns, s)
  | .append event => ((), { s with events := s.events ++ [event] })
  | .call request => (W.gateway request, s)
  | .export_span _ => (ch.exported, s)
  | .complete query evidence request_id trace_id run_id =>
    (W.complete query evidence request_id trace_id run_id, s)

/-- A run of the runtime in a world, from an empty audit log. -/
def AgentRuntime.ran (rt : AgentRuntime) (W : World) (query : Option String) (identity : IdentityContext)
    (order_id request_id trace_id : Option String) (allow_external_model_processing : Bool)
    (ω : Nat → Choice) : Program.Outcome Ran Cmd Reply PyError RunResult :=
  Program.run W.respond (rt.run query identity order_id request_id trace_id allow_external_model_processing)
    ω {}

end EnterpriseCopilot.Runtime
