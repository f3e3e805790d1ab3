import EnterpriseCopilot.Lib.View
import EnterpriseCopilot.Runtime.World

/-! Trace exporters do not influence a run. -/

namespace EnterpriseCopilot.Runtime

open EnterpriseCopilot.Lib EnterpriseCopilot.Python

def AuditEvent.untimed (e : AuditEvent) : AuditEvent := { e with created_at := "" }

def AuditEvent.tracing (e : AuditEvent) : Bool := e.event_type == "trace.export_failed"

/-- The audit events up to their times, without those that report a failed export. -/
def trail (events : List AuditEvent) : List AuditEvent :=
  (events.filter fun e => !e.tracing).map AuditEvent.untimed

@[simp] theorem trail_append (l₁ l₂ : List AuditEvent) : trail (l₁ ++ l₂) = trail l₁ ++ trail l₂ := by
  simp [trail]

/-- Everything but the clocks and the tracing. -/
def untraced : View Cmd where
  hidden
    | .utc_now | .time_ns | .new_span_id | .export_span _ => True
    | .append event => event.tracing
    | _ => False
  seen
    | .uuid4 | .call _ | .complete .. => True
    | _ => False
  twins
    | .append event, .append event' => event.untimed = event'.untimed
    | _, _ => False

/-- States that agree up to times and tracing. -/
structure SameTrail (s t : Ran) : Prop where
  drawn : s.drawn = t.drawn
  trail : trail s.events = trail t.events

theorem trail_tracing {e : AuditEvent} (h : e.tracing = true) : trail [e] = [] := by
  simp [trail, h]

theorem trail_twins {e e' : AuditEvent} (h : e.untimed = e'.untimed) : trail [e] = trail [e'] := by
  have htype : e.event_type = e'.event_type := congrArg (·.event_type) h
  cases hc : (!e'.tracing) with
  | true =>
    have hc' : (!e.tracing) = true := by rw [← hc, AuditEvent.tracing, htype, AuditEvent.tracing]
    simp [trail, hc, hc', h]
  | false =>
    have hc' : (!e.tracing) = false := by rw [← hc, AuditEvent.tracing, htype, AuditEvent.tracing]
    simp [trail, hc, hc']

theorem unwinding (W : World) : Program.Unwinding untraced W.respond SameTrail where
  left := by
    intro s t c ch hc hs
    cases c with
    | append event => exact ⟨hs.drawn, by simp [World.respond, trail_tracing hc, hs.trail]⟩
    | uuid4 => cases hc
    | call => cases hc
    | complete => cases hc
    | _ => exact hs
  right := by
    intro s t c ch hc hs
    cases c with
    | append event => exact ⟨hs.drawn, by simp [World.respond, trail_tracing hc, hs.trail]⟩
    | uuid4 => cases hc
    | call => cases hc
    | complete => cases hc
    | _ => exact hs
  answer := by
    intro s t c ch ch' hc hs
    cases c with
    | uuid4 => exact congrArg W.uuid4 hs.drawn
    | call request => rfl
    | complete => rfl
    | _ => cases hc
  seen := by
    intro s t c ch ch' hc hs
    cases c with
    | uuid4 => exact ⟨congrArg (· + 1) hs.drawn, hs.trail⟩
    | call request => exact hs
    | complete => exact hs
    | _ => cases hc
  twins := by
    intro s t c c' ch ch' hc hs
    cases c with
    | append event =>
      cases c' with
      | append event' => exact ⟨hs.drawn, by simp [World.respond, trail_twins hc, hs.trail]⟩
      | _ => cases hc
    | _ => cases hc

section Parts

variable {rt : AgentRuntime} {x : Ctx}

theorem alike_emit {event_type : String} {payload : Payload} :
    Program.Alike untraced (emit x event_type payload) (emit x event_type payload) :=
  .left trivial fun _ => .right trivial fun _ => .twins rfl fun _ _ => .pure

theorem alike_finish {status : RunStatus} {message : String} :
    Program.Alike untraced (_finish x status message) (_finish x status message) :=
  alike_emit.bind fun _ => .pure

theorem quiet_failed {payload : Payload} : Program.Quiet untraced (emit x "trace.export_failed" payload) :=
  ⟨trivial, fun _ => ⟨rfl, fun _ => trivial⟩⟩

/-- Exporting a span does nothing but tracing, and always returns. -/
theorem quiet_span {name tool : String} {started_at : Int} {attributes : List (String × Json)} :
    Program.Quiet untraced (export_named_span rt x name tool started_at attributes) := by
  unfold export_named_span
  dsimp only
  split
  · refine ⟨trivial, fun span_id => ⟨trivial, fun ended_at => ?_⟩⟩
    dsimp only [Program.pure_bind]
    split
    · exact quiet_failed
    · refine ⟨trivial, fun exported => ?_⟩
      cases exported with
      | error error_type => exact quiet_failed
      | ok _ => trivial
  · trivial

end Parts

section Runtimes

variable {rt : AgentRuntime} {x : Ctx} {tracer tracer' : Bool}

/-- The runtime with or without an exporter. -/
def AgentRuntime.with_exporter (rt : AgentRuntime) (trace_exporter : Bool) : AgentRuntime :=
  { rt with trace_exporter }

/-- Spans on either side, whenever they were started. -/
theorem alike_spans {α : Type} {name tool name' tool' : String} {started_at started_at' : Int}
    {attributes attributes' : List (String × Json)} {f g : Unit → Code α}
    (hfg : ∀ a, Program.Alike untraced (f a) (g a)) : Program.Alike untraced
      ((export_named_span (rt.with_exporter tracer) x name tool started_at attributes).bind f)
      ((export_named_span (rt.with_exporter tracer') x name' tool' started_at' attributes').bind g) :=
  quiet_span.left fun _ => quiet_span.right fun _ => hfg ()

theorem alike_model_failed {p : Provider} {started_at started_at' : Int} {error_type message : String} :
    Program.Alike untraced
      (model_failed (rt.with_exporter tracer) x p started_at error_type message)
      (model_failed (rt.with_exporter tracer') x p started_at' error_type message) :=
  alike_spans fun _ => alike_emit.bind fun _ => .pure

theorem alike_explain {query order_id : String} {r : ToolResult} {allow : Bool} :
    Program.Alike untraced (explain (rt.with_exporter tracer) x query order_id r allow)
      (explain (rt.with_exporter tracer') x query order_id r allow) := by
  unfold explain
  dsimp only [AgentRuntime.with_exporter]
  split
  · exact .pure
  · split
    · refine .left trivial fun started_at => .right trivial fun started_at' => ?_
      refine .seen trivial fun completion => ?_
      dsimp only [Program.pure_bind]
      -- the answer of the provider
      split
      · exact .throw
      · exact alike_model_failed
      · split
        · exact alike_model_failed
        · exact alike_emit.bind fun _ => alike_spans fun _ => .pure
    · exact alike_emit.bind fun _ => .pure

theorem alike_succeed {query order_id : String} {r : ToolResult} {allow : Bool} :
    Program.Alike untraced (succeed (rt.with_exporter tracer) x query order_id r allow)
      (succeed (rt.with_exporter tracer') x query order_id r allow) :=
  alike_explain.bind fun _ => alike_emit.bind fun _ => .pure

theorem alike_call_tool {query order_id : String} {allow : Bool} :
    Program.Alike untraced (call_tool (rt.with_exporter tracer) x query order_id allow)
      (call_tool (rt.with_exporter tracer') x query order_id allow) := by
  refine .left trivial fun started_at => .right trivial fun started_at' => .seen trivial fun answer => ?_
  refine Program.alike_ofExcept.bind fun r => alike_spans fun _ => alike_emit.bind fun _ => ?_
  exact .ite (fun _ => .ite (fun _ => alike_succeed) fun _ => alike_finish) fun _ => alike_finish

theorem alike_handle {query order_id : Option String} {allow : Bool} :
    Program.Alike untraced (handle (rt.with_exporter tracer) x query order_id allow)
      (handle (rt.with_exporter tracer') x query order_id allow) := by
  unfold handle
  split
  · exact alike_finish
  · split
    · exact alike_finish
    · refine alike_emit.bind fun _ => ?_
      exact .ite (fun _ => alike_call_tool) fun _ => alike_finish

theorem alike_or_uuid {id : Option String} {stem : String} :
    Program.Alike untraced (or_uuid id stem) (or_uuid id stem) := by
  unfold or_uuid
  split
  · exact .pure
  · exact .seen trivial fun _ => .pure

theorem alike_run {query order_id request_id trace_id : Option String} {identity : IdentityContext}
    {allow : Bool} :
    Program.Alike untraced
      ((rt.with_exporter tracer).run query identity order_id request_id trace_id allow)
      ((rt.with_exporter tracer').run query identity order_id request_id trace_id allow) :=
  alike_or_uuid.bind fun _ => alike_or_uuid.bind fun _ => .seen trivial fun _ =>
    alike_emit.bind fun _ => alike_handle

end Runtimes

/-- Whether there is an exporter, whatever it does and whatever the clocks show: the run has the
same outcome and leaves the same trail. -/
theorem tracing_inert (rt : AgentRuntime) (W : World) (query : Option String) (identity : IdentityContext)
    (order_id request_id trace_id : Option String) (allow : Bool) (tracer tracer' : Bool)
    (ω ω' : Nat → Choice) :
    ((rt.with_exporter tracer).ran W query identity order_id request_id trace_id allow ω).result =
        ((rt.with_exporter tracer').ran W query identity order_id request_id trace_id allow ω').result ∧
      trail ((rt.with_exporter tracer).ran W query identity order_id request_id trace_id allow
          ω).state.events =
        trail ((rt.with_exporter tracer').ran W query identity order_id request_id trace_id allow
          ω').state.events := by
  obtain ⟨hresult, hstate⟩ := alike_run.run (unwinding W) (ω := ω) (υ := ω')
    (⟨rfl, rfl⟩ : SameTrail {} {})
  exact ⟨hresult, hstate.trail⟩

end EnterpriseCopilot.Runtime
