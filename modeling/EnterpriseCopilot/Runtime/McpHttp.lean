import EnterpriseCopilot.Runtime.Agent

/-! Streamable HTTP JSON-RPC MCP gateway adapter. -/

namespace EnterpriseCopilot.Runtime

open EnterpriseCopilot.Python

def _MAX_SOURCE_ID : Nat := 512
def _MAX_OBSERVED_AT : Nat := 128
def _MAX_EXTERNAL_REF : Nat := 256

/-- The number of bytes of a response that are accepted. -/
def responseLimit : Nat := 2 * 1024 * 1024

/-- An exception of the classes that the handler names, or another one. -/
inductive Raised
  | expected
  | other (e : PyError)

/-- A POST request. -/
structure Outgoing where
  endpoint : String
  headers : List (String × String)
  body : Json

/-- A server at the other end of the network, with `json.loads` and `json.dumps`. -/
structure Http where
  post : Outgoing → Except Raised Bytes
  loads : Bytes → Except Raised Json
  dumps : Json → String

/-- Truth value of a decoded value. -/
def Json.truth : Json → Bool
  | .null => false
  | .bool b => b
  | .num q => q != 0
  | .special _ => true
  | .str s => !s.isEmpty
  | .arr xs => !xs.isEmpty
  | .obj kvs => !kvs.isEmpty

/-- `a or b`. -/
def Json.or (a b : Json) : Json := if Json.truth a then a else b

def Json.isNull : Json → Bool
  | .null => true
  | _ => false

/-- A text that is not blank and has at most `bound` characters. -/
def Json.bounded (bound : Nat) (value : Json) : Bool :=
  Json.filled value && (Json.text value).length ≤ bound

structure StreamableHttpMcpGateway where
  endpoint : String
  definitions : List (String × ToolDefinition)
  bearer_token : Option String := none

namespace StreamableHttpMcpGateway

def _headers (g : StreamableHttpMcpGateway) : List (String × String) :=
  ("Accept", "application/json") ::
    ((truthy g.bearer_token).map fun token => ("Authorization", "Bearer " ++ token)).toList

def outgoing (g : StreamableHttpMcpGateway) (request : ToolCallRequest) : Outgoing where
  endpoint := g.endpoint
  headers := ("Accept", "application/json, text/event-stream") :: g._headers.tail ++
    [("Content-Type", "application/json"), ("X-Request-Id", request.request_id),
    ("X-Trace-Id", request.trace_id), ("X-Run-Id", request.run_id),
    ("X-Workspace-Id", request.identity.workspace_id), ("X-Tenant-Id", request.identity.tenant_id),
    ("X-User-Id", request.identity.user_id)]
  body := .obj [("jsonrpc", .str "2.0"), ("id", .str request.request_id), ("method", .str "tools/call"),
    ("params", .obj [("name", .str request.tool_name), ("arguments", .obj request.arguments)])]

/-- `ToolResult(success=False, error=...)`. -/
def refuse (error : String) : ToolResult := { success := false, error := .str error }

/-- The result that structured content is accepted as. -/
def of_structured (identity : IdentityContext) (structured : Payload) : ToolResult :=
  let source_id := structured.get "source_id"
  let observed_at := structured.get "observed_at"
  let external_ref := structured.get "external_ref"
  let workspace_id := structured.get "workspace_id"
  let tenant_id := structured.get "tenant_id"
  let data := (structured.lookup "data").getD (.obj structured)
  if !Json.bounded _MAX_SOURCE_ID source_id then refuse "remote MCP result is missing provenance"
  else if !Json.bounded _MAX_OBSERVED_AT observed_at then
    refuse "remote MCP result is missing observed time"
  else if !Json.bounded _MAX_EXTERNAL_REF external_ref then
    refuse "remote MCP result is missing external reference"
  else if !(workspace_id.eqScalar (.str identity.workspace_id) &&
      tenant_id.eqScalar (.str identity.tenant_id)) then
    refuse "remote MCP result scope does not match request"
  else
    match data with
    | .obj _ => { success := true, data, source_id, observed_at, external_ref, workspace_id, tenant_id }
    | _ => refuse "remote MCP result data is invalid"

/-- The structured content of a response: `structuredContent` or `data` of its `result`. -/
def structured_of (body : Json) : Except String Payload :=
  match body with
  | .obj body =>
    if !Json.isNull (Payload.get body "error") then .error "remote MCP returned an error"
    else
      match Payload.get body "result" with
      | .obj result =>
        match Json.or (Payload.get result "structuredContent") (Payload.get result "data") with
        | .obj structured => .ok structured
        | _ => .error "remote MCP result has no structured data"
      | _ => .error "remote MCP returned an invalid result"
  | _ => .error "remote MCP returned an error"

def of_body (identity : IdentityContext) (body : Json) : ToolResult :=
  match structured_of body with
  | .error error => refuse error
  | .ok structured => of_structured identity structured

def call (g : StreamableHttpMcpGateway) (H : Http) (request : ToolCallRequest) : Except PyError ToolResult :=
  match g.definitions.lookup request.tool_name with
  | none => .ok (refuse "tool is not registered")
  | some _ =>
    match H.post (g.outgoing request) with
    | .error .expected => .ok (refuse "remote MCP request failed")
    | .error (.other e) => .error e
    | .ok response =>
      let raw := response.take (responseLimit + 1)
      if responseLimit < raw.length then .ok (refuse "remote MCP response exceeded the response limit")
      else
        match H.loads raw with
        | .error .expected => .ok (refuse "remote MCP returned invalid JSON")
        | .error (.other e) => .error e
        | .ok body => .ok (of_body request.identity body)

/-- The texts of the gateway itself. -/
def errors : List String :=
  ["tool is not registered", "remote MCP request failed",
    "remote MCP response exceeded the response limit", "remote MCP returned an error",
    "remote MCP returned an invalid result", "remote MCP result has no structured data",
    "remote MCP result is missing provenance", "remote MCP result is missing observed time",
    "remote MCP result is missing external reference",
    "remote MCP result scope does not match request", "remote MCP result data is invalid",
    "remote MCP returned invalid JSON"]

end StreamableHttpMcpGateway

end EnterpriseCopilot.Runtime
