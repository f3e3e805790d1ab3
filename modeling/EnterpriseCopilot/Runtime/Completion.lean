import EnterpriseCopilot.Runtime.McpHttp

/-! OpenAI-compatible text model provider. -/

namespace EnterpriseCopilot.Runtime

open EnterpriseCopilot.Python

/-- A `ModelProviderError` with its text, or an exception that the provider lets through. -/
inductive CompletionError
  | provider (message : String)
  | other (e : PyError)

structure OpenAICompatibleModelProvider where
  endpoint : String
  api_key : String
  model : String
  max_output_chars : Nat := 4000

/-- `value[key]`, which raises unless the value is a dictionary with the key. -/
def Json.item (key : String) : Json → Option Json
  | .obj kvs => kvs.lookup key
  | _ => none

/-- `value[0]["message"]`: the first character of a text has no items. -/
def Json.first : Json → Option Json
  | .arr (x :: _) => some x
  | _ => none

/-- The texts of the parts that are dictionaries, unless one of them is no text. -/
def Json.parts : List Json → Option String
  | [] => some ""
  | .obj part :: rest =>
    match (part.lookup "text").getD (.str "") with
    | .str text => (Json.parts rest).map (text ++ ·)
    | _ => none
  | _ :: rest => Json.parts rest

namespace OpenAICompatibleModelProvider

def provider_id : String := "openai-compatible"

/-- The names of the evidence, in any order. -/
def evidence_keys : List String := ["order_id", "status", "source_id", "observed_at"]

/-- The checks of the input: what `complete` raises before it sends anything. -/
def input_error (query : String) (evidence : Payload) : Option String :=
  if isBlank query || 4000 < query.length then some "model query is invalid"
  else if !((evidence.map Prod.fst).all evidence_keys.contains &&
      evidence_keys.all (evidence.map Prod.fst).contains) ||
      evidence.any fun x => !Json.bounded 512 x.2 then
    some "model evidence is invalid"
  else none

def system_prompt : String :=
  "You are an explanation assistant. Use only the verified evidence " ++
  "provided below. Do not invent facts, IDs, dates, causes, or actions. " ++
  "If the user asks for anything beyond the evidence, say it is unknown."

def outgoing (p : OpenAICompatibleModelProvider) (M : Http) (query : String) (evidence : Payload)
    (request_id trace_id run_id : String) : Outgoing where
  endpoint := p.endpoint
  headers := [("Accept", "application/json"), ("Authorization", "Bearer " ++ p.api_key),
    ("Content-Type", "application/json"), ("X-Request-Id", request_id), ("X-Trace-Id", trace_id),
    ("X-Run-Id", run_id)]
  body := .obj [("model", .str p.model), ("temperature", .num 0),
    ("max_tokens", .num (min 1024 p.max_output_chars : Nat)),
    ("messages", .arr [
      .obj [("role", .str "system"), ("content", .str system_prompt)],
      .obj [("role", .str "user"), ("content", .str (M.dumps (.obj [("query", .str query),
        ("verified_evidence", .obj evidence)])))]])]

/-- The text of a response, unless it has none. -/
def content_of (body : Json) : Option String := do
  let message ← (← Json.first (← Json.item "choices" body)) |> Json.item "message"
  let content ← match ← Json.item "content" message with
    | .str text => some text
    | .arr parts => Json.parts parts
    | _ => none
  if isBlank content then none else some (str_strip content)

def complete (p : OpenAICompatibleModelProvider) (M : Http) (query : String) (evidence : Payload)
    (request_id trace_id run_id : String) : Except CompletionError ModelCompletion :=
  match input_error query evidence with
  | some message => .error (.provider message)
  | none =>
    match M.post (p.outgoing M query evidence request_id trace_id run_id) with
    | .error .expected => .error (.provider "model provider request failed")
    | .error (.other e) => .error (.other e)
    | .ok response =>
      let raw := response.take (responseLimit + 1)
      if responseLimit < raw.length then
        .error (.provider "model provider response exceeded the response limit")
      else
        match M.loads raw with
        | .error .expected => .error (.provider "model provider returned an invalid response")
        | .error (.other e) => .error (.other e)
        | .ok body =>
          match content_of body with
          | none => .error (.provider "model provider returned an invalid response")
          | some text =>
            if p.max_output_chars < text.length then
              .error (.provider "model provider output exceeded the configured limit")
            else .ok ⟨.str provider_id, .str p.model, .str text⟩

end OpenAICompatibleModelProvider

end EnterpriseCopilot.Runtime
