import EnterpriseCopilot.Lib.Returns
import EnterpriseCopilot.Schedule.Contract

/-! The contract checks of agents, skills, MCP servers and whole repositories. -/

namespace EnterpriseCopilot.Contracts

open EnterpriseCopilot.Lib (collect)
open EnterpriseCopilot.Plugin (Path Entry Tree Target id_re path_parts validate_plugin)
open EnterpriseCopilot.Python
open EnterpriseCopilot.Schedule (_check_id_and_version _require_string issue_if validate_schedule)

/-- `str()` and `repr()`, which refuse the same values: integers of more digits than the interpreter
converts, and what is nested too deeply. -/
structure Rendering where
  str : Yaml → Except PyError String
  repr : Yaml → Except PyError String
  str_text : ∀ s, str (.str s) = .ok s
  repr_text : ∀ s, ∃ text, repr (.str s) = .ok text
  agree : ∀ value, (∃ text, str value = .ok text) ↔ ∃ text, repr value = .ok text

/-- Where a relative path leads. -/
inductive Place
  | outside
  | missing
  | file
  | dir

/-- The directory of a document: `resolve` follows a path, which the system may refuse. -/
structure Directory where
  resolve : Path → Except PyError Place

section Agent

/-- `_validate_list_of_strings`, for a field that is not required. -/
def _validate_list_of_strings (mapping : Mapping) (field_name : String) : List String :=
  match mapping.get field_name with
  | .null => []
  | .list items => issue_if (items.any fun
      | .str s => isBlank s
      | _ => true) (field_name ++ " must be a list of non-empty strings")
  | _ => [field_name ++ " must be a list of non-empty strings"]

def _contained_file (D : Directory) (relative : Yaml) (field_name : String) : Except PyError (List String) :=
  match relative with
  | .str text =>
    if isBlank text then .ok [field_name ++ " must be a relative path"]
    else if text.toList.head? = some '/' ∨ ".." ∈ path_parts text then
      .ok [field_name ++ " must remain inside its contract directory"]
    else do
      match ← D.resolve (path_parts text) with
      | .outside => return [field_name ++ " escapes its contract directory"]
      | .file => return []
      | _ => return [field_name ++ " does not point to a readable file"]
  | _ => .ok [field_name ++ " must be a relative path"]

/-- `skills` and `mcp`. -/
def allow_list_issues (mapping : Mapping) (field_name : String) : List String :=
  match mapping.get field_name with
  | .null => []
  | .map allowed => _validate_list_of_strings allowed "allow"
  | _ => [field_name ++ " must be a mapping with an allow list"]

/-- In the order of `sorted`. -/
def _RISK_VALUES : List String := ["destructive", "external_send", "read", "write"]

def approval_entry (entry : Yaml × Yaml) : Except PyError (List String) :=
  match entry.1 with
  | .str key =>
    if _RISK_VALUES.contains key then do
      let known ← entry.2.oneOf ["auto", "required", "deny"]
      return issue_if (!known) ("approval." ++ key ++ " must be auto, required or deny")
    else .ok []
  | _ => .ok []

def approval_issues (value : Yaml) : Except PyError (List String) :=
  match value.asMapping with
  | some approval => do
    let missing := _RISK_VALUES.filter fun key => (approval.lookup key).isNone
    let entries ← approval.mapM approval_entry
    return issue_if (!missing.isEmpty) ("approval is missing: " ++ ", ".intercalate missing) ++ entries.flatten
  | none => .ok ["approval must explicitly define read/write/external_send/destructive"]

def limit_issues (value : Yaml) : List String :=
  match value.asMapping with
  | some limits => ["max_steps", "max_runtime_seconds"].flatMap fun key =>
      issue_if (!(limits.get key).asInt.any (0 < ·)) ("limits." ++ key ++ " must be a positive integer")
  | none => ["limits must be a mapping"]

def validate_agent_manifest (D : Directory) (raw : Yaml) : Except PyError (List String) :=
  match raw.asMapping with
  | some mapping => do
    let instructions ← _contained_file D (mapping.get "instructions") "instructions"
    let approval ← approval_issues (mapping.get "approval")
    return (["id", "version", "name", "description", "instructions"].flatMap
        fun field_name => (_require_string mapping field_name 4000).1) ++
      _check_id_and_version mapping ++ instructions ++ allow_list_issues mapping "skills" ++
      allow_list_issues mapping "mcp" ++ approval ++ limit_issues (mapping.get "limits")
  | none => .ok ["manifest must be a mapping"]

end Agent

section Mcp

variable (R : Rendering)

def _TRANSPORT_VALUES : List String := ["in_memory", "stdio", "streamable_http"]

/-- An issue with a value in its text, which is written only if the issue is there. -/
def quoted (condition : Bool) (text : Except PyError String) (before after : String) : Except PyError (List String) :=
  if condition then do return [before ++ (← text) ++ after] else return []

/-- `re.fullmatch(r"^[a-z0-9_.-]+$", name)`. -/
def tool_name_re (name : String) : Bool :=
  !name.isEmpty && name.toList.all fun c => ('a' ≤ c && c ≤ 'z') || ('0' ≤ c && c ≤ '9') || c == '_' || c == '.' || c == '-'

/-- The name of a tool must be new: the answer has the names that were seen. -/
def tool_name_issues (server_id name : Yaml) (seen_tools : List String) : Except PyError (List String × List String) :=
  match name with
  | .str text =>
    if tool_name_re text then
      if seen_tools.contains text then .ok (["duplicate tool name: " ++ text], seen_tools)
      else .ok ([], text :: seen_tools)
    else do return (← quoted true (R.str server_id) "server " " has an invalid tool name", seen_tools)
  | _ => do return (← quoted true (R.str server_id) "server " " has an invalid tool name", seen_tools)

def isTextList : Yaml → Bool
  | .list items => items.all fun
    | .str _ => true
    | _ => false
  | _ => false

def isBool : Yaml → Bool
  | .bool _ => true
  | _ => false

def tool_issues (server_id : Yaml) (seen_tools : List String) (tool : Yaml) : Except PyError (List String × List String) :=
  match tool.asMapping with
  | some tool => do
    let name := tool.get "name"
    let (named, seen_tools) ← tool_name_issues R server_id name seen_tools
    let known ← (tool.get "risk").oneOf _RISK_VALUES
    let risk ← quoted (!known) (R.repr name) "tool " " has an invalid risk class"
    let roles ← quoted (!isTextList (tool.get "allow_roles")) (R.repr name) "tool " " must declare allow_roles"
    let write ← quoted (!isBool (tool.get "external_write")) (R.repr name) "tool " " must declare external_write"
    return (named ++ risk ++ roles ++ write, seen_tools)
  | none => do return (← quoted true (R.str server_id) "server " " has a malformed tool", seen_tools)

/-- `isinstance(server_id, str) and _ID_RE.fullmatch(server_id)`. -/
def isServerId : Yaml → Bool
  | .str text => id_re text
  | _ => false

def server_issues (seen_tools : List String) (server : Yaml × Yaml) : Except PyError (List String × List String) := do
  let named ← quoted (!isServerId server.1) (R.repr server.1) "server id " " is invalid"
  match server.2.asMapping with
  | some fields => do
    let known ← (fields.get "transport").oneOf _TRANSPORT_VALUES
    let transport ← quoted (!known) (R.str server.1) "server " " has unsupported transport"
    match fields.get "tools" with
    | .list (tool :: tools) => do
      let (declared, seen_tools) ← collect (tool_issues R server.1) seen_tools (tool :: tools)
      return (named ++ transport ++ declared, seen_tools)
    | _ => do return (named ++ transport ++ (← quoted true (R.str server.1) "server " " must declare tools"), seen_tools)
  | none => do return (named ++ (← quoted true (R.str server.1) "server " " must be a mapping"), seen_tools)

def validate_mcp_config (raw : Yaml) : Except PyError (List String) :=
  match raw.asMapping with
  | some mapping =>
    match mapping.get "servers" with
    | .map (server :: servers) => do
      let (issues, _) ← collect (server_issues R) [] (server :: servers)
      return issues
    | _ => .ok ["servers must be a non-empty mapping"]
  | none => .ok ["config must be a mapping"]

end Mcp

section Skill

/-- The first `marker` in a text: what stands before it and what follows it. -/
def findFirst (marker : List Char) : List Char → Option (List Char × List Char)
  | [] => if marker.isEmpty then some ([], []) else none
  | c :: text =>
    if marker.isPrefixOf (c :: text) then some ([], (c :: text).drop marker.length)
    else (findFirst marker text).map fun found => (c :: found.1, found.2)

def frontmatter_issues (frontmatter : Yaml) : List String :=
  match frontmatter.asMapping with
  | some mapping => (_require_string mapping "name" 63).1 ++ (_require_string mapping "description" 1000).1
  | none => ["frontmatter must be a mapping"]

/-- The frontmatter of a skill and what follows it, or the issue. -/
def split_skill (text : String) : Except String (String × String) :=
  if "---\n".toList.isPrefixOf text.toList then
    match findFirst "\n---".toList (text.toList.drop 4) with
    | none => .error "skill frontmatter is not closed"
    | some (frontmatter, body) => .ok (String.ofList frontmatter, String.ofList body)
  else .error "skill must start with YAML frontmatter"

/-- The text of a skill is there, or the error of reading it that is reported. -/
def validate_skill (safe_load : String → Except PyError (Except String Yaml))
    (read : Except PyError (Except String String)) : Except PyError (List String) := do
  match ← read with
  | .error exc => return ["cannot read skill: " ++ exc]
  | .ok text =>
    let size := issue_if (65536 < text.length) "skill exceeds 64 KiB"
    match split_skill text with
    | .error issue => return size ++ [issue]
    | .ok (frontmatter, body) =>
      match ← safe_load frontmatter with
      | .error exc => return size ++ ["invalid skill frontmatter: " ++ exc]
      | .ok value => return size ++ frontmatter_issues value ++ issue_if (isBlank body) "skill body must not be empty"

end Skill

section Repository

/-- A document that cannot be loaded is reported. -/
def report (read : Except PyError (Except String Yaml)) (validate : Yaml → Except PyError (List String)) :
    Except PyError (List String) := do
  match ← read with
  | .error exc => return [exc]
  | .ok raw => validate raw

/-- What is read from files: the value, or the text of the error that is reported.  Other errors are raised:
of bytes that are no text, of a number or a date that is not built, of what is nested too deeply. -/
structure Sources where
  read_json : Path → Option Entry → Except PyError (Except String Json)
  read_yaml : Path → Entry → Except PyError (Except String Yaml)
  read_text : Path → Entry → Except PyError (Except String String)
  safe_load : String → Except PyError (Except String Yaml)
  resolve : Tree → Path → Except PyError Target
  resolve_linkless : ∀ t path place, resolve t path = .ok (.inside place) → t.hasSymlink = true

variable (S : Sources) (R : Rendering)

/-- The readers of `validate_plugin`. -/
def Sources.library : Plugin.Library where
  read_json := S.read_json
  validate_skill path entry := validate_skill S.safe_load (S.read_text path entry)
  validate_mcp_config path entry := report (S.read_yaml path entry) (validate_mcp_config R)
  resolve := S.resolve
  resolve_linkless := S.resolve_linkless

/-- The documents that `validate_repository` finds, in its order. -/
structure Repository where
  agents : List (Directory × Except PyError (Except String Yaml))
  skills : List (Except PyError (Except String String))
  mcp_config : Option (Except PyError (Except String Yaml))
  schedules : List (Except PyError (Except String Yaml))
  plugins : List (Path × Tree)

def validate_repository (repository : Repository) : Except PyError (List (List String)) := do
  let agents ← repository.agents.mapM fun x => report x.2 (validate_agent_manifest x.1)
  let skills ← repository.skills.mapM (validate_skill S.safe_load)
  let mcp ← repository.mcp_config.toList.mapM fun read => report read (validate_mcp_config R)
  let schedules ← repository.schedules.mapM fun read => report read validate_schedule
  let plugins ← repository.plugins.mapM fun x => validate_plugin (S.library R) x.1 x.2
  return agents ++ skills ++ mcp ++ schedules ++ plugins

end Repository

end EnterpriseCopilot.Contracts
