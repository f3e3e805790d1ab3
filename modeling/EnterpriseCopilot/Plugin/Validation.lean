import EnterpriseCopilot.Plugin.Tree
import EnterpriseCopilot.Python.Text

/-! The contract check that a plugin passes before it is installed. -/

namespace EnterpriseCopilot.Plugin

open EnterpriseCopilot.Python

/-- Where a path leads. -/
inductive Target
  | outside
  | missing
  | inside (path : Path)

/-- Readers of single files.  `read_json` answers with the text of the `ContractValidationError`
or the value; `validate_skill` and `validate_mcp_config` answer with the issues they report;
`resolve` follows a path that is no file or directory of the tree, through its links.
All of them may raise, and see the path and what is there. -/
structure Library where
  read_json : Path → Option Entry → Except PyError (Except String Json)
  validate_skill : Path → Entry → Except PyError (List String)
  validate_mcp_config : Path → Entry → Except PyError (List String)
  resolve : Tree → Path → Except PyError Target
  resolve_linkless : ∀ t path place, resolve t path = .ok (.inside place) → t.hasSymlink = true

/-- Where a path of the tree leads. -/
def follow (resolve : Tree → Path → Except PyError Target) (t : Tree) (path : Path) : Except PyError Target :=
  match t.at? path with
  | some .dir | some (.file _) => .ok (.inside path)
  | _ => resolve t path

def _require_string (mapping : Payload) (field_name : String) (max_length : Nat) : List String :=
  match mapping.get field_name with
  | .str value =>
    if isBlank value then [field_name ++ " must be a non-empty string"]
    else if value.length > max_length then
      [field_name ++ " exceeds " ++ toString max_length ++ " characters"]
    else []
  | _ => [field_name ++ " must be a non-empty string"]

def isIdChar (c : Char) : Bool := ('a' ≤ c && c ≤ 'z') || ('0' ≤ c && c ≤ '9')

/-- `_ID_RE.fullmatch`. -/
def id_re (text : String) : Bool :=
  match text.toList with
  | [] => false
  | c :: cs => isIdChar c && 1 ≤ cs.length && cs.length ≤ 62 && cs.all fun c => isIdChar c || c == '-'

def isSuffixChar (c : Char) : Bool :=
  ('0' ≤ c && c ≤ '9') || ('A' ≤ c && c ≤ 'Z') || ('a' ≤ c && c ≤ 'z') || c == '.' || c == '-'

/-- A run of digits, and what follows it. -/
def digitRun (cs : List Char) : Option (List Char) :=
  let rest := cs.dropWhile fun c => (decimalValue c).isSome
  if rest.length < cs.length then some rest else none

/-- `_SEMVER_RE.fullmatch`. -/
def semver_re (text : String) : Bool :=
  match digitRun text.toList with
  | some ('.' :: cs) =>
    match digitRun cs with
    | some ('.' :: ds) =>
      match digitRun ds with
      | some [] => true
      | some ('-' :: es) => !es.isEmpty && es.all isSuffixChar
      | _ => false
    | _ => false
  | _ => false

/-- The parts of `Path(text)`. -/
def path_parts (text : String) : Path :=
  ((text.toList.splitOnP (· == '/')).map String.ofList).filter fun part => part ≠ "" ∧ part ≠ "."

/-- `_contained_file_or_directory`: the path below the plugin directory, or the issue. -/
def _contained_file_or_directory (L : Library) (t : Tree) (relative : Json) (field_name : String) :
    Except PyError (Except String Path) :=
  match relative with
  | .str text =>
    if isBlank text then .ok (.error (field_name ++ " must be a relative path"))
    else if text.toList.head? = some '/' ∨ ".." ∈ path_parts text then
      .ok (.error (field_name ++ " must stay inside plugin directory"))
    else if '\x00' ∈ text.toList then .error (.valueError "embedded null byte")
    else do
      match ← follow L.resolve t (path_parts text) with
      | .outside => return .error (field_name ++ " escapes plugin directory")
      | .missing => return .error (field_name ++ " does not exist")
      | .inside place => return .ok place
  | _ => .ok (.error (field_name ++ " must be a relative path"))

/-- `sorted(target.rglob("SKILL.md"))`. -/
def skill_files (t : Tree) (target : Path) : List (Path × Entry) :=
  sorted (t.entries.filter fun x => target <+: x.1 ∧ target ≠ x.1 ∧ x.1.getLast? = some "SKILL.md")

/-- `target.glob("*" + suffix)`. -/
def glob (t : Tree) (target : Path) (suffix : String) : List (Path × Entry) :=
  t.entries.filter fun x =>
    x.1.dropLast = target ∧ ∃ name ∈ x.1.getLast?, suffix.toList <:+ name.toList

/-- `sorted((*target.glob("*.yaml"), *target.glob("*.yml")))`. -/
def mcp_files (t : Tree) (target : Path) : List (Path × Entry) :=
  sorted (glob t target ".yaml" ++ glob t target ".yml")

/-- The issues of the files below a directory, each under the name of its file. -/
def file_issues (validate : Path → Entry → Except PyError (List String)) (root : Path)
    (files : List (Path × Entry)) : Except PyError (List String) := do
  let reports ← files.mapM fun x => do
    let issues ← validate (root ++ x.1) x.2
    return issues.map fun issue => x.1.getLast?.getD "" ++ ": " ++ issue
  return reports.flatten

/-- The checks on the directory that the field names, if it is given. -/
def directory_issues (L : Library) (t : Tree) (mapping : Payload) (field_name : String)
    (inside : Path → Except PyError (List String)) : Except PyError (List String) :=
  match mapping.get field_name with
  | .null => .ok []
  | value => do
    match ← _contained_file_or_directory L t value field_name with
    | .error issue => return [issue]
    | .ok target =>
      if t.at? target = some .dir then inside target
      else return [field_name ++ " must point to a directory"]

def isStringList : Json → Bool
  | .arr items => items.all fun
    | .str _ => true
    | _ => false
  | _ => false

def permission_issues (mapping : Payload) : List String :=
  match mapping.get "permissions" with
  | .obj permissions => ["network", "tools"].flatMap fun key =>
      if isStringList ((permissions.lookup key).getD (.arr [])) then []
      else ["permissions." ++ key ++ " must be a list of strings"]
  | _ => ["permissions must be a mapping"]

def dependency_issues (mapping : Payload) : List String :=
  if isStringList ((mapping.lookup "dependencies").getD (.arr [])) then []
  else ["dependencies must be a list of strings"]

def name_issues (mapping : Payload) : List String :=
  match mapping.get "name" with
  | .str name =>
    if id_re name then [] else ["name must contain lowercase letters, numbers and hyphens only"]
  | _ => []

def version_issues (mapping : Payload) : List String :=
  match mapping.get "version" with
  | .str version => if semver_re version then [] else ["version must use semantic-version format"]
  | _ => []

def manifest_path : Path := [".codex-plugin", "plugin.json"]

/-- The issues of a plugin directory. -/
def validate_plugin (L : Library) (root : Path) (t : Tree) : Except PyError (List String) := do
  match ← L.read_json (root ++ manifest_path) (t.at? manifest_path) with
  | .error issue => return [issue]
  | .ok (.obj mapping) =>
    let skills ← directory_issues L t mapping "skills" fun target =>
      file_issues L.validate_skill root (skill_files t target)
    let mcp ← directory_issues L t mapping "mcp" fun target =>
      file_issues L.validate_mcp_config root (mcp_files t target)
    return ["name", "version", "description", "publisher"].flatMap
        (fun field_name => _require_string mapping field_name 200) ++
      name_issues mapping ++ version_issues mapping ++ skills ++ mcp ++ permission_issues mapping ++
      dependency_issues mapping
  | .ok _ => return ["plugin manifest must be a mapping"]

end EnterpriseCopilot.Plugin
