import EnterpriseCopilot.Plugin.Disk

/-! `PluginRegistry` as programs on the disk. -/

namespace EnterpriseCopilot.Plugin

open EnterpriseCopilot.Lib EnterpriseCopilot.Python

abbrev Code (α : Type) := Program Command Reply PyError α

/-- The directory of a registry, and the functions of the library that it uses. -/
structure PluginRegistry where
  root : Path
  named : ∀ part ∈ root, ValidName part
  sha256 : Hexdigest
  library : Library
  /-- `str()` of a decoded value. -/
  str : Json → String

/-- `records[name] = record`. -/
def Records.set (records : Records) (name : String) (record : PluginRecord) : Records :=
  records.filter (fun x => x.1 ≠ name) ++ [(name, record)]

/-- `records.pop(name, None)`. -/
def Records.pop (records : Records) (name : String) : Records := records.filter fun x => x.1 ≠ name

/-- `value[key]`. -/
def subscript (value : Json) (key : String) : Except PyError Json :=
  match value with
  | .obj mapping => match mapping.lookup key with
    | some item => .ok item
    | none => .error (.keyError key)
  | _ => .error (.typeError key)

/-- `value.get(key, default)`. -/
def get_or (value : Json) (key : String) (default : Json) : Except PyError Json :=
  match value with
  | .obj mapping => .ok ((mapping.lookup key).getD default)
  | _ => .error (.exception "AttributeError")

/-- `list(value)`. -/
def list_of : Json → Except PyError (List Json)
  | .arr items => .ok items
  | .str text => .ok (text.toList.map fun c => .str (String.ofList [c]))
  | .obj mapping => .ok (mapping.map fun x => .str x.1)
  | _ => .error (.typeError "object is not iterable")

/-- The versions that may be restored, newest first; of versions of one time, the one listed first. -/
def candidates (found : List (Path × Int)) : List Path :=
  ((found.filter fun x => !isCurrent (x.1.getLastD "")).insertionSort fun a b => b.2 ≤ a.2).map Prod.fst

namespace PluginRegistry

section Requests

def read_tree (p : Path) : Code (Option Tree) := do
  Program.ofExcept (← Program.request (.read_tree p))

def move (src dst : Path) : Code Unit := do
  Program.ofExcept (Except.mapError Halt.error (← Program.request (.move src dst)))

def copytree (src dst : Path) : Code Unit := do
  Program.ofExcept (← Program.request (.copytree src dst))

def replace (src dst : Path) : Code Unit := do
  Program.ofExcept (← Program.request (.replace src dst))

def rmtree (p : Path) : Code Unit := do
  Program.ofExcept (← Program.request (.rmtree p))

def glob (dir : Path) (pattern : String) : Code (List (Path × Int)) := do
  Program.ofExcept (← Program.request (.glob dir pattern))

def _read_records : Code Records := do
  Program.ofExcept (← Program.request .read_records)

def _write_records (records : Records) : Code Unit := do
  Program.ofExcept (← Program.request (.write_records records))

def _append_event (action name version actor : String) : Code Unit := do
  let created_at ← Program.request .isoformat
  Program.ofExcept (← Program.request (.append_event ⟨action, name, version, actor, created_at⟩))

end Requests

variable (R : PluginRegistry)

def rollback_root : Path := R.root ++ [".rollback"]

/-- Move the installed version to its backup. -/
def set_aside (name : String) (destination : Path) : Code (Option Path) := do
  if ← Program.request (.exists_at destination) then
    let stamp ← Program.request .strftime
    let hex ← Program.request .uuid4
    let rollback_path := join R.rollback_root (backup_name name stamp hex)
    move destination rollback_path
    return some rollback_path
  else return none

/-- `if staging.exists(): shutil.rmtree(staging)`. -/
def discard (staging : Path) : Code Unit := do
  if ← Program.request (.exists_at staging) then rmtree staging

/-- Move the version that was set aside back, unless something has its place. -/
def bring_back (destination : Path) : Option Path → Code Unit
  | some rollback_path => do
    if !(← Program.request (.exists_at destination)) then move rollback_path destination
  | none => pure ()

/-- The handler of the copy. -/
def recover (staging destination : Path) (rollback_path : Option Path) (e : PyError) : Code Unit := do
  discard staging
  bring_back destination rollback_path
  throw e

def stage (source staging destination : Path) (rollback_path : Option Path) : Code Unit :=
  tryCatch (do
    copytree source staging
    replace staging destination) (recover staging destination rollback_path)

/-- Write the records with a new one, and the event. -/
def enter (action actor : String) (records : Records) (record : PluginRecord) : Code PluginRecord := do
  _write_records (records.set record.name record)
  _append_event action record.name record.version actor
  return record

def install (source : Path) (approved_by : String) (expected_integrity : Option String) :
    Code PluginRecord := do
  let found ← read_tree source
  let (_, mapping, integrity) ←
    Program.ofExcept (checked R.sha256 R.library source found approved_by expected_integrity)
  let name := text_of (mapping.get "name")
  let destination ← Program.ofExcept (_assert_contained R.root name)
  let rollback_path ← R.set_aside name destination
  let hex ← Program.request .uuid4
  stage source (join R.root (staging_name name hex)) destination rollback_path
  let records ← _read_records
  let installed_at ← Program.request .isoformat
  enter "install" (str_strip approved_by) records
    (record_of mapping integrity installed_at ("/" ++ as_posix source) approved_by)

/-- The record of a restored version. -/
def restored (name : String) (destination : Path) (found : Option Tree) (installed_at : String) :
    Except PyError PluginRecord := do
  match found with
  | none => throw osError
  | some t =>
    match ← R.library.read_json (destination ++ manifest_path) (t.at? manifest_path) with
    | .error text => throw (.valueError text)
    | .ok manifest =>
      let version ← subscript manifest "version"
      let publisher ← subscript manifest "publisher"
      let permissions ← get_or manifest "permissions" (.obj [])
      let tools ← list_of (← get_or permissions "tools" (.arr []))
      let network ← list_of (← get_or permissions "network" (.arr []))
      let dependencies ← list_of (← get_or manifest "dependencies" (.arr []))
      return {
        name := name
        version := R.str version
        publisher := R.str publisher
        integrity_sha256 := plugin_integrity R.sha256 destination t
        installed_at := installed_at
        source := "/" ++ as_posix destination
        review_status := "rollback-approved"
        requested_tools := tools
        requested_network := network
        dependencies := dependencies }

/-- Move the version that is being replaced out of the way. -/
def clear (name : String) (destination : Path) : Code Unit := do
  if ← Program.request (.exists_at destination) then
    let hex ← Program.request .uuid4
    move destination (join R.rollback_root (current_name name hex))

/-- Enter the version that is now in place. -/
def register (name : String) (destination : Path) : Code PluginRecord := do
  let found ← read_tree destination
  let installed_at ← Program.request .isoformat
  let record ← Program.ofExcept (R.restored name destination found installed_at)
  let records ← _read_records
  enter "rollback" "rollback-approved" records record

def rollback (name : String) : Code PluginRecord := do
  let destination ← Program.ofExcept (_assert_contained R.root name)
  let found ← glob R.rollback_root (name ++ "-*")
  match candidates found with
  | [] => throw (installError ("no rollback version is available for " ++ name))
  | first :: _ =>
    R.clear name destination
    copytree first destination
    R.register name destination

def remove (name approved_by : String) : Code Unit := do
  if isBlank approved_by then throw (installError "Plugin removal requires an explicit reviewer")
  else
    let destination ← Program.ofExcept (_assert_contained R.root name)
    if ← Program.request (.is_dir destination) then
      let stamp ← Program.request .strftime
      let hex ← Program.request .uuid4
      move destination (join R.rollback_root (removed_name name stamp hex))
      let records ← _read_records
      _write_records (records.pop name)
      _append_event "remove" name "unknown" (str_strip approved_by)
    else throw (installError ("installed Plugin was not found: " ++ name))

end PluginRegistry

inductive Call
  | install (source : Path) (approved_by : String) (expected_integrity : Option String)
  | rollback (name : String)
  | remove (name approved_by : String)

/-- A call of the registry; `remove` returns nothing. -/
def PluginRegistry.call (R : PluginRegistry) : Call → Code (Option PluginRecord)
  | .install source approved_by expected_integrity =>
    some <$> R.install source approved_by expected_integrity
  | .rollback name => some <$> R.rollback name
  | .remove name approved_by => (fun _ => none) <$> R.remove name approved_by

end EnterpriseCopilot.Plugin
