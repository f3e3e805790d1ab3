import EnterpriseCopilot.Plugin.Validation

/-! Installation of reviewed plugins. -/

namespace EnterpriseCopilot.Plugin

open EnterpriseCopilot.Python

structure PluginRecord where
  name : String
  version : String
  publisher : String
  integrity_sha256 : String
  installed_at : String
  source : String
  review_status : String
  requested_tools : List Json := []
  requested_network : List Json := []
  dependencies : List Json := []

structure RegistryEvent where
  action : String
  name : String
  version : String
  actor : String
  created_at : String

/-- The registry directory: the plugin directories in it, the rollback directory, and the two
files. -/
structure Registry where
  plugins : String → Option Tree
  rollback : List (String × Tree) := []
  records : List (String × PluginRecord) := []
  events : List RegistryEvent := []

/-- Clock readings and fresh names of one call. -/
structure Readings where
  stamp : String
  hex : String
  installed_at : String
  created_at : String

/-- `PluginInstallError` is a `ValueError`. -/
def installError (msg : String) : PyError := .valueError msg

def text_of : Json → String
  | .str text => text
  | _ => ""

def items_of : Json → List Json
  | .arr items => items
  | _ => []

/-- What `install` reads from the manifest once it is valid. -/
def record_of (mapping : Payload) (integrity installed_at source approved_by : String) :
    PluginRecord where
  name := text_of (mapping.get "name")
  version := text_of (mapping.get "version")
  publisher := text_of (mapping.get "publisher")
  integrity_sha256 := integrity
  installed_at := installed_at
  source := source
  review_status := "approved:" ++ str_strip approved_by
  requested_tools := match mapping.get "permissions" with
    | .obj permissions => items_of (Payload.get permissions "tools")
    | _ => []
  requested_network := match mapping.get "permissions" with
    | .obj permissions => items_of (Payload.get permissions "network")
    | _ => []
  dependencies := items_of (mapping.get "dependencies")

/-- Everything `install` checks before it touches the registry: the manifest and the digest. -/
def checked (sha256 : Hexdigest) (L : Library) (source : Path) (t : Option Tree)
    (approved_by : String) (expected_integrity : Option String) :
    Except PyError (Tree × Payload × String) := do
  match t with
  | none => throw (installError "Plugin source must be a directory")
  | some t =>
    if t.hasSymlink then throw (installError "Plugin symlinks are not allowed")
    else if isBlank approved_by then
      throw (installError "Plugin installation requires an explicit reviewer")
    else do
      let issues ← validate_plugin L source t
      if issues ≠ [] then
        throw (installError ("Plugin validation failed: " ++ "; ".intercalate issues))
      else do
        match ← L.read_json (source ++ manifest_path) (t.at? manifest_path) with
        | .ok (.obj mapping) =>
          let integrity := plugin_integrity sha256 source t
          if expected_integrity ≠ none ∧ expected_integrity ≠ some integrity then
            throw (installError "Plugin integrity does not match the expected digest")
          else return (t, mapping, integrity)
        | _ => throw (.typeError "plugin manifest")

theorem valid_name {L : Library} {source : Path} {t : Tree} {mapping : Payload}
    (hvalid : validate_plugin L source t = .ok [])
    (hread : L.read_json (source ++ manifest_path) (t.at? manifest_path) = .ok (.ok (.obj mapping))) :
    id_re (text_of (mapping.get "name")) = true := by
  unfold validate_plugin at hvalid
  rw [hread, ok_bind] at hvalid
  obtain ⟨skills, _, hvalid⟩ := bind_ok hvalid
  obtain ⟨mcp, _, hvalid⟩ := bind_ok hvalid
  have hnil := Except.ok.inj hvalid
  simp only [List.append_eq_nil_iff, List.flatMap_eq_nil_iff] at hnil
  obtain ⟨⟨⟨⟨⟨⟨hfields, hname⟩, _⟩, _⟩, _⟩, _⟩, _⟩ := hnil
  have hfield := hfields "name" (by simp)
  unfold _require_string at hfield
  unfold name_issues at hname
  cases hget : mapping.get "name" with
  | str name =>
    rw [hget] at hname
    simpa [text_of] using hname
  | _ =>
    rw [hget] at hfield
    cases hfield

/-- What `install` knows once the checks are passed. -/
theorem checked_ok {sha256 : Hexdigest} {L : Library} {source : Path} {found : Option Tree} {t : Tree}
    {approved_by integrity : String} {expected : Option String} {mapping : Payload}
    (h : checked sha256 L source found approved_by expected = .ok (t, mapping, integrity)) :
    found = some t ∧ t.hasSymlink = false ∧ integrity = plugin_integrity sha256 source t ∧
      L.read_json (source ++ manifest_path) (t.at? manifest_path) = .ok (.ok (.obj mapping)) ∧
      id_re (text_of (mapping.get "name")) = true := by
  unfold checked at h
  split at h
  · cases h
  rename_i tree
  split at h
  · cases h
  rename_i hlink
  split at h
  · cases h
  obtain ⟨issues, hvalid, h⟩ := bind_ok h
  split at h
  · cases h
  rename_i hissues
  rw [not_not] at hissues
  obtain ⟨read, hread, h⟩ := bind_ok h
  split at h
  · dsimp only at h
    split at h
    · cases h
    · cases h
      exact ⟨rfl, by simpa using hlink, rfl, hread, valid_name (hissues ▸ hvalid) hread⟩
  · cases h

theorem checked_expected {sha256 : Hexdigest} {L : Library} {source : Path} {found : Option Tree} {t : Tree}
    {approved_by expected integrity : String} {mapping : Payload}
    (h : checked sha256 L source found approved_by (some expected) = .ok (t, mapping, integrity)) :
    expected = plugin_integrity sha256 source t := by
  obtain ⟨rfl, hlink, rfl, hread, _⟩ := checked_ok h
  unfold checked at h
  dsimp only at h
  split at h
  · cases h
  split at h
  · cases h
  obtain ⟨issues, _, h⟩ := bind_ok h
  split at h
  · cases h
  rw [hread, ok_bind] at h
  dsimp only at h
  split at h
  · cases h
  · rename_i hexpected
    simpa using hexpected

/-- Move the installed version away, put the copy in its place and write the two files. -/
def Registry.place (r : Registry) (t : Tree) (record : PluginRecord) (approved_by : String)
    (readings : Readings) : Registry where
  plugins := Function.update r.plugins record.name (some t)
  rollback := match r.plugins record.name with
    | some old => r.rollback ++ [(record.name ++ "-" ++ readings.stamp ++ "-" ++ readings.hex, old)]
    | none => r.rollback
  records := (r.records.filter fun x => x.1 ≠ record.name) ++ [(record.name, record)]
  events := r.events ++ [⟨"install", record.name, record.version, str_strip approved_by,
    readings.created_at⟩]

/-- `install` of the directory `t` at the path `source`, when no file operation fails. -/
def Registry.install (sha256 : Hexdigest) (L : Library) (r : Registry) (source : Path)
    (t : Option Tree) (approved_by : String) (expected_integrity : Option String)
    (readings : Readings) : Except PyError PluginRecord × Registry :=
  match checked sha256 L source t approved_by expected_integrity with
  | .error e => (.error e, r)
  | .ok (t, mapping, integrity) =>
    let record := record_of mapping integrity readings.installed_at ("/" ++ as_posix source) approved_by
    (.ok record, r.place t record approved_by readings)

/-- The files below the directory of a plugin. -/
def Registry.installed (r : Registry) (name : String) : List (Path × Bytes) :=
  match r.plugins name with
  | some t => t.files
  | none => []

end EnterpriseCopilot.Plugin
