import EnterpriseCopilot.Contracts.Validation
import EnterpriseCopilot.Lib.Lockstep
import EnterpriseCopilot.Schedule.Runnable

/-! The types of the checked fields, and the documents whose check returns. -/

namespace EnterpriseCopilot.Contracts

open EnterpriseCopilot.Lib
open EnterpriseCopilot.Plugin (Path Tree Target follow path_parts validate_plugin skill_files mcp_files manifest_path)
open EnterpriseCopilot.Python
open EnterpriseCopilot.Schedule

section Types

def IsText (value : Yaml) : Prop := ∃ s, value = .str s

/-- An instance of `int`. -/
def IsInt (value : Yaml) : Prop := ∃ n, value.asInt = some n

def IsBool (value : Yaml) : Prop := ∃ b, value = .bool b

def IsTextList (value : Yaml) : Prop := ∃ items, value = .list items ∧ ∀ item ∈ items, IsText item

/-- A missing value, or one of a type. -/
def Absent (P : Yaml → Prop) (value : Yaml) : Prop := value = .null ∨ P value

/-- A mapping whose fields have their types. -/
def IsMap (P : Mapping → Prop) (value : Yaml) : Prop := ∃ mapping, value = .map mapping ∧ P mapping

structure AgentFields (mapping : Mapping) : Prop where
  texts : ∀ key ∈ ["id", "version", "name", "description", "instructions"], IsText (mapping.get key)
  allowed : ∀ key ∈ ["skills", "mcp"], Absent (IsMap fun allowed => Absent IsTextList (allowed.get "allow")) (mapping.get key)
  approval : IsMap (fun approval => ∀ key ∈ _RISK_VALUES, IsText (approval.get key)) (mapping.get "approval")
  limits : IsMap (fun limits => ∀ key ∈ ["max_steps", "max_runtime_seconds"], IsInt (limits.get key)) (mapping.get "limits")

structure ToolFields (tool : Mapping) : Prop where
  name : IsText (tool.get "name")
  risk : IsText (tool.get "risk")
  allow_roles : IsTextList (tool.get "allow_roles")
  external_write : IsBool (tool.get "external_write")

structure ServerFields (fields : Mapping) : Prop where
  transport : IsText (fields.get "transport")
  tools : ∃ tools, fields.get "tools" = .list tools ∧ ∀ tool ∈ tools, IsMap ToolFields tool

def McpFields (mapping : Mapping) : Prop :=
  IsMap (fun servers => ∀ server ∈ servers, IsText server.1 ∧ IsMap ServerFields server.2) (mapping.get "servers")

structure TimingFields (schedule : Mapping) : Prop where
  type : IsText (schedule.get "type")
  expression : schedule.get "type" = .str "cron" → IsText (schedule.get "expression")
  seconds : schedule.get "type" = .str "interval" → IsInt (schedule.get "seconds")
  timezone : IsText ((schedule.lookup "timezone").getD (.str "UTC"))

structure RunFields (run : Mapping) : Prop where
  numbers : ∀ key ∈ ["max_runtime_seconds", "max_concurrency", "retry_limit"], IsInt (run.get key)
  mode : IsText ((run.lookup "mode").getD (.str "isolated"))
  texts : ∀ key ∈ ["query", "order_id"], Absent IsText (run.get key)
  consent : Absent IsBool (run.get "allow_external_processing")

structure NotifyFields (notify : Mapping) : Prop where
  channel : Absent IsText (notify.get "channel")
  only_if : IsText ((notify.lookup "only_if").getD (.str "finding_or_failure"))

structure ScheduleFields (mapping : Mapping) : Prop where
  texts : ∀ key ∈ ["id", "version", "agent"], IsText (mapping.get key)
  schedule : IsMap TimingFields (mapping.get "schedule")
  run : IsMap RunFields (mapping.get "run")
  permissions : IsMap (fun permissions => IsText (permissions.get "mode")) (mapping.get "permissions")
  notify : IsMap NotifyFields ((mapping.lookup "notify").getD (.map []))

def IsJsonText (value : Json) : Prop := ∃ s, value = .str s

def IsJsonTextList (value : Json) : Prop := ∃ items, value = .arr items ∧ ∀ item ∈ items, IsJsonText item

structure PluginFields (mapping : Payload) : Prop where
  texts : ∀ key ∈ ["name", "version", "description", "publisher"], IsJsonText (mapping.get key)
  directories : ∀ key ∈ ["skills", "mcp"], mapping.get key = .null ∨ IsJsonText (mapping.get key)
  permissions : ∃ permissions, mapping.get "permissions" = .obj permissions ∧
    ∀ key ∈ ["network", "tools"], IsJsonTextList ((permissions.lookup key).getD (.arr []))
  dependencies : IsJsonTextList ((mapping.lookup "dependencies").getD (.arr []))

end Types

section Conditions

/-- A value that a set can be asked for. -/
def Hashable : Yaml → Prop
  | .list _ | .map _ => False
  | _ => True

/-- What is asked of a value that is a mapping. -/
def OnMap (P : Mapping → Prop) (value : Yaml) : Prop := ∀ mapping, value = .map mapping → P mapping

/-- The path is followed only if it is relative and stays below its directory. -/
def Followed (text : String) : Prop :=
  isBlank text = false ∧ text.toList.head? ≠ some '/' ∧ ".." ∉ path_parts text

structure AgentReturns (D : Directory) (mapping : Mapping) : Prop where
  instructions : ∀ text, mapping.get "instructions" = .str text → Followed text → Returns (D.resolve (path_parts text))
  approval : OnMap (fun approval => ∀ entry ∈ approval, ∀ key ∈ _RISK_VALUES, entry.1 = .str key → Hashable entry.2)
    (mapping.get "approval")

variable (R : Rendering)

/-- A value that an issue can have in its text. -/
def Rendered (value : Yaml) : Prop := Returns (R.str value)

/-- A tool without an issue that has its name in it. -/
structure Unnamed (tool : Mapping) : Prop where
  risk : ∃ risk ∈ _RISK_VALUES, tool.get "risk" = .str risk
  allow_roles : IsTextList (tool.get "allow_roles")
  external_write : IsBool (tool.get "external_write")

structure ToolReturns (tool : Mapping) : Prop where
  risk : Hashable (tool.get "risk")
  name : Unnamed tool ∨ Rendered R (tool.get "name")

structure ServerReturns (server : Yaml × Yaml) : Prop where
  server_id : Rendered R server.1
  transport : OnMap (fun fields => Hashable (fields.get "transport")) server.2
  tools : OnMap (fun fields => ∀ tools, fields.get "tools" = .list tools → ∀ tool ∈ tools, OnMap (ToolReturns R) tool) server.2

def McpReturns (mapping : Mapping) : Prop :=
  OnMap (fun servers => ∀ server ∈ servers, ServerReturns R server) (mapping.get "servers")

structure ScheduleReturns (mapping : Mapping) : Prop where
  type : OnMap (fun schedule => Hashable (schedule.get "type")) (mapping.get "schedule")
  run_mode : OnMap (fun run => Hashable ((run.lookup "mode").getD (.str "isolated"))) (mapping.get "run")
  mode : OnMap (fun permissions => Hashable (permissions.get "mode")) (mapping.get "permissions")
  only_if : OnMap (fun notify => Hashable ((notify.lookup "only_if").getD (.str "finding_or_failure")))
    ((mapping.lookup "notify").getD (.map []))

variable (S : Sources)

/-- A file that is read, or reported, and if it is read has a property. -/
def Loads {α : Type} (P : α → Prop) (read : Except PyError (Except String α)) : Prop :=
  Returns read ∧ ∀ value, read = .ok (.ok value) → P value

def SkillReturns (text : String) : Prop :=
  ∀ frontmatter body, split_skill text = .ok (frontmatter, body) → Returns (S.safe_load frontmatter)

/-- What is asked of the directory to which a field leads. -/
def Within (resolve : Tree → Path → Except PyError Target) (t : Tree) (P : Path → Prop) (value : Json) : Prop :=
  ∀ text place, value = .str text → Followed text → follow resolve t (path_parts text) = .ok (.inside place) →
    t.at? place = some .dir → P place

structure PluginReturns (root : Path) (t : Tree) (mapping : Payload) : Prop where
  directories : ∀ key ∈ ["skills", "mcp"], ∀ text, mapping.get key = .str text → Followed text →
    '\x00' ∉ text.toList ∧ Returns (follow S.resolve t (path_parts text))
  skills : Within S.resolve t (fun place => ∀ x ∈ skill_files t place,
    Loads (SkillReturns S) (S.read_text (root ++ x.1) x.2)) (mapping.get "skills")
  configs : Within S.resolve t (fun place => ∀ x ∈ mcp_files t place,
    Loads (OnMap (McpReturns R)) (S.read_yaml (root ++ x.1) x.2)) (mapping.get "mcp")

end Conditions

section Values

variable {value : Yaml} {mapping : Mapping} {P Q : Mapping → Prop}

theorem returns_oneOf {texts : List String} : Returns (value.oneOf texts) ↔ Hashable value := by
  cases value with
  | list xs => exact iff_of_false (not_returns_error _) id
  | map kvs => exact iff_of_false (not_returns_error _) id
  | _ => exact iff_of_true ⟨_, rfl⟩ trivial

theorem onMap_map : OnMap P (.map mapping) ↔ P mapping :=
  ⟨fun h => h mapping rfl, fun h _ hm => (Yaml.map.inj hm) ▸ h⟩

theorem onMap_none (h : value.asMapping = none) : OnMap P value := by
  rintro m rfl
  cases h

theorem required_nil {key : String} {max_length : Nat} (h : (_require_string mapping key max_length).1 = []) :
    IsText (mapping.get key) := by
  unfold _require_string at h
  split at h
  · rename_i text hget
    exact ⟨text, hget⟩
  · cases h

theorem isTextList_iff : isTextList value = true ↔ IsTextList value := by
  unfold isTextList
  split
  · rename_i items
    rw [List.all_eq_true]
    constructor
    · intro h
      refine ⟨items, rfl, fun item hitem => ?_⟩
      have htext := h item hitem
      split at htext
      · exact ⟨_, rfl⟩
      · cases htext
    · rintro ⟨items', heq, hitems⟩ item hitem
      cases heq
      obtain ⟨s, rfl⟩ := hitems item hitem
      rfl
  · rename_i hother
    refine iff_of_false (by simp) ?_
    rintro ⟨items, rfl, _⟩
    exact hother items rfl

theorem isBool_iff : isBool value = true ↔ IsBool value := by
  cases value with
  | bool b => exact iff_of_true rfl ⟨b, rfl⟩
  | _ =>
    refine iff_of_false (by simp [isBool]) ?_
    rintro ⟨b, h⟩
    cases h

end Values

section Agents

variable {value raw : Yaml} {mapping : Mapping} {D : Directory}

theorem returns_contained_file {field_name : String} : Returns (_contained_file D value field_name) ↔
    ∀ text, value = .str text → Followed text → Returns (D.resolve (path_parts text)) := by
  unfold _contained_file
  split
  · rename_i text
    by_cases hblank : isBlank text = true
    · rw [if_pos hblank]
      refine iff_of_true ⟨_, rfl⟩ ?_
      rintro _ heq ⟨hno, _⟩
      cases heq
      rw [hblank] at hno
      cases hno
    · rw [if_neg hblank]
      by_cases hout : text.toList.head? = some '/' ∨ ".." ∈ path_parts text
      · rw [if_pos hout]
        refine iff_of_true ⟨_, rfl⟩ ?_
        rintro _ heq ⟨_, hrelative, hbelow⟩
        cases heq
        exact (hout.elim hrelative hbelow).elim
      · rw [if_neg hout, returns_bind_and (P := True) fun place _ => iff_of_true ?_ trivial, and_true]
        · have hfollowed : Followed text := ⟨by simpa using hblank, (not_or.mp hout).1, (not_or.mp hout).2⟩
          refine ⟨?_, fun h => h text rfl hfollowed⟩
          rintro h _ heq _
          cases heq
          exact h
        · cases place <;> exact ⟨_, rfl⟩
  · rename_i hother
    exact iff_of_true ⟨_, rfl⟩ fun text heq => (hother text heq).elim

theorem returns_approval_entry {entry : Yaml × Yaml} : Returns (approval_entry entry) ↔
    ∀ key ∈ _RISK_VALUES, entry.1 = .str key → Hashable entry.2 := by
  unfold approval_entry
  split
  · rename_i key hkey
    by_cases hin : _RISK_VALUES.contains key = true
    · rw [if_pos hin, returns_bind_pure, returns_oneOf]
      refine ⟨fun h _ _ _ => h, fun h => h key (by simpa using hin) hkey⟩
    · rw [if_neg hin]
      refine iff_of_true ⟨_, rfl⟩ fun key' hkey' heq => ?_
      rw [hkey] at heq
      cases heq
      exact (hin (by simpa using hkey')).elim
  · rename_i hother
    exact iff_of_true ⟨_, rfl⟩ fun key _ heq => (hother key heq).elim

theorem returns_approval : Returns (approval_issues value) ↔
    OnMap (fun approval => ∀ entry ∈ approval, ∀ key ∈ _RISK_VALUES, entry.1 = .str key → Hashable entry.2) value := by
  unfold approval_issues
  split
  · rename_i approval hmap
    obtain rfl := asMapping_eq hmap
    rw [onMap_map, returns_bind_pure, returns_mapM]
    exact forall₂_congr fun entry _ => returns_approval_entry
  · rename_i hnone
    exact iff_of_true ⟨_, rfl⟩ (onMap_none hnone)

theorem returns_agent : Returns (validate_agent_manifest D raw) ↔ OnMap (AgentReturns D) raw := by
  unfold validate_agent_manifest
  split
  · rename_i mapping hmap
    obtain rfl := asMapping_eq hmap
    rw [onMap_map, returns_bind_and fun _ _ => returns_bind_pure, returns_contained_file, returns_approval]
    exact ⟨fun h => ⟨h.1, h.2⟩, fun h => ⟨h.instructions, h.approval⟩⟩
  · rename_i hnone
    exact iff_of_true ⟨_, rfl⟩ (onMap_none hnone)

theorem mem_of_lookup {key : String} (h : mapping.lookup key = some value) : (.str key, value) ∈ mapping := by
  induction mapping with
  | nil => cases h
  | cons entry rest ih =>
    obtain ⟨k, v⟩ := entry
    rw [Mapping.lookup.eq_def] at h
    split at h
    · rename_i heq
      cases heq
    · rename_i heq
      cases heq
      split at h
      · rename_i hkey
        cases h
        rw [hkey]
        exact .head _
      · exact List.mem_cons_of_mem _ (ih h)
    · rename_i heq
      cases heq
      exact List.mem_cons_of_mem _ (ih h)

theorem approval_nil (h : approval_issues value = .ok []) :
    IsMap (fun approval => ∀ key ∈ _RISK_VALUES, IsText (approval.get key)) value := by
  unfold approval_issues at h
  split at h
  · rename_i approval hmap
    obtain ⟨entries, hentries, h⟩ := bind_ok h
    obtain ⟨hmissing, hflat⟩ := List.append_eq_nil_iff.mp (Except.ok.inj h)
    refine ⟨approval, asMapping_eq hmap, fun key hkey => ?_⟩
    cases hl : approval.lookup key with
    | none =>
      have hmem : key ∈ _RISK_VALUES.filter fun key => (approval.lookup key).isNone :=
        List.mem_filter.mpr ⟨hkey, by simp [hl]⟩
      rw [issue_if_nil, Bool.not_eq_false', List.isEmpty_iff] at hmissing
      rw [hmissing] at hmem
      cases hmem
    | some entry =>
      obtain ⟨issues, hissues, hentry⟩ := forall₂_mem (mapM_ok.mp hentries) (mem_of_lookup hl)
      obtain rfl : issues = [] := List.flatten_eq_nil_iff.mp hflat issues hissues
      have hin : _RISK_VALUES.contains key = true := by simpa using hkey
      simp only [approval_entry, hin, if_true] at hentry
      obtain ⟨known, hknown, hentry⟩ := bind_ok hentry
      obtain rfl : known = true := by simpa using issue_if_nil.mp (Except.ok.inj hentry)
      obtain ⟨s, _, hs⟩ := Yaml.oneOf_true hknown
      exact ⟨s, by rw [Mapping.get, hl]; exact hs⟩
  · cases h

theorem limits_nil (h : limit_issues value = []) :
    IsMap (fun limits => ∀ key ∈ ["max_steps", "max_runtime_seconds"], IsInt (limits.get key)) value := by
  unfold limit_issues at h
  split at h
  · rename_i limits hmap
    refine ⟨limits, asMapping_eq hmap, fun key hkey => ?_⟩
    have hissue := List.flatMap_eq_nil_iff.mp h key hkey
    rw [issue_if_nil, Bool.not_eq_false'] at hissue
    cases hn : (limits.get key).asInt with
    | none =>
      rw [hn] at hissue
      cases hissue
    | some n => exact ⟨n, hn⟩
  · cases h

theorem allowed_nil {field_name : String} (h : allow_list_issues mapping field_name = []) :
    Absent (IsMap fun allowed => Absent IsTextList (allowed.get "allow")) (mapping.get field_name) := by
  unfold allow_list_issues at h
  split at h
  · rename_i hget
    exact .inl hget
  · rename_i allowed hget
    refine .inr ⟨allowed, hget, ?_⟩
    unfold _validate_list_of_strings at h
    split at h
    · rename_i hnull
      exact .inl hnull
    · rename_i items hitems
      refine .inr ⟨items, hitems, fun item hitem => ?_⟩
      have hnone := List.any_eq_false.mp (issue_if_nil.mp h) item hitem
      split at hnone
      · exact ⟨_, rfl⟩
      · cases hnone rfl
    · cases h
  · cases h

theorem agent_nil (h : validate_agent_manifest D raw = .ok []) : IsMap AgentFields raw := by
  unfold validate_agent_manifest at h
  split at h
  · rename_i mapping hmap
    obtain ⟨instructions, _, h⟩ := bind_ok h
    obtain ⟨approval, happroval, h⟩ := bind_ok h
    have h := Except.ok.inj h
    simp only [List.append_eq_nil_iff, List.flatMap_eq_nil_iff] at h
    obtain ⟨⟨⟨⟨⟨⟨htexts, _⟩, _⟩, hskills⟩, hmcp⟩, rfl⟩, hlimits⟩ := h
    refine ⟨mapping, asMapping_eq hmap, fun key hkey => required_nil (htexts key hkey), fun key hkey => ?_,
      approval_nil happroval, limits_nil hlimits⟩
    simp only [List.mem_cons, List.not_mem_nil, or_false] at hkey
    obtain rfl | rfl := hkey
    · exact allowed_nil hskills
    · exact allowed_nil hmcp
  · cases h

end Agents

section Servers

variable {R : Rendering} {value raw server_id : Yaml} {mapping : Mapping} {seen : List String}

theorem rendered_text (s : String) : Rendered R (.str s) := ⟨s, R.str_text s⟩

theorem returns_repr : Returns (R.repr value) ↔ Rendered R value := (R.agree value).symm

theorem returns_quoted {condition : Bool} {text : Except PyError String} {before after : String} :
    Returns (quoted condition text before after) ↔ (condition = true → Returns text) := by
  unfold quoted
  cases condition with
  | false => exact iff_of_true ⟨_, rfl⟩ fun h => nomatch h
  | true =>
    rw [if_pos rfl, returns_bind_pure]
    exact ⟨fun h _ => h, fun h => h rfl⟩

theorem quoted_nil {condition : Bool} {text : Except PyError String} {before after : String}
    (h : quoted condition text before after = .ok []) : condition = false := by
  unfold quoted at h
  cases condition with
  | false => rfl
  | true =>
    rw [if_pos rfl] at h
    obtain ⟨text, _, h⟩ := bind_ok h
    cases h

/-- An id that is no valid text is written first. -/
theorem returns_id : Returns (quoted (!isServerId server_id) (R.repr server_id) "server id " " is invalid") ↔
    Rendered R server_id := by
  rw [returns_quoted, returns_repr]
  refine ⟨fun h => ?_, fun h _ => h⟩
  cases server_id with
  | str s => exact rendered_text s
  | _ => exact h rfl

theorem oneOf_known {texts : List String} {known : Bool} (h : value.oneOf texts = .ok known) :
    known = true ↔ ∃ s ∈ texts, value = .str s := by
  constructor
  · rintro rfl
    exact Yaml.oneOf_true h
  · rintro ⟨s, hs, rfl⟩
    rw [← Except.ok.inj h]
    simpa using hs

theorem returns_tool_name (h : Rendered R server_id) : Returns (tool_name_issues R server_id value seen) := by
  have hquoted : Returns (quoted true (R.str server_id) "server " " has an invalid tool name") :=
    returns_quoted.mpr fun _ => h
  unfold tool_name_issues
  split
  · split
    · split <;> exact ⟨_, rfl⟩
    · exact returns_bind_pure.mpr hquoted
  · exact returns_bind_pure.mpr hquoted

theorem returns_tool (h : Rendered R server_id) : Returns (tool_issues R server_id seen value) ↔
    OnMap (ToolReturns R) value := by
  unfold tool_issues
  split
  · rename_i tool hmap
    obtain rfl := asMapping_eq hmap
    have hnamed : Returns (tool_name_issues R server_id (tool.get "name") seen) := returns_tool_name h
    rw [onMap_map, returns_bind_and (P := ToolReturns R tool) fun named _ => ?_]
    · exact and_iff_right hnamed
    rw [returns_bind_and (P := Unnamed tool ∨ Rendered R (tool.get "name")) fun known hknown => ?_, returns_oneOf]
    · exact ⟨fun h => ⟨h.1, h.2⟩, fun h => ⟨h.risk, h.name⟩⟩
    rw [returns_bind_and fun _ _ => returns_bind_and fun _ _ => returns_bind_pure, returns_quoted, returns_quoted,
      returns_quoted, returns_repr]
    constructor
    · rintro ⟨hrisk, hroles, hwrite⟩
      by_cases hname : Rendered R (tool.get "name")
      · exact .inr hname
      · refine .inl ⟨(oneOf_known hknown).mp ?_, isTextList_iff.mp ?_, isBool_iff.mp ?_⟩
        · simpa using fun hno => hname (hrisk hno)
        · simpa using fun hno => hname (hroles hno)
        · simpa using fun hno => hname (hwrite hno)
    · rintro (hunnamed | hname)
      · rw [(oneOf_known hknown).mpr hunnamed.risk, isTextList_iff.mpr hunnamed.allow_roles,
          isBool_iff.mpr hunnamed.external_write]
        simp
      · exact ⟨fun _ => hname, fun _ => hname, fun _ => hname⟩
  · rename_i hnone
    exact iff_of_true (returns_bind_pure.mpr (returns_quoted.mpr fun _ => h)) (onMap_none hnone)

/-- What is asked of the fields of a server once its id can be written. -/
theorem returns_server {server : Yaml × Yaml} : Returns (server_issues R seen server) ↔ ServerReturns R server := by
  unfold server_issues
  rw [returns_bind_and (P := OnMap (fun fields => Hashable (fields.get "transport")) server.2 ∧
    OnMap (fun fields => ∀ tools, fields.get "tools" = .list tools → ∀ tool ∈ tools, OnMap (ToolReturns R) tool) server.2)
    fun named hnamed => ?_, returns_id]
  · exact ⟨fun h => ⟨h.1, h.2.1, h.2.2⟩, fun h => ⟨h.server_id, h.transport, h.tools⟩⟩
  have hid : Rendered R server.1 := returns_id.mp ⟨_, hnamed⟩
  have hwritten : ∀ condition after, Returns (quoted condition (R.str server.1) "server " after) :=
    fun _ _ => returns_quoted.mpr fun _ => hid
  split
  · rename_i fields hmap
    rw [asMapping_eq hmap, onMap_map, onMap_map, returns_bind_and (P := ∀ tools, fields.get "tools" = .list tools →
      ∀ tool ∈ tools, OnMap (ToolReturns R) tool) fun known _ => ?_, returns_oneOf]
    rw [returns_bind_and fun _ _ => ?_]
    · exact and_iff_right (hwritten _ _)
    split
    · rename_i tool tools htools
      have hcollect := returns_collect (f := tool_issues R server.1) (P := OnMap (ToolReturns R)) (l := tool :: tools)
        (fun _ _ _ => returns_tool hid) seen
      rw [returns_bind_pure, hcollect]
      refine ⟨fun h tools' heq => ?_, fun h => h _ htools⟩
      rw [htools] at heq
      cases heq
      exact h
    · rename_i hother
      refine iff_of_true (returns_bind_pure.mpr (hwritten _ _)) fun tools heq tool htool => ?_
      cases tools with
      | nil => cases htool
      | cons first rest => exact (hother first rest heq).elim
  · rename_i hnone
    exact iff_of_true (returns_bind_pure.mpr (hwritten _ _)) ⟨onMap_none hnone, onMap_none hnone⟩

theorem returns_mcp : Returns (validate_mcp_config R raw) ↔ OnMap (McpReturns R) raw := by
  unfold validate_mcp_config
  split
  · rename_i mapping hmap
    obtain rfl := asMapping_eq hmap
    rw [onMap_map]
    split
    · rename_i server servers hservers
      rw [McpReturns, hservers, onMap_map, returns_bind_pure]
      exact returns_collect (f := server_issues R) (P := ServerReturns R) (fun _ _ _ => returns_server) []
    · rename_i hother
      refine iff_of_true ⟨_, rfl⟩ fun servers heq server hserver => ?_
      cases servers with
      | nil => cases hserver
      | cons first rest => exact (hother first rest heq).elim
  · rename_i hnone
    exact iff_of_true ⟨_, rfl⟩ (onMap_none hnone)

theorem tool_nil {seen' : List String} (h : tool_issues R server_id seen value = .ok ([], seen')) :
    IsMap ToolFields value := by
  unfold tool_issues at h
  split at h
  · rename_i tool hmap
    obtain ⟨⟨named, names⟩, hnamed, h⟩ := bind_ok h
    obtain ⟨known, hknown, h⟩ := bind_ok h
    obtain ⟨risk, hrisk, h⟩ := bind_ok h
    obtain ⟨roles, hroles, h⟩ := bind_ok h
    obtain ⟨write, hwrite, h⟩ := bind_ok h
    have hnil := (Prod.mk.inj (Except.ok.inj h)).1
    simp only [List.append_eq_nil_iff] at hnil
    obtain ⟨⟨⟨rfl, rfl⟩, rfl⟩, rfl⟩ := hnil
    obtain ⟨s, _, hs⟩ := (oneOf_known hknown).mp (by simpa using quoted_nil hrisk)
    refine ⟨tool, asMapping_eq hmap, ?_, ⟨s, hs⟩, isTextList_iff.mp (by simpa using quoted_nil hroles),
      isBool_iff.mp (by simpa using quoted_nil hwrite)⟩
    unfold tool_name_issues at hnamed
    split at hnamed
    · rename_i text hname
      exact ⟨text, hname⟩
    · obtain ⟨issues, hissues, hnamed⟩ := bind_ok hnamed
      obtain rfl := (Prod.mk.inj (Except.ok.inj hnamed)).1
      cases quoted_nil hissues
  · obtain ⟨issues, hissues, h⟩ := bind_ok h
    obtain rfl := (Prod.mk.inj (Except.ok.inj h)).1
    cases quoted_nil hissues

theorem server_nil {server : Yaml × Yaml} {seen' : List String} (h : server_issues R seen server = .ok ([], seen')) :
    IsText server.1 ∧ IsMap ServerFields server.2 := by
  unfold server_issues at h
  obtain ⟨named, hnamed, h⟩ := bind_ok h
  have hid : named = [] → IsText server.1 := by
    rintro rfl
    have hserver : isServerId server.1 = true := by simpa using quoted_nil hnamed
    unfold isServerId at hserver
    split at hserver
    · exact ⟨_, by assumption⟩
    · cases hserver
  split at h
  · rename_i fields hmap
    obtain ⟨known, hknown, h⟩ := bind_ok h
    obtain ⟨transport, htransport, h⟩ := bind_ok h
    split at h
    · rename_i tool tools htools
      obtain ⟨⟨declared, names⟩, hdeclared, h⟩ := bind_ok h
      have hnil := (Prod.mk.inj (Except.ok.inj h)).1
      simp only [List.append_eq_nil_iff] at hnil
      obtain ⟨⟨hnamed, rfl⟩, rfl⟩ := hnil
      obtain ⟨s, _, hs⟩ := (oneOf_known hknown).mp (by simpa using quoted_nil htransport)
      refine ⟨hid hnamed, fields, asMapping_eq hmap, ⟨s, hs⟩, tool :: tools, htools, fun tool htool => ?_⟩
      obtain ⟨_, _, htool⟩ := collect_nil hdeclared tool htool
      exact tool_nil htool
    · obtain ⟨issues, hissues, h⟩ := bind_ok h
      obtain rfl := (List.append_eq_nil_iff.mp (Prod.mk.inj (Except.ok.inj h)).1).2
      cases quoted_nil hissues
  · obtain ⟨issues, hissues, h⟩ := bind_ok h
    obtain rfl := (List.append_eq_nil_iff.mp (Prod.mk.inj (Except.ok.inj h)).1).2
    cases quoted_nil hissues

theorem mcp_nil (h : validate_mcp_config R raw = .ok []) : IsMap McpFields raw := by
  unfold validate_mcp_config at h
  split at h
  · rename_i mapping hmap
    refine ⟨mapping, asMapping_eq hmap, ?_⟩
    split at h
    · rename_i server servers hservers
      obtain ⟨⟨issues, names⟩, hcollect, h⟩ := bind_ok h
      obtain rfl : issues = [] := Except.ok.inj h
      refine ⟨server :: servers, hservers, fun server hserver => ?_⟩
      obtain ⟨_, _, hserver⟩ := collect_nil hcollect server hserver
      exact server_nil hserver
    · cases h
  · cases h

end Servers

section Schedules

variable {value raw : Yaml}

/-- The checks of a section ask one set for one of its values. -/
theorem returns_section {f : Mapping → Yaml} {g : Mapping → Bool → List String} {texts other : List String} :
    Returns (match value.asMapping with
      | some mapping => do
        let known ← (f mapping).oneOf texts
        return g mapping known
      | none => .ok other) ↔ OnMap (fun mapping => Hashable (f mapping)) value := by
  split
  · rename_i mapping hmap
    rw [asMapping_eq hmap, onMap_map]
    exact returns_bind_pure.trans returns_oneOf
  · rename_i hnone
    exact iff_of_true ⟨_, rfl⟩ (onMap_none hnone)

theorem returns_schedule_issues : Returns (schedule_issues value) ↔
    OnMap (fun schedule => Hashable (schedule.get "type")) value := returns_section

theorem returns_run_issues : Returns (run_issues value) ↔
    OnMap (fun run => Hashable ((run.lookup "mode").getD (.str "isolated"))) value := returns_section

theorem returns_permission_issues : Returns (permission_issues value) ↔
    OnMap (fun permissions => Hashable (permissions.get "mode")) value := returns_section

theorem returns_notify_issues : Returns (notify_issues value) ↔
    OnMap (fun notify => Hashable ((notify.lookup "only_if").getD (.str "finding_or_failure"))) value := returns_section

theorem returns_schedule : Returns (validate_schedule raw) ↔ OnMap ScheduleReturns raw := by
  unfold validate_schedule
  split
  · rename_i mapping hmap
    obtain rfl := asMapping_eq hmap
    rw [onMap_map, returns_bind_and fun _ _ => returns_bind_and fun _ _ => returns_bind_and fun _ _ => returns_bind_pure,
      returns_schedule_issues, returns_run_issues, returns_permission_issues, returns_notify_issues]
    exact ⟨fun ⟨htype, hrun, hmode, honly⟩ => ⟨htype, hrun, hmode, honly⟩,
      fun h => ⟨h.type, h.run_mode, h.mode, h.only_if⟩⟩
  · rename_i hnone
    exact iff_of_true ⟨_, rfl⟩ (onMap_none hnone)

theorem run_mode_nil (h : run_issues value = .ok []) :
    IsMap (fun run => IsText ((run.lookup "mode").getD (.str "isolated"))) value := by
  unfold run_issues at h
  split at h
  · rename_i run hmap
    obtain ⟨known, hknown, h⟩ := bind_ok h
    have h := Except.ok.inj h
    simp only [List.append_eq_nil_iff, issue_if_nil, Bool.not_eq_false'] at h
    obtain ⟨⟨⟨⟨_, rfl⟩, _⟩, _⟩, _⟩ := h
    obtain ⟨mode, _, hmode⟩ := Yaml.oneOf_true hknown
    exact ⟨run, asMapping_eq hmap, mode, hmode⟩
  · cases h

theorem schedule_nil (h : validate_schedule raw = .ok []) : IsMap ScheduleFields raw := by
  unfold validate_schedule at h
  split at h
  · rename_i mapping hmap
    obtain ⟨schedule_list, hschedule, h⟩ := bind_ok h
    obtain ⟨run_list, hrun, h⟩ := bind_ok h
    obtain ⟨permission_list, hpermissions, h⟩ := bind_ok h
    obtain ⟨notify_list, hnotify, h⟩ := bind_ok h
    have h := Except.ok.inj h
    simp only [List.append_eq_nil_iff, List.flatMap_eq_nil_iff] at h
    obtain ⟨⟨⟨⟨⟨htexts, _⟩, rfl⟩, rfl⟩, rfl⟩, rfl⟩ := h
    obtain ⟨schedule, schedule_type, timezone_name, hsget, htiming⟩ := schedule_issues_nil hschedule
    obtain ⟨run, hrget, hlimits⟩ := run_issues_nil hrun
    obtain ⟨run', hrget', hmode⟩ := run_mode_nil hrun
    obtain rfl : run = run' := Yaml.map.inj (hrget.symm.trans hrget')
    obtain ⟨permissions, mode, hpget, hpmode⟩ := permission_issues_nil hpermissions
    obtain ⟨notify, condition, hnget, hnotifies⟩ := notify_issues_nil hnotify
    refine ⟨mapping, asMapping_eq hmap, fun key hkey => required_nil (htexts key hkey), ⟨schedule, hsget, ?_⟩,
      ⟨run, hrget, ?_, hmode, hlimits.texts, hlimits.consent⟩, ⟨permissions, hpget, mode, hpmode⟩,
      ⟨notify, hnget, ?_, condition, hnotifies.only_if⟩⟩
    · refine ⟨⟨schedule_type, htiming.type⟩, fun hcron => ?_, fun hinterval => ?_, timezone_name, htiming.timezone⟩
      · have htype : schedule_type = "cron" := Yaml.str.inj (htiming.type.symm.trans hcron)
        obtain ⟨expression, hexpression, _⟩ := htiming.cron htype
        exact ⟨expression, hexpression⟩
      · have htype : schedule_type = "interval" := Yaml.str.inj (htiming.type.symm.trans hinterval)
        obtain ⟨n, hn, _⟩ := htiming.interval htype
        exact ⟨n, hn⟩
    · intro key hkey
      obtain ⟨n, hn, _⟩ := hlimits.numbers key hkey
      exact ⟨n, hn⟩
    · exact hnotifies.channel.imp_right fun ⟨s, hs, _⟩ => ⟨s, hs⟩
  · cases h

end Schedules

section Plugins

open EnterpriseCopilot.Plugin (_contained_file_or_directory directory_issues file_issues)

variable {R : Rendering} {S : Sources} {L : Plugin.Library} {root : Path} {t : Tree} {mapping : Payload} {value : Json}
  {field_name : String}

theorem returns_file_issues {validate : Path → Plugin.Entry → Except PyError (List String)}
    {files : List (Path × Plugin.Entry)} : Returns (file_issues validate root files) ↔
      ∀ x ∈ files, Returns (validate (root ++ x.1) x.2) := by
  rw [file_issues, returns_bind_pure, returns_mapM]
  exact forall₂_congr fun x _ => returns_bind_pure

/-- A path that is followed is refused for a null byte, or resolved. -/
theorem contained_followed {text : String} (h : Followed text) :
    _contained_file_or_directory L t (.str text) field_name =
      if '\x00' ∈ text.toList then .error (.valueError "embedded null byte")
      else do
        match ← follow L.resolve t (path_parts text) with
        | .outside => return .error (field_name ++ " escapes plugin directory")
        | .missing => return .error (field_name ++ " does not exist")
        | .inside place => return .ok place := by
  obtain ⟨hblank, hrelative, hbelow⟩ := h
  rw [_contained_file_or_directory]
  exact (if_neg (by simp [hblank])).trans (if_neg (by simp [hrelative, hbelow]))

theorem contained_other {text : String} (h : ¬ Followed text) :
    ∃ issue, _contained_file_or_directory L t (.str text) field_name = .ok (.error issue) := by
  rw [_contained_file_or_directory]
  by_cases hblank : isBlank text = true
  · exact ⟨_, if_pos hblank⟩
  · rw [if_neg hblank]
    have hout : text.toList.head? = some '/' ∨ ".." ∈ path_parts text := by
      by_contra hin
      exact h ⟨by simpa using hblank, (not_or.mp hin).1, (not_or.mp hin).2⟩
    exact ⟨_, if_pos hout⟩

/-- What is asked of a field that names a directory, by the text that it has. -/
theorem returns_named {text : String} {inside : Path → Except PyError (List String)}
    (hvalue : mapping.get field_name = .str text) : Returns (directory_issues L t mapping field_name inside) ↔
      (Followed text → '\x00' ∉ text.toList ∧ Returns (follow L.resolve t (path_parts text))) ∧
      Within L.resolve t (fun place => Returns (inside place)) (.str text) := by
  unfold directory_issues
  rw [hvalue]
  dsimp only
  by_cases hfollowed : Followed text
  swap
  · obtain ⟨issue, hissue⟩ : ∃ issue, _contained_file_or_directory L t (.str text) field_name = .ok (.error issue) :=
      contained_other hfollowed
    rw [hissue]
    refine iff_of_true ⟨_, rfl⟩ ⟨fun h => (hfollowed h).elim, fun text' place heq h => ?_⟩
    obtain rfl := Json.str.inj heq
    exact (hfollowed h).elim
  rw [contained_followed hfollowed]
  by_cases hnul : '\x00' ∈ text.toList
  · rw [if_pos hnul]
    exact iff_of_false (not_returns_error _) fun h => (h.1 hfollowed).1 hnul
  rw [if_neg hnul]
  have hsame : Within L.resolve t (fun place => Returns (inside place)) (.str text) ↔
      ∀ place, follow L.resolve t (path_parts text) = .ok (.inside place) → t.at? place = some .dir →
        Returns (inside place) := by
    refine ⟨fun h place => h text place rfl hfollowed, fun h text' place heq _ => ?_⟩
    obtain rfl := Json.str.inj heq
    exact h place
  rw [hsame]
  cases hfound : follow L.resolve t (path_parts text) with
  | error e => exact iff_of_false (not_returns_error _) fun h => not_returns_error _ (h.1 hfollowed).2
  | ok found =>
    rw [and_iff_right fun _ => ⟨hnul, ⟨_, rfl⟩⟩]
    cases found with
    | outside => exact iff_of_true ⟨_, rfl⟩ fun _ heq => by cases heq
    | missing => exact iff_of_true ⟨_, rfl⟩ fun _ heq => by cases heq
    | inside place =>
      change Returns (if t.at? place = some .dir then inside place else _) ↔ _
      by_cases hdir : t.at? place = some .dir
      · rw [if_pos hdir]
        refine ⟨fun h place' heq _ => ?_, fun h => h place rfl hdir⟩
        cases heq
        exact h
      · rw [if_neg hdir]
        refine iff_of_true ⟨_, rfl⟩ fun place' heq hdir' => ?_
        cases heq
        exact (hdir hdir').elim

theorem returns_directory_issues {inside : Path → Except PyError (List String)} :
    Returns (directory_issues L t mapping field_name inside) ↔
      (∀ text, mapping.get field_name = .str text → Followed text →
        '\x00' ∉ text.toList ∧ Returns (follow L.resolve t (path_parts text))) ∧
      Within L.resolve t (fun place => Returns (inside place)) (mapping.get field_name) := by
  cases hvalue : mapping.get field_name with
  | str text =>
    refine (returns_named hvalue).trans (and_congr_left fun _ => ⟨fun h text' heq => ?_, fun h => h text rfl⟩)
    obtain rfl := Json.str.inj heq
    exact h
  | _ =>
    unfold directory_issues
    rw [hvalue]
    exact iff_of_true ⟨_, rfl⟩ ⟨fun _ h => Json.noConfusion h, fun _ _ h => Json.noConfusion h⟩

/-- A file that is read is checked. -/
theorem returns_read {α : Type} {read : Except PyError (Except String α)} {P : α → Prop}
    {f : Except String α → Except PyError (List String)} (herror : ∀ exc, Returns (f (.error exc)))
    (hok : ∀ value, Returns (f (.ok value)) ↔ P value) : Returns (read >>= f) ↔ Loads P read := by
  unfold Loads
  cases read with
  | error e => exact iff_of_false (not_returns_error _) fun h => not_returns_error _ h.1
  | ok found =>
    rw [ok_bind, and_iff_right ⟨_, rfl⟩]
    cases found with
    | error exc => exact iff_of_true (herror exc) fun _ h => nomatch h
    | ok value =>
      rw [hok]
      refine ⟨fun h value' heq => ?_, fun h => h value rfl⟩
      cases heq
      exact h

theorem returns_report {read : Except PyError (Except String Yaml)} {validate : Yaml → Except PyError (List String)}
    {P : Yaml → Prop} (h : ∀ raw, Returns (validate raw) ↔ P raw) : Returns (report read validate) ↔ Loads P read :=
  returns_read (fun _ => ⟨_, rfl⟩) h

theorem returns_skill {read : Except PyError (Except String String)} :
    Returns (validate_skill S.safe_load read) ↔ Loads (SkillReturns S) read := by
  refine returns_read (fun _ => ⟨_, rfl⟩) fun text => ?_
  unfold SkillReturns
  dsimp only
  cases hsplit : split_skill text with
  | error issue => exact iff_of_true ⟨_, rfl⟩ fun _ _ h => nomatch h
  | ok parts =>
    obtain ⟨frontmatter, body⟩ := parts
    dsimp only
    rw [returns_bind_and (P := True) fun found _ => iff_of_true ?_ trivial, and_true]
    · refine ⟨fun h frontmatter' body' heq => ?_, fun h => h frontmatter body rfl⟩
      cases heq
      exact h
    · cases found <;> exact ⟨_, rfl⟩

/-- The manifest of a plugin directory. -/
def manifest (S : Sources) (root : Path) (t : Tree) : Except PyError (Except String Json) :=
  S.read_json (root ++ manifest_path) (t.at? manifest_path)

theorem validate_plugin_eq (h : manifest S root t = .ok (.ok (.obj mapping))) :
    validate_plugin (S.library R) root t = (do
    let skills ← directory_issues (S.library R) t mapping "skills" fun target =>
      file_issues (S.library R).validate_skill root (skill_files t target)
    let mcp ← directory_issues (S.library R) t mapping "mcp" fun target =>
      file_issues (S.library R).validate_mcp_config root (mcp_files t target)
    return ["name", "version", "description", "publisher"].flatMap
        (fun field_name => Plugin._require_string mapping field_name 200) ++
      Plugin.name_issues mapping ++ Plugin.version_issues mapping ++ skills ++ mcp ++ Plugin.permission_issues mapping ++
      Plugin.dependency_issues mapping) := by
  have hread : (S.library R).read_json (root ++ manifest_path) (t.at? manifest_path) = .ok (.ok (.obj mapping)) := h
  rw [validate_plugin, hread]
  rfl

/-- Any other manifest that is read is reported. -/
theorem validate_plugin_other {found : Except String Json} (hread : manifest S root t = .ok found)
    (h : ∀ mapping, found ≠ .ok (.obj mapping)) : ∃ issue, validate_plugin (S.library R) root t = .ok [issue] := by
  have hread : (S.library R).read_json (root ++ manifest_path) (t.at? manifest_path) = .ok found := hread
  rw [validate_plugin, hread, ok_bind]
  cases found with
  | error exc => exact ⟨_, rfl⟩
  | ok value =>
    cases value with
    | obj mapping => exact (h mapping rfl).elim
    | _ => exact ⟨_, rfl⟩

/-- What is asked of the value of a manifest. -/
def ManifestReturns (R : Rendering) (S : Sources) (root : Path) (t : Tree) (raw : Json) : Prop :=
  ∀ mapping, raw = .obj mapping → PluginReturns R S root t mapping

theorem returns_fields (h : manifest S root t = .ok (.ok (.obj mapping))) :
    Returns (validate_plugin (S.library R) root t) ↔ PluginReturns R S root t mapping := by
  have hskills : ∀ target, Returns (file_issues (S.library R).validate_skill root (skill_files t target)) ↔
      ∀ x ∈ skill_files t target, Loads (SkillReturns S) (S.read_text (root ++ x.1) x.2) :=
    fun target => returns_file_issues.trans (forall₂_congr fun x _ => returns_skill)
  have hconfigs : ∀ target, Returns (file_issues (S.library R).validate_mcp_config root (mcp_files t target)) ↔
      ∀ x ∈ mcp_files t target, Loads (OnMap (McpReturns R)) (S.read_yaml (root ++ x.1) x.2) :=
    fun target => returns_file_issues.trans (forall₂_congr fun x _ => returns_report fun _ => returns_mcp)
  rw [validate_plugin_eq h, returns_bind_and fun _ _ => returns_bind_pure, returns_directory_issues,
    returns_directory_issues]
  simp only [hskills, hconfigs]
  constructor
  · rintro ⟨⟨hskillpath, hskill⟩, hmcppath, hmcp⟩
    refine ⟨fun key hkey => ?_, hskill, hmcp⟩
    simp only [List.mem_cons, List.not_mem_nil, or_false] at hkey
    obtain rfl | rfl := hkey
    · exact hskillpath
    · exact hmcppath
  · rintro ⟨hpaths, hskill, hmcp⟩
    exact ⟨⟨hpaths "skills" (by simp), hskill⟩, hpaths "mcp" (by simp), hmcp⟩

theorem returns_plugin : Returns (validate_plugin (S.library R) root t) ↔
    Loads (ManifestReturns R S root t) (manifest S root t) := by
  unfold Loads
  cases hread : manifest S root t with
  | error e =>
    have hread : (S.library R).read_json (root ++ manifest_path) (t.at? manifest_path) = .error e := hread
    rw [validate_plugin, hread]
    exact iff_of_false (not_returns_error _) fun h => not_returns_error _ h.1
  | ok found =>
    rw [and_iff_right ⟨_, rfl⟩]
    by_cases hobj : ∃ mapping, found = .ok (.obj mapping)
    · obtain ⟨mapping, rfl⟩ := hobj
      rw [returns_fields hread]
      refine ⟨?_, fun h => h _ rfl mapping rfl⟩
      rintro h raw heq mapping' rfl
      cases heq
      exact h
    · obtain ⟨issue, hissue⟩ := validate_plugin_other (R := R) hread fun mapping hm => hobj ⟨mapping, hm⟩
      rw [hissue]
      refine iff_of_true ⟨_, rfl⟩ ?_
      rintro raw heq mapping rfl
      exact (hobj ⟨mapping, Except.ok.inj heq⟩).elim

theorem stringList_of {value : Json} (h : Plugin.isStringList value = true) : IsJsonTextList value := by
  unfold Plugin.isStringList at h
  split at h
  · rename_i items
    refine ⟨items, rfl, fun item hitem => ?_⟩
    have htext := List.all_eq_true.mp h item hitem
    split at htext
    · exact ⟨_, rfl⟩
    · cases htext
  · cases h

theorem directory_nil {inside : Path → Except PyError (List String)}
    (h : directory_issues L t mapping field_name inside = .ok []) :
    mapping.get field_name = .null ∨ IsJsonText (mapping.get field_name) := by
  unfold directory_issues at h
  split at h
  · rename_i hnull
    exact .inl hnull
  · obtain ⟨found, hfound, h⟩ := bind_ok h
    cases hvalue : mapping.get field_name with
    | str text => exact .inr ⟨text, rfl⟩
    | _ =>
      rw [hvalue] at hfound
      cases hfound
      cases h

theorem plugin_nil (h : validate_plugin (S.library R) root t = .ok []) :
    ∃ mapping, manifest S root t = .ok (.ok (.obj mapping)) ∧ PluginFields mapping := by
  by_cases hobj : ∃ mapping, manifest S root t = .ok (.ok (.obj mapping))
  · obtain ⟨mapping, hm⟩ := hobj
    rw [validate_plugin_eq hm] at h
    obtain ⟨skills, hskills, h⟩ := bind_ok h
    obtain ⟨mcp, hmcp, h⟩ := bind_ok h
    have h := Except.ok.inj h
    simp only [List.append_eq_nil_iff, List.flatMap_eq_nil_iff] at h
    obtain ⟨⟨⟨⟨⟨⟨htexts, _⟩, _⟩, rfl⟩, rfl⟩, hpermissions⟩, hdependencies⟩ := h
    refine ⟨mapping, hm, fun key hkey => ?_, fun key hkey => ?_, ?_, ?_⟩
    · have hissue := htexts key hkey
      unfold Plugin._require_string at hissue
      split at hissue
      · rename_i text hget
        exact ⟨text, hget⟩
      · cases hissue
    · simp only [List.mem_cons, List.not_mem_nil, or_false] at hkey
      obtain rfl | rfl := hkey
      · exact directory_nil hskills
      · exact directory_nil hmcp
    · unfold Plugin.permission_issues at hpermissions
      split at hpermissions
      · rename_i permissions hget
        refine ⟨permissions, hget, fun key hkey => stringList_of ?_⟩
        by_contra hno
        have hissue := List.flatMap_eq_nil_iff.mp hpermissions key hkey
        rw [if_neg hno] at hissue
        cases hissue
      · cases hpermissions
    · refine stringList_of ?_
      by_contra hno
      rw [Plugin.dependency_issues, if_neg hno] at hdependencies
      cases hdependencies
  · have hread := h
    rw [validate_plugin] at hread
    obtain ⟨found, hfound, _⟩ := bind_ok hread
    obtain ⟨issue, hissue⟩ := validate_plugin_other (R := R) (S := S) hfound fun mapping hm =>
      hobj ⟨mapping, hfound.trans (congrArg Except.ok hm)⟩
    rw [hissue] at h
    cases h

end Plugins

section Repositories

variable {R : Rendering} {S : Sources}

/-- A check returns, and reports an issue unless the document has the types. -/
def Reports (check : Except PyError (List String)) (typed : Prop) : Prop :=
  ∃ issues, check = .ok issues ∧ (¬ typed → issues ≠ [])

theorem reports_iff {check : Except PyError (List String)} {typed : Prop} (h : check = .ok [] → typed) :
    Reports check typed ↔ Returns check := by
  constructor
  · rintro ⟨issues, hissues, _⟩
    exact ⟨issues, hissues⟩
  · rintro ⟨issues, hissues⟩
    refine ⟨issues, hissues, fun hno hnil => hno (h ?_)⟩
    rw [hissues, hnil]

theorem report_nil {read : Except PyError (Except String Yaml)} {validate : Yaml → Except PyError (List String)}
    {P : Mapping → Prop} (hnil : ∀ {raw}, validate raw = .ok [] → IsMap P raw) (h : report read validate = .ok []) :
    ∃ raw, read = .ok (.ok raw) ∧ IsMap P raw := by
  unfold report at h
  obtain ⟨found, rfl, h⟩ := bind_ok h
  cases found with
  | error exc => cases h
  | ok raw => exact ⟨raw, rfl, hnil h⟩

/-- The documents of a repository whose checks return. -/
structure RepositoryReturns (R : Rendering) (S : Sources) (repository : Repository) : Prop where
  agents : ∀ x ∈ repository.agents, Loads (OnMap (AgentReturns x.1)) x.2
  skills : ∀ read ∈ repository.skills, Loads (SkillReturns S) read
  mcp_config : ∀ read ∈ repository.mcp_config, Loads (OnMap (McpReturns R)) read
  schedules : ∀ read ∈ repository.schedules, Loads (OnMap ScheduleReturns) read
  plugins : ∀ x ∈ repository.plugins, Loads (ManifestReturns R S x.1 x.2) (manifest S x.1 x.2)

theorem returns_repository {repository : Repository} :
    Returns (validate_repository S R repository) ↔ RepositoryReturns R S repository := by
  rw [validate_repository, returns_bind_and fun _ _ => returns_bind_and fun _ _ => returns_bind_and fun _ _ =>
    returns_bind_and fun _ _ => returns_bind_pure, returns_mapM, returns_mapM, returns_mapM, returns_mapM, returns_mapM]
  have hagent : ∀ x : Directory × _, Returns (report x.2 (validate_agent_manifest x.1)) ↔ Loads (OnMap (AgentReturns x.1)) x.2 :=
    fun _ => returns_report fun _ => returns_agent
  have hmcp : ∀ read, Returns (report read (validate_mcp_config R)) ↔ Loads (OnMap (McpReturns R)) read :=
    fun _ => returns_report fun _ => returns_mcp
  have hschedule : ∀ read, Returns (report read validate_schedule) ↔ Loads (OnMap ScheduleReturns) read :=
    fun _ => returns_report fun _ => returns_schedule
  simp only [hagent, hmcp, hschedule, returns_skill, returns_plugin, Option.mem_toList]
  exact ⟨fun ⟨h₁, h₂, h₃, h₄, h₅⟩ => ⟨h₁, h₂, h₃, h₄, h₅⟩, fun h => ⟨h.agents, h.skills, h.mcp_config, h.schedules, h.plugins⟩⟩

/-- The four checks return a report, with an issue for a wrong type, if and only if the files are read or
reported, no set is asked for a list or a mapping, no path is refused by the system, and what an issue quotes
can be written; and so does the check of a repository. -/
theorem validators_report_iff (R : Rendering) :
    (∀ (D : Directory) (read : Except PyError (Except String Yaml)), Reports (report read (validate_agent_manifest D))
        (∃ raw, read = .ok (.ok raw) ∧ IsMap AgentFields raw) ↔ Loads (OnMap (AgentReturns D)) read) ∧
    (∀ read : Except PyError (Except String Yaml), Reports (report read (validate_mcp_config R))
        (∃ raw, read = .ok (.ok raw) ∧ IsMap McpFields raw) ↔ Loads (OnMap (McpReturns R)) read) ∧
    (∀ read : Except PyError (Except String Yaml), Reports (report read validate_schedule)
        (∃ raw, read = .ok (.ok raw) ∧ IsMap ScheduleFields raw) ↔ Loads (OnMap ScheduleReturns) read) ∧
    (∀ (S : Sources) (root : Path) (t : Tree), Reports (validate_plugin (S.library R) root t)
        (∃ mapping, manifest S root t = .ok (.ok (.obj mapping)) ∧ PluginFields mapping) ↔
      Loads (ManifestReturns R S root t) (manifest S root t)) ∧
    ∀ (S : Sources) (repository : Repository),
      (∃ reports, validate_repository S R repository = .ok reports) ↔ RepositoryReturns R S repository :=
  ⟨fun _ _ => (reports_iff (report_nil agent_nil)).trans (returns_report fun _ => returns_agent),
    fun _ => (reports_iff (report_nil mcp_nil)).trans (returns_report fun _ => returns_mcp),
    fun _ => (reports_iff (report_nil schedule_nil)).trans (returns_report fun _ => returns_schedule),
    fun _ _ _ => (reports_iff plugin_nil).trans returns_plugin, fun _ _ => returns_repository⟩

/-- A directory where every path leads to a file. -/
def everyFile : Directory := ⟨fun _ => .ok .file⟩

/-- A manifest whose `approval.read` is a list. -/
def listManifest : Yaml := .map [
  (.str "id", .str "support"), (.str "version", .str "1.0.0"), (.str "name", .str "Support"),
  (.str "description", .str "Answers customers."), (.str "instructions", .str "instructions.md"),
  (.str "approval", .map [(.str "read", .list [.str "auto"]), (.str "write", .str "required"),
    (.str "external_send", .str "required"), (.str "destructive", .str "deny")]),
  (.str "limits", .map [(.str "max_steps", .int 8), (.str "max_runtime_seconds", .int 60)])]

/-- Membership in a set raises for the list. -/
theorem list_manifest_raises :
    report (.ok (.ok listManifest)) (validate_agent_manifest everyFile) = .error (.typeError "unhashable type: \'list\'") ∧
      ¬ Reports (report (.ok (.ok listManifest)) (validate_agent_manifest everyFile))
        (∃ raw, (.ok (.ok listManifest) : Except PyError (Except String Yaml)) = .ok (.ok raw) ∧ IsMap AgentFields raw) := by
  have hraises : report (.ok (.ok listManifest)) (validate_agent_manifest everyFile) =
      .error (.typeError "unhashable type: \'list\'") := by
    rfl
  refine ⟨hraises, ?_⟩
  rintro ⟨issues, hissues, _⟩
  rw [hraises] at hissues
  cases hissues

end Repositories

end EnterpriseCopilot.Contracts
