import EnterpriseCopilot.Audit.Log
import EnterpriseCopilot.Lib.Lockstep

/-! Upgrades of event tables from before the tenant column. -/

namespace EnterpriseCopilot.Audit

open EnterpriseCopilot.Lib EnterpriseCopilot.Python EnterpriseCopilot.Runtime

/-- How Python, SQLite and PostgreSQL read the text of a payload.  `members` are those of an object in
the order of the text, in which a key may come more than once; `render` is the text that `->>` gives
for a value other than a string. -/
structure Engines extends Codec where
  members : String → Option Payload
  sqlite : String → Except PyError Json
  jsonb : String → Except PyError Json
  render : Json → String

/-- The columns and rows of `run_events`. -/
structure EventTable where
  tenant_column : Bool
  rows : List EventRow

/-- A table from before the column: what the column holds is not there. -/
def EventRow.clear (row : EventRow) : EventRow := { row with tenant_id := none }

def legacy (rows : List EventRow) : EventTable := ⟨false, rows.map EventRow.clear⟩

/-- SQLite's `trim`, which removes spaces only. -/
def trim (text : String) : String :=
  String.ofList ((text.toList.dropWhile (· == ' ')).reverse.dropWhile (· == ' ')).reverse

/-- `UPDATE run_events SET tenant_id = … WHERE tenant_id IS NULL`. -/
def fill (column : String → Except PyError (Option String)) (row : EventRow) : Except PyError EventRow :=
  match row.tenant_id with
  | some _ => .ok row
  | none => do return { row with tenant_id := ← column row.payload_json }

section Columns

variable (E : Engines)

/-- `json_extract(payload_json, '$.tenant_id')` where its `json_type` is text and `trim` leaves
something. -/
def sql_column (text : String) : Except PyError (Option String) := do
  match ← E.sqlite text with
  | .obj payload =>
    match Payload.get payload "tenant_id" with
    | .str s => return if (trim s).isEmpty then none else some s
    | _ => return none
  | _ => return none

/-- A statement over all rows: either every row is updated or none is. -/
def update (rule : EventRow → Except PyError EventRow) (t : EventTable) : Except PyError Unit × EventTable :=
  match t.rows.mapM rule with
  | .ok rows => (.ok (), { t with rows })
  | .error e => (.error e, t)

/-- The SQLite script: without `IF NOT EXISTS`, a second `ADD COLUMN` raises. -/
def migration_005 (t : EventTable) : Except PyError Unit × EventTable :=
  if t.tenant_column then (.error (.exception "OperationalError"), t)
  else update (fill (sql_column E)) { t with tenant_column := true }

/-- `SqliteAuditStore._ensure_tenant_column`. -/
def _ensure_tenant_column (t : EventTable) : Except PyError Unit × EventTable :=
  update (backfill E.toCodec E.render .sqlite) { t with tenant_column := true }

/-- `_ensure_audit_tenant_scope` of the script is the same code. -/
def _ensure_audit_tenant_scope (t : EventTable) : Except PyError Unit × EventTable :=
  _ensure_tenant_column E t

/-- What `scripts/migrate.py` does to the table. -/
def migrate_main (t : EventTable) : Except PyError Unit × EventTable :=
  if t.tenant_column then _ensure_audit_tenant_scope E t
  else
    match migration_005 E t with
    | (.error e, u) => (.error e, u)
    | (.ok (), u) => _ensure_audit_tenant_scope E u

/-- The PostgreSQL migration, and `PostgresAuditStore._initialize`: one transaction. -/
def postgres_005 (t : EventTable) : Except PyError Unit × EventTable :=
  match update (backfill { E.toCodec with loads := E.jsonb } E.render .postgres)
      { t with tenant_column := true } with
  | (.error e, _) => (.error e, t)
  | (.ok (), u) => (.ok (), u)

end Columns

inductive Upgrade
  | sqlite_migration | sqlite_script | sqlite_start_up | postgres_migration | postgres_start_up

def Upgrade.backend : Upgrade → Backend
  | .sqlite_migration | .sqlite_script | .sqlite_start_up => .sqlite
  | .postgres_migration | .postgres_start_up => .postgres

def Upgrade.run (E : Engines) : Upgrade → EventTable → Except PyError Unit × EventTable
  | .sqlite_migration => migration_005 E
  | .sqlite_script => migrate_main E
  | .sqlite_start_up => _ensure_tenant_column E
  | .postgres_migration | .postgres_start_up => postgres_005 E

/-- What `append` writes into the column for the event of the row. -/
def EventRow.tenant (codec : Codec) (row : EventRow) : Option String :=
  match row.event codec with
  | .ok e => e.tenant_id
  | .error _ => none

def EventRow.upgraded (codec : Codec) (row : EventRow) : EventRow :=
  { row with tenant_id := row.tenant codec }

/-- The upgrade derives the tenant column, and no upgrade of the database changes it again. -/
structure Upgraded (E : Engines) (path : Upgrade) (rows : List EventRow) : Prop where
  returns : (path.run E (legacy rows)).1 = .ok ()
  derives : (path.run E (legacy rows)).2 = ⟨true, rows.map (EventRow.upgraded E.toCodec)⟩
  again : ∀ path' : Upgrade, path'.backend = path.backend →
    (path'.run E (path.run E (legacy rows)).2).2 = (path.run E (legacy rows)).2

/-- The value of the last member with the key. -/
def last (members : Payload) (key : String) : Json := Payload.get members.reverse key

/-- The payload is a JSON object, and each engine that accepts its text reads the tenant in it: SQLite the
first member with the name, Python and PostgreSQL the last. -/
structure Object (E : Engines) (row : EventRow) (members : Payload) : Prop where
  text : E.members row.payload_json = some members
  loads : ∃ p, E.loads row.payload_json = .ok (.obj p) ∧ Payload.get p "tenant_id" = last members "tenant_id"
  sqlite : ∃ p, E.sqlite row.payload_json = .ok (.obj p) ∧ Payload.get p "tenant_id" = members.get "tenant_id"
  jsonb : ∀ value, E.jsonb row.payload_json = .ok value →
    ∃ p, value = .obj p ∧ Payload.get p "tenant_id" = last members "tenant_id"

/-- No tenant, or a text that is not blank, whichever member with the name is read. -/
def Plain (members : Payload) : Prop :=
  (last members "tenant_id" = .null ∧ ∀ s, members.get "tenant_id" = .str s → (trim s).isEmpty = true) ∨
    ∃ s, last members "tenant_id" = .str s ∧ isBlank s = false ∧ members.get "tenant_id" = .str s

section Rows

variable {E : Engines} {row : EventRow} {members : Payload} {rows : List EventRow}
  {column : String → Except PyError (Option String)}

/-- The tenant that a value in the payload stands for. -/
def tenant_of : Json → Option String
  | .str s => if isBlank s then none else some s
  | _ => none

theorem tenant_eq (h : Object E row members) : row.tenant E.toCodec = tenant_of (last members "tenant_id") := by
  obtain ⟨p, hloads, hget⟩ := h.loads
  unfold EventRow.tenant EventRow.event
  rw [hloads, ← hget]
  rfl

theorem fill_clear : fill column row.clear =
    (column row.payload_json).map fun t => { row with tenant_id := t } := by
  unfold fill EventRow.clear
  cases column row.payload_json <;> rfl

/-- A row that has its tenant, or whose column stays empty, is left alone. -/
theorem fill_upgraded {codec : Codec} (h : row.tenant codec = none → column row.payload_json = .ok none) :
    fill column (row.upgraded codec) = .ok (row.upgraded codec) := by
  unfold fill EventRow.upgraded
  dsimp only
  cases ht : row.tenant codec with
  | some t => rfl
  | none =>
    rw [h ht]
    rfl

/-- What the Python back-fill makes of a payload. -/
def python_column (E : Engines) (text : String) : Except PyError (Option String) :=
  match E.loads text with
  | .ok (.obj payload) => .ok (tenant_of (Payload.get payload "tenant_id"))
  | _ => .ok none

/-- What `->>` makes of a payload. -/
def jsonb_column (E : Engines) (text : String) : Except PyError (Option String) :=
  match E.jsonb text with
  | .ok (.obj payload) => .ok (arrow E.render payload)
  | .ok _ => .ok none
  | .error _ => .error (.exception "InvalidTextRepresentation")

theorem backfill_sqlite : backfill E.toCodec E.render .sqlite = fill (python_column E) := by
  funext row
  unfold backfill fill python_column
  cases row with
  | mk _ _ _ _ _ tenant =>
    cases tenant with
    | some _ => rfl
    | none =>
      dsimp only
      cases E.loads _ with
      | error e => rfl
      | ok value =>
        cases value with
        | obj payload =>
          dsimp only
          cases Payload.get payload "tenant_id" with
          | str s => cases hblank : isBlank s <;> simp [tenant_of, hblank]
          | _ => rfl
        | _ => rfl

theorem backfill_postgres :
    backfill { E.toCodec with loads := E.jsonb } E.render .postgres = fill (jsonb_column E) := by
  funext row
  unfold backfill fill jsonb_column
  cases row with
  | mk _ _ _ _ _ tenant =>
    cases tenant with
    | some _ => rfl
    | none =>
      dsimp only
      cases E.jsonb _ with
      | error e => rfl
      | ok value => cases value <;> rfl

/-- The statement upgrades a table exactly when it derives every tenant. -/
theorem update_clear {codec : Codec} :
    update (fill column) ⟨true, rows.map EventRow.clear⟩ = (.ok (), ⟨true, rows.map (EventRow.upgraded codec)⟩) ↔
      ∀ row ∈ rows, column row.payload_json = .ok (row.tenant codec) := by
  have hrow : ∀ row : EventRow, fill column row.clear = .ok (row.upgraded codec) ↔
      column row.payload_json = .ok (row.tenant codec) := by
    intro row
    rw [fill_clear]
    cases column row.payload_json with
    | error e => exact ⟨fun h => (by cases h), fun h => (by cases h)⟩
    | ok t =>
      constructor
      · intro h
        exact congrArg Except.ok (congrArg EventRow.tenant_id (Except.ok.inj h))
      · intro h
        rw [Except.ok.inj h]
        rfl
  have hmap : (rows.map EventRow.clear).mapM (fill column) = .ok (rows.map (EventRow.upgraded codec)) ↔
      ∀ row ∈ rows, column row.payload_json = .ok (row.tenant codec) := by
    rw [mapM_ok, List.forall₂_map_left_iff, List.forall₂_map_right_iff, List.forall₂_same]
    exact forall₂_congr fun row _ => hrow row
  rw [← hmap]
  unfold update
  constructor
  · intro h
    cases hm : (rows.map EventRow.clear).mapM (fill column) with
    | error e =>
      rw [hm] at h
      cases h
    | ok rows' =>
      rw [hm] at h
      exact congrArg Except.ok (congrArg EventTable.rows (Prod.mk.inj h).2)
  · intro h
    rw [h]

/-- A statement over upgraded rows. -/
theorem update_upgraded {codec : Codec}
    (h : ∀ row ∈ rows, row.tenant codec = none → column row.payload_json = .ok none) :
    update (fill column) ⟨true, rows.map (EventRow.upgraded codec)⟩ =
      (.ok (), ⟨true, rows.map (EventRow.upgraded codec)⟩) := by
  have hmap : (rows.map (EventRow.upgraded codec)).mapM (fill column) =
      .ok (rows.map (EventRow.upgraded codec)) := by
    rw [mapM_ok, List.forall₂_map_left_iff, List.forall₂_map_right_iff, List.forall₂_same]
    exact fun row hrow => fill_upgraded (h row hrow)
  unfold update
  rw [hmap]

theorem python_column_eq (h : Object E row members) :
    python_column E row.payload_json = .ok (row.tenant E.toCodec) := by
  obtain ⟨p, hloads, hget⟩ := h.loads
  rw [python_column, hloads, tenant_eq h, ← hget]

/-- White space is all that `trim` leaves nothing of. -/
theorem isBlank_of_trim {text : String} (h : (trim text).isEmpty = true) : isBlank text = true := by
  have hdrop : ∀ {l : List Char}, (l.dropWhile (· == ' ')).all isSpace = true → l.all isSpace = true := by
    intro l hl
    rw [← List.takeWhile_append_dropWhile (p := (· == ' ')) (l := l), List.all_append, hl, Bool.and_true]
    refine List.all_eq_true.mpr fun c hc => ?_
    have hspace : (c == ' ') = true := List.all_eq_true.mp List.all_takeWhile c hc
    obtain rfl := beq_iff_eq.mp hspace
    decide
  have hnil : ((text.toList.dropWhile (· == ' ')).reverse.dropWhile (· == ' ')) = [] := by
    simpa [trim] using h
  have hreverse : (text.toList.dropWhile (· == ' ')).reverse.all isSpace = true :=
    hdrop (by rw [hnil]; rfl)
  rw [List.all_reverse] at hreverse
  exact hdrop hreverse

/-- What the SQLite migration makes of the first tenant in a payload. -/
theorem sql_column_first (h : Object E row members) : sql_column E row.payload_json =
    .ok (match members.get "tenant_id" with
      | .str s => if (trim s).isEmpty then none else some s
      | _ => none) := by
  obtain ⟨p, hsqlite, hget⟩ := h.sqlite
  rw [sql_column, hsqlite, ok_bind]
  dsimp only
  rw [hget]
  cases members.get "tenant_id" <;> rfl

/-- Where the last tenant is none or a text that is not blank, the SQLite migration derives it exactly if
the first is as plain. -/
theorem sql_column_iff (h : Object E row members) (hlast : last members "tenant_id" = .null ∨
      ∃ s, last members "tenant_id" = .str s ∧ isBlank s = false) :
    sql_column E row.payload_json = .ok (row.tenant E.toCodec) ↔ Plain members := by
  rw [sql_column_first h, tenant_eq h, Except.ok.injEq, Plain]
  obtain hnull | ⟨s, hs, hfilled⟩ := hlast
  · rw [hnull]
    cases members.get "tenant_id" <;> simp [tenant_of]
  · have htrim : (trim s).isEmpty = false := by
      by_contra hempty
      rw [isBlank_of_trim (Bool.not_eq_false _ ▸ hempty)] at hfilled
      cases hfilled
    rw [hs]
    cases members.get "tenant_id" with
    | str first =>
      simp only [tenant_of, hfilled, Bool.false_eq_true, if_false, reduceCtorEq, false_and, false_or, Json.str.injEq,
        exists_eq_left', true_and]
      constructor
      · intro heq
        split at heq
        · cases heq
        · exact Option.some.inj heq
      · rintro rfl
        rw [htrim]
        rfl
    | _ => simp [tenant_of, hfilled]

theorem plain_last (h : Plain members) : last members "tenant_id" = .null ∨
    ∃ s, last members "tenant_id" = .str s ∧ isBlank s = false :=
  h.imp And.left fun ⟨s, hs, hfilled, _⟩ => ⟨s, hs, hfilled⟩

/-- PostgreSQL derives the tenant of a row exactly when it accepts the text and the last tenant is none, or
a text that is not blank. -/
theorem jsonb_column_iff (h : Object E row members) :
    jsonb_column E row.payload_json = .ok (row.tenant E.toCodec) ↔
      (∃ value, E.jsonb row.payload_json = .ok value) ∧ (last members "tenant_id" = .null ∨
        ∃ s, last members "tenant_id" = .str s ∧ isBlank s = false) := by
  rw [tenant_eq h]
  cases hv : E.jsonb row.payload_json with
  | error e =>
    rw [jsonb_column, hv]
    exact ⟨fun h => (by cases h), fun ⟨⟨_, h⟩, _⟩ => (by cases h)⟩
  | ok value =>
    obtain ⟨p, rfl, hget⟩ := h.jsonb value hv
    rw [jsonb_column, hv]
    dsimp only
    rw [arrow, hget, Except.ok.injEq]
    constructor
    · intro heq
      refine ⟨⟨_, rfl⟩, ?_⟩
      cases htenant : last members "tenant_id" with
      | null => exact .inl rfl
      | str s =>
        rw [htenant] at heq
        refine .inr ⟨s, rfl, ?_⟩
        cases hblank : isBlank s with
        | false => rfl
        | true => simp [tenant_of, hblank] at heq
      | _ =>
        rw [htenant] at heq
        cases heq
    · rintro ⟨_, hnull | ⟨s, hs, hfilled⟩⟩
      · rw [hnull]
        rfl
      · rw [hs]
        simp [tenant_of, hfilled]

end Rows

section Paths

variable {E : Engines} {rows : List EventRow}

/-- The table that every upgrade should lead to. -/
def upgradedTable (E : Engines) (rows : List EventRow) : EventTable :=
  ⟨true, rows.map (EventRow.upgraded E.toCodec)⟩

/-- The Python back-fill completes what an upgrade left empty, and nothing else. -/
theorem ensure_upgraded (h : ∀ row ∈ rows, ∃ members, Object E row members) :
    _ensure_tenant_column E (upgradedTable E rows) = (.ok (), upgradedTable E rows) := by
  unfold _ensure_tenant_column
  rw [backfill_sqlite]
  refine update_upgraded fun row hrow hnone => ?_
  obtain ⟨members, hobject⟩ := h row hrow
  rw [python_column_eq hobject, hnone]

theorem sqlite_again (h : ∀ row ∈ rows, ∃ members, Object E row members) {path : Upgrade}
    (hpath : path.backend = .sqlite) : (path.run E (upgradedTable E rows)).2 = upgradedTable E rows := by
  cases path with
  | sqlite_migration => rfl
  | sqlite_script => exact congrArg Prod.snd (ensure_upgraded h)
  | sqlite_start_up => exact congrArg Prod.snd (ensure_upgraded h)
  | postgres_migration => cases hpath
  | postgres_start_up => cases hpath

theorem postgres_again
    (h : ∀ row ∈ rows, jsonb_column E row.payload_json = .ok (row.tenant E.toCodec)) {path : Upgrade}
    (hpath : path.backend = .postgres) : (path.run E (upgradedTable E rows)).2 = upgradedTable E rows := by
  have hupdate : postgres_005 E (upgradedTable E rows) = (.ok (), upgradedTable E rows) := by
    unfold postgres_005
    rw [backfill_postgres]
    have hfill : update (fill (jsonb_column E)) { upgradedTable E rows with tenant_column := true } =
        (.ok (), upgradedTable E rows) :=
      update_upgraded fun row hrow hnone => by rw [h row hrow, hnone]
    rw [hfill]
  cases path with
  | postgres_migration => exact congrArg Prod.snd hupdate
  | postgres_start_up => exact congrArg Prod.snd hupdate
  | sqlite_migration => cases hpath
  | sqlite_script => cases hpath
  | sqlite_start_up => cases hpath

/-- A path that leads to the table, and that nothing changes after. -/
theorem upgraded_of_run {path : Upgrade} (hrun : path.run E (legacy rows) = (.ok (), upgradedTable E rows))
    (hagain : ∀ path' : Upgrade, path'.backend = path.backend →
      (path'.run E (upgradedTable E rows)).2 = upgradedTable E rows) : Upgraded E path rows where
  returns := congrArg Prod.fst hrun
  derives := congrArg Prod.snd hrun
  again path' hpath := by
    rw [hrun]
    exact hagain path' hpath

/-- Starting the SQLite store always derives the column. -/
theorem start_up_upgraded (h : ∀ row ∈ rows, ∃ members, Object E row members) :
    Upgraded E .sqlite_start_up rows := by
  refine upgraded_of_run ?_ fun _ hpath => sqlite_again h hpath
  change update (backfill E.toCodec E.render .sqlite) ⟨true, rows.map EventRow.clear⟩ = _
  rw [backfill_sqlite]
  refine update_clear.mpr fun row hrow => ?_
  obtain ⟨members, hobject⟩ := h row hrow
  exact python_column_eq hobject

theorem migration_run (h : ∀ row ∈ rows, sql_column E row.payload_json = .ok (row.tenant E.toCodec)) :
    migration_005 E (legacy rows) = (.ok (), upgradedTable E rows) :=
  update_clear.mpr h

theorem migration_upgraded (h : ∀ row ∈ rows, ∃ members, Object E row members)
    (hsql : ∀ row ∈ rows, sql_column E row.payload_json = .ok (row.tenant E.toCodec)) :
    Upgraded E .sqlite_migration rows :=
  upgraded_of_run (migration_run hsql) fun _ hpath => sqlite_again h hpath

theorem script_upgraded (h : ∀ row ∈ rows, ∃ members, Object E row members)
    (hsql : ∀ row ∈ rows, sql_column E row.payload_json = .ok (row.tenant E.toCodec)) :
    Upgraded E .sqlite_script rows := by
  refine upgraded_of_run ?_ fun _ hpath => sqlite_again h hpath
  change migrate_main E (legacy rows) = _
  unfold migrate_main
  rw [if_neg (by simp [legacy]), migration_run hsql]
  exact ensure_upgraded h

theorem postgres_upgraded {path : Upgrade} (hpath : path.backend = .postgres)
    (h : ∀ row ∈ rows, jsonb_column E row.payload_json = .ok (row.tenant E.toCodec)) :
    Upgraded E path rows := by
  have hrun : postgres_005 E (legacy rows) = (.ok (), upgradedTable E rows) := by
    unfold postgres_005
    rw [backfill_postgres]
    have hfill : update (fill (jsonb_column E)) { legacy rows with tenant_column := true } =
        (.ok (), upgradedTable E rows) := update_clear.mpr h
    rw [hfill]
  refine upgraded_of_run ?_ fun _ hpath' => postgres_again h (hpath'.trans hpath)
  cases path with
  | postgres_migration => exact hrun
  | postgres_start_up => exact hrun
  | sqlite_migration => cases hpath
  | sqlite_script => cases hpath
  | sqlite_start_up => cases hpath

theorem migration_columns (h : Upgraded E .sqlite_migration rows) :
    ∀ row ∈ rows, sql_column E row.payload_json = .ok (row.tenant E.toCodec) := by
  have hreturns := h.returns
  have hderives := h.derives
  exact update_clear.mp (Prod.ext hreturns hderives)

theorem postgres_columns (h : Upgraded E .postgres_migration rows) :
    ∀ row ∈ rows, jsonb_column E row.payload_json = .ok (row.tenant E.toCodec) := by
  have hreturns := h.returns
  have hderives := h.derives
  change (postgres_005 E (legacy rows)).1 = _ at hreturns
  change (postgres_005 E (legacy rows)).2 = _ at hderives
  unfold postgres_005 at hreturns hderives
  rw [backfill_postgres] at hreturns hderives
  refine update_clear.mp ?_
  change update (fill (jsonb_column E)) { legacy rows with tenant_column := true } = _
  generalize update (fill (jsonb_column E)) { legacy rows with tenant_column := true } = outcome at *
  obtain ⟨e | ⟨⟩, u⟩ := outcome
  · cases hreturns
  · exact Prod.ext rfl hderives

/-- All upgrades derive the tenants of a legacy table, for good, exactly when PostgreSQL accepts every
payload and no tenant in them is blank or something other than a text, whichever member of the name is
read. -/
theorem upgrades_agree_iff (h : ∀ row ∈ rows, ∃ members, Object E row members) :
    (∀ path, Upgraded E path rows) ↔
      ∀ row ∈ rows, (∃ value, E.jsonb row.payload_json = .ok value) ∧
        ∀ members, E.members row.payload_json = some members → Plain members := by
  constructor
  · intro hall row hrow
    obtain ⟨members, hobject⟩ := h row hrow
    obtain ⟨haccepts, hlast⟩ :=
      (jsonb_column_iff hobject).mp (postgres_columns (hall .postgres_migration) row hrow)
    refine ⟨haccepts, fun members' htext => ?_⟩
    obtain rfl := Option.some.inj (hobject.text.symm.trans htext)
    exact (sql_column_iff hobject hlast).mp (migration_columns (hall .sqlite_migration) row hrow)
  · intro hrows
    have hcolumns : ∀ row ∈ rows, jsonb_column E row.payload_json = .ok (row.tenant E.toCodec) ∧
        sql_column E row.payload_json = .ok (row.tenant E.toCodec) := by
      intro row hrow
      obtain ⟨members, hobject⟩ := h row hrow
      obtain ⟨haccepts, hplain⟩ := hrows row hrow
      have hlast := plain_last (hplain members hobject.text)
      exact ⟨(jsonb_column_iff hobject).mpr ⟨haccepts, hlast⟩,
        (sql_column_iff hobject hlast).mpr (hplain members hobject.text)⟩
    have hjsonb : ∀ row ∈ rows, jsonb_column E row.payload_json = .ok (row.tenant E.toCodec) :=
      fun row hrow => (hcolumns row hrow).1
    have hsql : ∀ row ∈ rows, sql_column E row.payload_json = .ok (row.tenant E.toCodec) :=
      fun row hrow => (hcolumns row hrow).2
    intro path
    cases path with
    | sqlite_migration => exact migration_upgraded h hsql
    | sqlite_script => exact script_upgraded h hsql
    | sqlite_start_up => exact start_up_upgraded h
    | postgres_migration => exact postgres_upgraded rfl hjsonb
    | postgres_start_up => exact postgres_upgraded rfl hjsonb

end Paths

section Sample

def plainText : String := "\x7b\"tenant_id\":\"acme\"\x7d"
def tabText : String := "\x7b\"tenant_id\":\"\\t\"\x7d"

def sampleMembers (text : String) : Option Payload :=
  if text = plainText then some [("tenant_id", .str "acme")]
  else if text = tabText then some [("tenant_id", .str "\t")]
  else none

/-- The three engines on the two texts. -/
def sampleRead (text : String) : Except PyError Json :=
  match sampleMembers text with
  | some members => .ok (.obj members)
  | none => .error (.valueError "Expecting value")

def sampleEngines : Engines where
  dumps _ := plainText
  loads := sampleRead
  members := sampleMembers
  sqlite := sampleRead
  jsonb := sampleRead
  render _ := ""

def sampleRow (payload_json : String) : EventRow :=
  ⟨"run.created", "req-1", "trace-1", "run-1", "acme", none, "agent", payload_json,
    "2026-07-01T00:00:00+00:00"⟩

theorem sample_object : Object sampleEngines (sampleRow plainText) [("tenant_id", .str "acme")] where
  text := rfl
  loads := ⟨_, rfl, rfl⟩
  sqlite := ⟨_, rfl, rfl⟩
  jsonb _ h := ⟨_, (Except.ok.inj h).symm, rfl⟩

theorem upgrades_agree_sample : Object sampleEngines (sampleRow plainText) [("tenant_id", .str "acme")] ∧
    ∀ path, Upgraded sampleEngines path [sampleRow plainText] := by
  have hobject : ∀ row ∈ [sampleRow plainText], ∃ payload, Object sampleEngines row payload := by
    simp only [List.forall_mem_cons]
    exact ⟨⟨_, sample_object⟩, by simp⟩
  refine ⟨sample_object, (upgrades_agree_iff hobject).mpr ?_⟩
  simp only [List.forall_mem_cons]
  refine ⟨⟨⟨_, rfl⟩, fun members h => ?_⟩, by simp⟩
  obtain rfl : [("tenant_id", Json.str "acme")] = members := Option.some.inj h
  exact .inr ⟨"acme", rfl, by decide, rfl⟩

/-- A tenant of one tab: the SQLite migration and PostgreSQL take it, the event has no tenant. -/
theorem tab_tenant_differs : ∃ members, Object sampleEngines (sampleRow tabText) members ∧
    ¬ ∀ path, Upgraded sampleEngines path [sampleRow tabText] := by
  refine ⟨[("tenant_id", .str "\t")], ⟨rfl, ⟨_, rfl, rfl⟩, ⟨_, rfl, rfl⟩,
    fun _ h => ⟨_, (Except.ok.inj h).symm, rfl⟩⟩,
    fun h => ?_⟩
  have hrows := congrArg EventTable.rows (h .sqlite_migration).derives
  have hcolumn : some "\t" = (sampleRow tabText).tenant sampleEngines.toCodec :=
    congrArg EventRow.tenant_id (List.cons.inj hrows).1
  exact absurd hcolumn (by decide)

end Sample

end EnterpriseCopilot.Audit
