import Mathlib.Data.List.Forall2
import EnterpriseCopilot.Runtime.Models

/-! The audit log: in memory, or over one of two event tables. -/

namespace EnterpriseCopilot.Audit

open EnterpriseCopilot.Python EnterpriseCopilot.Runtime

/-- `json.dumps(payload, sort_keys=True, …)` and `json.loads`.  The entries of a payload are
taken in the order of their keys. -/
structure Codec where
  dumps : Payload → String
  loads : String → Except PyError Json

/-- A row of `run_events`; rows are kept in the order of `sequence`. -/
structure EventRow where
  event_type : String
  request_id : String
  trace_id : String
  run_id : String
  workspace_id : String
  tenant_id : Option String
  agent_id : String
  payload_json : String
  created_at : String

inductive Backend
  | sqlite | postgres
  deriving DecidableEq

/-- `payload_json::jsonb ->> 'tenant_id'`; `render` is the text of a value other than a string. -/
def arrow (render : Json → String) (payload : Payload) : Option String :=
  match payload.get "tenant_id" with
  | .null => none
  | .str s => some s
  | value => some (render value)

section Store

variable (codec : Codec) (render : Json → String)

/-- The `INSERT` of `append`. -/
def EventRow.ofEvent (e : AuditEvent) : EventRow :=
  ⟨e.event_type, e.request_id, e.trace_id, e.run_id, e.workspace_id, e.tenant_id, e.agent_id,
    codec.dumps e.payload, e.created_at⟩

/-- The event that a row is read as. -/
def EventRow.event (row : EventRow) : Except PyError AuditEvent := do
  match ← codec.loads row.payload_json with
  | .obj payload => return ⟨row.event_type, row.request_id, row.trace_id, row.run_id, row.workspace_id,
      row.agent_id, payload, row.created_at⟩
  | _ => throw (.exception "AttributeError")

/-- What opening the store does to a row without a tenant. -/
def backfill (backend : Backend) (row : EventRow) : Except PyError EventRow :=
  match row.tenant_id, backend with
  | some _, _ => .ok row
  | none, .sqlite =>
    match codec.loads row.payload_json with
    | .ok (.obj payload) =>
      match Payload.get payload "tenant_id" with
      | .str s => .ok (if isBlank s then row else { row with tenant_id := some s })
      | _ => .ok row
    | _ => .ok row
  | none, .postgres =>
    match codec.loads row.payload_json with
    | .ok (.obj payload) => .ok { row with tenant_id := arrow render payload }
    | .ok _ => .ok row
    | .error _ => .error (.exception "InvalidTextRepresentation")

end Store

/-- The filters of `list_events`. -/
structure Filters where
  trace_id : Option String := none
  run_id : Option String := none
  workspace_id : Option String := none
  tenant_id : Option String := none

/-- One clause of the `WHERE`, present when the value is not empty. -/
def clause (filter : Option String) (column : Option String) : Bool :=
  match truthy filter with
  | some value => column == some value
  | none => true

def Filters.selects (f : Filters) (row : EventRow) : Bool :=
  clause f.trace_id (some row.trace_id) && clause f.run_id (some row.run_id) &&
    clause f.workspace_id (some row.workspace_id) && clause f.tenant_id row.tenant_id

def same (filter : Option String) (value : String) : Bool :=
  match filter with
  | some text => value == text
  | none => true

def Filters.keeps (f : Filters) (e : AuditEvent) : Bool :=
  same f.trace_id e.trace_id && same f.run_id e.run_id && same f.workspace_id e.workspace_id

/-- An `AuditLog`: its list of events and the table of its store. -/
structure AuditLog where
  events : List AuditEvent
  rows : List EventRow

namespace AuditLog

variable (codec : Codec) (render : Json → String) (backend : Option Backend)

def append (log : AuditLog) (e : AuditEvent) : AuditLog where
  events := log.events ++ [e]
  rows := match backend with
    | some _ => log.rows ++ [EventRow.ofEvent codec e]
    | none => log.rows

/-- A process opens the store: the table is brought up to date. -/
def open_store (log : AuditLog) : Except PyError AuditLog :=
  match backend with
  | some b => do return { log with rows := ← log.rows.mapM (backfill codec render b) }
  | none => .ok log

/-- The events that the store returns, or the matching events in memory. -/
def select (log : AuditLog) (f : Filters) : Except PyError (List AuditEvent) :=
  match backend with
  | some _ => (log.rows.filter f.selects).mapM (EventRow.event codec)
  | none => .ok (log.events.filter f.keeps)

def list_events (log : AuditLog) (f : Filters) : Except PyError (List AuditEvent) := do
  let events ← log.select codec backend f
  match f.tenant_id with
  | none => return events
  | some tenant_id =>
    return events.filter fun e => (e.payload.get "tenant_id").eqScalar (.str tenant_id)

end AuditLog

inductive Op
  | append (e : AuditEvent)
  | reopen

section History

variable (codec : Codec) (render : Json → String) (backend : Option Backend)

def step (log : AuditLog) : Op → Except PyError AuditLog
  | .append e => .ok (log.append codec backend e)
  | .reopen => log.open_store codec render backend

/-- The log over a table from before the tenant column, after a history of calls. -/
def history (legacy : List AuditEvent) (ops : List Op) : Except PyError AuditLog := do
  let rows := legacy.map fun e => { EventRow.ofEvent codec e with tenant_id := none }
  let log ← AuditLog.open_store codec render backend ⟨legacy, rows⟩
  ops.foldlM (step codec render backend) log

/-- The events of a history, in the order in which they were appended. -/
def appended (legacy : List AuditEvent) (ops : List Op) : List AuditEvent :=
  legacy ++ ops.filterMap fun
    | .append e => some e
    | .reopen => none

end History

/-- The event is in the workspace and the tenant and matches the other filters. -/
def Matches (workspace_id tenant_id : String) (trace_id run_id : Option String) (e : AuditEvent) : Prop :=
  e.workspace_id = workspace_id ∧ (e.payload.get "tenant_id").eqScalar (.str tenant_id) = true ∧
    (∀ id ∈ trace_id, e.trace_id = id) ∧ ∀ id ∈ run_id, e.run_id = id

instance (w t : String) (trace_id run_id : Option String) (e : AuditEvent) :
    Decidable (Matches w t trace_id run_id e) := inferInstanceAs (Decidable (_ ∧ _ ∧ _ ∧ _))

section Represents

variable (codec : Codec) (render : Json → String) {row : EventRow} {e : AuditEvent}

/-- The row is read as the event, and its tenant column holds the tenant of the event. -/
structure Represents (row : EventRow) (e : AuditEvent) : Prop where
  event : row.event codec = .ok e
  tenant : ∀ t, e.tenant_id = some t → row.tenant_id = some t

variable {codec} {render}

theorem EventRow.event_inv (h : row.event codec = .ok e) :
    codec.loads row.payload_json = .ok (.obj e.payload) ∧ row.trace_id = e.trace_id ∧
      row.run_id = e.run_id ∧ row.workspace_id = e.workspace_id := by
  obtain ⟨value, hload, h⟩ := bind_ok h
  cases value with
  | obj payload =>
    cases h
    exact ⟨hload, rfl, rfl, rfl⟩
  | _ => cases h

theorem EventRow.ofEvent_event (h : codec.loads (codec.dumps e.payload) = .ok (.obj e.payload)) :
    (EventRow.ofEvent codec e).event codec = .ok e := by
  unfold EventRow.event EventRow.ofEvent
  dsimp only
  rw [h]
  rfl

theorem tenant_id_eq_some {t : String} :
    e.tenant_id = some t ↔ e.payload.get "tenant_id" = .str t ∧ isBlank t = false := by
  unfold AuditEvent.tenant_id
  split
  · rename_i value hv
    rw [hv]
    split
    · rename_i hb
      constructor
      · intro h
        cases h
      · rintro ⟨h, hb'⟩
        cases h
        rw [hb] at hb'
        cases hb'
    · rename_i hb
      constructor
      · intro h
        cases h
        exact ⟨rfl, by simpa using hb⟩
      · rintro ⟨h, _⟩
        cases h
        rfl
  · rename_i hne
    constructor
    · intro h
      cases h
    · rintro ⟨h, _⟩
      exact absurd h (hne t)

theorem arrow_eq_of_tenant_id {t : String} (h : e.tenant_id = some t) :
    arrow render e.payload = some t := by
  unfold arrow
  rw [(tenant_id_eq_some.mp h).1]

variable (render) in
/-- Opening the store repairs a row whose tenant column is still empty and keeps the others. -/
theorem backfill_represents (b : Backend) (h : row.event codec = .ok e)
    (ht : row.tenant_id = none ∨ ∀ t, e.tenant_id = some t → row.tenant_id = some t) :
    ∃ row', backfill codec render b row = .ok row' ∧ Represents codec row' e := by
  have hload := (EventRow.event_inv h).1
  unfold backfill
  cases hrow : row.tenant_id with
  | some s =>
    refine ⟨row, rfl, h, fun t he => ?_⟩
    obtain hn | hn := ht
    · rw [hrow] at hn
      cases hn
    · exact hn t he
  | none =>
    cases b with
    | sqlite =>
      dsimp only
      rw [hload]
      dsimp only
      split
      · rename_i s hs
        by_cases hb : isBlank s = true
        · refine ⟨row, by simp [hb], h, fun t he => ?_⟩
          obtain ⟨hp, hb'⟩ := tenant_id_eq_some.mp he
          cases hs.symm.trans hp
          rw [hb] at hb'
          cases hb'
        · refine ⟨{ row with tenant_id := some s }, by simp [hb], h, fun t he => ?_⟩
          cases hs.symm.trans (tenant_id_eq_some.mp he).1
          rfl
      · rename_i hne
        refine ⟨row, rfl, h, fun t he => ?_⟩
        exact absurd (tenant_id_eq_some.mp he).1 (hne t)
    | postgres =>
      dsimp only
      rw [hload]
      exact ⟨_, rfl, h, fun t he => arrow_eq_of_tenant_id he⟩

end Represents

section Reads

variable {codec : Codec} {render : Json → String} {rows : List EventRow} {events : List AuditEvent}

theorem open_rows {b : Backend} (h : List.Forall₂ (fun row e => row.event codec = .ok e ∧
      (row.tenant_id = none ∨ ∀ t, e.tenant_id = some t → row.tenant_id = some t)) rows events) :
    ∃ rows', rows.mapM (backfill codec render b) = .ok rows' ∧
      List.Forall₂ (Represents codec) rows' events := by
  induction h with
  | nil => exact ⟨[], rfl, .nil⟩
  | @cons row e rows events hr _ ih =>
    obtain ⟨row', hrow, hrep⟩ := backfill_represents render b hr.1 hr.2
    obtain ⟨rows', hrows, hreps⟩ := ih
    exact ⟨row' :: rows', by rw [List.mapM_cons, hrow, hrows]; rfl, .cons hrep hreps⟩

variable {w t : String} {trace_id run_id : Option String} {row : EventRow} {e : AuditEvent}

theorem not_isEmpty_of_not_isBlank {s : String} (h : isBlank s = false) : s ≠ "" := by
  rintro rfl
  cases h

theorem clause_some {id : String} {column : Option String} (h : id ≠ "") :
    clause (some id) column = true ↔ column = some id := by
  simp [clause, truthy, h]

theorem clause_eq {filter : Option String} {value : String} (h : ∀ id ∈ filter, id ≠ "") :
    clause filter (some value) = true ↔ ∀ id ∈ filter, value = id := by
  cases filter with
  | none => simp [clause, truthy]
  | some id =>
    rw [clause_some (h id rfl)]
    simp

theorem same_eq {filter : Option String} {value : String} :
    same filter value = true ↔ ∀ id ∈ filter, value = id := by
  cases filter <;> simp [same]

/-- The `WHERE` finds a row of the workspace and the tenant column. -/
theorem selects_iff (hw : isBlank w = false) (ht : isBlank t = false)
    (htrace : ∀ id ∈ trace_id, id ≠ "") (hrun : ∀ id ∈ run_id, id ≠ "") :
    Filters.selects ⟨trace_id, run_id, some w, some t⟩ row = true ↔
      (∀ id ∈ trace_id, row.trace_id = id) ∧ (∀ id ∈ run_id, row.run_id = id) ∧
        row.workspace_id = w ∧ row.tenant_id = some t := by
  unfold Filters.selects
  simp only [Bool.and_eq_true, and_assoc]
  rw [clause_eq htrace, clause_eq hrun, clause_some (not_isEmpty_of_not_isBlank hw),
    clause_some (not_isEmpty_of_not_isBlank ht), Option.some.injEq]

theorem eqScalar_str {value : Json} : value.eqScalar (.str t) = true ↔ value = .str t := by
  cases value <;> simp [Json.eqScalar]

/-- On rows that represent events, the `WHERE` and the check of the payload together are the
filter of the events. -/
theorem matches_iff (hw : isBlank w = false) (ht : isBlank t = false)
    (htrace : ∀ id ∈ trace_id, id ≠ "") (hrun : ∀ id ∈ run_id, id ≠ "")
    (h : Represents codec row e) :
    Matches w t trace_id run_id e ↔
      Filters.selects ⟨trace_id, run_id, some w, some t⟩ row = true ∧
        (e.payload.get "tenant_id").eqScalar (.str t) = true := by
  obtain ⟨_, htr, hr, hws⟩ := EventRow.event_inv h.event
  rw [selects_iff hw ht htrace hrun, htr, hr, hws]
  unfold Matches
  constructor
  · rintro ⟨h₁, h₂, h₃, h₄⟩
    have he : e.tenant_id = some t := tenant_id_eq_some.mpr ⟨eqScalar_str.mp h₂, ht⟩
    exact ⟨⟨h₃, h₄, h₁, h.tenant t he⟩, h₂⟩
  · rintro ⟨⟨h₃, h₄, h₁, _⟩, h₂⟩
    exact ⟨h₁, h₂, h₃, h₄⟩

theorem select_rows {f : Filters} (h : List.Forall₂ (Represents codec) rows events)
    {p q : AuditEvent → Bool}
    (hpq : ∀ row e, Represents codec row e → (p e = true ↔ f.selects row = true ∧ q e = true)) :
    ∃ out, (rows.filter f.selects).mapM (EventRow.event codec) = .ok out ∧
      out.filter q = events.filter p := by
  induction h with
  | nil => exact ⟨[], rfl, rfl⟩
  | @cons row e rows events hr _ ih =>
    obtain ⟨out, hout, heq⟩ := ih
    have he := hpq row e hr
    cases hs : f.selects row with
    | false =>
      have hp : p e = false := by
        cases hp : p e with
        | false => rfl
        | true =>
          rw [he, hs] at hp
          cases hp.1
      refine ⟨out, ?_, ?_⟩
      · rw [List.filter_cons_of_neg (by simp [hs])]
        exact hout
      · rw [List.filter_cons_of_neg (by simp [hp])]
        exact heq
    | true =>
      have hp : p e = q e := by
        rw [Bool.eq_iff_iff, he, hs]
        simp
      refine ⟨e :: out, ?_, ?_⟩
      · rw [List.filter_cons_of_pos hs, List.mapM_cons, hr.event, hout]
        rfl
      · simp only [List.filter_cons, hp, heq]

end Reads

section Exact

variable {codec : Codec} {render : Json → String} {backend : Option Backend} {log log' : AuditLog}
  {events : List AuditEvent}

/-- The log holds the events, in their order. -/
structure Holds (codec : Codec) (backend : Option Backend) (log : AuditLog)
    (events : List AuditEvent) : Prop where
  memory : log.events = events
  rows : backend ≠ none → List.Forall₂ (Represents codec) log.rows events

theorem open_holds (log : AuditLog) (h : log.events = events)
    (hrows : List.Forall₂ (fun row e => row.event codec = .ok e ∧
      (row.tenant_id = none ∨ ∀ t, e.tenant_id = some t → row.tenant_id = some t)) log.rows events) :
    ∃ log', log.open_store codec render backend = .ok log' ∧ Holds codec backend log' events := by
  cases backend with
  | none => exact ⟨log, rfl, h, fun hb => absurd rfl hb⟩
  | some b =>
    obtain ⟨rows, hmap, hrep⟩ := open_rows (b := b) hrows
    refine ⟨{ log with rows := rows }, ?_, h, fun _ => hrep⟩
    simp only [AuditLog.open_store]
    rw [hmap]
    rfl

theorem append_holds {e : AuditEvent} (h : Holds codec backend log events)
    (he : codec.loads (codec.dumps e.payload) = .ok (.obj e.payload)) :
    Holds codec backend (log.append codec backend e) (events ++ [e]) := by
  refine ⟨by rw [← h.memory]; rfl, fun hb => ?_⟩
  cases backend with
  | none => exact absurd rfl hb
  | some b =>
    have hnew : Represents codec (EventRow.ofEvent codec e) e :=
      ⟨EventRow.ofEvent_event he, fun t ht => ht⟩
    exact List.rel_append (h.rows hb) (.cons hnew .nil)

variable (render) in
theorem reopen_holds (h : Holds codec backend log events) :
    ∃ log', log.open_store codec render backend = .ok log' ∧ Holds codec backend log' events := by
  cases backend with
  | none => exact ⟨log, rfl, h⟩
  | some b =>
    refine open_holds log h.memory ((h.rows (by simp)).imp fun row e hr => ?_)
    exact ⟨hr.event, .inr hr.tenant⟩

theorem foldlM_holds (ops : List Op) (h : Holds codec backend log events)
    (hcodec : ∀ e, Op.append e ∈ ops → codec.loads (codec.dumps e.payload) = .ok (.obj e.payload)) :
    ∃ log', ops.foldlM (step codec render backend) log = .ok log' ∧
      Holds codec backend log' (appended events ops) := by
  induction ops generalizing log events with
  | nil => exact ⟨log, rfl, by simpa [appended] using h⟩
  | cons op ops ih =>
    cases op with
    | append e =>
      obtain ⟨log', hfold, hlog⟩ := ih (append_holds h (hcodec e (.head _)))
        fun e' he' => hcodec e' (.tail _ he')
      refine ⟨log', hfold, ?_⟩
      simpa [appended] using hlog
    | reopen =>
      obtain ⟨log₁, hopen, hlog₁⟩ := reopen_holds render h
      obtain ⟨log', hfold, hlog⟩ := ih hlog₁ fun e' he' => hcodec e' (.tail _ he')
      refine ⟨log', ?_, ?_⟩
      · rw [List.foldlM_cons]
        simp only [step]
        rw [hopen]
        exact hfold
      · simpa [appended] using hlog

theorem list_events_holds {w t : String} {trace_id run_id : Option String}
    (hw : isBlank w = false) (ht : isBlank t = false) (htrace : ∀ id ∈ trace_id, id ≠ "")
    (hrun : ∀ id ∈ run_id, id ≠ "") (h : Holds codec backend log events) :
    log.list_events codec backend ⟨trace_id, run_id, some w, some t⟩ =
      .ok (events.filter fun e => decide (Matches w t trace_id run_id e)) := by
  unfold AuditLog.list_events
  cases backend with
  | none =>
    simp only [AuditLog.select, h.memory, ok_bind]
    change Except.ok _ = Except.ok _
    rw [List.filter_filter]
    congr 2
    funext e
    rw [Bool.eq_iff_iff]
    simp only [Filters.keeps, Bool.and_eq_true, same_eq, decide_eq_true_eq, Matches,
      Option.mem_def, Option.some.injEq, forall_eq']
    tauto
  | some b =>
    obtain ⟨out, hout, heq⟩ := select_rows (h.rows (by simp)) (f := ⟨trace_id, run_id, some w, some t⟩)
      (p := fun e => decide (Matches w t trace_id run_id e))
      (q := fun e => (e.payload.get "tenant_id").eqScalar (.str t)) fun row e hr => by
        rw [decide_eq_true_eq]
        exact matches_iff hw ht htrace hrun hr
    simp only [AuditLog.select]
    rw [hout, ← heq]
    rfl

/-- A tenant-scoped read returns the matching events of the history, in order, over every
backend. -/
theorem list_events_exact (codec : Codec) (render : Json → String) (backend : Option Backend)
    (legacy : List AuditEvent) (ops : List Op) (w t : String) (trace_id run_id : Option String)
    (hcodec : ∀ e ∈ appended legacy ops,
      codec.loads (codec.dumps e.payload) = .ok (.obj e.payload))
    (hw : isBlank w = false) (ht : isBlank t = false) (htrace : ∀ id ∈ trace_id, id ≠ "")
    (hrun : ∀ id ∈ run_id, id ≠ "") :
    ∃ log, history codec render backend legacy ops = .ok log ∧
      log.list_events codec backend ⟨trace_id, run_id, some w, some t⟩ =
        .ok ((appended legacy ops).filter fun e => decide (Matches w t trace_id run_id e)) := by
  have hlegacy : List.Forall₂ (fun row e => row.event codec = .ok e ∧
      (row.tenant_id = none ∨ ∀ t, e.tenant_id = some t → row.tenant_id = some t))
      (legacy.map fun e => { EventRow.ofEvent codec e with tenant_id := none }) legacy := by
    rw [List.forall₂_map_left_iff, List.forall₂_same]
    intro e he
    exact ⟨EventRow.ofEvent_event (hcodec e (List.mem_append_left _ he)), .inl rfl⟩
  obtain ⟨log₁, hopen, hlog₁⟩ := open_holds ⟨legacy, _⟩ rfl hlegacy
  obtain ⟨log, hfold, hlog⟩ := foldlM_holds ops hlog₁ fun e he =>
    hcodec e (List.mem_append_right _ (List.mem_filterMap.mpr ⟨_, he, rfl⟩))
  refine ⟨log, ?_, list_events_holds hw ht htrace hrun hlog⟩
  unfold history
  dsimp only
  rw [hopen]
  exact hfold

/-- Payloads with a text, a number or nothing as tenant. -/
def sampleCodec : Codec where
  dumps
    | [("tenant_id", .str s)] => "\x7b\"tenant_id\":\"" ++ s ++ "\"\x7d"
    | [("tenant_id", .num q)] => "\x7b\"tenant_id\":" ++ toString q.num ++ "\x7d"
    | _ => "\x7b\x7d"
  loads text :=
    if text = "\x7b\"tenant_id\":\"t1\"\x7d" then .ok (.obj [("tenant_id", .str "t1")])
    else if text = "\x7b\"tenant_id\":7\x7d" then .ok (.obj [("tenant_id", .num 7)])
    else if text = "\x7b\x7d" then .ok (.obj [])
    else .error (.valueError "Expecting value")

def sampleEvent (run_id : String) (payload : Payload) : AuditEvent :=
  ⟨"run.started", "q1", "tr1", run_id, "w1", "a1", payload, "2026-01-01T00:00:00+00:00"⟩

/-- A table with one old row is opened by PostgreSQL, written and opened once more. -/
theorem list_events_exact_sample :
    ∃ log, history sampleCodec (fun _ => "7") (some .postgres)
        [sampleEvent "r1" [("tenant_id", .str "t1")]]
        [.append (sampleEvent "r2" [("tenant_id", .num 7)]),
          .append (sampleEvent "r3" [("tenant_id", .str "t1")]), .reopen] = .ok log ∧
      log.list_events sampleCodec (some .postgres) ⟨some "tr1", none, some "w1", some "t1"⟩ =
        .ok [sampleEvent "r1" [("tenant_id", .str "t1")],
          sampleEvent "r3" [("tenant_id", .str "t1")]] := by
  refine list_events_exact sampleCodec (fun _ => "7") (some .postgres) _ _ "w1" "t1" (some "tr1")
    none ?_ (by decide) (by decide) (by simp) (by simp)
  intro e he
  simp only [appended, List.filterMap, List.cons_append, List.nil_append, List.mem_cons,
    List.not_mem_nil, or_false] at he
  obtain rfl | rfl | rfl := he <;> rfl

end Exact

end EnterpriseCopilot.Audit
