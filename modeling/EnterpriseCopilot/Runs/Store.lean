import EnterpriseCopilot.Lib.Table
import EnterpriseCopilot.Python.Text
import EnterpriseCopilot.Runtime.Models

/-! The durable run table and its two adapters. -/

namespace EnterpriseCopilot.Runs

open EnterpriseCopilot.Lib EnterpriseCopilot.Python EnterpriseCopilot.Runtime

structure StoredRun where
  result : RunResult
  identity : IdentityContext
  idempotency_key : Option String := none
  deriving DecidableEq

/-- A row of `agent_runs`. -/
structure Row where
  run : StoredRun
  created_at : String
  deriving DecidableEq

/-- `UNIQUE(workspace_id, tenant_id, user_id, role, idempotency_key)`: NULL keys are
distinct. -/
def StoredRun.SameKey (a b : StoredRun) : Prop :=
  a.identity = b.identity ∧ a.idempotency_key = b.idempotency_key ∧ a.idempotency_key ≠ none

instance : DecidableRel StoredRun.SameKey := fun a b =>
  inferInstanceAs (Decidable (a.identity = b.identity ∧ _ ∧ _))

/-- The primary key and the unique constraint. -/
def Clash (a b : Row) : Prop := a.run.result.run_id = b.run.result.run_id ∨ a.run.SameKey b.run

instance : DecidableRel Clash := fun a b =>
  inferInstanceAs (Decidable (a.run.result.run_id = b.run.result.run_id ∨ a.run.SameKey b.run))

abbrev AgentRuns := Table Row Clash

theorem StoredRun.SameKey.symm {a b : StoredRun} (h : a.SameKey b) : b.SameKey a :=
  ⟨h.1.symm, h.2.1.symm, h.2.1 ▸ h.2.2⟩

theorem Clash.symm {a b : Row} (h : Clash a b) : Clash b a := h.imp Eq.symm .symm

/-- An empty key reads as no key. -/
def _from_row (row : Row) : StoredRun :=
  { row.run with idempotency_key := truthy row.run.idempotency_key }

namespace AgentRuns

variable (t : AgentRuns)

def get (run_id : String) (identity : IdentityContext) : Option StoredRun :=
  (t.rows.find? fun r => r.run.result.run_id = run_id ∧ r.run.identity = identity).map _from_row

def find_idempotent (identity : IdentityContext) (idempotency_key : String) : Option StoredRun :=
  (t.rows.find? fun r => r.run.identity = identity ∧
    r.run.idempotency_key = some idempotency_key).map _from_row

end AgentRuns

/-- A bare `INSERT`. -/
def SQLiteRunStore.save (t : AgentRuns) (run : StoredRun) (created_at : String) :
    Except PyError StoredRun × AgentRuns :=
  match t.insert? ⟨run, created_at⟩ with
  | some u => (.ok run, u)
  | none => (.error (.exception "IntegrityError"), t)

/-- The parameters of the `INSERT`. -/
def StoredRun.params (run : StoredRun) : List String :=
  [run.result.run_id, run.result.status.value, run.result.trace_id, run.result.agent_id, run.result.message] ++
    run.result.source_id.toList ++ run.result.observed_at.toList ++ run.result.external_ref.toList ++
    [run.identity.user_id, run.identity.workspace_id, run.identity.tenant_id, run.identity.role] ++
    run.idempotency_key.toList

/-- The statement of `PostgresRunStore.save`: with a key it ends in `ON CONFLICT (…) DO
NOTHING`, which covers the unique constraint but not the primary key.  A text with a NUL cannot be
a parameter. -/
def PostgresRunStore.insert (t : AgentRuns) (run : StoredRun) (created_at : String) :
    Except PyError Unit × AgentRuns :=
  if run.params.any hasNul then (.error (.exception "DataError"), t)
  else if (truthy run.idempotency_key).isSome ∧ ∃ r ∈ t.rows, r.run.SameKey run then (.ok (), t)
  else
    match t.insert? ⟨run, created_at⟩ with
    | some u => (.ok (), u)
    | none => (.error (.exception "UniqueViolation"), t)

/-- What `PostgresRunStore.save` returns once the statement has been committed. -/
def PostgresRunStore.reread (t : AgentRuns) (run : StoredRun) : StoredRun :=
  match truthy run.idempotency_key with
  | some key => (AgentRuns.find_idempotent t run.identity key).getD run
  | none => run

def PostgresRunStore.save (t : AgentRuns) (run : StoredRun) (created_at : String) :
    Except PyError StoredRun × AgentRuns :=
  match PostgresRunStore.insert t run created_at with
  | (.ok (), u) => (.ok (reread u run), u)
  | (.error e, u) => (.error e, u)

section Find

variable {t u : AgentRuns} {identity : IdentityContext} {key : String} {row : Row}

theorem find_idempotent_of_mem (h : row ∈ t.rows) (hid : row.run.identity = identity)
    (hkey : row.run.idempotency_key = some key) :
    AgentRuns.find_idempotent t identity key = some (_from_row row) := by
  unfold AgentRuns.find_idempotent
  cases hf : t.rows.find? fun r => r.run.identity = identity ∧ r.run.idempotency_key = some key with
  | none =>
    have := List.find?_eq_none.mp hf row h
    simp [hid, hkey] at this
  | some r =>
    have hr := List.find?_some hf
    simp only [decide_eq_true_eq] at hr
    have hsame : r.run.SameKey row.run :=
      ⟨hr.1.trans hid.symm, hr.2.trans hkey.symm, by simp [hr.2]⟩
    rw [Table.eq_of_clash (fun _ _ => Clash.symm) (List.mem_of_find?_eq_some hf) h (.inr hsame)]
    rfl

theorem mem_of_find_idempotent {run : StoredRun}
    (h : AgentRuns.find_idempotent t identity key = some run) : ∃ row ∈ t.rows,
      row.run.identity = identity ∧ row.run.idempotency_key = some key ∧ run = _from_row row := by
  obtain ⟨row, hrow, rfl⟩ := Option.map_eq_some_iff.mp h
  have hr := List.find?_some hrow
  simp only [decide_eq_true_eq] at hr
  exact ⟨row, List.mem_of_find?_eq_some hrow, hr.1, hr.2, rfl⟩

theorem get_of_mem (h : row ∈ t.rows) :
    AgentRuns.get t row.run.result.run_id row.run.identity = some (_from_row row) := by
  unfold AgentRuns.get
  cases hf : t.rows.find? fun r => r.run.result.run_id = row.run.result.run_id ∧
      r.run.identity = row.run.identity with
  | none =>
    have := List.find?_eq_none.mp hf row h
    simp at this
  | some r =>
    have hr := List.find?_some hf
    simp only [decide_eq_true_eq] at hr
    rw [Table.eq_of_clash (fun _ _ => Clash.symm) (List.mem_of_find?_eq_some hf) h (.inl hr.1)]
    rfl

theorem mem_of_get {run_id : String} {run : StoredRun}
    (h : AgentRuns.get t run_id identity = some run) : ∃ row ∈ t.rows,
      row.run.result.run_id = run_id ∧ row.run.identity = identity ∧ run = _from_row row := by
  obtain ⟨row, hrow, rfl⟩ := Option.map_eq_some_iff.mp h
  have hr := List.find?_some hrow
  simp only [decide_eq_true_eq] at hr
  exact ⟨row, List.mem_of_find?_eq_some hrow, hr.1, hr.2, rfl⟩

end Find

section Save

variable {t u : AgentRuns} {run : StoredRun} {c c' : String}

/-- A row that is read back after it was written. -/
theorem reread_inserted (hu : u.rows = t.rows ++ [⟨run, c⟩]) :
    PostgresRunStore.reread u run = run := by
  unfold PostgresRunStore.reread
  split
  · rename_i key hkey
    have hmem : ⟨run, c⟩ ∈ u.rows := by simp [hu]
    rw [find_idempotent_of_mem hmem rfl (truthy_some hkey), Option.getD_some]
    unfold _from_row
    rw [hkey, ← truthy_some hkey]
  · rfl

/-- Both adapters return the same record and leave the same rows, up to `created_at`; if
a run with the key is there, it is that record. -/
def SameSave (t : AgentRuns) (run : StoredRun) (c c' : String) : Prop :=
  ∃ out, (SQLiteRunStore.save t run c).1 = .ok out ∧ (PostgresRunStore.save t run c').1 = .ok out ∧
    (SQLiteRunStore.save t run c).2.rows.map Row.run =
      (PostgresRunStore.save t run c').2.rows.map Row.run ∧
    ∀ row ∈ t.rows, row.run.SameKey run → out = _from_row row

/-- Exactly when the two adapters implement the same `save`. -/
theorem save_same_iff (hfresh : ∀ row ∈ t.rows, row.run.result.run_id ≠ run.result.run_id) :
    SameSave t run c c' ↔
      (¬ ∃ row ∈ t.rows, row.run.SameKey run) ∧ ∀ text ∈ run.params, hasNul text = false := by
  have hbind : run.params.any hasNul = false ↔ ∀ text ∈ run.params, hasNul text = false := by simp
  rw [← hbind]
  constructor
  · rintro ⟨out, hlite, hpost, _⟩
    refine ⟨?_, ?_⟩
    · rintro ⟨row, hrow, hsame⟩
      have hnone : t.insert? ⟨run, c⟩ = none :=
        Table.insert?_eq_none.mpr ⟨row, hrow, .inr hsame⟩
      rw [SQLiteRunStore.save, hnone] at hlite
      cases hlite
    · by_contra hnul
      rw [PostgresRunStore.save, PostgresRunStore.insert, if_pos (by simpa using hnul)] at hpost
      cases hpost
  · rintro ⟨hno, hnul⟩
    have hconf : ∀ c, ¬ t.Conflicts ⟨run, c⟩ := by
      rintro c ⟨row, hrow, hid | hsame⟩
      · exact hfresh row hrow hid
      · exact hno ⟨row, hrow, hsame⟩
    obtain ⟨u, hu⟩ := Option.ne_none_iff_exists'.mp fun h => hconf c (Table.insert?_eq_none.mp h)
    obtain ⟨v, hv⟩ := Option.ne_none_iff_exists'.mp fun h => hconf c' (Table.insert?_eq_none.mp h)
    have hurows := (Table.insert?_eq_some.mp hu).2
    have hvrows := (Table.insert?_eq_some.mp hv).2
    have hlite : SQLiteRunStore.save t run c = (.ok run, u) := by rw [SQLiteRunStore.save, hu]
    have hpost : PostgresRunStore.save t run c' = (.ok run, v) := by
      rw [PostgresRunStore.save, PostgresRunStore.insert, if_neg (by simp [hnul]), if_neg fun h => hno h.2, hv]
      simp only [reread_inserted hvrows]
    refine ⟨run, by rw [hlite], by rw [hpost], ?_, fun row hrow hsame => absurd ⟨row, hrow, hsame⟩ hno⟩
    rw [hlite, hpost, hurows, hvrows, List.map_append, List.map_append]
    rfl

section Sample

def sampleIdentity : IdentityContext := ⟨"user-1", "workspace-a", "tenant-a", "support"⟩

def sampleRun (run_id : String) (key : Option String) : StoredRun :=
  ⟨⟨.succeeded, run_id, "trace-1", "customer-service-agent", "done", none, none, none⟩,
    sampleIdentity, key⟩

/-- The table after a first request with the key. -/
def sampleRuns : AgentRuns := ⟨[⟨sampleRun "run-1" (some "retry-1"), "2026-07-01 02:00:00"⟩],
  List.pairwise_singleton _ _⟩

theorem save_same_other_key :
    (∀ row ∈ sampleRuns.rows, row.run.result.run_id ≠ "run-2") ∧
      SameSave sampleRuns (sampleRun "run-2" (some "retry-2")) "2026-07-01 02:00:01"
        "2026-07-01 02:00:02" :=
  ⟨by decide, (save_same_iff (by decide)).mpr ⟨by decide, by decide⟩⟩

/-- A second request with the key: one adapter raises, the other returns the first run. -/
theorem save_differs : ¬ ∀ (t : AgentRuns) (run : StoredRun) (c c' : String),
    (∀ row ∈ t.rows, row.run.result.run_id ≠ run.result.run_id) → SameSave t run c c' := by
  intro h
  obtain ⟨out, hlite, _⟩ := h sampleRuns (sampleRun "run-2" (some "retry-1")) "2026-07-01 02:00:01"
    "2026-07-01 02:00:02" (by decide)
  have hraise : (SQLiteRunStore.save sampleRuns (sampleRun "run-2" (some "retry-1"))
      "2026-07-01 02:00:01").1 = .error (.exception "IntegrityError") := rfl
  rw [hraise] at hlite
  cases hlite

end Sample

end Save

end EnterpriseCopilot.Runs
