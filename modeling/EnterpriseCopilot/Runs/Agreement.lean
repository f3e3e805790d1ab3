import EnterpriseCopilot.Runs.Replicas

/-! Retries of one request agree, whichever process serves them. -/

namespace EnterpriseCopilot.Runs

open EnterpriseCopilot.Lib EnterpriseCopilot.Python EnterpriseCopilot.Runtime

/-- The rows for the identity and key. -/
def AgentRuns.rowsFor (t : AgentRuns) (identity : IdentityContext) (key : String) : List Row :=
  t.rows.filter fun row => row.run.identity = identity ∧ row.run.idempotency_key = some key

/-- A call of `execute` for the identity and key has returned the result. -/
def Returned (es : List Event) (identity : IdentityContext) (key : String) (result : RunResult) :
    Prop :=
  ∃ i p request request_id trace_id c r,
    Pool.Event.did i (.execute p request identity (some key) request_id trace_id) c r
      (some (.ok (.result result))) ∈ es

section Run

variable {a : Adapter} {G : State → Action → Prop} {t : AgentRuns} {s u : State}
  {es fs : List Event} {identity : IdentityContext} {key : String} {result result' : RunResult}

theorem holds_of_run (h : (pool a).machine.Run G (.init { table := t }) es s) :
    (rely a G).Holds (Returns a) es s :=
  (rely a G).of_run program_sat (coherent_start t) h

theorem table_grows (h : (pool a).machine.Run G u fs s) :
    u.shared.table.rows <+: s.shared.table.rows := by
  refine h.invariant (I := fun _ s => u.shared.table.rows <+: s.shared.table.rows)
    List.prefix_rfl ?_
  intro _ s _ t e _ _ hs ih
  cases Pool.step_cases hs with
  | step hi => exact ih.trans (rows_grow rfl)
  | start hi => exact ih
  | crash hi => exact ih
  | env => exact ih

/-- The result of a call that has returned is that of the row for its key. -/
theorem evidence_row {log : Log} {t : AgentRuns} (h : Evidence a identity key log result)
    (hk : ∀ x ∈ log, Known a t x.1 x.2) : ∃ row ∈ t.rows, row.run.identity = identity ∧
      row.run.idempotency_key = some key ∧ row.run.result = result := by
  cases h with
  | cached hid hrun =>
    obtain ⟨row, hrow, hrid, hident, hkey⟩ := hk _ hid _ rfl
    obtain ⟨row', hrow', hrid', hnormal⟩ := hk _ hrun _ rfl
    obtain rfl := Table.eq_of_clash (fun _ _ => Clash.symm) hrow hrow' (.inl (hrid.trans hrid'.symm))
    exact ⟨row, hrow, hident, hkey, (congrArg StoredRun.result hnormal).symm⟩
  | found hmem =>
    obtain ⟨row, hrow, hident, hkey, rfl⟩ := hk _ hmem _ rfl
    exact ⟨row, hrow, hident, hkey, rfl⟩
  | saved hident hkey hsaved =>
    obtain ⟨row, hrow, hident', hkey', hnormal⟩ := saved_row hsaved hk
    exact ⟨row, hrow, hident'.trans hident, hkey'.trans hkey,
      (congrArg StoredRun.result hnormal).symm⟩

theorem returned_row (h : (pool a).machine.Run G (.init { table := t }) es s)
    (hr : Returned es identity key result) : ∃ row ∈ s.shared.table.rows,
      row.run.identity = identity ∧ row.run.idempotency_key = some key ∧ row.run.result = result := by
  obtain ⟨i, p, request, request_id, trace_id, c, r, hd⟩ := hr
  obtain ⟨log, hQ, hk⟩ := (holds_of_run h).ended hd
  exact evidence_row hQ hk

/-- The unique constraint leaves one row. -/
theorem rowsFor_eq {t : AgentRuns} {row : Row} (hrow : row ∈ t.rows)
    (hid : row.run.identity = identity) (hkey : row.run.idempotency_key = some key) :
    t.rowsFor identity key = [row] := by
  have same : ∀ row' ∈ t.rowsFor identity key, row' = row := by
    intro row' hrow'
    obtain ⟨hmem, hp⟩ := List.mem_filter.mp hrow'
    simp only [decide_eq_true_eq] at hp
    exact Table.eq_of_clash (fun _ _ => Clash.symm) hmem hrow
      (.inr ⟨hp.1.trans hid.symm, hp.2.trans hkey.symm, by simp [hp.2]⟩)
  have hmem : row ∈ t.rowsFor identity key := List.mem_filter.mpr ⟨hrow, by simp [hid, hkey]⟩
  have apart : (t.rowsFor identity key).Pairwise fun a b => ¬ Clash a b := t.apart.filter _
  rcases hl : t.rowsFor identity key with _ | ⟨x, _ | ⟨y, rest⟩⟩
  · rw [hl] at hmem
    cases hmem
  · rw [same x (by simp [hl])]
  · rw [hl] at apart
    have hxy : y = x := (same y (by simp [hl])).trans (same x (by simp [hl])).symm
    exact absurd (.inl (by rw [hxy])) (List.rel_of_pairwise_cons apart (.head _))

theorem rowsFor_of_returned (h : (pool a).machine.Run G (.init { table := t }) es u)
    (hr : Returned es identity key result) : ∃ row, row.run.result = result ∧
      u.shared.table.rowsFor identity key = [row] := by
  obtain ⟨row, hrow, hid, hkey, hres⟩ := returned_row h hr
  exact ⟨row, hres, rowsFor_eq hrow hid hkey⟩

/-- All calls that return for one identity and key return one result; from the first
return on the table holds one row for them, and rows are never replaced. -/
theorem execute_agree (h : (pool .postgres).machine.Run Machine.Free (.init { table := t }) es u)
    (h' : (pool .postgres).machine.Run Machine.Free u fs s) (identity : IdentityContext)
    (key : String) (result result' : RunResult) :
    u.shared.table.rows <+: s.shared.table.rows ∧
    (Returned (es ++ fs) identity key result → Returned (es ++ fs) identity key result' →
      result = result') ∧
    (Returned es identity key result → ∃ row, row.run.result = result ∧
      u.shared.table.rowsFor identity key = [row] ∧ s.shared.table.rowsFor identity key = [row]) := by
  have hrun := h.trans h'
  refine ⟨table_grows h', fun hr hr' => ?_, fun hr => ?_⟩
  · obtain ⟨row, rfl, hrow⟩ := rowsFor_of_returned hrun hr
    obtain ⟨row', rfl, hrow'⟩ := rowsFor_of_returned hrun hr'
    rw [hrow] at hrow'
    cases hrow'
    rfl
  · obtain ⟨row, hrow, hid, hkey, hres⟩ := returned_row h hr
    exact ⟨row, hres, rowsFor_eq hrow hid hkey,
      rowsFor_eq ((table_grows h').subset hrow) hid hkey⟩

end Run

section Sample

def sampleCall (p : Nat) : Call :=
  .execute p { query := "Where is my order?" } sampleIdentity (some "retry-1") none none

def ran (i : Nat) (run_id : String) : Action := .step i { run := .ok (sampleRun run_id none).result }

def steps (i n : Nat) : List Action := List.replicate n (.step i {})

/-- Two processes run the request, one loses the race for the row. -/
def race : List Action :=
  [.start 0 (sampleCall 0), .start 1 (sampleCall 1)] ++ steps 0 2 ++ steps 1 2 ++
    [ran 0 "run-1", ran 1 "run-2"] ++ steps 1 1 ++ steps 0 4 ++ steps 1 3

/-- A restart of process 0 and another retry. -/
def retry : List Action := [.env 0, .start 2 (sampleCall 0)] ++ steps 2 4

def returned (es : List Event) : List (Nat × String) :=
  es.filterMap fun
    | .did i _ _ _ (some (.ok (.result result))) => some (i, result.run_id)
    | _ => none

set_option maxRecDepth 4000 in
theorem execute_agree_race : ∃ u es s fs row,
    (pool .postgres).machine.exec Machine.Free (.init { table := Table.empty }) race = some (u, es) ∧
    (pool .postgres).machine.exec Machine.Free u retry = some (s, fs) ∧
    returned (es ++ fs) = [(0, "run-2"), (1, "run-2"), (2, "run-2")] ∧
    row.run.result.run_id = "run-2" ∧ u.shared.table.rowsFor sampleIdentity "retry-1" = [row] ∧
    s.shared.table.rowsFor sampleIdentity "retry-1" = [row] := by
  obtain ⟨u, es, s, fs, hu, hs, hr, hlast⟩ : ∃ u es s fs,
      (pool .postgres).machine.exec Machine.Free (.init { table := Table.empty }) race = some (u, es) ∧
      (pool .postgres).machine.exec Machine.Free u retry = some (s, fs) ∧
      returned (es ++ fs) = [(0, "run-2"), (1, "run-2"), (2, "run-2")] ∧
      es.getLast? = some (.did 1 (sampleCall 1) (.idempotency_set sampleIdentity "retry-1" "run-2") ()
        (some (.ok (.result (sampleRun "run-2" none).result)))) := ⟨_, _, _, _, rfl, rfl, rfl, rfl⟩
  obtain ⟨row, hres, hrow, hrow'⟩ := (execute_agree (Machine.run_of_exec _ hu)
    (Machine.run_of_exec _ hs) sampleIdentity "retry-1" (sampleRun "run-2" none).result
    (sampleRun "run-2" none).result).2.2 ⟨_, _, _, _, _, _, _, List.mem_of_getLast? hlast⟩
  exact ⟨u, es, s, fs, row, hu, hs, hr, by rw [hres]; rfl, hrow, hrow'⟩

end Sample

end EnterpriseCopilot.Runs
