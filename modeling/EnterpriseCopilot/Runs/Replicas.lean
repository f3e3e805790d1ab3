import EnterpriseCopilot.Runs.Service

/-! What the caches of the API processes say about the run table. -/

namespace EnterpriseCopilot.Runs

open EnterpriseCopilot.Lib EnterpriseCopilot.Python EnterpriseCopilot.Runtime

/-- The run as it is read back. -/
def StoredRun.normal (run : StoredRun) : StoredRun :=
  { run with idempotency_key := truthy run.idempotency_key }

theorem truthy_truthy (o : Option String) : truthy (truthy o) = truthy o := by
  cases h : truthy o with
  | none => rfl
  | some key =>
    rw [truthy_some h] at h
    exact h

@[simp] theorem normal_from_row (row : Row) : (_from_row row).normal = _from_row row := by
  simp only [StoredRun.normal, _from_row, truthy_truthy]

/-- The cached run is a row of the table. -/
def Backed (t : AgentRuns) (run_id : String) (stored : StoredRun) : Prop :=
  ∃ row ∈ t.rows, row.run.result.run_id = run_id ∧ stored.normal = _from_row row

/-- The cached key is that of a row of the table. -/
def Keyed (t : AgentRuns) (identity : IdentityContext) (key run_id : String) : Prop :=
  ∃ row ∈ t.rows, row.run.result.run_id = run_id ∧ row.run.identity = identity ∧
    row.run.idempotency_key = some key

structure Coherent (s : Cluster) : Prop where
  runs : ∀ {p run_id stored}, (s.caches p).runs run_id = some stored → Backed s.table run_id stored
  idempotency : ∀ {p identity key run_id},
    (s.caches p).idempotency (identity, key) = some run_id → Keyed s.table identity key run_id

section Local

variable (a : Adapter)

/-- The last step of `save` for the run has returned `stored`. -/
def Saved (log : Log) (run stored : StoredRun) : Prop :=
  match a with
  | .sqlite => stored = run ∧ ⟨.insert run, .ok ()⟩ ∈ log
  | .postgres => ⟨.reread run, stored⟩ ∈ log

def Issues (_ : Call) (log : Log) : Cmd → Prop
  | .runs_set run_id stored => (∃ identity, ⟨.store_get run_id identity, some stored⟩ ∈ log) ∨
      (stored.result.run_id = run_id ∧ ((∃ identity key,
        ⟨.find_idempotent identity key, some stored⟩ ∈ log) ∨ ∃ run, Saved a log run stored))
  | .idempotency_set identity key run_id => ∃ stored, stored.result.run_id = run_id ∧
      (⟨.find_idempotent identity key, some stored⟩ ∈ log ∨ ∃ run, run.identity = identity ∧
        run.idempotency_key = some key ∧ Saved a log run stored)
  | .reread run => a = .postgres ∧ ⟨.insert run, .ok ()⟩ ∈ log
  | _ => True

/-- Where the result of `execute` comes from. -/
inductive Evidence (identity : IdentityContext) (key : String) (log : Log) : RunResult → Prop
  | cached {run_id stored} : ⟨.idempotency_get identity key, some run_id⟩ ∈ log →
      ⟨.runs_get run_id, some stored⟩ ∈ log → Evidence identity key log stored.result
  | found {stored} : ⟨.find_idempotent identity key, some stored⟩ ∈ log →
      Evidence identity key log stored.result
  | saved {run stored} : run.identity = identity → run.idempotency_key = some key →
      Saved a log run stored → Evidence identity key log stored.result

/-- What `get` has looked at. -/
inductive Looked (run_id : String) (identity : IdentityContext) : Log → Option StoredRun → Prop
  | cached {stored} : Looked run_id identity [⟨.runs_get run_id, some stored⟩]
      (RunService.visible stored identity)
  | missing : Looked run_id identity [⟨.runs_get run_id, none⟩, ⟨.store_get run_id identity, none⟩] none
  | stored {stored} : Looked run_id identity [⟨.runs_get run_id, none⟩,
      ⟨.store_get run_id identity, some stored⟩, ⟨.runs_set run_id stored, ()⟩]
      (RunService.visible stored identity)

def Returns : Call → Log → Except PyError Answer → Prop
  | .execute _ _ identity (some key) _ _, log, .ok (.result result) => Evidence a identity key log result
  | .get _ run_id identity, log, .ok (.stored stored) => Looked run_id identity log stored
  | _, _, _ => True

variable {a} {call : Call} {log : Log}

theorem Saved.append {run stored : StoredRun} (h : Saved a log run stored) (log' : Log) :
    Saved a (log ++ log') run stored := by
  cases a with
  | sqlite => exact ⟨h.1, List.mem_append_left _ h.2⟩
  | postgres => exact List.mem_append_left _ h

theorem sat_save {α : Type} {run : StoredRun} {f : StoredRun → Code α}
    {Q : Log → Except PyError α → Prop} (hraise : ∀ log e, Q log (.error e))
    (hf : ∀ log stored, Saved a log run stored → Program.Sat (Issues a call) Q log (f stored)) :
    Program.Sat (Issues a call) Q log ((a.save run).bind f) := by
  refine ⟨trivial, fun r => ?_⟩
  cases r with
  | error e => exact hraise _ e
  | ok u =>
    cases a with
    | sqlite => exact hf _ _ ⟨rfl, List.mem_append_right _ (.head _)⟩
    | postgres =>
      exact ⟨⟨rfl, List.mem_append_right _ (.head _)⟩,
        fun stored => hf _ _ (List.mem_append_right _ (.head _))⟩

theorem sat_run_and_store {p : Nat} {request : RunRequest} {identity : IdentityContext}
    {idempotency_key request_id trace_id : Option String} :
    Program.Sat (Issues a call) (Returns a (.execute p request identity idempotency_key request_id
      trace_id)) log ((RunService.run_and_store (some a) request identity idempotency_key request_id
        trace_id).bind fun result => .pure (.result result)) := by
  have hraise : ∀ log e, Returns a (.execute p request identity idempotency_key request_id trace_id)
      log (.error e) := by
    intro log e
    cases idempotency_key <;> trivial
  refine ⟨trivial, fun r => ?_⟩
  cases r with
  | error e => exact hraise _ e
  | ok result =>
    simp only [Program.ofExcept_ok, Program.pure_bind, Program.bind_eq, Program.bind_assoc]
    refine sat_save hraise fun log stored hsaved => ?_
    refine ⟨.inr ⟨rfl, .inr ⟨_, hsaved⟩⟩, fun _ => ?_⟩
    have hsaved' : ∀ {x}, Saved a (log ++ [x]) ⟨result, identity, idempotency_key⟩ stored :=
      hsaved.append _
    cases hkey : truthy idempotency_key with
    | none =>
      cases idempotency_key with
      | none => trivial
      | some key => exact .saved rfl rfl hsaved'
    | some key =>
      obtain rfl := truthy_some hkey
      exact ⟨⟨stored, rfl, .inr ⟨_, rfl, rfl, hsaved'⟩⟩, fun _ => .saved rfl rfl (hsaved'.append _)⟩

theorem sat_execute {p : Nat} {request : RunRequest} {identity : IdentityContext}
    {idempotency_key request_id trace_id : Option String} :
    Program.Sat (Issues a call) (Returns a (.execute p request identity idempotency_key request_id
      trace_id)) [] (program (some a) (.execute p request identity idempotency_key request_id
        trace_id)) := by
  simp only [program, RunService.execute, Program.bind_eq]
  cases hkey : truthy idempotency_key with
  | none => exact sat_run_and_store
  | some key =>
    obtain rfl := truthy_some hkey
    refine ⟨trivial, fun known => ?_⟩
    simp only [Program.pure_bind]
    cases hid : truthy known with
    | some run_id =>
      obtain rfl := truthy_some hid
      refine ⟨trivial, fun cached => ?_⟩
      cases cached with
      | none => trivial
      | some stored => exact .cached (.head _) (.tail _ (.head _))
    | none =>
      refine ⟨trivial, fun found => ?_⟩
      cases found with
      | none => exact sat_run_and_store
      | some stored =>
        exact ⟨.inr ⟨rfl, .inl ⟨identity, key, .tail _ (.head _)⟩⟩, fun _ =>
          ⟨⟨stored, rfl, .inl (.tail _ (.head _))⟩, fun _ => .found (.tail _ (.head _))⟩⟩

theorem sat_get {p : Nat} {run_id : String} {identity : IdentityContext} :
    Program.Sat (Issues a call) (Returns a (.get p run_id identity)) []
      (program (some a) (.get p run_id identity)) := by
  refine ⟨trivial, fun cached => ?_⟩
  cases cached with
  | some stored => exact .cached
  | none =>
    refine ⟨trivial, fun found => ?_⟩
    cases found with
    | none => exact .missing
    | some stored => exact ⟨.inl ⟨identity, .tail _ (.head _)⟩, fun _ => .stored⟩

theorem program_sat (call : Call) :
    Program.Sat (Issues a call) (Returns a call) [] (program (some a) call) := by
  cases call with
  | execute p request identity idempotency_key request_id trace_id => exact sat_execute
  | get p run_id identity => exact sat_get

end Local

section Known

variable (a : Adapter)

/-- The row that an answer speaks about, for the answers that speak about one. -/
def fact : (c : Cmd) → Reply c → Option (Row → Prop)
  | .idempotency_get identity key, some run_id => some fun row =>
      row.run.result.run_id = run_id ∧ row.run.identity = identity ∧ row.run.idempotency_key = some key
  | .runs_get run_id, some stored => some fun row =>
      row.run.result.run_id = run_id ∧ stored.normal = _from_row row
  | .find_idempotent identity key, some stored => some fun row =>
      row.run.identity = identity ∧ row.run.idempotency_key = some key ∧ stored = _from_row row
  | .store_get run_id identity, some stored => some fun row =>
      row.run.result.run_id = run_id ∧ row.run.identity = identity ∧ stored = _from_row row
  | .insert run, .ok () => some fun row =>
      row.run = run ∨ (a = .postgres ∧ (truthy run.idempotency_key).isSome ∧ row.run.SameKey run)
  | .reread run, stored => some fun row => row.run.identity = run.identity ∧
      row.run.idempotency_key = run.idempotency_key ∧ stored.normal = _from_row row
  | _, _ => none

def Known (t : AgentRuns) (c : Cmd) (r : Reply c) : Prop := ∀ p ∈ fact a c r, ∃ row ∈ t.rows, p row

variable {a} {t u : AgentRuns} {log : Log}

theorem Known.mono {c : Cmd} {r : Reply c} (h : Known a t c r) (htu : t.rows <+: u.rows) :
    Known a u c r := by
  intro p hp
  obtain ⟨row, hrow, hr⟩ := h p hp
  exact ⟨row, htu.subset hrow, hr⟩

theorem Backed.mono {run_id : String} {stored : StoredRun} (h : Backed t run_id stored)
    (htu : t.rows <+: u.rows) : Backed u run_id stored := by
  obtain ⟨row, hrow, hr⟩ := h
  exact ⟨row, htu.subset hrow, hr⟩

theorem Keyed.mono {identity : IdentityContext} {key run_id : String}
    (h : Keyed t identity key run_id) (htu : t.rows <+: u.rows) : Keyed u identity key run_id := by
  obtain ⟨row, hrow, hr⟩ := h
  exact ⟨row, htu.subset hrow, hr⟩

theorem saved_row {run stored : StoredRun} (h : Saved a log run stored)
    (hk : ∀ x ∈ log, Known a t x.1 x.2) : ∃ row ∈ t.rows, row.run.identity = run.identity ∧
      row.run.idempotency_key = run.idempotency_key ∧ stored.normal = _from_row row := by
  cases a with
  | postgres => exact hk _ h _ rfl
  | sqlite =>
    obtain ⟨rfl, hmem⟩ := h
    obtain ⟨row, hrow, rfl | ⟨hpost, _⟩⟩ := hk _ hmem _ rfl
    · exact ⟨row, hrow, rfl, rfl, rfl⟩
    · cases hpost

/-- `INSERT` appends at most one row and leaves one that stands for the run. -/
theorem insert_cases {run : StoredRun} {now : String} {r : Except PyError Unit}
    (h : a.insert t run now = (r, u)) : t.rows <+: u.rows ∧ Known a u (.insert run) r := by
  have inserted : ∀ {v}, t.insert? ⟨run, now⟩ = some v →
      t.rows <+: v.rows ∧ Known a v (.insert run) (.ok ()) := by
    intro v hv
    have hrows := (Table.insert?_eq_some.mp hv).2
    refine ⟨⟨_, hrows.symm⟩, ?_⟩
    rintro p ⟨⟩
    exact ⟨⟨run, now⟩, by simp [hrows], .inl rfl⟩
  have raised : ∀ {e}, t.rows <+: t.rows ∧ Known a t (.insert run) (.error e) := by
    intro e
    exact ⟨List.prefix_rfl, fun p hp => by cases hp⟩
  cases a with
  | sqlite =>
    unfold Adapter.insert SQLiteRunStore.save at h
    cases hv : t.insert? ⟨run, now⟩ with
    | none =>
      rw [hv] at h
      cases h
      exact raised
    | some v =>
      rw [hv] at h
      cases h
      exact inserted hv
  | postgres =>
    change PostgresRunStore.insert t run now = (r, u) at h
    unfold PostgresRunStore.insert at h
    split at h
    · cases h
      exact raised
    split at h
    · rename_i hconf
      cases h
      refine ⟨List.prefix_rfl, ?_⟩
      rintro p ⟨⟩
      obtain ⟨htruthy, row, hrow, hsame⟩ := hconf
      exact ⟨row, hrow, .inr ⟨rfl, htruthy, hsame⟩⟩
    · cases hv : t.insert? ⟨run, now⟩ with
      | none =>
        rw [hv] at h
        cases h
        exact raised
      | some v =>
        rw [hv] at h
        cases h
        exact inserted hv

theorem known_reread {run : StoredRun} (h : Known .postgres t (.insert run) (.ok ())) :
    Known .postgres t (.reread run) (PostgresRunStore.reread t run) := by
  rintro p ⟨⟩
  obtain ⟨row, hrow, hstands⟩ := h _ rfl
  refine ⟨row, hrow, ?_⟩
  obtain ⟨hid, hkey⟩ : row.run.identity = run.identity ∧
      row.run.idempotency_key = run.idempotency_key := by
    obtain rfl | ⟨_, _, hsame⟩ := hstands
    · exact ⟨rfl, rfl⟩
    · exact ⟨hsame.1, hsame.2.1⟩
  refine ⟨hid, hkey, ?_⟩
  unfold PostgresRunStore.reread
  cases htruthy : truthy run.idempotency_key with
  | some key =>
    simp only [find_idempotent_of_mem hrow hid (hkey.trans (truthy_some htruthy)), Option.getD_some,
      normal_from_row]
  | none =>
    obtain rfl | ⟨_, hsome, _⟩ := hstands
    · rfl
    · simp [htruthy] at hsome

end Known

section Rely

variable {a : Adapter} {s t : Cluster} {call : Call} {log : Log} {c : Cmd} {ch : Choice} {r : Reply c}

theorem rows_grow (h : s.apply a call c ch = (r, t)) : s.table.rows <+: t.table.rows := by
  cases c with
  | insert run =>
    cases h
    exact (insert_cases rfl).1
  | _ =>
    cases h
    exact List.prefix_rfl

theorem known_apply (hs : Coherent s) (hk : ∀ x ∈ log, Known a s.table x.1 x.2)
    (hI : Issues a call log c) (h : s.apply a call c ch = (r, t)) : Known a t.table c r := by
  cases c with
  | idempotency_get identity key =>
    cases h
    intro p hp
    cases hr : (s.caches call.process).idempotency (identity, key) with
    | none => rw [hr] at hp; cases hp
    | some run_id =>
      rw [hr] at hp
      cases hp
      exact hs.idempotency hr
  | runs_get run_id =>
    cases h
    intro p hp
    cases hr : (s.caches call.process).runs run_id with
    | none => rw [hr] at hp; cases hp
    | some stored =>
      rw [hr] at hp
      cases hp
      exact hs.runs hr
  | find_idempotent identity key =>
    cases h
    intro p hp
    cases hr : AgentRuns.find_idempotent s.table identity key with
    | none => rw [hr] at hp; cases hp
    | some stored =>
      rw [hr] at hp
      cases hp
      exact mem_of_find_idempotent hr
  | store_get run_id identity =>
    cases h
    intro p hp
    cases hr : AgentRuns.get s.table run_id identity with
    | none => rw [hr] at hp; cases hp
    | some stored =>
      rw [hr] at hp
      cases hp
      exact mem_of_get hr
  | insert run =>
    cases h
    exact (insert_cases rfl).2
  | reread run =>
    obtain ⟨rfl, hmem⟩ := hI
    cases h
    exact known_reread (hk _ hmem)
  | _ =>
    intro p hp
    cases hp

theorem coherent_of_same (hs : Coherent s) (hrows : s.table.rows <+: t.table.rows)
    (hcaches : t.caches = s.caches) : Coherent t := by
  refine ⟨fun h => ?_, fun h => ?_⟩
  · rw [hcaches] at h
    exact (hs.runs h).mono hrows
  · rw [hcaches] at h
    exact (hs.idempotency h).mono hrows

theorem coherent_update {p : Nat} {cache : Cache} (hs : Coherent s)
    (hruns : ∀ {run_id stored}, cache.runs run_id = some stored → Backed s.table run_id stored)
    (hidem : ∀ {identity key run_id}, cache.idempotency (identity, key) = some run_id →
      Keyed s.table identity key run_id) : Coherent (s.updateCache p cache) := by
  refine ⟨fun {q run_id stored} h => ?_, fun {q identity key run_id} h => ?_⟩ <;>
    simp only [Cluster.updateCache, Function.update_apply] at h <;> split at h
  · exact hruns h
  · exact hs.runs h
  · exact hidem h
  · exact hs.idempotency h

theorem coherent_apply (hs : Coherent s) (hk : ∀ x ∈ log, Known a s.table x.1 x.2)
    (hI : Issues a call log c) (h : s.apply a call c ch = (r, t)) : Coherent t := by
  cases c with
  | runs_set run_id stored =>
    cases h
    refine coherent_update hs (fun {run_id' stored'} h => ?_) hs.idempotency
    simp only [Function.update_apply] at h
    split at h
    · rename_i heq
      cases heq
      cases h
      obtain ⟨identity, hmem⟩ | ⟨hid, ⟨identity, key, hmem⟩ | ⟨run, hsaved⟩⟩ := hI
      · obtain ⟨row, hrow, hid, _, rfl⟩ := hk _ hmem _ rfl
        exact ⟨row, hrow, hid, normal_from_row row⟩
      · obtain ⟨row, hrow, _, _, rfl⟩ := hk _ hmem _ rfl
        exact ⟨row, hrow, hid, normal_from_row row⟩
      · obtain ⟨row, hrow, _, _, hnormal⟩ := saved_row hsaved hk
        refine ⟨row, hrow, ?_, hnormal⟩
        rw [← hid]
        exact (congrArg (fun x => x.result.run_id) hnormal).symm
    · exact hs.runs h
  | idempotency_set identity key run_id =>
    cases h
    refine coherent_update hs hs.runs fun {identity' key' run_id'} h => ?_
    simp only [Function.update_apply] at h
    split at h
    · rename_i heq
      cases heq
      cases h
      obtain ⟨stored, rfl, hmem | ⟨run, hid, hkey, hsaved⟩⟩ := hI
      · obtain ⟨row, hrow, hid, hkey, rfl⟩ := hk _ hmem _ rfl
        exact ⟨row, hrow, rfl, hid, hkey⟩
      · obtain ⟨row, hrow, hid', hkey', hnormal⟩ := saved_row hsaved hk
        refine ⟨row, hrow, ?_, hid'.trans hid, hkey'.trans hkey⟩
        exact (congrArg (fun x => x.result.run_id) hnormal).symm
    · exact hs.idempotency h
  | insert run =>
    cases h
    exact coherent_of_same hs (insert_cases rfl).1 rfl
  | _ =>
    cases h
    exact hs

/-- The caches say nothing about the table that is not so, and what a call has read
stays true. -/
def rely (a : Adapter) (G : State → Action → Prop) : (pool a).Rely G (Issues a) where
  inv _ s := Coherent s
  known _ s _ c r := Known a s.table c r
  step _ _ hs hk hI _ _ h :=
    ⟨coherent_apply hs hk hI h, known_apply hs hk hI h, fun hk' => hk'.mono (rows_grow h)⟩
  quiet _ hs := ⟨hs, id⟩
  env hs := ⟨coherent_update hs (fun h => by cases h) (fun h => by cases h), id⟩

theorem coherent_start (t : AgentRuns) : Coherent { table := t } :=
  ⟨fun h => (by cases h), fun h => (by cases h)⟩

end Rely

end EnterpriseCopilot.Runs
