import EnterpriseCopilot.Lib.Pool
import EnterpriseCopilot.Runs.Store

/-! `RunService` in any number of API processes that share one run table. -/

namespace EnterpriseCopilot.Runs

open EnterpriseCopilot.Lib EnterpriseCopilot.Python EnterpriseCopilot.Runtime

structure RunRequest where
  query : String
  order_id : Option String := none
  allow_external_processing : Bool := false
  deriving DecidableEq

/-- Accesses to the caches of a process, to its runtime and to the table. -/
inductive Cmd
  | idempotency_get (identity : IdentityContext) (key : String)
  | idempotency_set (identity : IdentityContext) (key run_id : String)
  | runs_get (run_id : String)
  | runs_set (run_id : String) (stored : StoredRun)
  | run (request : RunRequest) (identity : IdentityContext) (request_id trace_id : Option String)
  | find_idempotent (identity : IdentityContext) (key : String)
  | store_get (run_id : String) (identity : IdentityContext)
  | insert (run : StoredRun)
  | reread (run : StoredRun)

abbrev Reply : Cmd → Type
  | .idempotency_get _ _ => Option String
  | .runs_get _ | .find_idempotent _ _ | .store_get _ _ => Option StoredRun
  | .idempotency_set _ _ _ | .runs_set _ _ => Unit
  | .run _ _ _ _ => Except PyError RunResult
  | .insert _ => Except PyError Unit
  | .reread _ => StoredRun

abbrev Code := Program Cmd Reply PyError

namespace Code

def idempotency_get (identity : IdentityContext) (key : String) : Code (Option String) :=
  .cmd (.idempotency_get identity key) .pure
def idempotency_set (identity : IdentityContext) (key run_id : String) : Code Unit :=
  .cmd (.idempotency_set identity key run_id) .pure
def runs_get (run_id : String) : Code (Option StoredRun) := .cmd (.runs_get run_id) .pure
def runs_set (run_id : String) (stored : StoredRun) : Code Unit := .cmd (.runs_set run_id stored) .pure
def run (request : RunRequest) (identity : IdentityContext) (request_id trace_id : Option String) :
    Code RunResult := .cmd (.run request identity request_id trace_id) Program.ofExcept
def find_idempotent (identity : IdentityContext) (key : String) : Code (Option StoredRun) :=
  .cmd (.find_idempotent identity key) .pure
def store_get (run_id : String) (identity : IdentityContext) : Code (Option StoredRun) :=
  .cmd (.store_get run_id identity) .pure
def insert (run : StoredRun) : Code Unit := .cmd (.insert run) Program.ofExcept
def reread (run : StoredRun) : Code StoredRun := .cmd (.reread run) .pure

end Code

inductive Adapter
  | sqlite | postgres
  deriving DecidableEq

/-- `save` as the statements it sends. -/
def Adapter.save (a : Adapter) (run : StoredRun) : Code StoredRun := do
  Code.insert run
  match a with
  | .sqlite => return run
  | .postgres => Code.reread run

namespace RunService

/-- The second half of `execute`, from the call of the runtime on. -/
def run_and_store (store : Option Adapter) (request : RunRequest) (identity : IdentityContext)
    (idempotency_key request_id trace_id : Option String) : Code RunResult := do
  let result ← Code.run request identity request_id trace_id
  let stored ← match store with
    | some a => a.save ⟨result, identity, idempotency_key⟩
    | none => pure ⟨result, identity, idempotency_key⟩
  Code.runs_set stored.result.run_id stored
  match truthy idempotency_key with
  | some key =>
    Code.idempotency_set identity key stored.result.run_id
    return stored.result
  | none => return stored.result

def execute (store : Option Adapter) (request : RunRequest) (identity : IdentityContext)
    (idempotency_key request_id trace_id : Option String) : Code RunResult :=
  let rest := run_and_store store request identity idempotency_key request_id trace_id
  match truthy idempotency_key with
  | none => rest
  | some key => do
    match truthy (← Code.idempotency_get identity key) with
    | some run_id =>
      match ← Code.runs_get run_id with
      | some stored => return stored.result
      | none => throw (.keyError run_id)
    | none =>
      match store with
      | none => rest
      | some _ =>
        match ← Code.find_idempotent identity key with
        | some persisted =>
          Code.runs_set persisted.result.run_id persisted
          Code.idempotency_set identity key persisted.result.run_id
          return persisted.result
        | none => rest

/-- The identity fields that `get` compares. -/
def SameScope (a b : IdentityContext) : Prop :=
  a.workspace_id = b.workspace_id ∧ a.tenant_id = b.tenant_id ∧ a.user_id = b.user_id

instance : DecidableRel SameScope := fun a b =>
  inferInstanceAs (Decidable (a.workspace_id = b.workspace_id ∧ _ ∧ _))

def visible (stored : StoredRun) (identity : IdentityContext) : Option StoredRun :=
  if SameScope stored.identity identity then some stored else none

def get (store : Option Adapter) (run_id : String) (identity : IdentityContext) :
    Code (Option StoredRun) := do
  match ← Code.runs_get run_id with
  | some stored => return visible stored identity
  | none =>
    match store with
    | none => return none
    | some _ =>
      match ← Code.store_get run_id identity with
      | none => return none
      | some stored =>
        Code.runs_set run_id stored
        return visible stored identity

end RunService

/-- Calls that the process with the given number serves. -/
inductive Call
  | execute (process : Nat) (request : RunRequest) (identity : IdentityContext)
      (idempotency_key request_id trace_id : Option String)
  | get (process : Nat) (run_id : String) (identity : IdentityContext)
  deriving DecidableEq

def Call.process : Call → Nat
  | .execute p _ _ _ _ _ | .get p _ _ => p

inductive Answer
  | result (result : RunResult)
  | stored (stored : Option StoredRun)
  deriving DecidableEq

def program (store : Option Adapter) : Call → Code Answer
  | .execute _ request identity idempotency_key request_id trace_id => do
    return .result (← RunService.execute store request identity idempotency_key request_id trace_id)
  | .get _ run_id identity => do return .stored (← RunService.get store run_id identity)

/-- The dictionaries of one `RunService`. -/
structure Cache where
  runs : String → Option StoredRun := fun _ => none
  idempotency : IdentityContext × String → Option String := fun _ => none

structure Cluster where
  table : AgentRuns
  caches : Nat → Cache := fun _ => {}

/-- What the commands do not determine: the answer of the runtime and the time of day. -/
structure Choice where
  run : Except PyError RunResult := .error (.exception "Exception")
  now : String := ""

def Adapter.insert (a : Adapter) (t : AgentRuns) (run : StoredRun) (now : String) :
    Except PyError Unit × AgentRuns :=
  match a with
  | .postgres => PostgresRunStore.insert t run now
  | .sqlite =>
    let o := SQLiteRunStore.save t run now
    (o.1.map fun _ => (), o.2)

namespace Cluster

def updateCache (s : Cluster) (p : Nat) (cache : Cache) : Cluster :=
  { s with caches := Function.update s.caches p cache }

def apply (a : Adapter) (s : Cluster) (call : Call) (c : Cmd) (ch : Choice) : Reply c × Cluster :=
  let cache := s.caches call.process
  match c with
  | .idempotency_get identity key => (cache.idempotency (identity, key), s)
  | .idempotency_set identity key run_id => ((), s.updateCache call.process
      { cache with idempotency := Function.update cache.idempotency (identity, key) (some run_id) })
  | .runs_get run_id => (cache.runs run_id, s)
  | .runs_set run_id stored => ((), s.updateCache call.process
      { cache with runs := Function.update cache.runs run_id (some stored) })
  | .run _ _ _ _ => (ch.run, s)
  | .find_idempotent identity key => (AgentRuns.find_idempotent s.table identity key, s)
  | .store_get run_id identity => (AgentRuns.get s.table run_id identity, s)
  | .insert run => ((a.insert s.table run ch.now).1, { s with table := (a.insert s.table run ch.now).2 })
  | .reread run => (PostgresRunStore.reread s.table run, s)

end Cluster

/-- A restart empties the caches of a process. -/
def pool (a : Adapter) : Pool Cluster Cmd Reply Choice Nat Call PyError Answer where
  program := program (some a)
  apply := Cluster.apply a
  env s p := s.updateCache p {}

abbrev State := Pool.State Cluster Cmd Reply Call PyError Answer
abbrev Action := Pool.Action Choice Nat Call
abbrev Event := Pool.Event Cmd Reply Nat Call PyError Answer
abbrev Log := Exchange Cmd Reply

end EnterpriseCopilot.Runs
