import EnterpriseCopilot.Runs.Replicas
import EnterpriseCopilot.Runtime.Trail

/-! `RunService.execute` around a run of the agent. -/

namespace EnterpriseCopilot.Runs

open EnterpriseCopilot.Lib EnterpriseCopilot.Python EnterpriseCopilot.Runtime

/-- A process with its audit log. -/
structure Host where
  audit : List AuditEvent
  cluster : Cluster

structure HostChoice where
  run : Nat → Runtime.Choice
  now : String

/-- The command `run` is a run of the agent. -/
def Host.apply (s : Host) (rt : AgentRuntime) (env : Collaborators) (a : Adapter) (call : Call)
    (c : Cmd) (ch : HostChoice) : Reply c × Host :=
  match c with
  | .run request identity request_id trace_id =>
    let o := rt.outcome (some request.query) identity request.order_id request_id trace_id
      request.allow_external_processing env ch.run s.audit
    (o.result, { s with audit := o.state })
  | c =>
    let o := s.cluster.apply a call c { now := ch.now }
    (o.1, { s with cluster := o.2 })

/-- The types of the events that end a run. -/
def isTerminal (event_type : String) : Bool :=
  event_type ∈ ["run.succeeded", "run.partial_success", "run.blocked", "run.failed", "run.cancelled"]

/-- The call has appended one terminal event and stored the run with its status. -/
def Settled (identity : IdentityContext) (s t : Host) : Prop :=
  ∃ trail e status, t.audit = s.audit ++ trail ∧
    trail.filter (fun e => isTerminal e.event_type) = [e] ∧ e.event_type = "run." ++ status.value ∧
    ∃ row ∈ t.cluster.table.rows, row.run.result.run_id = e.run_id ∧ row.run.result.status = status ∧
      row.run.identity = identity

section Words

theorem terminal_span {span : List String} (h : SpanWord span) : span.filter isTerminal = [] := by
  obtain rfl | rfl := h <;> decide

theorem terminal_model {word : List String} (h : ModelWord word) : word.filter isTerminal = [] := by
  cases h with
  | none => rfl
  | blocked => decide
  | failed hspan =>
    rw [List.filter_append, terminal_span hspan]
    decide
  | completed hspan =>
    rw [List.filter_append, terminal_span hspan]
    decide

theorem terminal_word {status : RunStatus} {word : List String} (h : RunWord status word) :
    word.filter isTerminal = ["run." ++ status.value] := by
  cases h with
  | refused => decide
  | denied => decide
  | failed hspan =>
    rw [List.filter_append, List.filter_append, terminal_span hspan]
    decide
  | answered hspan hmodel hstatus =>
    simp only [List.filter_append, terminal_span hspan, terminal_model hmodel]
    obtain rfl | rfl := hstatus <;> decide

theorem filter_types (trail : List AuditEvent) :
    (trail.filter fun e => isTerminal e.event_type).map AuditEvent.event_type =
      (trail.map AuditEvent.event_type).filter isTerminal := by
  rw [List.filter_map]
  rfl

end Words

section Store

variable {a : Adapter} {t : AgentRuns} {run : StoredRun}

/-- A run with a text that cannot be a parameter is not stored. -/
theorem insert_refused (now : String) (ha : a = .postgres) (hnul : run.params.any hasNul = true) :
    a.insert t run now = (.error (.exception "DataError"), t) := by
  subst ha
  change PostgresRunStore.insert t run now = _
  rw [PostgresRunStore.insert, if_pos hnul]

/-- A run with a new identifier and a new key is stored. -/
theorem insert_new (now : String) (hnul : a = .postgres → run.params.any hasNul = false)
    (hid : ∀ row ∈ t.rows, row.run.result.run_id ≠ run.result.run_id)
    (hkey : ∀ row ∈ t.rows, ¬ row.run.SameKey run) :
    ∃ u, a.insert t run now = (.ok (), u) ∧ u.rows = t.rows ++ [⟨run, now⟩] := by
  have hconf : ¬ t.Conflicts ⟨run, now⟩ := by
    rintro ⟨row, hrow, hsame | hsame⟩
    · exact hid row hrow hsame
    · exact hkey row hrow hsame
  obtain ⟨u, hu⟩ := Option.ne_none_iff_exists'.mp fun h => hconf (Table.insert?_eq_none.mp h)
  refine ⟨u, ?_, (Table.insert?_eq_some.mp hu).2⟩
  cases a with
  | sqlite =>
    unfold Adapter.insert SQLiteRunStore.save
    rw [hu]
    rfl
  | postgres =>
    have hnone : ¬ ((truthy run.idempotency_key).isSome ∧ ∃ r ∈ t.rows, r.run.SameKey run) := by
      rintro ⟨_, row, hrow, hsame⟩
      exact hkey row hrow hsame
    change PostgresRunStore.insert t run now = _
    rw [PostgresRunStore.insert, if_neg (by simp [hnul rfl]), if_neg hnone, hu]

end Store

section Execute

variable {rt : AgentRuntime} {env : Collaborators} {a : Adapter} {call : Call} {s t : Host}
  {request : RunRequest} {identity : IdentityContext}
  {idempotency_key request_id trace_id : Option String} {log : Log} {P : HostChoice → Prop}

/-- An execution whose choices meet `P`. -/
abbrev HostExec (rt : AgentRuntime) (env : Collaborators) (a : Adapter) (call : Call)
    (P : HostChoice → Prop) {α : Type} (p : Code α) (s : Host) (log : Log) (o : Except PyError α)
    (t : Host) : Prop :=
  Program.Exec (fun s c (ch : Subtype P) => s.apply rt env a call c ch) p s log o t

/-- What `execute` does with the stored run. -/
def remember (identity : IdentityContext) (idempotency_key : Option String) (stored : StoredRun) :
    Code RunResult := do
  Code.runs_set stored.result.run_id stored
  match truthy idempotency_key with
  | some key =>
    Code.idempotency_set identity key stored.result.run_id
    return stored.result
  | none => return stored.result

theorem exec_remember {stored : StoredRun} {o : Except PyError RunResult}
    (h : HostExec rt env a call P (remember identity idempotency_key stored) s log o t) :
    t.audit = s.audit ∧ t.cluster.table = s.cluster.table := by
  obtain ⟨ch, _, rfl, h₁⟩ := Program.exec_issue.mp h
  dsimp only [Program.pure_bind] at h₁
  split at h₁
  · obtain ⟨ch', _, rfl, h₂⟩ := Program.exec_issue.mp h₁
    obtain ⟨_, _, rfl⟩ := Program.exec_pure.mp h₂
    exact ⟨rfl, rfl⟩
  · obtain ⟨_, _, rfl⟩ := Program.exec_pure.mp h₁
    exact ⟨rfl, rfl⟩

/-- After the runtime has returned, the run is stored. -/
theorem exec_stored {result : RunResult} {o : Except PyError RunResult}
    (hnul : a = .postgres → (StoredRun.mk result identity idempotency_key).params.any hasNul = false)
    (hid : ∀ row ∈ s.cluster.table.rows, row.run.result.run_id ≠ result.run_id)
    (hkey : ∀ row ∈ s.cluster.table.rows, ¬ row.run.SameKey ⟨result, identity, idempotency_key⟩)
    (h : HostExec rt env a call P ((a.save ⟨result, identity, idempotency_key⟩).bind
      (remember identity idempotency_key)) s log o t) :
    t.audit = s.audit ∧ ∃ now, t.cluster.table.rows =
      s.cluster.table.rows ++ [⟨⟨result, identity, idempotency_key⟩, now⟩] := by
  obtain ⟨ch, _, rfl, h₁⟩ := Program.exec_issue.mp h
  obtain ⟨u, hu, hrows⟩ := insert_new (a := a) ch.1.now hnul hid hkey
  dsimp only [Host.apply, Cluster.apply] at h₁
  rw [hu] at h₁
  cases a with
  | sqlite =>
    obtain ⟨haudit, htable⟩ := exec_remember h₁
    exact ⟨haudit, ch.1.now, by rw [htable, hrows]⟩
  | postgres =>
    obtain ⟨ch', _, rfl, h₂⟩ := Program.exec_issue.mp h₁
    obtain ⟨haudit, htable⟩ := exec_remember h₂
    exact ⟨haudit, ch.1.now, by rw [htable]; exact hrows⟩

/-- After the runtime has returned, the store refuses the run. -/
theorem exec_refused {result : RunResult} {o : Except PyError RunResult} (ha : a = .postgres)
    (hnul : (StoredRun.mk result identity idempotency_key).params.any hasNul = true)
    (h : HostExec rt env a call P ((a.save ⟨result, identity, idempotency_key⟩).bind
      (remember identity idempotency_key)) s log o t) : t = s := by
  obtain ⟨ch, _, rfl, h₁⟩ := Program.exec_issue.mp h
  dsimp only [Host.apply, Cluster.apply] at h₁
  rw [insert_refused _ ha hnul] at h₁
  obtain ⟨_, _, rfl⟩ := Program.exec_throw.mp h₁
  rfl

/-- No earlier run of the caller has the key: the lookups of `execute` find nothing. -/
structure NewKey (s : Host) (call : Call) (identity : IdentityContext) (idempotency_key : Option String) :
    Prop where
  cache : ∀ key, truthy idempotency_key = some key →
    truthy ((s.cluster.caches call.process).idempotency (identity, key)) = none
  store : ∀ key, truthy idempotency_key = some key →
    AgentRuns.find_idempotent s.cluster.table identity key = none

/-- `execute` runs the agent and stores what it returns. -/
theorem exec_execute {o : Except PyError RunResult} (hnew : NewKey s call identity idempotency_key)
    (h : HostExec rt env a call P (RunService.execute (some a) request identity idempotency_key request_id
      trace_id) s log o t) : ∃ log', HostExec rt env a call P
        (RunService.run_and_store (some a) request identity idempotency_key request_id trace_id)
        s log' o t := by
  unfold RunService.execute at h
  dsimp only at h
  split at h
  · exact ⟨_, h⟩
  · rename_i key hkey
    obtain ⟨ch, _, rfl, h₁⟩ := Program.exec_issue.mp h
    dsimp only [Program.pure_bind, Host.apply, Cluster.apply] at h₁
    rw [hnew.cache key hkey] at h₁
    obtain ⟨ch', _, rfl, h₂⟩ := Program.exec_issue.mp h₁
    dsimp only [Program.pure_bind, Host.apply, Cluster.apply] at h₂
    rw [hnew.store key hkey] at h₂
    exact ⟨_, h₂⟩

theorem not_sameKey {result : RunResult} (hkey : idempotency_key ≠ some "")
    (hnew : NewKey s call identity idempotency_key) :
    ∀ row ∈ s.cluster.table.rows, ¬ row.run.SameKey ⟨result, identity, idempotency_key⟩ := by
  rintro row hrow ⟨hid, hsame, hsome⟩
  obtain ⟨key, hk⟩ := Option.ne_none_iff_exists'.mp hsome
  have hkey' : idempotency_key = some key := hsame.symm.trans hk
  have htruthy : truthy idempotency_key = some key := by
    rw [hkey'] at hkey ⊢
    have hne : key ≠ "" := fun h => hkey (by rw [h])
    simp [truthy, hne]
  have hfound := hnew.store key htruthy
  rw [find_idempotent_of_mem hrow hid hk] at hfound
  cases hfound

/-- The collaborators, where the run calls them, make the run raise. -/
def Breaks (rt : AgentRuntime) (env : Collaborators) (request : RunRequest) (identity : IdentityContext) :
    Prop :=
  ∃ q order, Reaches rt identity (some request.query) request.order_id q order ∧
    CallRaises rt env identity order request.allow_external_processing

/-- The store does not take a text of the run: one of the caller, or one that the answer quotes. -/
def Refuses (rt : AgentRuntime) (env : Collaborators) (a : Adapter) (request : RunRequest)
    (identity : IdentityContext) (idempotency_key trace_id : Option String) : Prop :=
  a = .postgres ∧ ∃ text, hasNul text = true ∧
    (text ∈ [identity.user_id, identity.workspace_id, identity.tenant_id, identity.role] ++
        idempotency_key.toList ++ (truthy trace_id).toList ∨
      ∃ q order, Reaches rt identity (some request.query) request.order_id q order ∧
        text ∈ quoted rt env identity order request.allow_external_processing)

/-- The parameters of the `INSERT`: identifiers, what the answer says, and texts of the caller. -/
theorem params_hasNul {result : RunResult} (hrun : hasNul result.run_id = false)
    (htrace : hasNul result.trace_id = (truthy trace_id).any hasNul) :
    (StoredRun.mk result identity idempotency_key).params.any hasNul = true ↔
      result.told.any hasNul = true ∨ ∃ text ∈ [identity.user_id, identity.workspace_id, identity.tenant_id,
        identity.role] ++ idempotency_key.toList ++ (truthy trace_id).toList, hasNul text = true := by
  have hstatus : hasNul result.status.value = false := by
    cases result.status <;> decide
  have hsplit : (StoredRun.mk result identity idempotency_key).params =
      [result.run_id, result.status.value, result.trace_id] ++ result.told ++ [identity.user_id,
        identity.workspace_id, identity.tenant_id, identity.role] ++ idempotency_key.toList := by
    simp [StoredRun.params, RunResult.told]
  rw [hsplit, ← List.any_eq_true]
  simp only [List.any_append, List.any_cons, List.any_nil, hrun, hstatus, htrace, Bool.or_false, Bool.false_or,
    Bool.or_eq_true]
  cases truthy trace_id <;> simp <;> grind

theorem Ctx.trace_hasNul {x : Ctx} (hfor : x.For identity request_id trace_id)
    (hdrawn : truthy trace_id = none → ∃ uuid, x.trace_id = "trace-" ++ uuid ∧ hasNul uuid = false) :
    hasNul x.trace_id = (truthy trace_id).any hasNul := by
  cases htrace : truthy trace_id with
  | some given_id => rw [hfor.trace_id given_id htrace, Option.any_some]
  | none =>
    obtain ⟨uuid, htext, hplain⟩ := hdrawn htrace
    have hstem : hasNul "trace-" = false := by decide
    rw [htext, hasNul_append, hstem, hplain]
    rfl

/-- What a uuid is: no stored run has it, and it can be stored. -/
structure Drawn (s : Host) (ch : HostChoice) : Prop where
  fresh : ∀ n, ∀ row ∈ s.cluster.table.rows, row.run.result.run_id ≠ "run-" ++ (ch.run n).text
  plain : ∀ n, hasNul (ch.run n).text = false

theorem uuid_drawn {p : Runtime.Code RunResult} {ω : Nat → Runtime.Choice} {audit : List AuditEvent} {uuid : String}
    (h : ⟨.uuid4, uuid⟩ ∈ (Program.run (Runtime.apply env) p ω audit).log) : ∃ n, uuid = (ω n).text := by
  obtain ⟨n, _, huuid⟩ := Program.mem_log _ _ h
  exact ⟨n, huuid⟩

section Left

variable {trail : List AuditEvent} {run_id : String} (haudit : t.audit = s.audit ++ trail)
include haudit

/-- No event has ended the run. -/
theorem not_settled_of_open (hnone : trail.filter (fun e => isTerminal e.event_type) = []) : ¬ Settled identity s t := by
  rintro ⟨trail', e, _, haudit', hone, _⟩
  obtain rfl : trail = trail' := List.append_cancel_left (haudit.symm.trans haudit')
  rw [hnone] at hone
  cases hone

/-- The run is not in the store. -/
theorem not_settled_of_unstored (howns : ∀ e ∈ trail, e.run_id = run_id)
    (hnew : ∀ row ∈ t.cluster.table.rows, row.run.result.run_id ≠ run_id) : ¬ Settled identity s t := by
  rintro ⟨trail', e, _, haudit', hone, _, row, hrow, hid, _⟩
  obtain rfl : trail = trail' := List.append_cancel_left (haudit.symm.trans haudit')
  have hmem : e ∈ trail := (List.mem_filter.mp (hone ▸ List.mem_singleton_self e)).1
  exact hnew row hrow (hid.trans (howns e hmem))

theorem settled_of_stored {result : RunResult} {now : String} (howns : ∀ e ∈ trail, e.run_id = result.run_id)
    (hterminal : (trail.filter fun e => isTerminal e.event_type).map AuditEvent.event_type =
      ["run." ++ result.status.value])
    (hrow : ⟨⟨result, identity, idempotency_key⟩, now⟩ ∈ t.cluster.table.rows) : Settled identity s t := by
  obtain ⟨e, he, htype⟩ := List.map_eq_singleton_iff.mp hterminal
  have hmem : e ∈ trail := (List.mem_filter.mp (he ▸ List.mem_singleton_self e)).1
  exact ⟨trail, e, result.status, haudit, he, htype, _, hrow, (howns e hmem).symm, rfl, rfl⟩

end Left

/-- What the call leaves behind when the agent raises, when the store does and when both return. -/
theorem exec_run_and_store {o : Except PyError RunResult} (hkey : idempotency_key ≠ some "")
    (hnew : NewKey s call identity idempotency_key) (hdraw : ∀ ch, P ch → Drawn s ch)
    (h : HostExec rt env a call P
      (RunService.run_and_store (some a) request identity idempotency_key request_id trace_id) s log o t) :
    Settled identity s t ↔ ¬ Breaks rt env request identity ∧
      ¬ Refuses rt env a request identity idempotency_key trace_id := by
  obtain ⟨ch, _, rfl, h₁⟩ := Program.exec_issue.mp h
  obtain ⟨x, hfor, ⟨⟨uuid, hrunid, hdrawn⟩, htraced⟩, _, word, hw, hended⟩ := exec_run (Program.exec_of_run
    (Runtime.apply env) (rt.run (some request.query) identity request.order_id request_id trace_id
      request.allow_external_processing) ch.1.run s.audit)
  obtain ⟨n, rfl⟩ := uuid_drawn hdrawn
  have htracenul : hasNul x.trace_id = (truthy trace_id).any hasNul := by
    refine Ctx.trace_hasNul hfor fun hnone => ?_
    obtain ⟨uuid, htext, hmem⟩ := htraced hnone
    obtain ⟨n', rfl⟩ := uuid_drawn hmem
    exact ⟨_, htext, (hdraw ch ch.2).plain n'⟩
  have hrunnul : hasNul x.run_id = false := by
    have hstem : hasNul "run-" = false := by decide
    rw [hrunid, hasNul_append, hstem, (hdraw ch ch.2).plain n]
    rfl
  obtain ⟨trail, hstate, hword, howns⟩ := hw.trail
  dsimp only [Host.apply, AgentRuntime.outcome] at h₁
  generalize Program.run (Runtime.apply env) (rt.run (some request.query) identity request.order_id
    request_id trace_id request.allow_external_processing) ch.1.run s.audit = out at *
  obtain ⟨outcome, audit, _⟩ := out
  dsimp only at hstate hended h₁
  subst hstate
  have hterminal := filter_types trail
  rw [hword] at hterminal
  cases hended with
  | @raised e _ q order hreach hraises hopen =>
    obtain ⟨rfl, rfl, rfl⟩ := Program.exec_throw.mp h₁
    refine iff_of_false ?_ fun hfine => hfine.1 ⟨q, order, hfor.identity ▸ hreach, hfor.identity ▸ hraises⟩
    have hnone : ("run.created" :: word).filter isTerminal = [] := by
      obtain rfl | ⟨span, hspan, rfl⟩ := hopen
      · decide
      · rw [List.filter_cons_of_neg (by decide), List.filter_append, List.filter_append,
          terminal_span hspan]
        decide
    rw [hnone, List.map_eq_nil_iff] at hterminal
    exact not_settled_of_open rfl hterminal
  | @returned result _ hrun htrace htold _ hfine hrunword =>
    have hcalm : ¬ Breaks rt env request identity := by
      rintro ⟨q, order, hreach, hraises⟩
      exact hfine q order (hfor.identity.symm ▸ hreach) (hfor.identity.symm ▸ hraises)
    have hparams : (StoredRun.mk result identity idempotency_key).params.any hasNul = true ↔
        result.told.any hasNul = true ∨ ∃ text ∈ [identity.user_id, identity.workspace_id, identity.tenant_id,
          identity.role] ++ idempotency_key.toList ++ (truthy trace_id).toList, hasNul text = true :=
      params_hasNul (hrun ▸ hrunnul) (htrace ▸ htracenul)
    rw [htold, hfor.identity] at hparams
    have hrefuses : Refuses rt env a request identity idempotency_key trace_id ↔
        a = .postgres ∧ (StoredRun.mk result identity idempotency_key).params.any hasNul = true := by
      rw [hparams, Refuses]
      simp only [List.any_eq_true]
      grind
    by_cases hrefused : Refuses rt env a request identity idempotency_key trace_id
    · obtain ⟨ha, hnul⟩ := hrefuses.mp hrefused
      refine iff_of_false ?_ fun hgood => hgood.2 hrefused
      obtain rfl := exec_refused ha hnul h₁
      exact not_settled_of_unstored rfl (fun e he => (howns e he).run_id.trans hrunid) ((hdraw ch ch.2).fresh n)
    · have hplain : a = .postgres → (StoredRun.mk result identity idempotency_key).params.any hasNul = false :=
        fun ha => Bool.eq_false_iff.mpr fun hnul => hrefused (hrefuses.mpr ⟨ha, hnul⟩)
      obtain ⟨haudit, now, hrows⟩ := exec_stored (s := { s with audit := s.audit ++ trail }) hplain
        (fun row hrow => by
          rw [hrun, hrunid]
          exact (hdraw ch ch.2).fresh n row hrow)
        (not_sameKey (s := { s with audit := s.audit ++ trail }) hkey ⟨hnew.cache, hnew.store⟩) h₁
      refine iff_of_true ?_ ⟨hcalm, hrefused⟩
      rw [terminal_word hrunword] at hterminal
      exact settled_of_stored haudit (fun e he => (howns e he).run_id.trans hrun.symm) hterminal
        (hrows ▸ List.mem_append_right _ (.head _))

end Execute

section Dangling

variable (rt : AgentRuntime) (env : Collaborators) (a : Adapter) (s : Host) (p : Nat)
  (request : RunRequest) (identity : IdentityContext)
  (idempotency_key request_id trace_id : Option String) (ω : Nat → HostChoice)

def Host.execute : Program.Outcome Host Cmd Reply PyError RunResult :=
  Program.run (fun s c ch => s.apply rt env a (.execute p request identity idempotency_key request_id
    trace_id) c ch) (RunService.execute (some a) request identity idempotency_key request_id trace_id)
    ω s

/-- A run that was started is brought to an end and stored exactly if no collaborator that it
calls raises, the `ModelProviderError` of the model provider aside, and the store takes its texts. -/
theorem settled_iff (hkey : idempotency_key ≠ some "")
    (hnew : NewKey s (.execute p request identity idempotency_key request_id trace_id) identity
      idempotency_key)
    (hdraw : ∀ m, Drawn s (ω m)) :
    Settled identity s (s.execute rt env a p request identity idempotency_key request_id trace_id ω).state ↔
      ¬ Breaks rt env request identity ∧
        ¬ Refuses rt env a request identity idempotency_key trace_id := by
  have hexec := Program.exec_of_run_where (fun (s : Host) c ch => s.apply rt env a (.execute p request
    identity idempotency_key request_id trace_id) c ch)
    (P := Drawn s) (RunService.execute (some a) request identity idempotency_key request_id trace_id) s hdraw
  obtain ⟨log, hrun⟩ := exec_execute hnew hexec
  exact exec_run_and_store hkey hnew (fun _ hch => hch) hrun

end Dangling

section Sample

def sampleHost : Host := ⟨[], { table := Table.empty }⟩

def sampleOrder : RunRequest :=
  { query := "Where is my order?", order_id := some "SO-1", allow_external_processing := true }

def hostChoices (_ : Nat) : HostChoice := ⟨Runtime.sampleChoices, "2026-07-01 02:00:00"⟩

theorem settled_sample : Settled sampleCaller sampleHost (sampleHost.execute sampleRuntime sampleAnswers
    .postgres 0 sampleOrder sampleCaller (some "retry-1") none none hostChoices).state := by
  refine (settled_iff sampleRuntime sampleAnswers .postgres sampleHost 0 sampleOrder sampleCaller
    (some "retry-1") none none hostChoices (by decide) ⟨fun _ _ => rfl, fun _ _ => rfl⟩ ?_).mpr ⟨?_, ?_⟩
  · refine fun _ => ⟨fun n row hrow => ?_, fun _ => (by decide : hasNul "5a0e" = false)⟩
    cases hrow
  · rintro ⟨q, order, _, ⟨e, he⟩ | ⟨r, _, _, _, _, e, he⟩⟩
    · cases he
    · cases he
  · rintro ⟨_, text, hnul, hmem | ⟨q, order, ⟨_, ⟨raw, hraw, rfl⟩, _⟩, hmem⟩⟩
    · have hplain : ∀ text ∈ ["user-1", "workspace-a", "tenant-a", "support", "retry-1"], hasNul text = false := by
        decide
      exact absurd hnul (by rw [hplain text hmem]; simp)
    · obtain rfl : "SO-1" = raw := Option.some.inj hraw
      have hplain : ∀ text ∈ quoted sampleRuntime sampleAnswers sampleCaller (str_strip "SO-1") true,
          hasNul text = false := by decide
      exact absurd hnul (by rw [hplain text hmem]; simp)

/-- A gateway that raises, here while it encodes a header, leaves the run without an end. -/
theorem run_dangles : ¬ ∀ env, Settled sampleCaller sampleHost (sampleHost.execute sampleRuntime env
    .sqlite 0 sampleOrder sampleCaller (some "retry-1") none none hostChoices).state := by
  intro h
  obtain ⟨trail, e, _, haudit, hone, _⟩ :=
    h ⟨.error (.exception "UnicodeEncodeError"), .error (.provider "ModelProviderError")⟩
  have htypes : (trail.map AuditEvent.event_type) = ["run.created", "policy.decided"] :=
    (congrArg (List.map AuditEvent.event_type) haudit).symm
  have hterminal := filter_types trail
  rw [hone, htypes] at hterminal
  cases hterminal

end Sample

end EnterpriseCopilot.Runs
