import EnterpriseCopilot.Lib.Pool
import EnterpriseCopilot.Queue.Redis

/-! Leases on scheduled runs.  Any number of clients claim and complete runs; their
Redis commands interleave freely and state keys expire at any time. -/

namespace EnterpriseCopilot.Queue.Lease

open EnterpriseCopilot.Lib EnterpriseCopilot.Python

inductive Call
  | claim (idempotency_key : String) (lease_seconds retention_seconds : Int)
  | complete (idempotency_key token : String) (retention_seconds : Int)

inductive Answer
  | claim (c : RunClaim)
  | done

def program (q : Config) : Call → Code Answer
  | .claim key lease retention => do return .claim (← q.claim_run key lease retention)
  | .complete key token retention => do
    q.complete_run key token retention
    return .done

/-- Clients of one queue; the environment lets keys expire. -/
def pool (q : Config) : Pool Redis Cmd Reply Choice String Call PyError Answer where
  program := program q
  apply s _ := s.apply 0
  env := Redis.expire

abbrev State := Pool.State Redis Cmd Reply Call PyError Answer
abbrev Action := Pool.Action Choice String Call
abbrev Event := Pool.Event Cmd Reply String Call PyError Answer
abbrev Log := Exchange Cmd Reply

/-- The tokens of leases are drawn by `uuid4`. -/
def draws (q : Config) : (pool q).Draws String where
  value
    | .uuid4, t => some t
    | _, _ => none
  drawn s t := t ∈ s.uuids
  keep := fun {s _ c ch _} h => Redis.uuids_subset_apply s 0 c ch h
  keep_env h := h
  add := by
    intro s call c ch x h
    cases c <;> simp only [Option.some.injEq, reduceCtorEq] at h
    subst h
    exact List.mem_cons_self

/-- `claim_run` on the key returned `claimed` with the token. -/
def claimed? : Event → Option (String × String)
  | .did _ (.claim key _ _) _ _ (some (.ok (.claim ⟨.claimed, some token⟩))) => some (key, token)
  | _ => none

/-- `complete_run` on the key with the token returned. -/
def completed? : Event → Option (String × String)
  | .did _ (.complete key token _) _ _ (some (.ok .done)) => some (key, token)
  | _ => none

def expired? : Event → Option String
  | .moved key => some key
  | _ => none

section Local

variable (q : Config)

def Issues : Call → Log → Cmd → Prop
  | .claim key lease _, h, c =>
    (h = [] ∧ c = .uuid4) ∨ ∃ t : String,
      (h = [⟨.uuid4, t⟩] ∧ c = .get (q.run_state_key key)) ∨
      (h = [⟨.uuid4, t⟩, ⟨.get (q.run_state_key key), .ok none⟩] ∧
        c = .setNx (q.run_state_key key) ("running:" ++ t) lease) ∨
      (h = [⟨.uuid4, t⟩, ⟨.get (q.run_state_key key), .ok none⟩,
          ⟨.setNx (q.run_state_key key) ("running:" ++ t) lease, .ok false⟩] ∧
        c = .get (q.run_state_key key))
  | .complete key token retention, h, c =>
    h = [] ∧ c = .complete (q.run_state_key key) ("running:" ++ token) retention

/-- A claim ends with `claimed` exactly when its last command created the lease. -/
def Ends : Call → Log → Except PyError Answer → Prop
  | .claim key lease _, h, o =>
    (∃ t : String, o = .ok (.claim ⟨.claimed, some t⟩) ∧
      h = [⟨.uuid4, t⟩, ⟨.get (q.run_state_key key), .ok none⟩,
        ⟨.setNx (q.run_state_key key) ("running:" ++ t) lease, .ok true⟩]) ∨
    ((∀ t, o ≠ .ok (.claim ⟨.claimed, t⟩)) ∧
      ∀ v, ⟨.setNx (q.run_state_key key) v lease, .ok true⟩ ∉ h)
  | .complete key token retention, h, o =>
    (o = .ok .done ∧
      h = [⟨.complete (q.run_state_key key) ("running:" ++ token) retention, .ok 1⟩]) ∨
    (∃ msg, o = .error (.valueError msg) ∧ h = []) ∨
    ∃ msg x, o = .error (.queueError msg) ∧ x ≠ .ok 1 ∧
      h = [⟨.complete (q.run_state_key key) ("running:" ++ token) retention, x⟩]

theorem claim_of_ne_claimed (cur t : Option String) : Config.claim_of cur ≠ ⟨.claimed, t⟩ := by
  unfold Config.claim_of
  split <;> simp

theorem claim_sat (key : String) (lease retention : Int) :
    Program.Sat (Issues q (.claim key lease retention)) (Ends q (.claim key lease retention)) []
      (program q (.claim key lease retention)) := by
  simp only [program, Config.claim_run, Config.claim_body, Code.uuid4, Code.get, Code.setNx,
    Code.orQueueError, Program.bind_eq, Program.pure_eq, Program.throw_eq', Program.cmd_bind,
    Program.pure_bind]
  split
  · simp [Ends]
  split
  · simp [Ends]
  split
  · simp [Ends]
  simp only [Program.cmd_bind, Program.cmd_tryCatch, Program.sat_issue]
  refine ⟨.inl ⟨rfl, rfl⟩, fun t => ⟨.inr ⟨t, .inl ⟨rfl, rfl⟩⟩, fun r => ?_⟩⟩
  rcases r with e | cur
  · simp [Ends]
  cases cur with
  | some v => simp [Ends, claim_of_ne_claimed]
  | none =>
    refine ⟨.inr ⟨t, .inr (.inl ⟨rfl, rfl⟩)⟩, fun created => ?_⟩
    rcases created with e | _ | _
    · simp [Ends]
    · refine ⟨.inr ⟨t, .inr (.inr ⟨rfl, rfl⟩)⟩, fun again => ?_⟩
      rcases again with e | cur
      · simp [Ends]
      · simp [Ends, claim_of_ne_claimed]
    · exact .inl ⟨t, rfl, rfl⟩

theorem complete_sat (key token : String) (retention : Int) :
    Program.Sat (Issues q (.complete key token retention))
      (Ends q (.complete key token retention)) [] (program q (.complete key token retention)) := by
  simp only [program, Config.complete_run, Code.complete, Code.orQueueError, Program.bind_eq,
    Program.pure_eq, Program.throw_eq', Program.cmd_tryCatch]
  split
  · simp [Ends]
  split
  · simp [Ends]
  split
  · simp [Ends]
  refine ⟨⟨rfl, rfl⟩, fun r => ?_⟩
  rcases r with e | n
  · simp [Ends]
  · by_cases hn : n = 1
    · subst hn
      simp [Ends]
    · simp [Ends, hn]

theorem program_sat (call : Call) :
    Program.Sat (Issues q call) (Ends q call) [] ((pool q).program call) := by
  cases call with
  | claim key lease retention => exact claim_sat q key lease retention
  | complete key token retention => exact complete_sat q key token retention

end Local

/-- What one step does to the string keys, and which of the three events it is. -/
inductive Change (q : Config) (s t : Redis) (e : Event) : Prop
  | quiet : t.strings = s.strings → claimed? e = none → completed? e = none →
      expired? e = none → Change q s t e
  | claimed {key token} : claimed? e = some (key, token) → completed? e = none →
      expired? e = none → s.strings (q.run_state_key key) = none →
      t.strings = Function.update s.strings (q.run_state_key key) (some ("running:" ++ token)) →
      Change q s t e
  | completed {key token} : claimed? e = none → completed? e = some (key, token) →
      expired? e = none → s.strings (q.run_state_key key) = some ("running:" ++ token) →
      t.strings = Function.update s.strings (q.run_state_key key) (some "completed") →
      Change q s t e
  | expired {k} : claimed? e = none → completed? e = none → expired? e = some k →
      t.strings = Function.update s.strings k none → Change q s t e

theorem claimed?_eq_none {i call c r out}
    (h : ∀ t, out ≠ some (.ok (.claim ⟨.claimed, t⟩))) :
    claimed? (.did i call c r out) = none := by
  unfold claimed?
  split
  · rename_i heq
    cases heq
    exact absurd rfl (h _)
  · rfl

theorem claimed?_eq_some {e : Event} {key token : String} (h : claimed? e = some (key, token)) :
    ∃ i lease retention c r, e = .did i (.claim key lease retention) c r
      (some (.ok (.claim ⟨.claimed, some token⟩))) := by
  unfold claimed? at h
  split at h
  · simp only [Option.some.injEq, Prod.mk.injEq] at h
    obtain ⟨rfl, rfl⟩ := h
    exact ⟨_, _, _, _, _, rfl⟩
  · cases h

section Runs

variable {q : Config} {G : State → Action → Prop} {es : List Event} {s t : State} {a : Action}
  {e : Event}

/-- The only command of `complete_run` either turns the lease into the marker or
leaves the server as it is and raises. -/
theorem complete_step (h : (pool q).machine.Run G (.init Redis.init) es s)
    {i key token retention log c k} (ch : Choice)
    (hi : s.threads i = .live ⟨.complete key token retention, log, .cmd c k⟩) :
    ((k (s.shared.apply 0 c ch).1).outcome? = some (.ok .done) ∧
      s.shared.strings (q.run_state_key key) = some ("running:" ++ token) ∧
      (s.shared.apply 0 c ch).2.strings =
        Function.update s.shared.strings (q.run_state_key key) (some "completed")) ∨
    ((∃ msg, (k (s.shared.apply 0 c ch).1).outcome? = some (.error (.queueError msg))) ∧
      (s.shared.apply 0 c ch).2 = s.shared ∧ (ch.raises = none →
        s.shared.strings (q.run_state_key key) ≠ some ("running:" ++ token))) := by
  obtain ⟨⟨rfl, rfl⟩, hk⟩ := (Pool.traced_of_run (program_sat q) h _ _ hi).sat
  have last : ∀ r, ∃ o, (k r).outcome? = some o ∧ Ends q (.complete key token retention)
      [⟨.complete (q.run_state_key key) ("running:" ++ token) retention, r⟩] o :=
    fun r => Program.Sat.ended (hk r) (by simp [Issues])
  obtain ⟨hr, hv, hset⟩ | ⟨hr, hset, hv⟩ := Redis.complete_cases s.shared 0
    (q.run_state_key key) ("running:" ++ token) retention ch
  · obtain ⟨o, ho, ⟨rfl, _⟩ | ⟨_, _, hlog⟩ | ⟨_, x, _, hx, hlog⟩⟩ := last (.ok 1)
    · exact .inl ⟨by rw [hr, ho], hv, hset⟩
    · simp at hlog
    · simp only [List.cons.injEq, Sigma.mk.injEq, heq_eq_eq, true_and, and_true] at hlog
      exact absurd hlog.symm hx
  · obtain ⟨o, ho, ⟨_, hlog⟩ | ⟨_, _, hlog⟩ | ⟨msg, x, rfl, _, _⟩⟩ := last (s.shared.apply 0 _ ch).1
    · simp only [List.cons.injEq, Sigma.mk.injEq, heq_eq_eq, true_and, and_true] at hlog
      exact absurd hlog hr
    · simp at hlog
    · exact .inr ⟨⟨msg, ho⟩, hset, hv⟩

theorem change_of_step (h : (pool q).machine.Run G (.init Redis.init) es s)
    (hs : (pool q).machine.step s a = some (t, e)) : Change q s.shared t.shared e := by
  cases Pool.step_cases hs with
  | start hi => exact .quiet rfl rfl rfl rfl
  | crash hi => exact .quiet rfl rfl rfl rfl
  | env => exact .expired rfl rfl rfl rfl
  | @step i ch call log c k hi =>
    cases call with
    | claim key lease retention =>
      obtain ⟨hI, hk⟩ := (Pool.traced_of_run (program_sat q) h _ _ hi).sat
      -- without a successful `SET NX` as its last command the call is not `claimed`
      have unclaimed : ∀ r, (∀ t, log ++ [⟨c, r⟩] ≠ [⟨.uuid4, t⟩,
            ⟨.get (q.run_state_key key), .ok none⟩,
            ⟨.setNx (q.run_state_key key) ("running:" ++ t) lease, .ok true⟩]) →
          ∀ t, (k r).outcome? ≠ some (.ok (.claim ⟨.claimed, t⟩)) := by
        intro r hr t ho
        obtain ⟨t', _, hlog⟩ | ⟨hne, _⟩ := Program.Sat.outcome (hk r) ho
        · exact hr t' hlog
        · exact hne t rfl
      obtain ⟨rfl, rfl⟩ | ⟨t, ⟨rfl, rfl⟩ | ⟨rfl, rfl⟩ | ⟨rfl, rfl⟩⟩ := hI
      · exact .quiet rfl (claimed?_eq_none (unclaimed _ (by simp))) rfl rfl
      · exact .quiet (by simp [pool, Redis.apply_get])
          (claimed?_eq_none (unclaimed _ (by simp))) rfl rfl
      · obtain ⟨hr, hnone, hset⟩ | ⟨hr, hset⟩ := Redis.setNx_cases s.shared 0
          (q.run_state_key key) ("running:" ++ t) lease ch
        · obtain ⟨o, ho, ⟨t', rfl, hlog⟩ | ⟨_, hno⟩⟩ :=
            Program.Sat.ended (hk (.ok true)) (by simp [Issues])
          · obtain rfl : t = t' := by simpa using hlog
            refine .claimed (?_ : _ = some (key, t)) rfl rfl hnone hset
            change claimed? (.did i _ _ (s.shared.apply 0 _ ch).1
              (k (s.shared.apply 0 _ ch).1).outcome?) = _
            rw [hr, ho]
            rfl
          · exact absurd (by simp) (hno ("running:" ++ t))
        · refine .quiet (by simp [pool, hset]) (claimed?_eq_none (unclaimed _ ?_)) rfl rfl
          intro t' hlog
          refine hr ?_
          have hlast := congrArg List.getLast? hlog
          simp only [List.cons_append, List.nil_append, List.getLast?_cons_cons,
            List.getLast?_singleton, Option.some.injEq, Sigma.mk.injEq] at hlast
          obtain ⟨hc, hv⟩ := hlast
          obtain rfl : t = t' := by simpa using hc
          exact eq_of_heq hv
      · exact .quiet (by simp [pool, Redis.apply_get])
          (claimed?_eq_none (unclaimed _ (by simp))) rfl rfl
    | complete key token retention =>
      obtain ⟨ho, hv, hset⟩ | ⟨⟨msg, ho⟩, hset, _⟩ := complete_step h ch hi
      · refine .completed rfl (?_ : _ = some (key, token)) rfl hv hset
        change completed? (.did i _ _ _ (k (s.shared.apply 0 _ ch).1).outcome?) = _
        rw [ho]
        rfl
      · refine .quiet (by simp [pool, hset]) rfl ?_ rfl
        change completed? (.did i _ _ _ (k (s.shared.apply 0 _ ch).1).outcome?) = _
        rw [ho]
        rfl

end Runs

section Safety

variable {q : Config}

/-- The events that end the lease of `token` on `key`. -/
def Closes (q : Config) (key token : String) (e : Event) : Prop :=
  expired? e = some (q.run_state_key key) ∨ completed? e = some (key, token)

theorem not_claimed_of_closes (h : Closes q key token e) : ¬ claimed? e = some (key', token') := by
  intro hc
  obtain ⟨i, lease, retention, c, r, rfl⟩ := claimed?_eq_some hc
  simp [Closes, expired?, completed?] at h

/-- `claim_run` gave out the lease, which has neither expired nor been completed. -/
def Leased (q : Config) (es : List Event) (key token : String) : Prop :=
  Since (fun e => claimed? e = some (key, token)) (Closes q key token) es

/-- A run of `key` was completed and the marker has not expired. -/
def Marked (q : Config) (es : List Event) (key : String) : Prop :=
  Since (fun e => ∃ token, completed? e = some (key, token))
    (fun e => expired? e = some (q.run_state_key key)) es

theorem leased_snoc : Leased q (es ++ [e]) key token ↔
    claimed? e = some (key, token) ∨ (Leased q es key token ∧ ¬ Closes q key token e) :=
  since_snoc

theorem marked_snoc : Marked q (es ++ [e]) key ↔ (∃ token, completed? e = some (key, token)) ∨
    (Marked q es key ∧ ¬ expired? e = some (q.run_state_key key)) :=
  since_snoc

theorem running_ne_completed (token : String) : "running:" ++ token ≠ "completed" := by
  intro h
  have := congrArg String.toList h
  simp at this

/-- The stored values are the open leases and the markers of the trace. -/
structure Held (q : Config) (es : List Event) (s : Redis) : Prop where
  lease : ∀ key token,
    s.strings (q.run_state_key key) = some ("running:" ++ token) ↔ Leased q es key token
  marker : ∀ key, s.strings (q.run_state_key key) = some "completed" ↔ Marked q es key

theorem Held.init : Held q [] Redis.init :=
  ⟨by simp [Redis.init, Leased], by simp [Redis.init, Marked]⟩

theorem Held.step (hsha : Function.Injective q.codec.sha256) (h : Held q es s)
    (hc : Change q s t e) : Held q (es ++ [e]) t := by
  have hinj : ∀ {a b}, q.run_state_key a = q.run_state_key b ↔ a = b :=
    (q.run_state_key_injective hsha).eq_iff
  constructor
  · intro key token
    rw [leased_snoc, ← h.lease, Closes]
    cases hc with
    | quiet hst hcl hco hex => simp [hst, hcl, hco, hex]
    | claimed hcl hco hex hnone hst =>
      rw [hst, hcl, hco, hex, Function.update_apply]
      split
      · rename_i hk
        replace hk := hinj.mp hk
        simp [hk, hnone, eq_comm]
      · rename_i hk
        replace hk := mt hinj.mpr hk
        simp [Ne.symm hk]
    | @completed key' token' hcl hco hex hval hst =>
      rw [hst, hcl, hco, hex, Function.update_apply]
      split
      · rename_i hk
        replace hk := hinj.mp hk
        simp [hk, hval, (running_ne_completed token).symm]
      · rename_i hk
        replace hk := mt hinj.mpr hk
        simp [Ne.symm hk]
    | expired hcl hco hex hst =>
      rw [hst, hcl, hco, hex, Function.update_apply]
      split
      · rename_i hk
        simp [hk]
      · rename_i hk
        simp [Ne.symm hk]
  · intro key
    rw [marked_snoc, ← h.marker]
    cases hc with
    | quiet hst hcl hco hex => simp [hst, hco, hex]
    | claimed hcl hco hex hnone hst =>
      rw [hst, hco, hex, Function.update_apply]
      split
      · rename_i hk
        replace hk := hinj.mp hk
        simp [hk, hnone, running_ne_completed]
      · simp
    | completed hcl hco hex hval hst =>
      rw [hst, hco, hex, Function.update_apply]
      split
      · rename_i hk
        replace hk := hinj.mp hk
        simp [hk]
      · rename_i hk
        replace hk := mt hinj.mpr hk
        simp [Ne.symm hk]
    | expired hcl hco hex hst =>
      rw [hst, hco, hex, Function.update_apply]
      split
      · rename_i hk
        simp [hk]
      · rename_i hk
        simp [Ne.symm hk]

/-- A call that returned `claimed` drew its token itself. -/
theorem drawn_of_claimed {G : State → Action → Prop} {es : List Event} {s : State}
    (h : (pool q).machine.Run G (.init Redis.init) es s) {pre e post key token}
    (he : es = pre ++ e :: post) (hc : claimed? e = some (key, token)) :
    ∃ u i call c r o out log k, e = .did i call c r (some o) ∧
      (pool q).machine.Run G (.init Redis.init) pre u ∧
      u.threads i = .live ⟨call, log, .cmd c k⟩ ∧
      Pool.Event.did i call .uuid4 token out ∈ pre := by
  obtain ⟨i, lease, retention, c, r, rfl⟩ := claimed?_eq_some hc
  obtain ⟨u, ch, log, k, hu, _, hi, htr, rfl, ho⟩ := Pool.did_of_run (program_sat q) h he
  obtain ⟨t, hok, hlog⟩ | ⟨hne, _⟩ := Program.Sat.outcome (htr.sat.2 _) ho.symm
  · simp only [Except.ok.injEq, Answer.claim.injEq, RunClaim.mk.injEq, Option.some.injEq,
      true_and] at hok
    subst hok
    have hmem : Sigma.mk Cmd.uuid4 token ∈ log := by
      have hinit := congrArg List.dropLast hlog
      simp only [List.dropLast_concat] at hinit
      simp [hinit]
    obtain ⟨out, hd⟩ := htr.log _ hmem
    exact ⟨u, i, _, _, _, _, out, log, k, rfl, hu, hi, hd⟩
  · exact absurd rfl (hne (some token))

/-- No token is given out twice. -/
theorem claimed_once {es : List Event} {s : State}
    (h : (pool q).machine.Run (draws q).Fresh (.init Redis.init) es s)
    {pre e mid e' post key key' token} (he : es = pre ++ e :: (mid ++ e' :: post))
    (hc : claimed? e = some (key, token)) (hc' : claimed? e' = some (key', token)) : False := by
  obtain ⟨_, i, call, c, r, o, out, _, _, rfl, _, _, hd⟩ := drawn_of_claimed h he hc
  obtain ⟨u, j, call', c', r', o', out', log, k, rfl, hu, hj, hd'⟩ :=
    drawn_of_claimed h (he.trans (List.append_assoc pre (_ :: mid) _).symm) hc'
  have hij : i = j := Pool.Draws.draw_unique (D := draws q) (fun _ _ hg => hg) hu
    (List.mem_append_left _ hd) hd' rfl rfl
  have hfin := (Pool.owned_of_run hu).ended (List.mem_append_right pre List.mem_cons_self)
  rw [hij, hj] at hfin
  cases hfin

/-- The arguments that `complete_run` accepts. -/
def ValidCompletion (key token : String) (retention : Int) : Prop :=
  ¬ key.isEmpty ∧ key.length ≤ 256 ∧ ¬ token.isEmpty ∧ token.length ≤ 128 ∧
    0 < retention ∧ retention ≤ 7 * 86400

/-- What holds in a state reached by a trace, and of whatever step comes next. -/
structure LeaseSafe (q : Config) (es : List Event) (s : State) : Prop where
  value : ∀ key token,
    s.shared.strings (q.run_state_key key) = some ("running:" ++ token) ↔ Leased q es key token
  exclusive : ∀ {a t e key token token'}, (pool q).machine.step s a = some (t, e) →
    Leased q es key token → claimed? e ≠ some (key, token')
  completes : ∀ {i ch t key token retention c r out}, (pool q).machine.step s (.step i ch) =
      some (t, .did i (.complete key token retention) c r out) → ch.raises = none →
    (out = some (.ok .done) ↔ Leased q es key token)
  fails : ∀ {i ch t key token retention c r out}, (pool q).machine.step s (.step i ch) =
      some (t, .did i (.complete key token retention) c r out) → out ≠ some (.ok .done) →
    (∃ msg, out = some (.error (.queueError msg))) ∧ t.shared = s.shared
  rejects : ∀ {i t key token retention out}, (pool q).machine.step s
      (.start i (.complete key token retention)) =
        some (t, .started i (.complete key token retention) out) →
    t.shared = s.shared ∧ (ValidCompletion key token retention → out = none) ∧
      (¬ ValidCompletion key token retention → ∃ msg, out = some (.error (.valueError msg)))
  stale : ∀ {pre e post key token}, es = pre ++ e :: post → Leased q pre key token →
    Closes q key token e → ¬ Leased q es key token
  marker : ∀ key, s.shared.strings (q.run_state_key key) = some "completed" ↔ Marked q es key
  deduplicates : ∀ {a t e key token}, (pool q).machine.step s a = some (t, e) →
    Marked q es key → claimed? e ≠ some (key, token)

theorem held_of_run (hsha : Function.Injective q.codec.sha256) {G : State → Action → Prop}
    {es : List Event} {s : State} (h : (pool q).machine.Run G (.init Redis.init) es s) :
    Held q es s.shared := by
  refine h.invariant (I := fun es s => Held q es s.shared) Held.init ?_
  intro es s a t e hr _ hs ih
  exact ih.step hsha (change_of_step hr hs)

/-- A step that returns `claimed` found the key absent. -/
theorem absent_of_claimed {G : State → Action → Prop} {es : List Event} {s t : State}
    {a : Action} {e : Event} (h : (pool q).machine.Run G (.init Redis.init) es s)
    (hs : (pool q).machine.step s a = some (t, e)) (hc : claimed? e = some (key, token)) :
    s.shared.strings (q.run_state_key key) = none := by
  cases change_of_step h hs with
  | quiet _ hcl | completed hcl | expired hcl => rw [hcl] at hc; cases hc
  | claimed hcl _ _ hnone =>
    rw [hcl] at hc
    cases hc
    exact hnone

theorem complete_outcome? (key token : String) (retention : Int) :
    (ValidCompletion key token retention →
      (program q (.complete key token retention)).outcome? = none) ∧
    (¬ ValidCompletion key token retention →
      ∃ msg, (program q (.complete key token retention)).outcome? =
        some (.error (.valueError msg))) := by
  simp only [program, Config.complete_run, Code.complete, Code.orQueueError,
    Program.bind_eq, Program.throw_eq', Program.cmd_tryCatch, Bool.or_eq_true, decide_eq_true_eq]
  split
  · refine ⟨fun hv => False.elim ?_, fun _ => ⟨_, rfl⟩⟩
    grind [ValidCompletion]
  split
  · refine ⟨fun hv => False.elim ?_, fun _ => ⟨_, rfl⟩⟩
    grind [ValidCompletion]
  split
  · refine ⟨fun hv => False.elim ?_, fun _ => ⟨_, rfl⟩⟩
    grind [ValidCompletion]
  · refine ⟨fun _ => rfl, fun hv => absurd ?_ hv⟩
    grind [ValidCompletion]

theorem lease_safety (hsha : Function.Injective q.codec.sha256) {es : List Event} {s : State}
    (h : (pool q).machine.Run (draws q).Fresh (.init Redis.init) es s) : LeaseSafe q es s := by
  have held := held_of_run hsha h
  refine ⟨held.lease, ?_, ?_, ?_, ?_, ?_, held.marker, ?_⟩
  · intro a t e key token token' hs hl hc
    have hnone := absent_of_claimed h hs hc
    rw [(held.lease key token).mpr hl] at hnone
    cases hnone
  · intro i ch t key token retention c r out hs hr
    cases Pool.step_cases hs with
    | step hi =>
      rw [← held.lease]
      obtain ⟨ho, hv, _⟩ | ⟨⟨msg, ho⟩, _, hv⟩ := complete_step h ch hi
      · exact ⟨fun _ => hv, fun _ => ho⟩
      · refine ⟨fun ho' => ?_, fun hv' => absurd hv' (hv hr)⟩
        exact absurd (ho.symm.trans ho') (by simp)
  · intro i ch t key token retention c r out hs ho
    cases Pool.step_cases hs with
    | step hi =>
      obtain ⟨ho', _, _⟩ | ⟨hmsg, hset, _⟩ := complete_step h ch hi
      · exact absurd ho' ho
      · exact ⟨hmsg, hset⟩
  · intro i t key token retention out hs
    cases Pool.step_cases hs with
    | start hi => exact ⟨rfl, complete_outcome? key token retention⟩
  · rintro pre e post key token rfl hl hcl hl'
    obtain ⟨pre₁, c₁, post₁, rfl, hc₁, _⟩ := hl
    obtain ⟨pre₂, c₂, post₂, rfl, hc₂, _⟩ := Since.after hl' (not_claimed_of_closes hcl) hcl
    exact claimed_once h (show _ = pre₁ ++ c₁ :: ((post₁ ++ e :: pre₂) ++ c₂ :: post₂) by simp) hc₁ hc₂
  · intro a t e key token hs hm hc
    have hnone := absent_of_claimed h hs hc
    rw [(held.marker key).mpr hm] at hnone
    cases hnone

end Safety

section Sample

instance (q : Config) (s : Redis) (t : String) : Decidable ((draws q).drawn s t) :=
  inferInstanceAs (Decidable (t ∈ s.uuids))

def sampleKey : String := "nightly:2026-07-01T02:00:00+00:00"

/-- A queue whose digest function is exact on the sample key. -/
def sample : Config where
  codec := {
    sha256 := tabled [(sampleKey,
      "a8215d9db7a9c32b76a902e2285b1fd3b916781817cd3fb4c42e84c475bebfc6")]
    dumps _ := .error (.typeError "")
    loads _ := .error (.valueError "") }
  stream := "agent:jobs"
  claim_after_seconds := 60

theorem sample_injective : Function.Injective sample.codec.sha256 :=
  tabled_injective (by decide) (by decide)

def answer (text : String) : Choice := { Choice.silent with text := text }

/-- One client claims, a second one finds the lease, the first completes, a third
claims again after the marker has expired. -/
def sampleRun : List Action :=
  [.start 0 (.claim sampleKey 300 86400), .step 0 (answer "a1"), .step 0 .silent, .step 0 .silent,
    .start 1 (.claim sampleKey 300 86400), .step 1 (answer "b2"), .step 1 .silent,
    .start 2 (.complete sampleKey "a1" 86400), .step 2 .silent,
    .env (sample.run_state_key sampleKey),
    .start 3 (.claim sampleKey 300 86400), .step 3 (answer "c3"), .step 3 .silent, .step 3 .silent]

theorem lease_safety_sample : ∃ s es, (pool sample).machine.exec (draws sample).Fresh
      (.init Redis.init) sampleRun = some (s, es) ∧
    es.filterMap claimed? = [(sampleKey, "a1"), (sampleKey, "c3")] ∧
    es.filterMap completed? = [(sampleKey, "a1")] ∧ LeaseSafe sample es s :=
  ⟨_, _, rfl, rfl, rfl, lease_safety sample_injective (Machine.run_of_exec
    sampleRun rfl)⟩

/-- A completion with invalid arguments fails with `ValueError`. -/
theorem complete_run_not_only_queue_error :
    ¬ ∀ es s, (pool sample).machine.Run (draws sample).Fresh (.init Redis.init) es s →
      ∀ i key token retention x,
        .started i (.complete key token retention) (some (.error x)) ∈ es →
        ∃ msg, x = .queueError msg := by
  intro h
  have hrun := Machine.run_of_exec (M := (pool sample).machine) (G := (draws sample).Fresh)
    (s := .init Redis.init) [.start 0 (.complete "" "a1" 86400)] rfl
  obtain ⟨msg, hmsg⟩ := h _ _ hrun 0 "" "a1" 86400 _ (List.mem_singleton.mpr rfl)
  cases hmsg

end Sample

end EnterpriseCopilot.Queue.Lease
