import EnterpriseCopilot.Lib.Pool
import EnterpriseCopilot.Queue.Redis

/-! Producers that enqueue the same slots.  Their commands interleave, markers expire, and a command may
raise after its effect as well as without one. -/

namespace EnterpriseCopilot.Queue.Producers

open EnterpriseCopilot.Lib EnterpriseCopilot.Python

/-- A call of `enqueue_once`. -/
structure Call where
  client : Nat
  payload : Payload
  idempotency_key : String
  retention_seconds : Int

/-- What becomes of a command, and the exception that takes the place of its reply. -/
structure Fate where
  choice : Choice
  lost : Option String := none

/-- An entry of the stream, what it was added for, and whether the producer was told. -/
structure Addition where
  idempotency_key : String
  entry : Entry
  told : Bool

structure Server where
  redis : Redis
  added : List Addition

def Server.init : Server := ⟨Redis.init, []⟩

/-- The reply, or the exception in its place. -/
def delivered (lost : Option String) : (c : Cmd) → Reply c → Reply c
  | .get _, r => lost.elim r .error
  | .setNx _ _ _, r => lost.elim r .error
  | .complete _ _ _, r => lost.elim r .error
  | .delete _, r => lost.elim r .error
  | .xgroupCreate, r => lost.elim r .error
  | .xadd _ _ _, r => lost.elim r .error
  | .xautoclaim _, r => lost.elim r .error
  | .xreadgroup _, r => lost.elim r .error
  | .xack _, r => lost.elim r .error
  | .uuid4, r | .time, r => r
  | .groupReady, r => r
  | .setGroupReady, r => r

def Server.apply (s : Server) (call : Call) (c : Cmd) (f : Fate) : Reply c × Server :=
  let result := s.redis.apply call.client c f.choice
  let entries := result.2.fresh.drop s.redis.fresh.length
  (delivered f.lost c result.1,
    ⟨result.2, s.added ++ entries.map fun e => ⟨call.idempotency_key, e, f.lost.isNone⟩⟩)

/-- Any number of producers; the environment lets keys expire. -/
def pool (q : Config) : Pool Server Cmd Reply Fate String Call PyError (Option Job) where
  program call := q.enqueue_once call.payload call.idempotency_key call.retention_seconds
  apply := Server.apply
  env s key := { s with redis := s.redis.expire key }

abbrev State := Pool.State Server Cmd Reply Call PyError (Option Job)
abbrev Action := Pool.Action Fate String Call
abbrev Event := Pool.Event Cmd Reply String Call PyError (Option Job)
abbrev Log := Exchange Cmd Reply

def expired? : Event → Option String
  | .moved key => some key
  | _ => none

section Local

variable (q : Config)

def Call.marker (call : Call) : String := q.enqueue_state_key call.idempotency_key

/-- The exchange with which a call gives its marker up: the entry is in the stream, or the marker is to go. -/
def Settles : (c : Cmd) → Reply c → Prop
  | .xadd _ _ _, r => ∃ receipt, r = .ok receipt
  | .delete _, _ => True
  | _, _ => False

/-- The call made its marker and has not given it up. -/
def Holding (call : Call) (log : Log) : Prop :=
  ∃ rest, log = ⟨.setNx (call.marker q) "enqueued" call.retention_seconds, .ok true⟩ :: rest ∧
    ∀ x ∈ rest, ¬ Settles x.1 x.2

/-- Commands that touch neither markers nor the stream. -/
inductive Quiet : Cmd → Prop
  | xgroupCreate : Quiet .xgroupCreate
  | uuid4 : Quiet .uuid4
  | time : Quiet .time
  | groupReady : Quiet .groupReady
  | setGroupReady : Quiet .setGroupReady

inductive Issues (call : Call) (log : Log) : Cmd → Prop
  | claim : log = [] → Issues call log (.setNx (call.marker q) "enqueued" call.retention_seconds)
  | quiet {c} : log ≠ [] → Quiet c → Issues call log c
  | add {job_id payload enqueued_at} : Holding q call log → Issues call log (.xadd job_id payload enqueued_at)
  | release : Holding q call log → Issues call log (.delete (call.marker q))

variable {q} {call : Call} {log : Log} {c : Cmd} {r : Reply c}

theorem Holding.ne_nil (h : Holding q call log) : log ≠ [] := by
  obtain ⟨_, rfl, _⟩ := h
  simp

theorem holding_snoc (hlog : log ≠ []) :
    Holding q call (log ++ [⟨c, r⟩]) ↔ Holding q call log ∧ ¬ Settles c r := by
  constructor
  · rintro ⟨rest, heq, hrest⟩
    obtain ⟨x, xs, rfl⟩ := List.exists_cons_of_ne_nil hlog
    obtain ⟨rfl, rfl⟩ := List.cons.inj heq
    exact ⟨⟨xs, rfl, fun y hy => hrest y (List.mem_append_left _ hy)⟩, hrest ⟨c, r⟩ (by simp)⟩
  · rintro ⟨⟨rest, rfl, hrest⟩, hlast⟩
    refine ⟨rest ++ [⟨c, r⟩], rfl, fun y hy => ?_⟩
    rcases List.mem_append.mp hy with hy | hy
    · exact hrest y hy
    · exact List.mem_singleton.mp hy ▸ hlast

theorem Quiet.not_settles (h : Quiet c) : ¬ Settles c r := by
  cases h <;> exact id

theorem Holding.quiet (h : Holding q call log) (hc : Quiet c) : Holding q call (log ++ [⟨c, r⟩]) :=
  (holding_snoc h.ne_nil).mpr ⟨h, hc.not_settles⟩

theorem ensure_group_sat (h : Holding q call log) :
    Program.Sat (Issues q call) (fun h _ => Holding q call h) log Config.ensure_group := by
  refine ⟨.quiet h.ne_nil .groupReady, fun ready => ?_⟩
  have hready : Holding q call (log ++ [⟨.groupReady, ready⟩]) := h.quiet .groupReady
  cases ready with
  | true => exact hready
  | false =>
    refine ⟨.quiet hready.ne_nil .xgroupCreate, fun created => ?_⟩
    have hcreated := hready.quiet (r := created) .xgroupCreate
    have hset : Program.Sat (Issues q call) (fun h _ => Holding q call h)
        (log ++ [⟨.groupReady, false⟩] ++ [⟨.xgroupCreate, created⟩]) Code.setGroupReady :=
      ⟨.quiet hcreated.ne_nil .setGroupReady, fun _ => hcreated.quiet .setGroupReady⟩
    cases created with
    | ok _ => exact hset
    | error text =>
      simp only [Program.pure_bind]
      split
      · exact hset
      · exact hcreated

/-- A call that fails to enqueue still has its marker. -/
theorem enqueue_sat (h : Holding q call log) : Program.Sat (Issues q call) (fun h o => match o with
    | .ok _ => True
    | .error _ => Holding q call h) log (q.enqueue call.payload) := by
  unfold Config.enqueue
  cases q.encode call.payload with
  | error e => exact h
  | ok encoded =>
    simp only [Program.ofExcept_ok, Program.bind_eq, Program.pure_bind]
    split
    · exact h
    refine Program.Sat.bind ((ensure_group_sat h).mono (fun _ _ hi => hi) fun log' o hlog => ?_)
    cases o with
    | error e => exact hlog
    | ok _ =>
      refine ⟨.quiet hlog.ne_nil .uuid4, fun job_id => ?_⟩
      have hdrawn := hlog.quiet (r := job_id) .uuid4
      refine ⟨.quiet hdrawn.ne_nil .time, fun enqueued_at => ?_⟩
      have htimed := hdrawn.quiet (r := enqueued_at) .time
      refine ⟨.add htimed, fun receipt => ?_⟩
      cases receipt with
      | error text => exact (holding_snoc htimed.ne_nil).mpr ⟨htimed, fun ⟨_, heq⟩ => by cases heq⟩
      | ok receipt => exact ⟨.quiet (by simp) .time, fun _ => trivial⟩

theorem program_sat (call : Call) : Program.Sat (Issues q call) (fun _ _ => True) [] ((pool q).program call) := by
  change Program.Sat _ _ _ (q.enqueue_once _ _ _)
  unfold Config.enqueue_once
  split
  · trivial
  split
  · trivial
  have hreraise : ∀ log e, Program.Sat (Issues q call) (fun _ _ => True) log (Config.reraise e) := by
    intro log e
    cases e <;> trivial
  refine Program.Sat.tryCatch ⟨.claim rfl, fun created => ?_⟩
  cases created with
  | error text => exact hreraise _ _
  | ok created =>
    cases created with
    | false => trivial
    | true =>
      have hmade : Holding q call [⟨.setNx (call.marker q) "enqueued" call.retention_seconds, .ok true⟩] :=
        ⟨[], rfl, by simp⟩
      refine Program.Sat.tryCatch (Program.Sat.bind ((enqueue_sat hmade).mono (fun _ _ hi => hi) fun log o hlog => ?_))
      cases o with
      | ok job => trivial
      | error e =>
        refine ⟨.release hlog, fun r => ?_⟩
        cases r <;> exact hreraise _ _

end Local

section Commands

variable {s : Server} {call : Call} {c : Cmd} {f : Fate}

/-- The markers and the stream are as before. -/
structure Unchanged (s t : Server) : Prop where
  strings : t.redis.strings = s.redis.strings
  fresh : t.redis.fresh = s.redis.fresh
  added : t.added = s.added

theorem stream_of_same {t : Server} (h : s.redis.fresh = s.added.map Addition.entry)
    (hfresh : t.redis.fresh = s.redis.fresh) (hadded : t.added = s.added) :
    t.redis.fresh = t.added.map Addition.entry := by
  rw [hfresh, hadded, h]

theorem added_of_fresh (h : (s.redis.apply call.client c f.choice).2.fresh = s.redis.fresh) :
    (s.apply call c f).2.added = s.added := by
  simp [Server.apply, h]

theorem apply_quiet (hc : Quiet c) : Unchanged s (s.apply call c f).2 := by
  have hredis : (s.redis.apply call.client c f.choice).2.strings = s.redis.strings ∧
      (s.redis.apply call.client c f.choice).2.fresh = s.redis.fresh := by
    cases hc with
    | xgroupCreate =>
      simp only [Redis.apply]
      split <;> exact ⟨rfl, rfl⟩
    | _ => exact ⟨rfl, rfl⟩
  exact ⟨hredis.1, hredis.2, added_of_fresh hredis.2⟩

theorem apply_setNx {k v : String} {ex : Int} :
    (s.redis.strings k = none ∧ (s.apply call (.setNx k v ex) f).2.redis.strings = Function.update s.redis.strings k (some v) ∧
      (s.apply call (.setNx k v ex) f).2.redis.fresh = s.redis.fresh ∧
        (s.apply call (.setNx k v ex) f).2.added = s.added) ∨
    (Unchanged s (s.apply call (.setNx k v ex) f).2 ∧ (s.apply call (.setNx k v ex) f).1 ≠ .ok true) := by
  have hfresh : (s.redis.apply call.client (.setNx k v ex) f.choice).2.fresh = s.redis.fresh := by
    simp only [Redis.apply]
    split
    · rfl
    · split <;> rfl
  obtain ⟨_, hnone, hset⟩ | ⟨hreply, hsame⟩ := s.redis.setNx_cases call.client k v ex f.choice
  · exact .inl ⟨hnone, hset, hfresh, added_of_fresh hfresh⟩
  · refine .inr ⟨⟨by rw [Server.apply, hsame], hfresh, added_of_fresh hfresh⟩, ?_⟩
    change f.lost.elim _ _ ≠ _
    cases f.lost with
    | none => exact hreply
    | some text => simp

theorem apply_delete {k : String} : (s.apply call (.delete k) f).2.redis.fresh = s.redis.fresh ∧
    (s.apply call (.delete k) f).2.added = s.added ∧
      ((s.apply call (.delete k) f).2.redis.strings = s.redis.strings ∨
        (s.apply call (.delete k) f).2.redis.strings = Function.update s.redis.strings k none) := by
  have hredis : (s.redis.apply call.client (.delete k) f.choice).2.fresh = s.redis.fresh ∧
      ((s.redis.apply call.client (.delete k) f.choice).2.strings = s.redis.strings ∨
        (s.redis.apply call.client (.delete k) f.choice).2.strings = Function.update s.redis.strings k none) := by
    simp only [Redis.apply]
    split
    · exact ⟨rfl, .inl rfl⟩
    · exact ⟨rfl, .inr rfl⟩
  exact ⟨hredis.1, added_of_fresh hredis.1, hredis.2⟩

/-- The entry is added, and the producer is told unless the reply is lost; or nothing happens. -/
theorem apply_xadd {job_id payload enqueued_at : String} :
    (∃ entry, (s.apply call (.xadd job_id payload enqueued_at) f).2.redis.fresh = s.redis.fresh ++ [entry] ∧
      (s.apply call (.xadd job_id payload enqueued_at) f).2.added =
        s.added ++ [⟨call.idempotency_key, entry, f.lost.isNone⟩] ∧
      (s.apply call (.xadd job_id payload enqueued_at) f).2.redis.strings = s.redis.strings ∧
      (f.lost = none → ∃ receipt, (s.apply call (.xadd job_id payload enqueued_at) f).1 = .ok receipt)) ∨
    Unchanged s (s.apply call (.xadd job_id payload enqueued_at) f).2 := by
  cases hraises : f.choice.raises with
  | some text =>
    have hsame : (s.redis.apply call.client (.xadd job_id payload enqueued_at) f.choice).2 = s.redis := by
      simp only [Redis.apply, hraises]
    refine .inr ⟨by rw [Server.apply, hsame], by rw [Server.apply, hsame], added_of_fresh ?_⟩
    rw [hsame]
  | none =>
    refine .inl ⟨⟨f.choice.text, some job_id, some payload, some enqueued_at⟩, ?_, ?_, ?_, fun hlost => ?_⟩
    · simp only [Server.apply, Redis.apply, hraises]
    · simp [Server.apply, Redis.apply, hraises]
    · simp only [Server.apply, Redis.apply, hraises]
    · refine ⟨f.choice.text, ?_⟩
      simp only [Server.apply, Redis.apply, hraises, hlost, delivered, Option.elim_none]

end Commands

section Runs

variable {q : Config} {G : State → Action → Prop} {es : List Event} {s t : State} {a : Action} {e : Event}
  {marker : String} {i j : Nat}

/-- A call in progress has made the marker and not given it up. -/
def Holds (q : Config) (marker : String) (s : State) (i : Nat) : Prop :=
  ∃ th, s.threads i = .live th ∧ th.call.marker q = marker ∧ Holding q th.call th.log

structure Holders (q : Config) (marker : String) (s : State) (l : List Nat) : Prop where
  nodup : l.Nodup
  holds : ∀ i ∈ l, Holds q marker s i

/-- How many entries the producers know that they added under a marker. -/
def told (q : Config) (marker : String) (added : List Addition) : Nat :=
  added.countP fun a => a.told && q.enqueue_state_key a.idempotency_key = marker

def expiries (marker : String) (es : List Event) : Nat := es.countP fun e => expired? e = some marker

/-- Every expiry lets one more call have the marker, whoever has it already. -/
structure Guarded (q : Config) (marker : String) (es : List Event) (s : State) : Prop where
  stream : s.shared.redis.fresh = s.shared.added.map Addition.entry
  bound : ∀ l, Holders q marker s l → l.length + told q marker s.shared.added ≤ 1 + expiries marker es
  room : s.shared.redis.strings marker = none →
    ∀ l, Holders q marker s l → l.length + told q marker s.shared.added ≤ expiries marker es

theorem Holders.mono {l : List Nat} (h : Holders q marker t l) (hholds : ∀ i, Holds q marker t i → Holds q marker s i) :
    Holders q marker s l := ⟨h.nodup, fun i hi => hholds i (h.holds i hi)⟩

theorem Holders.erase {l : List Nat} (h : Holders q marker t l) (i : Nat)
    (hholds : ∀ j, Holds q marker t j → j ≠ i → Holds q marker s j) : Holders q marker s (l.erase i) where
  nodup := h.nodup.erase i
  holds j hj := hholds j (h.holds j (List.mem_of_mem_erase hj)) fun heq => (h.nodup.not_mem_erase) (heq ▸ hj)

theorem Guarded.init : Guarded q marker [] (.init Server.init) := by
  have hnone : ∀ l, Holders q marker (.init Server.init) l → l.length + told q marker [] ≤ 0 := by
    intro l hl
    cases l with
    | nil => exact Nat.le_refl 0
    | cons i l =>
      obtain ⟨th, hth, _⟩ := hl.holds i List.mem_cons_self
      cases hth
  exact ⟨rfl, fun l hl => (hnone l hl).trans (Nat.zero_le _), fun _ l hl => (hnone l hl).trans (Nat.zero_le _)⟩

/-- Nothing that matters to the marker has happened, and no call has got hold of it. -/
theorem Guarded.still (h : Guarded q marker es s) (hstream : t.shared.redis.fresh = t.shared.added.map Addition.entry)
    (hmarker : t.shared.redis.strings marker = s.shared.redis.strings marker)
    (htold : told q marker t.shared.added = told q marker s.shared.added)
    (hexpiries : expiries marker (es ++ [e]) = expiries marker es)
    (hholds : ∀ i, Holds q marker t i → Holds q marker s i) : Guarded q marker (es ++ [e]) t where
  stream := hstream
  bound l hl := by
    rw [htold, hexpiries]
    exact h.bound l (hl.mono hholds)
  room hnone l hl := by
    rw [htold, hexpiries]
    exact h.room (hmarker ▸ hnone) l (hl.mono hholds)

theorem expiries_snoc : expiries marker (es ++ [e]) = expiries marker es + if expired? e = some marker then 1 else 0 := by
  simp [expiries, List.countP_append, List.countP_cons]

theorem holds_set {th : Pool.Thread Cmd Reply Call PyError (Option Job)} (h : Holds q marker (s.set i th.slot) j) :
    (j ≠ i ∧ Holds q marker s j) ∨ (j = i ∧ th.call.marker q = marker ∧ Holding q th.call th.log) := by
  obtain ⟨th', hth, hmarker, hholding⟩ := h
  rw [Pool.State.set_threads] at hth
  split at hth
  · rename_i hij
    obtain rfl := Pool.Thread.slot_eq_live hth
    exact .inr ⟨hij, hmarker, hholding⟩
  · rename_i hij
    exact .inl ⟨hij, th', hth, hmarker, hholding⟩

/-- A call that has given its marker up holds nothing. -/
theorem holds_set_settled {th : Pool.Thread Cmd Reply Call PyError (Option Job)}
    (hself : ¬ Holding q th.call th.log) (h : Holds q marker (s.set i th.slot) j) : j ≠ i ∧ Holds q marker s j := by
  obtain hj | ⟨_, _, hholding⟩ := holds_set h
  · exact hj
  · exact absurd hholding hself

theorem Holders.settle {th : Pool.Thread Cmd Reply Call PyError (Option Job)} {shared : Server} {l : List Nat}
    (h : Holders q marker (({ s with shared := shared } : State).set i th.slot) l) (hi : Holds q marker s i)
    (hself : ¬ Holding q th.call th.log) : Holders q marker s (i :: l) where
  nodup := List.nodup_cons.mpr ⟨fun hmem => (holds_set_settled hself (h.holds i hmem)).1 rfl, h.nodup⟩
  holds j hj := by
    rcases List.mem_cons.mp hj with rfl | hj
    · exact hi
    · exact (holds_set_settled hself (h.holds j hj)).2

theorem told_snoc {added : List Addition} {x : Addition} : told q marker (added ++ [x]) =
    told q marker added + if (x.told && q.enqueue_state_key x.idempotency_key = marker) then 1 else 0 := by
  simp [told, List.countP_append, List.countP_cons]

theorem Guarded.step {ch : Fate} {call : Call} {log : Log} {c : Cmd} {k : Reply c → Code (Option Job)}
    (h : Guarded q marker es s) (hi : s.threads i = .live ⟨call, log, .cmd c k⟩) (hissues : Issues q call log c) :
    Guarded q marker (es ++ [.did i call c (s.shared.apply call c ch).1 (k (s.shared.apply call c ch).1).outcome?])
      (({ s with shared := (s.shared.apply call c ch).2 }).set i
        (Pool.Thread.slot ⟨call, log ++ [Sigma.mk c (s.shared.apply call c ch).1], k (s.shared.apply call c ch).1⟩)) := by
  have hexpiries : ∀ r out, expiries marker (es ++ [Pool.Event.did i call c r out]) = expiries marker es := by
    intro r out
    rw [expiries_snoc]
    rfl
  have hown : Holding q call log → call.marker q = marker → Holds q marker s i := fun hholding hmarker =>
    ⟨_, hi, hmarker, hholding⟩
  cases hissues with
  | quiet hne hc =>
    have hsame : Unchanged s.shared (s.shared.apply call c ch).2 := apply_quiet hc
    refine h.still ?_ ?_ ?_ (hexpiries _ _) fun j hj => ?_
    · exact stream_of_same h.stream hsame.fresh hsame.added
    · exact congrFun hsame.strings marker
    · exact congrArg _ hsame.added
    · obtain ⟨_, hj⟩ | ⟨rfl, hmarker, hholding⟩ := holds_set hj
      · exact hj
      · exact hown ((holding_snoc hne).mp hholding).1 hmarker
  | claim hnil =>
    subst hnil
    obtain ⟨hnone, hset, hfresh, hadded⟩ | ⟨hsame, hreply⟩ :=
      @apply_setNx s.shared call ch (call.marker q) "enqueued" call.retention_seconds
    · have hstream := stream_of_same h.stream hfresh hadded
      by_cases hmarker : call.marker q = marker
      · subst hmarker
        refine ⟨hstream, fun l hl => ?_, fun hgone => ?_⟩
        · have hothers : Holders q (call.marker q) s (l.erase i) := by
            refine hl.erase i fun j hj hne => ?_
            obtain ⟨_, hj⟩ | ⟨heq, _⟩ := holds_set hj
            · exact hj
            · exact absurd heq hne
          have hroom := h.room hnone _ hothers
          have hlength := List.le_length_erase (a := i) (l := l)
          rw [hexpiries, Pool.State.set_shared, hadded]
          omega
        · rw [Pool.State.set_shared, hset, Function.update_self] at hgone
          cases hgone
      · refine h.still hstream ?_ (congrArg _ hadded) (hexpiries _ _) fun j hj => ?_
        · rw [Pool.State.set_shared, hset, Function.update_of_ne (Ne.symm hmarker)]
        · obtain ⟨_, hj⟩ | ⟨_, heq, _⟩ := holds_set hj
          · exact hj
          · exact absurd heq hmarker
    · refine h.still (stream_of_same h.stream hsame.fresh hsame.added) (congrFun hsame.strings marker)
        (congrArg _ hsame.added) (hexpiries _ _) fun j hj => ?_
      obtain ⟨_, hj⟩ | ⟨_, _, rest, heq, _⟩ := holds_set hj
      · exact hj
      · simp only [List.nil_append, List.cons.injEq, Sigma.mk.injEq, heq_eq_eq] at heq
        exact absurd heq.1.2 hreply
  | @add job_id payload enqueued_at hholding =>
    obtain ⟨entry, hfresh, hadded, hstrings, htold⟩ | hsame :=
      @apply_xadd s.shared call ch job_id payload enqueued_at
    · have hstream : (s.shared.apply call (.xadd job_id payload enqueued_at) ch).2.redis.fresh =
          (s.shared.apply call (.xadd job_id payload enqueued_at) ch).2.added.map Addition.entry := by
        rw [hfresh, hadded, h.stream, List.map_append, List.map_singleton]
      by_cases hknown : ch.lost = none ∧ call.marker q = marker
      · -- the call exchanges its hold for an entry
        obtain ⟨hlost, rfl⟩ := hknown
        have hsettled : ¬ Holding q call (log ++ [⟨.xadd job_id payload enqueued_at,
            (s.shared.apply call (.xadd job_id payload enqueued_at) ch).1⟩]) :=
          fun hlate => ((holding_snoc hholding.ne_nil).mp hlate).2 (htold hlost)
        have hcount : told q (call.marker q) (s.shared.apply call (.xadd job_id payload enqueued_at) ch).2.added ≤
            told q (call.marker q) s.shared.added + 1 := by
          rw [hadded, told_snoc]
          split <;> omega
        refine ⟨hstream, fun l hl => ?_, fun hnone l hl => ?_⟩
        · have hbound := h.bound _ (hl.settle (hown hholding rfl) hsettled)
          rw [List.length_cons] at hbound
          rw [hexpiries, Pool.State.set_shared]
          exact (Nat.add_le_add_left hcount _).trans (by omega)
        · rw [Pool.State.set_shared, hstrings] at hnone
          have hroom := h.room hnone _ (hl.settle (hown hholding rfl) hsettled)
          rw [List.length_cons] at hroom
          rw [hexpiries, Pool.State.set_shared]
          exact (Nat.add_le_add_left hcount _).trans (by omega)
      · refine h.still hstream (congrFun hstrings marker) ?_ (hexpiries _ _) fun j hj => ?_
        · have hfalse : (ch.lost.isNone && decide (q.enqueue_state_key call.idempotency_key = marker)) = false := by
            rw [Bool.and_eq_false_iff]
            by_cases hlost : ch.lost = none
            · exact .inr (decide_eq_false fun heq => hknown ⟨hlost, heq⟩)
            · exact .inl (Option.isNone_eq_false_iff.mpr (Option.isSome_iff_ne_none.mpr hlost))
          rw [Pool.State.set_shared, hadded, told_snoc, hfalse]
          rfl
        · obtain ⟨_, hj⟩ | ⟨rfl, hmarker, _⟩ := holds_set hj
          · exact hj
          · exact hown hholding hmarker
    · refine h.still (stream_of_same h.stream hsame.fresh hsame.added) (congrFun hsame.strings marker)
        (congrArg _ hsame.added) (hexpiries _ _) fun j hj => ?_
      obtain ⟨_, hj⟩ | ⟨rfl, hmarker, _⟩ := holds_set hj
      · exact hj
      · exact hown hholding hmarker
  | release hholding =>
    obtain ⟨hfresh, hadded, hstrings⟩ := @apply_delete s.shared call ch (call.marker q)
    have hstream := stream_of_same h.stream hfresh hadded
    have hgiven : ¬ Holding q call (log ++ [⟨.delete (call.marker q),
        (s.shared.apply call (.delete (call.marker q)) ch).1⟩]) :=
      fun hlate => ((holding_snoc hholding.ne_nil).mp hlate).2 trivial
    by_cases hmarker : call.marker q = marker
    · -- the marker may be another call's by now, so the hold makes the room that the deletion takes
      refine ⟨hstream, fun l hl => ?_, fun _ l hl => ?_⟩
      · have hbound := h.bound _ (hl.settle (hown hholding hmarker) hgiven)
        rw [List.length_cons] at hbound
        rw [hexpiries, Pool.State.set_shared, hadded]
        omega
      · have hbound := h.bound _ (hl.settle (hown hholding hmarker) hgiven)
        rw [List.length_cons] at hbound
        rw [hexpiries, Pool.State.set_shared, hadded]
        omega
    · refine h.still hstream ?_ (congrArg _ hadded) (hexpiries _ _) fun j hj => ?_
      · rw [Pool.State.set_shared]
        obtain hsame | hset := hstrings
        · rw [hsame]
        · rw [hset, Function.update_of_ne (Ne.symm hmarker)]
      · exact (holds_set_settled hgiven hj).2

theorem Guarded.expire {key : String} (h : Guarded q marker es s) :
    Guarded q marker (es ++ [.moved key]) { s with shared := (pool q).env s.shared key } := by
  have hholders : ∀ l, Holders q marker { s with shared := (pool q).env s.shared key } l → Holders q marker s l :=
    fun l hl => hl.mono fun i hi => hi
  by_cases hkey : key = marker
  · have hone : expiries marker (es ++ [.moved key]) = expiries marker es + 1 := by
      rw [expiries_snoc, hkey]
      exact congrArg _ (if_pos rfl)
    refine ⟨h.stream, fun l hl => ?_, fun _ l hl => ?_⟩
    · rw [hone]
      exact (h.bound l (hholders l hl)).trans (by omega)
    · rw [hone]
      exact (h.bound l (hholders l hl)).trans (by omega)
  · refine h.still h.stream (Function.update_of_ne (Ne.symm hkey) _ _) rfl ?_ fun i hi => hi
    rw [expiries_snoc]
    exact congrArg _ (if_neg fun heq => hkey (Option.some.inj heq))

theorem guarded_of_run (h : (pool q).machine.Run G (.init Server.init) es s) : Guarded q marker es s := by
  refine h.invariant Guarded.init fun es s a t e hrun _ hs ih => ?_
  cases Pool.step_cases hs with
  | @start i call hi =>
    refine ih.still ih.stream rfl rfl ?_ fun j hj => ?_
    · rw [expiries_snoc]
      rfl
    · refine (holds_set_settled ?_ hj).2
      exact fun hholding => hholding.ne_nil rfl
  | @step i ch call log c k hi =>
    exact ih.step hi (Pool.traced_of_run program_sat hrun i _ hi).sat.1
  | @crash i th hi =>
    refine ih.still ih.stream rfl rfl ?_ fun j hj => ?_
    · rw [expiries_snoc]
      rfl
    · obtain ⟨th', hth, hholds⟩ := hj
      rw [Pool.State.set_threads] at hth
      split at hth
      · cases hth
      · exact ⟨th', hth, hholds⟩
  | env => exact ih.expire

/-- Calls for one slot interleave, crash, lose replies and outlive their markers.  The stream has what they added,
and those of them that were told, with those that are still to add, number one more than the expiries at most. -/
theorem enqueued_once_each (h : (pool q).machine.Run G (.init Server.init) es s) (idempotency_key : String) :
    s.shared.redis.fresh = s.shared.added.map Addition.entry ∧
      ∀ l : List Nat, l.Nodup → (∀ i ∈ l, Holds q (q.enqueue_state_key idempotency_key) s i) →
        l.length + told q (q.enqueue_state_key idempotency_key) s.shared.added ≤
          1 + expiries (q.enqueue_state_key idempotency_key) es := by
  have hguarded : Guarded q (q.enqueue_state_key idempotency_key) es s := guarded_of_run h
  exact ⟨hguarded.stream, fun l hnodup hholds => hguarded.bound l ⟨hnodup, hholds⟩⟩

end Runs

section Sample

def sample : Config where
  codec := {
    sha256 := tabled [("slot", "5b2a6")]
    dumps _ := .ok "\x7b\x7d"
    loads _ := .ok (.obj []) }
  stream := "agent:jobs"
  claim_after_seconds := 60

def slot (client : Nat) : Call := ⟨client, [], "slot", 86400⟩

def fine (text : String) : Fate := ⟨{ Choice.silent with text := text }, none⟩

/-- The marker of the first call expires before its entry is in the stream.  The second call's reply is lost, so that
it gives up a marker, and a third call can make it again. -/
def sampleRun : List Action :=
  [.start 0 (slot 0), .step 0 (fine ""), .env (sample.enqueue_state_key "slot"), .start 1 (slot 1)] ++
    List.replicate 6 (.step 1 (fine "b")) ++
    [.step 1 ⟨{ Choice.silent with text := "b" }, some "Connection reset"⟩, .step 1 (fine ""), .start 2 (slot 2)] ++
    List.replicate 8 (.step 2 (fine "c")) ++ List.replicate 7 (.step 0 (fine "a"))

theorem enqueued_once_each_sample : ∃ s es, (pool sample).machine.exec Machine.Free (.init Server.init) sampleRun =
      some (s, es) ∧
    s.shared.redis.fresh.map Entry.receipt = ["b", "c", "a"] ∧
    told sample (sample.enqueue_state_key "slot") s.shared.added = 2 ∧
    (s.shared.redis.fresh = s.shared.added.map Addition.entry ∧
      ∀ l : List Nat, l.Nodup → (∀ i ∈ l, Holds sample (sample.enqueue_state_key "slot") s i) →
        l.length + told sample (sample.enqueue_state_key "slot") s.shared.added ≤
          1 + expiries (sample.enqueue_state_key "slot") es) := by
  obtain ⟨s, es, hexec, hreceipts, htold⟩ : ∃ s es,
      (pool sample).machine.exec Machine.Free (.init Server.init) sampleRun = some (s, es) ∧
        s.shared.redis.fresh.map Entry.receipt = ["b", "c", "a"] ∧
        told sample (sample.enqueue_state_key "slot") s.shared.added = 2 :=
    Machine.exec_of_any (P := fun (s : State) _ => s.shared.redis.fresh.map Entry.receipt = ["b", "c", "a"] ∧
      told sample (sample.enqueue_state_key "slot") s.shared.added = 2) (by decide +kernel)
  exact ⟨s, es, hexec, hreceipts, htold, enqueued_once_each (Machine.run_of_exec sampleRun hexec) "slot"⟩

end Sample

end EnterpriseCopilot.Queue.Producers
