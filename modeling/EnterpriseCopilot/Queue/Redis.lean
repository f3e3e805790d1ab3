import Mathlib.Data.List.Infix
import Mathlib.Logic.Function.Basic
import EnterpriseCopilot.Python.Basic

/-! The Redis Streams queue as programs over single Redis commands.  Every command
is atomic; between two commands of one client anything else may happen. -/

namespace EnterpriseCopilot.Queue

open EnterpriseCopilot.Lib EnterpriseCopilot.Python

/-- A stream entry as the client library hands it over. -/
structure Entry where
  receipt : String
  job_id : Option String
  payload : Option String
  enqueued_at : Option String
  deriving DecidableEq

structure Job where
  id : String
  payload : Payload
  enqueued_at : String
  receipt : Option String

inductive ClaimStatus
  | claimed | in_progress | completed
  deriving DecidableEq, Repr

structure RunClaim where
  status : ClaimStatus
  token : Option String
  deriving DecidableEq

/-- The commands a queue client issues.  `complete` is the `EVAL` of the
completion script, `groupReady` and `setGroupReady` the client's own flag. -/
inductive Cmd
  | get (key : String)
  | setNx (key value : String) (ex : Int)
  | complete (key expected : String) (retention : Int)
  | delete (key : String)
  | xgroupCreate
  | xadd (job_id payload enqueued_at : String)
  | xautoclaim (minIdleMs : Int)
  | xreadgroup (blockMs : Int)
  | xack (receipt : String)
  | uuid4
  | time
  | groupReady
  | setGroupReady

/-- Answers: a Redis command either takes effect or raises, with the text of the
exception. -/
abbrev Reply : Cmd → Type
  | .get _ => Except String (Option String)
  | .setNx _ _ _ => Except String Bool
  | .complete _ _ _ => Except String Int
  | .delete _ => Except String Unit
  | .xgroupCreate => Except String Unit
  | .xadd _ _ _ => Except String String
  | .xautoclaim _ => Except String (List Entry)
  | .xreadgroup _ => Except String (List Entry)
  | .xack _ => Except String Unit
  | .uuid4 => String
  | .time => String
  | .groupReady => Bool
  | .setGroupReady => Unit

/-- The Redis server: string keys that have not expired, stream entries not yet
delivered to the group, and delivered entries not yet acknowledged.  `uuids` are
the identifiers drawn so far and `ready` the `_group_ready` flags of the clients. -/
structure Redis where
  strings : String → Option String
  fresh : List Entry
  pending : List Entry
  uuids : List String
  ready : Nat → Bool

def Redis.init : Redis := ⟨fun _ => none, [], [], [], fun _ => false⟩

/-- What the server state does not determine.  `raises` makes the command fail
without effect; `idle` picks the pending entry that has been idle long enough. -/
structure Choice where
  raises : Option String
  text : String
  idle : Option Nat

def Choice.silent : Choice := ⟨none, "", none⟩

/-- Execute one command of client `i`. -/
def Redis.apply (s : Redis) (i : Nat) : (c : Cmd) → Choice → Reply c × Redis
  | .get key, ch =>
    match ch.raises with
    | some e => (.error e, s)
    | none => (.ok (s.strings key), s)
  | .setNx key value _, ch =>
    match ch.raises with
    | some e => (.error e, s)
    | none =>
      match s.strings key with
      | some _ => (.ok false, s)
      | none => (.ok true, { s with strings := Function.update s.strings key (some value) })
  | .complete key expected _, ch =>
    match ch.raises with
    | some e => (.error e, s)
    | none =>
      if s.strings key = some expected then
        (.ok 1, { s with strings := Function.update s.strings key (some "completed") })
      else (.ok 0, s)
  | .delete key, ch =>
    match ch.raises with
    | some e => (.error e, s)
    | none => (.ok (), { s with strings := Function.update s.strings key none })
  | .xgroupCreate, ch =>
    match ch.raises with
    | some e => (.error e, s)
    | none => (.ok (), s)
  | .xadd job_id payload enqueued_at, ch =>
    match ch.raises with
    | some e => (.error e, s)
    | none => (.ok ch.text,
        { s with fresh := s.fresh ++ [⟨ch.text, some job_id, some payload, some enqueued_at⟩] })
  | .xautoclaim _, ch =>
    match ch.raises with
    | some e => (.error e, s)
    | none => (.ok ((ch.idle.bind (s.pending[·]?)).toList), s)
  | .xreadgroup _, ch =>
    match ch.raises with
    | some e => (.error e, s)
    | none =>
      match s.fresh with
      | [] => (.ok [], s)
      | e :: rest => (.ok [e], { s with fresh := rest, pending := s.pending ++ [e] })
  | .xack receipt, ch =>
    match ch.raises with
    | some e => (.error e, s)
    | none => (.ok (), { s with pending := s.pending.filter (·.receipt ≠ receipt) })
  | .uuid4, ch => (ch.text, { s with uuids := ch.text :: s.uuids })
  | .time, ch => (ch.text, s)
  | .groupReady, _ => (s.ready i, s)
  | .setGroupReady, _ => ((), { s with ready := Function.update s.ready i true })

theorem Redis.apply_get (s : Redis) (i : Nat) (k : String) (ch : Choice) :
    (s.apply i (.get k) ch).2 = s := by
  simp only [Redis.apply]
  split <;> rfl

/-- `SET NX` creates the key, or leaves the server as it is. -/
theorem Redis.setNx_cases (s : Redis) (i : Nat) (k v : String) (ex : Int) (ch : Choice) :
    ((s.apply i (.setNx k v ex) ch).1 = .ok true ∧ s.strings k = none ∧
      (s.apply i (.setNx k v ex) ch).2.strings = Function.update s.strings k (some v)) ∨
    ((s.apply i (.setNx k v ex) ch).1 ≠ .ok true ∧ (s.apply i (.setNx k v ex) ch).2 = s) := by
  simp only [Redis.apply]
  split
  · exact .inr ⟨by simp, rfl⟩
  · split
    · exact .inr ⟨by simp, rfl⟩
    · rename_i hk
      exact .inl ⟨rfl, hk, rfl⟩

/-- The completion script replaces exactly the expected value. -/
theorem Redis.complete_cases (s : Redis) (i : Nat) (k v : String) (retention : Int)
    (ch : Choice) :
    ((s.apply i (.complete k v retention) ch).1 = .ok 1 ∧ s.strings k = some v ∧
      (s.apply i (.complete k v retention) ch).2.strings =
        Function.update s.strings k (some "completed")) ∨
    ((s.apply i (.complete k v retention) ch).1 ≠ .ok 1 ∧
      (s.apply i (.complete k v retention) ch).2 = s ∧
      (ch.raises = none → s.strings k ≠ some v)) := by
  simp only [Redis.apply]
  split
  · rename_i hr
    exact .inr ⟨by simp, rfl, by simp [hr]⟩
  · split
    · rename_i hk
      exact .inl ⟨rfl, hk, rfl⟩
    · rename_i hk
      exact .inr ⟨by simp, rfl, fun _ => hk⟩

theorem Redis.uuids_subset_apply (s : Redis) (i : Nat) (c : Cmd) (ch : Choice) :
    s.uuids ⊆ (s.apply i c ch).2.uuids := by
  cases c <;> simp only [Redis.apply]
  case uuid4 => exact List.subset_cons_self _ _
  case setNx =>
    split
    · exact List.Subset.refl _
    · split <;> exact List.Subset.refl _
  case complete =>
    split
    · exact List.Subset.refl _
    · split <;> exact List.Subset.refl _
  case xreadgroup =>
    split
    · exact List.Subset.refl _
    · split <;> exact List.Subset.refl _
  all_goals first | exact List.Subset.refl _ | (split <;> exact List.Subset.refl _)

/-- The command put the value under the key. -/
inductive Writes (key : String) : String → (c : Cmd) → Reply c → Prop
  | setNx {v ex} : Writes key v (.setNx key v ex) (.ok true)
  | complete {expected retention} : Writes key "completed" (.complete key expected retention) (.ok 1)

theorem Redis.writes_of_apply {s : Redis} {i : Nat} {c : Cmd} {ch : Choice} {key v : String}
    (h : (s.apply i c ch).2.strings key = some v) :
    s.strings key = some v ∨ Writes key v c (s.apply i c ch).1 := by
  cases c with
  | setNx k w ex =>
    obtain ⟨hr, _, hset⟩ | ⟨_, hset⟩ := s.setNx_cases i k w ex ch
    · rw [hset, Function.update_apply] at h
      split at h
      · rename_i hk
        cases h
        subst hk
        rw [hr]
        exact .inr .setNx
      · exact .inl h
    · rw [hset] at h
      exact .inl h
  | complete k w retention =>
    obtain ⟨hr, _, hset⟩ | ⟨_, hset, _⟩ := s.complete_cases i k w retention ch
    · rw [hset, Function.update_apply] at h
      split at h
      · rename_i hk
        cases h
        subst hk
        rw [hr]
        exact .inr .complete
      · exact .inl h
    · rw [hset] at h
      exact .inl h
  | delete k =>
    refine .inl ?_
    simp only [Redis.apply] at h
    split at h
    · exact h
    · change Function.update s.strings k none key = some v at h
      rw [Function.update_apply] at h
      split at h
      · cases h
      · exact h
  | xreadgroup b =>
    refine .inl ?_
    simp only [Redis.apply] at h
    split at h
    · exact h
    · split at h <;> exact h
  | uuid4 | time | groupReady | setGroupReady => exact .inl h
  | get | xgroupCreate | xadd | xautoclaim | xack =>
    refine .inl ?_
    simp only [Redis.apply] at h
    split at h <;> exact h

/-- A key with an expiry time disappears. -/
def Redis.expire (s : Redis) (key : String) : Redis :=
  { s with strings := Function.update s.strings key none }

/-- The library functions the queue uses: SHA-256 in hexadecimal and JSON text. -/
structure Codec where
  sha256 : String → String
  dumps : Payload → Except PyError String
  loads : String → Except PyError Json

/-- One `RedisJobQueue` object. -/
structure Config where
  codec : Codec
  stream : String
  claim_after_seconds : Int

/-- The code of the queue client. -/
abbrev Code := Program Cmd Reply PyError

namespace Code

/-- A failed command surfaces as an exception of the client library. -/
def ofReply {α : Type} : Except String α → Code α
  | .ok a => .pure a
  | .error text => .throw (.exception text)

@[simp] theorem ofReply_ok {α : Type} (a : α) : ofReply (.ok a) = .pure a := rfl
@[simp] theorem ofReply_error {α : Type} (text : String) :
    (ofReply (.error text) : Code α) = .throw (.exception text) := rfl

def get (key : String) : Code (Option String) := .cmd (.get key) ofReply
def setNx (key value : String) (ex : Int) : Code Bool := .cmd (.setNx key value ex) ofReply
def complete (key expected : String) (retention : Int) : Code Int :=
  .cmd (.complete key expected retention) ofReply
def delete (key : String) : Code Unit := .cmd (.delete key) ofReply
def xgroupCreate : Code (Except String Unit) := .cmd .xgroupCreate .pure
def xadd (job_id payload enqueued_at : String) : Code String :=
  .cmd (.xadd job_id payload enqueued_at) ofReply
def xautoclaim (minIdleMs : Int) : Code (List Entry) := .cmd (.xautoclaim minIdleMs) ofReply
def xreadgroup (blockMs : Int) : Code (List Entry) := .cmd (.xreadgroup blockMs) ofReply
def xack (receipt : String) : Code Unit := .cmd (.xack receipt) ofReply
def uuid4 : Code String := .cmd .uuid4 .pure
def time : Code String := .cmd .time .pure
def groupReady : Code Bool := .cmd .groupReady .pure
def setGroupReady : Code Unit := .cmd .setGroupReady .pure

/-- `try p except Exception: raise QueueError(msg)`. -/
def orQueueError {α : Type} (p : Code α) (msg : String) : Code α :=
  p.tryCatch fun _ => .throw (.queueError msg)

end Code

namespace Config

variable (q : Config)

def run_state_key (idempotency_key : String) : String :=
  q.stream ++ ":runs:" ++ q.codec.sha256 idempotency_key

def enqueue_state_key (idempotency_key : String) : String :=
  q.stream ++ ":enqueued:" ++ q.codec.sha256 idempotency_key

theorem run_state_key_injective (hsha : Function.Injective q.codec.sha256) :
    Function.Injective q.run_state_key := by
  intro a b h
  apply hsha
  simpa [run_state_key] using h

/-- Another client may have created the group. -/
def ensure_group : Code Unit := do
  if ← Code.groupReady then return ()
  else
    match ← Code.xgroupCreate with
    | .ok () => Code.setGroupReady
    | .error text =>
      if "BUSYGROUP".toList <:+: text.toList then Code.setGroupReady
      else throw (.queueError "Redis consumer group could not be initialized")

/-- Only `TypeError` and `ValueError` of the encoder are reported as such. -/
def encode (payload : Payload) : Except PyError String :=
  match q.codec.dumps payload with
  | .ok encoded => .ok encoded
  | .error (.typeError _) => .error (.queueError "job payload must be JSON serializable")
  | .error (.valueError _) => .error (.queueError "job payload must be JSON serializable")
  | .error e => .error e

def enqueue (payload : Payload) : Code Job := do
  let encoded ← Program.ofExcept (q.encode payload)
  if encoded.utf8ByteSize > 100000 then throw (.queueError "job payload is too large")
  else
    ensure_group
    let job_id ← Code.uuid4
    let enqueued_at ← Code.time
    let receipt ← (Code.xadd job_id encoded enqueued_at).orQueueError "Redis job enqueue failed"
    let now ← Code.time
    return ⟨job_id, payload, now, some receipt⟩

/-- The inner `try` of `enqueue_once`: a failed enqueue gives the marker back. -/
def enqueue_or_release (payload : Payload) (state_key : String) : Code (Option Job) :=
  Program.tryCatch (some <$> q.enqueue payload) fun e => do
    Code.delete state_key
    throw e

/-- The outer `try` of `enqueue_once`. -/
def claim_and_enqueue (payload : Payload) (state_key : String) (retention_seconds : Int) :
    Code (Option Job) := do
  if ← Code.setNx state_key "enqueued" retention_seconds then
    q.enqueue_or_release payload state_key
  else return none

/-- What `enqueue_once` makes of an exception. -/
def reraise : PyError → Code (Option Job)
  | .queueError msg => throw (.queueError msg)
  | _ => throw (.queueError "Redis schedule enqueue claim failed")

def enqueue_once (payload : Payload) (idempotency_key : String)
    (retention_seconds : Int := 30 * 86400) : Code (Option Job) :=
  if idempotency_key.isEmpty || idempotency_key.length > 256 then
    throw (.valueError "schedule enqueue idempotency key is invalid")
  else if retention_seconds ≤ 0 || retention_seconds > 365 * 86400 then
    throw (.valueError "schedule enqueue retention is invalid")
  else
    (q.claim_and_enqueue payload (q.enqueue_state_key idempotency_key) retention_seconds).tryCatch
      reraise

def claim_abandoned : Code (List Entry) :=
  (Code.xautoclaim (q.claim_after_seconds * 1000)).orQueueError "Redis abandoned-job claim failed"

def decode (message : Entry) : Except PyError Job :=
  match q.codec.loads (message.payload.getD "None") with
  | .error (.typeError _) => .error (.queueError "Redis job payload is invalid")
  | .error (.valueError _) => .error (.queueError "Redis job payload is invalid")
  | .error e => .error e
  | .ok value =>
    match value, message.job_id, message.enqueued_at with
    | .obj payload, some job_id, some enqueued_at =>
      .ok ⟨job_id, payload, enqueued_at, some message.receipt⟩
    | _, _, _ => .error (.queueError "Redis job fields are incomplete")

/-- The first entry, if there is one. -/
def first (messages : List Entry) : Code (Option Job) :=
  match messages with
  | message :: _ => some <$> Program.ofExcept (q.decode message)
  | [] => return none

def receive (block_seconds : Int := 5) : Code (Option Job) :=
  if block_seconds < 0 || block_seconds > 300 then
    throw (.valueError "block timeout is invalid")
  else do
    ensure_group
    match ← q.claim_abandoned with
    | [] =>
      let messages ← (Code.xreadgroup (block_seconds * 1000)).orQueueError
        "Redis job receive failed"
      q.first messages
    | messages => q.first messages

def ack (job : Job) : Code Unit :=
  match job.receipt with
  | none => return ()
  | some receipt =>
    if receipt.isEmpty then return ()
    else (Code.xack receipt).orQueueError "Redis job acknowledgement failed"

/-- `str(None)` is `"None"`, so a key that vanished reads as a foreign lease. -/
def normalized (current : Option String) : String := current.getD "None"

def claim_of (current : Option String) : RunClaim :=
  if normalized current = "completed" then ⟨.completed, none⟩ else ⟨.in_progress, none⟩

/-- The commands of `claim_run`, inside its `try`. -/
def claim_body (state_key token : String) (lease_seconds : Int) : Code RunClaim := do
  let running_value := "running:" ++ token
  let current ← Code.get state_key
  if current.isNone then
    let created ← Code.setNx state_key running_value lease_seconds
    if created then return ⟨.claimed, some token⟩
    let current ← Code.get state_key
    return claim_of current
  return claim_of current

def claim_run (idempotency_key : String) (lease_seconds : Int := 300)
    (retention_seconds : Int := 86400) : Code RunClaim := do
  if idempotency_key.isEmpty || idempotency_key.length > 256 then
    throw (.valueError "run idempotency key is invalid")
  if lease_seconds ≤ 0 || lease_seconds > 86400 then
    throw (.valueError "run lease is invalid")
  if retention_seconds ≤ 0 || retention_seconds > 7 * 86400 then
    throw (.valueError "run completion retention is invalid")
  let token ← Code.uuid4
  (claim_body (q.run_state_key idempotency_key) token lease_seconds).orQueueError
    "Redis run claim failed"

def complete_run (idempotency_key token : String) (retention_seconds : Int := 86400) :
    Code Unit := do
  if idempotency_key.isEmpty || idempotency_key.length > 256 then
    throw (.valueError "run idempotency key is invalid")
  if token.isEmpty || token.length > 128 then
    throw (.valueError "run claim token is invalid")
  if retention_seconds ≤ 0 || retention_seconds > 7 * 86400 then
    throw (.valueError "run completion retention is invalid")
  let result ← (Code.complete (q.run_state_key idempotency_key) ("running:" ++ token)
    retention_seconds).orQueueError "Redis run completion failed"
  if result ≠ 1 then throw (.queueError "Redis run claim was lost before completion")

section Programs

variable {q}

theorem dumps_of_encode {payload : Payload} {text : String} (h : q.encode payload = .ok text) :
    q.codec.dumps payload = .ok text := by
  unfold encode at h
  split at h
  · rename_i hd
    cases h
    exact hd
  all_goals cases h

/-- `claim_run` and `complete_run` accept this key. -/
structure ValidKey (key : String) : Prop where
  nonempty : key ≠ ""
  length : key.length ≤ 256

theorem claim_run_eq {key : String} {lease : Int} (hkey : ValidKey key) (hpos : 0 < lease)
    (hmax : lease ≤ 86400) : q.claim_run key lease =
      .cmd .uuid4 fun token => .cmd (.get (q.run_state_key key)) fun
        | .error _ => .throw (.queueError "Redis run claim failed")
        | .ok (some v) => .pure (claim_of (some v))
        | .ok none => .cmd (.setNx (q.run_state_key key) ("running:" ++ token) lease) fun
          | .error _ => .throw (.queueError "Redis run claim failed")
          | .ok true => .pure ⟨.claimed, some token⟩
          | .ok false => .cmd (.get (q.run_state_key key)) fun
            | .error _ => .throw (.queueError "Redis run claim failed")
            | .ok current => .pure (claim_of current) := by
  have hk : (key.isEmpty || key.length > 256) = false := by simp [hkey.nonempty, hkey.length]
  have hl : (lease ≤ 0 || lease > 86400) = false := by simp [hpos, hmax]
  unfold claim_run
  rw [hk, hl]
  simp only [Program.bind_eq]
  change Program.cmd _ _ = _
  congr 1
  funext token
  change Program.cmd _ _ = _
  congr 1
  funext r
  rcases r with e | _ | v
  · rfl
  · change Program.cmd _ _ = _
    congr 1
    funext created
    rcases created with e | _ | _
    · rfl
    · change Program.cmd _ _ = _
      congr 1
      funext r
      cases r <;> rfl
    · rfl
  · rfl

theorem claim_run_invalid {key : String} {lease : Int} (hkey : ¬ ValidKey key) :
    q.claim_run key lease = .throw (.valueError "run idempotency key is invalid") := by
  have hk : (key.isEmpty || key.length > 256) = true := by
    by_contra h
    simp only [Bool.or_eq_true, String.isEmpty_iff, decide_eq_true_eq, not_or, not_lt] at h
    exact hkey ⟨h.1, h.2⟩
  unfold claim_run
  rw [hk]
  rfl

theorem complete_run_eq {key token : String} (hkey : ValidKey key) (ht : token ≠ "")
    (hlen : token.length ≤ 128) : q.complete_run key token =
      .cmd (.complete (q.run_state_key key) ("running:" ++ token) 86400) fun
        | .error _ => .throw (.queueError "Redis run completion failed")
        | .ok n => if n ≠ 1 then .throw (.queueError "Redis run claim was lost before completion")
          else .pure () := by
  have hk : (key.isEmpty || key.length > 256) = false := by simp [hkey.nonempty, hkey.length]
  have hl : (token.isEmpty || token.length > 128) = false := by simp [ht, hlen]
  unfold complete_run
  rw [hk, hl]
  change Program.cmd _ _ = _
  congr 1
  funext r
  cases r with
  | error e => rfl
  | ok n => rfl

theorem complete_run_invalid {key token : String}
    (h : ¬ (ValidKey key ∧ token ≠ "" ∧ token.length ≤ 128)) :
    ∃ msg, q.complete_run key token = .throw (.valueError msg) := by
  unfold complete_run
  by_cases hkey : ValidKey key
  · have hk : (key.isEmpty || key.length > 256) = false := by simp [hkey.nonempty, hkey.length]
    have hl : (token.isEmpty || token.length > 128) = true := by
      by_contra hl
      simp only [Bool.or_eq_true, String.isEmpty_iff, decide_eq_true_eq, not_or, not_lt] at hl
      exact h ⟨hkey, hl.1, hl.2⟩
    rw [hk, hl]
    exact ⟨_, rfl⟩
  · have hk : (key.isEmpty || key.length > 256) = true := by
      by_contra hk
      simp only [Bool.or_eq_true, String.isEmpty_iff, decide_eq_true_eq, not_or, not_lt] at hk
      exact hkey ⟨hk.1, hk.2⟩
    rw [hk]
    exact ⟨_, rfl⟩

theorem enqueue_once_eq {payload : Payload} {key : String} {retention : Int} (hkey : ValidKey key)
    (hret : 0 < retention ∧ retention ≤ 365 * 86400) : q.enqueue_once payload key retention =
      .cmd (.setNx (q.enqueue_state_key key) "enqueued" retention) fun
        | .error _ => .throw (.queueError "Redis schedule enqueue claim failed")
        | .ok false => .pure none
        | .ok true =>
          (q.enqueue_or_release payload (q.enqueue_state_key key)).tryCatch reraise := by
  have hk : (key.isEmpty || key.length > 256) = false := by simp [hkey.nonempty, hkey.length]
  have hr : (retention ≤ 0 || retention > 365 * 86400) = false := by
    simp only [Bool.or_eq_false_iff, decide_eq_false_iff_not]
    omega
  unfold enqueue_once
  rw [hk, hr]
  change Program.cmd _ _ = _
  congr 1
  funext r
  rcases r with e | _ | _ <;> rfl

theorem enqueue_once_refused {payload : Payload} {key : String} {retention : Int}
    (h : ¬ (ValidKey key ∧ 0 < retention ∧ retention ≤ 365 * 86400)) :
    ∃ msg, q.enqueue_once payload key retention = .throw (.valueError msg) := by
  unfold enqueue_once
  split
  · exact ⟨_, rfl⟩
  rename_i hk
  split
  · exact ⟨_, rfl⟩
  rename_i hr
  simp only [Bool.or_eq_true, String.isEmpty_iff, decide_eq_true_eq, not_or, not_lt] at hk
  simp only [Bool.or_eq_true, decide_eq_true_eq, not_or] at hr
  exact absurd ⟨⟨hk.1, hk.2⟩, by omega, by omega⟩ h

theorem ack_eq (job : Job) : (∃ receipt, job.receipt = some receipt ∧ receipt ≠ "" ∧
      ack job = .cmd (.xack receipt) fun
        | .error _ => .throw (.queueError "Redis job acknowledgement failed")
        | .ok () => .pure ()) ∨
    ((∀ receipt, job.receipt = some receipt → receipt = "") ∧ ack job = .pure ()) := by
  unfold ack
  cases hr : job.receipt with
  | none => exact .inr ⟨by simp, rfl⟩
  | some receipt =>
    by_cases he : receipt = ""
    · subst he
      exact .inr ⟨by simp, rfl⟩
    · refine .inl ⟨receipt, rfl, he, ?_⟩
      have hne : receipt.isEmpty = false := by simp [he]
      simp only [hne]
      change Program.cmd _ _ = _
      congr 1
      funext r
      rcases r with e | ⟨⟩ <;> rfl

end Programs

end Config

end EnterpriseCopilot.Queue
