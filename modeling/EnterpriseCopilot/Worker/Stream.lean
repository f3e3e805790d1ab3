import EnterpriseCopilot.Lib.Pool
import EnterpriseCopilot.Worker.Consume
import EnterpriseCopilot.Worker.Producer

/-! Any number of workers and producers on one Redis stream.  Workers may die at any
point and state keys expire at any time. -/

namespace EnterpriseCopilot.Worker.Stream

open EnterpriseCopilot.Lib EnterpriseCopilot.Python EnterpriseCopilot.Schedule
open EnterpriseCopilot.Queue (Config Redis Job)

/-- Calls of the worker or producer with the given number. -/
inductive Call
  | receive (worker : Nat) (block_seconds : Int)
  | consume (worker : Nat) (d : ScheduleDefinition) (job : Job)
  | enqueue (worker : Nat) (d : ScheduleDefinition) (now : DateTime)

def Call.worker : Call → Nat
  | .receive w _ | .consume w _ _ | .enqueue w _ _ => w

inductive Answer
  | job (job : Option Job)
  | exit (code : Int)
  | queued (b : Bool)

def program (q : Config) (L : Library) : Call → Code Answer
  | .receive _ block_seconds => do return .job (← Code.queue (q.receive block_seconds))
  | .consume _ d job => do return .exit (← _consume_job q L d job)
  | .enqueue _ d now => do return .queued (← Code.queue (enqueue_due q L d now))

/-- One server; every worker has a scheduler of its own. -/
structure Cluster where
  redis : Redis
  schedulers : Nat → Scheduler

def Cluster.apply (s : Cluster) (call : Call) (c : Cmd) (ch : Queue.Choice × Schedule.Choice) :
    Reply c × Cluster :=
  let a := World.apply ⟨s.redis, s.schedulers call.worker⟩ call.worker c ch
  (a.1, ⟨a.2.redis, Function.update s.schedulers call.worker a.2.scheduler⟩)

def pool (q : Config) (L : Library) :
    Pool Cluster Cmd Reply (Queue.Choice × Schedule.Choice) String Call PyError Answer where
  program := program q L
  apply := Cluster.apply
  env s key := { s with redis := s.redis.expire key }

abbrev State := Pool.State Cluster Cmd Reply Call PyError Answer
abbrev Action := Pool.Action (Queue.Choice × Schedule.Choice) String Call
abbrev Event := Pool.Event Cmd Reply String Call PyError Answer
abbrev Log := Exchange Cmd Reply

/-- Tokens and job identifiers are drawn by `uuid4`. -/
def draws (q : Config) (L : Library) : (pool q L).Draws String where
  value
    | .queue .uuid4, t => some t
    | _, _ => none
  drawn s t := t ∈ s.redis.uuids
  keep := by
    intro s call c ch x h
    cases c with
    | queue c => exact Redis.uuids_subset_apply s.redis _ c ch.1 h
    | scheduler c => exact h
  keep_env h := h
  add := by
    intro s call c ch x h
    cases c with
    | scheduler c => cases h
    | queue c =>
      cases c <;> simp only [Option.some.injEq, reduceCtorEq] at h
      subst h
      exact List.mem_cons_self

/-- The job is for a slot with this run key. -/
def Slotted (L : Library) (d : ScheduleDefinition) (job : Job) (key : String) : Prop :=
  ∃ queued_at slot, validate_schedule_job_payload L job.payload d = .ok queued_at ∧
    d.scheduled_for L queued_at = .ok (some slot) ∧ key = d.id ++ ":" ++ slot.isoformat

theorem Slotted.unique (h : Slotted L d job key) (h' : Slotted L d job key') : key = key' := by
  obtain ⟨at₁, slot₁, hv₁, hs₁, rfl⟩ := h
  obtain ⟨at₂, slot₂, hv₂, hs₂, rfl⟩ := h'
  rw [hv₁] at hv₂
  cases hv₂
  rw [hs₁] at hs₂
  cases hs₂
  rfl

/-- The completion script of `complete_run` on the key succeeded. -/
def Completed (q : Config) (es : List Event) (key : String) : Prop :=
  ∃ i call expected retention out,
    Pool.Event.did i call (.queue (.complete (q.run_state_key key) expected retention)) (.ok 1) out ∈ es

/-- A job for a slot is acknowledged only after a completion of its run key. -/
def NothingLost (q : Config) (L : Library) (es : List Event) : Prop :=
  ∀ pre post i w d job receipt key r out,
    es = pre ++ .did i (.consume w d job) (.queue (.xack receipt)) r out :: post →
    Slotted L d job key → Completed q pre key

section Guard

/-- The call has tried to create a key before. -/
def retried (log : Log) : Bool :=
  log.any fun
    | ⟨.queue (.setNx _ _ _), _⟩ => true
    | _ => false

/-- A `claim_run` that reads the state of a run finds the marker of a completed run, or,
unless it has just failed to create the key, finds nothing. -/
def reads (s : State) : Action → Bool
  | .step i _ =>
    match s.threads i with
    | .live ⟨_, log, .cmd (.queue (.get key)) _⟩ => match s.shared.redis.strings key with
      | some v => v == "completed"
      | none => !retried log
    | _ => true
  | _ => true

def Guard (q : Config) (L : Library) (s : State) (a : Action) : Prop :=
  (draws q L).Fresh s a ∧ reads s a = true

end Guard

section Local

variable (q : Config) (L : Library)

/-- What a call knows when it acknowledges a job for the slot. -/
inductive Evidence (key : String) (log : Log) : Prop
  | completed {token key' ex} : ⟨.queue .uuid4, token⟩ ∈ log →
      ⟨.queue (.setNx (q.run_state_key key) ("running:" ++ token) ex), .ok true⟩ ∈ log →
      ⟨.queue (.complete (q.run_state_key key') ("running:" ++ token) 86400), .ok 1⟩ ∈ log →
      Evidence key log
  | read {pre v post} : log = pre ++ ⟨.queue (.get (q.run_state_key key)), .ok v⟩ :: post →
      v ≠ none ∨ retried pre = true → Evidence key log

def Issues (call : Call) (log : Log) : Cmd → Prop
  | .queue (.setNx key value _) => value = "enqueued" ∨ ∃ token w d job K,
      value = "running:" ++ token ∧ ⟨.queue .uuid4, token⟩ ∈ log ∧ call = .consume w d job ∧
      Slotted L d job K ∧ key = q.run_state_key K
  | .queue (.xack _) => ∀ w d job key, call = .consume w d job → Slotted L d job key →
      Evidence q key log
  | _ => True

def Anything (_ : Call) (_ : Log) (_ : Except PyError Answer) : Prop := True

/-- Commands that neither take a lease nor acknowledge a job. -/
def Harmless : Queue.Cmd → Prop
  | .setNx _ value _ => value = "enqueued"
  | .xack _ => False
  | _ => True

theorem harmless_ofReply {α : Type} (r : Except String α) :
    Program.All Harmless (Queue.Code.ofReply r) := by
  cases r <;> trivial

theorem harmless_ensure_group : Program.All Harmless Config.ensure_group := by
  refine ⟨trivial, fun ready => ?_⟩
  cases ready with
  | true => trivial
  | false =>
    refine ⟨trivial, fun r => ?_⟩
    rcases r with text | ⟨⟩
    · simp only [Program.pure_bind]
      split
      · exact ⟨trivial, fun _ => trivial⟩
      · trivial
    · exact ⟨trivial, fun _ => trivial⟩

theorem harmless_orQueueError {α : Type} {p : Queue.Code α} {msg : String}
    (hp : Program.All Harmless p) : Program.All Harmless (p.orQueueError msg) :=
  hp.tryCatch fun _ => trivial

theorem harmless_first (messages : List Queue.Entry) : Program.All Harmless (q.first messages) := by
  cases messages with
  | nil => trivial
  | cons message _ => exact (Program.all_ofExcept (q.decode message)).bind fun _ => trivial

theorem harmless_receive (block_seconds : Int) : Program.All Harmless (q.receive block_seconds) := by
  unfold Config.receive
  split
  · trivial
  refine harmless_ensure_group.bind fun _ => ?_
  refine .bind (harmless_orQueueError ⟨trivial, harmless_ofReply⟩) fun messages => ?_
  cases messages with
  | nil =>
    exact .bind (harmless_orQueueError ⟨trivial, harmless_ofReply⟩) (harmless_first q)
  | cons message rest => exact harmless_first q (message :: rest)

theorem harmless_enqueue (payload : Payload) : Program.All Harmless (q.enqueue payload) := by
  unfold Config.enqueue
  refine (Program.all_ofExcept _).bind fun encoded => ?_
  split
  · trivial
  refine harmless_ensure_group.bind fun _ => ⟨trivial, fun job_id => ⟨trivial, fun at_ => ?_⟩⟩
  refine ⟨trivial, fun r => ?_⟩
  cases r with
  | error e => trivial
  | ok receipt => exact ⟨trivial, fun _ => trivial⟩

theorem harmless_enqueue_once (payload : Payload) (key : String) :
    Program.All Harmless (q.enqueue_once payload key) := by
  unfold Config.enqueue_once
  split
  · trivial
  split
  · trivial
  refine Program.All.tryCatch ⟨rfl, fun r => ?_⟩ fun e => by cases e <;> trivial
  rcases r with e | _ | _
  · trivial
  · trivial
  · refine Program.All.tryCatch ((harmless_enqueue q payload).bind fun _ => trivial) fun e => ?_
    exact ⟨trivial, fun r => (harmless_ofReply r).bind fun _ => trivial⟩

theorem harmless_enqueue_due (d : ScheduleDefinition) (now : DateTime) :
    Program.All Harmless (enqueue_due q L d now) := by
  unfold enqueue_due
  refine (Program.all_ofExcept _).bind fun slot => ?_
  cases slot with
  | none => trivial
  | some slot =>
    refine (Program.all_ofExcept _).bind fun utc => ?_
    exact (harmless_enqueue_once q _ _).bind fun _ => trivial

theorem issues_of_harmless {call : Call} {log : Log} {c : Queue.Cmd} (h : Harmless c) :
    Issues q L call log (.queue c) := by
  cases c with
  | setNx key value ex => exact .inl h
  | xack receipt => cases h
  | _ => trivial

theorem sat_harmless {α : Type} {call : Call} {p : Queue.Code α} {f : α → Answer}
    (h : Program.All Harmless p) : Program.Sat (Issues q L call) (Anything call) []
      ((Code.queue p).bind fun a => .pure (f a)) := by
  refine Program.All.sat (P := fun c => ∃ c', Harmless c' ∧ c = .queue c') ?_
    (fun _ _ => trivial) ?_
  · rintro log c ⟨c', hc', rfl⟩
    exact issues_of_harmless q L hc'
  · exact .bind (.lift (h.imp fun c hc => ⟨c, hc, rfl⟩)) fun _ => trivial

section Consume

variable {w : Nat} {d : ScheduleDefinition} {job : Job} {log : Log}

abbrev ConsumeSat {α : Type} (w : Nat) (d : ScheduleDefinition) (job : Job) (log : Log)
    (p : Code α) : Prop :=
  Program.Sat (Issues q L (.consume w d job)) (fun _ _ => True) log p

theorem sat_ack {α : Type} {f : Unit → Code α} (h : ∀ receipt, Issues q L (.consume w d job) log
      (.queue (.xack receipt))) (hf : ∀ log', ConsumeSat q L w d job log' (f ())) :
    ConsumeSat q L w d job log ((Code.queue (Config.ack job)).bind f) := by
  obtain ⟨receipt, _, _, hack⟩ | ⟨_, hack⟩ := Config.ack_eq job
  · rw [hack]
    refine ⟨h receipt, fun r => ?_⟩
    rcases r with e | ⟨⟩
    · trivial
    · exact hf _
  · rw [hack]
    exact hf _

theorem sat_after_claim {queued_at : DateTime} {key token : String} {ex : Int}
    (hkey : Slotted L d job key) :
    ConsumeSat q L w d job [⟨.queue .uuid4, token⟩, ⟨.queue (.get (q.run_state_key key)), .ok none⟩,
        ⟨.queue (.setNx (q.run_state_key key) ("running:" ++ token) ex), .ok true⟩]
      (after_claim q L d job queued_at ⟨.claimed, some token⟩) := by
  refine Program.Sat.bind (Program.sat_lift (fun _ _ => trivial) fun ext o _ => ?_)
  cases o with
  | error e => trivial
  | ok run =>
    by_cases hvalid : Config.ValidKey run.idempotency_key ∧ token ≠ "" ∧ token.length ≤ 128
    · simp only [Program.bind_eq]
      rw [Config.complete_run_eq hvalid.1 hvalid.2.1 hvalid.2.2]
      refine ⟨trivial, fun r => ?_⟩
      cases r with
      | error e => trivial
      | ok n =>
        by_cases hn : n = 1
        · subst hn
          refine sat_ack q L (fun receipt w' d' job' key' hcall hkey' => ?_) fun _ => trivial
          cases hcall
          obtain rfl := hkey.unique hkey'
          exact .completed (.head _) (.tail _ (.tail _ (.head _))) (List.mem_append_right _ (.head _))
        · simp only [ne_eq, hn, not_false_eq_true, if_true]
          trivial
    · obtain ⟨msg, hmsg⟩ := Config.complete_run_invalid (q := q) hvalid
      simp only [Program.bind_eq]
      rw [hmsg]
      trivial

/-- The job is acknowledged on the word of another worker. -/
theorem sat_deferred {queued_at : DateTime} {key : String} {v : Option String} {pre : Log}
    (hkey : Slotted L d job key) (hv : v ≠ none ∨ retried pre = true) :
    ConsumeSat q L w d job (pre ++ [⟨.queue (.get (q.run_state_key key)), .ok v⟩])
      (after_claim q L d job queued_at (Config.claim_of v)) := by
  unfold after_claim
  have hne : (Config.claim_of v).status ≠ .claimed := by
    unfold Config.claim_of
    split <;> simp
  rw [if_pos hne]
  refine sat_ack q L (fun receipt w' d' job' key' hcall hkey' => ?_) fun _ => trivial
  cases hcall
  obtain rfl := hkey.unique hkey'
  exact .read rfl hv

theorem sat_claimed {queued_at : DateTime} {key : String} (hkey : Slotted L d job key) :
    ConsumeSat q L w d job [] ((Code.queue (q.claim_run key (lease_seconds d))).bind
      (after_claim q L d job queued_at)) := by
  by_cases hvalid : Config.ValidKey key
  · rw [Config.claim_run_eq hvalid (lease_seconds_pos d) (lease_seconds_le d)]
    refine ⟨trivial, fun token => ⟨trivial, fun r => ?_⟩⟩
    rcases r with e | _ | v
    · trivial
    · refine ⟨.inr ⟨token, w, d, job, key, rfl, by simp, rfl, hkey, rfl⟩, fun created => ?_⟩
      rcases created with e | _ | _
      · trivial
      · refine ⟨trivial, fun r => ?_⟩
        cases r with
        | error e => trivial
        | ok v => exact sat_deferred q L hkey (.inr rfl)
      · exact sat_after_claim q L hkey
    · have hv : some v ≠ none ∨ retried [⟨.queue .uuid4, token⟩] = true := .inl (by simp)
      exact sat_deferred q L hkey hv
  · rw [Config.claim_run_invalid hvalid]
    trivial

theorem consume_sat (w : Nat) (d : ScheduleDefinition) (job : Job) :
    ConsumeSat q L w d job [] (_consume_job q L d job) := by
  unfold _consume_job
  cases hv : validate_schedule_job_payload L job.payload d with
  | error e => trivial
  | ok queued_at =>
    cases hs : d.scheduled_for L queued_at with
    | error e =>
      simp only [Program.ofExcept_ok, Program.bind_eq, Program.pure_bind, hs]
      trivial
    | ok r =>
      simp only [Program.ofExcept_ok, Program.bind_eq, Program.pure_bind, hs]
      cases r with
      | none =>
        refine Program.Sat.bind (Program.sat_lift (fun _ _ => trivial) fun ext o _ => ?_)
        cases o with
        | error e => trivial
        | ok run =>
          refine sat_ack q L (fun receipt w' d' job' key' hcall hkey' => ?_) fun _ => trivial
          cases hcall
          obtain ⟨_, _, hv', hs', _⟩ := hkey'
          rw [hv] at hv'
          cases hv'
          rw [hs] at hs'
          cases hs'
      | some slot =>
        simp only [DateTime.astimezone_utc (d.scheduled_for_utc hs), Program.ofExcept_ok,
          Program.pure_bind]
        exact sat_claimed q L ⟨queued_at, slot, hv, hs, rfl⟩

end Consume

theorem program_sat (call : Call) :
    Program.Sat (Issues q L call) (Anything call) [] ((pool q L).program call) := by
  cases call with
  | receive w block_seconds => exact sat_harmless q L (harmless_receive q block_seconds)
  | enqueue w d now => exact sat_harmless q L (harmless_enqueue_due q L d now)
  | consume w d job =>
    refine Program.Sat.bind ((consume_sat q L w d job).mono (fun _ _ h => h) fun _ o _ => ?_)
    cases o <;> trivial

end Local

section Runs

variable {q : Config} {L : Library} {G : State → Action → Prop} {es : List Event} {s t : State}
  {schedulers : Nat → Scheduler}

/-- Whatever is stored was written by a command on record. -/
theorem written_of_run (h : (pool q L).machine.Run G (.init ⟨.init, schedulers⟩) es s)
    {key v : String} (hv : s.shared.redis.strings key = some v) :
    ∃ i call c r out, Pool.Event.did i call (.queue c) r out ∈ es ∧ Queue.Writes key v c r := by
  refine h.invariant (I := fun es s => ∀ key v, s.shared.redis.strings key = some v →
    ∃ i call c r out, Pool.Event.did i call (.queue c) r out ∈ es ∧ Queue.Writes key v c r)
    (by simp [Pool.State.init, Redis.init]) ?_ key v hv
  intro es s a t e _ _ hs ih key v ht
  have old : s.shared.redis.strings key = some v →
      ∃ i call c r out, Pool.Event.did i call (.queue c) r out ∈ es ++ [e] ∧
        Queue.Writes key v c r := by
    intro hold
    obtain ⟨i, call, c, r, out, hin, hw⟩ := ih key v hold
    exact ⟨i, call, c, r, out, List.mem_append_left _ hin, hw⟩
  cases Pool.step_cases hs with
  | start hi => exact old ht
  | crash hi => exact old ht
  | @env k =>
    change Function.update s.shared.redis.strings k none key = some v at ht
    rw [Function.update_apply] at ht
    split at ht
    · cases ht
    · exact old ht
  | @step i ch call log c k hi =>
    cases c with
    | scheduler c => exact old ht
    | queue c =>
      obtain hold | hw := Redis.writes_of_apply ht
      · exact old hold
      · exact ⟨i, call, c, _, _, List.mem_append_right _ (.head _), hw⟩

theorem strings_of_get {s : Redis} {i : Nat} {key : String} {ch : Queue.Choice} {v : Option String}
    (h : (s.apply i (.get key) ch).1 = .ok v) : s.strings key = v := by
  simp only [Redis.apply] at h
  split at h
  · cases h
  · cases h
    rfl

/-- Every read of a run state met the guard when it was made. -/
def Respected (log : Log) : Prop :=
  ∀ pre key v post, log = pre ++ ⟨.queue (.get key), .ok v⟩ :: post →
    v = some "completed" ∨ (v = none ∧ retried pre = false)

theorem respected_of_run (hG : ∀ s a, G s a → reads s a = true)
    (h : (pool q L).machine.Run G (.init ⟨.init, schedulers⟩) es s) {i : Nat}
    {th : Pool.Thread Cmd Reply Call PyError Answer} (hi : s.threads i = .live th) :
    Respected th.log := by
  refine Pool.log_of_run (J := fun _ log => Respected log) ?_ ?_ h i th hi
  · intro call pre key v post hsplit
    simp at hsplit
  · intro s i ch call log c k hg hi ih pre key v post hsplit
    rcases List.eq_nil_or_concat post with rfl | ⟨post', x, rfl⟩
    · obtain ⟨rfl, hl⟩ := List.append_inj' hsplit rfl
      simp only [List.cons.injEq, Sigma.mk.injEq, and_true] at hl
      obtain ⟨rfl, hr⟩ := hl
      have hv : (s.shared.redis.apply call.worker (.get key) ch.1).1 = .ok v := eq_of_heq hr
      have hread := hG _ _ hg
      simp only [reads, hi, strings_of_get hv] at hread
      cases v with
      | some v => exact .inl (by simpa using hread)
      | none => exact .inr ⟨rfl, by simpa using hread⟩
    · rw [List.concat_eq_append, ← List.cons_append, ← List.append_assoc] at hsplit
      obtain ⟨hlog, _⟩ := List.append_inj' hsplit rfl
      exact ih pre key v post' hlog

/-- What a call had exchanged when it issued a command on record. -/
theorem issued_of_run (h : (pool q L).machine.Run G (.init ⟨.init, schedulers⟩) es s)
    {i : Nat} {call : Call} {c : Cmd} {r : Reply c} {out}
    (hin : Pool.Event.did i call c r out ∈ es) : ∃ log, Issues q L call log c ∧
      ∀ x ∈ log, ∃ out, Pool.Event.did i call x.1 x.2 out ∈ es := by
  obtain ⟨pre, post, rfl⟩ := List.append_of_mem hin
  obtain ⟨u, ch, log, k, _, _, _, htr, _, _⟩ := Pool.did_of_run (program_sat q L) h rfl
  refine ⟨log, htr.sat.1, fun x hx => ?_⟩
  obtain ⟨out, ho⟩ := htr.log x hx
  exact ⟨out, List.mem_append_left _ ho⟩

theorem running_ne (token : String) :
    "running:" ++ token ≠ "completed" ∧ "running:" ++ token ≠ "enqueued" := by
  constructor <;>
  · intro h
    have := congrArg String.toList h
    simp at this

theorem running_inj {a b : String} (h : "running:" ++ a = "running:" ++ b) : a = b := by
  simpa using h

/-- A marker that a worker read was left by a successful completion. -/
theorem completed_of_marker (h : (pool q L).machine.Run G (.init ⟨.init, schedulers⟩) es s)
    {key : String} (hv : s.shared.redis.strings (q.run_state_key key) = some "completed") :
    Completed q es key := by
  obtain ⟨i, call, c, r, out, hin, hw⟩ := written_of_run h hv
  cases hw with
  | complete => exact ⟨i, call, _, _, out, hin⟩
  | setNx =>
    obtain ⟨log, hissue, _⟩ := issued_of_run h hin
    obtain heq | ⟨token, _, _, _, _, heq, _⟩ := hissue
    · exact absurd heq (by decide)
    · exact absurd heq.symm (running_ne token).1

/-- The script of a worker succeeds only on the slot whose lease it was given: the token
tells the calls apart. -/
theorem completed_of_token (hG : ∀ s a, G s a → (draws q L).Fresh s a)
    (h : (pool q L).machine.Run G (.init ⟨.init, schedulers⟩) es s) {i w : Nat}
    {d : ScheduleDefinition} {job : Job} {key token key' : String} {retention : Int} {out out'}
    (hkey : Slotted L d job key)
    (htoken : Pool.Event.did i (.consume w d job) (.queue .uuid4) token out ∈ es)
    (hdone : Pool.Event.did i (.consume w d job) (.queue (.complete key' ("running:" ++ token)
      retention)) (.ok 1) out' ∈ es) : key' = q.run_state_key key := by
  obtain ⟨pre, post, hsplit⟩ := List.append_of_mem hdone
  obtain ⟨u, ch, log, k, hpre, _, _, _, hr, _⟩ := Pool.did_of_run (program_sat q L) h hsplit
  have hstored : u.shared.redis.strings key' = some ("running:" ++ token) := by
    obtain ⟨_, hv, _⟩ | ⟨hno, _, _⟩ := Redis.complete_cases u.shared.redis w key'
      ("running:" ++ token) retention ch.1
    · exact hv
    · exact absurd hr.symm hno
  obtain ⟨j, call, c, r, out₁, hin, hw⟩ := written_of_run hpre hstored
  generalize hval : "running:" ++ token = value at hw
  cases hw with
  | complete => exact absurd hval (running_ne token).1
  | setNx =>
    subst hval
    obtain ⟨log₁, hissue, hlog₁⟩ := issued_of_run hpre hin
    obtain heq | ⟨token', w', d', job', K, heq, hdraw, rfl, hslot, rfl⟩ := hissue
    · exact absurd heq (running_ne token).2
    · obtain rfl := running_inj heq
      obtain ⟨out₂, hdrawn⟩ := hlog₁ _ hdraw
      have mem : ∀ {e}, e ∈ pre → e ∈ es := fun he => hsplit ▸ List.mem_append_left _ he
      obtain rfl : i = j := Pool.Draws.draw_unique hG h htoken (mem hdrawn) rfl rfl
      have hcall := (Pool.owned_of_run h).unique htoken (mem hdrawn)
      cases hcall
      rw [hslot.unique hkey]

/-- No job is lost in a run that meets the guard. -/
theorem acked_completed (h : (pool q L).machine.Run (Guard q L) (.init ⟨.init, schedulers⟩) es s) :
    NothingLost q L es := by
  intro pre post i w d job receipt key r out hack hkey
  obtain ⟨u, ch, log, k, hpre, _, hlive, htr, _, _⟩ := Pool.did_of_run (program_sat q L) h hack
  have hrespect := respected_of_run (fun _ _ hg => hg.2) hpre hlive
  cases htr.sat.1 w d job key rfl hkey with
  | completed hdraw _ hdone =>
    obtain ⟨out₁, hdraw⟩ := htr.log _ hdraw
    obtain ⟨out₂, hdone⟩ := htr.log _ hdone
    have hk := completed_of_token (fun _ _ hg => hg.1) hpre hkey hdraw hdone
    exact ⟨i, _, _, _, out₂, hk ▸ hdone⟩
  | @read before v after hsplit hbad =>
    obtain rfl | ⟨rfl, hfirst⟩ := hrespect before _ v after hsplit
    · obtain ⟨out₁, hread⟩ := htr.log ⟨.queue (.get (q.run_state_key key)), .ok (some "completed")⟩
        (hsplit ▸ List.mem_append_right _ (.head _))
      obtain ⟨a, b, rfl⟩ := List.append_of_mem hread
      obtain ⟨u', ch', _, _, ha, _, _, _, hr, _⟩ := Pool.did_of_run (program_sat q L) hpre rfl
      obtain ⟨j, call, expected, retention, out₂, hdone⟩ :=
        completed_of_marker ha (strings_of_get (Eq.symm hr))
      exact ⟨j, call, expected, retention, out₂, List.mem_append_left _ hdone⟩
    · exact absurd hbad (by simp [hfirst])

end Runs

section Sample

instance (s : Cluster) (t : String) : Decidable ((draws q L).drawn s t) :=
  inferInstanceAs (Decidable (t ∈ s.redis.uuids))

instance (s : State) (a : Action) : Decidable (Guard q L s a) :=
  inferInstanceAs (Decidable ((draws q L).Fresh s a ∧ reads s a = true))

/-- The queue of the sample, with an encoder that is exact on its job. -/
def streamQueue : Config where
  codec := {
    sampleQueue.codec with
    dumps _ := .ok ("\x7b\"agent\":\"customer-service-agent\",\"allow_external_processing\":false," ++
      "\"kind\":\"scheduled_agent\",\"order_id\":null,\"permissions_mode\":\"read_only\"," ++
      "\"query\":null,\"schedule_id\":\"nightly\",\"schedule_version\":\"1\"," ++
      "\"scheduled_at\":\"2026-07-01T02:30:00+00:00\"\x7d")
    loads _ := .ok (.obj (build_schedule_job_payload sampleDefinition halfPast)) }
  stream := "agent:jobs"
  claim_after_seconds := 60

/-- The job as `receive` hands it over. -/
def streamJob : Job :=
  ⟨"5a0e", build_schedule_job_payload sampleDefinition halfPast, "2026-07-01T02:30:00+00:00", some "1-0"⟩

def quiet (i n : Nat) : List Action := List.replicate n (.step i (.silent, default))

def answer (i : Nat) (text : String) : Action := .step i (⟨none, text, none⟩, default)

/-- The producer enqueues the job and worker 0 receives it. -/
def delivery : List Action :=
  [.start 0 (.enqueue 9 sampleDefinition halfPast)] ++ quiet 0 4 ++ [answer 0 "5a0e",
    answer 0 "2026-07-01T02:30:00+00:00", answer 0 "1-0"] ++ quiet 0 1 ++
  [.start 1 (.receive 0 5)] ++ quiet 1 5 ++ [.start 2 (.consume 0 sampleDefinition streamJob)]

/-- Worker 0 dies with the lease; worker 1 reclaims the job and acknowledges it. -/
def lossy : List Action :=
  delivery ++ [answer 2 "a1"] ++ quiet 2 2 ++ [.crash 2, .start 3 (.receive 1 5)] ++ quiet 3 3 ++
    [.step 3 (⟨none, "", some 0⟩, default), .start 4 (.consume 1 sampleDefinition streamJob),
      answer 4 "b2"] ++ quiet 4 2

def completions (es : List Event) : List String :=
  es.filterMap fun
    | .did _ _ (.queue (.complete key _ _)) (.ok 1) _ => some key
    | _ => none

def acks (es : List Event) : List String :=
  es.filterMap fun
    | .did _ _ (.queue (.xack receipt)) _ _ => some receipt
    | _ => none

def sampleSchedulers : Nat → Scheduler := fun _ => (sampleWorld sampleDefinition).scheduler

theorem streamJob_slotted :
    Slotted isoLibrary sampleDefinition streamJob "nightly:2026-07-01T02:00:00+00:00" :=
  ⟨halfPast, sampleNow, by rfl, by rfl, by rfl⟩

set_option maxRecDepth 8000 in
theorem acked_completed_sample : ∃ s es, (pool streamQueue isoLibrary).machine.exec
      (Guard streamQueue isoLibrary) (.init ⟨.init, sampleSchedulers⟩)
      (delivery ++ [answer 2 "a1"] ++ quiet 2 22) = some (s, es) ∧ acks es = ["1-0"] ∧
    NothingLost streamQueue isoLibrary es := by
  obtain ⟨s, es, hexec, hack⟩ : ∃ s es, (pool streamQueue isoLibrary).machine.exec
      (Guard streamQueue isoLibrary) (.init ⟨.init, sampleSchedulers⟩)
      (delivery ++ [answer 2 "a1"] ++ quiet 2 22) = some (s, es) ∧ acks es = ["1-0"] :=
    Machine.exec_of_any (P := fun _ es => acks es = ["1-0"]) (by decide +kernel)
  exact ⟨s, es, hexec, hack, acked_completed (Machine.run_of_exec _ hexec)⟩

set_option maxRecDepth 8000 in
/-- The job of a worker that died is acknowledged while its lease is in force. -/
theorem job_lost : ¬ ∀ es s, (pool streamQueue isoLibrary).machine.Run
    (draws streamQueue isoLibrary).Fresh (.init ⟨.init, sampleSchedulers⟩) es s →
    NothingLost streamQueue isoLibrary es := by
  intro h
  obtain ⟨s, es, hexec, hdone, hlast⟩ : ∃ s es, (pool streamQueue isoLibrary).machine.exec
      (draws streamQueue isoLibrary).Fresh (.init ⟨.init, sampleSchedulers⟩) lossy = some (s, es) ∧
      completions es = [] ∧ es.getLast? = some (.did 4 (.consume 1 sampleDefinition streamJob)
        (.queue (.xack "1-0")) (.ok ()) (some (.ok (.exit 0)))) := ⟨_, _, rfl, rfl, rfl⟩
  obtain ⟨pre, rfl⟩ := List.getLast?_eq_some_iff.mp hlast
  obtain ⟨i, call, expected, retention, out, hin⟩ := h _ s (Machine.run_of_exec _ hexec) pre [] _ _ _ _ _
    _ _ _ rfl streamJob_slotted
  have : streamQueue.run_state_key "nightly:2026-07-01T02:00:00+00:00" ∈
      completions (pre ++ [.did 4 (.consume 1 sampleDefinition streamJob)
        (.queue (.xack "1-0")) (.ok ()) (some (.ok (.exit 0)))]) :=
    List.mem_filterMap.mpr ⟨_, List.mem_append_left _ hin, rfl⟩
  rw [hdone] at this
  cases this

end Sample

end EnterpriseCopilot.Worker.Stream
