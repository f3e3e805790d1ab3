import EnterpriseCopilot.Queue.Redis
import EnterpriseCopilot.Schedule.Due
import EnterpriseCopilot.Schedule.Refusal
import EnterpriseCopilot.Worker.Payload

/-! The schedule producer, and when it and the scheduler act ahead of time. -/

namespace EnterpriseCopilot.Worker

open EnterpriseCopilot.Lib EnterpriseCopilot.Python EnterpriseCopilot.Schedule
open EnterpriseCopilot.Queue (Config Redis)

/-- `True` if a job was enqueued. -/
def enqueue_due (q : Config) (L : Library) (d : ScheduleDefinition) (now : DateTime) :
    Queue.Code Bool := do
  match ← Program.ofExcept (d.scheduled_for L now) with
  | none => return false
  | some scheduled =>
    let utc ← Program.ofExcept (scheduled.astimezone .utc)
    let job ← q.enqueue_once (build_schedule_job_payload d now) (d.id ++ ":" ++ utc.isoformat)
    return job.isSome

/-- Run code of client `i` against the server. -/
def onRedis {α : Type} (i : Nat) (p : Queue.Code α) (ω : Nat → Queue.Choice) (s : Redis) :
    Program.Outcome Redis Queue.Cmd Queue.Reply PyError α :=
  Program.run (fun s c ch => s.apply i c ch) p ω s

/-- A job was put on the stream, after the marker of the slot. -/
structure Enqueued (q : Config) (key : String) (log : Exchange Queue.Cmd Queue.Reply) : Prop where
  marked : ⟨.setNx (q.enqueue_state_key key) "enqueued" (30 * 86400), .ok true⟩ ∈ log
  added : ∃ job_id payload enqueued_at receipt, ⟨.xadd job_id payload enqueued_at, .ok receipt⟩ ∈ log

variable {q : Config} {L : Library} {d : ScheduleDefinition} {now slot : DateTime}

theorem key_ne_empty (i t : String) : i ++ ":" ++ t ≠ "" := by
  intro h
  have := congrArg String.length h
  simp [String.length_append] at this

theorem enqueue_due_eq (hs : d.scheduled_for L now = .ok (some slot)) :
    enqueue_due q L d now =
      (q.enqueue_once (build_schedule_job_payload d now) (d.id ++ ":" ++ slot.isoformat)).bind
        fun job => .pure job.isSome := by
  unfold enqueue_due
  simp only [hs, Program.ofExcept_ok, Program.bind_eq, Program.pure_bind,
    DateTime.astimezone_utc (d.scheduled_for_utc hs), Program.pure_eq]

/-- A job on the stream belongs to the slot of the schedule. -/
theorem enqueued_of_added {ω : Nat → Queue.Choice} {i : Nat} {s : Redis}
    {job_id payload enqueued_at receipt : String}
    (h : ⟨.xadd job_id payload enqueued_at, .ok receipt⟩ ∈
      (onRedis i (enqueue_due q L d now) ω s).log) :
    ∃ slot, d.scheduled_for L now = .ok (some slot) ∧
      Enqueued q (d.id ++ ":" ++ slot.isoformat) (onRedis i (enqueue_due q L d now) ω s).log := by
  cases hs : d.scheduled_for L now with
  | error e => simp [onRedis, enqueue_due, hs] at h
  | ok r =>
    cases r with
    | none => simp [onRedis, enqueue_due, hs] at h
    | some slot =>
      refine ⟨slot, rfl, ?_, _, _, _, _, h⟩
      unfold onRedis at h ⊢
      rw [enqueue_due_eq hs] at h ⊢
      by_cases hlen : (d.id ++ ":" ++ slot.isoformat).length ≤ 256
      · rw [Config.enqueue_once_eq ⟨key_ne_empty _ _, hlen⟩ (by decide), Program.cmd_bind, Program.run_issue] at h ⊢
        generalize s.apply i _ _ = a at h ⊢
        obtain ⟨r, t⟩ := a
        cases r with
        | error e => simp at h
        | ok created =>
          cases created with
          | false => simp at h
          | true => exact List.mem_cons_self
      · obtain ⟨msg, hmsg⟩ := Config.enqueue_once_refused fun hargs => hlen hargs.1.length
        rw [hmsg] at h
        simp at h

theorem enqueue_eq {payload : Payload} {text : String} (hdumps : q.codec.dumps payload = .ok text)
    (hsize : text.utf8ByteSize ≤ 100000) : q.enqueue payload = (do
      Config.ensure_group
      let job_id ← Queue.Code.uuid4
      let enqueued_at ← Queue.Code.time
      let receipt ← (Queue.Code.xadd job_id text enqueued_at).orQueueError "Redis job enqueue failed"
      let now ← Queue.Code.time
      return ⟨job_id, payload, now, some receipt⟩) := by
  have hencode : q.encode payload = .ok text := by
    simp only [Config.encode, hdumps]
  unfold Config.enqueue
  rw [hencode, Program.ofExcept_ok, Program.bind_eq, Program.pure_bind, if_neg (not_lt.mpr hsize)]

/-- Nothing but the size of the job and of its key keeps the producer from enqueueing. -/
theorem enqueued_of_fits {text : String} (hs : d.scheduled_for L now = .ok (some slot))
    (hlen : (d.id ++ ":" ++ slot.isoformat).length ≤ 256)
    (hdumps : q.codec.dumps (build_schedule_job_payload d now) = .ok text)
    (hsize : text.utf8ByteSize ≤ 100000) :
    ∃ job_id payload enqueued_at receipt, ⟨.xadd job_id payload enqueued_at, .ok receipt⟩ ∈
      (onRedis 0 (enqueue_due q L d now) (fun _ => .silent) Redis.init).log := by
  have hlog : (onRedis 0 (enqueue_due q L d now) (fun _ => .silent) Redis.init).log =
      [⟨.setNx (q.enqueue_state_key (d.id ++ ":" ++ slot.isoformat)) "enqueued" (30 * 86400),
        .ok true⟩, ⟨.groupReady, false⟩, ⟨.xgroupCreate, .ok ()⟩, ⟨.setGroupReady, ()⟩,
        ⟨.uuid4, ""⟩, ⟨.time, ""⟩, ⟨.xadd "" text "", .ok ""⟩, ⟨.time, ""⟩] := by
    unfold onRedis
    rw [enqueue_due_eq hs, Config.enqueue_once_eq ⟨key_ne_empty _ _, hlen⟩ (by decide)]
    unfold Config.enqueue_or_release
    rw [enqueue_eq hdumps hsize]
    rfl
  exact ⟨"", text, "", "", by rw [hlog]; simp⟩

/-- The job and the key of its slot are within the limits of the queue. -/
structure Fits (q : Config) (d : ScheduleDefinition) (now : DateTime) : Prop where
  id : d.id.length ≤ 230
  payload : ∃ text, q.codec.dumps (build_schedule_job_payload d now) = .ok text ∧
    text.utf8ByteSize ≤ 100000

theorem length_of_added {ω : Nat → Queue.Choice} {i : Nat} {s : Redis}
    {job_id payload enqueued_at receipt : String} (hs : d.scheduled_for L now = .ok (some slot))
    (h : ⟨.xadd job_id payload enqueued_at, .ok receipt⟩ ∈
      (onRedis i (enqueue_due q L d now) ω s).log) :
    (d.id ++ ":" ++ slot.isoformat).length ≤ 256 := by
  by_contra hlen
  unfold onRedis at h
  obtain ⟨msg, hmsg⟩ := Config.enqueue_once_refused fun hargs => hlen hargs.1.length
  rw [enqueue_due_eq hs, hmsg] at h
  simp at h

theorem no_xadd_of_encode {payload : Payload} (h : ¬ ∃ text, q.codec.dumps payload = .ok text ∧
    text.utf8ByteSize ≤ 100000) : ∃ e, q.enqueue payload = .throw e := by
  unfold Config.enqueue
  cases hdumps : q.encode payload with
  | error e => exact ⟨e, rfl⟩
  | ok text =>
    have htext := Config.dumps_of_encode hdumps
    have hsize : text.utf8ByteSize > 100000 := not_le.mp fun hle => h ⟨text, htext, hle⟩
    simp only [Program.ofExcept_ok, Program.bind_eq, Program.pure_bind, if_pos hsize]
    exact ⟨_, rfl⟩

theorem payload_of_added {ω : Nat → Queue.Choice} {i : Nat} {s : Redis}
    {job_id payload enqueued_at receipt : String} (hs : d.scheduled_for L now = .ok (some slot))
    (h : ⟨.xadd job_id payload enqueued_at, .ok receipt⟩ ∈
      (onRedis i (enqueue_due q L d now) ω s).log) :
    ∃ text, q.codec.dumps (build_schedule_job_payload d now) = .ok text ∧
      text.utf8ByteSize ≤ 100000 := by
  by_contra hno
  obtain ⟨e, he⟩ := no_xadd_of_encode hno
  have hall : Program.All (fun c => ∀ a b c', c ≠ Queue.Cmd.xadd a b c') (enqueue_due q L d now) := by
    rw [enqueue_due_eq hs, Config.enqueue_once_eq ⟨key_ne_empty _ _, length_of_added hs h⟩ (by decide)]
    refine Program.All.bind ⟨by simp, fun r => ?_⟩ fun _ => trivial
    unfold Config.enqueue_or_release
    rw [he]
    cases r with
    | error e => trivial
    | ok created =>
      cases created with
      | false => trivial
      | true =>
        refine Program.All.tryCatch ⟨by simp, fun r => ?_⟩ fun e => ?_
        · cases r <;> trivial
        · cases e <;> trivial
  exact hall.log _ h _ _ _ rfl

theorem Fits.of_added {ω : Nat → Queue.Choice} {i : Nat} {s : Redis}
    {job_id payload enqueued_at receipt : String} (hs : d.scheduled_for L now = .ok (some slot))
    (hwhole : slot.microsecond = 0)
    (h : ⟨.xadd job_id payload enqueued_at, .ok receipt⟩ ∈
      (onRedis i (enqueue_due q L d now) ω s).log) : Fits q d now := by
  refine ⟨?_, payload_of_added hs h⟩
  have hlen := length_of_added hs h
  have hiso := DateTime.isoformat_length (d.scheduled_for_utc hs) hwhole
  simp only [String.length_append, hiso] at hlen
  have hcolon : ":".length = 1 := by decide
  omega

/-- A scheduler takes the definition and does not refuse it as expired. -/
structure Runnable (L : Library) (d : ScheduleDefinition) (now : DateTime) : Prop where
  accepted : Accepted L d
  unexpired : d.hasExpired L now = .ok false

/-- Nothing is enqueued, and no executor called, for a slot in the future. -/
structure OnlyDue (q : Config) (L : Library) (d : ScheduleDefinition) (now : DateTime) :
    Prop where
  queued : ∀ (i : Nat) (ω : Nat → Queue.Choice) (s : Redis) job_id payload enqueued_at receipt,
    ⟨.xadd job_id payload enqueued_at, .ok receipt⟩ ∈
      (onRedis i (enqueue_due q L d now) ω s).log →
    ∃ slot, slot.instant ≤ now.instant ∧ d.scheduled_for L now = .ok (some slot) ∧
      Enqueued q (d.id ++ ":" ++ slot.isoformat) (onRedis i (enqueue_due q L d now) ω s).log
  executed : ∀ notifier es s, (machine L).Run Machine.Free (.init notifier) es s →
    s.definitions d.id = some d → ∀ approval_granted finding ω key,
    key ∈ enters (Trigger.run L ⟨d.id, now, approval_granted, finding⟩ ω s).log →
    ∃ slot : DateTime, slot.instant ≤ now.instant ∧ slot.tzinfo = .utc ∧
      key = d.id ++ ":" ++ slot.isoformat

/-- What a call executes is the slot of the schedule. -/
theorem slot_of_enters {c : Trigger} {s t : Scheduler} {log : Log}
    {out : Except PyError ScheduleRun} {key : String} (h : TriggerCase L c s log out t)
    (hd : s.definitions c.schedule_id = some d) (hk : key ∈ enters log) :
    ∃ slot, d.scheduled_for L c.now = .ok (some slot) ∧ d.hasExpired L c.now = .ok false ∧
      key = c.schedule_id ++ ":" ++ slot.isoformat := by
  cases h with
  | unknown _ hlog | raised _ _ hlog | unrecorded _ _ _ hlog | refused _ _ _ hlog =>
    rw [hlog.1] at hk
    cases hk
  | slot hd' hdec hent _ hslot =>
    rw [hd] at hd'
    cases hd'
    rw [hent] at hk
    obtain ⟨hlive, hdue⟩ := decision_slot hdec
    refine ⟨_, hdue, hlive, ?_⟩
    cases hslot with
    | duplicate _ hlog | cancelled _ _ hlog | saturated _ _ _ hlog =>
      rw [hlog.1] at hk
      cases hk
    | executed _ _ _ _ hloop => exact hloop.mem_enters hk

/-- A new scheduler with the definition executes the slot. -/
theorem executes_of_runnable (h : Runnable L d now) (hs : d.scheduled_for L now = .ok (some slot)) :
    ∃ t, (machine L).Run Machine.Free (.init false) [.managed (.register d) none] t ∧
      t.definitions d.id = some d ∧ d.id ++ ":" ++ slot.isoformat ∈
        enters (Trigger.run L ⟨d.id, now, true, false⟩ (fun _ => default) t).log := by
  obtain ⟨t, ht⟩ := h.accepted
  have hrun : (machine L).Run Machine.Free (.init false) [.managed (.register d) none] t := by
    refine .snoc (a := .register d) .nil trivial ?_
    simp only [machine, step, ht, settle]
  have inv := inv_of_run hrun
  have hready : Ready t := ⟨inv.idle, fun hd => (inv.valid hd).2⟩
  obtain ⟨_, _, rfl⟩ := register_ok ht
  have hd : Function.update (Scheduler.init false).definitions d.id (some d) d.id = some d :=
    Function.update_self ..
  exact ⟨_, hrun, hd, run_executes hready hd rfl h.unexpired hs rfl Bool.false_ne_true⟩

/-- Exactly when the producer and the scheduler wait for the slot. -/
theorem only_due_iff (hc : Covered L d now) :
    OnlyDue q L d now ↔ ¬ (Early L d now ∧ (Fits q d now ∨ Runnable L d now)) := by
  constructor
  · rintro h ⟨hearly, hact⟩
    obtain ⟨slot, hs, hlt⟩ := (early_iff hc).mp hearly
    obtain hfits | hrun := hact
    · obtain ⟨text, hdumps, hsize⟩ := hfits.payload
      have hlen : (d.id ++ ":" ++ slot.isoformat).length ≤ 256 := by
        have hiso := DateTime.isoformat_length (d.scheduled_for_utc hs) (hc.whole hs hlt)
        have hcolon : ":".length = 1 := by decide
        have hid := hfits.id
        simp only [String.length_append, hiso]
        omega
      obtain ⟨_, _, _, _, hadd⟩ := enqueued_of_fits hs hlen hdumps hsize
      obtain ⟨slot', hle, hs', _⟩ := h.queued _ _ _ _ _ _ _ hadd
      rw [hs] at hs'
      cases hs'
      exact absurd hle (not_le.mpr hlt)
    · obtain ⟨t, ht, hd, hin⟩ := executes_of_runnable hrun hs
      obtain ⟨slot', hle, hutc, hkey⟩ := h.executed _ _ _ ht hd _ _ (fun _ => default) _ hin
      obtain ⟨_, hwall⟩ := key_injective (d.scheduled_for_utc hs) hutc hkey
      rw [DateTime.instant_utc (d.scheduled_for_utc hs), hwall, ← DateTime.instant_utc hutc] at hlt
      exact absurd hle (not_le.mpr hlt)
  · intro h
    refine ⟨?_, ?_⟩
    · intro i ω s job_id payload enqueued_at receipt hadd
      obtain ⟨slot, hs, henq⟩ := enqueued_of_added hadd
      refine ⟨slot, ?_, hs, henq⟩
      by_contra hnot
      have hlt := not_le.mp hnot
      exact h ⟨(early_iff hc).mpr ⟨slot, hs, hlt⟩, .inl (.of_added hs (hc.whole hs hlt) hadd)⟩
    · intro notifier es s hrun hd a f ω key hk
      have inv := inv_of_run hrun
      have hcase := inv.trigger (L := L) (c := ⟨d.id, now, a, f⟩)
        (Program.exec_of_run Scheduler.apply _ ω s)
      obtain ⟨slot, hs, hexp, rfl⟩ := slot_of_enters hcase hd hk
      refine ⟨slot, ?_, d.scheduled_for_utc hs, rfl⟩
      by_contra hnot
      exact h ⟨(early_iff hc).mpr ⟨slot, hs, not_le.mp hnot⟩, .inr ⟨accepted_of_run hrun hd, hexp⟩⟩

section Sample

theorem utc_isFixed : (Zone.fixed 0).IsFixed (1000000 * 0) := ⟨fun _ _ => rfl, fun _ => rfl⟩

/-- A schedule for three o'clock, polled at two. -/
def cronDefinition : ScheduleDefinition :=
  { sampleDefinition with schedule_type := "cron", expression := some "0 3 * * *" }

/-- A queue whose encoder is exact on the job of the sample. -/
def cronQueue : Config where
  codec := {
    sha256 := tabled [("nightly:2026-07-01T03:00:00+00:00",
      "b27e4f27968d795dcb3cc1fe02bac46b5a2895a03abde04bf17c94cc7765e46b")]
    dumps _ := .ok ("\x7b\"agent\":\"customer-service-agent\",\"allow_external_processing\":false," ++
      "\"kind\":\"scheduled_agent\",\"order_id\":null,\"permissions_mode\":\"read_only\"," ++
      "\"query\":null,\"schedule_id\":\"nightly\",\"schedule_version\":\"1\"," ++
      "\"scheduled_at\":\"2026-07-01T02:00:00+00:00\"\x7d")
    loads _ := .error (.valueError "") }
  stream := "agent:jobs"
  claim_after_seconds := 60

theorem only_due_hourly : Covered utcLibrary sampleDefinition sampleNow ∧
    OnlyDue cronQueue utcLibrary sampleDefinition sampleNow := by
  have hc : Covered utcLibrary sampleDefinition sampleNow :=
    ⟨.inr (.inl ⟨rfl, 3600, rfl, by decide⟩), ⟨Zone.fixed 0, 0, rfl, utc_isFixed⟩,
      (fun _ _ h => by cases h), by decide⟩
  refine ⟨hc, (only_due_iff hc).mpr ?_⟩
  rintro ⟨⟨tz, local_now, _, _, ⟨_, n, _, he⟩ | ⟨htype, _⟩⟩, _⟩
  · exact he.rounded (by decide +kernel)
  · exact absurd htype (by decide)

def threeCron : CronExpression :=
  ⟨[0], [3], List.range' 1 31, List.range' 1 12, List.range 7⟩

/-- At two o'clock the job for three o'clock is put on the stream. -/
theorem cron_enqueued_early : ¬ ∀ q L d now, Covered L d now → OnlyDue q L d now := by
  intro h
  have hparse : CronExpression.parse "0 3 * * *" = .ok threeCron := by decide +kernel
  have hc : Covered utcLibrary cronDefinition sampleNow :=
    ⟨.inr (.inr ⟨rfl, _, _, rfl, hparse⟩), ⟨Zone.fixed 0, 0, rfl, utc_isFixed⟩,
      (fun _ _ h => by cases h), by decide⟩
  have hwall : (cronDefinition.scheduled_for utcLibrary sampleNow).map (·.map DateTime.wall) =
      .ok (some (739797 * 86400000000 + 10800000000)) := by decide +kernel
  obtain ⟨slot, hs, hslot⟩ : ∃ slot, cronDefinition.scheduled_for utcLibrary sampleNow =
      .ok (some slot) ∧ slot.wall = 739797 * 86400000000 + 10800000000 := by
    cases hr : cronDefinition.scheduled_for utcLibrary sampleNow with
    | error e => rw [hr] at hwall; cases hwall
    | ok r =>
      rw [hr] at hwall
      cases r with
      | none => cases hwall
      | some slot => exact ⟨slot, rfl, by simpa [Except.map] using hwall⟩
  have hutc := cronDefinition.scheduled_for_utc hs
  have hlt : sampleNow.instant < slot.instant := by
    rw [DateTime.instant_utc hutc, hslot]
    decide
  have hlen : (cronDefinition.id ++ ":" ++ slot.isoformat).length ≤ 256 := by
    rw [String.length_append, DateTime.isoformat_length hutc (hc.whole hs hlt)]
    decide
  obtain ⟨_, _, _, _, hadd⟩ := enqueued_of_fits (q := cronQueue) hs hlen rfl (by decide +kernel)
  obtain ⟨slot', hle, hs', _⟩ := (h cronQueue _ _ _ hc).queued _ _ _ _ _ _ _ hadd
  rw [hs] at hs'
  cases hs'
  exact absurd hle (not_le.mpr hlt)

end Sample

end EnterpriseCopilot.Worker
