import EnterpriseCopilot.Queue.Redis
import EnterpriseCopilot.Schedule.Refusal
import EnterpriseCopilot.Worker.Payload

/-! A worker that claims, executes, completes and acknowledges one job. -/

namespace EnterpriseCopilot.Worker

open EnterpriseCopilot.Lib EnterpriseCopilot.Python EnterpriseCopilot.Schedule
open EnterpriseCopilot.Queue (Config Redis Job)

/-- The worker talks to Redis and to its own scheduler. -/
inductive Cmd
  | queue (c : Queue.Cmd)
  | scheduler (c : Schedule.Cmd)

abbrev Reply : Cmd → Type
  | .queue c => Queue.Reply c
  | .scheduler c => Schedule.Reply c

abbrev Code := Program Cmd Reply PyError

def Code.queue {α : Type} (p : Queue.Code α) : Code α := p.lift .queue fun _ r => r

def Code.scheduler {α : Type} (p : Schedule.Code α) : Code α := p.lift .scheduler fun _ r => r

def exit_code (run : ScheduleRun) : Int :=
  if run.status ∈ [.succeeded, .skipped, .paused, .expired] then 0 else 1

def lease_seconds (d : ScheduleDefinition) : Int := max 60 (min (d.max_runtime_seconds + 30) 86400)

/-- What the worker does with the answer of `claim_run`. -/
def after_claim (q : Config) (L : Library) (d : ScheduleDefinition) (job : Job)
    (queued_at : DateTime) (claim : Queue.RunClaim) : Code Int := do
  if claim.status ≠ .claimed then
    Code.queue (Config.ack job)
    return 0
  else
    match claim.token with
    | none => throw (.runtimeError "Redis returned a claimed run without a token")
    | some token =>
      let run ← Code.scheduler (Trigger.program L ⟨d.id, queued_at, false, false⟩)
      Code.queue (q.complete_run run.idempotency_key token)
      Code.queue (Config.ack job)
      return exit_code run

def _consume_job (q : Config) (L : Library) (d : ScheduleDefinition) (job : Job) : Code Int := do
  let queued_at ← Program.ofExcept (validate_schedule_job_payload L job.payload d)
  match ← Program.ofExcept (d.scheduled_for L queued_at) with
  | none =>
    let run ← Code.scheduler (Trigger.program L ⟨d.id, queued_at, false, false⟩)
    Code.queue (Config.ack job)
    return exit_code run
  | some scheduled =>
    let utc ← Program.ofExcept (scheduled.astimezone .utc)
    let claim ← Code.queue (q.claim_run (d.id ++ ":" ++ utc.isoformat) (lease_seconds d))
    after_claim q L d job queued_at claim

structure World where
  redis : Redis
  scheduler : Scheduler

/-- Execute one command of worker `i`. -/
def World.apply (w : World) (i : Nat) :
    (c : Cmd) → Queue.Choice × Schedule.Choice → Reply c × World
  | .queue c, ch => ((w.redis.apply i c ch.1).1, { w with redis := (w.redis.apply i c ch.1).2 })
  | .scheduler c, ch =>
    ((w.scheduler.apply c ch.2).1, { w with scheduler := (w.scheduler.apply c ch.2).2 })

/-- What happens at one command of the worker; `others` is what other clients and
the passing of time have done to the server since the command before. -/
structure Choice where
  queue : Queue.Choice := .silent
  scheduler : Schedule.Choice := default
  others : Redis → Redis := id

def World.turn (i : Nat) (w : World) (c : Cmd) (ch : Choice) : Reply c × World :=
  World.apply { w with redis := ch.others w.redis } i c (ch.queue, ch.scheduler)

/-- Run the code of worker `i` among other clients. -/
def among {α : Type} (i : Nat) (p : Code α) (ω : Nat → Choice) (w : World) :
    Program.Outcome World Cmd Reply PyError α :=
  Program.run (World.turn i) p ω w

section Completion

variable (q : Config) (L : Library) (d : ScheduleDefinition) (job : Job) (queued_at : DateTime)
  (key token : String)

/-- Redis answers, and the lease on the key is neither expired nor taken over. -/
structure Undisturbed (ch : Choice) : Prop where
  answers : ch.queue.raises = none
  lease : ∀ s : Redis, s.strings (q.run_state_key key) = some ("running:" ++ token) →
    (ch.others s).strings (q.run_state_key key) = some ("running:" ++ token)

/-- The worker was given the claim on the key. -/
def Claims (log : Exchange Cmd Reply) : Prop :=
  ⟨.queue (.setNx (q.run_state_key key) ("running:" ++ token) (lease_seconds d)), .ok true⟩ ∈ log

/-- `ack` does nothing for jobs without a receipt. -/
def Acked (log : Exchange Cmd Reply) : Prop :=
  ∀ receipt, job.receipt = some receipt → receipt ≠ "" → ⟨.queue (.xack receipt), .ok ()⟩ ∈ log

/-- `trigger` returned a run with the key, the claim on the key was completed, the
job acknowledged, and the worker returned. -/
def Completes (w : World) (out : Program.Outcome World Cmd Reply PyError Int) : Prop :=
  ∃ pre log run post, out.log = pre ++ log.map (fun x => ⟨.scheduler x.1, x.2⟩) ++ post ∧
    Exec (Trigger.program L ⟨d.id, queued_at, false, false⟩) w.scheduler log (.ok run)
      out.state.scheduler ∧ run.idempotency_key = key ∧
    ⟨.queue (.complete (q.run_state_key key) ("running:" ++ token) 86400), .ok 1⟩ ∈ post ∧
    Acked job post ∧ out.result = .ok (exit_code run)

/-- When the worker's `trigger` answers with the run of the slot: it does not refuse
the call, or the job was queued at the very instant of the slot and `trigger` does not
fail to evaluate the expiry of the schedule. -/
def Attends (paused : Bool) (slot : DateTime) : Prop :=
  (paused = false ∧ d.permissions_mode = "read_only" ∧ d.hasExpired L queued_at = .ok false) ∨
  (queued_at.instant = slot.instant ∧ (paused = true ∨ d.permissions_mode ≠ "read_only" ∨
    ∃ expired, d.hasExpired L queued_at = .ok expired))

end Completion

variable {q : Config} {L : Library} {d : ScheduleDefinition} {job : Job}
  {queued_at slot : DateTime} {key token : String}

theorem consume_eq (hjob : validate_schedule_job_payload L job.payload d = .ok queued_at)
    (hslot : d.scheduled_for L queued_at = .ok (some slot)) : _consume_job q L d job =
      (Code.queue (q.claim_run (d.id ++ ":" ++ slot.isoformat) (lease_seconds d))).bind
        (after_claim q L d job queued_at) := by
  unfold _consume_job
  simp only [hjob, hslot, Program.ofExcept_ok, Program.bind_eq, Program.pure_bind,
    DateTime.astimezone_utc (d.scheduled_for_utc hslot)]

theorem lease_seconds_pos (d : ScheduleDefinition) : 0 < lease_seconds d := by
  unfold lease_seconds
  omega

theorem lease_seconds_le (d : ScheduleDefinition) : lease_seconds d ≤ 86400 := by
  unfold lease_seconds
  omega

section Steps

variable {i : Nat} {w u : World} {log : Exchange Cmd Reply}

/-- The worker among clients that leave its lease alone. -/
abbrev Leasing {α : Type} (q : Config) (key token : String) (i : Nat) (p : Code α) (w : World)
    (log : Exchange Cmd Reply) (o : Except PyError α) (u : World) : Prop :=
  Program.Exec (fun w c (ch : Subtype (Undisturbed q key token)) => World.turn i w c ch.1) p w log o u

/-- The lease is in force. -/
def Holds (q : Config) (key token : String) (w : World) : Prop :=
  w.redis.strings (q.run_state_key key) = some ("running:" ++ token)

theorem exec_queue {α : Type} {o : Except PyError α} {c : Queue.Cmd}
    {k : Queue.Reply c → Queue.Code α} :
    Leasing q key token i (Code.queue (.cmd c k)) w log o u ↔
      ∃ ch, Undisturbed q key token ch ∧ ∃ rest,
        log = ⟨.queue c, ((ch.others w.redis).apply i c ch.queue).1⟩ :: rest ∧
        Leasing q key token i (Code.queue (k ((ch.others w.redis).apply i c ch.queue).1))
          { w with redis := ((ch.others w.redis).apply i c ch.queue).2 } rest o u := by
  constructor
  · intro h
    obtain ⟨ch, rest, hlog, hrest⟩ := Program.exec_issue.mp h
    exact ⟨ch.1, ch.2, rest, hlog, hrest⟩
  · rintro ⟨ch, hch, rest, hlog, hrest⟩
    exact Program.exec_issue.mpr ⟨⟨ch, hch⟩, rest, hlog, hrest⟩

/-- A worker that was given the claim holds the lease when `claim_run` returns. -/
theorem exec_claim {o : Except PyError Queue.RunClaim}
    (h : Leasing q key token i (Code.queue (q.claim_run key (lease_seconds d))) w log o u)
    (hin : Claims q d key token log) : o = .ok ⟨.claimed, some token⟩ ∧ Holds q key token u ∧
      u.scheduler = w.scheduler ∧ Config.ValidKey key := by
  unfold Claims at hin
  by_cases hkey : Config.ValidKey key
  · rw [Config.claim_run_eq hkey (lease_seconds_pos d) (lease_seconds_le d)] at h
    obtain ⟨ch₁, _, _, rfl, h₁⟩ := exec_queue.mp h
    obtain ⟨ch₂, _, _, rfl, h₂⟩ := exec_queue.mp h₁
    generalize ((ch₂.others _).apply i _ ch₂.queue).1 = r₂ at h₂ hin
    rcases r₂ with e | _ | v
    · obtain ⟨rfl, _⟩ := Program.exec_throw.mp h₂
      simp at hin
    · obtain ⟨ch₃, _, rest, rfl, h₃⟩ := exec_queue.mp h₂
      obtain ⟨hr, _, hset⟩ | ⟨hr, _⟩ := Redis.setNx_cases (ch₃.others _) i (q.run_state_key key)
        ("running:" ++ ((ch₁.others w.redis).apply i .uuid4 ch₁.queue).1) (lease_seconds d) ch₃.queue
      · rw [hr] at h₃ hin
        obtain ⟨rfl, rfl, rfl⟩ := Program.exec_pure.mp h₃
        have htoken : token = ((ch₁.others w.redis).apply i .uuid4 ch₁.queue).1 := by
          simpa using hin
        refine ⟨by rw [htoken], ?_, rfl, hkey⟩
        unfold Holds
        simp only [hset, Function.update_self, htoken]
      · generalize ((ch₃.others _).apply i _ ch₃.queue).1 = r₃ at h₃ hin hr
        rcases r₃ with e | _ | _
        · obtain ⟨rfl, _⟩ := Program.exec_throw.mp h₃
          simp at hin
        · obtain ⟨ch₄, _, _, rfl, h₄⟩ := exec_queue.mp h₃
          generalize ((ch₄.others _).apply i _ ch₄.queue).1 = r₄ at h₄ hin
          cases r₄ with
          | error e =>
            obtain ⟨rfl, _⟩ := Program.exec_throw.mp h₄
            simp at hin
          | ok v =>
            obtain ⟨rfl, _⟩ := Program.exec_pure.mp h₄
            simp at hin
        · exact absurd rfl hr
    · obtain ⟨rfl, _⟩ := Program.exec_pure.mp h₂
      simp at hin
  · rw [Config.claim_run_invalid hkey] at h
    obtain ⟨rfl, _⟩ := Program.exec_throw.mp h
    cases hin

/-- `trigger` runs on the worker's own scheduler, while the lease stays in force. -/
theorem exec_scheduler {α : Type} {p : Schedule.Code α} {o : Except PyError α}
    (h : Leasing q key token i (Code.scheduler p) w log o u) (hw : Holds q key token w) :
    Holds q key token u ∧ ∃ log', Exec p w.scheduler log' o u.scheduler ∧
      log = log'.map fun x => ⟨.scheduler x.1, x.2⟩ := by
  refine Program.exec_lift (f := Cmd.scheduler) (g := fun _ r => r) (h := fun _ r => r)
    (π := World.scheduler) (I := Holds q key token) (fun _ _ => rfl) ?_ h hw
  intro s c ch hs
  exact ⟨ch.2.lease _ hs, ch.1.scheduler, rfl, rfl⟩

/-- The holder of the lease completes it. -/
theorem exec_complete {o : Except PyError Unit} (hkey : Config.ValidKey key)
    (htoken : token.length = 32) (hw : Holds q key token w)
    (h : Leasing q key token i (Code.queue (q.complete_run key token)) w log o u) :
    o = .ok () ∧ log = [⟨.queue (.complete (q.run_state_key key) ("running:" ++ token) 86400),
      .ok 1⟩] ∧ u.scheduler = w.scheduler := by
  have hne : token ≠ "" := by
    rintro rfl
    cases htoken
  rw [Config.complete_run_eq hkey hne (by omega)] at h
  obtain ⟨ch, hch, rest, rfl, hrest⟩ := exec_queue.mp h
  obtain ⟨hr, _, _⟩ | ⟨_, _, hno⟩ := Redis.complete_cases (ch.others w.redis) i
    (q.run_state_key key) ("running:" ++ token) 86400 ch.queue
  · rw [hr] at hrest ⊢
    obtain ⟨rfl, rfl, rfl⟩ := Program.exec_pure.mp hrest
    exact ⟨rfl, rfl, rfl⟩
  · exact absurd (hch.lease _ hw) (hno hch.answers)

theorem exec_ack {o : Except PyError Unit}
    (h : Leasing q key token i (Code.queue (Config.ack job)) w log o u) :
    o = .ok () ∧ Acked job log ∧ u.scheduler = w.scheduler := by
  obtain ⟨receipt, hr, hne, hack⟩ | ⟨hr, hack⟩ := Config.ack_eq job
  · rw [hack] at h
    obtain ⟨ch, hch, rest, rfl, hrest⟩ := exec_queue.mp h
    have hok : ((ch.others w.redis).apply i (.xack receipt) ch.queue).1 = .ok () := by
      simp only [Redis.apply, hch.answers]
    rw [hok] at hrest ⊢
    obtain ⟨rfl, rfl, rfl⟩ := Program.exec_pure.mp hrest
    refine ⟨rfl, fun receipt' hr' _ => ?_, rfl⟩
    rw [hr] at hr'
    cases hr'
    exact List.mem_cons_self
  · rw [hack] at h
    obtain ⟨rfl, rfl, rfl⟩ := Program.exec_pure.mp h
    exact ⟨rfl, fun receipt h' hne => absurd (hr receipt h') hne, rfl⟩

end Steps

theorem attends_iff {paused : Bool} (hslot : d.scheduled_for L queued_at = .ok (some slot)) :
    Attends L d queued_at paused slot ↔
      ∃ dec, Trigger.decision L ⟨d.id, queued_at, false, false⟩ d paused = .ok dec ∧
        ∀ status message, dec = .refuse status message → queued_at.instant = slot.instant := by
  unfold Attends Trigger.decision
  cases paused with
  | true => simp
  | false =>
    by_cases hmode : d.permissions_mode = "read_only"
    · cases he : d.hasExpired L queued_at with
      | error e => simp [hmode]
      | ok expired => cases expired <;> simp [hmode, hslot]
    · simp [hmode]

theorem instant_eq_iff {u : DateTime} (hu : queued_at.astimezone .utc = .ok u)
    (hslot : d.scheduled_for L queued_at = .ok (some slot)) :
    queued_at.instant = slot.instant ↔ u.wall = slot.wall := by
  rw [← DateTime.instant_of_astimezone hu, DateTime.instant_utc (DateTime.tzinfo_of_astimezone hu),
    DateTime.instant_utc (d.scheduled_for_utc hslot), Int.natCast_inj]

section Trigger

variable {s t : Scheduler} {log : Log} {o : Except PyError ScheduleRun} (hs : Ready s)
  (hdef : s.definitions d.id = some d) (hslot : d.scheduled_for L queued_at = .ok (some slot))
  (h : Exec (Trigger.program L ⟨d.id, queued_at, false, false⟩) s log o t)

include hs hdef hslot h

theorem attends_of_returned {run : ScheduleRun} (ho : o = .ok run)
    (hkey : run.idempotency_key = d.id ++ ":" ++ slot.isoformat) :
    Attends L d queued_at (s.paused d.id) slot := by
  rw [attends_iff hslot]
  cases exec_trigger (fun _ hd => (hs.valid hd).1) (by simp [hs.idle]) h with
  | unknown _ _ he | raised _ _ _ he | unrecorded _ _ _ _ he =>
    rw [he] at ho
    cases ho
  | refused hd hdec hu _ hrun ho' =>
    rw [hdef] at hd
    cases hd
    rw [ho', hrun] at ho
    cases ho
    obtain ⟨_, hwall⟩ := key_injective (DateTime.tzinfo_of_astimezone hu)
      (d.scheduled_for_utc hslot) hkey
    exact ⟨_, hdec, fun _ _ _ => (instant_eq_iff hu hslot).mpr hwall⟩
  | slot hd hdec _ _ _ =>
    rw [hdef] at hd
    cases hd
    exact ⟨_, hdec, fun _ _ hdec' => by cases hdec'⟩

theorem returned_of_attends (ha : Attends L d queued_at (s.paused d.id) slot) :
    ∃ run, o = .ok run ∧ run.idempotency_key = d.id ++ ":" ++ slot.isoformat := by
  obtain ⟨dec, hdec, hsame⟩ := (attends_iff hslot).mp ha
  cases exec_trigger (fun _ hd => (hs.valid hd).1) (by simp [hs.idle]) h with
  | unknown hd =>
    rw [hdef] at hd
    cases hd
  | raised hd he =>
    rw [hdef] at hd
    cases hd
    rw [hdec] at he
    cases he
  | unrecorded hd hdec' he =>
    rw [hdef] at hd
    cases hd
    rw [hdec] at hdec'
    cases hdec'
    have hin : (slot.wall : Int) < wallEnd := by exact_mod_cast slot.inRange
    have hrange : 0 ≤ queued_at.instant ∧ queued_at.instant < wallEnd := by
      rw [hsame _ _ rfl, DateTime.instant_utc (d.scheduled_for_utc hslot)]
      exact ⟨Int.natCast_nonneg _, hin⟩
    obtain ⟨u, hu⟩ := DateTime.exists_astimezone_utc.mpr hrange
    rw [hu] at he
    cases he
  | refused hd hdec' hu _ hrun ho =>
    rw [hdef] at hd
    cases hd
    rw [hdec] at hdec'
    cases hdec'
    refine ⟨_, ho, ?_⟩
    rw [hrun]
    change d.id ++ ":" ++ DateTime.isoformat _ = _
    rw [DateTime.isoformat_eq (DateTime.tzinfo_of_astimezone hu) (d.scheduled_for_utc hslot)
      ((instant_eq_iff hu hslot).mp (hsame _ _ rfl))]
  | @slot _ _ z _ hd hdec' _ _ hcase =>
    rw [hdef] at hd
    cases hd
    rw [hdec] at hdec'
    cases hdec'
    obtain rfl : slot = z := by simpa [hslot] using (decision_slot hdec).2
    cases hcase with
    | duplicate hh _ ho _ => exact ⟨_, ho, s.history.keyed hh⟩
    | cancelled _ _ _ hrun ho _ => exact ⟨_, ho, by rw [hrun]; rfl⟩
    | saturated _ _ _ _ hrun ho _ => exact ⟨_, ho, by rw [hrun]; rfl⟩
    | executed _ _ _ ho hloop => exact ⟨_, ho, hloop.filed.own⟩

end Trigger

/-- Not a command that creates a key. -/
def Creates : Cmd → Prop
  | .queue (.setNx _ _ _) => True
  | _ => False

theorem all_ack (job : Job) : Program.All (fun c => ¬ Creates c) (Code.queue (Config.ack job)) := by
  refine .lift ?_
  obtain ⟨_, _, _, h⟩ | ⟨_, h⟩ := Config.ack_eq job
  · rw [h]
    exact ⟨id, fun r => by cases r <;> trivial⟩
  · rw [h]
    trivial

theorem all_complete_run (q : Config) (key token : String) :
    Program.All (fun c => ¬ Creates c) (Code.queue (q.complete_run key token)) := by
  refine .lift ?_
  by_cases h : Config.ValidKey key ∧ token ≠ "" ∧ token.length ≤ 128
  · rw [Config.complete_run_eq h.1 h.2.1 h.2.2]
    refine ⟨id, fun r => ?_⟩
    cases r with
    | error e => trivial
    | ok n =>
      by_cases hn : n = 1
      · subst hn
        trivial
      · simp [hn, Program.All]
  · obtain ⟨msg, hmsg⟩ := Config.complete_run_invalid (q := q) h
    rw [hmsg]
    trivial

theorem all_after_claim (claim : Queue.RunClaim) :
    Program.All (fun c => ¬ Creates c) (after_claim q L d job queued_at claim) := by
  unfold after_claim
  split
  · exact (all_ack job).bind fun _ => trivial
  split
  · trivial
  · exact .bind (.lift (Program.all_of_forall (fun _ => id) _)) fun run =>
      (all_complete_run _ _ _).bind fun _ => (all_ack job).bind fun _ => trivial

/-- Once it is given the claim, the worker completes it if `trigger` answers with the
run of the slot. -/
theorem exec_consume {i : Nat} {w u : World} {log : Exchange Cmd Reply} {o : Except PyError Int}
    (hw : Ready w.scheduler) (hdef : w.scheduler.definitions d.id = some d)
    (hjob : validate_schedule_job_payload L job.payload d = .ok queued_at)
    (hslot : d.scheduled_for L queued_at = .ok (some slot))
    (hkey : key = d.id ++ ":" ++ slot.isoformat) (htoken : token.length = 32)
    (h : Leasing q key token i (_consume_job q L d job) w log o u)
    (hin : Claims q d key token log) (ha : Attends L d queued_at (w.scheduler.paused d.id) slot) :
    Completes q L d job queued_at key token w ⟨o, u, log⟩ := by
  rw [consume_eq hjob hslot, ← hkey] at h
  obtain ⟨e, hclaim, _⟩ | ⟨claim, v, log₁, log₂, hclaim, hrest, rfl⟩ := Program.exec_bind.mp h
  · cases (exec_claim hclaim hin).1
  -- only `claim_run` issues `SET NX`
  have hin₁ : Claims q d key token log₁ := by
    refine (List.mem_append.mp hin).resolve_right fun hin₂ => ?_
    exact (all_after_claim claim).exec hrest _ hin₂ trivial
  obtain ⟨hok, hheld, hsched, hvalid⟩ := exec_claim hclaim hin₁
  cases hok
  rw [after_claim, if_neg (not_not.mpr rfl)] at hrest
  obtain ⟨e, htrig, _⟩ | ⟨run, v₁, log₃, log₄, htrig, hrest₁, rfl⟩ := Program.exec_bind.mp hrest
  · obtain ⟨_, log', hx, _⟩ := exec_scheduler htrig hheld
    rw [hsched] at hx
    obtain ⟨_, he, _⟩ := returned_of_attends hw hdef hslot hx ha
    cases he
  obtain ⟨hheld₁, log', hx, rfl⟩ := exec_scheduler htrig hheld
  rw [hsched] at hx
  obtain ⟨_, hok, hrun⟩ := returned_of_attends hw hdef hslot hx ha
  cases hok
  rw [← hkey] at hrun
  rw [hrun] at hrest₁
  obtain ⟨e, hcomp, _⟩ | ⟨_, v₂, log₅, log₆, hcomp, hrest₂, rfl⟩ := Program.exec_bind.mp hrest₁
  · cases (exec_complete hvalid htoken hheld₁ hcomp).1
  obtain ⟨_, rfl, hs₂⟩ := exec_complete hvalid htoken hheld₁ hcomp
  obtain ⟨e, hack, _⟩ | ⟨_, v₃, log₇, log₈, hack, hrest₃, rfl⟩ := Program.exec_bind.mp hrest₂
  · cases (exec_ack hack).1
  obtain ⟨_, hacked, hs₃⟩ := exec_ack hack
  obtain ⟨rfl, rfl, rfl⟩ := Program.exec_pure.mp hrest₃
  refine ⟨log₁, log', run, _ :: log₇, by simp only [List.append_assoc, List.append_nil,
    List.singleton_append], ?_, hrun, List.mem_cons_self, ?_, rfl⟩
  · simp only [hs₃, hs₂]
    exact hx
  · exact fun receipt hr hne => List.mem_cons_of_mem _ (hacked receipt hr hne)

/-- Exactly when a worker that was given the claim completes it. -/
theorem completes_iff {i : Nat} {ω : Nat → Choice} {w : World}
    (hw : Ready w.scheduler) (hdef : w.scheduler.definitions d.id = some d)
    (hjob : validate_schedule_job_payload L job.payload d = .ok queued_at)
    (hslot : d.scheduled_for L queued_at = .ok (some slot))
    (hkey : key = d.id ++ ":" ++ slot.isoformat) (htoken : token.length = 32)
    (hω : ∀ n, Undisturbed q key token (ω n))
    (hin : Claims q d key token (among i (_consume_job q L d job) ω w).log) :
    Completes q L d job queued_at key token w (among i (_consume_job q L d job) ω w) ↔
      Attends L d queued_at (w.scheduler.paused d.id) slot := by
  constructor
  · rintro ⟨pre, log, run, post, _, hrun, hk, _⟩
    exact attends_of_returned hw hdef hslot hrun rfl (hk.trans hkey)
  · intro ha
    exact exec_consume hw hdef hjob hslot hkey htoken (Program.exec_of_run_where (World.turn i) _ w hω) hin ha

section Sample

/-- 2026-07-01T02:30:00Z. -/
def halfPast : DateTime := ⟨739797 * dayMicros + 9000000000, false, .utc, by decide⟩

/-- UTC, and the two texts of the sample. -/
def isoLibrary : Library where
  zoneInfo := utcLibrary.zoneInfo
  isoParser text :=
    if text = "2026-07-01T02:30:00+00:00" then
      .ok ⟨739797 * dayMicros + 9000000000, some 0, by decide⟩
    else if text = "2026-07-01T00:00:00+00:00" then
      .ok ⟨739797 * dayMicros, some 0, by decide⟩
    else .error ("Invalid isoformat string: '" ++ text ++ "'")

/-- An hourly schedule that expired two and a half hours before the job was queued. -/
def expiredDefinition : ScheduleDefinition :=
  { sampleDefinition with expires_at := some "2026-07-01T00:00:00+00:00" }

def sampleJob (d : ScheduleDefinition) : Job :=
  ⟨"0f6b5d1c", build_schedule_job_payload d halfPast, "2026-07-01T02:30:01+00:00", some "1-0"⟩

def sampleQueue : Config where
  codec := {
    sha256 := tabled [("nightly:2026-07-01T02:00:00+00:00",
        "a8215d9db7a9c32b76a902e2285b1fd3b916781817cd3fb4c42e84c475bebfc6"),
      ("nightly:2026-07-01T02:30:00+00:00",
        "8bbecd93479321c14f96422df55976ae4e9c714c61d4128994ade92f51549aa1")]
    dumps _ := .error (.valueError "")
    loads _ := .error (.valueError "") }
  stream := "agent:jobs"
  claim_after_seconds := 60

/-- A worker with an idle scheduler that knows only the definition. -/
def sampleWorld (d : ScheduleDefinition) : World :=
  ⟨.init, { Scheduler.init false with definitions := Function.update (fun _ => none) d.id (some d) }⟩

theorem sampleWorld_ready {d : ScheduleDefinition} (hd : 0 ≤ d.retry_limit ∧ 0 < d.max_concurrency) :
    Ready (sampleWorld d).scheduler := by
  refine ⟨fun _ => rfl, fun {i d'} h => ?_⟩
  simp only [sampleWorld, Function.update_apply] at h
  split at h
  · cases h
    exact hd
  · cases h

def sampleToken : String := "8c6f2b1e5d3a4f7090ab12cd34ef5678"

/-- Nobody else touches Redis. -/
def alone : Nat → Choice := fun _ => { queue := ⟨none, sampleToken, none⟩ }

theorem alone_undisturbed {key : String} (n : Nat) :
    Undisturbed sampleQueue key sampleToken (alone n) := ⟨rfl, fun _ h => h⟩

theorem completes_hourly : Completes sampleQueue isoLibrary sampleDefinition
    (sampleJob sampleDefinition) halfPast "nightly:2026-07-01T02:00:00+00:00" sampleToken
    (sampleWorld sampleDefinition)
    (among 0 (_consume_job sampleQueue isoLibrary sampleDefinition (sampleJob sampleDefinition))
      alone (sampleWorld sampleDefinition)) := by
  have hslot : sampleDefinition.scheduled_for isoLibrary halfPast = .ok (some sampleNow) := by rfl
  refine (completes_iff (sampleWorld_ready (by decide)) rfl (by rfl) hslot (by rfl) (by rfl) alone_undisturbed ?_).mpr (.inl ⟨rfl, rfl, rfl⟩)
  exact .tail _ (.tail _ (.head _))

/-- The run of an expired schedule is filed under the time of the job, so the claim on
the slot is not completed and the job not acknowledged. -/
theorem expired_not_completed : ¬ ∀ (q : Config) (L : Library) (d : ScheduleDefinition) (job : Job)
    (queued_at slot : DateTime) (key token : String) (i : Nat) (ω : Nat → Choice) (w : World),
    Ready w.scheduler → w.scheduler.definitions d.id = some d →
    validate_schedule_job_payload L job.payload d = .ok queued_at →
    d.scheduled_for L queued_at = .ok (some slot) → key = d.id ++ ":" ++ slot.isoformat →
    token.length = 32 → (∀ n, Undisturbed q key token (ω n)) →
    Claims q d key token (among i (_consume_job q L d job) ω w).log →
    Completes q L d job queued_at key token w (among i (_consume_job q L d job) ω w) := by
  intro h
  have hready : Ready (sampleWorld expiredDefinition).scheduler := sampleWorld_ready (by decide)
  obtain ⟨_, log, run, _, _, hrun, hkey, _⟩ := h sampleQueue isoLibrary expiredDefinition
    (sampleJob expiredDefinition) halfPast sampleNow "nightly:2026-07-01T02:00:00+00:00" sampleToken 0
    alone (sampleWorld expiredDefinition) hready rfl (by rfl) (by rfl) (by rfl) (by rfl)
    alone_undisturbed (.tail _ (.tail _ (.head _)))
  have hslot : expiredDefinition.scheduled_for isoLibrary halfPast = .ok (some sampleNow) := by rfl
  obtain ⟨_, _, hexp⟩ | ⟨hinst, _⟩ := attends_of_returned hready rfl hslot hrun rfl hkey
  · have htrue : expiredDefinition.hasExpired isoLibrary halfPast = .ok true := rfl
    rw [htrue] at hexp
    cases hexp
  · exact absurd hinst (by decide)

end Sample

end EnterpriseCopilot.Worker
