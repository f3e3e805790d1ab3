import EnterpriseCopilot.Lib.Machine
import EnterpriseCopilot.Schedule.Calls

/-! Whole histories of one scheduler whose calls do not overlap. -/

namespace EnterpriseCopilot.Schedule

open EnterpriseCopilot.Lib EnterpriseCopilot.Python

/-- The calls on a scheduler.  `ω` is what the clock, the executor and the sink do
during a `trigger` call. -/
inductive Op
  | register (d : ScheduleDefinition)
  | pause (schedule_id : String)
  | resume (schedule_id : String)
  | cancel (idempotency_key : String)
  | trigger (c : Trigger) (ω : Nat → Choice)

inductive Event
  | managed (op : Op) (error : Option PyError)
  | triggered (c : Trigger) (log : Log) (out : Except PyError ScheduleRun)

/-- A management call that raises leaves the scheduler as it is. -/
def settle (s : Scheduler) (op : Op) : Except PyError Scheduler → Scheduler × Event
  | .ok t => (t, .managed op none)
  | .error e => (s, .managed op (some e))

def Trigger.run (L : Library) (c : Trigger) (ω : Nat → Choice) (s : Scheduler) :
    Program.Outcome Scheduler Cmd Reply PyError ScheduleRun :=
  Program.run Scheduler.apply (c.program L) ω s

def step (L : Library) (s : Scheduler) : Op → Scheduler × Event
  | .register d => settle s (.register d) (s.register L d)
  | .pause i => settle s (.pause i) (s.pause i)
  | .resume i => settle s (.resume i) (s.resume i)
  | .cancel k => settle s (.cancel k) (s.cancel k)
  | .trigger c ω => ((c.run L ω s).state, .triggered c (c.run L ω s).log (c.run L ω s).result)

def machine (L : Library) : Machine Scheduler Op Event := ⟨fun s op => some (step L s op)⟩

section Managed

variable {L : Library} {s t : Scheduler}

/-- A new scheduler accepts the definition. -/
def Accepted (L : Library) (d : ScheduleDefinition) : Prop :=
  ∃ t, (Scheduler.init false).register L d = .ok t

theorem register_ok {L : Library} {d : ScheduleDefinition} {s t : Scheduler}
    (h : s.register L d = .ok t) :
    Accepted L d ∧ (0 < d.max_concurrency ∧ 0 ≤ d.retry_limit) ∧
      t = { s with definitions := Function.update s.definitions d.id (some d) } := by
  unfold Scheduler.register at h
  split at h
  · cases h
  split at h
  · cases h
  rename_i hlim
  split at h
  · cases h
  rename_i hcond
  split at h
  · cases h
  rename_i hchan
  obtain ⟨tz, htz, h⟩ := bind_ok h
  obtain ⟨u, hcron, h⟩ := bind_ok h
  cases h
  refine ⟨⟨{ Scheduler.init false with
    definitions := Function.update (Scheduler.init false).definitions d.id (some d) }, ?_⟩,
    by omega, rfl⟩
  unfold Scheduler.register
  rw [if_neg (by simp [Scheduler.init]), if_neg hlim, if_neg hcond, if_neg hchan, htz, ok_bind,
    hcron, ok_bind]
  rfl

/-- Management calls touch neither the history nor the counters. -/
structure Managed (s t : Scheduler) : Prop where
  history : t.history = s.history
  active : t.active = s.active
  definitions : ∀ {i d}, t.definitions i = some d → s.definitions i = some d ∨
    (d.id = i ∧ 0 ≤ d.retry_limit ∧ 0 < d.max_concurrency)

theorem managed_register {d : ScheduleDefinition} (h : s.register L d = .ok t) : Managed s t := by
  obtain ⟨_, ⟨hconc, hretry⟩, rfl⟩ := register_ok h
  refine ⟨rfl, rfl, fun {i d'} hd => ?_⟩
  dsimp only at hd
  rw [Function.update_apply] at hd
  split at hd
  · rename_i hi
    cases hd
    exact .inr ⟨hi.symm, hretry, hconc⟩
  · exact .inl hd

theorem managed_pause {i : String} (h : s.pause i = .ok t) : Managed s t := by
  obtain ⟨_, _, h⟩ := bind_ok h
  cases h
  exact ⟨rfl, rfl, .inl⟩

theorem managed_resume {i : String} (h : s.resume i = .ok t) : Managed s t := by
  obtain ⟨_, _, h⟩ := bind_ok h
  cases h
  exact ⟨rfl, rfl, .inl⟩

theorem managed_cancel {k : String} (h : s.cancel k = .ok t) : Managed s t := by
  unfold Scheduler.cancel at h
  split at h
  · cases h
    exact ⟨rfl, rfl, .inl⟩
  · cases h

theorem managed_settle {op : Op} {r : Except PyError Scheduler} (h : ∀ {t}, r = .ok t → Managed s t) :
    ∃ error, (settle s op r).2 = .managed op error ∧ Managed s (settle s op r).1 := by
  cases r with
  | error e => exact ⟨some e, rfl, rfl, rfl, .inl⟩
  | ok t => exact ⟨none, rfl, h rfl⟩

/-- A step is a management call, or a `trigger` call that runs alone. -/
theorem step_cases {op : Op} {e : Event} (h : (machine L).step s op = some (t, e)) :
    (∃ error, e = .managed op error ∧ Managed s t) ∨
    ∃ c log o, e = .triggered c log o ∧ Exec (c.program L) s log o t := by
  simp only [machine, Option.some.injEq] at h
  obtain ⟨rfl, rfl⟩ : t = (step L s op).1 ∧ e = (step L s op).2 := by simp [h]
  cases op with
  | register d => exact .inl (managed_settle managed_register)
  | pause i => exact .inl (managed_settle managed_pause)
  | resume i => exact .inl (managed_settle managed_resume)
  | cancel k => exact .inl (managed_settle managed_cancel)
  | trigger c ω => exact .inr ⟨c, _, _, rfl, Program.exec_of_run Scheduler.apply _ ω s⟩

end Managed

/-- The executor was entered with the key. -/
def Event.Invokes (key : String) : Event → Prop
  | .managed _ _ => False
  | .triggered _ log _ => key ∈ enters log

/-- The slot has been executed. -/
def Executed (es : List Event) (key : String) : Prop := ∃ e ∈ es, e.Invokes key

/-- No call is in progress, definitions have passed `register`, and the slots that
were executed are on file. -/
structure Inv (es : List Event) (s : Scheduler) : Prop where
  idle : ∀ i, s.active i = none
  valid : ∀ {i d}, s.definitions i = some d → d.id = i ∧ 0 ≤ d.retry_limit ∧ 0 < d.max_concurrency
  filed : ∀ {key}, Executed es key → (s.history.get key).isSome

theorem executed_snoc : Executed (es ++ [e]) key ↔ Executed es key ∨ e.Invokes key := by
  simp [Executed, or_and_right, exists_or]

/-- What is on file under a key stays on file, and what a call executes it files. -/
structure Effect (s : Scheduler) (log : Log) (t : Scheduler) : Prop where
  keeps : ∀ {k}, (s.history.get k).isSome → (t.history.get k).isSome
  executes : ∀ {k}, k ∈ enters log → s.history.get k = none ∧ (t.history.get k).isSome
  active : t.active = s.active
  definitions : t.definitions = s.definitions

theorem Effect.silent (hlog : Silent log) : Effect s log s :=
  ⟨fun h => h, by simp [hlog.1], rfl, rfl⟩

theorem Filed.effect (h : Filed s t key run)
    (hlog : ∀ k ∈ enters log, k = key ∧ s.history.get key = none) : Effect s log t := by
  refine ⟨fun {k} hk => ?_, fun {k} hk => ?_, h.active, h.frame.definitions⟩
  · rw [h.history, Function.update_apply]
    split
    · rfl
    · exact hk
  · obtain ⟨rfl, hnone⟩ := hlog k hk
    exact ⟨hnone, by simp [h.history]⟩

theorem Effect.file (hlog : Silent log) (run : ScheduleRun) : Effect s log (s.file run) :=
  (filed_file s run).effect (by simp [hlog.1])

theorem Looped.mem_enters (h : Looped x left n s log run t) (hk : k ∈ enters log) : k = x.key := by
  rw [h.entered] at hk
  exact List.eq_of_mem_replicate hk

theorem SlotCase.effect (h : SlotCase x s log o t) : Effect s log t := by
  cases h with
  | duplicate _ hlog _ ht => exact ht ▸ .silent hlog
  | cancelled _ _ hlog _ _ ht => exact ht ▸ .file hlog _
  | saturated _ _ _ hlog _ _ ht => exact ht ▸ .file hlog _
  | executed hnone _ _ _ hloop =>
    exact hloop.filed.effect fun k hk => ⟨hloop.mem_enters hk, hnone⟩

theorem TriggerCase.effect (h : TriggerCase L c s log o t) : Effect s log t := by
  cases h with
  | unknown _ hlog _ ht => exact ht ▸ .silent hlog
  | raised _ _ hlog _ ht => exact ht ▸ .silent hlog
  | unrecorded _ _ _ hlog _ ht => exact ht ▸ .silent hlog
  | refused _ _ _ hlog _ _ ht => exact ht ▸ .file hlog _
  | slot _ _ hent _ hslot =>
    have heff := hslot.effect
    exact ⟨heff.keeps, fun hk => heff.executes (hent ▸ hk), heff.active, heff.definitions⟩

theorem Inv.init (notifier : Bool) : Inv [] (Scheduler.init notifier) :=
  ⟨fun _ => rfl, by simp [Scheduler.init], by simp [Executed]⟩

theorem Inv.trigger (h : Inv es s) {c : Trigger} (hx : Exec (c.program L) s log o t) :
    TriggerCase L c s log o t :=
  exec_trigger (fun _ hd => (h.valid hd).2.1) (by simp [h.idle]) hx

theorem Inv.step (h : Inv es s) (hs : (machine L).step s op = some (t, e)) : Inv (es ++ [e]) t := by
  obtain ⟨error, rfl, hm⟩ | ⟨c, log, o, rfl, hx⟩ := step_cases hs
  · refine ⟨fun i => by rw [hm.active, h.idle], fun hd => ?_, fun {key} hk => ?_⟩
    · obtain hd | hd := hm.definitions hd
      · exact h.valid hd
      · exact hd
    · rw [hm.history]
      obtain hk | hk := executed_snoc.mp hk
      · exact h.filed hk
      · exact hk.elim
  · have heff := (h.trigger hx).effect
    refine ⟨fun i => by rw [heff.active, h.idle], fun hd => h.valid (heff.definitions ▸ hd),
      fun {key} hk => ?_⟩
    obtain hk | hk := executed_snoc.mp hk
    · exact heff.keeps (h.filed hk)
    · exact (heff.executes hk).2

theorem inv_of_run {L : Library} {G : Scheduler → Op → Prop} {notifier : Bool} {es : List Event}
    {s : Scheduler} (h : (machine L).Run G (.init notifier) es s) : Inv es s := by
  refine h.invariant (I := Inv) (Inv.init notifier) ?_
  intro es s op t e _ _ hs ih
  exact ih.step hs

/-- Every definition in use has passed `register`. -/
theorem accepted_of_run {L : Library} {G : Scheduler → Op → Prop} {notifier : Bool}
    {es : List Event} {s : Scheduler} (h : (machine L).Run G (.init notifier) es s) :
    ∀ {i d}, s.definitions i = some d → Accepted L d := by
  have hall : ∀ i d, s.definitions i = some d → Accepted L d := by
    refine h.invariant (I := fun _ s => ∀ i d, s.definitions i = some d → Accepted L d)
      (by simp [Scheduler.init]) ?_
    intro es s op t e hr _ hs ih i d hd
    simp only [machine, Option.some.injEq] at hs
    obtain rfl : t = (step L s op).1 := by rw [hs]
    have settled : ∀ {op r}, (∀ {t}, r = .ok t → t.definitions i = some d → Accepted L d) →
        (settle s op r).1.definitions i = some d → Accepted L d := by
      intro op r hok hset
      cases r with
      | error e => exact ih i d hset
      | ok t => exact hok rfl hset
    cases op with
    | register d' =>
      refine settled (fun {t} ht htd => ?_) hd
      obtain ⟨hacc, _, rfl⟩ := register_ok ht
      dsimp only at htd
      rw [Function.update_apply] at htd
      split at htd
      · cases htd
        exact hacc
      · exact ih i d htd
    | pause j =>
      refine settled (fun {t} ht htd => ?_) hd
      obtain ⟨_, _, ht⟩ := bind_ok ht
      cases ht
      exact ih i d htd
    | resume j =>
      refine settled (fun {t} ht htd => ?_) hd
      obtain ⟨_, _, ht⟩ := bind_ok ht
      cases ht
      exact ih i d htd
    | cancel k =>
      refine settled (fun {t} ht htd => ?_) hd
      unfold Scheduler.cancel at ht
      split at ht
      · cases ht
        exact ih i d htd
      · cases ht
    | trigger c ω =>
      have heff := ((inv_of_run hr).trigger (L := L) (c := c)
        (Program.exec_of_run Scheduler.apply _ ω s)).effect
      exact ih i d (heff.definitions ▸ hd)
  exact fun {i d} => hall i d

/-- The books of a call that entered the executor with `key`. -/
structure Counted (d : ScheduleDefinition) (key : String) (log : Log) (run : ScheduleRun)
    (t : Scheduler) : Prop where
  same : ∀ k ∈ enters log, k = key
  positive : 1 ≤ (enters log).length
  bounded : ((enters log).length : Int) ≤ d.retry_limit + 1
  attempts : run.attempts = (enters log).length
  succeeded : run.status = .succeeded ↔ ∃ m, (outcomes log).getLast? = some (.ok m)
  failed : run.status = .failed ↔
    ((enters log).length : Int) = d.retry_limit + 1 ∧ ∀ o ∈ outcomes log, Raised o
  cancelled : run.status = .cancelled ↔
    ((enters log).length : Int) ≤ d.retry_limit ∧ (∀ o ∈ outcomes log, Raised o) ∧
      t.cancelled key

theorem getLast?_of_raised {os : List (Except String String)} (h : ∀ o ∈ os, Raised o) :
    ¬ ∃ m, os.getLast? = some (.ok m) := by
  rintro ⟨m, hm⟩
  obtain ⟨e, he⟩ := h _ (List.mem_of_getLast? hm)
  cases he

theorem Looped.counted (hretry : 0 ≤ x.definition.retry_limit)
    (h : Looped x (x.definition.retry_limit + 1).toNat 0 s log run t) (hk : key ∈ enters log) :
    Counted x.definition key log run t := by
  obtain rfl := h.mem_enters hk
  have hlen : (enters log).length = (outcomes log).length := by simp [h.entered]
  have hpos : 1 ≤ (enters log).length := List.length_pos_of_mem hk
  have hat : run.attempts = (enters log).length := by rw [h.attempts, hlen, Nat.zero_add]
  have hv := h.verdict
  generalize hst : run.status = st at hv
  cases hv with
  | @succeeded os' m hos _ hle =>
    have hnot : ¬ ∀ o ∈ outcomes log, Raised o := by
      intro hall
      exact getLast?_of_raised hall ⟨m, by simp [hos]⟩
    refine ⟨fun k => h.mem_enters, hpos, by omega, hat, ?_, ?_, ?_⟩
    · simp [hst, hos]
    · simp [hst, hnot]
    · simp [hst, hnot]
  | failed hall hle =>
    refine ⟨fun k => h.mem_enters, hpos, by omega, hat, ?_, ?_, ?_⟩
    · simp [hst, getLast?_of_raised hall]
    · rw [hst]
      exact ⟨fun _ => ⟨by omega, hall⟩, fun _ => rfl⟩
    · rw [hst]
      exact ⟨fun hc => (by cases hc), fun ⟨hle', _⟩ => absurd hle' (by omega)⟩
  | cancelled hall hlt hc =>
    refine ⟨fun k => h.mem_enters, hpos, by omega, hat, ?_, ?_, ?_⟩
    · simp [hst, getLast?_of_raised hall]
    · rw [hst]
      exact ⟨fun hf => (by cases hf), fun ⟨heq, _⟩ => absurd heq (by omega)⟩
    · rw [hst]
      exact ⟨fun _ => ⟨by omega, hall, hc⟩, fun _ => rfl⟩

section Terminal

/-- The result is not a `RuntimeError`. -/
structure Regular {α : Type} (x : Except PyError α) : Prop where
  ne : ∀ msg, x ≠ .error (.runtimeError msg)

theorem Regular.ok {α : Type} (a : α) : Regular (.ok a) := ⟨by simp⟩

theorem Regular.error {α : Type} {e : PyError} (h : ∀ msg, e ≠ .runtimeError msg) :
    Regular (.error e : Except PyError α) := ⟨fun msg he => h msg (by cases he; rfl)⟩

theorem Regular.bind {α β : Type} {x : Except PyError α} {f : α → Except PyError β}
    (hx : Regular x) (hf : ∀ a, Regular (f a)) : Regular (x >>= f) := by
  cases x with
  | error e => exact .error fun msg h => hx.ne msg (by rw [h])
  | ok a => exact hf a

theorem Regular.mapM {α β : Type} {f : α → Except PyError β} (hf : ∀ a, Regular (f a)) :
    ∀ xs : List α, Regular (xs.mapM f) := by
  intro xs
  induction xs with
  | nil => exact .ok _
  | cons a as ih =>
    rw [List.mapM_cons]
    exact .bind (hf a) fun b => .bind ih fun bs => .ok _

theorem regular_make (w : Int) (f : Bool) (tz : TzInfo) : Regular (DateTime.make w f tz) := by
  unfold DateTime.make
  split
  · exact .ok _
  · exact .error (by simp)

theorem regular_astimezone (d : DateTime) (tz : TzInfo) : Regular (d.astimezone tz) := by
  unfold DateTime.astimezone
  split
  · exact .ok _
  · exact .bind (regular_make ..) fun u => regular_make ..

theorem regular_timezone (L : Library) (d : ScheduleDefinition) : Regular (d.timezone L) := by
  unfold ScheduleDefinition.timezone
  split
  · exact .ok _
  all_goals exact .error (by simp)

theorem regular_fromisoformat (L : Library) (text : String) : Regular (L.fromisoformat text) := by
  unfold Library.fromisoformat
  split
  · exact .ok _
  · exact .error (by simp)

theorem regular_int (cs : List Char) : Regular (int cs) := by
  unfold int
  dsimp only
  split
  · exact .error (by simp)
  · split
    · exact .error (by simp)
    · exact .ok _

theorem regular_parse (expression : String) : Regular (CronExpression.parse expression) := by
  have bounds : ∀ lo hi base, Regular (CronExpression._parse_bounds lo hi base) := by
    intro lo hi base
    unfold CronExpression._parse_bounds
    split
    · exact .ok _
    · split
      · exact .bind (regular_int _) fun a => .bind (regular_int _) fun b => .ok _
      · exact .bind (regular_int _) fun a => .ok _
  have item : ∀ field lo hi x, Regular (CronExpression._parse_item field lo hi x) := by
    intro field lo hi x
    unfold CronExpression._parse_item
    split
    · exact .error (by simp)
    · refine .bind ?_ fun step => ?_
      · unfold CronExpression._parse_step
        split
        · exact .ok _
        · exact regular_int _
      · split
        · exact .error (by simp)
        · refine .bind (bounds ..) fun b => ?_
          split
          · exact .error (by simp)
          · exact .ok _
  have field : ∀ f lo hi, Regular (CronExpression._parse_field f lo hi) := by
    intro f lo hi
    refine .bind (.mapM (item f lo hi) _) fun r => ?_
    split
    · exact .error (by simp)
    · exact .ok _
  unfold CronExpression.parse
  split
  · exact .bind (field ..) fun a => .bind (field ..) fun b => .bind (field ..) fun c =>
      .bind (field ..) fun d => .bind (field ..) fun e => .ok _
  · exact .error (by simp)

theorem regular_searchCron (cron : CronExpression) : ∀ n cursor,
    Regular (searchCron cron n cursor) := by
  intro n
  induction n with
  | zero => intro cursor; exact .error (by simp)
  | succ n ih =>
    intro cursor
    unfold searchCron
    split
    · exact .bind (regular_astimezone ..) fun u => .ok _
    · exact .bind (regular_make ..) fun next => ih next

theorem regular_scheduled_for (L : Library) (d : ScheduleDefinition) (now : DateTime) :
    Regular (d.scheduled_for L now) := by
  refine .bind (regular_timezone L d) fun tz => .bind (regular_astimezone ..) fun local_now => ?_
  split
  · unfold ScheduleDefinition.oneShotSlot
    split
    · exact .error (by simp)
    · refine .bind (regular_fromisoformat ..) fun p => ?_
      dsimp only
      split
      · exact .bind (regular_astimezone ..) fun u => .ok _
      · exact .ok _
  split
  · unfold ScheduleDefinition.intervalSlot
    split
    · exact .error (by simp)
    · exact .error (by simp)
    · refine .bind (regular_astimezone ..) fun current => .bind ?_ fun delta =>
        .bind (regular_make ..) fun slot => .ok _
      unfold timedelta
      split
      · exact .ok _
      · exact .error (by simp)
  split
  · unfold ScheduleDefinition.cronSlot
    split
    · exact .error (by simp)
    · refine .bind ?_ fun cursor => .bind (regular_parse _) fun cron => regular_searchCron ..
      unfold ceilMinute
      split
      · exact regular_make ..
      · exact .ok _
  · exact .error (by simp)

theorem regular_hasExpired (L : Library) (d : ScheduleDefinition) (now : DateTime) :
    Regular (d.hasExpired L now) := by
  unfold ScheduleDefinition.hasExpired
  split
  · exact .ok _
  · refine .bind (.bind (regular_fromisoformat ..) fun p => ?_) fun e =>
      .bind (regular_astimezone ..) fun a => .bind (regular_astimezone ..) fun b => .ok _
    split
    · exact .ok _
    · exact .bind (regular_timezone L d) fun tz => .ok _

theorem regular_decision (L : Library) (c : Trigger) (d : ScheduleDefinition) (p : Bool) :
    Regular (c.decision L d p) := by
  refine ⟨fun msg h => ?_⟩
  unfold Trigger.decision at h
  split at h
  · cases h
  split at h
  · cases h
  split at h
  · rename_i he
    cases h
    exact (regular_hasExpired L d c.now).ne msg he
  · cases h
  · split at h
    · rename_i he
      cases h
      exact (regular_scheduled_for L d c.now).ne msg he
    · cases h
    · cases h

/-- A call never falls out of its loop. -/
theorem TriggerCase.regular (h : TriggerCase L c s log o t) : Regular o := by
  cases h with
  | unknown _ _ ho => exact ho ▸ .error (by simp)
  | raised _ hdec _ ho =>
    refine ⟨fun msg h => ?_⟩
    rw [h] at ho
    cases ho
    exact (regular_decision ..).ne msg hdec
  | unrecorded _ _ hu _ ho =>
    refine ⟨fun msg h => ?_⟩
    rw [h] at ho
    cases ho
    exact (regular_astimezone ..).ne msg hu
  | refused _ _ _ _ _ ho => exact ho ▸ .ok _
  | slot _ _ _ _ hslot =>
    cases hslot with
    | duplicate _ _ ho => exact ho ▸ .ok _
    | cancelled _ _ _ _ ho => exact ho ▸ .ok _
    | saturated _ _ _ _ _ ho => exact ho ▸ .ok _
    | executed _ _ _ ho => exact ho ▸ .ok _

end Terminal

section Accounting

variable {L : Library}

/-- At most one call executes a slot, its books are right, and no call leaves a
trace in the counters.  The last three are about whatever call comes next. -/
structure Accounted (L : Library) (es : List Event) (s : Scheduler) : Prop where
  once : ∀ {pre e mid e' post key}, es = pre ++ e :: (mid ++ e' :: post) →
    e.Invokes key → ¬ e'.Invokes key
  counted : ∀ {c ω t log o key},
    (machine L).step s (.trigger c ω) = some (t, .triggered c log o) → key ∈ enters log →
    ∃ d run, s.definitions c.schedule_id = some d ∧ o = .ok run ∧ Counted d key log run t
  terminal : ∀ {c ω t log o} msg,
    (machine L).step s (.trigger c ω) = some (t, .triggered c log o) →
    o ≠ .error (.runtimeError msg)
  balanced : ∀ {c ω t log o},
    (machine L).step s (.trigger c ω) = some (t, .triggered c log o) → t.active = s.active

theorem TriggerCase.counted (hvalid : ∀ {i d}, s.definitions i = some d → 0 ≤ d.retry_limit)
    (h : TriggerCase L c s log o t) (hk : key ∈ enters log) :
    ∃ d run, s.definitions c.schedule_id = some d ∧ o = .ok run ∧ Counted d key log run t := by
  cases h with
  | unknown _ hlog | raised _ _ hlog | unrecorded _ _ _ hlog | refused _ _ _ hlog =>
    rw [hlog.1] at hk
    cases hk
  | @slot d started scheduled log' hd _ hent hout hslot =>
    rw [hent] at hk
    cases hslot with
    | duplicate _ hlog | cancelled _ _ hlog | saturated _ _ _ hlog =>
      rw [hlog.1] at hk
      cases hk
    | @executed run _ _ _ ho hloop =>
      have hc := hloop.counted (hvalid hd) hk
      refine ⟨d, run, hd, ho, ?_⟩
      exact ⟨by rw [hent]; exact hc.same, by rw [hent]; exact hc.positive,
        by rw [hent]; exact hc.bounded, by rw [hent]; exact hc.attempts,
        by rw [hout]; exact hc.succeeded, by rw [hent, hout]; exact hc.failed,
        by rw [hent, hout]; exact hc.cancelled⟩

theorem exec_of_step {c : Trigger} {ω : Nat → Choice} {t : Scheduler} {log : Log}
    {o : Except PyError ScheduleRun}
    (h : (machine L).step s (.trigger c ω) = some (t, .triggered c log o)) :
    Exec (c.program L) s log o t := by
  obtain ⟨_, he, _⟩ | ⟨_, _, _, he, hx⟩ := step_cases h
  · cases he
  · cases he
    exact hx

theorem scheduler_accounting {notifier : Bool} {es : List Event} {s : Scheduler}
    (h : (machine L).Run Machine.Free (.init notifier) es s) : Accounted L es s := by
  have inv := inv_of_run h
  refine ⟨?_, ?_, ?_, ?_⟩
  · intro pre e mid e' post key he hk hk'
    obtain ⟨u, op, v, hu, _, hs, _⟩ := h.at_event
      (he.trans (List.append_assoc pre (e :: mid) (e' :: post)).symm)
    have invu := inv_of_run hu
    have hfiled := invu.filed ⟨e, by simp, hk⟩
    obtain ⟨_, rfl, _⟩ | ⟨c, log, o, rfl, hx⟩ := step_cases hs
    · exact hk'
    · have hnone := ((invu.trigger hx).effect.executes hk').1
      rw [hnone] at hfiled
      cases hfiled
  · intro c ω t log o key hs hk
    exact (inv.trigger (exec_of_step hs)).counted (fun hd => (inv.valid hd).2.1) hk
  · intro c ω t log o msg hs
    exact (inv.trigger (exec_of_step hs)).regular.ne msg
  · intro c ω t log o hs
    exact (inv.trigger (exec_of_step hs)).effect.active

/-- A zone database with UTC only, and no ISO 8601 texts. -/
def utcLibrary : Library where
  zoneInfo key := if key = "UTC" then .ok (Zone.fixed 0) else .error .notFound
  isoParser text := .error ("Invalid isoformat string: " ++ text)

/-- 2026-07-01T02:00:00Z. -/
def sampleNow : DateTime := ⟨739797 * dayMicros + 7200000000, false, .utc, by decide⟩

def sampleDefinition : ScheduleDefinition :=
  { id := "nightly", version := "1", agent := "customer-service-agent", schedule_type := "interval"
    interval_seconds := some 3600, retry_limit := 2 }

/-- The first two executor calls raise, all others return. -/
def flaky : Nat → Choice
  | 10 | 13 => { result := .error "TimeoutError" }
  | _ => { result := .ok "done" }

theorem scheduler_accounting_sample : ∃ s es, (machine utcLibrary).exec Machine.Free (.init false)
      [.register sampleDefinition, .trigger ⟨"nightly", sampleNow, false, false⟩ flaky,
        .trigger ⟨"nightly", sampleNow, false, false⟩ flaky] = some (s, es) ∧
    es.map (fun | .triggered _ log _ => enters log | _ => []) =
      [[], List.replicate 3 "nightly:2026-07-01T02:00:00+00:00", []] ∧
    Accounted utcLibrary es s :=
  ⟨_, _, rfl, rfl, scheduler_accounting (Machine.run_of_exec
    [.register sampleDefinition, .trigger ⟨"nightly", sampleNow, false, false⟩ flaky,
      .trigger ⟨"nightly", sampleNow, false, false⟩ flaky] rfl)⟩

end Accounting

end EnterpriseCopilot.Schedule
