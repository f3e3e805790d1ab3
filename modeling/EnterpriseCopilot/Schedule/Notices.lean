import EnterpriseCopilot.Schedule.Runs

/-! What a scheduler sends to its sink. -/

namespace EnterpriseCopilot.Schedule

open EnterpriseCopilot.Lib EnterpriseCopilot.Python

/-- One call of the sink, and the exception it raised, if any. -/
structure Notice where
  channel : String
  definition : ScheduleDefinition
  run : ScheduleRun
  error : Option String

def sends (log : Log) : List Notice :=
  log.filterMap fun
    | ⟨.send channel d run, r⟩ => some ⟨channel, d, run, r⟩
    | _ => none

def records (log : Log) : List ScheduleRun :=
  log.filterMap fun
    | ⟨.record run, _⟩ => some run
    | _ => none

@[simp] theorem sends_append (a b : Log) : sends (a ++ b) = sends a ++ sends b := List.filterMap_append

@[simp] theorem records_append (a b : Log) : records (a ++ b) = records a ++ records b := List.filterMap_append

/-- Nothing sent and nothing filed. -/
def Still (log : Log) : Prop := sends log = [] ∧ records log = []

/-- The run that the call produced, as it was first filed. -/
def produced (log : Log) : Option ScheduleRun := (records log).head?

theorem produced_prepend {pre log : Log} (hpre : records pre = []) : produced (pre ++ log) = produced log := by
  rw [produced, records_append, hpre, List.nil_append, produced]

theorem produced_append {log post : Log} {run : ScheduleRun} (h : produced log = some run) :
    produced (log ++ post) = some run := by
  obtain ⟨rest, hrest⟩ := List.head?_eq_some_iff.mp h
  rw [produced, records_append, hrest]
  rfl

/-- The run as `_notify` files it, by what the sink did. -/
def ScheduleRun.told (run : ScheduleRun) : Option String → ScheduleRun
  | some name => { run with notification_error := some name }
  | none => { run with notification_sent := true }

/-- No notification has been tried. -/
def ScheduleRun.Untold (run : ScheduleRun) : Prop := run.notification_sent = false ∧ run.notification_error = none

/-- `_notify` sent the run that was filed as `first` if it had to, and returned it as `run`. -/
structure Told (d : ScheduleDefinition) (notifier finding : Bool) (log : Log) (first run : ScheduleRun) : Prop where
  untold : first.Untold
  sent : ∀ channel, notifier = true → d.notify_channel = some channel → shouldNotify d first finding = true →
    ∃ error, sends log = [⟨channel, d, first, error⟩] ∧ run = first.told error
  unsent : (∀ channel, notifier = true → d.notify_channel = some channel → shouldNotify d first finding = false) →
    sends log = [] ∧ run = first

section Told

variable {d : ScheduleDefinition} {notifier finding : Bool} {log : Log} {first run : ScheduleRun}

theorem Told.prepend (h : Told d notifier finding log first run) (pre : Log) (hpre : sends pre = []) :
    Told d notifier finding (pre ++ log) first run := by
  refine ⟨h.untold, ?_, ?_⟩ <;> rw [sends_append, hpre]
  · exact h.sent
  · exact h.unsent

theorem Told.append (h : Told d notifier finding log first run) (post : Log) (hpost : sends post = []) :
    Told d notifier finding (log ++ post) first run := by
  refine ⟨h.untold, ?_, ?_⟩ <;> rw [sends_append, hpost, List.append_nil]
  · exact h.sent
  · exact h.unsent

end Told

section Calls

variable {α : Type} {x : Slot} {s t : Scheduler} {log : Log} {d : ScheduleDefinition} {finding : Bool} {n : Nat}

/-- No operation changes the sink. -/
theorem exec_notifier {p : Code α} {o : Except PyError α} (h : Exec p s log o t) : t.notifier = s.notifier := by
  induction h with
  | pure => rfl
  | throw => rfl
  | cmd ch _ ih =>
    rename_i c _ _ _ _ _ _
    rw [ih]
    cases c <;> rfl

/-- A command other than `send`. -/
def Unsending (c : Cmd) : Prop := ∀ channel d run, c ≠ .send channel d run

theorem sends_eq_nil {p : Code α} {o : Except PyError α} (hp : Program.All Unsending p) (h : Exec p s log o t) :
    sends log = [] := by
  rw [sends, List.filterMap_eq_nil_iff]
  rintro ⟨c, r⟩ hx
  have hc := hp.exec h _ hx
  cases c <;> first | rfl | exact absurd rfl (hc _ _ _)

theorem exec_notify_told {first : ScheduleRun} {o : Except PyError ScheduleRun} (hfirst : first.Untold)
    (h : Exec (_notify d first finding) s log o t) : ∃ run, o = .ok run ∧ Told d s.notifier finding log first run := by
  simp only [_notify, Code.hasNotifier, Program.bind_eq, Program.cmd_bind, Program.pure_bind, Program.exec_issue,
    Scheduler.apply] at h
  obtain ⟨_, rest, rfl, h⟩ := h
  split at h
  · rename_i channel hnotifier hchannel
    split at h
    · rename_i hshould
      simp only [Code.send, Code.record, Program.pure_eq, Program.cmd_bind, Program.pure_bind, Program.exec_issue,
        Program.exec_pure, Scheduler.apply] at h
      obtain ⟨ch, _, rfl, _, _, rfl, rfl, rfl, rfl⟩ := h
      refine ⟨_, rfl, hfirst, fun channel' _ hchannel' _ => ?_, fun hnot => ?_⟩
      · rw [hchannel] at hchannel'
        cases hchannel'
        refine ⟨ch.sink, rfl, ?_⟩
        cases ch.sink <;> rfl
      · exact absurd hshould (by simp [hnot channel hnotifier hchannel])
    · rename_i hshould
      simp only [Program.pure_eq, Program.exec_pure] at h
      obtain ⟨rfl, rfl, rfl⟩ := h
      exact ⟨first, rfl, hfirst, fun _ _ _ h => absurd h hshould, fun _ => ⟨rfl, rfl⟩⟩
  · rename_i hno
    simp only [Program.pure_eq, Program.exec_pure] at h
    obtain ⟨rfl, rfl, rfl⟩ := h
    exact ⟨first, rfl, hfirst, fun channel hn hc _ => absurd hc (hno channel hn), fun _ => ⟨rfl, rfl⟩⟩

theorem untold_of {i st a b n m u} : (ScheduleRun.of i st a b n m u).Untold := ⟨rfl, rfl⟩

/-- What an iteration of the loop, or the whole call, reports. -/
inductive Report (x : Slot) (notifier : Bool) (log : Log) : Option ScheduleRun → Prop
  | retried : Still log → Report x notifier log none
  | filed {run} : run.status = .cancelled ∨ run.status = .skipped → run.idempotency_key = x.key → run.Untold →
      sends log = [] → produced log = some run → Report x notifier log (some run)
  | ended {first run finding} :
      (first.status = .succeeded ∧ finding = x.finding) ∨ (first.status = .failed ∧ finding = false) →
      first.idempotency_key = x.key → produced log = some first → Told x.definition notifier finding log first run →
      Report x notifier log (some run)

theorem exec_succeed_told {o : Except PyError ScheduleRun} (hx : x.scheduled.tzinfo = .utc)
    (h : Exec (x.succeed n) s log o t) : (∃ e, o = .error e ∧ Still log) ∨
      ∃ first run, o = .ok run ∧ first.status = .succeeded ∧ first.idempotency_key = x.key ∧
        produced log = some first ∧ Told x.definition s.notifier x.finding log first run := by
  simp only [Slot.succeed, Code.executor, Program.bind_eq, Program.cmd_bind, Program.exec_issue, Scheduler.apply] at h
  obtain ⟨_, _, rfl, ch, rest, rfl, h⟩ := h
  cases hr : ch.result with
  | error e =>
    rw [hr] at h
    simp only [Program.throw_bind, Program.exec_throw] at h
    obtain ⟨rfl, rfl, rfl⟩ := h
    exact .inl ⟨_, rfl, rfl, rfl⟩
  | ok m =>
    rw [hr] at h
    simp only [Program.pure_bind, exec_now, exec_record_bind hx] at h
    obtain ⟨z, _, rfl, rest, rfl, h⟩ := h
    obtain ⟨run, rfl, htold⟩ := exec_notify_told untold_of h
    refine .inr ⟨.of x.schedule_id .succeeded x.started z n m x.scheduled, run, rfl, rfl, rfl, rfl, ?_⟩
    exact htold.prepend [⟨.enter _ _, _⟩, ⟨.leave _ _, _⟩, ⟨.now, _⟩, ⟨.record _, _⟩] rfl

theorem exec_giveUp_told {o : Except PyError (Option ScheduleRun)} (hx : x.scheduled.tzinfo = .utc)
    (h : Exec (x.giveUp n) s log o t) : (o = .ok none ∧ Still log) ∨
      ∃ first run, o = .ok (some run) ∧ first.status = .failed ∧ first.idempotency_key = x.key ∧
        produced log = some first ∧ Told x.definition s.notifier false log first run := by
  unfold Slot.giveUp at h
  split at h
  · simp only [Program.bind_eq, Program.pure_eq, exec_now, exec_record_bind hx] at h
    obtain ⟨z, _, rfl, rest, rfl, h⟩ := h
    obtain ⟨e, he, _⟩ | ⟨run', v, l₃, l₄, hret, hpure, rfl⟩ := Program.exec_bind.mp h
    · obtain ⟨_, hok, _⟩ := exec_notify_told untold_of he
      cases hok
    · obtain ⟨run, hok, htold⟩ := exec_notify_told untold_of hret
      cases hok
      simp only [Program.exec_pure] at hpure
      obtain ⟨rfl, rfl, rfl⟩ := hpure
      refine .inr ⟨.of x.schedule_id .failed x.started z n "scheduled execution failed after retry limit" x.scheduled,
        run', rfl, rfl, rfl, rfl, ?_⟩
      exact (htold.append [] rfl).prepend [⟨.now, _⟩, ⟨.record _, _⟩] rfl
  · simp only [Program.pure_eq, Program.exec_pure] at h
    obtain ⟨rfl, rfl, rfl⟩ := h
    exact .inl ⟨rfl, rfl, rfl⟩

theorem Report.prepend {notifier : Bool} {r : Option ScheduleRun} (h : Report x notifier log r) (pre : Log)
    (hpre : Still pre) : Report x notifier (pre ++ log) r := by
  obtain ⟨hsent, hfiled⟩ := hpre
  cases h with
  | retried hstill => exact .retried ⟨by rw [sends_append, hsent, hstill.1]; rfl, by rw [records_append, hfiled, hstill.2]; rfl⟩
  | filed hstatus hkey huntold hsends hproduced =>
    exact .filed hstatus hkey huntold (by rw [sends_append, hsent, hsends]; rfl) ((produced_prepend hfiled).trans hproduced)
  | ended hstatus hkey hproduced htold =>
    exact .ended hstatus hkey ((produced_prepend hfiled).trans hproduced) (htold.prepend pre hsent)

theorem Report.append {notifier : Bool} {run : ScheduleRun} (h : Report x notifier log (some run)) (post : Log)
    (hpost : sends post = []) : Report x notifier (log ++ post) (some run) := by
  cases h with
  | filed hstatus hkey huntold hsends hproduced =>
    exact .filed hstatus hkey huntold (by rw [sends_append, hpost, hsends]; rfl) (produced_append hproduced)
  | ended hstatus hkey hproduced htold =>
    exact .ended hstatus hkey (produced_append hproduced) (htold.append post hpost)

theorem exec_iteration_told {o : Except PyError (Option ScheduleRun)} (hx : x.scheduled.tzinfo = .utc)
    (h : Exec (Program.tryCatch (some <$> x.succeed n) (fun _ => x.giveUp n)) s log o t) :
    ∃ r, o = .ok r ∧ Report x s.notifier log r := by
  obtain ⟨a, hret, rfl⟩ | ⟨e, u, l₁, l₂, hexc, hg, rfl⟩ := Program.exec_tryCatch.mp h
  · obtain ⟨o', hs, ho⟩ := Program.exec_map hret
    obtain ⟨_, rfl, _⟩ | ⟨first, run, rfl, hstatus, hkey, hproduced, htold⟩ := exec_succeed_told hx hs
    · cases ho
    · cases ho
      exact ⟨_, rfl, .ended (.inl ⟨hstatus, rfl⟩) hkey hproduced htold⟩
  · obtain ⟨o', hs, ho⟩ := Program.exec_map hexc
    obtain ⟨_, rfl, hstill⟩ | ⟨_, _, rfl, _⟩ := exec_succeed_told hx hs
    · have hnotifier := exec_notifier hs
      obtain ⟨rfl, hquiet⟩ | ⟨first, run, rfl, hstatus, hkey, hproduced, htold⟩ := exec_giveUp_told hx hg
      · exact ⟨_, rfl, (Report.retried hquiet).prepend l₁ hstill⟩
      · rw [hnotifier] at htold
        exact ⟨_, rfl, (Report.ended (.inr ⟨hstatus, rfl⟩) hkey hproduced htold).prepend l₁ hstill⟩
    · cases ho

theorem exec_attempt_told (hx : x.scheduled.tzinfo = .utc) : ∀ {left n s log o t}, Exec (x.attempt left n) s log o t →
    ∃ r, o = .ok r ∧ Report x s.notifier log r := by
  intro left
  induction left with
  | zero =>
    intro n s log o t h
    simp only [Slot.attempt, Program.pure_eq, Program.exec_pure] at h
    obtain ⟨rfl, rfl, rfl⟩ := h
    exact ⟨_, rfl, .retried ⟨rfl, rfl⟩⟩
  | succ left ih =>
    intro n s log o t h
    simp only [Slot.attempt, Program.bind_eq, exec_isCancelled] at h
    obtain ⟨rest, rfl, h⟩ := h
    split at h
    · simp only [exec_now, Program.pure_eq, exec_record_bind hx, Program.exec_pure] at h
      obtain ⟨z, _, rfl, rest, rfl, rfl, rfl, rfl⟩ := h
      exact ⟨_, rfl, .filed (.inl rfl) rfl untold_of rfl rfl⟩
    · obtain ⟨e, he, _⟩ | ⟨a, u, l₁, l₂, hit, hnext, rfl⟩ := Program.exec_bind.mp h
      · obtain ⟨_, hok, _⟩ := exec_iteration_told hx he
        cases hok
      · obtain ⟨r, hok, hreport⟩ := exec_iteration_told hx hit
        cases hok
        have hnotifier := exec_notifier hit
        cases a with
        | some run =>
          simp only [Program.pure_eq, Program.exec_pure] at hnext
          obtain ⟨rfl, rfl, rfl⟩ := hnext
          have hdone := hreport.append [] rfl
          exact ⟨_, rfl, hdone.prepend [⟨.isCancelled _, _⟩] ⟨rfl, rfl⟩⟩
        | none =>
          obtain ⟨r, rfl, hlater⟩ := ih hnext
          cases hreport with
          | retried hstill =>
            rw [hnotifier] at hlater
            have hrest := hlater.prepend l₁ hstill
            exact ⟨r, rfl, hrest.prepend [⟨.isCancelled _, _⟩] ⟨rfl, rfl⟩⟩

theorem unsending_release : Program.All Unsending x.release := by
  have hget : Program.All Unsending (Code.getActive x.schedule_id) := by
    refine ⟨by simp [Unsending], fun r => ?_⟩
    cases r <;> trivial
  refine hget.bind fun n => ⟨by simp [Unsending], fun _ => hget.bind fun m => ?_⟩
  split
  · refine ⟨by simp [Unsending], fun r => ?_⟩
    cases r <;> trivial
  · trivial

theorem exec_execute_told {run : ScheduleRun} (hx : x.scheduled.tzinfo = .utc) (h : Exec x.execute s log (.ok run) t) :
    Report x s.notifier log (some run) := by
  simp only [Slot.execute, Program.bind_eq, exec_activeCount, exec_setActive] at h
  obtain ⟨_, rfl, rest, rfl, h⟩ := h
  obtain ⟨_, _, ho⟩ | ⟨a, u, l₁, l₂, hbody, hret, rfl⟩ := Program.exec_bind.mp h
  · cases ho
  · obtain ⟨o₁, v, l₃, l₄, hatt, rfl, ⟨hrel, ho⟩ | ⟨_, _, ho⟩⟩ := Program.exec_tryFinally.mp hbody
    · obtain ⟨r, rfl, hreport⟩ := exec_attempt_told hx hatt
      cases ho
      cases a with
      | none =>
        cases hret
      | some run' =>
        simp only [Program.pure_eq, Program.exec_pure] at hret
        obtain ⟨rfl, ho, rfl⟩ := hret
        cases ho
        have hrelease := sends_eq_nil unsending_release hrel
        have hdone := (hreport.append l₄ hrelease).append [] rfl
        exact hdone.prepend [⟨.activeCount _, _⟩, ⟨.setActive _ _, _⟩] ⟨rfl, rfl⟩
    · cases ho

/-- What a call does with its slot: nothing if it is on file, else it reports a new run. -/
theorem exec_slot_told {run : ScheduleRun} (hx : x.scheduled.tzinfo = .utc) (h : Exec x.run s log (.ok run) t) :
    ((s.history.get x.key).isSome ∧ Still log) ∨ (s.history.get x.key = none ∧ Report x s.notifier log (some run)) := by
  simp only [Slot.run, Program.bind_eq, exec_inHistory] at h
  obtain ⟨_, rfl, h⟩ := h
  cases hh : s.history.get x.key with
  | some old =>
    rw [hh, Option.isSome_some, if_pos rfl] at h
    simp only [Code.fromHistory, Program.exec_issue, Scheduler.apply, hh, Program.exec_pure] at h
    obtain ⟨_, _, rfl, rfl, _, _⟩ := h
    exact .inl ⟨rfl, rfl, rfl⟩
  | none =>
    rw [hh, Option.isSome_none, if_neg Bool.false_ne_true] at h
    refine .inr ⟨rfl, ?_⟩
    simp only [exec_isCancelled] at h
    obtain ⟨_, rfl, h⟩ := h
    split at h
    · obtain ⟨rfl, ho, _⟩ := (exec_record_utc hx).mp h
      cases ho
      exact .filed (.inl rfl) rfl untold_of rfl rfl
    · simp only [exec_activeCount] at h
      obtain ⟨_, rfl, h⟩ := h
      split at h
      · obtain ⟨rfl, ho, _⟩ := (exec_record_utc hx).mp h
        cases ho
        exact .filed (.inr rfl) rfl untold_of rfl rfl
      · exact (exec_execute_told hx h).prepend [⟨.inHistory _, _⟩, ⟨.isCancelled _, _⟩, ⟨.activeCount _, _⟩] ⟨rfl, rfl⟩

end Calls

/-- The definition that the call looked up. -/
def definition? (log : Log) : Option ScheduleDefinition :=
  log.findSome? fun
    | ⟨.definition _, r⟩ => r
    | _ => none

/-- The call files a refusal with `status`, for the time `u`. -/
def Refuses (L : Library) (c : Trigger) (s : Scheduler) (d : ScheduleDefinition) (status : ScheduleStatus)
    (u : DateTime) : Prop :=
  s.definitions c.schedule_id = some d ∧
    (∃ message, c.decision L d (s.paused c.schedule_id) = .ok (.refuse status message)) ∧ c.now.astimezone .utc = .ok u

theorem Refuses.unique {L : Library} {c : Trigger} {s : Scheduler} {d d' : ScheduleDefinition}
    {status status' : ScheduleStatus} {u u' : DateTime} (h : Refuses L c s d status u)
    (h' : Refuses L c s d' status' u') : d' = d ∧ status' = status ∧ u' = u := by
  obtain ⟨hd, ⟨message, hdec⟩, hu⟩ := h
  obtain ⟨hd', ⟨message', hdec'⟩, hu'⟩ := h'
  obtain rfl : d' = d := by simpa [hd] using hd'.symm
  obtain ⟨rfl, _⟩ : status' = status ∧ message' = message := by simpa [hdec] using hdec'.symm
  exact ⟨rfl, rfl, by simpa [hu] using hu'.symm⟩

/-- What a call sent and filed, by what it decided. -/
inductive Story (L : Library) (c : Trigger) (s : Scheduler) (log : Log) (o : Except PyError ScheduleRun)
    (t : Scheduler) : Prop
  | raised {e} : (∀ d status u, ¬ Refuses L c s d status u) → o = .error e → Still log → t = s → Story L c s log o t
  | known {d scheduled run} : s.definitions c.schedule_id = some d →
      c.decision L d (s.paused c.schedule_id) = .ok (.slot scheduled) →
      (s.history.get (c.schedule_id ++ ":" ++ scheduled.isoformat)).isSome → o = .ok run → Still log → t = s →
      run.idempotency_key = c.schedule_id ++ ":" ++ scheduled.isoformat → Story L c s log o t
  | refused {d status u run} : definition? log = some d → Refuses L c s d status u → run.status = status → run.Untold → run.idempotency_key = c.schedule_id ++ ":" ++ u.isoformat →
      produced log = some run → sends log = [] → o = .ok run → t = s.file run → Story L c s log o t
  | slot {d started scheduled run} : definition? log = some d → s.definitions c.schedule_id = some d →
      c.decision L d (s.paused c.schedule_id) = .ok (.slot scheduled) →
      s.history.get (c.schedule_id ++ ":" ++ scheduled.isoformat) = none →
      Report ⟨d, c.schedule_id, started, scheduled, c.finding⟩ s.notifier log (some run) → o = .ok run →
      Filed s t (c.schedule_id ++ ":" ++ scheduled.isoformat) run → Story L c s log o t

theorem SlotCase.filed {x : Slot} {s t : Scheduler} {log : Log} {o : Except PyError ScheduleRun}
    (h : SlotCase x s log o t) : ∃ run, o = .ok run ∧
      (((s.history.get x.key).isSome ∧ t = s ∧ run.idempotency_key = x.key) ∨ s.history.get x.key = none ∧ Filed s t x.key run) := by
  cases h with
  | @duplicate run hsome _ ho ht => exact ⟨run, ho, .inl ⟨by rw [hsome]; rfl, ht, s.history.keyed hsome⟩⟩
  | @cancelled run hnone _ _ hrun ho ht => exact ⟨run, ho, .inr ⟨hnone, by rw [ht, hrun]; exact filed_file s _⟩⟩
  | @saturated run hnone _ _ _ hrun ho ht => exact ⟨run, ho, .inr ⟨hnone, by rw [ht, hrun]; exact filed_file s _⟩⟩
  | @executed run hnone _ _ ho hloop => exact ⟨run, ho, .inr ⟨hnone, hloop.filed⟩⟩

theorem exec_trigger_told {L : Library} {c : Trigger} {s t : Scheduler} {log : Log} {o : Except PyError ScheduleRun}
    (hretry : ∀ d, s.definitions c.schedule_id = some d → 0 ≤ d.retry_limit)
    (hact : s.active c.schedule_id ≠ some 0) (h : Exec (c.program L) s log o t) : Story L c s log o t := by
  rw [Trigger.program_eq] at h
  simp only [_require, Program.cmd_bind, Program.exec_issue, Scheduler.apply] at h
  obtain ⟨_, _, rfl, h⟩ := h
  cases hd : s.definitions c.schedule_id with
  | none =>
    simp only [hd, Program.throw_bind, Program.exec_throw] at h
    obtain ⟨rfl, rfl, rfl⟩ := h
    exact .raised (fun _ _ _ h => by simpa [hd] using h.1) rfl ⟨rfl, rfl⟩ rfl
  | some d =>
    simp only [hd, Program.pure_bind, exec_now, exec_isPaused] at h
    obtain ⟨started, _, rfl, rest, rfl, h⟩ := h
    cases hdec : c.decision L d (s.paused c.schedule_id) with
    | error e =>
      simp only [hdec, Program.ofExcept_error, Program.throw_bind, Program.exec_throw] at h
      obtain ⟨rfl, rfl, rfl⟩ := h
      refine .raised (fun d' status u h => ?_) rfl ⟨rfl, rfl⟩ rfl
      obtain ⟨hd', ⟨message, hdec'⟩, -⟩ := h
      simp_all
    | ok dec =>
      simp only [hdec, Program.ofExcept_ok, Program.pure_bind] at h
      cases dec with
      | refuse status message =>
        obtain ⟨e, he, rfl, rfl, rfl⟩ | ⟨u, hu, rfl, rfl, rfl⟩ := exec_record.mp h
        · exact .raised (fun _ _ _ h => by simpa [he] using h.2.2) rfl ⟨rfl, rfl⟩ rfl
        · exact .refused rfl ⟨hd, ⟨message, hdec⟩, hu⟩ rfl untold_of rfl rfl rfl rfl rfl
      | slot z =>
        have hz := d.scheduled_for_utc (decision_slot hdec).2
        obtain ⟨run, rfl, hcase⟩ := (exec_slot hz (hretry d hd) hact h).filed
        obtain ⟨hsome, hstill⟩ | ⟨hnone, hreport⟩ := exec_slot_told hz h
        · obtain ⟨_, rfl, hkey⟩ | ⟨hno, _⟩ := hcase
          · exact .known hd hdec hsome rfl hstill rfl hkey
          · rw [hno] at hsome
            cases hsome
        · obtain ⟨hsome, _⟩ | ⟨_, hfiled⟩ := hcase
          · rw [hnone] at hsome
            cases hsome
          · exact .slot rfl hd hdec hnone
              (hreport.prepend [⟨.definition _, _⟩, ⟨.now, _⟩, ⟨.isPaused _, _⟩] ⟨rfl, rfl⟩) rfl hfiled

/-- A run the channel is to hear of. -/
def Wanted (d : ScheduleDefinition) (run : ScheduleRun) (finding : Bool) : Prop :=
  run.status = .failed ∨ run.status = .blocked ∨
    (run.status = .succeeded ∧
      (d.notify_only_if = "always" ∨ (finding = true ∧ d.notify_only_if = "finding_or_failure")))

theorem Accepted.setting {L : Library} {d : ScheduleDefinition} (h : Accepted L d) :
    d.notify_only_if = "always" ∨ d.notify_only_if = "finding_or_failure" ∨ d.notify_only_if = "failure" := by
  obtain ⟨t, h⟩ := h
  unfold Scheduler.register at h
  split at h
  · cases h
  split at h
  · cases h
  split at h
  · cases h
  · rename_i hmem
    simpa only [List.mem_cons, List.not_mem_nil, or_false, not_not] using hmem

theorem shouldNotify_iff {L : Library} {d : ScheduleDefinition} {run : ScheduleRun} {finding : Bool} (h : Accepted L d)
    (hstatus : run.status = .succeeded ∨ run.status = .failed) :
    shouldNotify d run finding = true ↔ Wanted d run finding := by
  obtain hset | hset | hset := h.setting <;> obtain hst | hst := hstatus <;>
    simp [shouldNotify, Wanted, ScheduleRun.isFailure, hset, hst]

/-- The sink heard of the run that the call produced if and only if it should. -/
inductive Heard (notifier : Bool) (d : ScheduleDefinition) (finding : Bool) (first : ScheduleRun) (log : Log)
    (o : Except PyError ScheduleRun) : Prop
  | sent {channel error} : notifier = true → d.notify_channel = some channel → Wanted d first finding →
      sends log = [⟨channel, d, first, error⟩] → o = .ok (first.told error) → Heard notifier d finding first log o
  | unsent : (∀ channel, notifier = true → d.notify_channel = some channel → ¬ Wanted d first finding) →
      sends log = [] → o = .ok first → Heard notifier d finding first log o

/-- A call tells the sink of the run it produced, and of no other. -/
structure CallExact (notifier : Bool) (c : Trigger) (log : Log) (o : Except PyError ScheduleRun) : Prop where
  heard : ∀ first, produced log = some first → first.Untold ∧
    ∃ d, definition? log = some d ∧ Heard notifier d c.finding first log o
  silent : produced log = none → sends log = []

def Event.Exact (notifier : Bool) : Event → Prop
  | .managed _ _ => True
  | .triggered c log o => CallExact notifier c log o

def Event.sent : Event → List Notice
  | .managed _ _ => []
  | .triggered _ log _ => sends log

/-- What the sink was called with so far. -/
def sent (es : List Event) : List Notice := es.flatMap Event.sent

@[simp] theorem sent_snoc (es : List Event) (e : Event) : sent (es ++ [e]) = sent es ++ e.sent := by
  simp [sent]

/-- The run that a call returned. -/
def Event.returned : Event → Option ScheduleRun
  | .triggered _ _ (.ok run) => some run
  | _ => none

/-- The notifications of a history: each call exact, nothing sent for a key that was returned before,
and every record as the sink left it. -/
structure Exact (notifier : Bool) (es : List Event) (s : Scheduler) : Prop where
  calls : ∀ e ∈ es, e.Exact notifier
  repeated : es.Pairwise fun e e' => ∀ run run', e.returned = some run → e'.returned = some run' →
    run'.idempotency_key = run.idempotency_key → e'.sent = []
  stored : ∀ n ∈ sent es, s.history.get n.run.idempotency_key = some (n.run.told n.error)

/-- The refusals that keep notifications exact: none as blocked that a channel should hear of, and
none under the key of a run that a channel heard of. -/
def Keeps (L : Library) (s : Scheduler) : Op → Prop
  | .trigger c _ => ∀ d status u, Refuses L c s d status u →
      (status = .blocked → ¬ (s.notifier = true ∧ d.notify_channel.isSome)) ∧
        ∀ run, s.history.get (c.schedule_id ++ ":" ++ u.isoformat) = some run → run.Untold
  | _ => True

section Exact

variable {L : Library} {notifier : Bool} {x : Slot} {c : Trigger} {s t : Scheduler} {log : Log}
  {o : Except PyError ScheduleRun} {es : List Event} {e : Event}

theorem not_untold_told (run : ScheduleRun) (error : Option String) : ¬ (run.told error).Untold := by
  rintro ⟨hsent, herror⟩
  cases error with
  | none => exact Bool.false_ne_true hsent.symm
  | some name => cases herror

theorem told_key (run : ScheduleRun) (error : Option String) :
    (run.told error).idempotency_key = run.idempotency_key := by
  cases error <;> rfl

theorem Heard.key {d : ScheduleDefinition} {finding : Bool} {first run : ScheduleRun}
    (h : Heard notifier d finding first log (.ok run)) : run.idempotency_key = first.idempotency_key := by
  cases h with
  | sent _ _ _ _ ho =>
    cases ho
    exact told_key ..
  | unsent _ _ ho =>
    cases ho
    rfl

/-- A report is of a run that is heard of as it should be. -/
theorem Report.heard {run : ScheduleRun} (hacc : Accepted L x.definition) (h : Report x notifier log (some run)) :
    ∃ first, produced log = some first ∧ first.Untold ∧ first.idempotency_key = x.key ∧
      Heard notifier x.definition x.finding first log (.ok run) := by
  cases h with
  | filed hstatus hkey huntold hsends hproduced =>
    refine ⟨run, hproduced, huntold, hkey, .unsent (fun _ _ _ hwanted => ?_) hsends rfl⟩
    obtain hstatus | hstatus := hstatus <;> simp [Wanted, hstatus] at hwanted
  | @ended first _ finding hstatus hkey hproduced htold =>
    refine ⟨first, hproduced, htold.untold, hkey, ?_⟩
    have hshould : shouldNotify x.definition first finding = true ↔ Wanted x.definition first x.finding := by
      obtain ⟨hst, rfl⟩ | ⟨hst, rfl⟩ := hstatus
      · exact shouldNotify_iff hacc (.inl hst)
      · exact (shouldNotify_iff hacc (.inr hst)).trans (by simp [Wanted, hst])
    by_cases hheard : ∃ channel, notifier = true ∧ x.definition.notify_channel = some channel ∧
        shouldNotify x.definition first finding = true
    · obtain ⟨channel, hnotifier, hchannel, hyes⟩ := hheard
      obtain ⟨error, hsends, rfl⟩ := htold.sent channel hnotifier hchannel hyes
      exact .sent hnotifier hchannel (hshould.mp hyes) hsends rfl
    · obtain ⟨hsends, rfl⟩ := htold.unsent fun channel hnotifier hchannel =>
        Bool.eq_false_iff.mpr fun hyes => hheard ⟨channel, hnotifier, hchannel, hyes⟩
      exact .unsent (fun channel hn hc hw => hheard ⟨channel, hn, hc, hshould.mpr hw⟩) hsends rfl

theorem decision_refuse {d : ScheduleDefinition} {p : Bool} {status : ScheduleStatus} {message : String}
    (h : c.decision L d p = .ok (.refuse status message)) : status ≠ .succeeded ∧ status ≠ .failed := by
  unfold Trigger.decision at h
  split at h
  · cases h
    simp
  split at h
  · cases h
    simp
  split at h
  · cases h
  · cases h
    simp
  split at h
  · cases h
  · cases h
    simp
  · cases h

theorem Refuses.wanted {d d' : ScheduleDefinition} {status : ScheduleStatus} {u : DateTime} {run : ScheduleRun}
    {finding : Bool} (h : Refuses L c s d status u) (hrun : run.status = status) :
    Wanted d' run finding ↔ status = .blocked := by
  obtain ⟨_, ⟨_, hdec⟩, _⟩ := h
  obtain ⟨hsucceeded, hfailed⟩ := decision_refuse hdec
  simp [Wanted, hrun, hsucceeded, hfailed]

theorem Still.callExact (h : Still log) : CallExact notifier c log o := by
  refine ⟨fun first hfirst => ?_, fun _ => h.1⟩
  rw [produced, h.2] at hfirst
  cases hfirst

/-- What is on file: every run that was returned, and no notification that was not made. -/
structure Books (notifier : Bool) (es : List Event) (s : Scheduler) : Prop where
  notifier : s.notifier = notifier
  filed : ∀ e ∈ es, ∀ run, e.returned = some run → (s.history.get run.idempotency_key).isSome
  told : ∀ k run, s.history.get k = some run → run.Untold ∨ ∃ n ∈ sent es, n.run.idempotency_key = k

/-- A step that leaves the history alone and says nothing. -/
theorem Books.still (h : Books notifier es s) (hn : t.notifier = s.notifier) (ht : t.history = s.history)
    (he : ∀ run, e.returned = some run → (s.history.get run.idempotency_key).isSome) :
    Books notifier (es ++ [e]) t := by
  refine ⟨hn.trans h.notifier, ?_, ?_⟩
  · intro e' he' run hrun
    rw [ht]
    obtain he' | he' := List.mem_append.mp he'
    · exact h.filed e' he' run hrun
    · exact he run (List.mem_singleton.mp he' ▸ hrun)
  · intro k run hk
    rw [ht] at hk
    refine (h.told k run hk).imp_right fun ⟨n, hn, hkey⟩ => ⟨n, ?_, hkey⟩
    simp [hn]

theorem Books.put {key : String} {run : ScheduleRun} (h : Books notifier es s) (hf : Filed s t key run)
    (he : e.returned = some run) (htold : run.Untold ∨ ∃ n ∈ e.sent, n.run.idempotency_key = key) :
    Books notifier (es ++ [e]) t := by
  refine ⟨hf.frame.notifier.trans h.notifier, ?_, ?_⟩
  · intro e' he' run' hrun'
    rw [hf.history, Function.update_apply]
    split
    · rfl
    · rename_i hne
      obtain he' | he' := List.mem_append.mp he'
      · exact h.filed e' he' run' hrun'
      · rw [List.mem_singleton.mp he', he] at hrun'
        cases hrun'
        exact absurd hf.own hne
  · intro k run' hk
    rw [hf.history, Function.update_apply] at hk
    split at hk
    · rename_i hkey
      cases hk
      refine htold.imp_right fun ⟨n, hn, hnkey⟩ => ⟨n, ?_, hnkey.trans hkey.symm⟩
      simp [hn]
    · refine (h.told k run' hk).imp_right fun ⟨n, hn, hkey⟩ => ⟨n, ?_, hkey⟩
      simp [hn]

theorem exact_snoc : Exact notifier (es ++ [e]) t ↔ (∀ x ∈ es, x.Exact notifier) ∧ e.Exact notifier ∧
    (es.Pairwise fun e e' => ∀ run run', e.returned = some run → e'.returned = some run' →
      run'.idempotency_key = run.idempotency_key → e'.sent = []) ∧
    (∀ x ∈ es, ∀ run run', x.returned = some run → e.returned = some run' →
      run'.idempotency_key = run.idempotency_key → e.sent = []) ∧
    (∀ n ∈ sent es, t.history.get n.run.idempotency_key = some (n.run.told n.error)) ∧
    ∀ n ∈ e.sent, t.history.get n.run.idempotency_key = some (n.run.told n.error) := by
  constructor
  · rintro ⟨hcalls, hrepeated, hstored⟩
    simp only [sent_snoc, List.mem_append, List.mem_singleton, or_imp, forall_and, forall_eq] at hcalls hstored
    obtain ⟨hpast, _, hnow⟩ := List.pairwise_append.mp hrepeated
    exact ⟨hcalls.1, hcalls.2, hpast, fun x hx => hnow x hx e (List.mem_singleton_self e), hstored.1, hstored.2⟩
  · rintro ⟨hcalls, he, hpast, hnow, hstored, hlast⟩
    refine ⟨?_, List.pairwise_append.mpr ⟨hpast, List.pairwise_singleton .., ?_⟩, ?_⟩
    · simpa [or_imp, forall_and] using ⟨hcalls, he⟩
    · intro x hx e' he'
      rw [List.mem_singleton.mp he']
      exact hnow x hx
    · simpa [or_imp, forall_and] using ⟨hstored, hlast⟩

theorem Exact.still (h : Exact notifier es s) (ht : t.history = s.history) (he : e.Exact notifier)
    (hsent : e.sent = []) : Exact notifier (es ++ [e]) t := by
  refine exact_snoc.mpr ⟨h.calls, he, h.repeated, fun _ _ _ _ _ _ _ => hsent, ?_, ?_⟩
  · rw [ht]
    exact h.stored
  · simp [hsent]

/-- What an exact call sent is under the key of the run it returned. -/
theorem Heard.sends_key {d : ScheduleDefinition} {finding : Bool} {first run : ScheduleRun} {n : Notice}
    (h : Heard notifier d finding first log (.ok run)) (hn : n ∈ sends log) : n.run = first ∧ run = n.run.told n.error := by
  cases h with
  | sent _ _ _ hsends ho =>
    rw [hsends, List.mem_singleton] at hn
    cases ho
    exact ⟨by rw [hn], by rw [hn]⟩
  | unsent _ hsends =>
    rw [hsends] at hn
    cases hn

theorem Story.books (hacc : ∀ {i d}, s.definitions i = some d → Accepted L d) (hstory : Story L c s log o t)
    (h : Books notifier es s) : Books notifier (es ++ [.triggered c log o]) t := by
  cases hstory with
  | raised _ ho _ ht => exact h.still (by rw [ht]) (by rw [ht]) (by simp [Event.returned, ho])
  | @known d scheduled run hd hdec hsome ho _ ht hkey =>
    refine h.still (by rw [ht]) (by rw [ht]) fun run' hrun' => ?_
    rw [ho] at hrun'
    cases hrun'
    rw [hkey]
    exact hsome
  | @refused d status u run _ _ _ huntold _ _ _ ho ht =>
    exact h.put (ht ▸ filed_file s run) (by rw [ho]; rfl) (.inl huntold)
  | slot _ hd _ _ hreport ho hfiled =>
    obtain ⟨first, _, huntold, hkey, hheard⟩ := hreport.heard (hacc hd)
    refine h.put hfiled (by rw [ho]; rfl) ?_
    cases hheard with
    | @sent channel error _ _ _ hsends => exact .inr ⟨_, by rw [Event.sent, hsends]; exact List.mem_singleton_self _, hkey⟩
    | unsent _ _ hrun =>
      cases hrun
      exact .inl huntold

theorem keeps_of_slot {ω : Nat → Choice} {d : ScheduleDefinition} {z : DateTime}
    (hd : s.definitions c.schedule_id = some d)
    (hdec : c.decision L d (s.paused c.schedule_id) = .ok (.slot z)) : Keeps L s (.trigger c ω) := by
  rintro d' status u ⟨hd', ⟨_, hdec'⟩, _⟩
  rw [hd] at hd'
  cases hd'
  rw [hdec] at hdec'
  cases hdec'

/-- A call is exact if and only if it is no refusal that a channel misses. -/
theorem Story.exact_iff {ω : Nat → Choice} (hacc : ∀ {i d}, s.definitions i = some d → Accepted L d)
    (hstory : Story L c s log o t) (hb : Books notifier es s) (h : Exact notifier es s) :
    Exact notifier (es ++ [.triggered c log o]) t ↔ Keeps L s (.trigger c ω) := by
  cases hstory with
  | raised hno _ hstill ht =>
    refine iff_of_true (h.still (by rw [ht]) hstill.callExact hstill.1) ?_
    intro d status u href
    exact absurd href (hno d status u)
  | known hd hdec _ _ hstill ht =>
    exact iff_of_true (h.still (by rw [ht]) hstill.callExact hstill.1) (keeps_of_slot hd hdec)
  | @refused d status u run hlook href hstatus huntold hkey hproduced hsends ho ht =>
    have hcall : CallExact notifier c log o ↔ (status = .blocked → ¬ (s.notifier = true ∧ d.notify_channel.isSome)) := by
      rw [hb.notifier]
      constructor
      · rintro hexact hblocked ⟨hnotifier, hchannel⟩
        obtain ⟨channel, hchannel⟩ := Option.isSome_iff_exists.mp hchannel
        obtain ⟨_, d', hd', hheard⟩ := hexact.heard run hproduced
        rw [hlook] at hd'
        cases hd'
        cases hheard with
        | sent _ _ _ hsent => simp [hsends] at hsent
        | unsent hno => exact hno channel hnotifier hchannel ((href.wanted hstatus).mpr hblocked)
      · intro hmiss
        refine ⟨fun first hfirst => ?_, fun _ => hsends⟩
        rw [hproduced] at hfirst
        cases hfirst
        refine ⟨huntold, d, hlook, .unsent (fun channel hn hc hw => ?_) hsends ho⟩
        exact hmiss ((href.wanted hstatus).mp hw) ⟨hn, by rw [hc]; rfl⟩
    have hstored : (∀ n ∈ sent es, t.history.get n.run.idempotency_key = some (n.run.told n.error)) ↔
        ∀ old, s.history.get (c.schedule_id ++ ":" ++ u.isoformat) = some old → old.Untold := by
      rw [← hkey, ht]
      constructor
      · intro hstored old hold
        obtain huntold' | ⟨n, hn, hnkey⟩ := hb.told _ old hold
        · exact huntold'
        · have hget := hstored n hn
          rw [hnkey, Scheduler.file, History.put_get, if_pos rfl] at hget
          cases hget
          exact absurd huntold (not_untold_told _ _)
      · intro hold n hn
        have hget := h.stored n hn
        rw [Scheduler.file, History.put_get]
        split
        · rename_i hnkey
          rw [hnkey] at hget
          exact absurd (hold _ hget) (not_untold_told _ _)
        · exact hget
    rw [exact_snoc]
    constructor
    · rintro ⟨_, he, _, _, hpast, _⟩ d' status' u' href'
      obtain ⟨rfl, rfl, rfl⟩ := href.unique href'
      exact ⟨hcall.mp he, hstored.mp hpast⟩
    · intro hkeeps
      obtain ⟨hmiss, hold⟩ := hkeeps d status u href
      refine ⟨h.calls, hcall.mpr hmiss, h.repeated, fun _ _ _ _ _ _ _ => hsends, hstored.mpr hold, ?_⟩
      simp [Event.sent, hsends]
  | @slot d started scheduled run hlook hd hdec hnone hreport ho hfiled =>
    obtain ⟨first, hproduced, huntold, hkey, hheard⟩ := hreport.heard (hacc hd)
    refine iff_of_true (exact_snoc.mpr ⟨h.calls, ?_, h.repeated, ?_, ?_, ?_⟩) (keeps_of_slot hd hdec)
    · refine ⟨fun first' hfirst => ?_, fun hno => ?_⟩
      · rw [hproduced] at hfirst
        cases hfirst
        rw [← hb.notifier, ho]
        exact ⟨huntold, d, hlook, hheard⟩
      · rw [hproduced] at hno
        cases hno
    · intro e he old run' hold hrun' hsame
      rw [ho] at hrun'
      cases hrun'
      have hsome := hb.filed e he old hold
      rw [← hsame, hfiled.own, hnone] at hsome
      cases hsome
    · intro n hn
      have hget := h.stored n hn
      rw [hfiled.history, Function.update_apply]
      split
      · rename_i hnkey
        rw [hnkey, hnone] at hget
        cases hget
      · exact hget
    · intro n hn
      obtain ⟨rfl, rfl⟩ := hheard.sends_key hn
      rw [hfiled.history, hkey]
      exact Function.update_self ..

/-- A management call changes neither the history nor the sink. -/
theorem settle_still (op : Op) {r : Except PyError Scheduler}
    (h : ∀ {t}, r = .ok t → t.notifier = s.notifier ∧ t.history = s.history) :
    ∃ error, settle s op r = ((settle s op r).1, .managed op error) ∧ (settle s op r).1.notifier = s.notifier ∧
      (settle s op r).1.history = s.history := by
  cases r with
  | error e => exact ⟨some e, rfl, rfl, rfl⟩
  | ok t => exact ⟨none, rfl, h rfl⟩

theorem register_still {d : ScheduleDefinition} (h : s.register L d = .ok t) :
    t.notifier = s.notifier ∧ t.history = s.history := by
  obtain ⟨_, _, rfl⟩ := register_ok h
  exact ⟨rfl, rfl⟩

theorem pause_still {i : String} (h : s.pause i = .ok t) : t.notifier = s.notifier ∧ t.history = s.history := by
  obtain ⟨_, _, h⟩ := bind_ok h
  cases h
  exact ⟨rfl, rfl⟩

theorem resume_still {i : String} (h : s.resume i = .ok t) : t.notifier = s.notifier ∧ t.history = s.history := by
  obtain ⟨_, _, h⟩ := bind_ok h
  cases h
  exact ⟨rfl, rfl⟩

theorem cancel_still {k : String} (h : s.cancel k = .ok t) : t.notifier = s.notifier ∧ t.history = s.history := by
  unfold Scheduler.cancel at h
  split at h
  · cases h
    exact ⟨rfl, rfl⟩
  · cases h

/-- What a step does to the notifications. -/
theorem step_exact {G : Scheduler → Op → Prop} {op : Op} (hr : (machine L).Run G (.init notifier) es s)
    (hs : (machine L).step s op = some (t, e)) (hb : Books notifier es s) :
    Books notifier (es ++ [e]) t ∧ (Exact notifier es s → (Exact notifier (es ++ [e]) t ↔ Keeps L s op)) := by
  have managed : ∀ {op r}, (∀ {t}, r = .ok t → t.notifier = s.notifier ∧ t.history = s.history) →
      settle s op r = (t, e) →
      Books notifier (es ++ [e]) t ∧ (Exact notifier es s → Exact notifier (es ++ [e]) t) := by
    intro op r hstill hset
    obtain ⟨error, heq, hnotifier, hhistory⟩ := settle_still op hstill
    rw [hset] at heq hnotifier hhistory
    cases heq
    exact ⟨hb.still hnotifier hhistory (by simp [Event.returned]), fun h => h.still hhistory trivial rfl⟩
  have hstep : step L s op = (t, e) := by simpa [machine] using hs
  cases op with
  | register d =>
    obtain ⟨hbooks, hexact⟩ := managed register_still hstep
    exact ⟨hbooks, fun h => iff_of_true (hexact h) trivial⟩
  | pause i =>
    obtain ⟨hbooks, hexact⟩ := managed pause_still hstep
    exact ⟨hbooks, fun h => iff_of_true (hexact h) trivial⟩
  | resume i =>
    obtain ⟨hbooks, hexact⟩ := managed resume_still hstep
    exact ⟨hbooks, fun h => iff_of_true (hexact h) trivial⟩
  | cancel k =>
    obtain ⟨hbooks, hexact⟩ := managed cancel_still hstep
    exact ⟨hbooks, fun h => iff_of_true (hexact h) trivial⟩
  | trigger c ω =>
    cases hstep
    have inv := inv_of_run hr
    have hstory := exec_trigger_told (L := L) (c := c) (fun _ hd => (inv.valid hd).2.1) (by simp [inv.idle])
      (Program.exec_of_run Scheduler.apply _ ω s)
    exact ⟨hstory.books (accepted_of_run hr) hb, hstory.exact_iff (accepted_of_run hr) hb⟩

theorem books_of_run {G : Scheduler → Op → Prop} (hr : (machine L).Run G (.init notifier) es s) :
    Books notifier es s := by
  refine hr.invariant (I := Books notifier) ⟨rfl, by simp, by simp [Scheduler.init, History.empty]⟩ ?_
  intro es s op t e hr _ hs hb
  exact (step_exact hr hs hb).1

/-- Notifications are exact in every history all of whose refusals keep them so, and the first
refusal that does not makes them inexact. -/
theorem notifications_exact : (∀ es s, (machine L).Run (Keeps L) (.init notifier) es s → Exact notifier es s) ∧
    ∀ es s op t e, (machine L).Run (Keeps L) (.init notifier) es s → (machine L).step s op = some (t, e) →
      (Exact notifier (es ++ [e]) t ↔ Keeps L s op) := by
  have hexact : ∀ es s, (machine L).Run (Keeps L) (.init notifier) es s → Exact notifier es s := by
    intro es s hr
    refine hr.invariant (I := Exact notifier) ⟨by simp, .nil, by simp [sent]⟩ ?_
    intro es s op t e hr hg hs h
    exact ((step_exact hr hs (books_of_run hr)).2 h).mpr hg
  refine ⟨hexact, fun es s op t e hr hs => ?_⟩
  exact (step_exact hr hs (books_of_run hr)).2 (hexact es s hr)

end Exact

/-- A schedule with a channel that is to hear of findings and failures. -/
def heardDefinition : ScheduleDefinition :=
  { sampleDefinition with notify_only_if := "finding_or_failure", notify_channel := some "ops" }

/-- The first two executor calls raise, and so does the sink. -/
def unheard (n : Nat) : Choice := { flaky n with sink := some "SmtpError" }

/-- The sink raises on the run that the second retry saved, and is not called again. -/
theorem notifications_exact_sample : ∃ s es, (machine utcLibrary).Run (Keeps utcLibrary) (.init true) es s ∧
    (sent es).map (fun n => (n.channel, n.run.attempts, n.error)) = [("ops", 3, some "SmtpError")] ∧ es.length = 3 ∧
    Exact true es s := by
  have h : ∃ s es, (machine utcLibrary).Run (Keeps utcLibrary) (.init true) es s ∧
      (sent es).map (fun n => (n.channel, n.run.attempts, n.error)) = [("ops", 3, some "SmtpError")] ∧ es.length = 3 := by
    refine ⟨_, _, .snoc (.snoc (.snoc .nil (a := .register heardDefinition) ?_ rfl)
      (a := .trigger ⟨"nightly", sampleNow, false, true⟩ unheard) ?_ rfl)
      (a := .trigger ⟨"nightly", sampleNow, false, true⟩ unheard) ?_ rfl, ?_, ?_⟩
    · trivial
    · exact keeps_of_slot rfl rfl
    · exact keeps_of_slot rfl rfl
    · rfl
    · rfl
  obtain ⟨s, es, hr, hsent, hlen⟩ := h
  exact ⟨s, es, hr, hsent, hlen, notifications_exact.1 es s hr⟩

/-- A schedule that writes, with a channel that is to hear of failures. -/
def writingDefinition : ScheduleDefinition :=
  { sampleDefinition with permissions_mode := "write", notify_only_if := "failure", notify_channel := some "ops" }

/-- A write without approval is filed as blocked, and the sink is not called. -/
theorem blocked_unheard : ∃ s es, (machine utcLibrary).exec Machine.Free (.init true)
      [.register writingDefinition, .trigger ⟨"nightly", sampleNow, false, false⟩ flaky] = some (s, es) ∧
    ∃ c log run, es[1]? = some (.triggered c log (.ok run)) ∧ definition? log = some writingDefinition ∧
      run.status = .blocked ∧ produced log = some run ∧ sends log = [] ∧ ¬ Exact true es s := by
  refine ⟨_, _, rfl, _, _, _, rfl, rfl, rfl, rfl, rfl, fun h => ?_⟩
  obtain ⟨_, d, hd, hheard⟩ := (h.calls _ (List.mem_of_getElem? (i := 1) rfl)).heard _ rfl
  cases hd
  cases hheard with
  | sent _ _ _ hsent => cases hsent
  | unsent hno => exact hno "ops" rfl rfl (.inr (.inl rfl))

end EnterpriseCopilot.Schedule
