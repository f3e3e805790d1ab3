import EnterpriseCopilot.Schedule.Runs

/-! Refused calls and the slots they may get in the way of.  A refusal is filed
under a key made from `now`, which can be the key of a slot. -/

namespace EnterpriseCopilot.Schedule

open EnterpriseCopilot.Lib EnterpriseCopilot.Python

/-- The executor calls with the key. -/
def executorLog (key : String) (log : Log) : Log :=
  log.filter fun
    | ⟨.enter _ k, _⟩ => k = key
    | ⟨.leave _ k, _⟩ => k = key
    | _ => false

def Event.executorLog (key : String) : Event → Log
  | .managed _ _ => []
  | .triggered _ log _ => Schedule.executorLog key log

/-- The events of a sequence of calls. -/
def follow (L : Library) : Scheduler → List Op → List Event
  | _, [] => []
  | s, op :: ops => (step L s op).2 :: follow L (step L s op).1 ops

def Op.isRegister : Op → Bool
  | .register _ => true
  | _ => false

/-- Whatever is called from now on, the executor is used for the slot in the same
way from both states.  Definitions stay as they are. -/
def SameFuture (L : Library) (s t : Scheduler) (key : String) : Prop :=
  ∀ ops : List Op, (∀ op ∈ ops, op.isRegister = false) →
    (follow L s ops).map (Event.executorLog key) = (follow L t ops).map (Event.executorLog key)

/-- The recorded outcome of a run. -/
def ScheduleRun.outcome (run : ScheduleRun) : ScheduleStatus × Nat × String :=
  (run.status, run.attempts, run.message)

/-- The call that led from `s` to `t` disturbs no slot. -/
structure Inert (L : Library) (es : List Event) (s t : Scheduler) : Prop where
  recorded : ∀ key, Executed es key →
    (t.history.get key).map ScheduleRun.outcome = (s.history.get key).map ScheduleRun.outcome
  future : ∀ key, ¬ Executed es key → SameFuture L s t key

theorem executorLog_of_silent (h : Silent log) : executorLog key log = [] := by
  rw [executorLog, List.filter_eq_nil_iff]
  rintro ⟨c, r⟩ hc
  have hent := List.filterMap_eq_nil_iff.mp h.1 _ hc
  have hout := List.filterMap_eq_nil_iff.mp h.2 _ hc
  cases c <;> simp_all

theorem executorLog_ne_nil (h : key ∈ enters log) : executorLog key log ≠ [] := by
  obtain ⟨⟨c, r⟩, hc, hk⟩ := List.mem_filterMap.mp h
  intro hnil
  have := List.filter_eq_nil_iff.mp hnil _ hc
  cases c <;> simp_all

section Simulation

variable {L : Library} {k₀ : String}

/-- The states differ at most in what is filed under `k₀`. -/
structure Apart (k₀ : String) (s t : Scheduler) : Prop where
  definitions : t.definitions = s.definitions
  paused : t.paused = s.paused
  active : t.active = s.active
  cancelled : t.cancelled = s.cancelled
  notifier : t.notifier = s.notifier
  history : ∀ k, k ≠ k₀ → t.history.get k = s.history.get k

/-- The command does not look up `k₀` in the history. -/
def Blind (k₀ : String) (c : Cmd) : Prop := c ≠ .inHistory k₀ ∧ c ≠ .fromHistory k₀

theorem Apart.file (h : Apart k₀ s t) (run : ScheduleRun) : Apart k₀ (s.file run) (t.file run) := by
  refine ⟨h.definitions, h.paused, h.active, h.cancelled, h.notifier, fun k hk => ?_⟩
  simp only [Scheduler.file, History.put_get]
  split
  · rfl
  · exact h.history k hk

theorem Apart.apply (s t : Scheduler) (c : Cmd) (ch : Choice) (h : Apart k₀ s t)
    (hc : Blind k₀ c) : (s.apply c ch).1 = (t.apply c ch).1 ∧
      Apart k₀ (s.apply c ch).2 (t.apply c ch).2 := by
  cases c with
  | inHistory k =>
    have hk : k ≠ k₀ := fun hk => hc.1 (by rw [hk])
    exact ⟨by simp [Scheduler.apply, h.history k hk], h⟩
  | fromHistory k =>
    have hk : k ≠ k₀ := fun hk => hc.2 (by rw [hk])
    exact ⟨by simp [Scheduler.apply, h.history k hk], h⟩
  | record run => exact ⟨rfl, h.file run⟩
  | setActive i n =>
    exact ⟨rfl, h.definitions, h.paused, by simp [Scheduler.apply, Scheduler.setCount, h.active],
      h.cancelled, h.notifier, h.history⟩
  | delActive i =>
    exact ⟨by simp [Scheduler.apply, h.active], h.definitions, h.paused,
      by simp [Scheduler.apply, Scheduler.setCount, h.active], h.cancelled, h.notifier, h.history⟩
  | leave d k =>
    exact ⟨rfl, h.definitions, h.paused, h.active,
      by simp [Scheduler.apply, Scheduler.cancelAll, h.cancelled], h.notifier, h.history⟩
  | definition i => exact ⟨by simp [Scheduler.apply, h.definitions], h⟩
  | isPaused i => exact ⟨by simp [Scheduler.apply, h.paused], h⟩
  | isCancelled k => exact ⟨by simp [Scheduler.apply, h.cancelled], h⟩
  | activeCount i => exact ⟨by simp [Scheduler.apply, h.active], h⟩
  | getActive i => exact ⟨by simp [Scheduler.apply, h.active], h⟩
  | hasNotifier => exact ⟨by simp [Scheduler.apply, h.notifier], h⟩
  | now => exact ⟨rfl, h⟩
  | enter d k => exact ⟨rfl, h⟩
  | send ch d run => exact ⟨rfl, h⟩

theorem blind_record {i st a b n m z} :
    Program.All (Blind k₀) (_record i st a b n m z) :=
  (Program.all_ofExcept _).bind fun u => ⟨by simp [Blind], fun _ => trivial⟩

theorem blind_notify {d run f} : Program.All (Blind k₀) (_notify d run f) := by
  refine ⟨by simp [Blind], fun notifier => ?_⟩
  simp only [Program.bind_eq, Program.pure_bind]
  split
  · split
    · exact ⟨by simp [Blind], fun _ => ⟨by simp [Blind], fun _ => trivial⟩⟩
    · trivial
  · trivial

theorem blind_succeed {x : Slot} {n : Nat} : Program.All (Blind k₀) (x.succeed n) := by
  refine Program.All.bind ?_ fun m => ⟨by simp [Blind], fun z => blind_record.bind fun run =>
    blind_notify⟩
  refine ⟨by simp [Blind], fun _ => ⟨by simp [Blind], fun r => ?_⟩⟩
  cases r <;> trivial

theorem blind_giveUp {x : Slot} {n : Nat} : Program.All (Blind k₀) (x.giveUp n) := by
  unfold Slot.giveUp
  split
  · exact ⟨by simp [Blind], fun z => blind_record.bind fun run =>
      blind_notify.bind fun _ => trivial⟩
  · trivial

theorem blind_attempt {x : Slot} : ∀ left n, Program.All (Blind k₀) (x.attempt left n) := by
  intro left
  induction left with
  | zero => intro n; trivial
  | succ left ih =>
    intro n
    refine ⟨by simp [Blind], fun c => ?_⟩
    simp only [Program.bind_eq, Program.pure_bind]
    split
    · exact ⟨by simp [Blind], fun z => blind_record.bind fun _ => trivial⟩
    · have hs : Program.All (Blind k₀) (some <$> x.succeed (n + 1)) :=
        Program.All.bind blind_succeed fun _ => trivial
      refine (hs.tryCatch fun _ => blind_giveUp).bind fun r => ?_
      cases r with
      | some run => trivial
      | none => exact ih (n + 1)

theorem blind_release {x : Slot} : Program.All (Blind k₀) x.release := by
  have hget : Program.All (Blind k₀) (Code.getActive x.schedule_id) :=
    ⟨by simp [Blind], fun r => by cases r <;> trivial⟩
  refine hget.bind fun n => ⟨by simp [Blind], fun _ => hget.bind fun m => ?_⟩
  split
  · exact ⟨by simp [Blind], fun r => by cases r <;> trivial⟩
  · trivial

theorem blind_slot {x : Slot} (hx : x.key ≠ k₀) : Program.All (Blind k₀) x.run := by
  refine ⟨by simpa [Blind] using hx, fun h => ?_⟩
  simp only [Program.bind_eq, Program.pure_bind]
  split
  · exact ⟨by simpa [Blind] using hx, fun r => by cases r <;> trivial⟩
  refine ⟨by simp [Blind], fun c => ?_⟩
  simp only [Program.pure_bind]
  split
  · exact blind_record
  refine ⟨by simp [Blind], fun a => ?_⟩
  simp only [Program.pure_bind]
  split
  · exact blind_record
  refine ⟨by simp [Blind], fun n => ⟨by simp [Blind], fun _ =>
    ((blind_attempt _ _).tryFinally blind_release).bind fun r => ?_⟩⟩
  cases r <;> trivial

/-- No call will execute the slot `k₀` any more. -/
def Dead (L : Library) (k₀ : String) (s : Scheduler) : Prop :=
  (s.history.get k₀).isSome ∨ s.cancelled k₀ ∨
    ∀ (c : Trigger) d p z, s.definitions c.schedule_id = some d →
      c.decision L d p = .ok (.slot z) → c.schedule_id ++ ":" ++ z.isoformat ≠ k₀

/-- Calls whose slot is not `k₀` run in the same way from both states. -/
theorem Apart.lockstep (h : Apart k₀ s t) {c : Trigger} {ω : Nat → Choice}
    (hc : ∀ d z, s.definitions c.schedule_id = some d →
      c.decision L d (s.paused c.schedule_id) = .ok (.slot z) →
      c.schedule_id ++ ":" ++ z.isoformat ≠ k₀) :
    (c.run L ω s).log = (c.run L ω t).log ∧
      Apart k₀ (c.run L ω s).state (c.run L ω t).state := by
  simp only [Trigger.run, Trigger.program_eq, _require, Program.cmd_bind, Program.run_issue,
    Scheduler.apply, h.definitions]
  cases hd : s.definitions c.schedule_id with
  | none => exact ⟨rfl, h⟩
  | some d =>
    simp only [Program.pure_bind, Code.now, Code.isPaused, Program.cmd_bind, Program.run_issue,
      Scheduler.apply, h.paused]
    have hall : Program.All (Blind k₀) ((Program.ofExcept
        (c.decision L d (s.paused c.schedule_id))).bind (Decision.code c d (ω 1).clock)) := by
      cases hdec : c.decision L d (s.paused c.schedule_id) with
      | error e => trivial
      | ok dec =>
        cases dec with
        | refuse status message => exact blind_record
        | slot z => exact blind_slot (hc d z hd hdec)
    obtain ⟨hlog, _, hst⟩ := Program.run_sim Scheduler.apply
      (ω := fun n => ω (n + 1 + 1 + 1)) Apart.apply hall h
    exact ⟨by rw [hlog], hst⟩

theorem Dead.of_le (h : Dead L k₀ s) (hd : t.definitions = s.definitions)
    (hh : (s.history.get k₀).isSome → (t.history.get k₀).isSome)
    (hc : s.cancelled k₀ → t.cancelled k₀) : Dead L k₀ t := by
  obtain h | h | h := h
  · exact .inl (hh h)
  · exact .inr (.inl (hc h))
  · exact .inr (.inr (by rw [hd]; exact h))

/-- A call for a dead slot does not reach the executor. -/
theorem TriggerCase.dead (hdead : Dead L k₀ s) (h : TriggerCase L c s log o t)
    (hd : s.definitions c.schedule_id = some d)
    (hdec : c.decision L d (s.paused c.schedule_id) = .ok (.slot z))
    (hk : c.schedule_id ++ ":" ++ z.isoformat = k₀) :
    Silent log ∧ (t = s ∨ ∃ run, run.idempotency_key = k₀ ∧ t = s.file run) := by
  cases h with
  | unknown hd' => rw [hd] at hd'; cases hd'
  | raised hd' hdec' | unrecorded hd' hdec' | refused hd' hdec' =>
    rw [hd] at hd'
    cases hd'
    rw [hdec] at hdec'
    cases hdec'
  | slot hd' hdec' hent hout hslot =>
    rw [hd] at hd'
    cases hd'
    rw [hdec] at hdec'
    cases hdec'
    cases hslot with
    | duplicate _ hlog _ ht => exact ⟨⟨hent.trans hlog.1, hout.trans hlog.2⟩, .inl ht⟩
    | cancelled _ _ hlog hrun _ ht =>
      exact ⟨⟨hent.trans hlog.1, hout.trans hlog.2⟩, .inr ⟨_, by rw [hrun]; exact hk, ht⟩⟩
    | saturated _ _ _ hlog hrun _ ht =>
      exact ⟨⟨hent.trans hlog.1, hout.trans hlog.2⟩, .inr ⟨_, by rw [hrun]; exact hk, ht⟩⟩
    | executed hnone hcan =>
      subst hk
      obtain hdead | hdead | hdead := hdead
      · rw [Slot.key] at hnone
        simp [hnone] at hdead
      · exact absurd hdead hcan
      · exact absurd rfl (hdead c d _ z hd hdec)

/-- What is enough to run calls from a state. -/
structure Ready (s : Scheduler) : Prop where
  idle : ∀ i, s.active i = none
  valid : ∀ {i d}, s.definitions i = some d → 0 ≤ d.retry_limit ∧ 0 < d.max_concurrency

theorem Ready.trigger (h : Ready s) {c : Trigger} {ω : Nat → Choice} :
    TriggerCase L c s (c.run L ω s).log (c.run L ω s).result (c.run L ω s).state :=
  exec_trigger (fun _ hd => (h.valid hd).1) (by simp [h.idle])
    (Program.exec_of_run Scheduler.apply _ ω s)

theorem Ready.of_eq (h : Ready s) (ha : t.active = s.active)
    (hd : t.definitions = s.definitions) : Ready t :=
  ⟨by rw [ha]; exact h.idle, by rw [hd]; exact h.valid⟩

theorem Apart.of_filed (h : Apart k₀ s t)
    (hs : s' = s ∨ ∃ run, run.idempotency_key = k₀ ∧ s' = s.file run)
    (ht : t' = t ∨ ∃ run, run.idempotency_key = k₀ ∧ t' = t.file run) : Apart k₀ s' t' := by
  have off : ∀ {u u' : Scheduler}, (u' = u ∨ ∃ run, run.idempotency_key = k₀ ∧ u' = u.file run) →
      u'.definitions = u.definitions ∧ u'.paused = u.paused ∧ u'.active = u.active ∧
        u'.cancelled = u.cancelled ∧ u'.notifier = u.notifier ∧
        ∀ k, k ≠ k₀ → u'.history.get k = u.history.get k := by
    rintro u u' (rfl | ⟨run, hrun, rfl⟩)
    · exact ⟨rfl, rfl, rfl, rfl, rfl, fun _ _ => rfl⟩
    · refine ⟨rfl, rfl, rfl, rfl, rfl, fun k hk => ?_⟩
      simp only [Scheduler.file, History.put_get, hrun, if_neg hk]
  obtain ⟨hd, hp, ha, hc, hn, hh⟩ := off hs
  obtain ⟨hd', hp', ha', hc', hn', hh'⟩ := off ht
  refine ⟨?_, ?_, ?_, ?_, ?_, fun k hk => ?_⟩
  · rw [hd, hd', h.definitions]
  · rw [hp, hp', h.paused]
  · rw [ha, ha', h.active]
  · rw [hc, hc', h.cancelled]
  · rw [hn, hn', h.notifier]
  · rw [hh k hk, hh' k hk, h.history k hk]

/-- States from which the calls to come use the executor in the same way. -/
structure Alike (L : Library) (k₀ : String) (s t : Scheduler) : Prop where
  apart : Apart k₀ s t
  ready : Ready s
  ready' : Ready t
  dead : Dead L k₀ s
  dead' : Dead L k₀ t

theorem TriggerCase.cancelled (h : TriggerCase L c s log o t) :
    ∀ k, s.cancelled k → t.cancelled k := by
  cases h with
  | unknown _ _ _ ht | raised _ _ _ _ ht | unrecorded _ _ _ _ _ ht => subst ht; exact fun _ hk => hk
  | refused _ _ _ _ _ _ ht => subst ht; exact fun _ hk => hk
  | slot _ _ _ _ hslot =>
    cases hslot with
    | duplicate _ _ _ ht => subst ht; exact fun _ hk => hk
    | cancelled _ _ _ _ _ ht | saturated _ _ _ _ _ _ ht => subst ht; exact fun _ hk => hk
    | executed _ _ _ _ hloop => exact hloop.filed.frame.cancelled

theorem Ready.effect (h : Ready s) {c : Trigger} {ω : Nat → Choice} (hdead : Dead L k₀ s) :
    Ready (c.run L ω s).state ∧ Dead L k₀ (c.run L ω s).state := by
  have hcase := h.trigger (L := L) (c := c) (ω := ω)
  have heff := hcase.effect
  exact ⟨h.of_eq heff.active heff.definitions,
    hdead.of_le heff.definitions heff.keeps (hcase.cancelled k₀)⟩

theorem Alike.trigger (h : Alike L k₀ s t) (c : Trigger) (ω : Nat → Choice) :
    (∀ key, executorLog key (c.run L ω s).log = executorLog key (c.run L ω t).log) ∧
      Alike L k₀ (c.run L ω s).state (c.run L ω t).state := by
  obtain ⟨hr, hd⟩ := h.ready.effect (c := c) (ω := ω) h.dead
  obtain ⟨hr', hd'⟩ := h.ready'.effect (c := c) (ω := ω) h.dead'
  by_cases hslot : ∃ d z, s.definitions c.schedule_id = some d ∧
      c.decision L d (s.paused c.schedule_id) = .ok (.slot z) ∧
      c.schedule_id ++ ":" ++ z.isoformat = k₀
  · obtain ⟨d, z, hdef, hdec, hk⟩ := hslot
    obtain ⟨hlog, hs⟩ := (h.ready.trigger (ω := ω)).dead h.dead hdef hdec hk
    obtain ⟨hlog', ht⟩ := (h.ready'.trigger (ω := ω)).dead h.dead'
      (by rw [h.apart.definitions]; exact hdef) (by rw [h.apart.paused]; exact hdec) hk
    exact ⟨fun key => by rw [executorLog_of_silent hlog, executorLog_of_silent hlog'],
      h.apart.of_filed hs ht, hr, hr', hd, hd'⟩
  · obtain ⟨hlog, hapart⟩ := h.apart.lockstep (c := c) (ω := ω)
      fun d z hdef hdec hk => hslot ⟨d, z, hdef, hdec, hk⟩
    exact ⟨fun key => by rw [hlog], hapart, hr, hr', hd, hd'⟩

theorem Alike.set (h : Alike L k₀ s t) {s' t' : Scheduler} (ha : Apart k₀ s' t')
    (hact : s'.active = s.active) (hdef : s'.definitions = s.definitions)
    (hh : s'.history = s.history) (hh' : t'.history = t.history)
    (hc : ∀ k, s.cancelled k → s'.cancelled k) : Alike L k₀ s' t' := by
  refine ⟨ha, h.ready.of_eq hact hdef, h.ready.of_eq (ha.active.trans hact)
    (ha.definitions.trans hdef), h.dead.of_le hdef (by rw [hh]; exact id) (hc k₀),
    h.dead'.of_le ?_ (by rw [hh']; exact id) fun hk => ?_⟩
  · rw [ha.definitions, hdef, h.apart.definitions]
  · rw [ha.cancelled]
    exact hc k₀ (by rwa [h.apart.cancelled] at hk)

theorem Alike.step (h : Alike L k₀ s t) {op : Op} (hop : op.isRegister = false) :
    (∀ key, (step L s op).2.executorLog key = (step L t op).2.executorLog key) ∧
      Alike L k₀ (step L s op).1 (step L t op).1 := by
  have hdef := h.apart.definitions
  cases op with
  | register d => cases hop
  | trigger c ω => exact h.trigger c ω
  | pause i =>
    cases hi : s.definitions i with
    | none => simpa [Schedule.step, Scheduler.pause, Scheduler.require, settle, hdef, hi, bind,
        Except.bind, Event.executorLog] using h
    | some d =>
      simp only [Schedule.step, Scheduler.pause, Scheduler.require, settle, hdef, hi, bind,
        Except.bind, pure, Except.pure, Event.executorLog, implies_true, true_and]
      refine h.set ?_ rfl rfl rfl rfl fun _ hk => hk
      exact ⟨rfl, by simp [h.apart.paused], h.apart.active, h.apart.cancelled, h.apart.notifier,
        h.apart.history⟩
  | resume i =>
    cases hi : s.definitions i with
    | none => simpa [Schedule.step, Scheduler.resume, Scheduler.require, settle, hdef, hi, bind,
        Except.bind, Event.executorLog] using h
    | some d =>
      simp only [Schedule.step, Scheduler.resume, Scheduler.require, settle, hdef, hi, bind,
        Except.bind, pure, Except.pure, Event.executorLog, implies_true, true_and]
      refine h.set ?_ rfl rfl rfl rfl fun _ hk => hk
      exact ⟨rfl, by simp [h.apart.paused], h.apart.active, h.apart.cancelled, h.apart.notifier,
        h.apart.history⟩
  | cancel k =>
    cases hk : validKey k with
    | false => simpa [Schedule.step, Scheduler.cancel, settle, hk, Event.executorLog] using h
    | true =>
      simp only [Schedule.step, Scheduler.cancel, settle, hk, if_true, Event.executorLog,
        implies_true, true_and]
      refine h.set ?_ rfl rfl rfl rfl fun k' hk' => ?_
      · exact ⟨hdef, h.apart.paused, h.apart.active, by simp [h.apart.cancelled],
          h.apart.notifier, h.apart.history⟩
      · simp only [Function.update_apply]
        split
        · rfl
        · exact hk'

theorem Alike.sameFuture (h : Alike L k₀ s t) (key : String) : SameFuture L s t key := by
  intro ops
  induction ops generalizing s t with
  | nil => intro _; rfl
  | cons op ops ih =>
    intro hops
    obtain ⟨hlog, hnext⟩ := h.step (hops op (by simp))
    simp only [follow, List.map_cons, hlog key]
    rw [ih hnext fun op' hop' => hops op' (by simp [hop'])]

end Simulation

section Inertness

variable {L : Library} {c : Trigger} {d : ScheduleDefinition}

theorem decision_of_approved {i : String} {now z : DateTime} {f : Bool}
    (he : d.hasExpired L now = .ok false) (hz : d.scheduled_for L now = .ok (some z)) :
    Trigger.decision L ⟨i, now, true, f⟩ d false = .ok (.slot z) := by
  simp [Trigger.decision, he, hz]

/-- A refusal is filed under the key made from `now`, and that is all it does. -/
theorem run_refused {s : Scheduler} {ω : Nat → Choice} {status : ScheduleStatus} {message : String}
    {u : DateTime} (hs : Ready s) (hd : s.definitions c.schedule_id = some d)
    (hdec : c.decision L d (s.paused c.schedule_id) = .ok (.refuse status message))
    (hu : c.now.astimezone .utc = .ok u) : ∃ run : ScheduleRun,
      run.idempotency_key = c.schedule_id ++ ":" ++ u.isoformat ∧
      run.outcome = (status, 0, message) ∧ (c.run L ω s).state = s.file run := by
  cases hs.trigger (L := L) (c := c) (ω := ω) with
  | unknown hd' => rw [hd] at hd'; cases hd'
  | raised hd' hdec' | slot hd' hdec' =>
    rw [hd] at hd'
    cases hd'
    rw [hdec] at hdec'
    cases hdec'
  | unrecorded _ _ hu' => rw [hu] at hu'; cases hu'
  | refused hd' hdec' hu' _ hrun _ ht =>
    rw [hd] at hd'
    cases hd'
    rw [hdec] at hdec'
    cases hdec'
    rw [hu] at hu'
    cases hu'
    exact ⟨_, by rw [hrun]; rfl, by rw [hrun]; rfl, ht⟩

/-- A slot that is neither on file nor cancelled is executed by an approved call. -/
theorem run_executes {s : Scheduler} {ω : Nat → Choice} {i : String} {now z : DateTime}
    (hs : Ready s) (hd : s.definitions i = some d) (hp : s.paused i = false)
    (he : d.hasExpired L now = .ok false) (hz : d.scheduled_for L now = .ok (some z))
    (hh : s.history.get (i ++ ":" ++ z.isoformat) = none)
    (hc : ¬ s.cancelled (i ++ ":" ++ z.isoformat)) :
    i ++ ":" ++ z.isoformat ∈ enters (Trigger.run L ⟨i, now, true, false⟩ ω s).log := by
  have hdec : Trigger.decision L ⟨i, now, true, false⟩ d (s.paused i) = .ok (.slot z) := by
    rw [hp]
    exact decision_of_approved he hz
  cases hs.trigger (L := L) (c := ⟨i, now, true, false⟩) (ω := ω) with
  | unknown hd' => rw [hd] at hd'; cases hd'
  | raised hd' hdec' | unrecorded hd' hdec' | refused hd' hdec' =>
    rw [hd] at hd'
    cases hd'
    rw [hdec] at hdec'
    cases hdec'
  | slot hd' hdec' hent _ hslot =>
    rw [hd] at hd'
    cases hd'
    rw [hdec] at hdec'
    cases hdec'
    rw [hent]
    cases hslot with
    | duplicate hh' => rw [Slot.key, hh] at hh'; cases hh'
    | cancelled _ hc' => exact absurd hc' hc
    | saturated _ _ hm =>
      rw [hs.idle] at hm
      exact absurd (hs.valid hd).2 (not_lt.mpr hm)
    | executed _ _ _ _ hloop =>
      rw [hloop.entered]
      cases hout : outcomes _ with
      | cons o os => exact List.mem_cons_self
      | nil =>
        have hv := hloop.verdict
        rw [hloop.quiet hout, hout] at hv
        generalize hst : ScheduleRun.status _ = st at hv
        cases hv with
        | succeeded hos => simp at hos
        | failed _ hlen =>
          have := (hs.valid hd).1
          simp only [List.length_nil] at hlen
          omega
        | cancelled _ _ hc' => exact absurd hc' hc

theorem step_resume {s : Scheduler} {i : String} (hd : s.definitions i = some d) :
    step L s (.resume i) = ({ s with paused := Function.update s.paused i false },
      .managed (.resume i) none) := by
  simp [step, Scheduler.resume, Scheduler.require, hd, settle, bind, Except.bind, pure, Except.pure]

/-- After `resume`, an approved call tells a slot that is on file from one that is not. -/
theorem not_sameFuture {s t : Scheduler} {i : String} {now z : DateTime} (hs : Ready s)
    (ht : Ready t) (hd : s.definitions i = some d) (hd' : t.definitions i = some d)
    (he : d.hasExpired L now = .ok false) (hz : d.scheduled_for L now = .ok (some z))
    (hh : s.history.get (i ++ ":" ++ z.isoformat) = none)
    (hc : ¬ s.cancelled (i ++ ":" ++ z.isoformat))
    (hh' : (t.history.get (i ++ ":" ++ z.isoformat)).isSome) :
    ¬ SameFuture L s t (i ++ ":" ++ z.isoformat) := by
  intro hsame
  have hops := hsame [.resume i, .trigger ⟨i, now, true, false⟩ fun _ => default]
    (by simp [Op.isRegister])
  simp only [follow, step_resume hd, step_resume hd', List.map_cons, List.map_nil,
    List.cons.injEq, and_true] at hops
  replace hops := hops.2
  simp only [step, Event.executorLog] at hops
  have hin := run_executes (L := L) (ω := fun _ => default)
    (s := { s with paused := Function.update s.paused i false })
    (hs.of_eq rfl rfl) hd (by simp) he hz hh hc
  have hready : Ready { t with paused := Function.update t.paused i false } := ht.of_eq rfl rfl
  have hdec : Trigger.decision L ⟨i, now, true, false⟩ d (Function.update t.paused i false i) =
      .ok (.slot z) := by
    rw [Function.update_self]
    exact decision_of_approved he hz
  have hcase := hready.trigger (L := L) (c := ⟨i, now, true, false⟩) (ω := fun _ => default)
  have hdead : Dead L (i ++ ":" ++ z.isoformat)
    { t with paused := Function.update t.paused i false } := .inl hh'
  obtain ⟨hlog, _⟩ := hcase.dead hdead hd' hdec rfl
  rw [executorLog_of_silent hlog] at hops
  exact executorLog_ne_nil hin hops

/-- Exactly when a refused call is inert. -/
theorem refusal_inert_iff {notifier : Bool} {es : List Event} {s : Scheduler}
    (h : (machine L).Run Machine.Free (.init notifier) es s) (ω : Nat → Choice)
    {status : ScheduleStatus} {message : String} {u : DateTime}
    (hd : s.definitions c.schedule_id = some d)
    (hdec : c.decision L d (s.paused c.schedule_id) = .ok (.refuse status message))
    (hu : c.now.astimezone .utc = .ok u) :
    Inert L es s (c.run L ω s).state ↔
      (Executed es (c.schedule_id ++ ":" ++ u.isoformat) →
        (s.history.get (c.schedule_id ++ ":" ++ u.isoformat)).map ScheduleRun.outcome =
          some (status, 0, message)) ∧
      (¬ Executed es (c.schedule_id ++ ":" ++ u.isoformat) →
        (s.history.get (c.schedule_id ++ ":" ++ u.isoformat)).isSome ∨
        s.cancelled (c.schedule_id ++ ":" ++ u.isoformat) ∨
        ∀ now z, d.hasExpired L now = .ok false → d.scheduled_for L now = .ok (some z) →
          z.wall ≠ u.wall) := by
  have inv := inv_of_run h
  have ready : Ready s := ⟨inv.idle, fun hd => (inv.valid hd).2⟩
  have hutc := DateTime.tzinfo_of_astimezone hu
  obtain ⟨run, hkey, hout, ht⟩ := run_refused (ω := ω) ready hd hdec hu
  rw [ht]
  have hself : (s.file run).history.get (c.schedule_id ++ ":" ++ u.isoformat) = some run := by
    simp [Scheduler.file, History.put_get, hkey]
  constructor
  · rintro ⟨hrec, hfut⟩
    refine ⟨fun hex => ?_, fun hex => ?_⟩
    · rw [← hrec _ hex, hself, Option.map_some, hout]
    · by_contra hnot
      simp only [not_or, Bool.not_eq_true, Option.isSome_eq_false_iff, Option.isNone_iff_eq_none,
        not_forall, not_not, exists_prop] at hnot
      obtain ⟨hnone, hcan, now, z, he, hz, hwall⟩ := hnot
      have hiso := DateTime.isoformat_eq (d.scheduled_for_utc hz) hutc hwall
      rw [← hiso] at hnone hcan hself hex
      exact not_sameFuture (t := s.file run) ready (ready.of_eq rfl rfl) hd hd he hz hnone
        (by simp [hcan]) (by rw [hself]; rfl) (hfut _ hex)
  · rintro ⟨hrec, hfut⟩
    refine ⟨fun key hex => ?_, fun key _ => ?_⟩
    · simp only [Scheduler.file, History.put_get]
      split
      · rename_i hk
        rw [hk, hkey] at hex ⊢
        rw [hrec hex, Option.map_some, hout]
      · rfl
    · refine Alike.sameFuture (?_ : Alike L (c.schedule_id ++ ":" ++ u.isoformat) s _) key
      refine ⟨⟨rfl, rfl, rfl, rfl, rfl, fun k hk => ?_⟩, ready, ready.of_eq rfl rfl, ?_,
        .inl (by rw [hself]; rfl)⟩
      · simp only [Scheduler.file, History.put_get, hkey, if_neg hk]
      · by_cases hex : Executed es (c.schedule_id ++ ":" ++ u.isoformat)
        · exact .inl (inv.filed hex)
        · obtain hsome | hcan | hnever := hfut hex
          · exact .inl hsome
          · exact .inr (.inl hcan)
          · refine .inr (.inr fun c' d' p z hd' hdec' hk => ?_)
            obtain ⟨hlive, hz⟩ := decision_slot hdec'
            obtain ⟨hi, hwall⟩ := key_injective (d'.scheduled_for_utc hz) hutc hk
            rw [hi, hd] at hd'
            cases hd'
            exact hnever _ z hlive hz hwall

def sampleCall : Trigger := ⟨"nightly", sampleNow, false, false⟩

/-- A second refusal at the same time adds nothing to the first. -/
theorem refusal_inert_iff_sample : ∃ s es, (machine utcLibrary).exec Machine.Free (.init false)
      [.register sampleDefinition, .pause "nightly", .trigger sampleCall fun _ => default] =
        some (s, es) ∧
    Inert utcLibrary es s (sampleCall.run utcLibrary (fun _ => default) s).state := by
  refine ⟨_, _, rfl, (refusal_inert_iff (d := sampleDefinition) (u := sampleNow) (Machine.run_of_exec
      [.register sampleDefinition, .pause "nightly", .trigger sampleCall fun _ => default] rfl)
    _ rfl rfl rfl).mpr ⟨?_, ?_⟩⟩
  · intro _
    rfl
  · intro _
    exact .inl rfl

/-- A call refused on the hour takes the hourly slot away. -/
theorem refusal_not_inert : ¬ ∀ (es : List Event) (s : Scheduler) (c : Trigger)
    (d : ScheduleDefinition) (status : ScheduleStatus) (message : String),
    (machine utcLibrary).Run Machine.Free (.init false) es s →
    s.definitions c.schedule_id = some d →
    c.decision utcLibrary d (s.paused c.schedule_id) = .ok (.refuse status message) →
    Inert utcLibrary es s (c.run utcLibrary (fun _ => default) s).state := by
  intro h
  have hinert := h _ _ sampleCall sampleDefinition .paused "schedule is paused"
    (Machine.run_of_exec [.register sampleDefinition, .pause "nightly"] rfl) rfl rfl
  have hnot : ¬ Executed [.managed (.register sampleDefinition) none,
      .managed (.pause "nightly") none] "nightly:2026-07-01T02:00:00+00:00" := by
    simp [Executed, Event.Invokes]
  have hsame := hinert.future _ hnot [.resume "nightly", .trigger sampleCall fun _ => default]
    (by simp [Op.isRegister])
  exact absurd (congrArg (List.map List.length) hsame) (by decide +kernel)

end Inertness

end EnterpriseCopilot.Schedule
