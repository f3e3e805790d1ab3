import EnterpriseCopilot.Schedule.Scheduler

/-! What a `trigger` call does when it runs alone. -/

namespace EnterpriseCopilot.Schedule

open EnterpriseCopilot.Lib EnterpriseCopilot.Python

abbrev Log := Exchange Cmd Reply

abbrev Exec {α : Type} (p : Code α) (s : Scheduler) (log : Log) (o : Except PyError α)
    (t : Scheduler) : Prop := Program.Exec Scheduler.apply p s log o t

/-- The keys with which a call entered the executor. -/
def enters (log : Log) : List String :=
  log.filterMap fun
    | ⟨.enter _ key, _⟩ => some key
    | _ => none

/-- What the executor returned or raised, call by call. -/
def outcomes (log : Log) : List (Except String String) :=
  log.filterMap fun
    | ⟨.leave _ _, r⟩ => some r
    | _ => none

@[simp] theorem enters_append (a b : Log) : enters (a ++ b) = enters a ++ enters b :=
  List.filterMap_append

@[simp] theorem outcomes_append (a b : Log) : outcomes (a ++ b) = outcomes a ++ outcomes b :=
  List.filterMap_append

/-- Everything but the history and the counters; cancellations only accumulate. -/
structure Frame (s t : Scheduler) : Prop where
  definitions : t.definitions = s.definitions
  paused : t.paused = s.paused
  notifier : t.notifier = s.notifier
  cancelled : ∀ k, s.cancelled k → t.cancelled k

theorem Frame.trans (h : Frame s t) (h' : Frame t u) : Frame s u :=
  ⟨h'.definitions.trans h.definitions, h'.paused.trans h.paused, h'.notifier.trans h.notifier,
    fun k hk => h'.cancelled k (h.cancelled k hk)⟩

/-- Filing a run, as a state change. -/
def Scheduler.file (s : Scheduler) (run : ScheduleRun) : Scheduler :=
  { s with history := s.history.put run }

theorem Frame.file (s : Scheduler) (run : ScheduleRun) : Frame s (s.file run) :=
  ⟨rfl, rfl, rfl, fun _ h => h⟩

theorem Frame.cancelAll (s : Scheduler) (keys : List String) : Frame s (s.cancelAll keys) :=
  ⟨rfl, rfl, rfl, fun k hk => by simp [Scheduler.cancelAll, hk]⟩

section Commands

variable {α : Type} {s t : Scheduler} {log : Log} {o : Except PyError α}

theorem exec_now {f : DateTime → Code α} : Exec (Code.now.bind f) s log o t ↔
    ∃ z rest, log = ⟨.now, z⟩ :: rest ∧ Exec (f z) s rest o t := by
  simp only [Code.now, Program.cmd_bind, Program.pure_bind, Program.exec_issue, Scheduler.apply]
  exact ⟨fun ⟨ch, rest, h⟩ => ⟨ch.clock, rest, h⟩, fun ⟨z, rest, h⟩ => ⟨{ clock := z }, rest, h⟩⟩

theorem exec_isPaused {f : Bool → Code α} : Exec ((Code.isPaused i).bind f) s log o t ↔
    ∃ rest, log = ⟨.isPaused i, s.paused i⟩ :: rest ∧ Exec (f (s.paused i)) s rest o t := by
  simp [Code.isPaused, Program.exec_issue, Scheduler.apply]

theorem exec_inHistory {f : Bool → Code α} : Exec ((Code.inHistory k).bind f) s log o t ↔
    ∃ rest, log = ⟨.inHistory k, (s.history.get k).isSome⟩ :: rest ∧
      Exec (f (s.history.get k).isSome) s rest o t := by
  simp [Code.inHistory, Program.exec_issue, Scheduler.apply]

theorem exec_isCancelled {f : Bool → Code α} : Exec ((Code.isCancelled k).bind f) s log o t ↔
    ∃ rest, log = ⟨.isCancelled k, s.cancelled k⟩ :: rest ∧
      Exec (f (s.cancelled k)) s rest o t := by
  simp [Code.isCancelled, Program.exec_issue, Scheduler.apply]

theorem exec_activeCount {f : Int → Code α} : Exec ((Code.activeCount i).bind f) s log o t ↔
    ∃ rest, log = ⟨.activeCount i, (s.active i).getD 0⟩ :: rest ∧
      Exec (f ((s.active i).getD 0)) s rest o t := by
  simp [Code.activeCount, Program.exec_issue, Scheduler.apply]

theorem exec_setActive {f : Unit → Code α} : Exec ((Code.setActive i n).bind f) s log o t ↔
    ∃ rest, log = ⟨.setActive i n, ()⟩ :: rest ∧
      Exec (f ()) (s.setCount i (some n)) rest o t := by
  simp [Code.setActive, Program.exec_issue, Scheduler.apply]

theorem exec_getActive {f : Int → Code α} (h : s.active i = some n) :
    Exec ((Code.getActive i).bind f) s log o t ↔
      ∃ rest, log = ⟨.getActive i, some n⟩ :: rest ∧ Exec (f n) s rest o t := by
  simp [Code.getActive, Program.exec_issue, Scheduler.apply, h]

end Commands

theorem exec_record : Exec (_record i st a b n m z) s log o t ↔
    (∃ e, z.astimezone .utc = .error e ∧ log = [] ∧ o = .error e ∧ t = s) ∨
    ∃ u, z.astimezone .utc = .ok u ∧ log = [⟨.record (.of i st a b n m u), ()⟩] ∧
      o = .ok (.of i st a b n m u) ∧ t = s.file (.of i st a b n m u) := by
  unfold _record
  cases hz : z.astimezone .utc with
  | error e => simp
  | ok u => simp [Code.record, Program.exec_issue, Scheduler.apply, Scheduler.file]

theorem exec_record_utc (hz : z.tzinfo = .utc) : Exec (_record i st a b n m z) s log o t ↔
    log = [⟨.record (.of i st a b n m z), ()⟩] ∧ o = .ok (.of i st a b n m z) ∧
      t = s.file (.of i st a b n m z) := by
  simp [exec_record, DateTime.astimezone_utc hz]

theorem exec_record_bind {f : ScheduleRun → Code α} (hz : z.tzinfo = .utc) :
    Exec ((_record i st a b n m z).bind f) s log o t ↔
      ∃ rest, log = ⟨.record (.of i st a b n m z), ()⟩ :: rest ∧
        Exec (f (.of i st a b n m z)) (s.file (.of i st a b n m z)) rest o t := by
  simp [_record, DateTime.astimezone_utc hz, Code.record, Program.exec_issue, Scheduler.apply,
    Scheduler.file]

/-- What `_notify` keeps of a run. -/
def ScheduleRun.Same (run run' : ScheduleRun) : Prop :=
  run'.idempotency_key = run.idempotency_key ∧ run'.status = run.status ∧
    run'.attempts = run.attempts ∧ run'.message = run.message

/-- The executor is not involved. -/
def Silent (log : Log) : Prop := enters log = [] ∧ outcomes log = []

theorem exec_notify (h : Exec (_notify d run f) s log o t) :
    ∃ run', o = .ok run' ∧ run.Same run' ∧ Silent log ∧
      ((run' = run ∧ t = s) ∨ t = s.file run') := by
  simp only [_notify, Code.hasNotifier, Program.bind_eq, Program.cmd_bind, Program.pure_bind, Program.exec_issue,
    Scheduler.apply] at h
  obtain ⟨_, rest, rfl, h⟩ := h
  split at h
  · split at h
    · simp only [Code.send, Code.record, Program.pure_eq, Program.cmd_bind, Program.pure_bind, Program.exec_issue, Program.exec_pure,
        Scheduler.apply] at h
      obtain ⟨ch, _, rfl, _, _, rfl, rfl, rfl, rfl⟩ := h
      refine ⟨_, rfl, ?_, ⟨rfl, rfl⟩, .inr rfl⟩
      cases ch.sink <;> exact ⟨rfl, rfl, rfl, rfl⟩
    · simp only [Program.pure_eq, Program.exec_pure] at h
      obtain ⟨rfl, rfl, rfl⟩ := h
      exact ⟨run, rfl, ⟨rfl, rfl, rfl, rfl⟩, ⟨rfl, rfl⟩, .inl ⟨rfl, rfl⟩⟩
  · simp only [Program.pure_eq, Program.exec_pure] at h
    obtain ⟨rfl, rfl, rfl⟩ := h
    exact ⟨run, rfl, ⟨rfl, rfl, rfl, rfl⟩, ⟨rfl, rfl⟩, .inl ⟨rfl, rfl⟩⟩

/-- The call filed `run` under `key`, last of all it did to the history. -/
structure Filed (s t : Scheduler) (key : String) (run : ScheduleRun) : Prop where
  frame : Frame s t
  active : t.active = s.active
  own : run.idempotency_key = key
  history : t.history.get = Function.update s.history.get key (some run)

theorem filed_file (s : Scheduler) (run : ScheduleRun) :
    Filed s (s.file run) run.idempotency_key run :=
  ⟨.file s run, rfl, rfl, rfl⟩

theorem Filed.of_frame (h : Frame s t) (ha : t.active = s.active) (hh : t.history = s.history)
    (hf : Filed t u key run) : Filed s u key run :=
  ⟨h.trans hf.frame, hf.active.trans ha, hf.own, by rw [hf.history, hh]⟩

theorem filed_notify (h : Exec (_notify d run f) (s.file run) log o t) :
    ∃ run', o = .ok run' ∧ run.Same run' ∧ Silent log ∧ Filed s t run.idempotency_key run' := by
  obtain ⟨run', rfl, hsame, hlog, ⟨rfl, rfl⟩ | rfl⟩ := exec_notify h
  · exact ⟨run', rfl, hsame, hlog, filed_file s run'⟩
  · refine ⟨run', rfl, hsame, hlog, (Frame.file s run).trans (.file _ run'), rfl, hsame.1, ?_⟩
    simp [Scheduler.file, History.put, hsame.1]

section Loop

variable {x : Slot}

/-- One executor call that returned. -/
theorem exec_succeed (hx : x.scheduled.tzinfo = .utc) (h : Exec (x.succeed n) s log o t) :
    (∃ e r, o = .error e ∧ outcomes log = [.error r] ∧ enters log = [x.key] ∧ Frame s t ∧
      t.active = s.active ∧ t.history = s.history) ∨
    ∃ m run, o = .ok run ∧ outcomes log = [.ok m] ∧ enters log = [x.key] ∧
      run.status = .succeeded ∧ run.attempts = n ∧ Filed s t x.key run := by
  simp only [Slot.succeed, Code.executor, Program.bind_eq, Program.cmd_bind, Program.exec_issue,
    Scheduler.apply] at h
  obtain ⟨_, _, rfl, ch, rest, rfl, h⟩ := h
  cases hr : ch.result with
  | error e =>
    rw [hr] at h
    simp only [Program.throw_bind, Program.exec_throw] at h
    obtain ⟨rfl, rfl, rfl⟩ := h
    exact .inl ⟨_, e, rfl, by simp [outcomes], by simp [enters], .cancelAll s _, rfl, rfl⟩
  | ok m =>
    rw [hr] at h
    simp only [Program.pure_bind, exec_now, exec_record_bind hx] at h
    obtain ⟨z, _, rfl, rest, rfl, h⟩ := h
    obtain ⟨run', rfl, hsame, hlog, hfiled⟩ := filed_notify h
    refine .inr ⟨m, run', rfl, ?_, ?_, hsame.2.1, hsame.2.2.1,
      Filed.of_frame (.cancelAll s _) rfl rfl hfiled⟩
    · simpa [outcomes] using hlog.2
    · simpa [enters] using hlog.1

theorem exec_giveUp (hx : x.scheduled.tzinfo = .utc) (h : Exec (x.giveUp n) s log o t) :
    ((n : Int) > x.definition.retry_limit ∧ ∃ run, o = .ok (some run) ∧ Silent log ∧
      run.status = .failed ∧ run.attempts = n ∧ Filed s t x.key run) ∨
    ((n : Int) ≤ x.definition.retry_limit ∧ o = .ok none ∧ log = [] ∧ t = s) := by
  unfold Slot.giveUp at h
  split at h
  · rename_i hn
    simp only [Program.bind_eq, Program.pure_eq, exec_now, exec_record_bind hx] at h
    obtain ⟨z, _, rfl, rest, rfl, h⟩ := h
    obtain ⟨e, he, _⟩ | ⟨run', v, l₃, l₄, hret, hpure, rfl⟩ := Program.exec_bind.mp h
    · obtain ⟨_, hok, _⟩ := filed_notify he
      cases hok
    · obtain ⟨run'', hok, hsame, hlog, hfiled⟩ := filed_notify hret
      cases hok
      simp only [Program.exec_pure] at hpure
      obtain ⟨rfl, rfl, rfl⟩ := hpure
      refine .inl ⟨hn, run', rfl, ⟨?_, ?_⟩, hsame.2.1, hsame.2.2.1, hfiled⟩
      · simpa [enters] using hlog.1
      · simpa [outcomes] using hlog.2
  · rename_i hn
    simp only [Program.pure_eq, Program.exec_pure] at h
    obtain ⟨rfl, rfl, rfl⟩ := h
    exact .inr ⟨not_lt.mp hn, rfl, rfl, rfl⟩

def Raised (o : Except String String) : Prop := ∃ e, o = .error e

/-- One iteration calls the executor once. -/
theorem exec_iteration (hx : x.scheduled.tzinfo = .utc)
    (h : Exec (Program.tryCatch (some <$> x.succeed n) (fun _ => x.giveUp n)) s log o t) :
    ∃ r, enters log = [x.key] ∧ outcomes log = [r] ∧
      ((∃ m run, r = .ok m ∧ o = .ok (some run) ∧ run.status = .succeeded ∧ run.attempts = n ∧
          Filed s t x.key run) ∨
        (∃ run, Raised r ∧ (n : Int) > x.definition.retry_limit ∧ o = .ok (some run) ∧
          run.status = .failed ∧ run.attempts = n ∧ Filed s t x.key run) ∨
        (Raised r ∧ (n : Int) ≤ x.definition.retry_limit ∧ o = .ok none ∧ Frame s t ∧
          t.active = s.active ∧ t.history = s.history)) := by
  simp only [Program.map_eq] at h
  obtain ⟨a, hret, rfl⟩ | ⟨e, u, l₁, l₂, hexc, hg, rfl⟩ := Program.exec_tryCatch.mp h
  · obtain ⟨e, _, he⟩ | ⟨run, u, l₁, l₂, hs, hp, rfl⟩ := Program.exec_bind.mp hret
    · cases he
    · simp only [Program.exec_pure] at hp
      obtain ⟨rfl, hp, rfl⟩ := hp
      cases hp
      obtain ⟨_, _, he, _⟩ | ⟨m, run', hok, hout, hent, hst, hat, hfiled⟩ := exec_succeed hx hs
      · cases he
      · cases hok
        exact ⟨.ok m, by simpa using hent, by simpa using hout,
          .inl ⟨m, run, rfl, rfl, hst, hat, hfiled⟩⟩
  · obtain ⟨e', hs, he⟩ | ⟨run, _, _, _, _, hp, _⟩ := Program.exec_bind.mp hexc
    · obtain ⟨_, r, _, hout, hent, hframe, hact, hhist⟩ | ⟨_, _, hok, _⟩ := exec_succeed hx hs
      · obtain ⟨hn, run, rfl, hlog, hst, hat, hfiled⟩ | ⟨hn, rfl, rfl, rfl⟩ := exec_giveUp hx hg
        · exact ⟨.error r, by simp [hent, hlog.1], by simp [hout, hlog.2],
            .inr (.inl ⟨run, ⟨r, rfl⟩, hn, rfl, hst, hat, .of_frame hframe hact hhist hfiled⟩)⟩
        · exact ⟨.error r, by simp [hent], by simp [hout],
            .inr (.inr ⟨⟨r, rfl⟩, hn, rfl, hframe, hact, hhist⟩)⟩
      · cases hok
    · simp at hp

/-- How the loop ends, by the outcomes of its executor calls. -/
inductive Verdict (left : Nat) (os : List (Except String String)) (cancelled : Bool) :
    ScheduleStatus → Prop
  | succeeded {os' m} : os = os' ++ [.ok m] → (∀ o ∈ os', Raised o) → os.length ≤ left →
      Verdict left os cancelled .succeeded
  | failed : (∀ o ∈ os, Raised o) → os.length = left → Verdict left os cancelled .failed
  | cancelled : (∀ o ∈ os, Raised o) → os.length < left → cancelled = true →
      Verdict left os cancelled .cancelled

theorem Verdict.cons (ho : Raised o) (h : Verdict left os c st) :
    Verdict (left + 1) (o :: os) c st := by
  cases h with
  | @succeeded os' m hos hr hlen =>
    refine .succeeded (show _ = (o :: os') ++ [.ok m] by simp [hos]) ?_ (by simpa using hlen)
    simpa using ⟨ho, hr⟩
  | failed hr hlen => exact .failed (by simpa using ⟨ho, hr⟩) (by simpa using hlen)
  | cancelled hr hlen hc => exact .cancelled (by simpa using ⟨ho, hr⟩) (by simpa using hlen) hc

/-- The executor was called for the slot only, once for each attempt, and the run
that is returned is on file. -/
structure Looped (x : Slot) (left n : Nat) (s : Scheduler) (log : Log) (run : ScheduleRun)
    (t : Scheduler) : Prop where
  entered : enters log = List.replicate (outcomes log).length x.key
  attempts : run.attempts = n + (outcomes log).length
  verdict : Verdict left (outcomes log) (t.cancelled x.key) run.status
  quiet : outcomes log = [] → t.cancelled = s.cancelled
  filed : Filed s t x.key run

theorem Looped.single {r : Except String String} (hent : enters log = [x.key])
    (hout : outcomes log = [r]) (hat : run.attempts = n + 1)
    (hv : Verdict left [r] (t.cancelled x.key) run.status) (hf : Filed s t x.key run) :
    Looped x left n s (⟨.isCancelled x.key, b⟩ :: log) run t := by
  have hout' : outcomes (⟨.isCancelled x.key, b⟩ :: log) = [r] := hout
  refine ⟨?_, by rw [hout', hat]; rfl, by rw [hout']; exact hv, by simp [hout'], hf⟩
  rw [hout']
  exact hent

theorem Looped.cons {r : Except String String} (hent : enters l₁ = [x.key])
    (hout : outcomes l₁ = [r]) (hr : Raised r) (hframe : Frame s u) (hact : u.active = s.active)
    (hhist : u.history = s.history) (h : Looped x left (n + 1) u l₂ run t) :
    Looped x (left + 1) n s (⟨.isCancelled x.key, b⟩ :: (l₁ ++ l₂)) run t := by
  have hout' : outcomes (⟨.isCancelled x.key, b⟩ :: (l₁ ++ l₂)) = r :: outcomes l₂ := by
    change outcomes (l₁ ++ l₂) = _
    rw [outcomes_append, hout]
    rfl
  have hent' : enters (⟨.isCancelled x.key, b⟩ :: (l₁ ++ l₂)) = x.key :: enters l₂ := by
    change enters (l₁ ++ l₂) = _
    rw [enters_append, hent]
    rfl
  refine ⟨?_, ?_, by rw [hout']; exact h.verdict.cons hr, by simp [hout'],
    .of_frame hframe hact hhist h.filed⟩
  · rw [hent', hout', h.entered, List.length_cons, List.replicate_succ]
  · rw [h.attempts, hout', List.length_cons]
    omega

theorem exec_attempt (hx : x.scheduled.tzinfo = .utc) : ∀ {left n s log o t},
    Exec (x.attempt left n) s log o t → (n : Int) + left = x.definition.retry_limit + 1 →
    0 < left → ∃ run, o = .ok (some run) ∧ Looped x left n s log run t := by
  intro left
  induction left with
  | zero => intro n s log o t _ _ hpos; exact absurd hpos (lt_irrefl 0)
  | succ left ih =>
    intro n s log o t h hleft _
    simp only [Slot.attempt, Program.bind_eq, exec_isCancelled] at h
    obtain ⟨rest, rfl, h⟩ := h
    by_cases hc : s.cancelled x.key
    · rw [if_pos hc] at h
      simp only [exec_now, Program.pure_eq, exec_record_bind hx, Program.exec_pure] at h
      obtain ⟨z, _, rfl, rest, rfl, rfl, rfl, rfl⟩ := h
      refine ⟨_, rfl, rfl, rfl, ?_, fun _ => rfl, filed_file s _⟩
      exact .cancelled (by simp [outcomes]) (by simp [outcomes]) hc
    · rw [if_neg hc] at h
      obtain ⟨e, he, _⟩ | ⟨a, u, l₁, l₂, hit, hnext, rfl⟩ := Program.exec_bind.mp h
      · obtain ⟨_, _, _, ⟨_, _, _, hok, _⟩ | ⟨_, _, _, hok, _⟩ | ⟨_, _, hok, _⟩⟩ :=
          exec_iteration hx he <;> cases hok
      · obtain ⟨r, hent, hout, ⟨m, run, rfl, hok, hst, hat, hfiled⟩ |
          ⟨run, hr, hn, hok, hst, hat, hfiled⟩ | ⟨hr, hn, hok, hframe, hact, hhist⟩⟩ :=
          exec_iteration hx hit
        · cases hok
          simp only [Program.pure_eq, Program.exec_pure] at hnext
          obtain ⟨rfl, rfl, rfl⟩ := hnext
          rw [List.append_nil]
          refine ⟨run, rfl, .single hent hout hat ?_ hfiled⟩
          rw [hst]
          exact .succeeded (List.nil_append [_]).symm (by simp) (by simp)
        · cases hok
          simp only [Program.pure_eq, Program.exec_pure] at hnext
          obtain ⟨rfl, rfl, rfl⟩ := hnext
          rw [List.append_nil]
          refine ⟨run, rfl, .single hent hout hat ?_ hfiled⟩
          rw [hst]
          refine .failed (by simpa using hr) ?_
          push_cast at hn hleft
          simp only [List.length_cons, List.length_nil]
          omega
        · cases hok
          push_cast at hn hleft
          obtain ⟨run, rfl, hloop⟩ := ih hnext (by push_cast; omega) (by omega)
          exact ⟨run, rfl, .cons hent hout hr hframe hact hhist hloop⟩

/-- The counter goes back to what it was before the call. -/
theorem exec_release {n : Int} (hn : s.active x.schedule_id = some (n + 1))
    (h : Exec x.release s log o t) : o = .ok () ∧ Silent log ∧
      t = s.setCount x.schedule_id (if n = 0 then none else some n) := by
  simp only [Slot.release, Program.bind_eq, exec_getActive hn, exec_setActive,
    Int.add_sub_cancel] at h
  obtain ⟨_, rfl, _, rfl, h⟩ := h
  rw [exec_getActive (n := n) (by simp [Scheduler.setCount])] at h
  obtain ⟨_, rfl, h⟩ := h
  split at h
  · rename_i hz
    simp only [Code.delActive, Program.exec_issue, Scheduler.apply, Scheduler.setCount,
      Function.update_self, Option.isSome_some, Program.exec_pure, Function.update_idem] at h
    obtain ⟨_, _, rfl, rfl, rfl, rfl⟩ := h
    simp [hz, Silent, enters, outcomes, Scheduler.setCount]
  · rename_i hz
    simp only [Program.pure_eq, Program.exec_pure] at h
    obtain ⟨rfl, rfl, rfl⟩ := h
    simp [hz, Silent, enters, outcomes, Scheduler.setCount]

theorem Frame.setCount (s : Scheduler) (i : String) (n : Option Int) : Frame s (s.setCount i n) :=
  ⟨rfl, rfl, rfl, fun _ h => h⟩

theorem exec_execute (hx : x.scheduled.tzinfo = .utc) (hretry : 0 ≤ x.definition.retry_limit)
    (hact : s.active x.schedule_id ≠ some 0) (h : Exec x.execute s log o t) :
    ∃ run, o = .ok run ∧ Looped x (x.definition.retry_limit + 1).toNat 0 s log run t := by
  simp only [Slot.execute, Program.bind_eq, exec_activeCount, exec_setActive] at h
  obtain ⟨_, rfl, rest, rfl, h⟩ := h
  generalize hn : (s.active x.schedule_id).getD 0 = n at h
  have hback : Function.update s.active x.schedule_id (if n = 0 then none else some n) =
      s.active := by
    subst hn
    cases ha : s.active x.schedule_id with
    | none => simp [ha]
    | some m =>
      have hm : m ≠ 0 := fun hm => hact (by rw [ha, hm])
      simp [ha, hm]
  -- the loop and the `finally` block, whatever comes after
  have hbody : ∀ {l o' u}, Exec (Program.tryFinally
      (x.attempt (x.definition.retry_limit + 1).toNat 0) x.release)
      (s.setCount x.schedule_id (some (n + 1))) l o' u →
      ∃ run, o' = .ok (some run) ∧ Looped x (x.definition.retry_limit + 1).toNat 0 s l run u := by
    intro l o' u hl
    obtain ⟨o₁, v, l₁, l₂, hatt, rfl, hfin⟩ := Program.exec_tryFinally.mp hl
    obtain ⟨run, rfl, hloop⟩ := exec_attempt hx hatt (by push_cast; omega) (by omega)
    have hv : v.active x.schedule_id = some (n + 1) := by
      simp [hloop.filed.active, Scheduler.setCount]
    obtain ⟨hrel, rfl⟩ | ⟨e, hrel, _⟩ := hfin
    · obtain ⟨_, ⟨hent, hout⟩, rfl⟩ := exec_release hv hrel
      refine ⟨run, rfl, ?_, ?_, ?_, ?_, ?_⟩
      · simp [hent, hout, hloop.entered]
      · simp [hout, hloop.attempts]
      · rw [outcomes_append, hout, List.append_nil]
        exact hloop.verdict
      · intro hnil
        exact hloop.quiet (by simpa [hout] using hnil)
      · refine ⟨(Frame.setCount s _ _).trans (hloop.filed.frame.trans (.setCount v _ _)), ?_,
          hloop.filed.own, hloop.filed.history⟩
        simp only [Scheduler.setCount, hloop.filed.active, Function.update_idem, hback]
    · cases (exec_release hv hrel).1
  obtain ⟨e, he, _⟩ | ⟨a, u, l₁, l₂, hb, hret, rfl⟩ := Program.exec_bind.mp h
  · obtain ⟨_, hok, _⟩ := hbody he
    cases hok
  · obtain ⟨run, hok, hloop⟩ := hbody hb
    cases hok
    simp only [Program.pure_eq, Program.exec_pure] at hret
    obtain ⟨rfl, rfl, rfl⟩ := hret
    exact ⟨run, rfl, by simpa [enters, outcomes] using hloop.entered,
      by simpa [outcomes] using hloop.attempts, by simpa [outcomes] using hloop.verdict,
      by simpa [outcomes] using hloop.quiet, hloop.filed⟩

/-- The ways in which `trigger` deals with a slot. -/
inductive SlotCase (x : Slot) (s : Scheduler) (log : Log) (o : Except PyError ScheduleRun)
    (t : Scheduler) : Prop
  | duplicate {run} : s.history.get x.key = some run → Silent log → o = .ok run → t = s →
      SlotCase x s log o t
  | cancelled {run} : s.history.get x.key = none → s.cancelled x.key → Silent log →
      run = .of x.schedule_id .cancelled x.started x.started 0 "schedule was cancelled"
        x.scheduled → o = .ok run → t = s.file run → SlotCase x s log o t
  | saturated {run} : s.history.get x.key = none → ¬ s.cancelled x.key →
      (s.active x.schedule_id).getD 0 ≥ x.definition.max_concurrency → Silent log →
      run = .of x.schedule_id .skipped x.started x.started 0 "concurrency limit reached"
        x.scheduled → o = .ok run → t = s.file run → SlotCase x s log o t
  | executed {run} : s.history.get x.key = none → ¬ s.cancelled x.key →
      (s.active x.schedule_id).getD 0 < x.definition.max_concurrency → o = .ok run →
      Looped x (x.definition.retry_limit + 1).toNat 0 s log run t → SlotCase x s log o t

theorem exec_slot (hx : x.scheduled.tzinfo = .utc) (hretry : 0 ≤ x.definition.retry_limit)
    (hact : s.active x.schedule_id ≠ some 0) (h : Exec x.run s log o t) :
    SlotCase x s log o t := by
  simp only [Slot.run, Program.bind_eq, exec_inHistory] at h
  obtain ⟨_, rfl, h⟩ := h
  cases hh : s.history.get x.key with
  | some run =>
    rw [hh, Option.isSome_some, if_pos rfl] at h
    simp only [Code.fromHistory, Program.exec_issue, Scheduler.apply, hh,
      Program.exec_pure] at h
    obtain ⟨_, _, rfl, rfl, rfl, rfl⟩ := h
    exact .duplicate hh ⟨rfl, rfl⟩ rfl rfl
  | none =>
    rw [hh, Option.isSome_none, if_neg Bool.false_ne_true] at h
    simp only [exec_isCancelled] at h
    obtain ⟨_, rfl, h⟩ := h
    by_cases hc : s.cancelled x.key
    · rw [if_pos hc, exec_record_utc hx] at h
      obtain ⟨rfl, rfl, rfl⟩ := h
      exact .cancelled hh hc ⟨rfl, rfl⟩ rfl rfl rfl
    · rw [if_neg hc] at h
      simp only [exec_activeCount] at h
      obtain ⟨_, rfl, h⟩ := h
      by_cases hm : (s.active x.schedule_id).getD 0 ≥ x.definition.max_concurrency
      · rw [if_pos hm, exec_record_utc hx] at h
        obtain ⟨rfl, rfl, rfl⟩ := h
        exact .saturated hh hc hm ⟨rfl, rfl⟩ rfl rfl rfl
      · rw [if_neg hm] at h
        obtain ⟨run, rfl, hloop⟩ := exec_execute hx hretry hact h
        exact .executed hh hc (not_le.mp hm) rfl
          ⟨hloop.entered, hloop.attempts, hloop.verdict, hloop.quiet, hloop.filed⟩

end Loop

section Decision

/-- What `trigger` makes of a call before it looks at its slot. -/
inductive Decision
  | refuse (status : ScheduleStatus) (message : String)
  | slot (scheduled : DateTime)

/-- The refusals of `trigger`, in the order in which they are checked. -/
def Trigger.decision (L : Library) (c : Trigger) (d : ScheduleDefinition) (paused : Bool) :
    Except PyError Decision :=
  if paused then .ok (.refuse .paused "schedule is paused")
  else if d.permissions_mode ≠ "read_only" ∧ ¬ c.approval_granted then
    .ok (.refuse .blocked "scheduled write requires explicit approval")
  else
    match d.hasExpired L c.now with
    | .error e => .error e
    | .ok true => .ok (.refuse .expired "schedule has expired")
    | .ok false =>
      match d.scheduled_for L c.now with
      | .error e => .error e
      | .ok none => .ok (.refuse .skipped "not due")
      | .ok (some scheduled) => .ok (.slot scheduled)

def Decision.code (c : Trigger) (d : ScheduleDefinition) (started : DateTime) :
    Decision → Code ScheduleRun
  | .refuse status message => _record c.schedule_id status started started 0 message c.now
  | .slot scheduled => Slot.run ⟨d, c.schedule_id, started, scheduled, c.finding⟩

theorem Trigger.program_eq (L : Library) (c : Trigger) : c.program L =
    (_require c.schedule_id).bind fun d => Code.now.bind fun started =>
      (Code.isPaused c.schedule_id).bind fun paused =>
        (Program.ofExcept (c.decision L d paused)).bind (Decision.code c d started) := by
  simp only [Trigger.program, Program.bind_eq]
  congr 1
  funext d
  congr 1
  funext started
  congr 1
  funext paused
  unfold Trigger.decision
  split
  · rfl
  split
  · rfl
  cases d.hasExpired L c.now with
  | error e => rfl
  | ok expired =>
    cases expired with
    | true => rfl
    | false =>
      cases d.scheduled_for L c.now with
      | error e => rfl
      | ok slot => cases slot <;> rfl

/-- The ways in which a `trigger` call can end. -/
inductive TriggerCase (L : Library) (c : Trigger) (s : Scheduler) (log : Log)
    (o : Except PyError ScheduleRun) (t : Scheduler) : Prop
  | unknown : s.definitions c.schedule_id = none → Silent log →
      o = .error (.keyError ("unknown schedule: " ++ c.schedule_id)) → t = s →
      TriggerCase L c s log o t
  | raised {d e} : s.definitions c.schedule_id = some d →
      c.decision L d (s.paused c.schedule_id) = .error e → Silent log → o = .error e → t = s →
      TriggerCase L c s log o t
  | unrecorded {d status message e} : s.definitions c.schedule_id = some d →
      c.decision L d (s.paused c.schedule_id) = .ok (.refuse status message) →
      c.now.astimezone .utc = .error e → Silent log → o = .error e → t = s →
      TriggerCase L c s log o t
  | refused {d status message started u run} : s.definitions c.schedule_id = some d →
      c.decision L d (s.paused c.schedule_id) = .ok (.refuse status message) →
      c.now.astimezone .utc = .ok u → Silent log →
      run = .of c.schedule_id status started started 0 message u → o = .ok run →
      t = s.file run → TriggerCase L c s log o t
  | slot {d started scheduled log'} : s.definitions c.schedule_id = some d →
      c.decision L d (s.paused c.schedule_id) = .ok (.slot scheduled) →
      enters log = enters log' → outcomes log = outcomes log' →
      SlotCase ⟨d, c.schedule_id, started, scheduled, c.finding⟩ s log' o t →
      TriggerCase L c s log o t

theorem decision_slot {L : Library} {c : Trigger} {d : ScheduleDefinition} {p : Bool}
    {z : DateTime} (h : c.decision L d p = .ok (.slot z)) :
    d.hasExpired L c.now = .ok false ∧ d.scheduled_for L c.now = .ok (some z) := by
  unfold Trigger.decision at h
  split at h
  · cases h
  split at h
  · cases h
  split at h
  · cases h
  · cases h
  · rename_i hlive
    split at h
    · cases h
    · cases h
    · rename_i hz
      cases h
      exact ⟨hlive, hz⟩

theorem exec_trigger {L : Library} {c : Trigger}
    (hretry : ∀ d, s.definitions c.schedule_id = some d → 0 ≤ d.retry_limit)
    (hact : s.active c.schedule_id ≠ some 0) (h : Exec (c.program L) s log o t) :
    TriggerCase L c s log o t := by
  rw [Trigger.program_eq] at h
  simp only [_require, Program.cmd_bind, Program.exec_issue, Scheduler.apply] at h
  obtain ⟨_, _, rfl, h⟩ := h
  cases hd : s.definitions c.schedule_id with
  | none =>
    simp only [hd, Program.throw_bind, Program.exec_throw] at h
    obtain ⟨rfl, rfl, rfl⟩ := h
    exact .unknown hd ⟨rfl, rfl⟩ rfl rfl
  | some d =>
    simp only [hd, Program.pure_bind, exec_now, exec_isPaused] at h
    obtain ⟨started, _, rfl, rest, rfl, h⟩ := h
    cases hdec : c.decision L d (s.paused c.schedule_id) with
    | error e =>
      simp only [hdec, Program.ofExcept_error, Program.throw_bind, Program.exec_throw] at h
      obtain ⟨rfl, rfl, rfl⟩ := h
      exact .raised hd hdec ⟨rfl, rfl⟩ rfl rfl
    | ok dec =>
      simp only [hdec, Program.ofExcept_ok, Program.pure_bind] at h
      cases dec with
      | refuse status message =>
        obtain ⟨e, hu, rfl, rfl, rfl⟩ | ⟨u, hu, rfl, rfl, rfl⟩ := exec_record.mp h
        · exact .unrecorded hd hdec hu ⟨rfl, rfl⟩ rfl rfl
        · exact .refused hd hdec hu ⟨rfl, rfl⟩ rfl rfl rfl
      | slot z =>
        have hslot := exec_slot (d.scheduled_for_utc (decision_slot hdec).2) (hretry d hd) hact h
        exact .slot hd hdec (rfl : _ = enters rest) rfl hslot

end Decision

end EnterpriseCopilot.Schedule
