import EnterpriseCopilot.Schedule.Calls

/-! Where a `trigger` call is between two of its operations. -/

namespace EnterpriseCopilot.Schedule

open EnterpriseCopilot.Lib EnterpriseCopilot.Python

/-- The operation a call performs next, with what it has found out so far.  In the
loop, `left` iterations follow the present one and `n` attempts lie behind. -/
inductive Stage
  | fetch (c : Trigger)
  | clock (c : Trigger) (d : ScheduleDefinition)
  | gate (c : Trigger) (d : ScheduleDefinition) (started : DateTime)
  | file (run : ScheduleRun)
  | lookup (x : Slot)
  | duplicate (x : Slot)
  | precheck (x : Slot)
  | limit (x : Slot)
  | reserve (x : Slot)
  | acquire (x : Slot) (m : Int)
  | again (x : Slot) (left n : Nat)
  | stopped (x : Slot) (n : Nat)
  | fileStopped (x : Slot) (run : ScheduleRun)
  | enter (x : Slot) (left n : Nat)
  | leave (x : Slot) (left n : Nat)
  | finish (x : Slot) (n : Nat) (message : String)
  | failing (x : Slot) (n : Nat)
  | fileDone (x : Slot) (run : ScheduleRun) (finding : Bool)
  | askSink (x : Slot) (run : ScheduleRun) (finding : Bool)
  | send (x : Slot) (channel : String) (run : ScheduleRun)
  | fileSent (x : Slot) (run : ScheduleRun)
  | release (x : Slot) (out : Option ScheduleRun)
  | lower (x : Slot) (out : Option ScheduleRun) (m : Int)
  | recheck (x : Slot) (out : Option ScheduleRun)
  | drop (x : Slot) (out : Option ScheduleRun)

namespace Stage

def cmd : Stage → Cmd
  | fetch c => .definition c.schedule_id
  | clock _ _ => .now
  | gate c _ _ => .isPaused c.schedule_id
  | file run => .record run
  | lookup x => .inHistory x.key
  | duplicate x => .fromHistory x.key
  | precheck x => .isCancelled x.key
  | limit x => .activeCount x.schedule_id
  | reserve x => .activeCount x.schedule_id
  | acquire x m => .setActive x.schedule_id (m + 1)
  | again x _ _ => .isCancelled x.key
  | stopped _ _ => .now
  | fileStopped _ run => .record run
  | enter x _ _ => .enter x.definition x.key
  | leave x _ _ => .leave x.definition x.key
  | finish _ _ _ => .now
  | failing _ _ => .now
  | fileDone _ run _ => .record run
  | askSink _ _ _ => .hasNotifier
  | send x channel run => .send channel x.definition run
  | fileSent _ run => .record run
  | release x _ => .getActive x.schedule_id
  | lower x _ m => .setActive x.schedule_id (m - 1)
  | recheck x _ => .getActive x.schedule_id
  | drop x _ => .delActive x.schedule_id

end Stage

/-- The result of the loop, after the `finally` block. -/
def Slot.result : Option ScheduleRun → Except PyError ScheduleRun
  | some run => .ok run
  | none => .error (.runtimeError "scheduler reached an invalid terminal state")

/-- The run filed for a slot at the end of a call. -/
def Slot.runOf (x : Slot) (status : ScheduleStatus) (finished : DateTime) (attempts : Nat)
    (message : String) : ScheduleRun :=
  .of x.schedule_id status x.started finished attempts message x.scheduled

namespace Stage

variable (L : Library)

/-- A call goes on to another stage, or ends. -/
abbrev Next := Stage ⊕ Except PyError ScheduleRun

/-- The head of the loop with `left` iterations to go. -/
def head (x : Slot) : Nat → Nat → Next
  | 0, _ => .inl (.release x none)
  | left + 1, n => .inl (.again x left n)

def decided (c : Trigger) (d : ScheduleDefinition) (started : DateTime) :
    Except PyError Decision → Next
  | .error e => .inr (.error e)
  | .ok (.refuse status message) =>
    match c.now.astimezone .utc with
    | .error e => .inr (.error e)
    | .ok utc => .inl (.file (.of c.schedule_id status started started 0 message utc))
  | .ok (.slot scheduled) => .inl (.lookup ⟨d, c.schedule_id, started, scheduled, c.finding⟩)

def limited (x : Slot) (m : Int) : Next :=
  if m ≥ x.definition.max_concurrency then
    .inl (.file (x.runOf .skipped x.started 0 "concurrency limit reached"))
  else .inl (.reserve x)

/-- After a failed attempt, the `n`-th. -/
def failed (x : Slot) (left n : Nat) : Next :=
  if (n : Int) > x.definition.retry_limit then .inl (.failing x n) else head x left n

/-- What a call does with the answer to its operation. -/
def next : (st : Stage) → Reply st.cmd → Next
  | fetch c, r =>
    match (r : Option ScheduleDefinition) with
    | some d => .inl (.clock c d)
    | none => .inr (.error (.keyError ("unknown schedule: " ++ c.schedule_id)))
  | clock c d, r => .inl (.gate c d r)
  | gate c d started, r => decided c d started (c.decision L d r)
  | file run, _ => .inr (.ok run)
  | lookup x, r =>
    match (r : Bool) with
    | true => .inl (.duplicate x)
    | false => .inl (.precheck x)
  | duplicate x, r =>
    match (r : Option ScheduleRun) with
    | some run => .inr (.ok run)
    | none => .inr (.error (.keyError x.key))
  | precheck x, r =>
    match (r : Bool) with
    | true => .inl (.file (x.runOf .cancelled x.started 0 "schedule was cancelled"))
    | false => .inl (.limit x)
  | limit x, r => limited x r
  | reserve x, r => .inl (.acquire x r)
  | acquire x _, _ => head x (x.definition.retry_limit + 1).toNat 0
  | again x left n, r =>
    match (r : Bool) with
    | true => .inl (.stopped x n)
    | false => .inl (.enter x left n)
  | stopped x n, r => .inl (.fileStopped x (x.runOf .cancelled r n "schedule was cancelled"))
  | fileStopped x run, _ => .inl (.release x (some run))
  | enter x left n, _ => .inl (.leave x left n)
  | leave x left n, r =>
    match (r : Except String String) with
    | .ok message => .inl (.finish x (n + 1) message)
    | .error _ => failed x left (n + 1)
  | finish x n message, r => .inl (.fileDone x (x.runOf .succeeded r n message) x.finding)
  | failing x n, r => .inl (.fileDone x
      (x.runOf .failed r n "scheduled execution failed after retry limit") false)
  | fileDone x run finding, _ => .inl (.askSink x run finding)
  | askSink x run finding, r =>
    match (r : Bool), x.definition.notify_channel with
    | true, some channel => .inl (if shouldNotify x.definition run finding then
        .send x channel run else .release x (some run))
    | _, _ => .inl (.release x (some run))
  | send x _ run, r =>
    match (r : Option String) with
    | some name => .inl (.fileSent x { run with notification_error := some name })
    | none => .inl (.fileSent x { run with notification_sent := true })
  | fileSent x run, _ => .inl (.release x (some run))
  | release x out, r =>
    match (r : Option Int) with
    | some m => .inl (.lower x out m)
    | none => .inr (.error (.keyError x.schedule_id))
  | lower x out _, _ => .inl (.recheck x out)
  | recheck x out, r =>
    match (r : Option Int) with
    | some m => if m = 0 then .inl (.drop x out) else .inr (Slot.result out)
    | none => .inr (.error (.keyError x.schedule_id))
  | drop x out, r =>
    match (r : Bool) with
    | true => .inr (Slot.result out)
    | false => .inr (.error (.keyError x.schedule_id))

end Stage

section Code

variable {L : Library} {x : Slot} {out : Option ScheduleRun} {run : ScheduleRun} {finding : Bool}

/-- The code is what is left of a call at the stage. -/
inductive At (L : Library) : Stage → Code ScheduleRun → Prop
  | mk {st : Stage} {k} : (∀ r st', st.next L r = .inl st' → At L st' (k r)) →
      (∀ r o, st.next L r = .inr o → k r = .ofExcept o) → At L st (.cmd st.cmd k)

def Leads (L : Library) (p : Code ScheduleRun) : Stage.Next → Prop
  | .inl st => At L st p
  | .inr o => p = .ofExcept o

theorem At.intro (st : Stage) {k} (h : ∀ r, Leads L (k r) (st.next L r)) :
    At L st (.cmd st.cmd k) := by
  refine .mk (fun r st' hr => ?_) fun r o hr => ?_
  · have hl := h r
    rwa [hr] at hl
  · have hl := h r
    rwa [hr] at hl

theorem at_release {f : Unit → Code ScheduleRun} (hf : f () = .ofExcept (Slot.result out)) :
    At L (.release x out) (x.release.bind f) := by
  refine At.intro (.release x out) fun r => ?_
  cases r with
  | none => rfl
  | some m =>
    refine At.intro (.lower x out m) fun _ => At.intro (.recheck x out) fun r => ?_
    cases r with
    | none => rfl
    | some m' =>
      change Leads L (((if m' = 0 then Code.delActive x.schedule_id else .pure ()) : Code Unit).bind f)
        (if m' = 0 then .inl (.drop x out) else .inr (Slot.result out))
      split
      · refine At.intro (.drop x out) fun r => ?_
        cases r with
        | true => exact hf
        | false => rfl
      · exact hf

/-- The `finally` block around the loop, and what follows it. -/
def Slot.wrap (x : Slot) (p : Code (Option ScheduleRun)) : Code ScheduleRun :=
  (p.tryFinally x.release).bind fun out => .ofExcept (Slot.result out)

theorem execute_eq (x : Slot) : x.execute = (Code.activeCount x.schedule_id).bind fun n =>
    (Code.setActive x.schedule_id (n + 1)).bind fun _ =>
      x.wrap (x.attempt (x.definition.retry_limit + 1).toNat 0) := by
  unfold Slot.execute Slot.wrap
  simp only [Program.bind_eq]
  congr 1
  funext n
  congr 1
  funext _
  congr 1
  funext out
  cases out <;> rfl

theorem at_returned : At L (.release x out) (x.wrap (.pure out)) := by
  unfold Slot.wrap
  simp only [Program.tryFinally, Program.bind_assoc]
  exact at_release rfl

theorem at_askSink : At L (.askSink x run finding)
    (x.wrap ((_notify x.definition run finding).bind fun r => .pure (some r))) := by
  have sent : ∀ run, At L (.fileSent x run)
      (x.wrap (.cmd (.record run) fun _ => .pure (some run))) :=
    fun run => At.intro (.fileSent x run) fun _ => at_returned
  have quiet : At L (.release x (some run)) (x.wrap (.pure (some run))) := at_returned
  refine At.intro (.askSink x run finding) fun r => ?_
  cases r with
  | false => exact quiet
  | true =>
    cases hch : x.definition.notify_channel with
    | none =>
      simp only [Stage.next, hch]
      exact quiet
    | some channel =>
      simp only [Stage.next, hch, Program.pure_bind]
      by_cases hn : shouldNotify x.definition run finding = true
      · simp only [if_pos hn]
        refine At.intro (.send x channel run) fun r => ?_
        cases r with
        | some name => exact sent _
        | none => exact sent _
      · simp only [if_neg hn]
        exact quiet

/-- The rest of an iteration whose `try` block is at `p`. -/
def Slot.iteration (x : Slot) (left n : Nat) (p : Code ScheduleRun) : Code (Option ScheduleRun) :=
  ((p.bind fun run => .pure (some run)).tryCatch fun _ => x.giveUp n).bind fun
    | some run => .pure (some run)
    | none => x.attempt left n

theorem attempt_succ (x : Slot) (left n : Nat) : x.attempt (left + 1) n =
    (Code.isCancelled x.key).bind fun b => if b then
      Code.now.bind fun finished => (_record x.schedule_id .cancelled x.started finished n
        "schedule was cancelled" x.scheduled).bind fun run => .pure (some run)
    else x.iteration left (n + 1) (x.succeed (n + 1)) := by
  conv_lhs => unfold Slot.attempt
  simp only [Program.bind_eq, Program.pure_eq, Program.map_eq]
  rfl

/-- A notification ends an iteration, in the `try` block as in the `except` block. -/
theorem iteration_notify {left n : Nat} {run : ScheduleRun} :
    x.iteration left n (_notify x.definition run finding) =
      (_notify x.definition run finding).bind fun run => .pure (some run) := by
  unfold Slot.iteration _notify
  simp only [Program.bind_eq, Program.pure_eq, Code.hasNotifier, Program.cmd_bind,
    Program.cmd_tryCatch, Program.pure_bind]
  congr 1
  funext b
  split
  · split
    · rfl
    · rfl
  · rfl

/-- The end of an iteration after an attempt that returned. -/
def Slot.succeeded (x : Slot) (n : Nat) (message : String) : Code ScheduleRun :=
  Code.now.bind fun finished => (_record x.schedule_id .succeeded x.started finished n message
    x.scheduled).bind fun run => _notify x.definition run x.finding

theorem succeed_eq (x : Slot) (n : Nat) : x.succeed n =
    .cmd (.enter x.definition x.key) fun _ => .cmd (.leave x.definition x.key) fun
      | .ok message => x.succeeded n message
      | .error name => .throw (.exception name) := by
  unfold Slot.succeed
  simp only [Program.bind_eq, Code.executor, Program.cmd_bind]
  congr 1
  funext _
  congr 1
  funext r
  cases r <;> rfl

theorem record_eq (hx : x.scheduled.tzinfo = .utc) (status : ScheduleStatus) (finished : DateTime)
    (n : Nat) (message : String) : _record x.schedule_id status x.started finished n message
      x.scheduled = .cmd (.record (x.runOf status finished n message)) fun _ =>
        .pure (x.runOf status finished n message) := by
  unfold _record
  rw [DateTime.astimezone_utc hx]
  rfl

theorem at_fileDone : At L (.fileDone x run finding) (x.wrap (.cmd (.record run) fun _ =>
    (_notify x.definition run finding).bind fun r => .pure (some r))) :=
  At.intro (.fileDone x run finding) fun _ => at_askSink

theorem at_finish (hx : x.scheduled.tzinfo = .utc) {left n : Nat} {message : String} :
    At L (.finish x n message) (x.wrap (x.iteration left n (x.succeeded n message))) := by
  refine At.intro (.finish x n message) fun (finished : DateTime) => ?_
  change At L _ (x.wrap (x.iteration left n ((_record x.schedule_id .succeeded x.started finished n
    message x.scheduled).bind fun run => _notify x.definition run x.finding)))
  rw [record_eq hx]
  change At L _ (x.wrap (.cmd (.record _) fun _ => x.iteration left n (_notify _ _ _)))
  simp only [iteration_notify]
  exact at_fileDone

theorem at_failing (hx : x.scheduled.tzinfo = .utc) {left n : Nat}
    (hn : (n : Int) > x.definition.retry_limit) : At L (.failing x n)
      (x.wrap ((x.giveUp n).bind fun
        | some run => .pure (some run)
        | none => x.attempt left n)) := by
  unfold Slot.giveUp
  rw [if_pos hn]
  refine At.intro (.failing x n) fun (finished : DateTime) => ?_
  simp only [record_eq hx, Program.bind_eq, Program.pure_eq, Program.cmd_bind, Program.pure_bind,
    Program.bind_assoc]
  exact at_fileDone

theorem at_stopped (hx : x.scheduled.tzinfo = .utc) {n : Nat} : At L (.stopped x n)
    (x.wrap (Code.now.bind fun finished => (_record x.schedule_id .cancelled x.started finished n
      "schedule was cancelled" x.scheduled).bind fun run => .pure (some run))) := by
  refine At.intro (.stopped x n) fun (finished : DateTime) => ?_
  simp only [record_eq hx, Program.cmd_bind, Program.pure_bind]
  exact At.intro (.fileStopped x _) fun _ => at_returned

theorem at_leave (hx : x.scheduled.tzinfo = .utc) {left n : Nat}
    (ih : Leads L (x.wrap (x.attempt left (n + 1))) (Stage.head x left (n + 1))) :
    At L (.leave x left n) (x.wrap (x.iteration left (n + 1)
      (.cmd (.leave x.definition x.key) fun
        | .ok message => x.succeeded (n + 1) message
        | .error name => .throw (.exception name)))) := by
  refine At.intro (.leave x left n) fun r => ?_
  cases r with
  | ok message => exact at_finish hx
  | error name =>
    change Leads L (x.wrap ((x.giveUp (n + 1)).bind _)) (Stage.failed x left (n + 1))
    unfold Stage.failed
    split
    · rename_i hn
      exact at_failing hx hn
    · rename_i hn
      unfold Slot.giveUp
      rw [if_neg hn]
      exact ih

/-- The loop follows the stages, however many iterations are left. -/
theorem at_head (hx : x.scheduled.tzinfo = .utc) : ∀ left n,
    Leads L (x.wrap (x.attempt left n)) (Stage.head x left n) := by
  intro left
  induction left with
  | zero => intro n; exact at_returned
  | succ left ih =>
    intro n
    rw [attempt_succ]
    refine At.intro (.again x left n) fun r => ?_
    cases r with
    | true => exact at_stopped hx
    | false =>
      change At L (.enter x left n) (x.wrap (x.iteration left (n + 1) (x.succeed (n + 1))))
      rw [succeed_eq]
      exact At.intro (.enter x left n) fun _ => at_leave hx (ih (n + 1))

theorem at_file (run : ScheduleRun) :
    At L (.file run) (.cmd (.record run) fun _ => .pure run) :=
  At.intro (.file run) fun _ => rfl

theorem at_lookup (hx : x.scheduled.tzinfo = .utc) : At L (.lookup x) x.run := by
  refine At.intro (.lookup x) fun r => ?_
  cases r with
  | true =>
    refine At.intro (.duplicate x) fun r => ?_
    cases r <;> rfl
  | false =>
    refine At.intro (.precheck x) fun r => ?_
    cases r with
    | true =>
      change At L _ (_record x.schedule_id .cancelled x.started x.started 0 _ x.scheduled)
      rw [record_eq hx]
      exact at_file _
    | false =>
      refine At.intro (.limit x) fun (m : Int) => ?_
      change Leads L (if m ≥ x.definition.max_concurrency then _ else x.execute)
        (Stage.limited x m)
      unfold Stage.limited
      split
      · rw [record_eq hx]
        exact at_file _
      · rw [execute_eq]
        exact At.intro (.reserve x) fun n => At.intro (.acquire x n) fun _ =>
          at_head hx _ _

/-- A call starts at the first stage. -/
theorem at_fetch (c : Trigger) : At L (.fetch c) (c.program L) := by
  rw [Trigger.program_eq]
  refine At.intro (.fetch c) fun r => ?_
  cases r with
  | none => rfl
  | some d =>
    refine At.intro (.clock c d) fun started => At.intro (.gate c d started) fun paused => ?_
    change Leads L ((Program.ofExcept (c.decision L d paused)).bind (Decision.code c d started))
      (Stage.decided c d started (c.decision L d paused))
    cases hdec : c.decision L d paused with
    | error e => rfl
    | ok dec =>
      cases dec with
      | refuse status message =>
        simp only [Program.ofExcept_ok, Program.pure_bind, Decision.code, Stage.decided, _record]
        cases c.now.astimezone .utc with
        | error e => rfl
        | ok utc => exact at_file _
      | slot z => exact at_lookup (d.scheduled_for_utc (decision_slot hdec).2)


end Code

section Moves

/-- The ways in which a call can go on. -/
inductive Moves (L : Library) : (st : Stage) → Reply st.cmd → Stage → Prop
  | fetched {c d} : Moves L (.fetch c) (some d) (.clock c d)
  | timed {c d} (z : DateTime) : Moves L (.clock c d) z (.gate c d z)
  | refused {c d started b status message utc} :
      c.decision L d b = .ok (.refuse status message) → c.now.astimezone .utc = .ok utc →
      Moves L (.gate c d started) b (.file (.of c.schedule_id status started started 0 message utc))
  | slot {c d started b z} : c.decision L d b = .ok (.slot z) →
      Moves L (.gate c d started) b (.lookup ⟨d, c.schedule_id, started, z, c.finding⟩)
  | known {x} : Moves L (.lookup x) true (.duplicate x)
  | unknown {x} : Moves L (.lookup x) false (.precheck x)
  | cancelled {x} : Moves L (.precheck x) true
      (.file (x.runOf .cancelled x.started 0 "schedule was cancelled"))
  | cleared {x} : Moves L (.precheck x) false (.limit x)
  | saturated {x} {m : Int} : m ≥ x.definition.max_concurrency → Moves L (.limit x) m
      (.file (x.runOf .skipped x.started 0 "concurrency limit reached"))
  | admitted {x} {m : Int} : m < x.definition.max_concurrency → Moves L (.limit x) m (.reserve x)
  | reserved {x} (m : Int) : Moves L (.reserve x) m (.acquire x m)
  | begun {x m left} : (x.definition.retry_limit + 1).toNat = left + 1 →
      Moves L (.acquire x m) () (.again x left 0)
  | barren {x m} : Moves L (.acquire x m) () (.release x none)
  | stopped {x left n} : Moves L (.again x left n) true (.stopped x n)
  | tried {x left n} : Moves L (.again x left n) false (.enter x left n)
  | stoppedAt {x n} (z : DateTime) : Moves L (.stopped x n) z
      (.fileStopped x (x.runOf .cancelled z n "schedule was cancelled"))
  | entered {x left n} : Moves L (.enter x left n) () (.leave x left n)
  | returned {x left n message} : Moves L (.leave x left n) (.ok message) (.finish x (n + 1) message)
  | exhausted {x left n name} : Moves L (.leave x left n) (.error name) (.failing x (n + 1))
  | retried {x left n name} :
      Moves L (.leave x (left + 1) n) (.error name) (.again x left (n + 1))
  | lost {x n name} : ((n + 1 : Nat) : Int) ≤ x.definition.retry_limit →
      Moves L (.leave x 0 n) (.error name) (.release x none)
  | succeeded {x n message} (z : DateTime) : Moves L (.finish x n message) z
      (.fileDone x (x.runOf .succeeded z n message) x.finding)
  | failed {x n} (z : DateTime) : Moves L (.failing x n) z (.fileDone x
      (x.runOf .failed z n "scheduled execution failed after retry limit") false)
  | filedDone {x run finding} : Moves L (.fileDone x run finding) () (.askSink x run finding)
  | filedStopped {x run} : Moves L (.fileStopped x run) () (.release x (some run))
  | filedSent {x run} : Moves L (.fileSent x run) () (.release x (some run))
  | sending {x run finding channel} : Moves L (.askSink x run finding) true (.send x channel run)
  | silent {x run finding} (b : Bool) : Moves L (.askSink x run finding) b (.release x (some run))
  | unsent {x run channel} (name : String) : Moves L (.send x channel run) (some name)
      (.fileSent x { run with notification_error := some name })
  | sent {x run channel} : Moves L (.send x channel run) none
      (.fileSent x { run with notification_sent := true })
  | released {x out} (m : Int) : Moves L (.release x out) (some m) (.lower x out m)
  | lowered {x out m} : Moves L (.lower x out m) () (.recheck x out)
  | emptied {x out} : Moves L (.recheck x out) (some 0) (.drop x out)

/-- The ways in which a call can end. -/
inductive Ends (L : Library) : (st : Stage) → Reply st.cmd → Except PyError ScheduleRun → Prop
  | missing {c} : Ends L (.fetch c) none (.error (.keyError ("unknown schedule: " ++ c.schedule_id)))
  | raised {c d started b e} : Ends L (.gate c d started) b (.error e)
  | filed {run} : Ends L (.file run) () (.ok run)
  | duplicate {x run} : Ends L (.duplicate x) (some run) (.ok run)
  | vanished {x} : Ends L (.duplicate x) none (.error (.keyError x.key))
  | unreleased {x out} : Ends L (.release x out) none (.error (.keyError x.schedule_id))
  | unchecked {x out} : Ends L (.recheck x out) none (.error (.keyError x.schedule_id))
  | done {x out} (m : Int) : Ends L (.recheck x out) (some m) (Slot.result out)
  | dropped {x out} : Ends L (.drop x out) true (Slot.result out)
  | undropped {x out} : Ends L (.drop x out) false (.error (.keyError x.schedule_id))

variable {L : Library} {st : Stage}

theorem Stage.next_cases (st : Stage) (r : Reply st.cmd) :
    (∃ st', st.next L r = .inl st' ∧ Moves L st r st') ∨
    ∃ o, st.next L r = .inr o ∧ Ends L st r o := by
  cases st with
  | fetch c =>
    cases r with
    | none => exact .inr ⟨_, rfl, .missing⟩
    | some d => exact .inl ⟨_, rfl, .fetched⟩
  | clock c d => exact .inl ⟨_, rfl, .timed r⟩
  | gate c d started =>
    change (∃ st', Stage.decided c d started (c.decision L d r) = .inl st' ∧ _) ∨
      ∃ o, Stage.decided c d started (c.decision L d r) = .inr o ∧ _
    cases hdec : c.decision L d r with
    | error e => exact .inr ⟨_, rfl, .raised⟩
    | ok dec =>
      cases dec with
      | slot z => exact .inl ⟨_, rfl, .slot hdec⟩
      | refuse status message =>
        simp only [Stage.decided]
        cases hutc : c.now.astimezone .utc with
        | error e => exact .inr ⟨_, rfl, .raised⟩
        | ok utc => exact .inl ⟨_, rfl, .refused hdec hutc⟩
  | file run => exact .inr ⟨_, rfl, .filed⟩
  | lookup x =>
    cases r with
    | true => exact .inl ⟨_, rfl, .known⟩
    | false => exact .inl ⟨_, rfl, .unknown⟩
  | duplicate x =>
    cases r with
    | none => exact .inr ⟨_, rfl, .vanished⟩
    | some run => exact .inr ⟨_, rfl, .duplicate⟩
  | precheck x =>
    cases r with
    | true => exact .inl ⟨_, rfl, .cancelled⟩
    | false => exact .inl ⟨_, rfl, .cleared⟩
  | limit x =>
    by_cases hm : (show Int from r) ≥ x.definition.max_concurrency
    · exact .inl ⟨_, if_pos hm, .saturated hm⟩
    · exact .inl ⟨_, if_neg hm, .admitted (not_le.mp hm)⟩
  | reserve x => exact .inl ⟨_, rfl, .reserved r⟩
  | acquire x m =>
    simp only [Stage.next]
    cases hleft : (x.definition.retry_limit + 1).toNat with
    | zero => exact .inl ⟨_, rfl, .barren⟩
    | succ left => exact .inl ⟨_, rfl, .begun hleft⟩
  | again x left n =>
    cases r with
    | true => exact .inl ⟨_, rfl, .stopped⟩
    | false => exact .inl ⟨_, rfl, .tried⟩
  | stopped x n => exact .inl ⟨_, rfl, .stoppedAt r⟩
  | enter x left n => exact .inl ⟨_, rfl, .entered⟩
  | leave x left n =>
    cases r with
    | ok message => exact .inl ⟨_, rfl, .returned⟩
    | error name =>
      by_cases hn : ((n + 1 : Nat) : Int) > x.definition.retry_limit
      · exact .inl ⟨_, if_pos hn, .exhausted⟩
      · cases left with
        | zero => exact .inl ⟨_, if_neg hn, .lost (not_lt.mp hn)⟩
        | succ left => exact .inl ⟨_, if_neg hn, .retried⟩
  | finish x n message => exact .inl ⟨_, rfl, .succeeded r⟩
  | failing x n => exact .inl ⟨_, rfl, .failed r⟩
  | fileDone x run finding => exact .inl ⟨_, rfl, .filedDone⟩
  | fileStopped x run => exact .inl ⟨_, rfl, .filedStopped⟩
  | fileSent x run => exact .inl ⟨_, rfl, .filedSent⟩
  | askSink x run finding =>
    cases r with
    | false => exact .inl ⟨_, rfl, .silent false⟩
    | true =>
      simp only [Stage.next]
      cases x.definition.notify_channel with
      | none => exact .inl ⟨_, rfl, .silent true⟩
      | some channel =>
        by_cases hn : shouldNotify x.definition run finding = true
        · exact .inl ⟨_, congrArg Sum.inl (if_pos hn), .sending⟩
        · exact .inl ⟨_, congrArg Sum.inl (if_neg hn), .silent true⟩
  | send x channel run =>
    cases r with
    | none => exact .inl ⟨_, rfl, .sent⟩
    | some name => exact .inl ⟨_, rfl, .unsent name⟩
  | release x out =>
    cases r with
    | none => exact .inr ⟨_, rfl, .unreleased⟩
    | some m => exact .inl ⟨_, rfl, .released m⟩
  | lower x out m => exact .inl ⟨_, rfl, .lowered⟩
  | recheck x out =>
    cases r with
    | none => exact .inr ⟨_, rfl, .unchecked⟩
    | some m =>
      by_cases hm : m = 0
      · subst hm
        exact .inl ⟨_, rfl, .emptied⟩
      · exact .inr ⟨_, if_neg hm, .done m⟩
  | drop x out =>
    cases r with
    | true => exact .inr ⟨_, rfl, .dropped⟩
    | false => exact .inr ⟨_, rfl, .undropped⟩

/-- What is left of a call issues the operation of its stage and goes on as the
stages do. -/
theorem At.step {p : Code ScheduleRun} (h : At L st p) : ∃ k, p = .cmd st.cmd k ∧
    ∀ r, (∃ st', Moves L st r st' ∧ At L st' (k r)) ∨
      ∃ o, Ends L st r o ∧ k r = .ofExcept o := by
  cases h with
  | @mk _ k hin hout =>
    refine ⟨k, rfl, fun r => ?_⟩
    obtain ⟨st', hst', hm⟩ | ⟨o, ho, he⟩ := Stage.next_cases (L := L) st r
    · exact .inl ⟨st', hm, hin r st' hst'⟩
    · exact .inr ⟨o, he, hout r o ho⟩

end Moves

end EnterpriseCopilot.Schedule
