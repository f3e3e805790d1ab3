import Mathlib.Data.Finset.Card
import Mathlib.Data.Finset.Max
import EnterpriseCopilot.Lib.Pool
import EnterpriseCopilot.Schedule.Runs
import EnterpriseCopilot.Schedule.Stages

/-! `trigger` calls that overlap in time.  Their operations interleave freely, and
between two operations the schedules may be managed. -/

namespace EnterpriseCopilot.Schedule.Overlap

open EnterpriseCopilot.Lib EnterpriseCopilot.Python

inductive Move
  | register (d : ScheduleDefinition)
  | pause (schedule_id : String)
  | resume (schedule_id : String)
  | cancel (idempotency_key : String)

/-- A management call that raises leaves the scheduler as it is. -/
def Move.apply (L : Library) (s : Scheduler) : Move → Scheduler
  | .register d => (s.register L d).toOption.getD s
  | .pause i => (s.pause i).toOption.getD s
  | .resume i => (s.resume i).toOption.getD s
  | .cancel k => (s.cancel k).toOption.getD s

def pool (L : Library) : Pool Scheduler Cmd Reply Choice Move Trigger PyError ScheduleRun where
  program c := c.program L
  apply s _ c ch := s.apply c ch
  env s m := m.apply L s

abbrev Thread := Pool.Thread Cmd Reply Trigger PyError ScheduleRun
abbrev State := Pool.State Scheduler Cmd Reply Trigger PyError ScheduleRun
abbrev Action := Pool.Action Choice Move Trigger
abbrev Event := Pool.Event Cmd Reply Move Trigger PyError ScheduleRun

section Guard

/-- The key was looked up in the history and not found. -/
def absent (log : Log) : List String :=
  log.filterMap fun
    | ⟨.inHistory k, false⟩ => some k
    | _ => none

/-- How often the call has read the counter in order to start. -/
def counts (log : Log) : Nat :=
  log.countP fun
    | ⟨.activeCount _, _⟩ => true
    | _ => false

/-- How often the call has read the counter in order to end. -/
def gets (log : Log) : Nat :=
  log.countP fun
    | ⟨.getActive _, _⟩ => true
    | _ => false

/-- The call is about to run its slot, or does so: it has passed the check of the
limit and read the counter again. -/
def reserved (th : Thread) (key : String) : Bool := 2 ≤ counts th.log && key ∈ absent th.log

/-- The call has read the counter of the schedule and has yet to change it. -/
def midway (th : Thread) (schedule_id : String) : Bool :=
  match th.rest with
  | .cmd (.setActive i _) _ => i = schedule_id
  | .cmd (.delActive i) _ => i = schedule_id
  | .cmd (.activeCount i) _ => i = schedule_id && 1 ≤ counts th.log
  | .cmd (.getActive i) _ => i = schedule_id && 1 ≤ gets th.log
  | _ => false

/-- No other call in progress is as described. -/
def Alone (s : State) (i : Nat) (p : Thread → Bool) : Prop :=
  ∀ j th, j ≠ i → s.threads j = .live th → p th = false

/-- What must hold before a call performs its next operation. -/
def Permits (s : State) (i : Nat) (th : Thread) : Cmd → Prop
  -- a call reserves its slot only if the slot is not on file and nobody else has it
  | .activeCount _ => 1 ≤ counts th.log → ∀ key ∈ absent th.log,
      s.shared.history.get key = none ∧ Alone s i (reserved · key)
  -- the counter of a schedule is not changed between another call's read and write
  | .setActive schedule_id _ | .delActive schedule_id => Alone s i (midway · schedule_id)
  -- a run without attempts is not filed over one with attempts
  | .record run => run.attempts = 0 → ∀ r ∈ s.shared.history.get run.idempotency_key, r.attempts = 0
  | _ => True

/-- The orders of steps in question, in which no call dies. -/
def Guard (s : State) : Action → Prop
  | .step i _ => ∀ th c k, s.threads i = .live th → th.rest = .cmd c k → Permits s i th c
  | .crash _ => False
  | _ => True

end Guard

section Stages

/-- The call has reserved its slot. -/
structure Begun (c : Trigger) (log : Log) (x : Slot) : Prop where
  owner : x.schedule_id = c.schedule_id
  absent : x.key ∈ absent log
  counted : 2 ≤ counts log

/-- What a call at a stage has done so far. -/
def Good (c : Trigger) (log : Log) : Stage → Prop
  | .fetch c' | .clock c' _ | .gate c' _ _ => c' = c
  | .file run => run.attempts = 0
  | .lookup x | .duplicate x => x.schedule_id = c.schedule_id
  | .precheck x | .limit x => x.schedule_id = c.schedule_id ∧ x.key ∈ absent log
  | .reserve x => x.schedule_id = c.schedule_id ∧ x.key ∈ absent log ∧ 1 ≤ counts log
  | .acquire x _ | .stopped x _ => Begun c log x
  | .finish x n _ | .failing x n => Begun c log x ∧ 1 ≤ n
  | .again x left n | .enter x left n | .leave x left n =>
    Begun c log x ∧ n + left + 1 = (x.definition.retry_limit + 1).toNat
  | .fileStopped x run | .fileDone x run _ | .askSink x run _ | .send x _ run | .fileSent x run =>
    Begun c log x ∧ run.idempotency_key = x.key
  | .release x out => Begun c log x ∧ ∀ run ∈ out, run.idempotency_key = x.key
  | .lower x out _ | .recheck x out | .drop x out =>
    Begun c log x ∧ (∀ run ∈ out, run.idempotency_key = x.key) ∧ 1 ≤ gets log

theorem absent_append (log log' : Log) : absent (log ++ log') = absent log ++ absent log' :=
  List.filterMap_append

theorem counts_append (log log' : Log) : counts (log ++ log') = counts log + counts log' :=
  List.countP_append

theorem gets_append (log log' : Log) : gets (log ++ log') = gets log + gets log' :=
  List.countP_append

theorem Begun.snoc {c : Trigger} {log : Log} {x : Slot} (h : Begun c log x) (e) :
    Begun c (log ++ [e]) x :=
  ⟨h.owner, by rw [absent_append]; exact List.mem_append_left _ h.absent,
    by rw [counts_append]; exact Nat.le_add_right_of_le h.counted⟩

theorem good_moves {L : Library} {c : Trigger} {log : Log} {st st' : Stage} {r : Reply st.cmd}
    (h : Good c log st) (hm : Moves L st r st') : Good c (log ++ [⟨st.cmd, r⟩]) st' := by
  have seen : ∀ {x : Slot} {e}, x.key ∈ absent log → x.key ∈ absent (log ++ [e]) := by
    intro x e hx
    rw [absent_append]
    exact List.mem_append_left _ hx
  cases hm with
  | fetched | timed | known => exact h
  | refused | cancelled | saturated => rfl
  | slot => exact congrArg Trigger.schedule_id h
  | unknown => exact ⟨h, by simp [absent, Stage.cmd]⟩
  | cleared => exact ⟨h.1, seen h.2⟩
  | admitted => exact ⟨h.1, seen h.2, by rw [counts_append]; exact Nat.le_add_left _ _⟩
  | reserved m =>
    refine ⟨h.1, seen h.2.1, ?_⟩
    rw [counts_append]
    exact Nat.succ_le_succ h.2.2
  | begun hleft => exact ⟨h.snoc _, by omega⟩
  | barren => exact ⟨h.snoc _, by simp⟩
  | stopped => exact h.1.snoc _
  | tried | entered => exact ⟨h.1.snoc _, h.2⟩
  | stoppedAt z => exact ⟨h.snoc _, rfl⟩
  | returned | exhausted => exact ⟨h.1.snoc _, Nat.succ_pos _⟩
  | retried => exact ⟨h.1.snoc _, by have := h.2; omega⟩
  | lost => exact ⟨h.1.snoc _, by simp⟩
  | succeeded z | failed z => exact ⟨h.1.snoc _, rfl⟩
  | filedDone | sending | unsent | sent => exact ⟨h.1.snoc _, h.2⟩
  | filedStopped | filedSent | silent => exact ⟨h.1.snoc _, by simpa using h.2⟩
  | released =>
    refine ⟨h.1.snoc _, h.2, ?_⟩
    rw [gets_append]
    exact Nat.le_add_left _ _
  | lowered | emptied =>
    refine ⟨h.1.snoc _, h.2.1, ?_⟩
    rw [gets_append]
    exact Nat.le_add_right_of_le h.2.2

/-- The slot that the call has reserved. -/
def reserver? : Stage → Option Slot
  | .acquire x _ | .again x _ _ | .stopped x _ | .fileStopped x _ | .enter x _ _ | .leave x _ _
  | .finish x _ _ | .failing x _ | .fileDone x _ _ | .askSink x _ _ | .send x _ _ | .fileSent x _
  | .release x _ | .lower x _ _ | .recheck x _ | .drop x _ => some x
  | _ => none

/-- The slot of a call that is counted as active. -/
def holder? : Stage → Option Slot
  | .again x _ _ | .stopped x _ | .fileStopped x _ | .enter x _ _ | .leave x _ _
  | .finish x _ _ | .failing x _ | .fileDone x _ _ | .askSink x _ _ | .send x _ _ | .fileSent x _
  | .release x _ | .lower x _ _ => some x
  | _ => none

/-- How often the call has entered the executor. -/
def attempts : Stage → Nat
  | .again _ _ n | .enter _ _ n | .stopped _ n | .finish _ n _ | .failing _ n => n
  | .leave _ _ n => n + 1
  | .fileStopped _ run | .fileDone _ run _ | .askSink _ run _ | .send _ _ run
  | .fileSent _ run => run.attempts
  | .release _ out | .lower _ out _ | .recheck _ out | .drop _ out => out.elim 0 (·.attempts)
  | _ => 0

/-- What the call has filed is still there. -/
def OnFile (h : History) : Stage → Prop
  | .askSink x run _ | .send x _ run => h.get x.key = some run
  | .fileSent x run => ∃ r, h.get x.key = some r ∧ r.attempts = run.attempts
  | .release x out | .lower x out _ | .recheck x out | .drop x out => h.get x.key = out
  | _ => True

/-- The call has looked up the key. -/
def Concerns (key : String) : Stage → Prop
  | .fetch _ | .clock _ _ | .gate _ _ _ | .lookup _ => False
  | .file run => run.idempotency_key = key
  | .duplicate x | .precheck x | .limit x | .reserve x => x.key = key
  | st => ∃ x, reserver? st = some x ∧ x.key = key

/-- What a call midway knows of the counter is up to date. -/
def Current (s : Scheduler) : Stage → Prop
  | .reserve x => (s.active x.schedule_id).getD 0 < x.definition.max_concurrency
  | .acquire x m => m = (s.active x.schedule_id).getD 0 ∧ m < x.definition.max_concurrency
  | .lower x _ m => m = (s.active x.schedule_id).getD 0
  | .recheck x _ => s.active x.schedule_id ≠ none
  | .drop x _ => s.active x.schedule_id = some 0
  | _ => True

variable {L : Library} {st st' : Stage} {r : Reply st.cmd} {x : Slot} {key : String}

theorem reserver?_moves (hm : Moves L st r st') :
    reserver? st' = reserver? st ∨ ∃ x m, st = .reserve x ∧ st' = .acquire x m := by
  cases hm with
  | reserved m => exact .inr ⟨_, _, rfl, rfl⟩
  | _ => exact .inl rfl

theorem attempts_moves {c : Trigger} {log : Log} (h : Good c log st) (hm : Moves L st r st') :
    attempts st ≤ attempts st' := by
  cases hm with
  | entered => exact Nat.le_succ _
  | lost hn =>
    have := h.2
    omega
  | _ => exact le_rfl

theorem concerns_moves (h : Concerns key st) (hm : Moves L st r st') : Concerns key st' := by
  cases hm with
  | fetched | timed | refused | slot | known | unknown => cases h
  | cancelled | cleared | saturated | admitted => exact h
  | reserved m => exact ⟨_, rfl, h⟩
  | _ => exact h

end Stages

section Counter

variable {σ σ' : Nat → Option Stage} {s s' : Scheduler} {sid : String} {order : List Nat} {i : Nat}

/-- The slot for which a call is counted as active. -/
def held (σ : Nat → Option Stage) (j : Nat) : Option Slot := (σ j).bind holder?

/-- The active calls of a schedule in the order in which they were admitted, each
within its limit. -/
structure Counter (σ : Nat → Option Stage) (s : Scheduler) (sid : String) (order : List Nat) :
    Prop where
  nodup : order.Nodup
  mem : ∀ j, j ∈ order ↔ ∃ x, held σ j = some x ∧ x.schedule_id = sid
  count : (s.active sid).getD 0 = order.length
  limits : ∀ j ∈ order, ∀ x, held σ j = some x →
    (order.idxOf j : Int) + 1 ≤ x.definition.max_concurrency

theorem Counter.same (h : Counter σ s sid order) (hheld : ∀ j, held σ' j = held σ j)
    (hact : (s'.active sid).getD 0 = (s.active sid).getD 0) : Counter σ' s' sid order :=
  ⟨h.nodup, by simpa only [hheld] using h.mem, hact.trans h.count, by simpa only [hheld] using h.limits⟩

/-- A call of another schedule is admitted or leaves. -/
theorem Counter.elsewhere {v : Option Slot} (h : Counter σ s sid order)
    (hheld : ∀ j, held σ' j = if j = i then v else held σ j)
    (hi : ∀ y, held σ i = some y → y.schedule_id ≠ sid) (hv : ∀ y, v = some y → y.schedule_id ≠ sid)
    (hact : s'.active sid = s.active sid) : Counter σ' s' sid order := by
  have hnot : i ∉ order := by
    intro hmem
    obtain ⟨y, hy, hsid⟩ := (h.mem i).mp hmem
    exact hi y hy hsid
  refine ⟨h.nodup, fun j => ?_, by rw [hact, h.count], fun j hj y hy => ?_⟩
  · rw [hheld]
    by_cases hj : j = i
    · subst hj
      rw [if_pos rfl]
      exact ⟨fun hmem => absurd hmem hnot, fun ⟨y, hy, hsid⟩ => absurd hsid (hv y hy)⟩
    · rw [if_neg hj, h.mem]
  · have hji : j ≠ i := fun hji => hnot (hji ▸ hj)
    rw [hheld, if_neg hji] at hy
    exact h.limits j hj y hy

/-- A call is admitted. -/
theorem Counter.add {x : Slot} (h : Counter σ s sid order) (hi : held σ i = none)
    (hheld : ∀ j, held σ' j = if j = i then some x else held σ j) (hx : x.schedule_id = sid)
    (hlim : (order.length : Int) < x.definition.max_concurrency)
    (hact : (s'.active sid).getD 0 = order.length + 1) : Counter σ' s' sid (order ++ [i]) := by
  have hnot : i ∉ order := by
    intro hmem
    obtain ⟨y, hy, _⟩ := (h.mem i).mp hmem
    rw [hi] at hy
    cases hy
  refine ⟨?_, ?_, ?_, ?_⟩
  · rw [List.nodup_append]
    refine ⟨h.nodup, by simp, ?_⟩
    rintro a ha b hb rfl
    exact hnot (List.mem_singleton.mp hb ▸ ha)
  · intro j
    rw [List.mem_append, List.mem_singleton, h.mem, hheld]
    by_cases hj : j = i
    · simp [hj, hx]
    · simp [hj]
  · rw [hact]
    simp
  · intro j hj y hy
    rw [hheld] at hy
    by_cases hji : j = i
    · subst hji
      rw [if_pos rfl] at hy
      cases hy
      rw [List.idxOf_append_of_notMem hnot]
      simp only [List.idxOf_cons_self]
      push_cast
      omega
    · rw [if_neg hji] at hy
      have hj' : j ∈ order := by simpa [hji] using hj
      rw [List.idxOf_append_of_mem hj']
      exact h.limits j hj' y hy

/-- A call is no longer active; the others keep their order. -/
theorem Counter.remove {x : Slot} (h : Counter σ s sid order) (hi : held σ i = some x)
    (hx : x.schedule_id = sid) (hheld : ∀ j, held σ' j = if j = i then none else held σ j)
    (hact : (s'.active sid).getD 0 = (s.active sid).getD 0 - 1) :
    ∃ order', Counter σ' s' sid order' := by
  obtain ⟨front, back, rfl⟩ := List.append_of_mem ((h.mem i).mpr ⟨x, hi, hx⟩)
  have hnd := h.nodup
  rw [List.nodup_middle, List.nodup_cons] at hnd
  obtain ⟨hnot, hnd⟩ := hnd
  refine ⟨front ++ back, hnd, ?_, ?_, ?_⟩
  · intro j
    rw [hheld]
    have hmem := h.mem j
    by_cases hj : j = i
    · subst hj
      simpa using hnot
    · simp only [if_neg hj]
      rw [← hmem]
      simp [hj]
  · rw [hact, h.count]
    simp only [List.length_append, List.length_cons]
    push_cast
    omega
  · intro j hj y hy
    rw [hheld] at hy
    have hji : j ≠ i := fun hji => hnot (hji ▸ hj)
    rw [if_neg hji] at hy
    have hlim := h.limits j (by
      rcases List.mem_append.mp hj with hj | hj
      · exact List.mem_append_left _ hj
      · exact List.mem_append_right _ (List.mem_cons_of_mem _ hj)) y hy
    refine le_trans ?_ hlim
    by_cases hf : j ∈ front
    · rw [List.idxOf_append_of_mem hf, List.idxOf_append_of_mem hf]
    · rw [List.idxOf_append_of_notMem hf, List.idxOf_append_of_notMem hf,
        List.idxOf_cons_ne _ (Ne.symm hji)]
      push_cast
      omega

/-- Of any calls that are active together, the one admitted last had room for all. -/
theorem Counter.bound (h : Counter σ s sid order) {S : List Nat} (hS : S.Nodup) (hne : S ≠ [])
    (hheld : ∀ j ∈ S, ∃ x, held σ j = some x ∧ x.schedule_id = sid) :
    ∃ j ∈ S, ∃ x, held σ j = some x ∧ (S.length : Int) ≤ x.definition.max_concurrency := by
  have hsub : ∀ j ∈ S, j ∈ order := fun j hj => (h.mem j).mpr (hheld j hj)
  obtain ⟨j, hj, hmax⟩ := Finset.exists_max_image S.toFinset order.idxOf
    (List.toFinset_nonempty_iff S |>.mpr hne)
  rw [List.mem_toFinset] at hj
  obtain ⟨x, hx, _⟩ := hheld j hj
  refine ⟨j, hj, x, hx, le_trans ?_ (h.limits j (hsub j hj) x hx)⟩
  have hcard : S.length ≤ (Finset.range (order.idxOf j + 1)).card := by
    rw [← List.toFinset_card_of_nodup hS]
    refine Finset.card_le_card_of_injOn order.idxOf (fun k hk => ?_) fun k hk l hl hkl => ?_
    · simpa [Nat.lt_succ_iff] using hmax k hk
    · exact (List.idxOf_inj (hsub k (by simpa using hk))).mp hkl
  rw [Finset.card_range] at hcard
  exact_mod_cast hcard

end Counter

section Effects

variable (s : Scheduler) (c : Cmd) (ch : Choice)

theorem apply_active : (s.apply c ch).2.active =
    match c with
    | .setActive i n => Function.update s.active i (some n)
    | .delActive i => Function.update s.active i none
    | _ => s.active := by
  cases c <;> rfl

theorem apply_history : (s.apply c ch).2.history =
    match c with
    | .record run => s.history.put run
    | _ => s.history := by
  cases c <;> rfl

theorem Move.apply_eq (L : Library) (m : Move) :
    (m.apply L s).active = s.active ∧ (m.apply L s).history = s.history := by
  have settled : ∀ {x : Except PyError Scheduler}, (∀ {t}, x = .ok t → t.active = s.active ∧
      t.history = s.history) → (x.toOption.getD s).active = s.active ∧
        (x.toOption.getD s).history = s.history := by
    intro x hx
    cases x with
    | error e => exact ⟨rfl, rfl⟩
    | ok t => exact hx rfl
  cases m with
  | register d =>
    refine settled fun ht => ?_
    unfold Scheduler.register at ht
    split at ht
    · cases ht
    split at ht
    · cases ht
    split at ht
    · cases ht
    split at ht
    · cases ht
    obtain ⟨_, _, ht⟩ := bind_ok ht
    obtain ⟨_, _, ht⟩ := bind_ok ht
    cases ht
    exact ⟨rfl, rfl⟩
  | pause i =>
    refine settled fun ht => ?_
    obtain ⟨_, _, ht⟩ := bind_ok ht
    cases ht
    exact ⟨rfl, rfl⟩
  | resume i =>
    refine settled fun ht => ?_
    obtain ⟨_, _, ht⟩ := bind_ok ht
    cases ht
    exact ⟨rfl, rfl⟩
  | cancel k =>
    refine settled fun ht => ?_
    unfold Scheduler.cancel at ht
    split at ht
    · cases ht
      exact ⟨rfl, rfl⟩
    · cases ht

end Effects

section Invariant

/-- The call has entered the executor for the slot and is not done with it. -/
structure Ran (h : History) (key : String) (st : Stage) : Prop where
  reserved : ∃ x, reserver? st = some x ∧ x.key = key
  attempts : 1 ≤ attempts st
  onFile : OnFile h st

/-- The call entered the executor for the slot. -/
def Entered (es : List Event) (j : Nat) (key : String) : Prop :=
  ∃ call d r out, Pool.Event.did j call (.enter d key) r out ∈ es

/-- The call looked up the slot in the history, which it does if it has that slot. -/
def Sought (es : List Event) (j : Nat) (key : String) : Prop :=
  ∃ call r out, Pool.Event.did j call (.inHistory key) r out ∈ es

def Returned (es : List Event) (j : Nat) (run : ScheduleRun) : Prop :=
  ∃ call c r, Pool.Event.did j call c r (some (.ok run)) ∈ es

structure Inv (L : Library) (es : List Event) (s : State) (σ : Nat → Option Stage) : Prop where
  live : ∀ {j th}, s.threads j = .live th →
    ∃ st, σ j = some st ∧ At L st th.rest ∧ Good th.call th.log st
  dead : ∀ {j st}, σ j = some st → ∃ th, s.threads j = .live th
  unique : ∀ {j j' st st' x x'}, σ j = some st → σ j' = some st' → reserver? st = some x →
    reserver? st' = some x' → x.key = x'.key → j = j'
  counted : ∀ sid, ∃ order, Counter σ s.shared sid order
  current : ∀ {j st}, σ j = some st → Current s.shared st
  sought : ∀ {j key st}, Sought es j key → σ j = some st → Concerns key st
  entered : ∀ {j key}, Entered es j key →
    (∃ st, σ j = some st ∧ Ran s.shared.history key st) ∨ ∃ run, Returned es j run
  returned : ∀ {j key run}, Entered es j key → Returned es j run →
    s.shared.history.get key = some run ∧ 1 ≤ run.attempts ∧
      ∀ {j' st x}, σ j' = some st → reserver? st = some x → x.key ≠ key
  once : ∀ {j j' key}, Entered es j key → Entered es j' key → j = j'

/-- The stage to which a call goes on, or the outcome with which it ends. -/
inductive Goes (L : Library) (st : Stage) (r : Reply st.cmd) :
    Option Stage → Option (Except PyError ScheduleRun) → Prop
  | on {st'} : Moves L st r st' → Goes L st r (some st') none
  | off {o} : Ends L st r o → Goes L st r none (some o)

theorem begun_of_reserver? {c : Trigger} {log : Log} {st : Stage} {x : Slot} (h : Good c log st)
    (hx : reserver? st = some x) : Begun c log x := by
  cases st <;> cases hx
  case acquire => exact h
  case stopped => exact h
  all_goals exact h.1

variable {L : Library} {es : List Event} {s : State} {σ : Nat → Option Stage} {i j : Nat}
  {th : Thread} {st : Stage} {r : Reply st.cmd} {nxt : Option Stage}
  {out : Option (Except PyError ScheduleRun)} {x : Slot} {key : String}

theorem Inv.reserved_live (inv : Inv L es s σ) (hj : σ j = some st) (hx : reserver? st = some x) :
    ∃ th, s.threads j = .live th ∧ reserved th x.key = true := by
  obtain ⟨th, hth⟩ := inv.dead hj
  obtain ⟨st₀, hst₀, _, hgood⟩ := inv.live hth
  rw [hj] at hst₀
  cases hst₀
  have hb := begun_of_reserver? hgood hx
  exact ⟨th, hth, by simp [reserved, hb.counted, hb.absent]⟩

/-- A call that is midway at its stage is so by its code. -/
theorem midway_of_at {k} (hrest : th.rest = .cmd st.cmd k) (hgood : Good th.call th.log st) :
    (∀ {x}, st = .reserve x → midway th x.schedule_id = true) ∧
    (∀ {x m}, st = .acquire x m → midway th x.schedule_id = true) ∧
    (∀ {x out m}, st = .lower x out m → midway th x.schedule_id = true) ∧
    (∀ {x out}, st = .recheck x out → midway th x.schedule_id = true) ∧
    ∀ {x out}, st = .drop x out → midway th x.schedule_id = true := by
  refine ⟨?_, ?_, ?_, ?_, ?_⟩ <;> intros <;> subst_vars <;> simp only [midway, hrest, Stage.cmd]
  · simpa using hgood.2.2
  · simp
  · simp
  · simpa using hgood.2.2
  · simp

/-- A step of call `i`, which is at stage `st`. -/
structure Stepping (L : Library) (es : List Event) (s : State) (σ : Nat → Option Stage) (i : Nat)
    (th : Thread) (st : Stage) (ch : Choice) (r : Reply st.cmd) (nxt : Option Stage)
    (out : Option (Except PyError ScheduleRun)) : Prop where
  reply : (s.shared.apply st.cmd ch).1 = r
  inv : Inv L es s σ
  hi : s.threads i = .live th
  hσ : σ i = some st
  good : Good th.call th.log st
  permits : Permits s i th st.cmd
  fresh : ∀ run, ¬ Returned es i run
  goes : Goes L st r nxt out

section Step

variable {ch : Choice} (h : Stepping L es s σ i th st ch r nxt out)
include h

/-- A call that has reserved its slot after the step had done so before, or does it
now and is alone. -/
theorem Stepping.reserver? {st' : Stage} (hn : nxt = some st') (hx : reserver? st' = some x) :
    reserver? st = some x ∨ (s.shared.history.get x.key = none ∧
      ∀ {j st₀ x₀}, j ≠ i → σ j = some st₀ → reserver? st₀ = some x₀ → x₀.key ≠ x.key) := by
  subst hn
  cases h.goes with
  | on hm =>
    obtain heq | ⟨y, m, rfl, rfl⟩ := reserver?_moves hm
    · exact .inl (heq ▸ hx)
    · cases hx
      obtain ⟨_, habs, hcount⟩ := h.good
      obtain ⟨hnone, halone⟩ := h.permits hcount _ habs
      refine .inr ⟨hnone, fun {j st₀ x₀} hji hj hx₀ hkey => ?_⟩
      obtain ⟨th', hth', hres⟩ := h.inv.reserved_live hj hx₀
      exact Bool.false_ne_true ((halone j th' hji hth').symm.trans (hkey ▸ hres))

theorem Stepping.unique {j j' : Nat} {st₁ st₂ : Stage} {x₁ x₂ : Slot}
    (hj : Function.update σ i nxt j = some st₁) (hj' : Function.update σ i nxt j' = some st₂)
    (hx₁ : Overlap.reserver? st₁ = some x₁) (hx₂ : Overlap.reserver? st₂ = some x₂)
    (hkey : x₁.key = x₂.key) : j = j' := by
  -- the moving call against any other
  have moved : ∀ {j st₁ st₂ x₁ x₂}, nxt = some st₁ → σ j = some st₂ → j ≠ i →
      Overlap.reserver? st₁ = some x₁ → Overlap.reserver? st₂ = some x₂ → x₁.key ≠ x₂.key := by
    intro j st₁ st₂ x₁ x₂ hn hj hji hx₁ hx₂ hkey
    obtain hold | ⟨_, halone⟩ := h.reserver? hn hx₁
    · exact hji (h.inv.unique h.hσ hj hold hx₂ hkey).symm
    · exact halone hji hj hx₂ hkey.symm
  rw [Function.update_apply] at hj hj'
  split at hj <;> split at hj'
  · rename_i hji hji'
    rw [hji, hji']
  · rename_i hji'
    exact absurd hkey (moved hj hj' hji' hx₁ hx₂)
  · rename_i hji hji'
    exact absurd hkey.symm (moved hj' hj hji hx₂ hx₁)
  · exact h.inv.unique hj hj' hx₁ hx₂ hkey

theorem Stepping.held_eq (hn : nxt.bind holder? = holder? st) (j : Nat) :
    held (Function.update σ i nxt) j = held σ j := by
  unfold held
  rw [Function.update_apply]
  split
  · rename_i hj
    rw [hj, h.hσ, hn]
    rfl
  · rfl

omit h in
theorem held_update {v : Option Stage} (j : Nat) :
    held (Function.update σ i v) j = if j = i then v.bind holder? else held σ j := by
  unfold held
  rw [Function.update_apply]
  split <;> rfl

theorem Stepping.admitted {m : Int} {st' : Stage} (hst : st = .acquire x m) (hn : nxt = some st')
    (hx : holder? st' = some x) (sid : String) :
    ∃ order, Counter (Function.update σ i nxt) (s.shared.apply st.cmd ch).2 sid order := by
  subst hst hn
  obtain ⟨order, hc⟩ := h.inv.counted sid
  obtain ⟨hm, hlim⟩ := h.inv.current h.hσ
  have hheld : ∀ j, held (Function.update σ i (some st')) j = if j = i then some x else held σ j := by
    intro j
    rw [held_update, Option.bind_some, hx]
  have hnone : held σ i = none := by simp [held, h.hσ, holder?]
  by_cases hsid : x.schedule_id = sid
  · subst hsid
    rw [hm, hc.count] at hlim
    refine ⟨_, hc.add hnone hheld rfl hlim ?_⟩
    rw [apply_active]
    simp only [Stage.cmd, Function.update_self, Option.getD_some, hm, hc.count]
  · refine ⟨order, hc.elsewhere hheld (by simp [hnone]) (by simpa using hsid) ?_⟩
    rw [apply_active]
    exact Function.update_of_ne (Ne.symm hsid) _ _

theorem Stepping.lowered {o : Option ScheduleRun} {m : Int} (hst : st = .lower x o m)
    (hn : nxt = some (.recheck x o)) (sid : String) :
    ∃ order, Counter (Function.update σ i nxt) (s.shared.apply st.cmd ch).2 sid order := by
  subst hst hn
  obtain ⟨order, hc⟩ := h.inv.counted sid
  have hm : m = _ := h.inv.current h.hσ
  have hsome : held σ i = some x := by simp [held, h.hσ, holder?]
  have hheld : ∀ j, held (Function.update σ i (some (.recheck x o))) j =
      if j = i then none else held σ j := held_update
  by_cases hsid : x.schedule_id = sid
  · subst hsid
    refine hc.remove hsome rfl hheld ?_
    rw [apply_active]
    simp only [Stage.cmd, Function.update_self, Option.getD_some, hm]
  · refine ⟨order, hc.elsewhere hheld (by simpa [hsome] using hsid) (by simp) ?_⟩
    rw [apply_active]
    exact Function.update_of_ne (Ne.symm hsid) _ _

/-- A call that is counted as active finds the counter. -/
theorem Stepping.active_ne_none (hx : holder? st = some x) : s.shared.active x.schedule_id ≠ none := by
  intro hnone
  obtain ⟨order, hc⟩ := h.inv.counted x.schedule_id
  have hmem : i ∈ order := (hc.mem i).mpr ⟨x, by simp [held, h.hσ, hx], rfl⟩
  have hcount := hc.count
  rw [hnone] at hcount
  have hpos := List.length_pos_of_mem hmem
  simp only [Option.getD_none] at hcount
  omega

theorem Stepping.dropped {o : Option ScheduleRun} (hst : st = .drop x o) (hn : nxt = none)
    (sid : String) :
    ∃ order, Counter (Function.update σ i nxt) (s.shared.apply st.cmd ch).2 sid order := by
  subst hst hn
  obtain ⟨order, hc⟩ := h.inv.counted sid
  have hzero : s.shared.active x.schedule_id = some 0 := h.inv.current h.hσ
  refine ⟨order, hc.same (h.held_eq rfl) ?_⟩
  rw [apply_active]
  simp only [Stage.cmd, Function.update_apply]
  split
  · rename_i hsid
    rw [hsid, hzero]
    rfl
  · rfl

theorem Stepping.counted (sid : String) :
    ∃ order, Counter (Function.update σ i nxt) (s.shared.apply st.cmd ch).2 sid order := by
  obtain ⟨order, hc⟩ := h.inv.counted sid
  cases hgoes : h.goes with
  | on hm =>
    cases hm with
    | begun => exact h.admitted rfl rfl rfl sid
    | barren => exact h.admitted rfl rfl rfl sid
    | lowered => exact h.lowered rfl rfl sid
    | _ => exact ⟨order, hc.same (h.held_eq rfl) rfl⟩
  | off he =>
    cases he with
    | unreleased => exact absurd h.reply (h.active_ne_none rfl)
    | dropped => exact h.dropped rfl rfl sid
    | undropped => exact h.dropped rfl rfl sid
    | _ => exact ⟨order, hc.same (h.held_eq rfl) rfl⟩

/-- The counter does not change under a call that is midway. -/
theorem Stepping.active_eq {th' : Thread} {sid : String} (hji : j ≠ i)
    (hth' : s.threads j = .live th') (hmid : midway th' sid = true) :
    (s.shared.apply st.cmd ch).2.active sid = s.shared.active sid := by
  have hp := h.permits
  rw [apply_active]
  generalize st.cmd = c at hp
  cases c <;> try rfl
  case setActive sid' n =>
    exact Function.update_of_ne (fun hsid : sid = sid' =>
      Bool.false_ne_true ((hp j th' hji hth').symm.trans (hsid ▸ hmid))) _ _
  case delActive sid' =>
    exact Function.update_of_ne (fun hsid : sid = sid' =>
      Bool.false_ne_true ((hp j th' hji hth').symm.trans (hsid ▸ hmid))) _ _

theorem Stepping.current {st₁ : Stage} (hj : Function.update σ i nxt j = some st₁) :
    Current (s.shared.apply st.cmd ch).2 st₁ := by
  rw [Function.update_apply] at hj
  split at hj
  · have hcur := h.inv.current h.hσ
    have hreply := h.reply
    subst hj
    cases h.goes with
    | on hm =>
      cases hm with
      | admitted hlim =>
        change (s.shared.active _).getD 0 = _ at hreply
        rw [← hreply] at hlim
        exact hlim
      | reserved m => exact ⟨hreply.symm, hreply ▸ hcur⟩
      | released m =>
        change s.shared.active _ = _ at hreply
        change m = (s.shared.active _).getD 0
        rw [hreply]
        rfl
      | @lowered x o m =>
        change Function.update s.shared.active x.schedule_id (some (m - 1)) x.schedule_id ≠ none
        simp
      | emptied => exact hreply
      | _ => trivial
  · rename_i hji
    have hcur := h.inv.current hj
    obtain ⟨th', hth'⟩ := h.inv.dead hj
    obtain ⟨st₀, hst₀, hat, hgood⟩ := h.inv.live hth'
    rw [hj] at hst₀
    cases hst₀
    obtain ⟨k, hrest, _⟩ := hat.step
    obtain ⟨hres, hacq, hlow, hre, hdrop⟩ := midway_of_at hrest hgood
    cases st₁ <;> try trivial
    case reserve x =>
      simp only [Current, h.active_eq hji hth' (hres rfl)]
      exact hcur
    case acquire x m =>
      simp only [Current, h.active_eq hji hth' (hacq rfl)]
      exact hcur
    case lower x o m =>
      simp only [Current, h.active_eq hji hth' (hlow rfl)]
      exact hcur
    case recheck x o =>
      simp only [Current, h.active_eq hji hth' (hre rfl)]
      exact hcur
    case drop x o =>
      simp only [Current, h.active_eq hji hth' (hdrop rfl)]
      exact hcur

/-- What is filed under a key changes only by a run with attempts that belongs to the
slot, if what is there has attempts. -/
theorem Stepping.history_get {run : ScheduleRun} (hget : s.shared.history.get key = some run)
    (hat : 1 ≤ run.attempts) (hkey : ∀ x, Overlap.reserver? st = some x → x.key ≠ key) :
    (s.shared.apply st.cmd ch).2.history.get key = some run := by
  have hp := h.permits
  have hgood := h.good
  have kept : ∀ run' : ScheduleRun, run'.idempotency_key ≠ key →
      (s.shared.history.put run').get key = some run := by
    intro run' hne
    rw [History.put_get, if_neg (Ne.symm hne), hget]
  rw [apply_history]
  cases st <;> try exact hget
  case file run' =>
    refine kept run' ?_
    rintro rfl
    have := hp hgood run hget
    omega
  case fileStopped x run' => exact kept run' (hgood.2 ▸ hkey x rfl)
  case fileDone x run' finding => exact kept run' (hgood.2 ▸ hkey x rfl)
  case fileSent x run' => exact kept run' (hgood.2 ▸ hkey x rfl)

/-- What another call has filed is not touched. -/
theorem Stepping.ran_other {st₁ : Stage} (hji : j ≠ i) (hj : σ j = some st₁)
    (hran : Ran s.shared.history key st₁) : Ran (s.shared.apply st.cmd ch).2.history key st₁ := by
  obtain ⟨⟨x, hx, rfl⟩, hatt, hfile⟩ := hran
  have hkey : ∀ y, Overlap.reserver? st = some y → y.key ≠ x.key := fun y hy hk =>
    hji (h.inv.unique hj h.hσ hx hy hk.symm)
  have kept : ∀ {o : Option ScheduleRun}, s.shared.history.get x.key = o →
      1 ≤ o.elim 0 (·.attempts) → (s.shared.apply st.cmd ch).2.history.get x.key = o := by
    intro o hget hat
    cases o with
    | none => exact absurd hat (Nat.not_succ_le_zero 0)
    | some run => exact h.history_get hget hat hkey
  refine ⟨⟨x, hx, rfl⟩, hatt, ?_⟩
  cases st₁ <;> try trivial
  case askSink y run finding => cases hx; exact kept hfile hatt
  case send y channel run => cases hx; exact kept hfile hatt
  case fileSent y run =>
    cases hx
    obtain ⟨run', hget, hrun'⟩ := hfile
    exact ⟨run', h.history_get hget (hrun' ▸ hatt) hkey, hrun'⟩
  all_goals
    cases hx
    exact kept hfile hatt

/-- A call that has run its slot goes on to file it and leaves it on file. -/
theorem Stepping.ran_self {st' : Stage} (hn : nxt = some st') (hran : Ran s.shared.history key st) :
    Ran (s.shared.apply st.cmd ch).2.history key st' := by
  obtain ⟨⟨x, hx, rfl⟩, hatt, hfile⟩ := hran
  have hgood := h.good
  subst hn
  cases h.goes with
  | on hm =>
    refine ⟨⟨x, ?_, rfl⟩, le_trans hatt (attempts_moves hgood hm), ?_⟩
    · obtain heq | ⟨y, m, rfl, rfl⟩ := reserver?_moves hm
      · rw [heq, hx]
      · cases hx
    · have hput : ∀ {y : Slot} {run : ScheduleRun}, run.idempotency_key = y.key →
          (s.shared.history.put run).get y.key = some run := by
        intro y run hkey
        rw [History.put_get, if_pos hkey.symm]
      rw [apply_history]
      cases hm with
      | barren => exact absurd hatt (Nat.not_succ_le_zero 0)
      | lost hretry =>
        have := hgood.2
        omega
      | filedDone | filedStopped | filedSent => exact hput hgood.2
      | sending | silent | released | lowered | emptied => exact hfile
      | unsent | sent => exact ⟨_, hfile, rfl⟩
      | _ => trivial

/-- A call that has run its slot ends with the run that is on file. -/
theorem Stepping.ran_end {o : Except PyError ScheduleRun} (hout : out = some o)
    (hran : Ran s.shared.history key st) : ∃ run, o = .ok run ∧ 1 ≤ run.attempts ∧
      (s.shared.apply st.cmd ch).2.history.get key = some run := by
  obtain ⟨⟨x, hx, rfl⟩, hatt, hfile⟩ := hran
  have hcur := h.inv.current h.hσ
  have hreply := h.reply
  have done : ∀ {y : Slot} {o : Option ScheduleRun}, s.shared.history.get y.key = o →
      1 ≤ o.elim 0 (·.attempts) → ∃ run, Slot.result o = .ok run ∧ 1 ≤ run.attempts ∧
        s.shared.history.get y.key = some run := by
    intro y o hget hat
    cases o with
    | none => exact absurd hat (Nat.not_succ_le_zero 0)
    | some run => exact ⟨run, rfl, hat, hget⟩
  subst hout
  rw [apply_history]
  cases h.goes with
  | off he =>
    cases he with
    | missing | raised | filed | duplicate | vanished => cases hx
    | unreleased => exact absurd hreply (h.active_ne_none rfl)
    | unchecked => exact absurd hreply hcur
    | done m => cases hx; exact done hfile hatt
    | dropped => cases hx; exact done hfile hatt
    | undropped =>
      change (s.shared.active _).isSome = false at hreply
      rw [hcur] at hreply
      cases hreply

omit h in
theorem entered_snoc : Entered (es ++ [.did i th.call st.cmd r out]) j key ↔
    Entered es j key ∨ (j = i ∧ ∃ d, st.cmd = .enter d key) := by
  constructor
  · rintro ⟨call, d, r', out', hm⟩
    rcases List.mem_append.mp hm with hm | hm
    · exact .inl ⟨call, d, r', out', hm⟩
    · have heq := List.mem_singleton.mp hm
      simp only [Pool.Event.did.injEq] at heq
      exact .inr ⟨heq.1, d, heq.2.2.1.symm⟩
  · rintro (⟨call, d, r', out', hm⟩ | ⟨rfl, d, hd⟩)
    · exact ⟨call, d, r', out', List.mem_append_left _ hm⟩
    · refine ⟨th.call, d, (), out, List.mem_append_right _ (List.mem_singleton.mpr ?_)⟩
      generalize st.cmd = c at r hd
      subst hd
      rfl

omit h in
theorem sought_snoc : Sought (es ++ [.did i th.call st.cmd r out]) j key ↔
    Sought es j key ∨ (j = i ∧ st.cmd = .inHistory key) := by
  constructor
  · rintro ⟨call, r', out', hm⟩
    rcases List.mem_append.mp hm with hm | hm
    · exact .inl ⟨call, r', out', hm⟩
    · have heq := List.mem_singleton.mp hm
      simp only [Pool.Event.did.injEq] at heq
      exact .inr ⟨heq.1, heq.2.2.1.symm⟩
  · rintro (⟨call, r', out', hm⟩ | ⟨rfl, hd⟩)
    · exact ⟨call, r', out', List.mem_append_left _ hm⟩
    · refine ⟨th.call, (hd ▸ r : Reply (.inHistory key)), out,
        List.mem_append_right _ (List.mem_singleton.mpr ?_)⟩
      generalize st.cmd = c at r hd
      subst hd
      rfl

omit h in
theorem returned_snoc {run : ScheduleRun} :
    Returned (es ++ [.did i th.call st.cmd r out]) j run ↔
      Returned es j run ∨ (j = i ∧ out = some (.ok run)) := by
  constructor
  · rintro ⟨call, c, r', hm⟩
    rcases List.mem_append.mp hm with hm | hm
    · exact .inl ⟨call, c, r', hm⟩
    · have heq := List.mem_singleton.mp hm
      simp only [Pool.Event.did.injEq] at heq
      exact .inr ⟨heq.1, heq.2.2.2.2.symm⟩
  · rintro (⟨call, c, r', hm⟩ | ⟨rfl, rfl⟩)
    · exact ⟨call, c, r', List.mem_append_left _ hm⟩
    · exact ⟨_, _, _, List.mem_append_right _ (List.mem_singleton_self _)⟩

theorem Stepping.sought {st₁ : Stage} (hs : Sought (es ++ [.did i th.call st.cmd r out]) j key)
    (hj : Function.update σ i nxt j = some st₁) : Concerns key st₁ := by
  rw [Function.update_apply] at hj
  split at hj
  · rename_i hji
    subst hji hj
    cases h.goes with
    | on hm =>
      obtain hold | ⟨_, hcmd⟩ := sought_snoc.mp hs
      · exact concerns_moves (h.inv.sought hold h.hσ) hm
      · cases hm with
        | known | unknown =>
          cases hcmd
          rfl
        | _ => cases hcmd
  · rename_i hji
    obtain hold | ⟨hnew, _⟩ := sought_snoc.mp hs
    · exact h.inv.sought hold hj
    · exact absurd hnew hji

/-- The call enters the executor in this step. -/
theorem Stepping.enters {d : ScheduleDefinition} (hcmd : st.cmd = .enter d key) :
    (∃ x, Overlap.reserver? st = some x ∧ x.key = key) ∧ out = none ∧
      ∃ st', nxt = some st' ∧ Ran (s.shared.apply st.cmd ch).2.history key st' := by
  cases h.goes with
  | on hm =>
    cases hm with
    | entered =>
      cases hcmd
      exact ⟨⟨_, rfl, rfl⟩, rfl, _, rfl, ⟨_, rfl, rfl⟩, Nat.succ_pos _, trivial⟩
    | _ => cases hcmd
  | off he => cases he <;> cases hcmd

theorem Stepping.entered (he : Entered (es ++ [.did i th.call st.cmd r out]) j key) :
    (∃ st', Function.update σ i nxt j = some st' ∧
      Ran (s.shared.apply st.cmd ch).2.history key st') ∨
    ∃ run, Returned (es ++ [.did i th.call st.cmd r out]) j run := by
  obtain hold | ⟨rfl, d, hcmd⟩ := entered_snoc.mp he
  · obtain ⟨st₁, hst₁, hran⟩ | ⟨run, hret⟩ := h.inv.entered hold
    · by_cases hji : j = i
      · subst hji
        rw [h.hσ] at hst₁
        cases hst₁
        rw [Function.update_self]
        cases hgoes : h.goes with
        | on hm => exact .inl ⟨_, rfl, h.ran_self rfl hran⟩
        | off _ =>
          obtain ⟨run, rfl, _⟩ := h.ran_end rfl hran
          exact .inr ⟨run, returned_snoc.mpr (.inr ⟨rfl, rfl⟩)⟩
      · exact .inl ⟨st₁, by rw [Function.update_of_ne hji, hst₁], h.ran_other hji hst₁ hran⟩
    · exact .inr ⟨run, returned_snoc.mpr (.inl hret)⟩
  · obtain ⟨_, _, st', hn, hran⟩ := h.enters hcmd
    exact .inl ⟨st', by rw [Function.update_self, hn], hran⟩

theorem Stepping.returned {run : ScheduleRun}
    (he : Entered (es ++ [.did i th.call st.cmd r out]) j key)
    (hr : Returned (es ++ [.did i th.call st.cmd r out]) j run) :
    (s.shared.apply st.cmd ch).2.history.get key = some run ∧ 1 ≤ run.attempts ∧
      ∀ {j' st' x}, Function.update σ i nxt j' = some st' → Overlap.reserver? st' = some x →
        x.key ≠ key := by
  obtain hold | ⟨rfl, hout⟩ := returned_snoc.mp hr
  · have hji : j ≠ i := fun hji => h.fresh run (hji ▸ hold)
    obtain hent | ⟨hnew, _⟩ := entered_snoc.mp he
    · obtain ⟨hget, hatt, hnobody⟩ := h.inv.returned hent hold
      refine ⟨h.history_get hget hatt fun x hx => hnobody h.hσ hx, hatt, ?_⟩
      intro j' st' x hj' hx hkey
      rw [Function.update_apply] at hj'
      split at hj'
      · obtain hx' | ⟨hnone, _⟩ := h.reserver? hj' hx
        · exact hnobody h.hσ hx' hkey
        · rw [hkey, hget] at hnone
          cases hnone
      · exact hnobody hj' hx hkey
    · exact absurd hnew hji
  · obtain hent | ⟨_, d, hcmd⟩ := entered_snoc.mp he
    · obtain ⟨st₁, hst₁, hran⟩ | ⟨run', hret⟩ := h.inv.entered hent
      · rw [h.hσ] at hst₁
        cases hst₁
        obtain ⟨run', hok, hatt, hget⟩ := h.ran_end hout hran
        cases hok
        refine ⟨hget, hatt, ?_⟩
        intro j' st' x hj' hx hkey
        obtain ⟨y, hy, hykey⟩ := hran.reserved
        rw [Function.update_apply] at hj'
        split at hj'
        · cases hgoes : h.goes with
          | on hm => cases hout
          | off _ => cases hj'
        · rename_i hj'j
          exact hj'j (h.inv.unique hj' h.hσ hx hy (hkey.trans hykey.symm))
      · exact absurd hret (h.fresh run')
    · obtain ⟨_, hnone, _⟩ := h.enters hcmd
      rw [hnone] at hout
      cases hout

theorem Stepping.once {j' : Nat} (he : Entered (es ++ [.did i th.call st.cmd r out]) j key)
    (he' : Entered (es ++ [.did i th.call st.cmd r out]) j' key) : j = j' := by
  have moved : ∀ {j d}, st.cmd = .enter d key → Entered es j key → j = i := by
    intro j d hcmd hent
    obtain ⟨⟨x, hx, hkey⟩, _⟩ := h.enters hcmd
    obtain ⟨st₁, hst₁, ⟨⟨y, hy, hykey⟩, _, _⟩⟩ | ⟨run, hret⟩ := h.inv.entered hent
    · exact h.inv.unique hst₁ h.hσ hy hx (hykey.trans hkey.symm)
    · exact absurd hkey ((h.inv.returned hent hret).2.2 h.hσ hx)
  obtain hold | ⟨rfl, d, hcmd⟩ := entered_snoc.mp he <;>
    obtain hold' | ⟨rfl, d', hcmd'⟩ := entered_snoc.mp he'
  · exact h.inv.once hold hold'
  · exact moved hcmd' hold
  · exact (moved hcmd hold').symm
  · rfl

end Step

/-- Events that are no operation of a call change nothing of the record. -/
theorem Inv.quiet {e : Event} (inv : Inv L es s σ) (he : ∀ j call c r out, e ≠ .did j call c r out) :
    Inv L (es ++ [e]) s σ := by
  have old : ∀ {j call c r out}, Pool.Event.did j call c r out ∈ es ++ [e] →
      Pool.Event.did j call c r out ∈ es := by
    intro j call c r out hm
    rcases List.mem_append.mp hm with hm | hm
    · exact hm
    · exact absurd (List.mem_singleton.mp hm).symm (he _ _ _ _ _)
  have hent : ∀ {j key}, Entered (es ++ [e]) j key → Entered es j key :=
    fun ⟨call, d, r, out, hm⟩ => ⟨call, d, r, out, old hm⟩
  have hret : ∀ {j run}, Returned (es ++ [e]) j run → Returned es j run :=
    fun ⟨call, c, r, hm⟩ => ⟨call, c, r, old hm⟩
  refine ⟨inv.live, inv.dead, inv.unique, inv.counted, inv.current, ?_, ?_, ?_, ?_⟩
  · rintro j key st ⟨call, r, out, hm⟩ hj
    exact inv.sought ⟨call, r, out, old hm⟩ hj
  · intro j key h
    obtain hran | ⟨run, call, c, r, hm⟩ := inv.entered (hent h)
    · exact .inl hran
    · exact .inr ⟨run, call, c, r, List.mem_append_left _ hm⟩
  · intro j key run h h'
    exact inv.returned (hent h) (hret h')
  · intro j j' key h h'
    exact inv.once (hent h) (hent h')

theorem Inv.init (notifier : Bool) :
    Inv L [] (.init (Scheduler.init notifier)) (fun _ => none) where
  live h := by cases h
  dead h := by cases h
  unique h := by cases h
  counted sid := ⟨[], List.nodup_nil, by simp [held], rfl, by simp⟩
  current h := by cases h
  sought _ h := by cases h
  entered := by simp [Entered]
  returned := by simp [Entered]
  once := by simp [Entered]

theorem current_of_active {u v : Scheduler} (huv : v.active = u.active) (h : Current u st) :
    Current v st := by
  cases st <;> first | trivial | (simp only [Current, huv] at h ⊢; exact h)

theorem Inv.env (inv : Inv L es s σ) (m : Move) :
    Inv L es { s with shared := m.apply L s.shared } σ := by
  obtain ⟨hact, hhist⟩ := Move.apply_eq s.shared L m
  refine ⟨inv.live, inv.dead, inv.unique, fun sid => ?_, fun hj => ?_, inv.sought, ?_, ?_, inv.once⟩
  · obtain ⟨order, hc⟩ := inv.counted sid
    exact ⟨order, hc.same (fun _ => rfl) (by rw [hact])⟩
  · exact current_of_active hact (inv.current hj)
  · simpa only [hhist] using @inv.entered
  · simpa only [hhist] using @inv.returned

theorem Inv.start (inv : Inv L es s σ) (hown : Pool.Owned es s) (hi : s.threads i = .unused)
    (c : Trigger) : Inv L es (s.set i (Pool.Thread.slot ⟨c, [], c.program L⟩))
      (Function.update σ i (some (.fetch c))) := by
  have hσ : σ i = none := by
    cases hσ : σ i with
    | none => rfl
    | some st =>
      obtain ⟨th, hth⟩ := inv.dead hσ
      rw [hi] at hth
      cases hth
  have unused : ∀ {call c r out}, Pool.Event.did i call c r out ∉ es :=
    fun hm => (hown.used hm).1 hi
  obtain ⟨k, hk, _⟩ := (at_fetch (L := L) c).step
  have hslot : Pool.Thread.slot ⟨c, [], c.program L⟩ =
      Pool.Slot.live (⟨c, [], c.program L⟩ : Thread) := by
    simp only [Pool.Thread.slot, hk, Program.outcome?]
  rw [hslot]
  have off : ∀ {j st x}, Function.update σ i (some (Stage.fetch c)) j = some st →
      reserver? st = some x → σ j = some st := by
    intro j st x hj hx
    rw [Function.update_apply] at hj
    split at hj
    · cases hj
      cases hx
    · exact hj
  refine ⟨?_, ?_, ?_, ?_, ?_, ?_, ?_, ?_, inv.once⟩
  · intro j th hj
    rw [Pool.State.set_threads] at hj
    rw [Function.update_apply]
    split at hj
    · rename_i hji
      cases hj
      exact ⟨_, if_pos hji, at_fetch c, rfl⟩
    · rename_i hji
      rw [if_neg hji]
      exact inv.live hj
  · intro j st hj
    rw [Pool.State.set_threads]
    rw [Function.update_apply] at hj
    split at hj
    · rename_i hji
      exact ⟨_, if_pos hji⟩
    · rename_i hji
      rw [if_neg hji]
      exact inv.dead hj
  · intro j j' st st' x x' hj hj' hx hx'
    exact inv.unique (off hj hx) (off hj' hx') hx hx'
  · intro sid
    obtain ⟨order, hc⟩ := inv.counted sid
    refine ⟨order, hc.same (fun j => ?_) rfl⟩
    rw [held_update]
    split
    · rename_i hji
      simp [held, hji, hσ, holder?]
    · rfl
  · intro j st hj
    rw [Function.update_apply] at hj
    split at hj
    · cases hj
      trivial
    · exact inv.current hj
  · rintro j key st hs hj
    rw [Function.update_apply] at hj
    split at hj
    · rename_i hji
      subst hji
      obtain ⟨call, r, out, hm⟩ := hs
      exact absurd hm unused
    · exact inv.sought hs hj
  · intro j key he
    have hji : j ≠ i := by
      rintro rfl
      obtain ⟨call, d, r, out, hm⟩ := he
      exact unused hm
    rw [Function.update_of_ne hji]
    exact inv.entered he
  · intro j key run he hr
    obtain ⟨hget, hatt, hnobody⟩ := inv.returned he hr
    exact ⟨hget, hatt, fun hj hx => hnobody (off hj hx) hx⟩

theorem Inv.step {k : Reply st.cmd → Code ScheduleRun} {log : Log} {call : Trigger} {ch : Choice}
    (inv : Inv L es s σ) (hown : Pool.Owned es s)
    (hi : s.threads i = .live ⟨call, log, .cmd st.cmd k⟩) (hσ : σ i = some st)
    (hat : At L st (.cmd st.cmd k)) (hgood : Good call log st)
    (hp : Permits s i ⟨call, log, .cmd st.cmd k⟩ st.cmd) :
    ∃ σ', Inv L (es ++ [.did i call st.cmd (s.shared.apply st.cmd ch).1
        (k (s.shared.apply st.cmd ch).1).outcome?])
      (({ s with shared := (s.shared.apply st.cmd ch).2 }).set i (Pool.Thread.slot
        ⟨call, log ++ [Sigma.mk st.cmd (s.shared.apply st.cmd ch).1],
          k (s.shared.apply st.cmd ch).1⟩)) σ' := by
  obtain ⟨r, hr⟩ : ∃ r, (s.shared.apply st.cmd ch).1 = r := ⟨_, rfl⟩
  have hfresh : ∀ run, ¬ Returned es i run := by
    rintro run ⟨call', c, r', hm⟩
    have hfin := hown.ended hm
    rw [hi] at hfin
    cases hfin
  rw [hr]
  obtain ⟨k', hk', hnext⟩ := hat.step
  obtain rfl : k = k' := by simpa using hk'
  -- the next stage, the outcome and what is left of the code
  obtain ⟨nxt, out, hgoes, hout, hnxt, hdone⟩ : ∃ nxt out, Goes L st r nxt out ∧
      (k r).outcome? = out ∧ (∀ st', nxt = some st' → At L st' (k r)) ∧
      (nxt = none → out ≠ none) := by
    obtain ⟨st', hm, hat'⟩ | ⟨o, he, ho⟩ := hnext r
    · obtain ⟨k', hk', _⟩ := hat'.step
      refine ⟨_, _, .on hm, by rw [hk']; rfl, fun st'' h => by cases h; exact hat', by simp⟩
    · refine ⟨_, _, .off he, ?_, by simp, by simp⟩
      rw [ho]
      cases o <;> rfl
  rw [hout]
  have h : Stepping L es s σ i ⟨call, log, .cmd st.cmd k⟩ st ch r nxt out :=
    ⟨hr, inv, hi, hσ, hgood, hp, hfresh, hgoes⟩
  have hslot : ∀ th', Pool.Thread.slot ⟨call, log ++ [Sigma.mk st.cmd r], k r⟩ = .live th' ↔
      th' = ⟨call, log ++ [Sigma.mk st.cmd r], k r⟩ ∧ out = none := by
    intro th'
    simp only [Pool.Thread.slot, hout]
    cases out <;> simp [eq_comm]
  refine ⟨Function.update σ i nxt, ?_, ?_, h.unique, h.counted, h.current, h.sought, h.entered,
    h.returned, h.once⟩
  · intro j th hj
    rw [Pool.State.set_threads] at hj
    rw [Function.update_apply]
    split at hj
    · rename_i hji
      obtain ⟨rfl, hnone⟩ := (hslot th).mp hj
      rw [if_pos hji]
      cases hgoes with
      | on hm => exact ⟨_, rfl, hnxt _ rfl, good_moves hgood hm⟩
      | off _ => exact absurd hnone (hdone rfl)
    · rename_i hji
      rw [if_neg hji]
      exact inv.live hj
  · intro j st₁ hj
    rw [Pool.State.set_threads]
    rw [Function.update_apply] at hj
    split at hj
    · rename_i hji
      rw [if_pos hji]
      refine ⟨_, (hslot _).mpr ⟨rfl, ?_⟩⟩
      cases hgoes with
      | on _ => rfl
      | off _ => cases hj
    · rename_i hji
      rw [if_neg hji]
      exact inv.dead hj

theorem inv_of_run {notifier : Bool}
    (h : (pool L).machine.Run Guard (.init (Scheduler.init notifier)) es s) :
    ∃ σ, Inv L es s σ := by
  refine h.invariant (I := fun es s => ∃ σ, Inv L es s σ) ⟨_, .init notifier⟩ ?_
  rintro es s a t e hrun hg hs ⟨σ, inv⟩
  have hown := Pool.owned_of_run hrun
  cases Pool.step_cases hs with
  | start hi => exact ⟨_, (inv.start hown hi _).quiet (by simp)⟩
  | crash hi => cases hg
  | env => exact ⟨σ, (inv.env _).quiet (by simp)⟩
  | @step i ch call log c k hi =>
    obtain ⟨st, hσ, hat, hgood⟩ := inv.live hi
    obtain ⟨k', hk', _⟩ := hat.step
    obtain ⟨rfl, hk⟩ := Program.cmd.inj hk'
    exact inv.step hown hi hσ hat hgood (hg _ _ _ hi rfl)

end Invariant

section Safety

/-- The call is inside an executor. -/
def Inside (s : State) (schedule_id : String) (j : Nat) : Prop :=
  ∃ th d key k, s.threads j = .live th ∧ th.call.schedule_id = schedule_id ∧
    th.rest = .cmd (.leave d key) k

/-- What overlapping calls must not break: a slot is executed by one call, calls
that return after that call report its run, and of the calls of a schedule that are
inside an executor one was admitted with room for all of them. -/
structure Exclusive (es : List Event) (s : State) : Prop where
  once : ∀ j j' key, Entered es j key → Entered es j' key → j = j'
  reported : ∀ pre mid post j call c r run j' call' c' r' o key,
    es = pre ++ .did j call c r (some (.ok run)) ::
      (mid ++ .did j' call' c' r' (some o) :: post) →
    Entered pre j key →
    Sought (pre ++ .did j call c r (some (.ok run)) :: mid) j' key → o = .ok run
  bounded : ∀ schedule_id S, S.Nodup → S ≠ [] → (∀ j ∈ S, Inside s schedule_id j) →
    ∃ j ∈ S, ∃ th d key k, s.threads j = .live th ∧ th.rest = .cmd (.leave d key) k ∧
      (S.length : Int) ≤ d.max_concurrency

variable {L : Library} {es : List Event} {s : State} {notifier : Bool}

/-- A call that ends after the slot it looked up was executed reports that run. -/
theorem Inv.reports {σ : Nat → Option Stage} {i j : Nat} {call : Trigger} {log : Log} {c : Cmd}
    {k : Reply c → Code ScheduleRun} {ch : Choice} {run : ScheduleRun} {key : String}
    {o : Except PyError ScheduleRun} (inv : Inv L es s σ)
    (hi : s.threads i = .live ⟨call, log, .cmd c k⟩) (hp : Permits s i ⟨call, log, .cmd c k⟩ c)
    (hent : Entered es j key) (hret : Returned es j run) (hsought : Sought es i key)
    (ho : some o = (k (s.shared.apply c ch).1).outcome?) : o = .ok run := by
  obtain ⟨hget, hatt, hnobody⟩ := inv.returned hent hret
  obtain ⟨st, hσ, hat, hgood⟩ := inv.live hi
  have hcon := inv.sought hsought hσ
  obtain ⟨k', hk', hnext⟩ := hat.step
  obtain ⟨rfl, hk⟩ := Program.cmd.inj hk'
  obtain rfl := eq_of_heq hk
  obtain ⟨r, hr⟩ : ∃ r, (s.shared.apply st.cmd ch).1 = r := ⟨_, rfl⟩
  rw [hr] at ho
  obtain ⟨st', hm, hat'⟩ | ⟨o', he, ho'⟩ := hnext r
  · obtain ⟨k'', hk'', _⟩ := hat'.step
    rw [hk''] at ho
    cases ho
  · obtain rfl : o = o' := by
      rw [ho'] at ho
      cases o' <;> exact Option.some.inj ho
    have alone : ¬ ∃ x, reserver? st = some x ∧ x.key = key :=
      fun ⟨_, hx, hkey⟩ => hnobody hσ hx hkey
    cases he with
    | missing | raised => cases hcon
    | filed =>
      have hzero := hp hgood run (by rw [show _ = key from hcon, hget]; rfl)
      omega
    | duplicate =>
      change s.shared.history.get _ = _ at hr
      rw [show _ = key from hcon, hget] at hr
      cases hr
      rfl
    | vanished =>
      change s.shared.history.get _ = _ at hr
      rw [show _ = key from hcon, hget] at hr
      cases hr
    | unreleased | unchecked | done | dropped | undropped => exact absurd hcon alone

/-- Under the guard, overlapping calls never execute a slot twice. -/
theorem overlap_exclusive
    (h : (pool L).machine.Run Guard (.init (Scheduler.init notifier)) es s) : Exclusive es s := by
  obtain ⟨σ, inv⟩ := inv_of_run h
  refine ⟨fun j j' key => inv.once, ?_, ?_⟩
  · intro pre mid post j call c r run j' call' c' r' o key he hent hsought
    obtain ⟨u, a, v, hu, hg, hs, _⟩ := h.at_event (he.trans (List.append_assoc pre (_ :: mid) _).symm)
    obtain ⟨σ', invu⟩ := inv_of_run hu
    generalize hout : some o = out at hs
    cases Pool.step_cases hs with
    | step hi =>
      refine invu.reports hi (hg _ _ _ hi rfl) ?_ ⟨call, c, r, List.mem_append_right _ List.mem_cons_self⟩
        hsought hout
      obtain ⟨call₀, d, r₀, out₀, hm⟩ := hent
      exact ⟨call₀, d, r₀, out₀, List.mem_append_left _ hm⟩
  · intro sid S hS hne hin
    obtain ⟨order, hc⟩ := inv.counted sid
    have stage : ∀ j ∈ S, ∃ th x key k, s.threads j = .live th ∧
        th.rest = .cmd (.leave x.definition key) k ∧ held σ j = some x ∧ x.schedule_id = sid := by
      intro j hj
      obtain ⟨th, d, key, k, hth, rfl, hrest⟩ := hin j hj
      obtain ⟨st, hσ, hat, hgood⟩ := inv.live hth
      obtain ⟨k', hk', _⟩ := hat.step
      rw [hrest] at hk'
      obtain ⟨hcmd, _⟩ := Program.cmd.inj hk'
      cases st <;> cases hcmd
      exact ⟨th, _, _, k, hth, hrest, by simp [held, hσ, holder?], hgood.1.owner⟩
    obtain ⟨j, hj, x, hx, hlen⟩ := hc.bound hS hne fun j hj => by
      obtain ⟨_, x, _, _, _, _, hx, hsid⟩ := stage j hj
      exact ⟨x, hx, hsid⟩
    obtain ⟨th, y, key, k, hth, hrest, hy, _⟩ := stage j hj
    rw [hx] at hy
    cases hy
    exact ⟨j, hj, th, _, key, k, hth, hrest, hlen⟩

end Safety

section Sample

/-- The calls that entered an executor, with the keys they passed to it. -/
def enterers (es : List Event) : List (Nat × String) :=
  es.filterMap fun
    | .did j _ (.enter _ key) _ _ => some (j, key)
    | _ => none

theorem entered_of_mem {es : List Event} {j : Nat} {key : String} (h : (j, key) ∈ enterers es) :
    Entered es j key := by
  obtain ⟨e, he, hsome⟩ := List.mem_filterMap.mp h
  cases e with
  | did i call c r out =>
    cases c <;> cases hsome
    exact ⟨call, _, r, out, he⟩
  | _ => cases hsome

/-- The hourly schedule with room for `n` calls at a time. -/
def hourly (n : Int) : ScheduleDefinition :=
  { sampleDefinition with max_concurrency := n, retry_limit := 0 }

def sampleCall : Trigger := ⟨"nightly", sampleNow, false, false⟩

/-- `n` operations of call `i`. -/
def steps (i n : Nat) : List Action := List.replicate n (.step i default)

/-- With room for two, a second call enters the executor for the slot that the first
one is executing. -/
theorem slot_executed_twice : ¬ ∀ es s, (pool utcLibrary).machine.Run Machine.Free
    (.init (Scheduler.init false)) es s → Exclusive es s := by
  intro h
  obtain ⟨s, es, hexec, hent⟩ : ∃ s es, (pool utcLibrary).machine.exec Machine.Free
      (.init (Scheduler.init false)) ([.env (.register (hourly 2)), .start 0 sampleCall,
        .start 1 sampleCall] ++ steps 0 10 ++ steps 1 10) = some (s, es) ∧
      enterers es = [(0, "nightly:2026-07-01T02:00:00+00:00"),
        (1, "nightly:2026-07-01T02:00:00+00:00")] := ⟨_, _, rfl, rfl⟩
  have hone := (h es s (Machine.run_of_exec _ hexec)).once 0 1 "nightly:2026-07-01T02:00:00+00:00"
    (entered_of_mem (by rw [hent]; simp)) (entered_of_mem (by rw [hent]; simp))
  cases hone

section Below

variable (n : Nat) (s : State)

/-- The guard, if there are only the calls below `n`. -/
def aloneBelow (i : Nat) (p : Thread → Bool) : Bool :=
  (List.range n).all fun j => j == i || match s.threads j with
    | .live th => !p th
    | _ => true

def permitsBelow (i : Nat) (th : Thread) : Cmd → Bool
  | .activeCount _ => counts th.log == 0 || (absent th.log).all fun key =>
      (s.shared.history.get key).isNone && aloneBelow n s i (reserved · key)
  | .setActive schedule_id _ | .delActive schedule_id => aloneBelow n s i (midway · schedule_id)
  | .record run => run.attempts != 0 ||
      (s.shared.history.get run.idempotency_key).all (·.attempts == 0)
  | _ => true

def guardBelow : Action → Bool
  | .start i _ => i < n
  | .step i _ =>
    match s.threads i with
    | .live ⟨call, log, .cmd c k⟩ => permitsBelow n s i ⟨call, log, .cmd c k⟩ c
    | _ => true
  | .crash _ => false
  | .env _ => true

variable {n s}

theorem alone_of_below {i : Nat} {p : Thread → Bool} (hn : ∀ j, n ≤ j → s.threads j = .unused)
    (h : aloneBelow n s i p = true) : Alone s i p := by
  intro j th hji hth
  have hj : j < n := by
    by_contra hj
    rw [hn j (not_lt.mp hj)] at hth
    cases hth
  have hp := List.all_eq_true.mp h j (List.mem_range.mpr hj)
  simpa [hji, hth] using hp

theorem guard_of_below {a : Action} (hn : ∀ j, n ≤ j → s.threads j = .unused)
    (h : guardBelow n s a = true) : Guard s a := by
  cases a with
  | start i c => trivial
  | crash i => cases h
  | env m => trivial
  | step i ch =>
    rintro ⟨call, log, rest⟩ c k hth rfl
    simp only [guardBelow, hth] at h
    cases c <;> try trivial
    case activeCount sid =>
      intro hc key hkey
      simp only [permitsBelow, Bool.or_eq_true, beq_iff_eq, List.all_eq_true, Bool.and_eq_true,
        Option.isNone_iff_eq_none] at h
      obtain h | h := h
      · change 1 ≤ counts log at hc
        change counts log = 0 at h
        omega
      · exact ⟨(h key hkey).1, alone_of_below hn (h key hkey).2⟩
    case setActive sid m => exact alone_of_below hn h
    case delActive sid => exact alone_of_below hn h
    case record run =>
      intro hzero r hr
      simpa [permitsBelow, hzero, Option.mem_def.mp hr] using h

theorem run_of_below {L : Library} {notifier : Bool} {es : List Event}
    (h : (pool L).machine.Run (fun s a => guardBelow n s a = true)
      (.init (Scheduler.init notifier)) es s) :
    (pool L).machine.Run Guard (.init (Scheduler.init notifier)) es s := by
  have hall := h.invariant (I := fun es s => (pool L).machine.Run Guard
      (.init (Scheduler.init notifier)) es s ∧ ∀ j, n ≤ j → s.threads j = .unused)
    ⟨.nil, fun _ _ => rfl⟩ ?_
  · exact hall.1
  · rintro es s a t e _ hg hs ⟨hrun, hn⟩
    refine ⟨hrun.snoc (guard_of_below hn hg) hs, fun j hj => ?_⟩
    cases Pool.step_cases hs with
    | @start i c hi =>
      have hin : i < n := by simpa [guardBelow] using hg
      rw [Pool.State.set_threads, if_neg (by omega), hn j hj]
    | crash hi => cases hg
    | env => exact hn j hj
    | @step i ch call log c k hi =>
      have hji : j ≠ i := by
        rintro rfl
        rw [hn j hj] at hi
        cases hi
      rw [Pool.State.set_threads, if_neg hji]
      exact hn j hj

end Below

/-- While the first call is inside its executor, a second one is turned away; a third
one finds the run of the first on file. -/
def sampleRun : List Action :=
  [.env (.register (hourly 1)), .start 0 sampleCall] ++ steps 0 10 ++
    [.start 1 sampleCall] ++ steps 1 7 ++ steps 0 8 ++ [.start 2 sampleCall] ++ steps 2 5

theorem overlap_exclusive_sample : ∃ s es, (pool utcLibrary).machine.exec
      (fun s a => guardBelow 3 s a = true) (.init (Scheduler.init false)) sampleRun = some (s, es) ∧
    enterers es = [(0, "nightly:2026-07-01T02:00:00+00:00")] ∧ Exclusive es s := by
  obtain ⟨s, es, hexec, hent⟩ : ∃ s es, (pool utcLibrary).machine.exec
      (fun s a => guardBelow 3 s a = true) (.init (Scheduler.init false)) sampleRun = some (s, es) ∧
      enterers es = [(0, "nightly:2026-07-01T02:00:00+00:00")] := ⟨_, _, rfl, rfl⟩
  exact ⟨s, es, hexec, hent, overlap_exclusive (run_of_below (Machine.run_of_exec _ hexec))⟩

end Sample

end EnterpriseCopilot.Schedule.Overlap
