import EnterpriseCopilot.Approval.Lifecycle

/-! When approvals take effect. -/

namespace EnterpriseCopilot.Approval

open EnterpriseCopilot.Lib EnterpriseCopilot.Python EnterpriseCopilot.Runtime

/-- The call has drawn a token. -/
def drew (log : Log) : Bool := log.any fun x => match x with
  | ⟨.token_urlsafe, _⟩ => true
  | _ => false

variable {b : Backend} {W : World}

/-- The clock is before the expiry of the approval. -/
def Unexpired (s : Desk b) (id : String) (scope : Scope) : Prop :=
  ∀ row ∈ s.table.rows, row.request.id = id → row.request.scope = scope →
    s.clock < row.request.expires_at

instance (s : Desk b) (id : String) (scope : Scope) : Decidable (Unexpired s id scope) :=
  inferInstanceAs (Decidable (∀ row ∈ s.table.rows, _ → _ → _))

/-- Time matters at two steps at which the code does not look: `approve` takes the time of its
decision, and `verify`, which has found an approved record, asks for the hash. -/
def inTime (s : Desk b) : Pool.Slot Cmd Reply Call PyError Answer → Bool
  | .live ⟨.approve a id, log, .cmd .now _⟩ => !drew log || decide (Unexpired s id (.of a))
  | .live ⟨_, _, .cmd (.token_hash id scope) _⟩ => decide (Unexpired s id scope)
  | _ => true

def InTime (s : State b) : Action → Prop
  | .step i _ => inTime s.shared (s.threads i) = true
  | _ => True

instance (s : State b) (a : Action) : Decidable (InTime s a) :=
  match a with
  | .step i _ => inferInstanceAs (Decidable (inTime s.shared (s.threads i) = true))
  | .start _ _ => .isTrue trivial
  | .crash _ => .isTrue trivial
  | .env _ => .isTrue trivial

/-- The time of a decision was before the expiry that the call has read. -/
def Timely (call : Call) (log : Log) : Prop :=
  ∀ a id, call = .approve a id → ∀ pre decided_at post, log = pre ++ ⟨.now, decided_at⟩ :: post →
    drew pre = true → ∀ record, ⟨.get id (.of a), .ok (some record)⟩ ∈ pre →
      decided_at < record.expires_at

section Run

variable {clock : Instant} {es : List Event} {s : State b}

/-- The record that `get` returned has the expiry of the row. -/
theorem expires_of_known {t : Approvals b} {id : String} {scope : Scope} {record : ApprovalRecord}
    (h : Known W t (.get id scope) (.ok (some record))) :
    ∃ row ∈ t.rows, row.request.id = id ∧ row.request.scope = scope ∧
      row.request.expires_at = record.expires_at := by
  obtain ⟨row, hfrom, hid, hscope, row', hrow', hl⟩ := h
  refine ⟨row', hrow', by rw [hl.1]; exact hid, by rw [hl.1]; exact hscope, ?_⟩
  rw [hl.1]
  exact (from_row_request hfrom).2.2.symm

theorem timely_snoc {s : Desk b} {call : Call} {log : Log} {c : Cmd} {ch : Choice}
    {k : Reply c → Code Answer} (hG : inTime s (.live ⟨call, log, .cmd c k⟩) = true)
    (hk : ∀ x ∈ log, Known W s.table x.1 x.2) (h : Timely call log) :
    Timely call (log ++ [⟨c, (s.apply W call c ch).1⟩]) := by
  rintro a id rfl pre decided_at post heq hdrew record hmem
  rcases List.eq_nil_or_concat post with rfl | ⟨post', x, rfl⟩
  · -- the time has just been read
    obtain ⟨rfl, hlast⟩ := List.append_inj' heq rfl
    cases hlast
    obtain ⟨row, hrow, hid, hscope, hexp⟩ := expires_of_known (hk _ hmem)
    have hun : Unexpired s id (.of a) := by
      simpa [inTime, hdrew] using hG
    rw [← hexp]
    exact hun row hrow hid hscope
  · rw [List.concat_eq_append, ← List.cons_append, ← List.append_assoc] at heq
    obtain ⟨rfl, _⟩ := List.append_inj' heq rfl
    exact h a id rfl pre decided_at post' rfl hdrew record hmem

theorem timely_of_run (h : (pool b W).machine.Run InTime (.init ⟨Table.empty, clock⟩) es s) :
    ∀ i th, s.threads i = .live th → Timely th.call th.log := by
  have hnil : ∀ call, Timely call [] := by
    intro call a id _ pre decided_at post heq
    simp at heq
  refine h.invariant (I := fun _ s => ∀ i th, s.threads i = .live th → Timely th.call th.log)
    (fun i th hi => by cases hi) ?_
  intro es s a s' e hr hG hs ih j th hj
  cases Pool.step_cases hs with
  | @start i call hi =>
    rw [Pool.State.set_threads] at hj
    split at hj
    · obtain rfl := Pool.Thread.slot_eq_live hj
      exact hnil call
    · exact ih j th hj
  | @step i ch call log c k hi =>
    rw [Pool.State.set_threads] at hj
    split at hj
    · obtain rfl := Pool.Thread.slot_eq_live hj
      have hG' : inTime s.shared (.live ⟨call, log, .cmd c k⟩) = true := by
        rw [← hi]
        exact hG
      exact timely_snoc hG' ((holds_of_run hr).live hi).2 (ih i _ hi)
    · exact ih j th hj
  | crash hi =>
    rw [Pool.State.set_threads] at hj
    split at hj
    · cases hj
    · exact ih j th hj
  | env => exact ih j th hj

/-- The row was approved before its expiry. -/
def Row.InTime (row : Row) : Prop :=
  row.status = .approved → ∃ t, row.decided_at = some t ∧ t < row.request.expires_at

/-- One command approves in time, or nothing. -/
theorem rows_inTime {s s' : Desk b} {call : Call} {log : Log} {c : Cmd} {r : Reply c}
    {ch : Choice} (hrows : ∀ row ∈ s.table.rows, row.InTime) (hI : Issues W call log c)
    (hk : ∀ x ∈ log, Known W s.table x.1 x.2) (ht : Timely call log)
    (h : s.apply W call c ch = (r, s')) : ∀ row ∈ s'.table.rows, row.InTime := by
  cases c with
  | create record =>
    obtain ⟨rfl, _⟩ | ⟨arguments, _, _, hnew⟩ := apply_create h
    · exact hrows
    · intro row hrow
      rw [hnew] at hrow
      rcases List.mem_append.mp hrow with hrow | hrow
      · exact hrows row hrow
      · obtain rfl := List.mem_singleton.mp hrow
        obtain ⟨_, _, _, _, _, _, _, _, _, _, hpend⟩ := hI.2
        intro happ
        cases hpend.symm.trans happ
  | decide id scope status approver decided_at hash =>
    obtain ⟨rfl, _⟩ | ⟨old, hold, hid, _, _, _, _, hnew⟩ := apply_decide h
    · exact hrows
    · intro row hrow
      obtain rfl | ⟨hrow, _⟩ := (hnew row).mp hrow
      · rintro rfl
        obtain ⟨a, pre, record, token, rfl, _, rfl, _, _, hget, rfl⟩ := hI.2
        refine ⟨decided_at, rfl, ?_⟩
        have htime := ht a id rfl (pre ++ [⟨.token_urlsafe, token⟩]) decided_at [] rfl
          (by simp [drew]) record (List.mem_append_left _ hget)
        obtain ⟨row', hrow', hid', _, hexp⟩ := expires_of_known
          (hk _ (List.mem_append_left _ (List.mem_append_left _ hget)))
        rw [Approvals.eq_of_id hrow' hold (hid'.trans hid.symm)] at hexp
        rw [← hexp] at htime
        exact htime
      · exact hrows row hrow
  | _ =>
    cases h
    exact hrows

theorem approved_in_time (h : (pool b W).machine.Run InTime (.init ⟨Table.empty, clock⟩) es s) :
    ∀ row ∈ s.shared.table.rows, row.InTime := by
  refine h.invariant (I := fun _ s => ∀ row ∈ s.shared.table.rows, row.InTime)
    (fun _ h => (List.not_mem_nil h).elim) ?_
  intro es s a s' e hr _ hs ih
  cases Pool.step_cases hs with
  | @step i ch call log c k hi =>
    obtain ⟨hsat, hk⟩ := (holds_of_run hr).live hi
    exact rows_inTime ih hsat.1 hk (timely_of_run hr i _ hi) rfl
  | start hi => exact ih
  | crash hi => exact ih
  | env => exact ih

/-- When the expiry has not been reached at the steps that do not look at it, approvals are made
and verified before their expiry. -/
theorem effect_in_time (b : Backend) (W : World) (clock : Instant) (es : List Event) (s : State b)
    (h : (pool b W).machine.Run InTime (.init ⟨Table.empty, clock⟩) es s) :
    (∀ row ∈ s.shared.table.rows, row.status = .approved →
      ∃ t, row.decided_at = some t ∧ t < row.request.expires_at) ∧
    ∀ pre i identity id token tool_name arguments c r,
      es = pre ++ [.did i (.verify identity id token tool_name arguments) c r
        (some (.ok (.verified true)))] →
      ∃ row ∈ s.shared.table.rows, row.request.id = id ∧ row.request.scope = .of identity ∧
        s.shared.clock < row.request.expires_at := by
  refine ⟨approved_in_time h, ?_⟩
  rintro pre i identity id token tool_name arguments c r rfl
  obtain ⟨log, hQ, hk⟩ := (holds_of_run h).ended (List.mem_append_right _ (.head _))
  obtain ⟨pre', heq, _⟩ := hQ rfl
  obtain ⟨rfl, hlast⟩ := List.append_inj' heq rfl
  cases hlast
  obtain ⟨u, ch, log', k, _, hG, hi, happ, _⟩ := Pool.did_last h
  have hsame : u.shared = s.shared := congrArg Prod.snd happ
  have hun : Unexpired s.shared id (.of identity) := by
    change inTime u.shared (u.threads i) = true at hG
    rw [hi, hsame] at hG
    exact of_decide_eq_true hG
  obtain ⟨row, hrow, hid, hscope, _, _⟩ := hk _ (List.mem_append_right _ (.head _))
  exact ⟨row, hrow, hid, hscope, hun row hrow hid hscope⟩

section Sample

def verified (es : List Event) : List (Nat × Bool) :=
  es.filterMap fun
    | .did i _ _ _ (some (.ok (.verified valid))) => some (i, valid)
    | _ => none

def decisions (s : State b) : List (Option Instant × Instant) :=
  s.shared.table.rows.map fun row => (row.decided_at, row.request.expires_at)

/-- The token is verified one microsecond before the expiry. -/
theorem effect_in_time_sample : ∃ s es,
    (pool .memory sampleWorld).machine.exec InTime (.init ⟨Table.empty, 0⟩)
      (sampleApproval ++ [.env 59999999, .start 2 sampleVerify] ++ steps 2 2) = some (s, es) ∧
    verified es = [(2, true)] ∧ decisions s = [(some 0, 60000000)] ∧
    ∃ row ∈ s.shared.table.rows, row.request.id = sampleId.text ∧
      s.shared.clock < row.request.expires_at := by
  obtain ⟨s, es, hs, hv, hd, hlast⟩ : ∃ s es,
      (pool .memory sampleWorld).machine.exec InTime (.init ⟨Table.empty, 0⟩)
        (sampleApproval ++ [.env 59999999, .start 2 sampleVerify] ++ steps 2 2) = some (s, es) ∧
      verified es = [(2, true)] ∧ decisions s = [(some 0, 60000000)] ∧
      es.getLast? = some (.did 2 sampleVerify (.token_hash sampleId.text ⟨"w1", "t1"⟩)
        (some (_hash_token sampleWorld sampleToken.text)) (some (.ok (.verified true)))) :=
    ⟨_, _, rfl, rfl, rfl, rfl⟩
  obtain ⟨pre, hes⟩ := List.getLast?_eq_some_iff.mp hlast
  obtain ⟨row, hrow, hid, _, hclock⟩ := (effect_in_time .memory sampleWorld 0 es s
    (Machine.run_of_exec _ hs)).2 pre 2 _ _ _ _ _ _ _ hes
  exact ⟨s, es, hs, hv, hd, row, hrow, hid, hclock⟩

/-- The record expires between the check and the decision of `approve`, or after it; `verify`
does not look. -/
theorem effect_after_expiry :
    (∃ s es, (pool .memory sampleWorld).machine.exec Machine.Free (.init ⟨Table.empty, 0⟩)
        ([.start 0 sampleRequest] ++ steps 0 3 ++
          [.start 1 (.approve sampleManager sampleId.text)] ++ steps 1 3 ++ [.env 60000000] ++
          steps 1 2) = some (s, es) ∧
      statuses s = [.approved] ∧ decisions s = [(some 60000000, 60000000)]) ∧
    ∃ s es, (pool .memory sampleWorld).machine.exec Machine.Free (.init ⟨Table.empty, 0⟩)
        (sampleApproval ++ [.env 60000000, .start 2 sampleVerify] ++ steps 2 2) = some (s, es) ∧
      verified es = [(2, true)] ∧ decisions s = [(some 0, 60000000)] ∧
      s.shared.clock = 60000000 :=
  ⟨Machine.exec_of_any (P := fun s _ => statuses s = [.approved] ∧ decisions s = [(some 60000000, 60000000)])
      (by decide +kernel),
    Machine.exec_of_any (P := fun s es => verified es = [(2, true)] ∧ decisions s = [(some 0, 60000000)] ∧
      s.shared.clock = 60000000) (by decide +kernel)⟩

end Sample

end Run

end EnterpriseCopilot.Approval
