import EnterpriseCopilot.Api.Steps
import EnterpriseCopilot.Attachment.Law

/-! The event table and the counters are what the requests and their responses say, and no more. -/

namespace EnterpriseCopilot.Api

open EnterpriseCopilot.Python EnterpriseCopilot.Runtime
open EnterpriseCopilot.Attachment (AttachmentRecord Scope)
open EnterpriseCopilot.Audit (AuditLog EventRow)
open EnterpriseCopilot.Observability (MetricKey MetricsRegistry)

/-- An analysis that an exception took out of the handler after something was sent. -/
def Exchange.lost (x : Exchange) : Bool :=
  match x.outcome with
  | .unhandled => x.sent.isSome
  | _ => false

def Mark.analysis (m : Mark) : Bool :=
  m.event_type = "attachment.analyzed" || m.event_type = "attachment.analysis_failed"

def State.marks {D : Deployment} (s : State D) : List Mark := s.audit.rows.map Mark.of

/-- The value of a counter. -/
def counted (m : MetricsRegistry) (operation : String) : Int := (m._counters.lookup (counter operation)).getD 0

section Step

variable {D : Deployment} {r : Request} {s : State D} {x : Served D} {b : Audit.Backend}

theorem append_rows (hstore : D.audit_store = some b) (log : AuditLog) (event : AuditEvent) :
    (log.append D.codec D.audit_store event).rows = log.rows ++ [EventRow.ofEvent D.codec event] := by
  rw [hstore]
  rfl

/-- What `finish` leaves in the table is what its outcome says. -/
theorem Finished.marks {event : AuditEvent} {operation : String} {status_code : Nat} {body : Body}
    {served : Outcome × State D} {attachment_id : String} {sent : Option Outgoing}
    (h : Finished D r event operation status_code body s served) (hstore : D.audit_store = some b)
    (hnotes : Notes D r attachment_id event operation status_code body sent) :
    served.2.marks = s.marks ++ audited ⟨r, served.1, sent⟩ := by
  cases h with
  | raised _ hrows =>
    rw [audited_unhandled, List.append_nil]
    exact congrArg (List.map Mark.of) hrows
  | done =>
    rw [hnotes.audited, ← hnotes.mark, State.marks, append_rows hstore, List.map_append]
    rfl

theorem handled_marks (h : Handled D r s x) (hstore : D.audit_store = some b) :
    x.state.marks = s.marks ++ audited ⟨r, x.outcome, x.sent⟩ := by
  cases h with
  | idle _ hsilent => rw [hsilent, List.append_nil]; rfl
  | refused _ _ _ hsilent => rw [hsilent, List.append_nil]; rfl
  | purged _ hsilent _ => rw [hsilent, List.append_nil]; rfl
  | changed _ _ _ hnotes _ hfinished => exact hfinished.marks hstore hnotes
  | analyzed _ _ hnotes hfinished => exact hfinished.marks hstore hnotes
  | failed _ _ hmark haudited =>
    rw [haudited, ← hmark, State.marks, append_rows hstore, List.map_append]
    rfl
  | lost _ hrows =>
    rw [audited_unhandled, List.append_nil]
    exact congrArg (List.map Mark.of) hrows

theorem lost_none {outcome : Outcome} : Exchange.lost ⟨r, outcome, none⟩ = false := by
  cases outcome <;> rfl

theorem not_analysis_of_change (c : Attachment.Call) (attachment_id : String) :
    (r.mark (event_type_of c) attachment_id).analysis = false := by
  cases c <;> simp [Request.mark, Mark.analysis, event_type_of]

/-- What is sent is in the table, unless it is lost, and nothing that was not sent is. -/
structure Accounted (x : Exchange) : Prop where
  count : (audited x).countP Mark.analysis + (if x.lost then 1 else 0) = if x.sent.isSome then 1 else 0

theorem Accounted.of_silent {outcome : Outcome} (h : audited ⟨r, outcome, none⟩ = []) :
    Accounted ⟨r, outcome, none⟩ := by
  constructor
  rw [h, lost_none]
  rfl

theorem Accounted.of_lost {o : Outgoing} : Accounted ⟨r, .unhandled, some o⟩ := by
  constructor
  rw [audited_unhandled]
  rfl

/-- An analysis that sends something is in the table, unless it is lost. -/
theorem handled_accounted (h : Handled D r s x) : Accounted ⟨r, x.outcome, x.sent⟩ := by
  cases h with
  | idle _ hsilent => exact .of_silent hsilent
  | refused _ _ _ hsilent => exact .of_silent hsilent
  | purged _ hsilent _ => exact .of_silent hsilent
  | changed _ _ htype hnotes _ hfinished =>
    cases hfinished with
    | raised => exact .of_silent audited_unhandled
    | done =>
      constructor
      rw [hnotes.audited, htype, List.countP_singleton, not_analysis_of_change]
      rfl
  | analyzed _ htype hnotes hfinished =>
    cases hfinished with
    | raised => exact .of_lost
    | done =>
      constructor
      rw [hnotes.audited, htype, List.countP_singleton]
      simp [Request.mark, Mark.analysis, Exchange.lost]
  | failed _ htype _ haudited =>
    constructor
    rw [haudited, htype, List.countP_singleton]
    simp [Request.mark, Mark.analysis, Exchange.lost]
  | lost => exact .of_lost

theorem operations_apart : ∀ p ∈ operations, ∀ q ∈ operations, p.1 = q.1 ↔ p.2 = q.2 := by
  decide

theorem lookup_add {key key' : MetricKey} {value : Int} {counters : List (MetricKey × Int)} :
    ((MetricsRegistry.add key value counters).lookup key').getD 0 =
      (counters.lookup key').getD 0 + if key = key' then value else 0 := by
  induction counters with
  | nil =>
    by_cases h : key' = key
    · simp [MetricsRegistry.add, h]
    · simp [MetricsRegistry.add, List.lookup_cons, beq_eq_false_iff_ne.mpr h, Ne.symm h]
  | cons c counters ih =>
    obtain ⟨k, v⟩ := c
    by_cases hk : k = key
    · subst hk
      by_cases h : key' = k
      · simp [MetricsRegistry.add, h]
      · simp [MetricsRegistry.add, List.lookup_cons, beq_eq_false_iff_ne.mpr h, Ne.symm h]
    · by_cases h : key' = k
      · subst h
        simp [MetricsRegistry.add, hk, Ne.symm hk]
      · simp only [MetricsRegistry.add, hk, if_false, List.lookup_cons, beq_eq_false_iff_ne.mpr h]
        exact ih

theorem counted_add {m : MetricsRegistry} {operation operation' : String} :
    counted ⟨MetricsRegistry.add (counter operation) 1 m._counters⟩ operation' =
      counted m operation' + if operation = operation' then 1 else 0 := by
  rw [counted, lookup_add]
  simp [counter, counted]

theorem Finished.counted {event : AuditEvent} {operation : String} {status_code : Nat} {body : Body}
    {served : Outcome × State D} {attachment_id : String} {sent : Option Outgoing} {p : String × String}
    (h : Finished D r event operation status_code body s served) 
    (hnotes : Notes D r attachment_id event operation status_code body sent) (hp : p ∈ operations) :
    counted served.2.metrics p.1 = counted s.metrics p.1 +
      ((audited ⟨r, served.1, sent⟩).countP fun m => m.event_type = p.2 : Nat) := by
  cases h with
  | raised _ _ =>
    rw [audited_unhandled]
    simp
  | done =>
    rw [hnotes.audited, counted_add]
    have hsame := operations_apart _ hnotes.counted p hp
    simp only [List.countP_singleton, decide_eq_true_eq, Request.mark, hsame]
    split <;> rfl

theorem handled_counted {p : String × String} (h : Handled D r s x) (hp : p ∈ operations) :
    counted x.state.metrics p.1 = counted s.metrics p.1 +
      ((audited ⟨r, x.outcome, x.sent⟩).countP fun m => m.event_type = p.2 : Nat) := by
  cases h with
  | idle _ hsilent => simp [hsilent]
  | refused _ _ _ hsilent => simp [hsilent]
  | purged _ hsilent _ => simp [hsilent]
  | changed _ _ _ hnotes _ hfinished => exact hfinished.counted hnotes hp
  | analyzed _ _ hnotes hfinished => exact hfinished.counted hnotes hp
  | failed _ htype _ haudited =>
    have hother : ∀ q ∈ operations, "attachment.analysis_failed" ≠ q.2 := by decide
    simp [haudited, Request.mark, htype, hother p hp]
  | lost => simp [audited_unhandled]

end Step

/-- What the table says is there after an event. -/
def Mark.enter (known : List Mark) (m : Mark) : List Mark :=
  if m.event_type = "attachment.created" then known ++ [m]
  else if m.event_type = "attachment.deleted" then known.filter fun k => !(k.run_id = m.run_id)
  else known

def inventory (marks : List Mark) : List Mark := marks.foldl Mark.enter []

/-- The event with which a record is created. -/
def creation (record : AttachmentRecord) : Mark :=
  ⟨"attachment.created", "attachment-" ++ record.id, record.workspace_id, some record.tenant_id⟩

def State.creations {D : Deployment} (s : State D) : List Mark := s.attachments.store.rows.map creation

section Rows

variable {S : Attachment.AttachmentService} {W : Attachment.World} {a : Attachment.State S.backend}
  {record : AttachmentRecord} {e : Attachment.Failure}

theorem upload_rows {i : IdentityContext} {filename content_type : String} {data : Bytes} {oracle : Attachment.Oracle} :
    (∃ e, (S.upload W i filename content_type data oracle a).1 = .error e ∧
      (S.upload W i filename content_type data oracle a).2.store.rows = a.store.rows) ∨
    ∃ record, (S.upload W i filename content_type data oracle a).1 = .ok record ∧ record.scope = .of i ∧
      (S.upload W i filename content_type data oracle a).2.store.rows = a.store.rows ++ [record] := by
  generalize hup : S.upload W i filename content_type data oracle a = x
  obtain ⟨answer, a'⟩ := x
  obtain ⟨⟨e, rfl⟩, rfl⟩ | ⟨_, _, _, _, _, _, _, ⟨e, rfl, rfl⟩ | ⟨record, store, rfl, hcreate, _, hscope, _, _, _, rfl⟩⟩ :=
    Attachment.upload_cases hup
  · exact .inl ⟨e, rfl, rfl⟩
  · exact .inl ⟨e, rfl, rfl⟩
  · exact .inr ⟨record, rfl, hscope, Attachment.Store.create_ok hcreate⟩

theorem delete_rows {i : IdentityContext} {attachment_id : String} :
    (∃ e, (S.delete i attachment_id a).1 = .error e ∧ (S.delete i attachment_id a).2.store.rows = a.store.rows) ∨
    ∃ record, (S.delete i attachment_id a).1 = .ok record ∧ record ∈ a.store.rows ∧
      (S.delete i attachment_id a).2.store.rows = a.store.rows.filter (· ≠ record) := by
  unfold Attachment.AttachmentService.delete
  split
  · exact .inl ⟨_, rfl, rfl⟩
  rename_i hrecord
  split
  · exact .inl ⟨_, rfl, rfl⟩
  split
  · rename_i hdeleted
    -- the record has just been read
    have hget := (Attachment.Store.delete_fst attachment_id (.of i)).symm.trans (congrArg Prod.fst hdeleted)
    have hthere := Attachment.Store.get_eq_some.mpr (Attachment._scoped_record_ok.mp hrecord).2
    cases hget.symm.trans hthere
  · rename_i deleted store hdeleted
    have hget := (Attachment.Store.delete_fst attachment_id (.of i)).symm.trans (congrArg Prod.fst hdeleted)
    obtain ⟨hmem, rfl, hscope⟩ := Attachment.Store.get_eq_some.mp hget
    refine .inr ⟨deleted, rfl, hmem, ?_⟩
    rw [← Attachment.Store.delete_rows_of_mem hmem, hscope, hdeleted]

theorem purge_rows (expired deleted : List AttachmentRecord) (a : Attachment.State S.backend) :
    ((S.purge expired deleted a).2.store.rows).Sublist a.store.rows := by
  induction expired generalizing deleted a with
  | nil => exact .refl _
  | cons record expired ih =>
    unfold Attachment.AttachmentService.purge
    split
    · exact .refl _
    · refine (ih _ _).trans ?_
      change (a.store.delete record.id record.scope).2.rows.Sublist _
      rw [Attachment.Store.delete_rows]
      exact List.filter_sublist

theorem purge_expired_rows (now : DateTime) : ((S.purge_expired W now a).2.store.rows).Sublist a.store.rows := by
  unfold Attachment.AttachmentService.purge_expired
  split
  · exact .refl _
  split
  · exact .refl _
  · exact purge_rows _ _ _

end Rows

section Inventory

variable {D : Deployment} {r : Request} {s : State D} {x : Served D} {c : Attachment.Call} {record : AttachmentRecord}

theorem call_cases (h : D.call? r = some c) :
    (∃ filename content_type data oracle, c = .upload r.identity filename content_type data oracle) ∨
    (∃ attachment_id, c = .delete r.identity attachment_id) ∨
    ∃ now, c = .purge_expired now ∧ r.operation = .purge_expired now := by
  unfold Deployment.call? at h
  split at h
  · cases h
    exact .inl ⟨_, _, _, _, rfl⟩
  · cases h
    exact .inr (.inl ⟨_, rfl⟩)
  · rename_i hop
    cases h
    exact .inr (.inr ⟨_, rfl, hop⟩)
  · cases h

theorem rows_refused {e : Attachment.Failure} (hcall : D.call? r = some c)
    (hkeeps : ∀ now, r.operation ≠ .purge_expired now) (h : (D.perform c s).1 = .error e) :
    (D.perform c s).2.store.rows = s.attachments.store.rows := by
  obtain ⟨_, _, _, _, rfl⟩ | ⟨_, rfl⟩ | ⟨now, rfl, hop⟩ := call_cases hcall
  · obtain ⟨_, _, hrows⟩ | ⟨record, hok, _⟩ := upload_rows (S := D.attachments) (W := D.world) (a := s.attachments)
    · exact hrows
    · cases (congrArg (Except.map Attachment.Answer.record) hok).symm.trans h
  · obtain ⟨_, _, hrows⟩ | ⟨record, hok, _⟩ := delete_rows (S := D.attachments) (a := s.attachments)
    · exact hrows
    · cases (congrArg (Except.map Attachment.Answer.record) hok).symm.trans h
  · exact absurd hop (hkeeps now)

theorem enter_deleted {known : List Mark} {attachment_id : String} :
    Mark.enter known (r.mark "attachment.deleted" attachment_id) =
      known.filter fun k => !(k.run_id = "attachment-" ++ attachment_id) := by
  unfold Mark.enter
  rw [if_neg (by simp [Request.mark])]
  exact if_pos rfl

theorem enter_analysis {m : Mark} {known : List Mark} (h : m.analysis = true) : Mark.enter known m = known := by
  simp only [Mark.analysis, Bool.or_eq_true, decide_eq_true_eq] at h
  obtain h | h := h
  · simp [Mark.enter, h]
  · simp [Mark.enter, h]

/-- The retention job answers with all its records. -/
theorem not_purge_of_record (hcall : D.call? r = some c) (h : (D.perform c s).1 = .ok (.record record)) :
    ∀ now, r.operation ≠ .purge_expired now := by
  intro now hop
  rw [Deployment.call?, hop] at hcall
  cases hcall
  change (D.attachments.purge_expired D.world now s.attachments).1.map Attachment.Answer.records = _ at h
  generalize (D.attachments.purge_expired D.world now s.attachments).1 = answer at h
  cases answer <;> cases h

/-- The records after a call that succeeds are what its event says. -/
theorem creations_changed (hcall : D.call? r = some c) (h : (D.perform c s).1 = .ok (.record record)) :
    (D.perform c s).2.store.rows.map creation =
      Mark.enter s.creations (r.mark (event_type_of c) record.id) := by
  obtain ⟨_, _, _, _, rfl⟩ | ⟨_, rfl⟩ | ⟨now, _, hop⟩ := call_cases hcall
  · obtain ⟨e, herror, _⟩ | ⟨record', hok, hscope, hrows⟩ :=
      upload_rows (S := D.attachments) (W := D.world) (a := s.attachments)
    · cases (congrArg (Except.map Attachment.Answer.record) herror).symm.trans h
    cases (congrArg (Except.map Attachment.Answer.record) hok).symm.trans h
    obtain ⟨hworkspace, htenant, _⟩ := Scope.mk.inj hscope
    have hmark : r.mark "attachment.created" record.id = creation record := by
      rw [creation, hworkspace, htenant]
      rfl
    change (D.attachments.upload D.world r.identity _ _ _ _ s.attachments).2.store.rows.map creation = _
    rw [hrows, List.map_append, event_type_of, hmark]
    rfl
  · obtain ⟨e, herror, _⟩ | ⟨record', hok, hmem, hrows⟩ := delete_rows (S := D.attachments) (a := s.attachments)
    · cases (congrArg (Except.map Attachment.Answer.record) herror).symm.trans h
    cases (congrArg (Except.map Attachment.Answer.record) hok).symm.trans h
    change (D.attachments.delete r.identity _ s.attachments).2.store.rows.map creation =
      Mark.enter s.creations (r.mark "attachment.deleted" record.id)
    rw [hrows, enter_deleted, State.creations, List.filter_map]
    refine congrArg _ (List.filter_congr fun y hy => ?_)
    -- ids are unique in the table
    have hsame : y = record ↔ y.id = record.id := ⟨congrArg _, Attachment.Store.eq_of_id hy hmem⟩
    simp [creation, hsame]
  · exact absurd hop (not_purge_of_record hcall h now)

theorem handled_creations (h : Handled D r s x) (hraises : r.raises = none) :
    x.state.creations = (audited ⟨r, x.outcome, x.sent⟩).foldl Mark.enter s.creations ∨
    (∃ now, r.operation = .purge_expired now) ∧ x.state.creations.Sublist s.creations ∧
      audited ⟨r, x.outcome, x.sent⟩ = [] := by
  cases h with
  | idle _ hsilent =>
    rw [hsilent]
    exact .inl rfl
  | refused hcall hkeeps herror hsilent =>
    rw [hsilent]
    exact .inl (congrArg (List.map creation) (rows_refused hcall hkeeps herror))
  | purged hop hsilent _ => exact .inr ⟨⟨_, hop⟩, (purge_expired_rows _).map _, hsilent⟩
  | changed hcall hok htype hnotes _ hfinished =>
    cases hfinished with
    | raised hraised => exact absurd hraises hraised
    | done =>
      refine .inl ((creations_changed hcall hok).trans ?_)
      rw [hnotes.audited, htype]
      rfl
  | analyzed _ htype hnotes hfinished =>
    cases hfinished with
    | raised hraised => exact absurd hraises hraised
    | done =>
      rw [hnotes.audited, htype, List.foldl_cons, enter_analysis]
      · exact .inl rfl
      · simp [Request.mark, Mark.analysis]
  | failed _ htype _ haudited =>
    rw [haudited, htype, List.foldl_cons, enter_analysis]
    · exact .inl rfl
    · simp [Request.mark, Mark.analysis]
  | lost =>
    rw [audited_unhandled]
    exact .inl rfl

theorem Mark.enter_sublist {known known' : List Mark} (h : known.Sublist known') (m : Mark) :
    (Mark.enter known m).Sublist (Mark.enter known' m) := by
  unfold Mark.enter
  split
  · exact h.append (.refl _)
  split
  · exact h.filter _
  · exact h

theorem foldl_enter_sublist {known known' : List Mark} (h : known.Sublist known') (marks : List Mark) :
    (marks.foldl Mark.enter known).Sublist (marks.foldl Mark.enter known') := by
  induction marks generalizing known known' with
  | nil => exact h
  | cons m marks ih => exact ih (Mark.enter_sublist h m)

end Inventory

section Run

variable {D : Deployment} {b : Audit.Backend}

theorem marks_run (hstore : D.audit_store = some b) (requests : List Request) (s : State D) :
    (after D requests s).marks = s.marks ++ (trace D requests s).flatMap audited := by
  induction requests generalizing s with
  | nil => simp [after, trace]
  | cons r requests ih =>
    have hstep := handled_marks (handle_cases D r s) hstore
    change (after D requests (D.handle r s).state).marks = _
    rw [ih, hstep, trace, List.flatMap_cons, List.append_assoc]

theorem accounted_run (requests : List Request) (s : State D) :
    ((trace D requests s).flatMap audited).countP Mark.analysis + (trace D requests s).countP Exchange.lost =
      (trace D requests s).countP fun x => x.sent.isSome := by
  induction requests generalizing s with
  | nil => rfl
  | cons r requests ih =>
    have hstep := (handled_accounted (handle_cases D r s)).count
    have hrest := ih (D.handle r s).state
    rw [trace, List.flatMap_cons, List.countP_append, List.countP_cons, List.countP_cons]
    omega

theorem counted_run {p : String × String} (hp : p ∈ operations) (requests : List Request) (s : State D) :
    counted (after D requests s).metrics p.1 = counted s.metrics p.1 +
      (((trace D requests s).flatMap audited).countP fun m => m.event_type = p.2 : Nat) := by
  induction requests generalizing s with
  | nil => simp [after, trace]
  | cons r requests ih =>
    have hstep := handled_counted (handle_cases D r s) hp
    change counted (after D requests (D.handle r s).state).metrics p.1 = _
    rw [ih, hstep, trace, List.flatMap_cons, List.countP_append, Nat.cast_add, add_assoc]

/-- The table holds for every request what its response tells, in their order, and nothing else.  The analyses in it
are those for which something was sent, without those that an exception took out of the handler afterwards. -/
theorem table_of_responses (hstore : D.audit_store = some b) (requests : List Request) :
    (after D requests (.init D)).marks = (trace D requests (.init D)).flatMap audited ∧
      (after D requests (.init D)).marks.countP Mark.analysis + (trace D requests (.init D)).countP Exchange.lost =
        (trace D requests (.init D)).countP fun x => x.sent.isSome := by
  have hmarks : (after D requests (.init D)).marks = (trace D requests (.init D)).flatMap audited :=
    marks_run hstore requests _
  exact ⟨hmarks, by rw [hmarks]; exact accounted_run requests _⟩

theorem creations_run (requests : List Request) (s : State D) (hraises : ∀ r ∈ requests, r.raises = none) :
    (after D requests s).creations.Sublist (((trace D requests s).flatMap audited).foldl Mark.enter s.creations) ∧
      ((∀ r ∈ requests, ∀ now, r.operation ≠ .purge_expired now) →
        (after D requests s).creations = ((trace D requests s).flatMap audited).foldl Mark.enter s.creations) := by
  induction requests generalizing s with
  | nil => exact ⟨.refl _, fun _ => rfl⟩
  | cons r requests ih =>
    have hstep := handled_creations (handle_cases D r s) (hraises r List.mem_cons_self)
    obtain ⟨hsublist, hsame⟩ := ih (D.handle r s).state fun q hq => hraises q (List.mem_cons_of_mem _ hq)
    change (after D requests (D.handle r s).state).creations.Sublist _ ∧
      (_ → (after D requests (D.handle r s).state).creations = _)
    rw [trace, List.flatMap_cons, List.foldl_append]
    obtain hstep | ⟨⟨now, hop⟩, hstep, hsilent⟩ := hstep
    · rw [← hstep]
      exact ⟨hsublist, fun h => hsame fun q hq => h q (List.mem_cons_of_mem _ hq)⟩
    · rw [hsilent]
      exact ⟨hsublist.trans (foldl_enter_sublist hstep _), fun h => absurd hop (h r List.mem_cons_self now)⟩

/-- The counters of the operations are the numbers of their events in the table. -/
theorem counters_of_table (hstore : D.audit_store = some b) (requests : List Request) :
    ∀ p ∈ operations, counted (after D requests (.init D)).metrics p.1 =
      ((after D requests (.init D)).marks.countP fun m => m.event_type = p.2 : Nat) := by
  intro p hp
  rw [counted_run hp, marks_run hstore]
  exact zero_add _

/-- As long as the event store takes every event, the table alone tells which attachments each workspace and tenant
has, but for those that the retention job has removed. -/
theorem inventory_of_table (hstore : D.audit_store = some b) (requests : List Request)
    (hraises : ∀ r ∈ requests, r.raises = none) :
    (after D requests (.init D)).creations.Sublist (inventory (after D requests (.init D)).marks) ∧
      ((∀ r ∈ requests, ∀ now, r.operation ≠ .purge_expired now) →
        (after D requests (.init D)).creations = inventory (after D requests (.init D)).marks) := by
  rw [marks_run hstore]
  exact creations_run requests (.init D) hraises

end Run

section Sample

theorem twenty_positive : 0 < (20 : Int) ∧ 0 < (60 : Int) := by
  decide

def sample : Deployment where
  attachments := Attachment.sampleService
  world := Attachment.sampleWorld
  vision := some ⟨some ⟨"https://vision.example/v1/chat/completions", "key", "model"⟩⟩
  limiters := .in_memory fun _ => ⟨20, 60, twenty_positive⟩
  codec := ⟨fun _ => "", fun _ => .ok .null⟩
  audit_store := some .sqlite

def ask (operation : Operation) : Request where
  identity := ⟨"u1", "w1", "t1", "customer"⟩
  operation := operation
  now := 0
  ms := 0
  link := .replied
  request_id := "r1"
  request_uuid := Attachment.sampleWorld.uuid4 0
  trace_uuid := Attachment.sampleWorld.uuid4 1
  created_at := Attachment.sampleOracle.utc_now
  raises := none

theorem ocr_literal : "ocr" ∈ ["describe", "ocr"] := by
  decide

theorem none_bounded : ∀ text ∈ (none : Option String), text.length ≤ 2000 := by
  simp

def ocr : AnalysisRequest := ⟨"ocr", true, none, ocr_literal, none_bounded⟩

def answering (text : String) : Http where
  post _ := .ok []
  loads _ := .ok (.obj [("choices", .arr [.obj [("message", .obj [("content", .str text)])]])])
  dumps _ := ""

def sampleUpload : Request :=
  ask (.upload_attachment (some "dot.gif") (some "image/gif") Attachment.sampleImage
    (fun _ => .ok (some "GIF", 1, 1)) (fun _ _ => .ok ()) Attachment.sampleOracle.utc_now)

def sampleAnalysis (text : String) : Request :=
  ask (.analyze_attachment Attachment.sampleRecord.id ocr (answering text) Attachment.sampleOracle.utc_now)

/-- An upload, an analysis that is answered, one that is not, and the deletion. -/
def sampleRequests : List Request :=
  [sampleUpload, sampleAnalysis "A dot.", sampleAnalysis " ", ask (.delete_attachment Attachment.sampleRecord.id)]

/-- What the requests come to: their events, what is stored before the deletion, the ids that were drawn, and that the
first analysis was sent. -/
theorem sample_checks : (after sample sampleRequests (.init sample)).marks.map Mark.event_type =
      ["attachment.created", "attachment.analyzed", "attachment.analysis_failed", "attachment.deleted"] ∧
    inventory (after sample (sampleRequests.take 3) (.init sample)).marks = [creation Attachment.sampleRecord] ∧
    (after sample sampleRequests (.init sample)).attachments.drawn = 1 ∧
    (sample.handle (sampleAnalysis "A dot.") (after sample [sampleUpload] (.init sample))).sent.isSome = true := by
  decide +kernel

theorem table_of_responses_sample : (after sample sampleRequests (.init sample)).marks.map Mark.event_type =
      ["attachment.created", "attachment.analyzed", "attachment.analysis_failed", "attachment.deleted"] ∧
    (after sample sampleRequests (.init sample)).marks = (trace sample sampleRequests (.init sample)).flatMap audited :=
  ⟨sample_checks.1, (table_of_responses (b := .sqlite) rfl sampleRequests).1⟩

theorem counters_of_table_sample : (after sample sampleRequests (.init sample)).marks.map Mark.event_type =
      ["attachment.created", "attachment.analyzed", "attachment.analysis_failed", "attachment.deleted"] ∧
    ∀ p ∈ operations, counted (after sample sampleRequests (.init sample)).metrics p.1 =
      ((after sample sampleRequests (.init sample)).marks.countP fun m => m.event_type = p.2 : Nat) :=
  ⟨sample_checks.1, counters_of_table (b := .sqlite) rfl sampleRequests⟩

theorem inventory_of_table_sample :
    inventory (after sample (sampleRequests.take 3) (.init sample)).marks = [creation Attachment.sampleRecord] ∧
    (after sample (sampleRequests.take 3) (.init sample)).creations =
      inventory (after sample (sampleRequests.take 3) (.init sample)).marks := by
  refine ⟨sample_checks.2.1, (inventory_of_table (b := .sqlite) rfl (sampleRequests.take 3) ?_).2 ?_⟩
  · simp [sampleRequests, sampleUpload, sampleAnalysis, ask]
  · simp [sampleRequests, sampleUpload, sampleAnalysis, ask]

end Sample

end EnterpriseCopilot.Api
