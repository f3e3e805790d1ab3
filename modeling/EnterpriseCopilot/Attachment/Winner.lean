import EnterpriseCopilot.Attachment.Removal

/-! Concurrent deletions of one record: who reports it as deleted. -/

namespace EnterpriseCopilot.Attachment

open EnterpriseCopilot.Lib EnterpriseCopilot.Python EnterpriseCopilot.Runtime

section Placed

variable {S : AttachmentService} {W : World} {s : State S.backend}

/-- The content has a path, and the owner is an identity that the service accepts. -/
def Placed (r : AttachmentRecord) : Prop :=
  (∃ path, Files._path r.storage_path = .ok path) ∧ ∃ j, _validate_identity j = .ok () ∧ r.scope = .of j

theorem placed_store_delete (h : ∀ r ∈ s.store.rows, Placed r) (id : String) (scope : Scope) :
    ∀ r ∈ (s.store.delete id scope).2.rows, Placed r := by
  intro r hr
  rw [Store.delete_rows] at hr
  exact h r (List.mem_of_mem_filter hr)

theorem placed_delete (h : ∀ r ∈ s.store.rows, Placed r) (i : IdentityContext) (id : String) :
    ∀ r ∈ (S.delete i id s).2.store.rows, Placed r := by
  have hfilter := placed_store_delete h id (.of i)
  unfold AttachmentService.delete
  split
  · exact h
  split
  · exact h
  split <;> rename_i hdel <;> rw [hdel] at hfilter <;> exact hfilter

theorem placed_purge (expired : List AttachmentRecord) : ∀ {deleted} {s : State S.backend},
    (∀ r ∈ s.store.rows, Placed r) → ∀ r ∈ (S.purge expired deleted s).2.store.rows, Placed r := by
  induction expired with
  | nil => exact fun h => h
  | cons record expired ih =>
    intro deleted s h
    unfold AttachmentService.purge
    split
    · exact h
    · exact ih (placed_store_delete h record.id record.scope)

theorem placed_perform (c : Call) (h : ∀ r ∈ s.store.rows, Placed r) :
    ∀ r ∈ (perform S W c s).2.store.rows, Placed r := by
  cases c with
  | upload i filename content_type data oracle =>
    change ∀ r ∈ (S.upload W i filename content_type data oracle s).2.store.rows, Placed r
    generalize hu : S.upload W i filename content_type data oracle s = x
    obtain ⟨a, s'⟩ := x
    obtain ⟨_, rfl⟩ | ⟨_, _, path, _, _, hvalid, hpath, ⟨_, _, rfl⟩ | ⟨r, store, _, hcreate, _, hscope, _, _, hplace, rfl⟩⟩ :=
      upload_cases hu
    · exact h
    · exact h
    · intro row hrow
      rw [Store.create_ok hcreate] at hrow
      rcases List.mem_append.mp hrow with hrow | hrow
      · exact h row hrow
      · obtain rfl := List.mem_singleton.mp hrow
        exact ⟨⟨path, by rw [hplace, hpath]⟩, i, hvalid, hscope⟩
  | delete i id => exact placed_delete h i id
  | purge_expired now =>
    change ∀ r ∈ (S.purge_expired W now s).2.store.rows, Placed r
    unfold AttachmentService.purge_expired
    split
    · exact h
    split
    · exact h
    · exact placed_purge _ h
  | list i => exact h
  | metadata i id => exact h
  | read_content i id => exact h

theorem placed_after (calls : List Call) : ∀ {s : State S.backend}, (∀ r ∈ s.store.rows, Placed r) →
    ∀ r ∈ (after S W calls s).store.rows, Placed r := by
  induction calls with
  | nil => exact fun h => h
  | cons c calls ih => exact fun h => ih (placed_perform c h)

end Placed

section Events

abbrev Event := Pool.Event Statement Statement.Reply Empty Removal Failure Answer

/-- Call `i` sends the `SELECT` of a deletion of the record. -/
def Selects (r : AttachmentRecord) (i : Nat) (e : Event) : Prop :=
  ∃ call found out, e = .did i call (.select r.id r.scope) found out

/-- Call `i` commits its `DELETE`. -/
def Commits (r : AttachmentRecord) (i : Nat) (e : Event) : Prop :=
  ∃ call out, e = .did i call (.commit r.id r.scope) () out

/-- Call `i` finds the record when it is about to delete it. -/
def Finds (r : AttachmentRecord) (i : Nat) (e : Event) : Prop :=
  ∃ call out, e = .did i call (.select r.id r.scope) (some r) out

/-- The `SELECT` of one call falls between the `SELECT` and the `COMMIT` of another. -/
def Raced (r : AttachmentRecord) (es : List Event) : Prop :=
  ∃ i j e₁ e₂ e₃, i ≠ j ∧ [e₁, e₂, e₃].Sublist es ∧ Selects r i e₁ ∧ Selects r j e₂ ∧ Commits r i e₃

def Reports (r : AttachmentRecord) (o : Except Failure Answer) : Prop :=
  o = .ok (.record r) ∨ ∃ records, o = .ok (.records records) ∧ r ∈ records

/-- The endpoint answers that there is no such attachment; a purge does not list it. -/
def Missing (r : AttachmentRecord) (call : Removal) (o : Except Failure Answer) : Prop :=
  match call with
  | .delete_attachment _ _ _ => o = .error (.attachmentNotFound "attachment was not found")
  | .purge_expired _ => ∃ records, o = .ok (.records records) ∧ r ∉ records

def isDeletion (r : AttachmentRecord) (event : AuditEvent) : Bool :=
  event.event_type = "attachment.deleted" && event.run_id = "attachment-" ++ r.id

/-- The endpoint audits a deletion that it reports, a purge leaves that to its caller. -/
def Removal.audits : Removal → Nat
  | .delete_attachment _ _ _ => 1
  | .purge_expired _ => 0

/-- Call `i` has ended with the outcome. -/
def Ended (es : List Event) (i : Nat) (call : Removal) (o : Except Failure Answer) : Prop :=
  ∃ c r, .did i call c r (some o) ∈ es

/-- One call reports the record, and the others do not find it. -/
structure OneWins (r : AttachmentRecord) (es : List Event) (events : List AuditEvent) : Prop where
  winner : ∃ i call o, Ended es i call o ∧ Reports r o ∧
    (∀ j call' o', Ended es j call' o' → Reports r o' → j = i) ∧
    events.countP (isDeletion r) = call.audits
  others : ∀ j call o, Ended es j call o → ¬ Reports r o → Missing r call o

/-- The records that have expired at the time. -/
def expiring {b : Backend} (S : AttachmentService) (W : World) (s : State b) (now : DateTime) : List AttachmentRecord :=
  match Steps.cutoff S now >>= s.store.list_before W.library with
  | .ok found => found
  | .error _ => []

/-- A deletion of the record by its owner, or a purge at a time when it has expired. -/
def Concerns {b : Backend} (S : AttachmentService) (W : World) (s : State b) (r : AttachmentRecord) : Removal → Prop
  | .delete_attachment identity attachment_id _ => attachment_id = r.id ∧ .of identity = r.scope
  | .purge_expired now => S.retention_days ≠ 0 ∧ r ∈ expiring S W s now

instance {b : Backend} (S : AttachmentService) (W : World) (s : State b) (r : AttachmentRecord) :
    DecidablePred (Concerns S W s r)
  | .delete_attachment identity attachment_id _ => inferInstanceAs (Decidable (attachment_id = r.id ∧ .of identity = r.scope))
  | .purge_expired now => inferInstanceAs (Decidable (S.retention_days ≠ 0 ∧ r ∈ expiring S W s now))

/-- Calls that concern the record, none of which is cut off. -/
def Concerned {b : Backend} (S : AttachmentService) (W : World) (s : State b) (r : AttachmentRecord) :
    Pool.State (Shared b) Statement Statement.Reply Removal Failure Answer → Pool.Action String Empty Removal → Prop
  | _, .start _ call => Concerns S W s r call
  | _, .crash _ => False
  | _, _ => True

instance {b : Backend} (S : AttachmentService) (W : World) (s : State b) (r : AttachmentRecord)
    (t : Pool.State (Shared b) Statement Statement.Reply Removal Failure Answer) :
    DecidablePred (Concerned S W s r t)
  | .start _ call => inferInstanceAs (Decidable (Concerns S W s r call))
  | .crash _ => .isFalse id
  | .step _ _ => .isTrue trivial
  | .env _ => .isTrue trivial

end Events

section Runs

variable {S : AttachmentService} {W : World} {lt : String → String → Bool} {s₀ : State (.postgres lt)}
  {r : AttachmentRecord} {es : List Event}
  {G : Pool.State (Shared (.postgres lt)) Statement Statement.Reply Removal Failure Answer →
    Pool.Action String Empty Removal → Prop}
  {s : Pool.State (Shared (.postgres lt)) Statement Statement.Reply Removal Failure Answer} {i : Nat} {call : Removal}

theorem traced (h : (removals (.postgres lt) S W).machine.Run G (.init ⟨s₀, []⟩) es s) {th} (hi : s.threads i = .live th) :
    Pool.Traced (Orderly S) (Settled S) es i th := Pool.traced_of_run program_sat h i th hi

theorem store_of_call {s : State (.postgres lt)} {log : Record} {c : Cmd} (h : Orderly S call log (.call c)) :
    (s.apply W c {}).2.store = s.store := by
  cases c with
  | blob_delete key =>
    change (s.filed (s.files.delete key)).2.store = s.store
    cases s.files.delete key <;> rfl
  | uuid4 => rfl
  | store_get id scope => rfl
  | store_list_before before => rfl
  | _ => exact h.elim

/-- A row is there until its `DELETE` is committed. -/
theorem rows_of_run (h : (removals (.postgres lt) S W).machine.Run G (.init ⟨s₀, []⟩) es s) (row : AttachmentRecord) :
    row ∈ s.shared.service.store.rows ↔ row ∈ s₀.store.rows ∧ ∀ i, ∀ e ∈ es, ¬ Commits row i e := by
  refine h.invariant (I := fun es s => row ∈ s.shared.service.store.rows ↔
    row ∈ s₀.store.rows ∧ ∀ i, ∀ e ∈ es, ¬ Commits row i e) (by simp [Pool.State.init]) ?_
  intro es s a t e hr _ hs ih
  have same : t.shared.service.store = s.shared.service.store → (∀ i, ¬ Commits row i e) →
      (row ∈ t.shared.service.store.rows ↔ row ∈ s₀.store.rows ∧ ∀ i, ∀ e' ∈ es ++ [e], ¬ Commits row i e') := by
    intro hstore hnot
    rw [hstore, ih]
    refine and_congr_right fun _ => forall_congr' fun i => ⟨fun hes e' he' => ?_, fun hes e' he' => ?_⟩
    · rcases List.mem_append.mp he' with he' | he'
      · exact hes e' he'
      · exact List.mem_singleton.mp he' ▸ hnot i
    · exact hes e' (List.mem_append_left _ he')
  cases Pool.step_cases hs with
  | start hi => exact same rfl fun i ⟨_, _, hd⟩ => (by cases hd)
  | crash hi => exact same rfl fun i ⟨_, _, hd⟩ => (by cases hd)
  | @env n => exact n.elim
  | @step j ch call log c k hj =>
    have horderly := (traced hr hj).sat.1
    cases c with
    | commit id scope =>
      change row ∈ s.shared.service.store.rows.filter (fun r => !(r.id = id && r.scope = scope)) ↔ _
      rw [List.mem_filter, ih]
      constructor
      · rintro ⟨⟨h₀, hes⟩, hkeep⟩
        refine ⟨h₀, fun i e he => ?_⟩
        rcases List.mem_append.mp he with he | he
        · exact hes i e he
        · rintro ⟨_, _, hd⟩
          rw [List.mem_singleton.mp he] at hd
          cases hd
          simp at hkeep
      · rintro ⟨h₀, hes⟩
        refine ⟨⟨h₀, fun i e he => hes i e (List.mem_append_left _ he)⟩, ?_⟩
        by_contra hgone
        simp only [Bool.not_eq_true', Bool.not_eq_false, Bool.and_eq_true, decide_eq_true_eq] at hgone
        obtain ⟨rfl, rfl⟩ := hgone
        exact hes j _ (List.mem_append_right _ (List.mem_singleton_self _)) ⟨call, _, rfl⟩
    | call c => exact same (store_of_call horderly) fun i ⟨_, _, hd⟩ => (by cases hd)
    | select id scope => exact same rfl fun i ⟨_, _, hd⟩ => (by cases hd)
    | delete id scope => exact same rfl fun i ⟨_, _, hd⟩ => (by cases hd)
    | utc_now => exact same rfl fun i ⟨_, _, hd⟩ => (by cases hd)
    | append event => exact same rfl fun i ⟨_, _, hd⟩ => (by cases hd)

theorem mem_list_before {store : Store (.postgres lt)} {L : Library} {before : DateTime} {found : List AttachmentRecord}
    (h : store.list_before L before = .ok found) : r ∈ found ↔ r ∈ store.rows ∧
      ∃ cutoff, before.astimezone .utc = .ok cutoff ∧ lt r.created_at cutoff.isoformat = true := by
  obtain ⟨cutoff, hcutoff, h⟩ := bind_ok h
  have hutc : before.astimezone .utc = .ok cutoff := by
    cases hu : before.astimezone .utc with
    | error e =>
      rw [hu] at hcutoff
      cases hcutoff
    | ok u =>
      rw [hu] at hcutoff
      cases hcutoff
      rfl
  cases h
  rw [List.mem_insertionSort, List.mem_filter]
  exact and_congr_right fun _ => ⟨fun h => ⟨cutoff, hutc, h⟩, fun ⟨c, hc, h⟩ => (by cases hutc.symm.trans hc; exact h)⟩

/-- The cutoff is a time in UTC. -/
theorem cutoff_utc {now before : DateTime} (h : Steps.cutoff S now = .ok before) :
    ∃ u, before.astimezone .utc = .ok u := by
  obtain ⟨current, hcurrent, h⟩ := bind_ok h
  split at h
  · cases h
  have hutc : current.tzinfo = .utc := by
    cases hu : now.astimezone .utc with
    | error e =>
      rw [hu] at hcurrent
      cases hcurrent
    | ok u =>
      rw [hu] at hcurrent
      cases hcurrent
      exact DateTime.tzinfo_of_astimezone hu
  have hbefore : before.tzinfo = .utc := by
    cases hadd : current.add (-(S.retention_days * dayMicros)) with
    | error e =>
      rw [hadd] at h
      cases h
    | ok u =>
      rw [hadd] at h
      cases h
      exact (DateTime.make_ok hadd).2.2.trans hutc
  rw [DateTime.exists_astimezone_utc, DateTime.instant_utc hbefore]
  exact ⟨Int.natCast_nonneg _, by exact_mod_cast before.inRange⟩

/-- What a deletion found was there from the start, and is what it asked for. -/
theorem selected_row (h : (removals (.postgres lt) S W).machine.Run G (.init ⟨s₀, []⟩) es s) {id scope record out}
    (hd : .did i call (.select id scope) (some record) out ∈ es) :
    record ∈ s₀.store.rows ∧ record.id = id ∧ record.scope = scope := by
  obtain ⟨pre, post, he⟩ := List.append_of_mem hd
  obtain ⟨u, ch, log, k, hu, _, _, _, hreply, _⟩ := Pool.did_of_run program_sat h he
  have hget : u.shared.service.store.get id scope = some record := hreply.symm
  obtain ⟨hmem, hid, hscope⟩ := Store.get_eq_some.mp hget
  exact ⟨((rows_of_run hu record).mp hmem).1, hid, hscope⟩

theorem listed_row (h : (removals (.postgres lt) S W).machine.Run G (.init ⟨s₀, []⟩) es s) {c rp out record}
    (hd : .did i call c rp out ∈ es) (hrecord : record ∈ listed ⟨c, rp⟩) : record ∈ s₀.store.rows := by
  obtain ⟨pre, post, he⟩ := List.append_of_mem hd
  obtain ⟨u, ch, log, k, hu, _, _, _, hreply, _⟩ := Pool.did_of_run program_sat h he
  suffices hmem : record ∈ u.shared.service.store.rows from ((rows_of_run hu record).mp hmem).1
  cases c with
  | call c =>
    cases c with
    | store_get id scope =>
      have hget : rp = .ok (u.shared.service.store.get id scope) := hreply
      subst hget
      cases hfound : u.shared.service.store.get id scope with
      | none =>
        rw [hfound] at hrecord
        cases hrecord
      | some found =>
        rw [hfound] at hrecord
        obtain rfl := List.mem_singleton.mp hrecord
        exact (Store.get_eq_some.mp hfound).1
    | store_list_before before =>
      have hlist : rp = u.shared.service.store.list_before W.library before := hreply
      cases hrp : rp with
      | error e =>
        rw [hrp] at hrecord
        cases hrecord
      | ok found =>
        rw [hrp] at hrecord hlist
        exact ((mem_list_before hlist.symm).mp hrecord).1
    | _ => cases hrecord
  | _ => cases hrecord

/-- No store raises: the keys are sound, and so are the cutoffs. -/
theorem not_raised (hplaced : ∀ row ∈ s₀.store.rows, Placed row)
    (h : (removals (.postgres lt) S W).machine.Run G (.init ⟨s₀, []⟩) es s) {c rp out} (hd : .did i call c rp out ∈ es) :
    raisedBy ⟨c, rp⟩ = none := by
  obtain ⟨pre, post, he⟩ := List.append_of_mem hd
  obtain ⟨u, ch, log, k, hu, _, _, htraced, hreply, _⟩ := Pool.did_of_run program_sat h he
  have horderly := htraced.sat.1
  cases c with
  | call c =>
    cases c with
    | store_get id scope =>
      have hget : rp = .ok (u.shared.service.store.get id scope) := hreply
      rw [hget]
      rfl
    | blob_delete key =>
      obtain ⟨_, record, hrecord, rfl⟩ := horderly
      obtain ⟨x, hx, hin⟩ := List.mem_flatMap.mp hrecord
      obtain ⟨out', hevent⟩ := htraced.log x hx
      obtain ⟨⟨path, hpath⟩, _⟩ := hplaced record (listed_row hu hevent hin)
      have hfiles : u.shared.service.files.delete record.storage_path =
          .ok (Function.update u.shared.service.files path none) := by
        rw [Files.delete, hpath]
        rfl
      have hok : rp = (u.shared.service.filed (u.shared.service.files.delete record.storage_path)).1 := hreply
      rw [hok, hfiles]
      rfl
    | store_list_before before =>
      obtain ⟨_, now, _, hcutoff⟩ := horderly
      obtain ⟨v, hv⟩ := cutoff_utc hcutoff
      have hlist : rp = u.shared.service.store.list_before W.library before := hreply
      rw [hlist, Store.list_before, hv]
      rfl
    | _ => rfl
  | _ => rfl

theorem due_delete {x : (c : Statement) × c.Reply} {id : String} {scope : Scope}
    (h : due x = some (.delete id scope)) : ∃ record, x = ⟨.select id scope, some record⟩ := by
  obtain ⟨c, rp⟩ := x
  cases c with
  | select id' scope' =>
    cases rp with
    | none => cases h
    | some record =>
      cases h
      exact ⟨record, rfl⟩
  | delete _ _ => cases h
  | _ => cases h

theorem due_commit {x : (c : Statement) × c.Reply} {id : String} {scope : Scope}
    (h : due x = some (.commit id scope)) : x = ⟨.delete id scope, ()⟩ := by
  obtain ⟨c, rp⟩ := x
  cases c with
  | select id' scope' => cases rp <;> cases h
  | delete id' scope' =>
    cases h
    rfl
  | _ => cases h

/-- Only the statement that is due can be next. -/
theorem eq_of_pending {log : Record} {c st : Statement} (h : Orderly S call log c) (hp : pending log = some st) :
    c = st := by
  cases c with
  | delete id scope =>
    cases hp.symm.trans h
    rfl
  | commit id scope =>
    cases hp.symm.trans h
    rfl
  | call c =>
    cases c with
    | store_get _ _ => cases hp.symm.trans h
    | uuid4 => cases hp.symm.trans h
    | store_list_before _ => cases hp.symm.trans h.1
    | blob_delete _ => cases hp.symm.trans h.1
    | _ => exact h.elim
  | utc_now => cases hp.symm.trans h
  | select _ _ => cases hp.symm.trans h.1
  | append _ => cases hp.symm.trans h.1

/-- The `DELETE` of a record that was found, or its `COMMIT`, is still to come. -/
def Deleting (log : Record) (id : String) (scope : Scope) : Prop :=
  pending log = some (.delete id scope) ∨ pending log = some (.commit id scope)

/-- What is still to be committed has not been committed before by this call. -/
theorem uncommitted_of_deleting (h : (removals (.postgres lt) S W).machine.Run G (.init ⟨s₀, []⟩) es s) :
    ∀ {i th id scope}, s.threads i = .live th → Deleting th.log id scope →
      ∀ {call out}, .did i call (.commit id scope) () out ∉ es := by
  refine h.invariant (I := fun es s => ∀ {i th id scope}, s.threads i = .live th →
    Deleting th.log id scope → ∀ {call out}, .did i call (.commit id scope) () out ∉ es) (by simp) ?_
  intro es s a t e hr _ hs ih i th id scope hi hp call out hd
  cases Pool.step_cases hs with
  | start hj =>
    rw [Pool.State.set_threads] at hi
    split at hi
    · obtain rfl := Pool.Thread.slot_eq_live hi
      cases hp with
      | inl h => cases h
      | inr h => cases h
    · exact ih hi hp (by simpa using hd)
  | crash hj =>
    rw [Pool.State.set_threads] at hi
    split at hi
    · cases hi
    · exact ih hi hp (by simpa using hd)
  | @env n => exact n.elim
  | @step j ch call₀ log c k hj =>
    have horderly := (traced hr hj).sat.1
    rw [Pool.State.set_threads] at hi
    split at hi
    · rename_i hij
      subst hij
      obtain rfl := Pool.Thread.slot_eq_live hi
      rcases hp with hp | hp <;> rw [pending_snoc] at hp
      · -- the record was just found
        obtain ⟨record, hx⟩ := due_delete hp
        obtain ⟨rfl, hreply⟩ := Sigma.mk.inj hx
        have hget : s.shared.service.store.get id scope = some record := eq_of_heq hreply
        obtain ⟨hmem, rfl, rfl⟩ := Store.get_eq_some.mp hget
        have hnone := ((rows_of_run hr record).mp hmem).2
        exact hnone _ _ (by simpa using hd) ⟨call, out, rfl⟩
      · -- its `DELETE` was just sent
        obtain ⟨rfl, _⟩ := Sigma.mk.inj (due_commit hp)
        exact ih hj (.inl horderly) (by simpa using hd)
    · rename_i hij
      rcases List.mem_append.mp hd with hd | hd
      · exact ih hi hp hd
      · cases List.mem_singleton.mp hd
        exact hij rfl

/-- A call that found a record commits its `DELETE`, if it has not ended in a crash. -/
theorem commit_follows (hG : ∀ s i, ¬ G s (.crash i))
    (h : (removals (.postgres lt) S W).machine.Run G (.init ⟨s₀, []⟩) es s) :
    ∀ {i call id scope record out}, .did i call (.select id scope) (some record) out ∈ es →
      (∃ call out, .did i call (.commit id scope) () out ∈ es) ∨
        ∃ th, s.threads i = .live th ∧ Deleting th.log id scope := by
  refine h.invariant (I := fun es s => ∀ {i call id scope record out},
    .did i call (.select id scope) (some record) out ∈ es →
      (∃ call out, .did i call (.commit id scope) () out ∈ es) ∨
        ∃ th, s.threads i = .live th ∧ Deleting th.log id scope) (by simp) ?_
  intro es s a t e hr hg hs ih i call id scope record out hd
  cases Pool.step_cases hs with
  | @start j call₀ hj =>
    have hold : .did i call (.select id scope) (some record) out ∈ es := by simpa using hd
    rw [Pool.State.set_threads]
    split
    · rename_i hij
      subst hij
      exact absurd hj ((Pool.owned_of_run hr).used hold).1
    · exact (ih hold).imp_left fun ⟨c, o, hm⟩ => ⟨c, o, List.mem_append_left _ hm⟩
  | crash hj => exact absurd hg (hG _ _)
  | @env n => exact n.elim
  | @step j ch call₀ log c k hj =>
    have htraced := traced hr hj
    -- a call with a statement due goes on
    have live : ∀ reply {st}, due ⟨c, reply⟩ = some st →
        Pool.Thread.slot ⟨call₀, log ++ [⟨c, reply⟩], k reply⟩ = .live ⟨call₀, log ++ [⟨c, reply⟩], k reply⟩ := by
      intro reply st hdue
      rw [Pool.Thread.slot]
      cases ho : (k reply).outcome? with
      | none => rfl
      | some o =>
        have hnone := ((htraced.sat.2 reply).outcome ho).1
        rw [pending_snoc, hdue] at hnone
        cases hnone
    rcases List.mem_append.mp hd with hd | hd
    · obtain ⟨c', o', hm⟩ | ⟨th, hth, hp⟩ := ih hd
      · exact .inl ⟨c', o', List.mem_append_left _ hm⟩
      · rw [Pool.State.set_threads]
        split
        · rename_i hij
          subst hij
          cases hj.symm.trans hth
          rcases hp with hp | hp
          · obtain rfl := eq_of_pending htraced.sat.1 hp
            exact .inr ⟨_, live _ rfl, .inr pending_snoc⟩
          · obtain rfl := eq_of_pending htraced.sat.1 hp
            exact .inl ⟨call₀, _, List.mem_append_right _ (List.mem_singleton_self _)⟩
        · exact .inr ⟨th, hth, hp⟩
    · -- the record has just been found
      have heq := List.mem_singleton.mp hd
      simp only [Pool.Event.did.injEq] at heq
      obtain ⟨rfl, rfl, rfl, hreply, _⟩ := heq
      rw [Pool.State.set_threads, if_pos rfl, ← eq_of_heq hreply]
      exact .inr ⟨_, live _ rfl, .inl pending_snoc⟩

theorem Finds.selects {e : Event} (h : Finds r i e) : Selects r i e := by
  obtain ⟨call, out, rfl⟩ := h
  exact ⟨call, some r, out, rfl⟩

theorem eq_of_same {a b : AttachmentRecord} (ha : a ∈ s₀.store.rows) (hb : b ∈ s₀.store.rows) (h : a.id = b.id) :
    a = b := Store.eq_of_id ha hb h

/-- Every `COMMIT` comes after a `SELECT` of the same call that found the record. -/
theorem finds_of_commits (h : (removals (.postgres lt) S W).machine.Run G (.init ⟨s₀, []⟩) es s) (hr : r ∈ s₀.store.rows)
    {pre post e} (he : es = pre ++ e :: post) (hd : Commits r i e) : ∃ e' ∈ pre, Finds r i e' := by
  obtain ⟨call, out, rfl⟩ := hd
  obtain ⟨u, ch, log, k, hu, _, _, htraced, _, _⟩ := Pool.did_of_run program_sat h he
  obtain ⟨x, hx, hdue⟩ := Option.bind_eq_some_iff.mp htraced.sat.1
  obtain rfl := due_commit hdue
  obtain ⟨_, hdelete⟩ := htraced.log _ (List.mem_of_getLast? hx)
  obtain ⟨before, after, hsplit⟩ := List.append_of_mem hdelete
  obtain ⟨v, _, _, _, hv, _, _, htraced', _, _⟩ := Pool.did_of_run program_sat hu hsplit
  obtain ⟨y, hy, hdue'⟩ := Option.bind_eq_some_iff.mp htraced'.sat.1
  obtain ⟨record, rfl⟩ := due_delete hdue'
  obtain ⟨out', hevent⟩ := htraced'.log _ (List.mem_of_getLast? hy)
  obtain ⟨hmem, hid, _⟩ := selected_row hv hevent
  obtain rfl := eq_of_same hmem hr hid
  exact ⟨_, hsplit ▸ List.mem_append_left _ hevent, call, out', rfl⟩

/-- The record was there when it was found. -/
theorem uncommitted_of_finds (h : (removals (.postgres lt) S W).machine.Run G (.init ⟨s₀, []⟩) es s)
    {pre post e} (he : es = pre ++ e :: post) (hf : Finds r i e) : ∀ j, ∀ e' ∈ pre, ¬ Commits r j e' := by
  obtain ⟨call, out, rfl⟩ := hf
  obtain ⟨u, ch, log, k, hu, _, _, _, hreply, _⟩ := Pool.did_of_run program_sat h he
  have hget : u.shared.service.store.get r.id r.scope = some r := hreply.symm
  exact ((rows_of_run hu r).mp (Store.get_eq_some.mp hget).1).2

/-- Two calls that find the record have raced. -/
theorem raced_of_finds (hG : ∀ s i, ¬ G s (.crash i))
    (h : (removals (.postgres lt) S W).machine.Run G (.init ⟨s₀, []⟩) es s) (hended : ∀ i th, s.threads i ≠ .live th)
    {j : Nat} {e e' : Event} (hij : i ≠ j) (he : e ∈ es) (hi : Finds r i e) (he' : e' ∈ es) (hj : Finds r j e') :
    Raced r es := by
  -- the first of the two has not committed when the second finds the record
  have ordered : ∀ {i j e e' pre post}, i ≠ j → es = pre ++ e' :: post → e ∈ pre → Finds r i e → Finds r j e' →
      Raced r es := by
    intro i j e e' pre post hij heq hpre hi hj
    have hnot := uncommitted_of_finds h heq hj
    have hsel := hi.selects
    have hsel' := hj.selects
    obtain ⟨call, out, rfl⟩ := hi
    obtain ⟨call', out', rfl⟩ := hj
    obtain ⟨c, o, hdelete⟩ | ⟨th, hth, _⟩ := commit_follows hG h (heq ▸ List.mem_append_left _ hpre)
    · rw [heq] at hdelete
      rcases List.mem_append.mp hdelete with hin | hin
      · exact absurd ⟨c, o, rfl⟩ (hnot i _ hin)
      rcases List.mem_cons.mp hin with hin | hin
      · cases hin
      refine ⟨i, j, _, _, _, hij, ?_, hsel, hsel', ⟨c, o, rfl⟩⟩
      rw [heq]
      exact (List.singleton_sublist.mpr hpre).append ((List.singleton_sublist.mpr hin).cons_cons _)
    · exact absurd hth (hended i th)
  obtain ⟨pre, post, heq⟩ := List.append_of_mem he'
  rw [heq] at he
  rcases List.mem_append.mp he with hin | hin
  · exact ordered hij heq hin hi hj
  rcases List.mem_cons.mp hin with rfl | hin
  · obtain ⟨_, _, rfl⟩ := hi
    obtain ⟨_, _, hsame⟩ := hj
    cases hsame
    exact absurd rfl hij
  · obtain ⟨mid, rest, rfl⟩ := List.append_of_mem hin
    have hlater : es = (pre ++ e' :: mid) ++ e :: rest := by
      rw [heq]
      simp
    exact ordered (Ne.symm hij) hlater (by simp) hj hi

theorem split_of_sublist {e₁ e₂ e₃ : Event} (h : [e₁, e₂, e₃].Sublist es) :
    ∃ pre mid post, es = pre ++ e₂ :: (mid ++ e₃ :: post) := by
  obtain ⟨l₁, l₂, rfl, _, h⟩ := List.cons_sublist_iff.mp h
  obtain ⟨l₃, l₄, rfl, h₂, h⟩ := List.cons_sublist_iff.mp h
  obtain ⟨p, q, rfl⟩ := List.append_of_mem (List.singleton_sublist.mp h)
  obtain ⟨a, b, rfl⟩ := List.append_of_mem h₂
  exact ⟨l₁ ++ a, b ++ p, q, by simp⟩

/-- Where calls have raced, two of them find the record. -/
theorem finds_of_raced (h : (removals (.postgres lt) S W).machine.Run G (.init ⟨s₀, []⟩) es s) (hr : r ∈ s₀.store.rows)
    (hraced : Raced r es) : ∃ i j, i ≠ j ∧ (∃ e ∈ es, Finds r i e) ∧ ∃ e ∈ es, Finds r j e := by
  obtain ⟨i, j, e₁, e₂, e₃, hij, hsub, _, ⟨call, found, out, rfl⟩, hdel⟩ := hraced
  obtain ⟨pre, mid, post, heq⟩ := split_of_sublist hsub
  have heq' : es = (pre ++ .did j call (.select r.id r.scope) found out :: mid) ++ e₃ :: post := by
    rw [heq, List.append_assoc, List.cons_append]
  obtain ⟨e, he, hfinds⟩ := finds_of_commits h hr heq' hdel
  have hfirst : ∃ e ∈ es, Finds r i e := ⟨e, heq' ▸ List.mem_append_left _ he, hfinds⟩
  have hmid : .did j call (.select r.id r.scope) found out ∈ es := heq ▸ List.mem_append_right _ (by simp)
  cases found with
  | some record =>
    obtain ⟨hmem, hid, _⟩ := selected_row h hmid
    obtain rfl := eq_of_same hmem hr hid
    exact ⟨i, j, hij, hfirst, _, hmid, call, out, rfl⟩
  | none =>
    -- another call was faster than both
    obtain ⟨u, ch, log, k, hu, _, _, _, hreply, _⟩ := Pool.did_of_run program_sat h heq
    have hget : u.shared.service.store.get r.id r.scope = none := hreply.symm
    have hgone : r ∉ u.shared.service.store.rows := fun hin => Store.get_eq_none.mp hget r hin rfl rfl
    rw [rows_of_run hu] at hgone
    push Not at hgone
    obtain ⟨k', e', he', hdel'⟩ := hgone hr
    obtain ⟨l, l', hl⟩ := List.append_of_mem he'
    obtain ⟨e'', he'', hfinds'⟩ := finds_of_commits hu hr hl hdel'
    have hin : e'' ∈ pre := hl ▸ List.mem_append_left _ he''
    refine ⟨i, k', ?_, hfirst, e'', heq ▸ List.mem_append_left _ hin, hfinds'⟩
    rintro rfl
    obtain ⟨call₃, out₃, rfl⟩ := hdel
    obtain ⟨v, ch', log', k'', hv, _, hlive, htraced, _, _⟩ := Pool.did_of_run program_sat h heq'
    obtain ⟨call₄, out₄, rfl⟩ := hdel'
    exact uncommitted_of_deleting hv hlive (.inr htraced.sat.1) (List.mem_append_left _ he')

/-- A command of the deletion names the record that the call is for. -/
theorem target_of_select (h : (removals (.postgres lt) S W).machine.Run G (.init ⟨s₀, []⟩) es s) {id scope found out}
    (hd : .did i call (.select id scope) found out ∈ es) : Target call id scope := by
  obtain ⟨pre, post, he⟩ := List.append_of_mem hd
  obtain ⟨_, _, _, _, _, _, _, htraced, _, _⟩ := Pool.did_of_run program_sat h he
  exact htraced.sat.1.2

/-- Everything that is known of a call that has ended. -/
structure Known (S : AttachmentService) (es : List Event) (i : Nat) (call : Removal) (log : Record)
    (o : Except Failure Answer) : Prop where
  ends : Ends S call log o
  log : ∀ x, x ∈ log ↔ ∃ out, .did i call x.1 x.2 out ∈ es

theorem known_of_ended (hplaced : ∀ row ∈ s₀.store.rows, Placed row)
    (h : (removals (.postgres lt) S W).machine.Run G (.init ⟨s₀, []⟩) es s) {o : Except Failure Answer}
    (hend : Ended es i call o) : ∃ log, Known S es i call log o := by
  obtain ⟨c, rp, hd⟩ := hend
  obtain ⟨log, hsettled, hlog⟩ := Pool.returned_of_run program_sat h hd
  refine ⟨_, hsettled.2 fun x hx => ?_, hlog⟩
  obtain ⟨out, hevent⟩ := (hlog x).mp hx
  exact not_raised hplaced h hevent

theorem selected_iff (h : (removals (.postgres lt) S W).machine.Run G (.init ⟨s₀, []⟩) es s) {log : Record}
    {o : Except Failure Answer} (hend : Ended es i call o) (hk : Known S es i call log o) :
    r ∈ log.filterMap selected ↔ ∃ e ∈ es, Finds r i e := by
  constructor
  · intro hr
    obtain ⟨⟨c, rp⟩, hx, hsel⟩ := List.mem_filterMap.mp hr
    cases c with
    | select id scope =>
      obtain rfl : rp = some r := hsel
      obtain ⟨out, hevent⟩ := (hk.log _).mp hx
      obtain ⟨_, rfl, rfl⟩ := selected_row h hevent
      exact ⟨_, hevent, call, out, rfl⟩
    | _ => cases hsel
  · rintro ⟨e, he, call', out, rfl⟩
    obtain ⟨c, rp, hd⟩ := hend
    obtain rfl := (Pool.owned_of_run h).unique he hd
    exact List.mem_filterMap.mpr ⟨_, (hk.log ⟨.select r.id r.scope, some r⟩).mpr ⟨out, he⟩, rfl⟩

theorem valid_owner {identity : IdentityContext} (hr : Placed r) (hscope : .of identity = r.scope) :
    _validate_identity identity = .ok () := by
  obtain ⟨_, j, hj, howner⟩ := hr
  rw [validate_of_scope (hscope.trans howner), hj]

/-- What the endpoint found is the record that it was called for. -/
theorem eq_of_selected (hr : r ∈ s₀.store.rows) (h : (removals (.postgres lt) S W).machine.Run G (.init ⟨s₀, []⟩) es s)
    {identity : IdentityContext} {request_id : Option String} {log : Record} {o : Except Failure Answer}
    (hk : Known S es i (.delete_attachment identity r.id request_id) log o) {record : AttachmentRecord}
    (hrecord : record ∈ log.filterMap selected) : record = r := by
  obtain ⟨⟨c, rp⟩, hx, hfound⟩ := List.mem_filterMap.mp hrecord
  cases c with
  | select id scope =>
    obtain rfl : rp = some record := hfound
    obtain ⟨out, hevent⟩ := (hk.log _).mp hx
    obtain ⟨hmem, hid, _⟩ := selected_row h hevent
    obtain ⟨hid', _⟩ := target_of_select h hevent
    exact eq_of_same hmem hr (hid.trans hid')
  | _ => cases hfound

theorem listed_of_expiring {now : DateTime} (h : r ∈ expiring S W s₀ now) : ∃ cutoff found,
    Steps.cutoff S now = .ok cutoff ∧ s₀.store.list_before W.library cutoff = .ok found ∧ r ∈ found := by
  unfold expiring at h
  split at h
  · rename_i found hfound
    obtain ⟨cutoff, hcutoff, hlist⟩ := bind_ok hfound
    exact ⟨cutoff, found, hcutoff, hlist, h⟩
  · cases h

/-- A call reports the record if it found it, and misses it otherwise. -/
theorem reports_iff (hplaced : ∀ row ∈ s₀.store.rows, Placed row) (hr : r ∈ s₀.store.rows)
    (h : (removals (.postgres lt) S W).machine.Run G (.init ⟨s₀, []⟩) es s) (hcall : Concerns S W s₀ r call)
    {o : Except Failure Answer} (hend : Ended es i call o) :
    (Reports r o ↔ ∃ e ∈ es, Finds r i e) ∧ (¬ Reports r o → Missing r call o) := by
  obtain ⟨log, hk⟩ := known_of_ended hplaced h hend
  rw [← selected_iff h hend hk]
  cases call with
  | delete_attachment identity id request_id =>
    obtain ⟨rfl, hscope⟩ := hcall
    obtain ⟨record, event, hsel, _, _, rfl⟩ | ⟨hsel, rfl, _⟩ | hinvalid := hk.ends
    · obtain rfl := eq_of_selected hr h hk (hsel ▸ List.mem_singleton_self record)
      rw [hsel]
      exact ⟨⟨fun _ => List.mem_singleton_self _, fun _ => .inl rfl⟩, fun hnot => absurd (.inl rfl) hnot⟩
    · rw [hsel]
      refine ⟨⟨?_, fun hin => absurd hin List.not_mem_nil⟩, fun _ => rfl⟩
      rintro (hrep | ⟨_, hrep, _⟩) <;> cases hrep
    · exact absurd (valid_owner (hplaced r hr) hscope) hinvalid
  | purge_expired now =>
    obtain ⟨hretention, hexpiring⟩ := hcall
    obtain ⟨cutoff, _, hcutoff, _⟩ := listed_of_expiring hexpiring
    obtain ⟨_, _, _, _, _, rfl⟩ | hzero | hnone := hk.ends
    · have hreports : Reports r (.ok (.records (log.filterMap selected))) ↔ r ∈ log.filterMap selected := by
        constructor
        · rintro (hrep | ⟨records, hrep, hin⟩)
          · cases hrep
          · cases hrep
            exact hin
        · exact fun hin => .inr ⟨_, rfl, hin⟩
      exact ⟨hreports, fun hnot => ⟨_, rfl, fun hin => hnot (hreports.mpr hin)⟩⟩
    · exact absurd hzero hretention
    · exact absurd hcutoff (hnone cutoff)

/-- Without a `SELECT` that finds it the record stays. -/
theorem present_of_unfound (hr : r ∈ s₀.store.rows) (h : (removals (.postgres lt) S W).machine.Run G (.init ⟨s₀, []⟩) es s)
    (hno : ∀ j, ∀ e ∈ es, ¬ Finds r j e) {pre post : List Event} {c : Statement} {rp : Statement.Reply c} {out}
    (heq : es = pre ++ .did i call c rp out :: post) :
    ∃ u : Shared (.postgres lt), r ∈ u.service.store.rows ∧ u.service.store.get r.id r.scope = some r ∧
      ∃ text, rp = (u.apply W c text).1 := by
  obtain ⟨u, ch, _, _, hu, _, _, _, hreply, _⟩ := Pool.did_of_run program_sat h heq
  have hin : r ∈ u.shared.service.store.rows := by
    refine (rows_of_run hu r).mpr ⟨hr, fun j e he hdel => ?_⟩
    obtain ⟨l, l', hl⟩ := List.append_of_mem he
    obtain ⟨e', he', hfinds⟩ := finds_of_commits hu hr hl hdel
    exact hno j e' (heq ▸ List.mem_append_left _ (hl ▸ List.mem_append_left _ he')) hfinds
  exact ⟨u.shared, hin, Store.get_eq_some.mpr ⟨hin, rfl, rfl⟩, ch, hreply⟩

/-- If a call has ended, one has found the record. -/
theorem exists_finds (hplaced : ∀ row ∈ s₀.store.rows, Placed row) (hr : r ∈ s₀.store.rows)
    (h : (removals (.postgres lt) S W).machine.Run G (.init ⟨s₀, []⟩) es s) (hcall : Concerns S W s₀ r call)
    {o : Except Failure Answer} (hend : Ended es i call o) : ∃ j, ∃ e ∈ es, Finds r j e := by
  by_contra hnone
  have hno : ∀ j, ∀ e ∈ es, ¬ Finds r j e := fun j e he hfinds => hnone ⟨j, e, he, hfinds⟩
  have hselect : ∀ {i' call' found out}, .did i' call' (.select r.id r.scope) found out ∈ es → found = some r := by
    intro i' call' found out hd
    obtain ⟨pre, post, heq⟩ := List.append_of_mem hd
    obtain ⟨u, _, hget, _, hreply⟩ := present_of_unfound hr h hno heq
    exact hreply.trans hget
  obtain ⟨log, hk⟩ := known_of_ended hplaced h hend
  have hreports := (reports_iff hplaced hr h hcall hend).1
  cases call with
  | delete_attachment identity id request_id =>
    obtain ⟨rfl, hscope⟩ := hcall
    obtain ⟨record, event, hsel, _, _, rfl⟩ | ⟨_, _, hlookup | hlookup⟩ | hinvalid := hk.ends
    · obtain rfl := eq_of_selected hr h hk (hsel ▸ List.mem_singleton_self record)
      exact hnone ⟨i, hreports.mp (.inl rfl)⟩
    · obtain ⟨out, hevent⟩ := (hk.log _).mp hlookup
      obtain ⟨pre, post, heq⟩ := List.append_of_mem hevent
      obtain ⟨u, _, hget, _, hreply⟩ := present_of_unfound hr h hno heq
      have hfound : Except.ok none = (Except.ok (u.service.store.get r.id (.of identity)) : Except Failure _) := hreply
      rw [hscope, hget] at hfound
      cases hfound
    · obtain ⟨out, hevent⟩ := (hk.log _).mp hlookup
      rw [hscope] at hevent
      cases hselect hevent
    · exact absurd (valid_owner (hplaced r hr) hscope) hinvalid
  | purge_expired now =>
    obtain ⟨hretention, hexpiring⟩ := hcall
    obtain ⟨cutoff, found₀, hcutoff, hlist₀, hin₀⟩ := listed_of_expiring hexpiring
    obtain ⟨cutoff', found, hcutoff', hlisted, hasked, _⟩ | hzero | hcutoffs := hk.ends
    · obtain rfl := Except.ok.inj (hcutoff.symm.trans hcutoff')
      obtain ⟨out, hevent⟩ := (hk.log _).mp hlisted
      obtain ⟨pre, post, heq⟩ := List.append_of_mem hevent
      obtain ⟨u, hin, _, _, hreply⟩ := present_of_unfound hr h hno heq
      have hlist : u.service.store.list_before W.library cutoff = .ok found := hreply.symm
      have hfound : r ∈ found := (mem_list_before hlist).mpr ⟨hin, ((mem_list_before hlist₀).mp hin₀).2⟩
      obtain ⟨⟨c, rp⟩, hx, hask⟩ := List.mem_filterMap.mp (hasked r hfound)
      cases c with
      | select id scope =>
        cases hask
        obtain ⟨out', hevent'⟩ := (hk.log _).mp hx
        have hsel : .did i (.purge_expired now) (.select r.id r.scope) (some r) out' ∈ es := hselect hevent' ▸ hevent'
        exact hno i _ hsel ⟨_, _, rfl⟩
      | _ => cases hask
    · exact absurd hzero hretention
    · exact absurd hcutoff (hcutoffs cutoff)

def appended : Event → Option AuditEvent
  | .did _ _ (.append event) _ _ => some event
  | _ => none

theorem events_of_run (h : (removals (.postgres lt) S W).machine.Run G (.init ⟨s₀, []⟩) es s) :
    s.shared.events = es.filterMap appended := by
  refine h.invariant (I := fun es s => s.shared.events = es.filterMap appended) rfl ?_
  intro es s a t e _ _ hs ih
  rw [List.filterMap_append, ← ih]
  cases Pool.step_cases hs with
  | start hj => simp [appended]
  | crash hj => simp [appended]
  | @env n => exact n.elim
  | @step j ch call log c k hj =>
    cases c with
    | append event => rfl
    | _ => exact (List.append_nil _).symm

theorem appended_eq_some {e : Event} {event : AuditEvent} (h : appended e = some event) :
    ∃ i call out, e = .did i call (.append event) () out := by
  unfold appended at h
  split at h
  · cases h
    exact ⟨_, _, _, rfl⟩
  · cases h

/-- A deletion is audited by a call of the endpoint that found the record, once. -/
theorem audit_of_run (hr : r ∈ s₀.store.rows) (h : (removals (.postgres lt) S W).machine.Run G (.init ⟨s₀, []⟩) es s)
    {pre post : List Event} {event : AuditEvent} {out} (heq : es = pre ++ .did i call (.append event) () out :: post)
    (hevent : isDeletion r event = true) :
    (∃ identity id request_id, call = .delete_attachment identity id request_id) ∧ (∃ e ∈ es, Finds r i e) ∧
      ∀ {call' event' out'}, .did i call' (.append event') () out' ∉ pre := by
  obtain ⟨u, ch, log, k, hu, _, hlive, htraced, _, _⟩ := Pool.did_of_run program_sat h heq
  obtain ⟨_, hsilent, identity, id, request_id, record, rfl, hsel, _, hrun⟩ := htraced.sat.1
  refine ⟨⟨identity, id, request_id, rfl⟩, ?_, fun hin => ?_⟩
  · obtain ⟨⟨c, rp⟩, hx, hfound⟩ := List.mem_filterMap.mp (hsel ▸ List.mem_singleton_self record)
    cases c with
    | select id' scope =>
      obtain rfl : rp = some record := hfound
      obtain ⟨out', hd⟩ := htraced.log _ hx
      obtain ⟨hmem, rfl, rfl⟩ := selected_row hu hd
      simp only [isDeletion, Bool.and_eq_true, decide_eq_true_eq] at hevent
      have hid : record.id = r.id := by
        have htext := congrArg String.toList (hrun.symm.trans hevent.2)
        simp only [String.toList_append, List.append_cancel_left_eq] at htext
        exact String.toList_injective htext
      obtain rfl := eq_of_same hmem hr hid
      exact ⟨_, heq ▸ List.mem_append_left _ hd, _, _, rfl⟩
    | _ => cases hfound
  · have hlog := hsilent _ (Pool.log_complete hu hlive hin)
    cases hlog

/-- One winner has one audit event if it is the endpoint, and none if it is a purge. -/
theorem countP_audited (hplaced : ∀ row ∈ s₀.store.rows, Placed row) (hr : r ∈ s₀.store.rows)
    (h : (removals (.postgres lt) S W).machine.Run G (.init ⟨s₀, []⟩) es s) (hcall : Concerns S W s₀ r call)
    {o : Except Failure Answer} (hend : Ended es i call o) (hrep : Reports r o)
    (hone : ∀ j, (∃ e ∈ es, Finds r j e) → j = i) :
    s.shared.events.countP (isDeletion r) = call.audits := by
  rw [events_of_run h]
  cases call with
  | delete_attachment identity id request_id =>
    obtain ⟨log, hk⟩ := known_of_ended hplaced h hend
    obtain ⟨rfl, hscope⟩ := hcall
    obtain ⟨record, event, hsel, happend, ⟨htype, hrun⟩, rfl⟩ | ⟨_, rfl, _⟩ | hinvalid := hk.ends
    · obtain rfl := eq_of_selected hr h hk (hsel ▸ List.mem_singleton_self record)
      obtain ⟨out, hd⟩ := (hk.log _).mp happend
      obtain ⟨pre, post, heq⟩ := List.append_of_mem hd
      have hdel : isDeletion record event = true := by simp [isDeletion, htype, hrun]
      have hpre : (pre.filterMap appended).countP (isDeletion record) = 0 := by
        refine List.countP_eq_zero.mpr fun event' hin hdel' => ?_
        obtain ⟨e', he', happ⟩ := List.mem_filterMap.mp hin
        obtain ⟨j, call', out', rfl⟩ := appended_eq_some happ
        obtain ⟨l, l', hl⟩ := List.append_of_mem he'
        obtain ⟨_, hfinds, _⟩ := audit_of_run hr h (by rw [heq, hl, List.append_assoc]; rfl) hdel'
        obtain rfl := hone j hfinds
        exact (audit_of_run hr h heq hdel).2.2 he'
      have hpost : (post.filterMap appended).countP (isDeletion record) = 0 := by
        refine List.countP_eq_zero.mpr fun event' hin hdel' => ?_
        obtain ⟨e', he', happ⟩ := List.mem_filterMap.mp hin
        obtain ⟨j, call', out', rfl⟩ := appended_eq_some happ
        obtain ⟨l, l', hl⟩ := List.append_of_mem he'
        have heq' : es = (pre ++ .did i (.delete_attachment identity record.id request_id) (.append event) () out :: l) ++
            .did j call' (.append event') () out' :: l' := by
          rw [heq, hl, List.append_assoc]
          rfl
        obtain ⟨_, hfinds, hnot⟩ := audit_of_run hr h heq' hdel'
        obtain rfl := hone j hfinds
        exact hnot (List.mem_append_right _ (List.mem_cons_self))
      have hhere : appended (.did i (.delete_attachment identity record.id request_id) (.append event) () out) =
          some event := rfl
      rw [heq, List.filterMap_append, List.countP_append, hpre, List.filterMap_cons_some hhere,
        List.countP_cons_of_pos hdel, hpost]
      rfl
    · obtain hrep | ⟨_, hrep, _⟩ := hrep <;> cases hrep
    · exact absurd (valid_owner (hplaced r hr) hscope) hinvalid
  | purge_expired now =>
    refine List.countP_eq_zero.mpr fun event hin hdel => ?_
    obtain ⟨e, he, happ⟩ := List.mem_filterMap.mp hin
    obtain ⟨j, call', out', rfl⟩ := appended_eq_some happ
    obtain ⟨l, l', hl⟩ := List.append_of_mem he
    obtain ⟨⟨_, _, _, rfl⟩, hfinds, _⟩ := audit_of_run hr h hl hdel
    obtain rfl := hone j hfinds
    obtain ⟨c, rp, hd⟩ := hend
    cases (Pool.owned_of_run h).unique he hd

/-- Every call that concerns the record starts with a statement. -/
theorem starts (hplaced : ∀ row ∈ s₀.store.rows, Placed row) (hr : r ∈ s₀.store.rows) (hcall : Concerns S W s₀ r call) :
    (call.program S).outcome? = none := by
  cases call with
  | delete_attachment identity id request_id =>
    have hvalid := valid_owner (hplaced r hr) hcall.2
    simp only [Removal.program, Steps.delete, Steps._scoped_record, hvalid, Program.bind_eq, Program.ofExcept_ok,
      Program.pure_bind]
    rfl
  | purge_expired now =>
    obtain ⟨hretention, hexpiring⟩ := hcall
    obtain ⟨cutoff, _, hcutoff, _⟩ := listed_of_expiring hexpiring
    simp only [Removal.program, Steps.purge_expired, hretention, hcutoff, if_false, Program.bind_eq, Program.ofExcept_ok,
      Program.pure_bind]
    rfl

/-- In a run whose calls have all returned, a call that was started has returned. -/
theorem ended_of_started (hplaced : ∀ row ∈ s₀.store.rows, Placed row) (hr : r ∈ s₀.store.rows)
    (h : (removals (.postgres lt) S W).machine.Run (Concerned S W s₀ r) (.init ⟨s₀, []⟩) es s)
    (hended : ∀ i th, s.threads i ≠ .live th) {out} (hd : .started i call out ∈ es) :
    Concerns S W s₀ r call ∧ ∃ o, Ended es i call o := by
  have hcall := (Pool.calls_of_run (A := Concerns S W s₀ r) (fun _ _ _ hg => hg) h).2.1 hd
  refine ⟨hcall, ?_⟩
  obtain ⟨th, hth, _⟩ | ⟨o, rfl⟩ | ⟨c, rp, o, hret⟩ | hcrash := Pool.started_of_run h hd
  · exact absurd hth (hended i th)
  · obtain ⟨pre, post, heq⟩ := List.append_of_mem hd
    obtain ⟨u, a, v, _, _, hs, _⟩ := h.at_event heq
    generalize he : Pool.Event.started i call (some o) = e at hs
    cases Pool.step_cases hs with
    | start hi =>
      simp only [Pool.Event.started.injEq] at he
      obtain ⟨rfl, rfl, ho⟩ := he
      have hnone : none = some o := (starts hplaced hr hcall).symm.trans ho.symm
      cases hnone
    | step hi => cases he
    | crash hi => cases he
    | env => cases he
  · exact ⟨o, c, rp, hret⟩
  · obtain ⟨pre, post, heq⟩ := List.append_of_mem hcrash
    obtain ⟨u, a, v, _, hg, hs, _⟩ := h.at_event heq
    generalize he : Pool.Event.crashed i call = e at hs
    cases Pool.step_cases hs with
    | start hi => cases he
    | step hi => cases he
    | crash hi => exact hg.elim
    | env => cases he

end Runs

section Sample

def plainWorld : World where
  sha256 _ := ⟨List.replicate 64 '0', List.length_replicate, fun c hc => by rw [List.eq_of_mem_replicate hc]; decide⟩
  uuid4 _ := ⟨List.replicate 32 'a', List.length_replicate, fun c hc => by rw [List.eq_of_mem_replicate hc]; decide⟩
  library := ⟨fun _ => .error .notFound, fun text => .error ("Invalid isoformat string: " ++ text)⟩

def bytewise (a b : String) : Bool := a < b

theorem plain_positive : 1 ≤ 1024 ∧ 1 ≤ 25000000 := by
  decide

def plainService : AttachmentService := ⟨.postgres bytewise, 1024, 25000000, 1, plain_positive⟩

def owner : IdentityContext := ⟨"u1", "w1", "t1", "customer"⟩

theorem plain_inRange : 0 < wallEnd := by
  decide

def plainOracle : Oracle := ⟨fun _ => .ok (some "GIF", 1, 1), fun _ _ => .ok (), ⟨0, false, .utc, plain_inRange⟩⟩

def plainUpload : Call := .upload owner "dot.gif" "image/gif" [71] plainOracle

def plainRecord : AttachmentRecord where
  id := String.ofList (List.replicate 32 'a')
  workspace_id := "w1"
  tenant_id := "t1"
  user_id := "u1"
  filename := "dot.gif"
  content_type := "image/gif"
  image_format := "GIF"
  size_bytes := 1
  sha256 := String.ofList (List.replicate 64 '0')
  width := 1
  height := 1
  storage_path := String.ofList (List.replicate 64 '0' ++ '/' :: (List.replicate 32 'a' ++ ".gif".toList))
  created_at := "0001-01-01T00:00:00+00:00"

/-- The record is stored. -/
def storedState : State (.postgres bytewise) where
  store := ⟨[plainRecord], List.pairwise_singleton _ _⟩
  files := Function.update (fun _ => none) [List.replicate 64 '0', List.replicate 32 'a' ++ ".gif".toList] (some [71])
  drawn := 1

set_option maxRecDepth 8000 in
theorem stored_after : after (plainService.over bytewise) plainWorld [plainUpload]
    (.init (plainService.over bytewise).backend) = storedState := rfl

def ownDelete : Removal := .delete_attachment owner plainRecord.id (some "req-1")

abbrev RemovalAction := Pool.Action String Empty Removal

def stepsFor (i n : Nat) : List RemovalAction := List.replicate n (.step i "0001-01-01T00:00:00+00:00")

def deletesInTurn : List RemovalAction :=
  .start 0 ownDelete :: stepsFor 0 8 ++ .start 1 ownDelete :: stepsFor 1 1

/-- The second call looks for the record when the first has deleted it and not committed yet. -/
def deletesRacing : List RemovalAction :=
  .start 0 ownDelete :: .start 1 ownDelete :: stepsFor 0 4 ++ stepsFor 1 3 ++ stepsFor 0 4 ++ stepsFor 1 5

def outcomes (es : List Event) : List (Except Failure Answer) := es.filterMap fun e =>
  match e with
  | .did _ _ _ _ out => out
  | _ => none

end Sample

end EnterpriseCopilot.Attachment
