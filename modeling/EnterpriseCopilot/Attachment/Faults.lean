import EnterpriseCopilot.Lib.Machine
import EnterpriseCopilot.Attachment.Backend
import EnterpriseCopilot.Attachment.Law

/-! What a failing backend call leaves behind. -/

namespace EnterpriseCopilot.Attachment

open EnterpriseCopilot.Lib EnterpriseCopilot.Python EnterpriseCopilot.Runtime

/-- The call raised. -/
def raised : (c : Cmd) → Reply c → Bool
  | .uuid4, _ => false
  | .blob_put _ _, r | .blob_delete _, r | .store_create _, r => !r.isOk
  | .blob_read _ _, r => !r.isOk
  | .store_get _ _, r | .store_delete _ _, r => !r.isOk
  | .store_list _, r | .store_list_before _, r => !r.isOk

/-- How many calls of the two stores failed. -/
def failures (log : Log) : Nat := log.countP fun x => raised x.1 x.2

theorem failures_raised {c : Cmd} {r : Reply c} {log : Log} (h : raised c r = true) :
    failures (⟨c, r⟩ :: log) = failures log + 1 :=
  List.countP_cons_of_pos h

theorem failures_append (log log' : Log) : failures (log ++ log') = failures log + failures log' :=
  List.countP_append

section Calls

variable {b : Backend} {W : World} {s : State b} {key : String} {data : Bytes}

theorem blob_put_cases (W : World) (s : State b) (key : String) (data : Bytes) (fault : Fault) :
    (∃ e, s.apply W (.blob_put key data) fault = (.error e, s)) ∨
    ∃ path, Files._path key = .ok path ∧ s.apply W (.blob_put key data) fault =
      (.ok (), { s with files := Function.update s.files path (some data) }) := by
  cases hf : fault.blob with
  | some e => exact .inl ⟨e, by simp only [State.apply, hf]⟩
  | none =>
    simp only [State.apply, hf, Files.put]
    cases Files._path key with
    | error e => exact .inl ⟨e, rfl⟩
    | ok path => exact .inr ⟨path, rfl, rfl⟩

theorem blob_delete_cases (W : World) (s : State b) (key : String) (fault : Fault) :
    (∃ e, s.apply W (.blob_delete key) fault = (.error e, s)) ∨
    ∃ path, Files._path key = .ok path ∧ s.apply W (.blob_delete key) fault =
      (.ok (), { s with files := Function.update s.files path none }) := by
  cases hf : fault.blob with
  | some e => exact .inl ⟨e, by simp only [State.apply, hf]⟩
  | none =>
    simp only [State.apply, hf, Files.delete]
    cases Files._path key with
    | error e => exact .inl ⟨e, rfl⟩
    | ok path => exact .inr ⟨path, rfl, rfl⟩

theorem store_create_cases (W : World) (s : State b) (r : AttachmentRecord) (fault : Fault) :
    (∃ e, (∀ msg, e ≠ .blobStorageError msg) ∧ s.apply W (.store_create r) fault = (.error e, s)) ∨
      ∃ store, s.store.create r = .ok store ∧
        s.apply W (.store_create r) fault = (.ok (), { s with store := store }) := by
  cases hf : fault.store with
  | some e => exact .inl ⟨.other e, fun _ h => (by cases h), by simp only [State.apply, hf]⟩
  | none =>
    simp only [State.apply, hf]
    cases hc : s.store.create r with
    | error e => exact .inl ⟨e, Store.create_error hc, rfl⟩
    | ok store => exact .inr ⟨store, rfl, rfl⟩

theorem store_delete_cases (W : World) (s : State b) (id : String) (scope : Scope)
    (fault : Fault) :
    (∃ e, s.apply W (.store_delete id scope) fault = (.error (.other e), s)) ∨
      s.apply W (.store_delete id scope) fault = (.ok (s.store.delete id scope).1,
        { s with store := (s.store.delete id scope).2 }) := by
  cases hf : fault.store with
  | some e => exact .inl ⟨e, by simp only [State.apply, hf]⟩
  | none => exact .inr (by simp only [State.apply, hf])

/-- What `upload` does once the record is made. -/
inductive Persisted (r : AttachmentRecord) (data : Bytes) (s : State b) :
    Log → Except Failure AttachmentRecord → State b → Prop
  | stored {path store} : Files._path r.storage_path = .ok path → s.store.create r = .ok store →
      Persisted r data s [⟨.blob_put r.storage_path data, .ok ()⟩, ⟨.store_create r, .ok ()⟩] (.ok r)
        { s with files := Function.update s.files path (some data), store := store }
  | refused {msg e} : Persisted r data s
      [⟨.blob_put r.storage_path data, .error (.blobStorageError msg)⟩] (.error e) s
  | undone {path x log e} : Files._path r.storage_path = .ok path →
      (∀ msg, x ≠ .error (.blobStorageError msg)) →
      (∀ y ∈ log, ∀ key data, y.1 ≠ .blob_put key data) →
      Persisted r data s (⟨.blob_put r.storage_path data, x⟩ :: log) (.error e)
        { s with files := Function.update s.files path none }
  | twice {log o t} : 2 ≤ failures log → Persisted r data s log o t

theorem exec_undo {log : Log} {o : Except Failure Unit} {t : State b}
    (h : Program.Exec (State.apply W) (Steps.undo key) s log o t) :
    (∃ path, Files._path key = .ok path ∧ log = [⟨.blob_delete key, .ok ()⟩] ∧ o = .ok () ∧
      t = { s with files := Function.update s.files path none }) ∨
    ∃ e, log = [⟨.blob_delete key, .error e⟩] ∧ t = s := by
  unfold Steps.undo Code.blob_delete at h
  rw [Program.cmd_tryCatch] at h
  obtain ⟨f, rest, rfl, hrest⟩ := Program.exec_issue.mp h
  clear h
  obtain ⟨e, hdelete⟩ | ⟨path, hpath, hdelete⟩ := blob_delete_cases W s key f
  · rw [hdelete] at hrest ⊢
    refine .inr ⟨e, ?_⟩
    cases e with
    | blobStorageError msg =>
      obtain ⟨rfl, -, rfl⟩ := Program.exec_pure.mp hrest
      exact ⟨rfl, rfl⟩
    | _ =>
      obtain ⟨rfl, -, rfl⟩ := Program.exec_throw.mp hrest
      exact ⟨rfl, rfl⟩
  · rw [hdelete] at hrest ⊢
    obtain ⟨rfl, rfl, rfl⟩ := Program.exec_pure.mp hrest
    exact .inl ⟨path, hpath, rfl, rfl, rfl⟩

/-- After an exception that is not a `BlobStorageError`. -/
theorem exec_undone {r : AttachmentRecord} {e : Failure} {log : Log}
    {o : Except Failure AttachmentRecord} {t : State b}
    (h : Program.Exec (State.apply W) (((Steps.undo r.storage_path).bind fun _ => .throw e).bind
      fun _ : Unit => .pure r) s log o t) : (∃ path e', Files._path r.storage_path = .ok path ∧
      log = [⟨.blob_delete r.storage_path, .ok ()⟩] ∧ o = .error e' ∧
      t = { s with files := Function.update s.files path none }) ∨ 1 ≤ failures log := by
  rw [Program.bind_assoc] at h
  obtain ⟨e', hu, rfl⟩ | ⟨_, u, l₁, l₂, hu, hthrow, rfl⟩ := Program.exec_bind.mp h
  · obtain ⟨_, _, _, hok, _⟩ | ⟨e'', rfl, _⟩ := exec_undo hu
    · cases hok
    · exact .inr (Nat.le_refl 1)
  · obtain ⟨path, hpath, rfl, _, rfl⟩ | ⟨e'', rfl, _⟩ := exec_undo hu
    · obtain ⟨rfl, rfl, rfl⟩ := Program.exec_throw.mp hthrow
      exact .inl ⟨path, _, hpath, rfl, rfl, rfl⟩
    · refine .inr ?_
      rw [failures_append, failures_raised rfl]
      omega

theorem exec_persist {r : AttachmentRecord} {log : Log} {o : Except Failure AttachmentRecord}
    {t : State b} (h : Program.Exec (State.apply W) (Steps.persist r data) s log o t) :
    Persisted r data s log o t := by
  unfold Steps.persist at h
  simp only [Code.blob_put, Code.store_create, Program.bind_eq, Program.cmd_bind,
    Program.cmd_tryCatch, Program.throw_eq', Program.pure_eq] at h
  obtain ⟨f₁, l₁, rfl, h₁⟩ := Program.exec_issue.mp h
  clear h
  obtain ⟨e, hput⟩ | ⟨path, hpath, hput⟩ := blob_put_cases W s r.storage_path data f₁
  · rw [hput] at h₁ ⊢
    have undone : (∀ msg, e ≠ .blobStorageError msg) → Program.Exec (State.apply W)
        (((Steps.undo r.storage_path).bind fun _ => .throw e).bind fun _ : Unit => .pure r) s l₁ o t →
        Persisted r data s (⟨.blob_put r.storage_path data, .error e⟩ :: l₁) o t := by
      intro he hu
      obtain ⟨path, e', hpath, rfl, rfl, rfl⟩ | hfail := exec_undone hu
      · exact .undone hpath (fun msg hx => he msg (Except.error.inj hx)) (by simp)
      · refine .twice ?_
        rw [failures_raised rfl]
        omega
    cases e with
    | blobStorageError msg =>
      obtain ⟨rfl, rfl, rfl⟩ := Program.exec_throw.mp h₁
      exact .refused
    | _ => exact undone (by simp) h₁
  · rw [hput] at h₁ ⊢
    simp only [Program.ofExcept_ok, Program.pure_bind, Program.cmd_tryCatch, Program.cmd_bind] at h₁
    obtain ⟨f₂, l₂, rfl, h₂⟩ := Program.exec_issue.mp h₁
    clear h₁
    obtain ⟨e, he, hcreate⟩ | ⟨store, hstore, hcreate⟩ := store_create_cases W
      { s with files := Function.update s.files path (some data) } r f₂
    · rw [hcreate] at h₂ ⊢
      have hu : Program.Exec (State.apply W)
          (((Steps.undo r.storage_path).bind fun _ => .throw e).bind fun _ : Unit => .pure r)
          { s with files := Function.update s.files path (some data) } l₂ o t := by
        cases e with
        | blobStorageError msg => exact absurd rfl (he msg)
        | _ => exact h₂
      obtain ⟨path', e', hpath', rfl, rfl, rfl⟩ | hfail := exec_undone hu
      · cases hpath.symm.trans hpath'
        rw [Function.update_idem]
        exact .undone hpath (fun _ hx => by cases hx) (by simp)
      · refine .twice ?_
        have hcons : failures (⟨.store_create r, .error e⟩ :: l₂) = failures l₂ + 1 := failures_raised rfl
        exact (by omega : 2 ≤ failures (⟨.store_create r, .error e⟩ :: l₂)).trans
          ((List.sublist_cons_self _ _).countP_le)
    · rw [hcreate] at h₂ ⊢
      obtain ⟨rfl, rfl, rfl⟩ := Program.exec_pure.mp h₂
      exact .stored hpath hstore

/-- What deleting content and record does. -/
inductive Removed (r : AttachmentRecord) (id : String) (scope : Scope) (s : State b) :
    Log → Except Failure (Option AttachmentRecord) → State b → Prop
  | kept {e e'} : Removed r id scope s [⟨.blob_delete r.storage_path, .error e⟩] (.error e') s
  | halved {path e e'} : Files._path r.storage_path = .ok path →
      Removed r id scope s
        [⟨.blob_delete r.storage_path, .ok ()⟩, ⟨.store_delete id scope, .error e⟩] (.error e')
        { s with files := Function.update s.files path none }
  | gone {path} : Files._path r.storage_path = .ok path →
      Removed r id scope s
        [⟨.blob_delete r.storage_path, .ok ()⟩,
          ⟨.store_delete id scope, .ok (s.store.delete id scope).1⟩]
        (.ok (s.store.delete id scope).1)
        { s with files := Function.update s.files path none, store := (s.store.delete id scope).2 }

theorem exec_remove {r : AttachmentRecord} {id msg : String} {scope : Scope} {log : Log}
    {o : Except Failure (Option AttachmentRecord)} {t : State b}
    (h : Program.Exec (State.apply W) (Steps.remove r id scope msg) s log o t) :
    Removed r id scope s log o t := by
  unfold Steps.remove at h
  simp only [Code.blob_delete, Code.store_delete, Program.bind_eq, Program.cmd_bind,
    Program.cmd_tryCatch, Program.throw_eq'] at h
  obtain ⟨f₁, l₁, rfl, h₁⟩ := Program.exec_issue.mp h
  clear h
  obtain ⟨e, hdelete⟩ | ⟨path, hpath, hdelete⟩ := blob_delete_cases W s r.storage_path f₁
  · rw [hdelete] at h₁ ⊢
    obtain ⟨rfl, rfl, rfl⟩ := Program.exec_throw.mp h₁
    exact .kept
  · rw [hdelete] at h₁ ⊢
    simp only [Program.ofExcept_ok, Program.pure_bind, Program.cmd_tryCatch] at h₁
    obtain ⟨f₂, l₂, rfl, h₂⟩ := Program.exec_issue.mp h₁
    clear h₁
    obtain ⟨e, hrow⟩ | hrow := store_delete_cases W
      { s with files := Function.update s.files path none } id scope f₂
    · rw [hrow] at h₂ ⊢
      obtain ⟨rfl, rfl, rfl⟩ := Program.exec_throw.mp h₂
      exact .halved hpath
    · rw [hrow] at h₂ ⊢
      obtain ⟨rfl, rfl, rfl⟩ := Program.exec_pure.mp h₂
      exact .gone hpath

/-- The record that the caller may see, or the exception. -/
theorem exec_scoped {i : IdentityContext} {id : String} {log : Log}
    {o : Except Failure AttachmentRecord} {t : State b}
    (h : Program.Exec (State.apply W) (Steps._scoped_record id i) s log o t) : t = s ∧
      (∀ x ∈ log, ∃ r, x = ⟨.store_get id (.of i), r⟩) ∧
      ∀ r, o = .ok r → s.store.get id (.of i) = some r := by
  unfold Steps._scoped_record at h
  simp only [Code.store_get, Program.bind_eq, Program.throw_eq', Program.pure_eq] at h
  cases hid : _validate_identity i with
  | error e =>
    rw [hid] at h
    obtain ⟨rfl, rfl, rfl⟩ := Program.exec_throw.mp h
    exact ⟨rfl, by simp, by simp⟩
  | ok _ =>
    rw [hid, Program.ofExcept_ok, Program.pure_bind, Program.cmd_bind] at h
    obtain ⟨f, rest, rfl, h₁⟩ := Program.exec_issue.mp h
    clear h
    cases hf : f.store with
    | some e =>
      simp only [State.apply, hf] at h₁ ⊢
      obtain ⟨rfl, rfl, rfl⟩ := Program.exec_throw.mp h₁
      exact ⟨rfl, by simp, by simp⟩
    | none =>
      simp only [State.apply, hf, Program.ofExcept_ok, Program.pure_bind] at h₁ ⊢
      cases hget : s.store.get id (.of i) with
      | none =>
        rw [hget] at h₁
        obtain ⟨rfl, rfl, rfl⟩ := Program.exec_throw.mp h₁
        exact ⟨rfl, by simp, by simp⟩
      | some r =>
        rw [hget] at h₁
        obtain ⟨rfl, rfl, rfl⟩ := Program.exec_pure.mp h₁
        exact ⟨rfl, by simp, by simp⟩

end Calls

section Covered

variable {S : AttachmentService} {W : World} {b : Backend} {s t : State b}

/-- Every stored content belongs to a record. -/
def Covered (s : State b) : Prop :=
  ∀ path data, s.files path = some data →
    ∃ r ∈ s.store.rows, Files._path r.storage_path = .ok path

theorem covered_init : Covered (.init b) := by
  intro path data h
  cases h

/-- Less content is covered by the same records. -/
theorem Covered.forget (h : Covered s) (path : Path) :
    Covered { s with files := Function.update s.files path none } := by
  intro q data hq
  have hne : q ≠ path := by
    rintro rfl
    simp at hq
  dsimp only at hq
  rw [Function.update_of_ne hne] at hq
  exact h q data hq

theorem Covered.persist (h : Covered s) {r : AttachmentRecord} {data : Bytes} {log : Log}
    {o : Except Failure AttachmentRecord} (hp : Persisted r data s log o t)
    (hone : failures log ≤ 1) : Covered t := by
  cases hp with
  | stored hpath hcreate =>
    intro q d hq
    rw [Store.create_ok hcreate]
    dsimp only at hq
    rw [Function.update_apply] at hq
    split at hq
    · rename_i hqp
      exact ⟨r, by simp, hqp ▸ hpath⟩
    · obtain ⟨r', hr', hpath'⟩ := h q d hq
      exact ⟨r', List.mem_append_left _ hr', hpath'⟩
  | refused => exact h
  | undone => exact h.forget _
  | twice hfail => omega

/-- No other record has the id. -/
def Sole (s : State b) (r : AttachmentRecord) : Prop := ∀ q ∈ s.store.rows, q.id = r.id → q = r

theorem Covered.remove (h : Covered s) {r : AttachmentRecord} {log : Log}
    {o : Except Failure (Option AttachmentRecord)} (hsole : Sole s r)
    (hr : Removed r r.id r.scope s log o t) :
    Covered t ∧ ∀ q ∈ t.store.rows, q ∈ s.store.rows := by
  cases hr with
  | kept => exact ⟨h, fun _ hq => hq⟩
  | halved => exact ⟨h.forget _, fun _ hq => hq⟩
  | @gone path hpath =>
    refine ⟨fun q d hq => ?_, fun q hq => ?_⟩
    · obtain ⟨r', hr', hpath'⟩ := h.forget path q d hq
      refine ⟨r', ?_, hpath'⟩
      dsimp only
      rw [Store.delete_rows]
      refine List.mem_filter.mpr ⟨hr', ?_⟩
      by_contra hgone
      simp only [Bool.not_eq_true', Bool.and_eq_true, decide_eq_true_eq,
        Bool.not_eq_false] at hgone
      rw [hsole r' hr' hgone.1, hpath] at hpath'
      cases hpath'
      simp at hq
    · dsimp only at hq
      rw [Store.delete_rows] at hq
      exact List.mem_of_mem_filter hq

theorem Covered.purge (rs : List AttachmentRecord) : ∀ {s : State b} {deleted log o},
    Covered s → (∀ r ∈ rs, Sole s r) →
    Program.Exec (State.apply W) (Steps.purge rs deleted) s log o t → Covered t := by
  induction rs with
  | nil =>
    intro s deleted log o h _ hx
    obtain ⟨_, _, rfl⟩ := Program.exec_pure.mp hx
    exact h
  | cons r rs ih =>
    intro s deleted log o h hsole hx
    have hr := hsole r List.mem_cons_self
    obtain ⟨e, hx₁, _⟩ | ⟨found, u, l₁, l₂, hx₁, hx₂, _⟩ := Program.exec_bind.mp hx
    · exact (h.remove hr (exec_remove hx₁)).1
    · obtain ⟨hu, hsub⟩ := h.remove hr (exec_remove hx₁)
      refine ih hu (fun r' hr' q hq => ?_) hx₂
      exact hsole r' (List.mem_cons_of_mem _ hr') q (hsub q hq)

/-- Commands that leave both stores as they are. -/
def Reads : Cmd → Prop
  | .uuid4 | .blob_read _ _ | .store_get _ _ | .store_list _ | .store_list_before _ => True
  | _ => False

theorem Reads.same {c : Cmd} (hc : Reads c) (s : State b) (fault : Fault) :
    (s.apply W c fault).2.store = s.store ∧ (s.apply W c fault).2.files = s.files := by
  cases c with
  | uuid4 => exact ⟨rfl, rfl⟩
  | blob_read key max_bytes => cases hf : fault.blob <;> simp [State.apply, hf]
  | store_get id scope => cases hf : fault.store <;> simp [State.apply, hf]
  | store_list scope => cases hf : fault.store <;> simp [State.apply, hf]
  | store_list_before before => cases hf : fault.store <;> simp [State.apply, hf]
  | _ => cases hc

theorem Covered.reads {α : Type} {p : Code α} (hp : Program.All Reads p) {log : Log}
    {o : Except Failure α} (h : Covered s) (hx : Program.Exec (State.apply W) p s log o t) :
    Covered t := by
  refine hp.invariant (fun s c fault hc hs => ?_) hx h
  obtain ⟨hstore, hfiles⟩ := hc.same (W := W) s fault
  intro path data hq
  rw [hfiles] at hq
  rw [hstore]
  exact hs path data hq

theorem reads_scoped (i : IdentityContext) (id : String) :
    Program.All Reads (Steps._scoped_record id i) := by
  refine (Program.all_ofExcept _).bind fun _ => ⟨trivial, fun r => ?_⟩
  refine (Program.all_ofExcept r).bind fun found => ?_
  cases found <;> trivial

theorem sole_of_mem {r : AttachmentRecord} (hr : r ∈ s.store.rows) : Sole s r :=
  fun _ hq hid => Store.eq_of_id hq hr hid

/-- One call, one failure: still every content belongs to a record. -/
theorem Covered.call {s t : State S.backend} (h : Covered s) {c : Call} {log : Log}
    {o : Except Failure Answer} (hx : Program.Exec (State.apply W) (c.program S W) s log o t)
    (hone : failures log ≤ 1) : Covered t := by
  cases c with
  | upload i filename content_type data oracle =>
    obtain ⟨o', hx, _⟩ := Program.exec_map hx
    unfold Steps.upload at hx
    cases hcheck : S.check i filename content_type data oracle with
    | error e =>
      rw [hcheck] at hx
      obtain ⟨_, _, rfl⟩ := Program.exec_throw.mp hx
      exact h
    | ok x =>
      rw [hcheck] at hx
      obtain ⟨_, rest, rfl, hrest⟩ := Program.exec_issue.mp hx
      have hu : Covered { s with drawn := s.drawn + 1 } := h
      refine hu.persist (exec_persist hrest) ?_
      exact (List.sublist_cons_self _ _).countP_le.trans hone
  | list i =>
    obtain ⟨_, hx, _⟩ := Program.exec_map hx
    refine h.reads ((Program.all_ofExcept _).bind fun _ => ?_) hx
    exact ⟨trivial, fun r => Program.all_ofExcept r⟩
  | metadata i id =>
    obtain ⟨_, hx, _⟩ := Program.exec_map hx
    exact h.reads (reads_scoped i id) hx
  | read_content i id =>
    obtain ⟨_, hx, _⟩ := Program.exec_map hx
    refine h.reads ((reads_scoped i id).bind fun r => ?_) hx
    refine Program.All.bind (.tryCatch ⟨trivial, fun r => Program.all_ofExcept r⟩ fun e => ?_) fun data => ?_
    · cases e <;> trivial
    · split <;> trivial
  | delete i id =>
    obtain ⟨_, hx, _⟩ := Program.exec_map hx
    obtain ⟨_, hx₁, _⟩ | ⟨r, u, l₁, l₂, hx₁, hx₂, rfl⟩ := Program.exec_bind.mp hx
    · exact (exec_scoped hx₁).1 ▸ h
    obtain ⟨rfl, _, hget⟩ := exec_scoped hx₁
    obtain ⟨hr, rfl, hscope⟩ := Store.get_eq_some.mp (hget r rfl)
    have removed : ∀ {o l}, Program.Exec (State.apply W)
        (Steps.remove r r.id (.of i) "attachment could not be deleted") u l o t → Covered t :=
      fun hr' => (h.remove (sole_of_mem hr) (exec_remove (hscope ▸ hr'))).1
    obtain ⟨_, hx₃, _⟩ | ⟨found, v, l₃, l₄, hx₃, hx₄, _⟩ := Program.exec_bind.mp hx₂
    · exact removed hx₃
    · obtain rfl : t = v := by
        cases found with
        | none => exact (Program.exec_throw.mp hx₄).2.2
        | some d => exact (Program.exec_pure.mp hx₄).2.2
      exact removed hx₃
  | purge_expired now =>
    obtain ⟨_, hx, _⟩ := Program.exec_map hx
    unfold Steps.purge_expired at hx
    split at hx
    · obtain ⟨_, _, rfl⟩ := Program.exec_pure.mp hx
      exact h
    cases hcut : Steps.cutoff S now with
    | error e =>
      rw [hcut] at hx
      obtain ⟨_, _, rfl⟩ := Program.exec_throw.mp hx
      exact h
    | ok cutoff =>
      rw [hcut] at hx
      obtain ⟨f, rest, rfl, hrest⟩ := Program.exec_issue.mp hx
      cases hf : f.store with
      | some e =>
        simp only [State.apply, hf] at hrest
        obtain ⟨_, _, rfl⟩ := Program.exec_throw.mp hrest
        exact h
      | none =>
        simp only [State.apply, hf] at hrest
        cases hlist : s.store.list_before W.library cutoff with
        | error e =>
          rw [hlist] at hrest
          obtain ⟨_, _, rfl⟩ := Program.exec_throw.mp hrest
          exact h
        | ok expired =>
          rw [hlist] at hrest
          have hsub := (Store.list_before_subperm hlist).subset
          exact h.purge expired (fun r hr => sole_of_mem (hsub hr)) hrest

/-- Sequences of calls, each with the faults of its backend calls.  The trace has what the calls
exchanged with the stores. -/
def machine (S : AttachmentService) (W : World) :
    Machine (State S.backend) (Call × (Nat → Fault)) Log :=
  ⟨fun s x => some ((x.1.among S W x.2 s).state, (x.1.among S W x.2 s).log)⟩

theorem machine_step (s : State S.backend) (c : Call) (ω : Nat → Fault) :
    (machine S W).step s (c, ω) = some ((c.among S W ω s).state, (c.among S W ω s).log) := rfl

/-- At most one backend call of the operation fails. -/
def OneFailure (S : AttachmentService) (W : World) (s : State S.backend)
    (x : Call × (Nat → Fault)) : Prop := failures (x.1.among S W x.2 s).log ≤ 1

instance (s : State S.backend) (x : Call × (Nat → Fault)) : Decidable (OneFailure S W s x) :=
  inferInstanceAs (Decidable (_ ≤ _))

/-- Deletion and retention can reach every stored content. -/
theorem no_unreachable_bytes {es : List Log} {s : State S.backend}
    (h : (machine S W).Run (OneFailure S W) (.init S.backend) es s) :
    ∀ path data, s.files path = some data →
      ∃ r ∈ s.store.rows, Files._path r.storage_path = .ok path := by
  refine h.invariant (I := fun _ s => Covered s) covered_init ?_
  intro es t x u e _ hone hstep ht
  cases hstep
  exact ht.call (Program.exec_of_run (State.apply W) (x.1.program S W) x.2 t) hone

/-- The metadata store is away for the third call of an operation. -/
def sampleFault (n : Nat) : Fault :=
  if n = 2 then { store := some (.exception "OperationalError") } else {}

/-- The database of the service after a failed upload and a completed one. -/
def sampleState : State sampleService.backend :=
  (sampleUpload.among sampleService sampleWorld (fun _ => {})
    (sampleUpload.among sampleService sampleWorld sampleFault (.init sampleService.backend)).state).state

/-- Where the completed upload put its content. -/
def samplePath : Path :=
  ["52db13a46f101edb6b79079e19c88df9b46a802f661d69de2bf12db173f0e6c0".toList,
    "7c2e9d1b3a5f4e6c8b7a9f0e1d2c3b4a.gif".toList]

/-- The failures of the two uploads, and what they leave. -/
theorem fault_checks : OneFailure sampleService sampleWorld (.init sampleService.backend) (sampleUpload, sampleFault) ∧
    OneFailure sampleService sampleWorld
      (sampleUpload.among sampleService sampleWorld sampleFault (.init sampleService.backend)).state
      (sampleUpload, fun _ => {}) ∧ sampleState.files samplePath = some sampleImage := by
  decide +kernel

/-- The run of the two uploads. -/
theorem sample_run : ∃ es, (machine sampleService sampleWorld).Run (OneFailure sampleService sampleWorld)
    (.init sampleService.backend) es sampleState := by
  obtain ⟨hfail, hquiet, _⟩ := fault_checks
  exact ⟨_, .snoc (.snoc .nil hfail (machine_step _ _ _)) hquiet (machine_step _ _ _)⟩

theorem no_unreachable_bytes_sample :
    ∃ r ∈ sampleState.store.rows, Files._path r.storage_path = .ok samplePath := by
  obtain ⟨_, _, hstored⟩ := fault_checks
  obtain ⟨es, hrun⟩ := sample_run
  exact no_unreachable_bytes hrun samplePath sampleImage hstored

end Covered

section Atomic

variable {S : AttachmentService} {W : World} {s t : State S.backend}

/-- The two calls that change the stores for one attachment. -/
def Call.Alters : Call → Prop
  | .upload _ _ _ _ _ | .delete _ _ => True
  | _ => False

/-- An upload writes to a key without content, or is refused by the blob store; a deletion fails
before the record is deleted, or there is no content. -/
def Spared (s : State S.backend) : Call → Log → Prop
  | .upload _ _ _ _ _, log => ∀ key data x path, ⟨.blob_put key data, x⟩ ∈ log →
      Files._path key = .ok path → s.files path = none ∨ ∃ msg, x = .error (.blobStorageError msg)
  | .delete i id, log => (∃ scope e, ⟨.store_delete id scope, .error e⟩ ∈ log) →
      ∀ r path, s.store.get id (.of i) = some r → Files._path r.storage_path = .ok path →
        s.files path = none
  | _, _ => True

theorem unchanged_upload {i : IdentityContext} {filename content_type : String} {data : Bytes}
    {oracle : Oracle} {log : Log} {e : Failure} (hx : Program.Exec (State.apply W)
      (Steps.upload S W i filename content_type data oracle) s log (.error e) t)
    (hone : failures log ≤ 1) : (t.store = s.store ∧ t.files = s.files) ↔
      Spared s (.upload i filename content_type data oracle) log := by
  unfold Steps.upload at hx
  cases hcheck : S.check i filename content_type data oracle with
  | error e =>
    rw [hcheck] at hx
    obtain ⟨rfl, _, rfl⟩ := Program.exec_throw.mp hx
    exact iff_of_true ⟨rfl, rfl⟩ (by simp [Spared])
  | ok x =>
    rw [hcheck] at hx
    obtain ⟨_, rest, rfl, hrest⟩ := Program.exec_issue.mp hx
    have hp := exec_persist hrest
    generalize hr : Steps.record W i filename content_type data oracle.utc_now _ _ _ _ _ = r at hp
    have hfail : failures rest ≤ 1 := (List.sublist_cons_self _ _).countP_le.trans hone
    generalize ho : Except.error e = o at hp
    cases hp with
    | stored => cases ho
    | refused =>
      refine iff_of_true ⟨rfl, rfl⟩ ?_
      intro key d x path hmem _
      obtain _ | ⟨_, _ | ⟨_, hmem⟩⟩ := hmem
      · exact .inr ⟨_, rfl⟩
      · cases hmem
    | @undone path x log e' hpath hput hlog =>
      constructor
      · rintro ⟨_, hfiles⟩ key d y q hmem hq
        obtain _ | ⟨_, _ | ⟨_, hmem⟩⟩ := hmem
        · cases hpath.symm.trans hq
          exact .inl (Function.update_eq_self_iff.mp hfiles).symm
        · exact absurd rfl (hlog _ hmem key d)
      · intro h
        refine ⟨rfl, Function.update_eq_self_iff.mpr ?_⟩
        obtain hnone | ⟨msg, hx⟩ := h _ _ _ path (.tail _ (.head _)) hpath
        · exact hnone.symm
        · exact absurd hx (hput msg)
    | twice h => omega

theorem unchanged_delete {i : IdentityContext} {id : String} {log : Log} {e : Failure}
    (hx : Program.Exec (State.apply W) (Steps.delete i id) s log (.error e) t) :
    (t.store = s.store ∧ t.files = s.files) ↔ Spared s (.delete i id) log := by
  obtain ⟨_, hx₁, _⟩ | ⟨r, u, l₁, l₂, hx₁, hx₂, rfl⟩ := Program.exec_bind.mp hx
  · obtain ⟨rfl, hlog, _⟩ := exec_scoped hx₁
    refine iff_of_true ⟨rfl, rfl⟩ ?_
    rintro ⟨scope, e', hmem⟩
    obtain ⟨_, hget⟩ := hlog _ hmem
    cases hget
  obtain ⟨rfl, hlog, hget⟩ := exec_scoped hx₁
  have hr := hget r rfl
  have hscoped : ∀ scope e', (⟨.store_delete id scope, .error e'⟩ : (c : Cmd) × Reply c) ∉ l₁ := by
    intro scope e' hmem
    obtain ⟨_, hget⟩ := hlog _ hmem
    cases hget
  obtain ⟨_, hx₃, _⟩ | ⟨found, v, l₃, l₄, hx₃, hx₄, _⟩ := Program.exec_bind.mp hx₂
  · cases exec_remove hx₃ with
    | kept =>
      refine iff_of_true ⟨rfl, rfl⟩ ?_
      rintro ⟨scope, e', hmem⟩
      obtain hmem | hmem := List.mem_append.mp hmem
      · exact absurd hmem (hscoped scope e')
      · cases List.mem_singleton.mp hmem
    | @halved path e₁ _ hpath =>
      constructor
      · rintro ⟨_, hfiles⟩ _ r' q hr' hq
        cases hr.symm.trans hr'
        cases hpath.symm.trans hq
        exact (Function.update_eq_self_iff.mp hfiles).symm
      · intro h
        refine ⟨rfl, Function.update_eq_self_iff.mpr ?_⟩
        exact (h ⟨.of i, e₁, List.mem_append_right _ (.tail _ (.head _))⟩ r path hr hpath).symm
  · -- the record is there, so the metadata store does not answer `None`
    generalize ho : Except.ok found = o at hx₃
    cases exec_remove hx₃ with
    | kept => cases ho
    | halved => cases ho
    | gone =>
      cases ho
      rw [Store.delete_fst, hr] at hx₄
      cases (Program.exec_pure.mp hx₄).2.1

/-- A failed upload or deletion changes nothing just when it is spared. -/
theorem failed_unchanged_iff (S : AttachmentService) (W : World) (c : Call) (ω : Nat → Fault)
    (s : State S.backend) (e : Failure) (hc : c.Alters)
    (hone : failures (c.among S W ω s).log ≤ 1) (hraise : (c.among S W ω s).result = .error e) :
    ((c.among S W ω s).state.store = s.store ∧ (c.among S W ω s).state.files = s.files) ↔
      Spared s c (c.among S W ω s).log := by
  have hx := Program.exec_of_run (State.apply W) (c.program S W) ω s
  change Program.Exec _ _ s (c.among S W ω s).log (c.among S W ω s).result
    (c.among S W ω s).state at hx
  rw [hraise] at hx
  cases c with
  | upload i filename content_type data oracle =>
    obtain ⟨o, hp, ho⟩ := Program.exec_map hx
    cases o with
    | ok r => cases ho
    | error e' => exact unchanged_upload hp hone
  | delete i id =>
    obtain ⟨o, hp, ho⟩ := Program.exec_map hx
    cases o with
    | ok r => cases ho
    | error e' => exact unchanged_delete hp
  | _ => cases hc

def shortRecord : AttachmentRecord := { sampleRecord with id := "a1", storage_path := "k" }

/-- One record, whose content is `data`. -/
def shortState (data : Option Bytes) : State sampleService.backend where
  store := ⟨[shortRecord], List.pairwise_singleton _ _⟩
  files path := if path = [['k']] then data else none
  drawn := 0

def shortDelete : Call := .delete ⟨"u1", "w1", "t1", "customer"⟩ "a1"

theorem failed_unchanged_iff_sample :
    (shortDelete.among sampleService sampleWorld sampleFault (shortState none)).state.store =
        (shortState none).store ∧
      (shortDelete.among sampleService sampleWorld sampleFault (shortState none)).state.files =
        (shortState none).files := by
  have hraise : (shortDelete.among sampleService sampleWorld sampleFault (shortState none)).result =
      .error (.other (.exception "OperationalError")) := by decide +kernel
  refine (failed_unchanged_iff sampleService sampleWorld shortDelete sampleFault (shortState none) _
    trivial (by decide +kernel) hraise).mpr ?_
  intro _ r path _ _
  exact ite_self _

/-- A deletion that fails at the metadata store leaves a record without content. -/
theorem deletion_halved : ¬ ∀ (S : AttachmentService) (W : World) (c : Call) (ω : Nat → Fault)
    (s : State S.backend) (e : Failure), c.Alters → failures (c.among S W ω s).log ≤ 1 →
    (c.among S W ω s).result = .error e →
    (c.among S W ω s).state.store = s.store ∧ (c.among S W ω s).state.files = s.files := by
  intro h
  let s := shortState (some sampleImage)
  have hraise : (shortDelete.among sampleService sampleWorld sampleFault s).result =
      .error (.other (.exception "OperationalError")) := by decide +kernel
  have hfiles := (h sampleService sampleWorld shortDelete sampleFault s _ trivial
    (by decide +kernel) hraise).2
  have hafter : (shortDelete.among sampleService sampleWorld sampleFault s).state.files [['k']] =
      none := by
    decide +kernel
  rw [hfiles] at hafter
  cases hafter

end Atomic

end EnterpriseCopilot.Attachment
