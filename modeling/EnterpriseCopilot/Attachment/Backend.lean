import EnterpriseCopilot.Lib.Program
import EnterpriseCopilot.Attachment.Service

/-! The operations of the service as programs over single calls of the two stores.  Any call may
fail; one that does has no effect. -/

namespace EnterpriseCopilot.Attachment

open EnterpriseCopilot.Lib EnterpriseCopilot.Python EnterpriseCopilot.Runtime

inductive Cmd
  | uuid4
  | blob_put (key : String) (data : Bytes)
  | blob_read (key : String) (max_bytes : Nat)
  | blob_delete (key : String)
  | store_create (record : AttachmentRecord)
  | store_get (attachment_id : String) (scope : Scope)
  | store_list (scope : Scope)
  | store_delete (attachment_id : String) (scope : Scope)
  | store_list_before (before : DateTime)

abbrev Reply : Cmd → Type
  | .uuid4 => Hex 32
  | .blob_put _ _ | .blob_delete _ | .store_create _ => Except Failure Unit
  | .blob_read _ _ => Except Failure Bytes
  | .store_get _ _ | .store_delete _ _ => Except Failure (Option AttachmentRecord)
  | .store_list _ | .store_list_before _ => Except Failure (List AttachmentRecord)

/-- What a call raises instead of taking effect.  Only blob stores raise `BlobStorageError`. -/
structure Fault where
  blob : Option Failure := none
  store : Option PyError := none

/-- A change of the files, or the exception that kept it away. -/
def State.filed {b : Backend} (s : State b) : Except Failure Files → Except Failure Unit × State b
  | .ok files => (.ok (), { s with files := files })
  | .error e => (.error e, s)

/-- Execute one call. -/
def State.apply {b : Backend} (W : World) (s : State b) (c : Cmd) (fault : Fault) :
    Reply c × State b :=
  match c with
  | .uuid4 => (W.uuid4 s.drawn, { s with drawn := s.drawn + 1 })
  | .blob_put key data =>
    match fault.blob with
    | some e => (.error e, s)
    | none => s.filed (s.files.put key data)
  | .blob_read key max_bytes =>
    match fault.blob with
    | some e => (.error e, s)
    | none => (s.files.read key max_bytes, s)
  | .blob_delete key =>
    match fault.blob with
    | some e => (.error e, s)
    | none => s.filed (s.files.delete key)
  | .store_create record =>
    match fault.store with
    | some e => (.error (.other e), s)
    | none =>
      match s.store.create record with
      | .ok store => (.ok (), { s with store := store })
      | .error e => (.error e, s)
  | .store_get attachment_id scope =>
    match fault.store with
    | some e => (.error (.other e), s)
    | none => (.ok (s.store.get attachment_id scope), s)
  | .store_list scope =>
    match fault.store with
    | some e => (.error (.other e), s)
    | none => (.ok (s.store.list scope), s)
  | .store_delete attachment_id scope =>
    match fault.store with
    | some e => (.error (.other e), s)
    | none => (.ok (s.store.delete attachment_id scope).1,
        { s with store := (s.store.delete attachment_id scope).2 })
  | .store_list_before before =>
    match fault.store with
    | some e => (.error (.other e), s)
    | none => (s.store.list_before W.library before, s)

abbrev Code := Program Cmd Reply Failure
abbrev Log := Exchange Cmd Reply

namespace Code

def uuid4 : Code (Hex 32) := .cmd .uuid4 .pure
def blob_put (key : String) (data : Bytes) : Code Unit := .cmd (.blob_put key data) .ofExcept
def blob_read (key : String) (max_bytes : Nat) : Code Bytes :=
  .cmd (.blob_read key max_bytes) .ofExcept
def blob_delete (key : String) : Code Unit := .cmd (.blob_delete key) .ofExcept
def store_create (record : AttachmentRecord) : Code Unit := .cmd (.store_create record) .ofExcept
def store_get (attachment_id : String) (scope : Scope) : Code (Option AttachmentRecord) :=
  .cmd (.store_get attachment_id scope) .ofExcept
def store_list (scope : Scope) : Code (List AttachmentRecord) := .cmd (.store_list scope) .ofExcept
def store_delete (attachment_id : String) (scope : Scope) : Code (Option AttachmentRecord) :=
  .cmd (.store_delete attachment_id scope) .ofExcept
def store_list_before (before : DateTime) : Code (List AttachmentRecord) :=
  .cmd (.store_list_before before) .ofExcept

end Code

/-! The operations of `AttachmentService`, call by call. -/

namespace Steps

variable (S : AttachmentService) (W : World)

/-- The record that `upload` makes. -/
def record (identity : IdentityContext) (filename content_type : String) (data : Bytes)
    (utc_now : DateTime) (id : Hex 32) (image_format extension : String) (width height : Int) :
    AttachmentRecord where
  id := id.text
  workspace_id := identity.workspace_id
  tenant_id := identity.tenant_id
  user_id := identity.user_id
  filename := filename
  content_type := content_type
  image_format := image_format
  size_bytes := data.length
  sha256 := (W.sha256 data).text
  width := width
  height := height
  storage_path := storageKey (AttachmentService._scope_key W identity) id extension
  created_at := utc_now.isoformat

/-- Take the content of an upload back. -/
def undo (key : String) : Code Unit :=
  (Code.blob_delete key).tryCatch fun
    | .blobStorageError _ => return ()
    | e => throw e

/-- Store the content and the record. -/
def persist (record : AttachmentRecord) (data : Bytes) : Code AttachmentRecord := do
  (do Code.blob_put record.storage_path data; Code.store_create record : Code Unit).tryCatch fun
    | .blobStorageError _ => throw (.attachmentError "attachment content could not be stored")
    | e => do
      undo record.storage_path
      throw e
  return record

def upload (identity : IdentityContext) (filename content_type : String) (data : Bytes)
    (oracle : Oracle) : Code AttachmentRecord := do
  let (image_format, extension, width, height) ←
    Program.ofExcept (S.check identity filename content_type data oracle)
  let id ← Code.uuid4
  persist (record W identity filename content_type data oracle.utc_now id image_format extension
    width height) data

def _scoped_record (attachment_id : String) (identity : IdentityContext) : Code AttachmentRecord := do
  Program.ofExcept (_validate_identity identity)
  match ← Code.store_get attachment_id (.of identity) with
  | none => throw (.attachmentNotFound "attachment was not found")
  | some record => return record

def list (identity : IdentityContext) : Code (List AttachmentRecord) := do
  Program.ofExcept (_validate_identity identity)
  Code.store_list (.of identity)

def read_content (identity : IdentityContext) (attachment_id : String) :
    Code (AttachmentRecord × Bytes) := do
  let record ← _scoped_record attachment_id identity
  let data ← (Code.blob_read record.storage_path S.max_bytes).tryCatch fun
    | .blobStorageError _ => throw (.attachmentNotFound "attachment content is unavailable")
    | e => throw e
  if data.length ≠ record.size_bytes || (W.sha256 data).text ≠ record.sha256 then
    throw (.attachmentError "attachment content failed integrity verification")
  else return (record, data)

/-- Delete the content, then the record. -/
def remove (record : AttachmentRecord) (attachment_id : String) (scope : Scope) (msg : String) :
    Code (Option AttachmentRecord) :=
  (do Code.blob_delete record.storage_path; Code.store_delete attachment_id scope :
    Code (Option AttachmentRecord)).tryCatch fun e => throw (asAttachmentError msg e)

def delete (identity : IdentityContext) (attachment_id : String) : Code AttachmentRecord := do
  let record ← _scoped_record attachment_id identity
  match ← remove record attachment_id (.of identity) "attachment could not be deleted" with
  | none => throw (.attachmentNotFound "attachment was not found")
  | some deleted => return deleted

/-- The loop of `purge_expired`. -/
def purge : List AttachmentRecord → List AttachmentRecord → Code (List AttachmentRecord)
  | [], deleted => return deleted
  | record :: expired, deleted => do
    let removed ← remove record record.id record.scope "expired attachment could not be deleted"
    purge expired (deleted ++ removed.toList)

/-- `current - timedelta(seconds=…)`. -/
def cutoff (now : DateTime) : Except Failure DateTime := do
  let current ← (now.astimezone .utc).mapError .other
  if 999999999 < S.retention_days then
    throw (.other (.overflowError ("days=" ++ toString S.retention_days ++
      "; must have magnitude <= 999999999")))
  else (current.add (-(S.retention_days * dayMicros))).mapError .other

def purge_expired (now : DateTime) : Code (List AttachmentRecord) :=
  if S.retention_days = 0 then return []
  else do
    let cutoff ← Program.ofExcept (cutoff S now)
    let expired ← Code.store_list_before cutoff
    purge expired []

end Steps

def Call.program (S : AttachmentService) (W : World) : Call → Code Answer
  | .upload i filename content_type data oracle =>
    .record <$> Steps.upload S W i filename content_type data oracle
  | .list i => .records <$> Steps.list i
  | .metadata i attachment_id => .record <$> Steps._scoped_record attachment_id i
  | .read_content i attachment_id =>
    (fun x => .content x.1 x.2) <$> Steps.read_content S W i attachment_id
  | .delete i attachment_id => .record <$> Steps.delete i attachment_id
  | .purge_expired now => .records <$> Steps.purge_expired S now

/-- Run a call whose backend calls meet these faults. -/
def Call.among (S : AttachmentService) (W : World) (c : Call) (ω : Nat → Fault)
    (s : State S.backend) : Program.Outcome (State S.backend) Cmd Reply Failure Answer :=
  Program.run (State.apply W) (c.program S W) ω s

section Quiet

variable {S : AttachmentService} {W : World}

/-- Run a program none of whose calls fails. -/
def quiet {α : Type} (W : World) (p : Code α) (s : State S.backend) :
    Except Failure α × State S.backend :=
  ((Program.run (State.apply W) p (fun _ => {}) s).result,
    (Program.run (State.apply W) p (fun _ => {}) s).state)

theorem quiet_cmd {α : Type} (c : Cmd) (k : Reply c → Code α) (s : State S.backend) :
    quiet W (.cmd c k) s = quiet W (k (s.apply W c {}).1) (s.apply W c {}).2 := rfl

theorem quiet_bind {α β : Type} (p : Code α) (f : α → Code β) : ∀ s : State S.backend,
    quiet W (p.bind f) s = match quiet W p s with
      | (.ok a, t) => quiet W (f a) t
      | (.error e, t) => (.error e, t) := by
  induction p with
  | pure a => intro s; rfl
  | throw e => intro s; rfl
  | cmd c k ih => intro s; exact ih _ _

theorem quiet_persist (r : AttachmentRecord) (data : Bytes) (s : State S.backend) :
    quiet W (Steps.persist r data) s = match s.files.put r.storage_path data with
      | .error e => (.error (asAttachmentError "attachment content could not be stored" e), s)
      | .ok files =>
        match s.store.create r with
        | .ok store => (.ok r, { s with files := files, store := store })
        | .error e =>
          match files.delete r.storage_path with
          | .ok files => (.error e, { s with files := files })
          | .error _ => (.error e, { s with files := files }) := by
  unfold Steps.persist Steps.undo
  simp only [Code.blob_put, Code.store_create, Code.blob_delete, Program.bind_eq, Program.cmd_bind,
    Program.cmd_tryCatch, quiet_cmd, State.apply]
  cases hput : s.files.put r.storage_path data with
  | error e =>
    obtain ⟨msg, rfl⟩ := Files.put_error hput
    rfl
  | ok files =>
    simp only [State.filed, Program.ofExcept_ok, Program.pure_bind, Program.cmd_tryCatch, Program.cmd_bind, quiet_cmd, State.apply]
    cases hcreate : s.store.create r with
    | ok store => rfl
    | error e =>
      cases e with
      | blobStorageError msg => exact absurd rfl (Store.create_error hcreate msg)
      | _ =>
        cases hdelete : files.delete r.storage_path with
        | ok files' =>
          simp [quiet_cmd, State.apply, hdelete, State.filed]
          rfl
        | error e' =>
          obtain ⟨msg, rfl⟩ := Files.delete_error hdelete
          simp [quiet_cmd, State.apply, hdelete, State.filed]
          rfl

theorem quiet_scoped (id : String) (i : IdentityContext) (s : State S.backend) :
    quiet W (Steps._scoped_record id i) s = (S._scoped_record id i s, s) := by
  unfold Steps._scoped_record AttachmentService._scoped_record
  cases _validate_identity i with
  | error e => rfl
  | ok u =>
    simp only [Program.bind_eq, Program.ofExcept_ok, Program.pure_bind, Code.store_get, Program.cmd_bind, quiet_cmd, State.apply, ok_bind]
    cases s.store.get id (.of i) <;> rfl

theorem quiet_remove (r : AttachmentRecord) (id : String) (scope : Scope) (msg : String)
    (s : State S.backend) : quiet W (Steps.remove r id scope msg) s =
      match s.files.delete r.storage_path with
      | .error e => (.error (asAttachmentError msg e), s)
      | .ok files => (.ok (s.store.delete id scope).1,
          { s with files := files, store := (s.store.delete id scope).2 }) := by
  unfold Steps.remove
  simp only [Code.blob_delete, Code.store_delete, Program.bind_eq, Program.cmd_bind,
    Program.cmd_tryCatch, quiet_cmd, State.apply]
  cases s.files.delete r.storage_path with
  | error e => rfl
  | ok files => rfl

theorem quiet_purge (rs : List AttachmentRecord) : ∀ (deleted : List AttachmentRecord)
    (s : State S.backend), quiet W (Steps.purge rs deleted) s = S.purge rs deleted s := by
  induction rs with
  | nil => intro deleted s; rfl
  | cons r rs ih =>
    intro deleted s
    simp only [Steps.purge, Program.bind_eq, quiet_bind, quiet_remove]
    cases hfiles : s.files.delete r.storage_path with
    | error e =>
      rw [S.purge_failed hfiles]
    | ok files =>
      rw [S.purge_next hfiles]
      exact ih _ _

theorem quiet_map {α β : Type} (f : α → β) (p : Code α) (s : State S.backend) :
    quiet W (f <$> p) s = (quiet W p s).map (·.map f) id := by
  rw [Program.map_eq, quiet_bind]
  generalize quiet W p s = x
  obtain ⟨r, t⟩ := x
  cases r <;> rfl

theorem quiet_upload (i : IdentityContext) (filename content_type : String) (data : Bytes)
    (oracle : Oracle) (s : State S.backend) :
    quiet W (Steps.upload S W i filename content_type data oracle) s =
      S.upload W i filename content_type data oracle s := by
  unfold Steps.upload AttachmentService.upload
  cases S.check i filename content_type data oracle with
  | error e => rfl
  | ok x =>
    obtain ⟨image_format, extension, width, height⟩ := x
    simp only [Program.bind_eq, Program.ofExcept_ok, Program.pure_bind, Code.uuid4, Program.cmd_bind, quiet_cmd, State.apply]
    exact quiet_persist _ data _

theorem quiet_read_content (i : IdentityContext) (id : String) (s : State S.backend) :
    quiet W (Steps.read_content S W i id) s = (S.read_content W i id s, s) := by
  unfold Steps.read_content AttachmentService.read_content
  rw [Program.bind_eq, quiet_bind, quiet_scoped]
  cases S._scoped_record id i s with
  | error e => rfl
  | ok r =>
    simp only [Code.blob_read, Program.bind_eq, Program.cmd_tryCatch, Program.cmd_bind, quiet_cmd, State.apply, ok_bind]
    cases s.files.read r.storage_path S.max_bytes with
    | error e => cases e <;> rfl
    | ok data =>
      simp only [Program.ofExcept_ok, Program.pure_tryCatch, Program.pure_bind]
      split <;> rfl

theorem quiet_delete (i : IdentityContext) (id : String) (s : State S.backend) :
    quiet W (Steps.delete i id) s = S.delete i id s := by
  unfold Steps.delete AttachmentService.delete
  rw [Program.bind_eq, quiet_bind, quiet_scoped]
  cases S._scoped_record id i s with
  | error e => rfl
  | ok r =>
    simp only [Program.bind_eq, quiet_bind, quiet_remove]
    cases s.files.delete r.storage_path with
    | error e => rfl
    | ok files =>
      dsimp only
      generalize s.store.delete id (.of i) = x
      obtain ⟨found, store⟩ := x
      cases found <;> rfl

theorem expired_eq (now : DateTime) (s : State S.backend) :
    S.expired W now s = Steps.cutoff S now >>= s.store.list_before W.library := by
  unfold AttachmentService.expired Steps.cutoff
  cases (now.astimezone .utc).mapError Failure.other with
  | error e => rfl
  | ok current =>
    simp only [ok_bind]
    split <;> rfl

theorem quiet_purge_expired (now : DateTime) (s : State S.backend) :
    quiet W (Steps.purge_expired S now) s = S.purge_expired W now s := by
  unfold Steps.purge_expired AttachmentService.purge_expired
  split
  · rfl
  rw [expired_eq]
  cases Steps.cutoff S now with
  | error e => rfl
  | ok cutoff =>
    simp only [Program.bind_eq, Program.ofExcept_ok, Program.pure_bind, Code.store_list_before, Program.cmd_bind, quiet_cmd, State.apply, ok_bind]
    cases s.store.list_before W.library cutoff with
    | error e => rfl
    | ok records => exact quiet_purge records [] s

theorem quiet_list (i : IdentityContext) (s : State S.backend) :
    quiet W (Steps.list i) s = (S.list i s, s) := by
  unfold Steps.list AttachmentService.list
  cases _validate_identity i <;> rfl

/-- Without faults the calls do what the service does. -/
theorem quiet_program (c : Call) (s : State S.backend) :
    quiet W (c.program S W) s = perform S W c s := by
  cases c with
  | upload i filename content_type data oracle =>
    rw [Call.program, quiet_map, quiet_upload, perform]
  | list i =>
    rw [Call.program, quiet_map, quiet_list, perform]
    rfl
  | metadata i id =>
    rw [Call.program, quiet_map, quiet_scoped, perform]
    rfl
  | read_content i id =>
    rw [Call.program, quiet_map, quiet_read_content, perform]
    rfl
  | delete i id => rw [Call.program, quiet_map, quiet_delete, perform]
  | purge_expired now => rw [Call.program, quiet_map, quiet_purge_expired, perform]

end Quiet
end EnterpriseCopilot.Attachment
