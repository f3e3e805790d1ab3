import EnterpriseCopilot.Attachment.Store

/-! Validate, persist and serve images. -/

namespace EnterpriseCopilot.Attachment

open EnterpriseCopilot.Lib EnterpriseCopilot.Python EnterpriseCopilot.Runtime

def ALLOWED_IMAGE_TYPES : List (String × String × String) :=
  [("JPEG", "image/jpeg", ".jpg"), ("PNG", "image/png", ".png"), ("WEBP", "image/webp", ".webp"),
    ("GIF", "image/gif", ".gif")]

/-- How the service was built. -/
structure AttachmentService where
  backend : Backend
  max_bytes : Nat
  max_pixels : Nat
  retention_days : Nat
  positive : 1 ≤ max_bytes ∧ 1 ≤ max_pixels

/-- Digests, the ids in the order in which they are drawn, and the reader of timestamps. -/
structure World where
  sha256 : Bytes → Hex 64
  uuid4 : Nat → Hex 32
  library : Library

/-- How decoding fails: with one of the errors that `upload` expects, or with another. -/
inductive ImageError
  | invalid
  | other (e : PyError)

/-- What an upload takes from outside: `image.format` and `image.size` of the bytes, the verdict
of the scanner, and the clock. -/
structure Oracle where
  image : Bytes → Except ImageError (Option String × Int × Int)
  scan : Bytes → String → Except Failure Unit
  utc_now : DateTime

structure State (b : Backend) where
  store : Store b
  files : Files
  drawn : Nat

def State.init (b : Backend) : State b := ⟨.empty, fun _ => none, 0⟩

def safeIdentityChar (c : Char) : Bool := c.isAlphanum || c ∈ ['.', '_', ':', '-']

def safeIdentity (value : String) : Bool :=
  value.toList.all safeIdentityChar && 1 ≤ value.length && value.length ≤ 256

def _validate_identity (identity : IdentityContext) : Except Failure Unit :=
  if !safeIdentity identity.user_id then
    .error (.attachmentError "invalid user_id in authenticated context")
  else if !safeIdentity identity.workspace_id then
    .error (.attachmentError "invalid workspace_id in authenticated context")
  else if !safeIdentity identity.tenant_id then
    .error (.attachmentError "invalid tenant_id in authenticated context")
  else .ok ()

/-- `Path(text).name`. -/
def pathName (text : List Char) : List Char :=
  ((text.splitOn '/').filter fun part => part ≠ [] && part ≠ ['.']).getLast?.getD []

def safeFilename (filename : String) : Bool :=
  let chars := filename.toList
  !(filename.isEmpty || 255 < filename.length ||
    chars.any (fun c => c.toNat < 32 || c.toNat = 127) ||
    pathName (chars.map fun c => if c = '\\' then '/' else c) ≠ chars)

def asAttachmentError (msg : String) : Failure → Failure
  | .blobStorageError _ => .attachmentError msg
  | e => e

namespace AttachmentService

variable (S : AttachmentService) (W : World)

def _scope_key (identity : IdentityContext) : Hex 64 :=
  W.sha256 (utf8 (identity.workspace_id ++ "\x00" ++ identity.tenant_id))

/-- The checks of `upload`: format, extension and size of the image. -/
def check (identity : IdentityContext) (filename content_type : String) (data : Bytes)
    (oracle : Oracle) : Except Failure (String × String × Int × Int) := do
  _validate_identity identity
  if !safeFilename filename then
    .error (.attachmentError "filename must be a single safe path component")
  else if content_type ∉ ALLOWED_IMAGE_TYPES.map (·.2.1) then
    .error (.attachmentError "only JPEG, PNG, WebP and GIF images are supported")
  else if data.isEmpty then .error (.attachmentError "image content is empty")
  else if S.max_bytes < data.length then
    .error (.attachmentError ("image exceeds the " ++ toString S.max_bytes ++ " byte limit"))
  else match oracle.image data with
    | .error .invalid => .error (.attachmentError "file content is not a valid image")
    | .error (.other e) => .error (.other e)
    | .ok (format, width, height) =>
      match ALLOWED_IMAGE_TYPES.lookup (format.getD "") with
      | none => .error (.attachmentError "declared content type does not match image content")
      | some (media, extension) =>
        if media ≠ content_type then
          .error (.attachmentError "declared content type does not match image content")
        else if width < 1 || height < 1 || S.max_pixels < width * height then
          .error (.attachmentError
            ("image dimensions exceed the " ++ toString S.max_pixels ++ " pixel limit"))
        else do
          oracle.scan data content_type
          return (format.getD "", extension, width, height)

def upload (identity : IdentityContext) (filename content_type : String) (data : Bytes)
    (oracle : Oracle) (s : State S.backend) : Except Failure AttachmentRecord × State S.backend :=
  match S.check identity filename content_type data oracle with
  | .error e => (.error e, s)
  | .ok (image_format, extension, width, height) =>
    let id := W.uuid4 s.drawn
    let s := { s with drawn := s.drawn + 1 }
    let record : AttachmentRecord := {
      id := id.text
      workspace_id := identity.workspace_id
      tenant_id := identity.tenant_id
      user_id := identity.user_id
      filename := filename
      content_type := content_type
      image_format := image_format
      size_bytes := data.length
      sha256 := (W.sha256 data).text
      width := width
      height := height
      storage_path := storageKey (_scope_key W identity) id extension
      created_at := oracle.utc_now.isoformat }
    match s.files.put record.storage_path data with
    | .error e => (.error (asAttachmentError "attachment content could not be stored" e), s)
    | .ok files =>
      match s.store.create record with
      | .ok store => (.ok record, { s with files := files, store := store })
      | .error e =>
        -- the content is taken back
        match files.delete record.storage_path with
        | .ok files => (.error e, { s with files := files })
        | .error _ => (.error e, { s with files := files })

def _scoped_record (attachment_id : String) (identity : IdentityContext) (s : State S.backend) :
    Except Failure AttachmentRecord := do
  _validate_identity identity
  match s.store.get attachment_id (.of identity) with
  | none => throw (.attachmentNotFound "attachment was not found")
  | some record => return record

def list (identity : IdentityContext) (s : State S.backend) :
    Except Failure (List AttachmentRecord) := do
  _validate_identity identity
  return s.store.list (.of identity)

def metadata (identity : IdentityContext) (attachment_id : String) (s : State S.backend) :
    Except Failure AttachmentRecord :=
  S._scoped_record attachment_id identity s

def read_content (identity : IdentityContext) (attachment_id : String) (s : State S.backend) :
    Except Failure (AttachmentRecord × Bytes) := do
  let record ← S._scoped_record attachment_id identity s
  match s.files.read record.storage_path S.max_bytes with
  | .error (.blobStorageError _) => throw (.attachmentNotFound "attachment content is unavailable")
  | .error e => throw e
  | .ok data =>
    if data.length ≠ record.size_bytes || (W.sha256 data).text ≠ record.sha256 then
      throw (.attachmentError "attachment content failed integrity verification")
    else return (record, data)

def delete (identity : IdentityContext) (attachment_id : String) (s : State S.backend) :
    Except Failure AttachmentRecord × State S.backend :=
  match S._scoped_record attachment_id identity s with
  | .error e => (.error e, s)
  | .ok record =>
    match s.files.delete record.storage_path with
    | .error e => (.error (asAttachmentError "attachment could not be deleted" e), s)
    | .ok files =>
      match s.store.delete attachment_id (.of identity) with
      | (none, store) => (.error (.attachmentNotFound "attachment was not found"),
          { s with files := files, store := store })
      | (some deleted, store) => (.ok deleted, { s with files := files, store := store })

/-- The loop of `purge_expired`. -/
def purge : List AttachmentRecord → List AttachmentRecord → State S.backend →
    Except Failure (List AttachmentRecord) × State S.backend
  | [], deleted, s => (.ok deleted, s)
  | record :: expired, deleted, s =>
    match s.files.delete record.storage_path with
    | .error e => (.error (asAttachmentError "expired attachment could not be deleted" e), s)
    | .ok files =>
      let (removed, store) := s.store.delete record.id record.scope
      purge expired (deleted ++ removed.toList) { s with files := files, store := store }

theorem purge_failed {s : State S.backend} {record : AttachmentRecord} {expired deleted : List AttachmentRecord}
    {e : Failure} (h : s.files.delete record.storage_path = .error e) : S.purge (record :: expired) deleted s =
      (.error (asAttachmentError "expired attachment could not be deleted" e), s) := by
  unfold purge
  rw [h]

theorem purge_next {s : State S.backend} {record : AttachmentRecord} {expired deleted : List AttachmentRecord}
    {files : Files} (h : s.files.delete record.storage_path = .ok files) : S.purge (record :: expired) deleted s =
      S.purge expired (deleted ++ (s.store.delete record.id record.scope).1.toList)
        { s with files := files, store := (s.store.delete record.id record.scope).2 } := by
  rw [purge.eq_def]
  dsimp only
  rw [h]

/-- `current - timedelta(seconds=…)`, and the records from before it. -/
def expired (now : DateTime) (s : State S.backend) : Except Failure (List AttachmentRecord) := do
  let current ← (now.astimezone .utc).mapError .other
  if 999999999 < S.retention_days then
    throw (.other (.overflowError ("days=" ++ toString S.retention_days ++
      "; must have magnitude <= 999999999")))
  else do
    let cutoff ← (current.add (-(S.retention_days * dayMicros))).mapError .other
    s.store.list_before W.library cutoff

def purge_expired (now : DateTime) (s : State S.backend) :
    Except Failure (List AttachmentRecord) × State S.backend :=
  if S.retention_days = 0 then (.ok [], s)
  else match S.expired W now s with
    | .error e => (.error e, s)
    | .ok records => S.purge records [] s

end AttachmentService

/-- A call of the service by an identity, or by the maintenance job. -/
inductive Call
  | upload (identity : IdentityContext) (filename content_type : String) (data : Bytes)
      (oracle : Oracle)
  | list (identity : IdentityContext)
  | metadata (identity : IdentityContext) (attachment_id : String)
  | read_content (identity : IdentityContext) (attachment_id : String)
  | delete (identity : IdentityContext) (attachment_id : String)
  | purge_expired (now : DateTime)

inductive Answer
  | record (r : AttachmentRecord)
  | records (rs : List AttachmentRecord)
  | content (r : AttachmentRecord) (data : Bytes)
  deriving DecidableEq

section Run

variable (S : AttachmentService) (W : World)

def perform : Call → State S.backend → Except Failure Answer × State S.backend
  | .upload i filename content_type data oracle, s =>
    (S.upload W i filename content_type data oracle s).map (·.map .record) id
  | .list i, s => ((S.list i s).map .records, s)
  | .metadata i attachment_id, s => ((S.metadata i attachment_id s).map .record, s)
  | .read_content i attachment_id, s =>
    ((S.read_content W i attachment_id s).map fun x => .content x.1 x.2, s)
  | .delete i attachment_id, s => (S.delete i attachment_id s).map (·.map .record) id
  | .purge_expired now, s => (S.purge_expired W now s).map (·.map .records) id

def after (calls : List Call) (s : State S.backend) : State S.backend :=
  calls.foldl (fun s c => (perform S W c s).2) s

/-- The calls with what they returned. -/
def trace : List Call → State S.backend → List (Call × Except Failure Answer)
  | [], _ => []
  | c :: calls, s => (c, (perform S W c s).1) :: trace calls (perform S W c s).2

end Run

end EnterpriseCopilot.Attachment
