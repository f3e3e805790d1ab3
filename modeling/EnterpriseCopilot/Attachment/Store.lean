import Mathlib.Data.List.Sort
import EnterpriseCopilot.Lib.Table
import EnterpriseCopilot.Attachment.Blob
import EnterpriseCopilot.Python.DateTime
import EnterpriseCopilot.Runtime.Models

/-! Attachment metadata, in a dictionary or in one of two tables. -/

namespace EnterpriseCopilot.Attachment

open EnterpriseCopilot.Lib EnterpriseCopilot.Python EnterpriseCopilot.Runtime

structure AttachmentRecord where
  id : String
  workspace_id : String
  tenant_id : String
  user_id : String
  filename : String
  content_type : String
  image_format : String
  size_bytes : Nat
  sha256 : String
  width : Int
  height : Int
  storage_path : String
  created_at : String
  deriving DecidableEq, Repr

/-- What the stores compare with the caller. -/
structure Scope where
  workspace_id : String
  tenant_id : String
  user_id : String
  deriving DecidableEq, Repr

def AttachmentRecord.scope (r : AttachmentRecord) : Scope := ⟨r.workspace_id, r.tenant_id, r.user_id⟩

def Scope.of (i : IdentityContext) : Scope := ⟨i.workspace_id, i.tenant_id, i.user_id⟩

/-- PostgreSQL compares texts by the collation of the database. -/
inductive Backend
  | memory
  | sqlite
  | postgres (lt : String → String → Bool)

namespace Backend

/-- The keys of the dictionary, or the primary key and `storage_path TEXT NOT NULL UNIQUE`. -/
def Clash (b : Backend) (r s : AttachmentRecord) : Prop :=
  match b with
  | memory => r.id = s.id
  | _ => r.id = s.id ∨ r.storage_path = s.storage_path

instance (b : Backend) : DecidableRel b.Clash := fun r s =>
  match b with
  | memory => inferInstanceAs (Decidable (r.id = s.id))
  | sqlite => inferInstanceAs (Decidable (r.id = s.id ∨ r.storage_path = s.storage_path))
  | postgres _ => inferInstanceAs (Decidable (r.id = s.id ∨ r.storage_path = s.storage_path))

/-- The integers that the columns take. -/
def fits (b : Backend) (n : Int) : Bool :=
  match b with
  | memory => true
  | sqlite => -2 ^ 63 ≤ n && n < 2 ^ 63
  | postgres _ => -2 ^ 31 ≤ n && n < 2 ^ 31

/-- `<` on a text column. -/
def textLt (b : Backend) (s t : String) : Bool :=
  match b with
  | postgres lt => lt s t
  | _ => decide (s < t)

theorem clash_of_id {b : Backend} {r s : AttachmentRecord} (h : r.id = s.id) : b.Clash r s := by
  cases b with
  | memory => exact h
  | _ => exact .inl h

theorem clash_symm (b : Backend) (r s : AttachmentRecord) (h : b.Clash r s) : b.Clash s r := by
  cases b with
  | memory => exact h.symm
  | _ => exact h.imp Eq.symm Eq.symm

end Backend

abbrev Store (b : Backend) := Table AttachmentRecord b.Clash

def _parse_timestamp (L : Library) (value : String) : Except Failure DateTime :=
  match L.fromisoformat value with
  | .error _ => .error (.attachmentError "attachment timestamp is invalid")
  | .ok parsed =>
    match (parsed.orZone .utc).astimezone .utc with
    | .error e => .error (.other e)
    | .ok t => .ok t

namespace Store

variable {b : Backend} (store : Store b)

/-- What `create` raises for a number that a column does not take. -/
def outOfRange : Backend → Failure
  | .postgres _ => .other (.exception "NumericValueOutOfRange")
  | _ => .other (.overflowError "Python int too large to convert to SQLite INTEGER")

/-- What `create` raises for an id that is taken. -/
def duplicate : Backend → Failure
  | .memory => .attachmentError "attachment id already exists"
  | .sqlite => .other (.exception "IntegrityError")
  | .postgres _ => .other (.exception "UniqueViolation")

def create (record : AttachmentRecord) : Except Failure (Store b) :=
  if b.fits record.size_bytes && b.fits record.width && b.fits record.height then
    match store.insert? record with
    | some store' => .ok store'
    | none => .error (duplicate b)
  else .error (outOfRange b)

def get (attachment_id : String) (scope : Scope) : Option AttachmentRecord :=
  store.rows.find? fun r => r.id = attachment_id && r.scope = scope

/-- `ORDER BY created_at DESC` in the tables. -/
def list (scope : Scope) : List AttachmentRecord :=
  let found := store.rows.filter fun r => r.scope = scope
  match b with
  | .memory => found
  | _ => found.insertionSort fun r s => b.textLt s.created_at r.created_at

/-- Only PostgreSQL names the scope again in its `DELETE`. -/
def delete (attachment_id : String) (scope : Scope) : Option AttachmentRecord × Store b :=
  match store.get attachment_id scope with
  | none => (none, store)
  | some record => (some record, match b with
    | .postgres _ => Table.filter store fun r => !(r.id = attachment_id && r.scope = scope)
    | _ => Table.filter store fun r => r.id ≠ attachment_id)

def list_before (L : Library) (before : DateTime) : Except Failure (List AttachmentRecord) := do
  let cutoff ← (before.astimezone .utc).mapError .other
  match b with
  | .memory => do
    let times ← store.rows.mapM fun r => _parse_timestamp L r.created_at
    return ((store.rows.zip times).filter fun x => x.2.blt cutoff).map Prod.fst
  | _ =>
    let found := store.rows.filter fun r => b.textLt r.created_at cutoff.isoformat
    return found.insertionSort fun r s => b.textLt r.created_at s.created_at

variable {store}

theorem eq_of_id {r s : AttachmentRecord} (hr : r ∈ store.rows) (hs : s ∈ store.rows)
    (h : r.id = s.id) : r = s :=
  Table.eq_of_clash b.clash_symm hr hs (Backend.clash_of_id h)

theorem get_eq_some {id : String} {scope : Scope} {r : AttachmentRecord} :
    store.get id scope = some r ↔ r ∈ store.rows ∧ r.id = id ∧ r.scope = scope := by
  constructor
  · intro h
    have hp := List.find?_some h
    simp only [Bool.and_eq_true, decide_eq_true_eq] at hp
    exact ⟨List.mem_of_find?_eq_some h, hp.1, hp.2⟩
  · rintro ⟨hr, rfl, rfl⟩
    have hsome : (store.get r.id r.scope).isSome = true :=
      List.find?_isSome.mpr ⟨r, hr, by simp⟩
    obtain ⟨s, hs⟩ := Option.isSome_iff_exists.mp hsome
    have hp := List.find?_some hs
    simp only [Bool.and_eq_true, decide_eq_true_eq] at hp
    rw [hs, eq_of_id (List.mem_of_find?_eq_some hs) hr hp.1]

theorem get_eq_none {id : String} {scope : Scope} :
    store.get id scope = none ↔ ∀ r ∈ store.rows, r.id = id → r.scope ≠ scope := by
  simp [get, List.find?_eq_none]

/-- The record with the id goes if it is in the scope, and no other. -/
theorem delete_rows (id : String) (scope : Scope) :
    (store.delete id scope).2.rows =
      store.rows.filter fun r => !(r.id = id && r.scope = scope) := by
  unfold delete
  cases hget : store.get id scope with
  | none =>
    rw [get_eq_none] at hget
    refine (List.filter_eq_self.mpr fun r hr => ?_).symm
    by_cases hid : r.id = id
    · simp [hget r hr hid]
    · simp [hid]
  | some record =>
    obtain ⟨hmem, hid, hscope⟩ := get_eq_some.mp hget
    have hone : store.rows.filter (fun r => r.id ≠ id) =
        store.rows.filter fun r => !(r.id = id && r.scope = scope) := by
      refine List.filter_congr fun r hr => ?_
      by_cases hr' : r.id = id
      · rw [eq_of_id hr hmem (hr'.trans hid.symm)]
        simp [hid, hscope]
      · simp [hr']
    cases b with
    | postgres lt => rfl
    | memory => exact hone
    | sqlite => exact hone

/-- A record goes alone. -/
theorem delete_rows_of_mem {r : AttachmentRecord} (hr : r ∈ store.rows) :
    (store.delete r.id r.scope).2.rows = store.rows.filter (· ≠ r) := by
  rw [delete_rows]
  refine List.filter_congr fun x hx => ?_
  by_cases heq : x = r
  · simp [heq]
  · have hid : x.id ≠ r.id := fun hid => heq (eq_of_id hx hr hid)
    simp [heq, hid]

theorem delete_fst (id : String) (scope : Scope) :
    (store.delete id scope).1 = store.get id scope := by
  unfold delete
  cases store.get id scope <;> rfl

theorem ids_nodup : (store.rows.map AttachmentRecord.id).Nodup :=
  List.pairwise_map.mpr (store.apart.imp fun hab hid => hab (Backend.clash_of_id hid))

theorem map_fst_zip_sublist {α β : Type} (xs : List α) (ys : List β) :
    ((xs.zip ys).map Prod.fst).Sublist xs := by
  induction xs generalizing ys with
  | nil => simp
  | cons x xs ih =>
    cases ys with
    | nil => simp
    | cons y ys => simpa using (ih ys).cons_cons x

/-- The records from before a time are records of the store, each once. -/
theorem list_before_subperm {L : Library} {before : DateTime} {found : List AttachmentRecord}
    (h : store.list_before L before = .ok found) : found.Subperm store.rows := by
  obtain ⟨cutoff, _, h⟩ := bind_ok h
  cases b with
  | memory =>
    obtain ⟨times, _, h⟩ := bind_ok h
    cases h
    have hsub := List.filter_sublist (p := fun x : AttachmentRecord × DateTime => x.2.blt cutoff)
      (l := store.rows.zip times)
    exact ((hsub.map Prod.fst).trans (map_fst_zip_sublist _ _)).subperm
  | sqlite =>
    cases h
    exact (List.perm_insertionSort _ _).subperm.trans List.filter_sublist.subperm
  | postgres lt =>
    cases h
    exact (List.perm_insertionSort _ _).subperm.trans List.filter_sublist.subperm

theorem list_perm (scope : Scope) :
    (store.list scope).Perm (store.rows.filter fun r => r.scope = scope) := by
  unfold list
  cases b with
  | memory => exact .refl _
  | sqlite => exact List.perm_insertionSort _ _
  | postgres lt => exact List.perm_insertionSort _ _

theorem mem_list {scope : Scope} {r : AttachmentRecord} :
    r ∈ store.list scope ↔ r ∈ store.rows ∧ r.scope = scope := by
  rw [(list_perm scope).mem_iff, List.mem_filter, decide_eq_true_eq]

theorem count_list {r : AttachmentRecord} (hr : r ∈ store.rows) :
    (store.list r.scope).count r = 1 := by
  rw [(list_perm r.scope).count_eq, List.count_filter (by simp)]
  exact List.count_eq_one_of_mem (List.Nodup.of_map _ ids_nodup) hr

theorem create_ok {store' : Store b} {record : AttachmentRecord}
    (h : store.create record = .ok store') :
    store'.rows = store.rows ++ [record] := by
  unfold create at h
  split at h
  · split at h
    · rename_i hins
      cases h
      exact (Table.insert?_eq_some.mp hins).2
    · cases h
  · cases h

theorem create_error {r : AttachmentRecord} {e : Failure}
    (h : store.create r = .error e) : ∀ msg, e ≠ .blobStorageError msg := by
  unfold create at h
  split at h
  · split at h
    · cases h
    · cases h
      cases b <;> simp [duplicate]
  · cases h
    cases b <;> simp [outOfRange]

end Store

end EnterpriseCopilot.Attachment
