import Mathlib.Data.Bool.AllAny
import Mathlib.Logic.Function.Basic
import EnterpriseCopilot.Python.Text

/-! Blob storage under one root directory. -/

namespace EnterpriseCopilot.Attachment

open EnterpriseCopilot.Python

/-- What the calls raise: the errors of the two layers, or another exception. -/
inductive Failure
  | blobStorageError (msg : String)
  | attachmentError (msg : String)
  | attachmentNotFound (msg : String)
  | other (e : PyError)
  deriving DecidableEq, Repr

def safeKeyChar (c : Char) : Bool := c.isAlphanum || c ∈ ['.', '_', '/', '-']

/-- `normalized.split("/")`. -/
abbrev Path := List (List Char)

def _validate_key (key : String) : Except Failure (List Char) :=
  let normalized := key.toList.map fun c => if c = '\\' then '/' else c
  if !(normalized.all safeKeyChar && 1 ≤ normalized.length && normalized.length ≤ 512) ||
      normalized.head? = some '/' ||
      (normalized.splitOn '/').any (fun part => part ∈ [[], ['.'], ['.', '.']]) then
    .error (.blobStorageError "storage key is invalid")
  else .ok normalized

/-- The regular files under the root.  There are no links, and directories are made when they
are needed. -/
abbrev Files := Path → Option Bytes

namespace Files

variable (files : Files)

/-- A key without `..` stays under the root. -/
def _path (key : String) : Except Failure Path := do
  return (← _validate_key key).splitOn '/'

/-- The temporary file takes the place of the target in one step. -/
def put (key : String) (data : Bytes) : Except Failure Files := do
  let target ← _path key
  return Function.update files target (some data)

def read (key : String) (max_bytes : Nat) : Except Failure Bytes := do
  let path ← _path key
  match files path with
  | none => throw (.blobStorageError "filesystem blob is unavailable")
  | some data =>
    if max_bytes < data.length then
      throw (.blobStorageError "blob exceeds the configured read limit")
    else return data

def delete (key : String) : Except Failure Files := do
  let path ← _path key
  return Function.update files path none

variable {files}

theorem _path_error {key : String} {e : Failure} (h : Files._path key = .error e) :
    ∃ msg, e = .blobStorageError msg := by
  obtain h | ⟨_, _, h⟩ := bind_error h
  · unfold _validate_key at h
    dsimp only at h
    split at h
    · cases h
      exact ⟨_, rfl⟩
    · cases h
  · cases h

theorem put_error {key : String} {data : Bytes} {e : Failure}
    (h : files.put key data = .error e) : ∃ msg, e = .blobStorageError msg := by
  obtain h | ⟨_, _, h⟩ := bind_error h
  · exact _path_error h
  · cases h

theorem delete_error {key : String} {e : Failure}
    (h : files.delete key = .error e) : ∃ msg, e = .blobStorageError msg := by
  obtain h | ⟨_, _, h⟩ := bind_error h
  · exact _path_error h
  · cases h

end Files

/-- The key that is made for an attachment. -/
def storageKey (scope_key : Hex 64) (id : Hex 32) (extension : String) : String :=
  String.ofList (scope_key.chars ++ '/' :: (id.chars ++ extension.toList))

section Keys

variable {n : Nat} (scope_key : Hex 64) (id : Hex 32) {extension : String}

theorem hex_ne_slash (h : Hex n) {c : Char} (hc : c ∈ h.chars) :
    safeKeyChar c = true ∧ c ≠ '/' ∧ c ≠ '\\' ∧ c ≠ '.' := by
  have hall : ∀ c ∈ "0123456789abcdef".toList,
      safeKeyChar c = true ∧ c ≠ '/' ∧ c ≠ '\\' ∧ c ≠ '.' :=
    List.all_iff_forall_prop.mp (by decide)
  exact hall c (h.digits c hc)

/-- A part that starts with a digit names a file or a directory of its own. -/
theorem hex_append_ne (h : Hex n) (hn : n ≠ 0) (rest : List Char) :
    h.chars ++ rest ∉ [[], ['.'], ['.', '.']] := by
  obtain ⟨c, cs, hcs⟩ := List.exists_cons_of_ne_nil (h.chars_ne_nil hn)
  have hc : c ≠ '.' := (hex_ne_slash h (by rw [hcs]; exact .head _)).2.2.2
  simp [hcs, hc]

/-- What an extension looks like. -/
structure Suffix (extension : String) : Prop where
  safe : ∀ c ∈ extension.toList, safeKeyChar c = true ∧ c ≠ '/' ∧ c ≠ '\\'
  short : extension.length ≤ 5

theorem storageKey_split (hext : Suffix extension) :
    (storageKey scope_key id extension).toList.splitOn '/' =
      [scope_key.chars, id.chars ++ extension.toList] := by
  have h₁ : '/' ∉ scope_key.chars := fun h => (hex_ne_slash scope_key h).2.1 rfl
  have h₂ : '/' ∉ id.chars ++ extension.toList := by
    intro h
    rcases List.mem_append.mp h with h | h
    · exact (hex_ne_slash id h).2.1 rfl
    · exact (hext.safe _ h).2.1 rfl
  rw [storageKey, String.toList_ofList, List.splitOn_append_cons_self_of_not_mem h₁,
    List.splitOn_eq_singleton h₂]

/-- Every generated key is accepted. -/
theorem _path_storageKey (hext : Suffix extension) :
    Files._path (storageKey scope_key id extension) =
      .ok [scope_key.chars, id.chars ++ extension.toList] := by
  have hsplit := storageKey_split scope_key id hext
  have hchars : ∀ c ∈ (storageKey scope_key id extension).toList,
      safeKeyChar c = true ∧ c ≠ '\\' := by
    intro c hc
    rw [storageKey, String.toList_ofList, List.mem_append, List.mem_cons, List.mem_append] at hc
    rcases hc with h | rfl | h | h
    · exact ⟨(hex_ne_slash scope_key h).1, (hex_ne_slash scope_key h).2.2.1⟩
    · decide
    · exact ⟨(hex_ne_slash id h).1, (hex_ne_slash id h).2.2.1⟩
    · exact ⟨(hext.safe c h).1, (hext.safe c h).2.2⟩
  generalize hk : storageKey scope_key id extension = key at hsplit hchars ⊢
  have hmap : key.toList.map (fun c => if c = '\\' then '/' else c) = key.toList := by
    refine (List.map_congr_left fun c hc => ?_).trans (List.map_id _)
    simp [(hchars c hc).2]
  have hall : key.toList.all safeKeyChar = true :=
    List.all_eq_true.mpr fun c hc => (hchars c hc).1
  have hlen : 1 ≤ key.toList.length ∧ key.toList.length ≤ 512 := by
    have := hext.short
    rw [← hk, storageKey, String.toList_ofList]
    simp only [List.length_append, List.length_cons, scope_key.length, id.length,
      String.length_toList]
    omega
  have hhead : key.toList.head? ≠ some '/' := by
    rw [← hk, storageKey, String.toList_ofList,
      List.head?_append_of_ne_nil _ (scope_key.chars_ne_nil (by decide))]
    exact fun h => (hex_ne_slash scope_key (List.mem_of_head? h)).2.1 rfl
  have hparts : (key.toList.splitOn '/').any
      (fun part => part ∈ [[], ['.'], ['.', '.']]) = false := by
    have h₁ := hex_append_ne scope_key (by decide) []
    have h₂ := hex_append_ne id (by decide) extension.toList
    rw [List.append_nil] at h₁
    rw [hsplit, List.any_cons, List.any_cons, decide_eq_false h₁, decide_eq_false h₂]
    rfl
  unfold Files._path _validate_key
  rw [hmap]
  simp only [hall, hlen.1, hlen.2, hhead, hparts]
  rw [← hsplit]
  rfl

/-- The paths of two attachments differ when their ids do. -/
theorem id_of_path {scope_key' : Hex 64} {id' : Hex 32} {extension' : String}
    (h : [scope_key.chars, id.chars ++ extension.toList] =
      [scope_key'.chars, id'.chars ++ extension'.toList]) : id = id' := by
  have hname := (List.cons.inj (List.cons.inj h).2).1
  exact Hex.ext (List.append_inj hname (id.length.trans id'.length.symm)).1

end Keys

end EnterpriseCopilot.Attachment
