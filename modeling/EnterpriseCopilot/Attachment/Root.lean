import EnterpriseCopilot.Attachment.Shelf
import EnterpriseCopilot.Python.Utf8

/-! The paths of blob keys under the root of the store. -/

namespace EnterpriseCopilot.Attachment

open EnterpriseCopilot.Lib EnterpriseCopilot.Python EnterpriseCopilot.Runtime

/-- Where symbolic links are, and the paths that are written in them. -/
abbrev Links := Path → Option (List Char)

/-- The parts of a path as `pathlib` keeps them. -/
def parts (text : List Char) : Path := (text.splitOn '/').filter fun part => part ≠ [] && part ≠ ['.']

/-- The names of a path that is resolved. -/
def Proper (name : List Char) : Prop := name ≠ [] ∧ name ≠ ['.'] ∧ name ≠ ['.', '.'] ∧ '/' ∉ name

/-- The path of `rest` from a directory on.  A link is read from where it stands; after `fuel` of them the links
are taken to run in a circle. -/
def realpath (links : Links) : Nat → Path → Path → Option Path
  | _, path, [] => some path
  | fuel, path, name :: rest =>
    if name = ['.', '.'] then realpath links fuel path.dropLast rest
    else match links (path ++ [name]), fuel with
      | none, fuel => realpath links fuel (path ++ [name]) rest
      | some _, 0 => none
      | some target, fuel + 1 => do
        let path ← realpath links fuel (if target.head? = some '/' then [] else path) (parts target)
        realpath links fuel path rest
termination_by fuel _ rest => (fuel, rest.length)

/-- The root is resolved when the store is made. -/
structure FilesystemBlobStore where
  root : Path
  proper : ∀ name ∈ root, Proper name

namespace FilesystemBlobStore

def _path (store : FilesystemBlobStore) (links : Links) (fuel : Nat) (key : String) : Except Failure Path := do
  let normalized ← _validate_key key
  match realpath links fuel [] (if normalized.head? = some '/' then parts normalized else store.root ++ parts normalized) with
  | none => throw (.other (.runtimeError "Symlink loop"))
  | some candidate =>
    if store.root <+: candidate then return candidate
    else throw (.blobStorageError "storage key escaped configured root")

/-- No link leads to the root or lies below it. -/
def Unlinked (store : FilesystemBlobStore) (links : Links) : Prop :=
  ∀ path, path <+: store.root ∨ store.root <+: path → links path = none

end FilesystemBlobStore

section Keys

variable {store : FilesystemBlobStore} {links : Links} {fuel : Nat} {key key' : String} {path : Path}

/-- `key.replace("\\", "/")`. -/
def slashed (key : String) : List Char := key.toList.map fun c => if c = '\\' then '/' else c

/-- What lies between the slashes and backslashes of a key. -/
def separated (key : String) : Path := key.toList.splitOnP fun c => c == '/' || c == '\\'

theorem splitOn_slashed (key : String) : (slashed key).splitOn '/' = separated key := by
  unfold slashed separated
  induction key.toList with
  | nil => rfl
  | cons c cs ih =>
    rw [List.map_cons, List.splitOn_cons_eq_if_modifyHead, List.splitOnP_cons_eq_if_modifyHead, ih]
    by_cases hslash : c = '/'
    · simp [hslash]
    · by_cases hback : c = '\\'
      · simp [hback]
      · simp [hslash, hback]

/-- No part holds a separator. -/
theorem not_mem_part {a : Char} {text part : List Char} (h : part ∈ text.splitOn a) : a ∉ part := by
  induction text generalizing part with
  | nil =>
    rw [List.splitOn_nil, List.mem_singleton] at h
    rw [h]
    exact List.not_mem_nil
  | cons c cs ih =>
    rw [List.splitOn_cons_eq_if_modifyHead] at h
    split at h
    · rcases List.mem_cons.mp h with rfl | h
      · exact List.not_mem_nil
      · exact ih h
    · rename_i hc
      obtain ⟨head, rest, hsplit⟩ := List.exists_cons_of_ne_nil (List.splitOn_ne_nil a cs)
      rw [hsplit] at h ih
      rcases List.mem_cons.mp h with rfl | h
      · rw [List.mem_cons, not_or]
        exact ⟨fun heq => hc (by simp [heq]), ih (.head _)⟩
      · exact ih (.tail _ h)

/-- What `_validate_key` returns, and why it may be joined to a root. -/
theorem validate_ok {normalized : List Char} (h : _validate_key key = .ok normalized) :
    normalized = slashed key ∧ normalized.head? ≠ some '/' ∧ ∀ part ∈ normalized.splitOn '/', Proper part := by
  unfold _validate_key at h
  dsimp only at h
  split at h
  · cases h
  · rename_i hgood
    cases h
    simp only [Bool.or_eq_true, Bool.not_eq_true', decide_eq_true_eq, not_or, List.any_eq_true, not_exists,
      not_and] at hgood
    refine ⟨rfl, hgood.1.2, fun part hpart => ?_⟩
    have hnot := hgood.2 part hpart
    simp only [List.mem_cons, List.not_mem_nil, or_false, not_or] at hnot
    exact ⟨hnot.1, hnot.2.1, hnot.2.2, not_mem_part hpart⟩

theorem validate_error {e : Failure} (h : _validate_key key = .error e) : ∃ msg, e = .blobStorageError msg := by
  unfold _validate_key at h
  dsimp only at h
  split at h
  · cases h
    exact ⟨_, rfl⟩
  · cases h

theorem parts_of_proper {text : List Char} (h : ∀ part ∈ text.splitOn '/', Proper part) :
    parts text = text.splitOn '/' := by
  refine List.filter_eq_self.mpr fun part hpart => ?_
  simp [(h part hpart).1, (h part hpart).2.1]

/-- Without links, names lead where they say. -/
theorem realpath_unlinked {rest : Path} (hproper : ∀ name ∈ rest, name ≠ ['.', '.'])
    (hlinks : ∀ tail, tail ≠ [] → tail <+: rest → links (path ++ tail) = none) :
    realpath links fuel path rest = some (path ++ rest) := by
  induction rest generalizing path with
  | nil => rw [realpath, List.append_nil]
  | cons name rest ih =>
    obtain ⟨hname, hrest⟩ := List.forall_mem_cons.mp hproper
    have hhere : links (path ++ [name]) = none := hlinks [name] (by simp) (by simp)
    rw [realpath, if_neg hname, ih hrest fun tail hne htail => ?_]
    · rw [List.append_assoc, List.singleton_append]
    · rw [List.append_assoc, List.singleton_append]
      exact hlinks (name :: tail) (by simp) (List.cons_prefix_cons.mpr ⟨rfl, htail⟩)
    · exact hhere

/-- In a root without links, a key that is valid names what its parts say. -/
theorem path_of_valid (h : store.Unlinked links) {normalized : List Char} (hkey : _validate_key key = .ok normalized) :
    store._path links fuel key = .ok (store.root ++ separated key) ∧ ∀ name ∈ separated key, Proper name := by
  obtain ⟨rfl, hhead, hproper⟩ := validate_ok hkey
  have hparts := parts_of_proper hproper
  rw [splitOn_slashed] at hparts hproper
  have hall : ∀ name ∈ store.root ++ separated key, name ≠ ['.', '.'] := by
    intro name hname
    rcases List.mem_append.mp hname with hname | hname
    · exact (store.proper name hname).2.2.1
    · exact (hproper name hname).2.2.1
  have hreal : realpath links fuel [] (store.root ++ separated key) = some (store.root ++ separated key) := by
    refine realpath_unlinked hall fun tail _ htail => h _ ?_
    rw [List.nil_append]
    exact List.prefix_or_prefix_of_prefix htail (List.prefix_append _ _)
  refine ⟨?_, hproper⟩
  unfold FilesystemBlobStore._path
  rw [hkey, ok_bind, if_neg hhead, hparts, hreal]
  exact if_pos (List.prefix_append _ _)

theorem path_unlinked (fuel : Nat) (key : String) (h : store.Unlinked links) :
    (∃ msg, store._path links fuel key = .error (.blobStorageError msg)) ∨
      store._path links fuel key = .ok (store.root ++ separated key) ∧ ∀ name ∈ separated key, Proper name := by
  cases hkey : _validate_key key with
  | error e =>
    obtain ⟨msg, rfl⟩ := validate_error hkey
    refine .inl ⟨msg, ?_⟩
    unfold FilesystemBlobStore._path
    rw [hkey]
    rfl
  | ok normalized => exact .inr (path_of_valid h hkey)

/-- Wherever the links lead, what is accepted stays in the root. -/
theorem path_in_root (h : store._path links fuel key = .ok path) : store.root <+: path := by
  obtain ⟨normalized, -, h⟩ := bind_ok h
  split at h
  · cases h
  · split at h
    · rename_i hroot
      cases h
      exact hroot
    · cases h

theorem slashed_of_separated (h : separated key = separated key') : slashed key = slashed key' := by
  rw [← splitOn_slashed, ← splitOn_slashed] at h
  calc
    slashed key = ['/'].intercalate ((slashed key).splitOn '/') := (List.intercalate_splitOn '/').symm
    _ = ['/'].intercalate ((slashed key').splitOn '/') := by rw [h]
    _ = slashed key' := List.intercalate_splitOn '/'

/-- Keys that are accepted name one file only if they are spelled alike, up to the slashes. -/
theorem slashed_of_path (h : store.Unlinked links) (hkey : store._path links fuel key = .ok path)
    (hkey' : store._path links fuel key' = .ok path) : slashed key = slashed key' := by
  obtain ⟨msg, herror⟩ | ⟨hpath, -⟩ := path_unlinked fuel key h
  · cases hkey.symm.trans herror
  obtain ⟨msg, herror⟩ | ⟨hpath', -⟩ := path_unlinked fuel key' h
  · cases hkey'.symm.trans herror
  have hsame := Except.ok.inj (hpath.symm.trans (hkey.trans (hkey'.symm.trans hpath')))
  exact slashed_of_separated (List.append_cancel_left hsame)

end Keys

/-- The keys that uploads of an identity make. -/
def Made (W : World) (i : IdentityContext) (key : String) : Prop :=
  ∃ (S : AttachmentService) (filename content_type : String) (data : Bytes) (oracle : Oracle)
    (image_format extension : String) (width height : Int) (drawn : Nat),
    S.check i filename content_type data oracle = .ok (image_format, extension, width, height) ∧
      key = storageKey (AttachmentService._scope_key W i) (W.uuid4 drawn) extension

/-- The digests of two scopes are told apart. -/
def Apart (W : World) (i j : IdentityContext) : Prop :=
  AttachmentService._scope_key W i = AttachmentService._scope_key W j →
    utf8 (i.workspace_id ++ "\x00" ++ i.tenant_id) = utf8 (j.workspace_id ++ "\x00" ++ j.tenant_id)

/-- Keys stay below the root, name their files alone, and keep scopes in directories of their own. -/
structure Confined (store : FilesystemBlobStore) (links : Links) (fuel : Nat) : Prop where
  below : ∀ key, (∃ msg, store._path links fuel key = .error (.blobStorageError msg)) ∨
    store._path links fuel key = .ok (store.root ++ separated key) ∧ separated key ≠ [] ∧
      ∀ name ∈ separated key, Proper name
  distinct : ∀ key key' path, store._path links fuel key = .ok path → store._path links fuel key' = .ok path →
    slashed key = slashed key'
  accepted : ∀ W i key, Made W i key → ∃ path, store._path links fuel key = .ok path
  separate : ∀ W i j key key' path path', Made W i key → Made W j key' → Apart W i j →
    (i.workspace_id, i.tenant_id) ≠ (j.workspace_id, j.tenant_id) → store._path links fuel key = .ok path →
    store._path links fuel key' = .ok path' → path.dropLast ≠ path'.dropLast

section Generated

variable {S : AttachmentService} {W : World} {store : FilesystemBlobStore} {links : Links} {fuel : Nat}
  {i j : IdentityContext} {filename content_type : String} {data : Bytes} {oracle : Oracle}

/-- The path of a key that an upload makes. -/
theorem path_generated (h : store.Unlinked links) {scope_key : Hex 64} {id : Hex 32} {extension : String}
    (hext : Suffix extension) : store._path links fuel (storageKey scope_key id extension) =
      .ok (store.root ++ [scope_key.chars, id.chars ++ extension.toList]) := by
  have hvalid := _path_storageKey scope_key id hext
  obtain ⟨normalized, hnormalized, hparts⟩ := bind_ok hvalid
  obtain ⟨rfl, -, -⟩ := validate_ok hnormalized
  have hseparated := Except.ok.inj hparts
  rw [splitOn_slashed] at hseparated
  rw [(path_of_valid h hnormalized).1, hseparated]

/-- An identity that is accepted has no NUL in it. -/
theorem no_nul (h : _validate_identity i = .ok ()) :
    '\x00' ∉ i.workspace_id.toList ∧ '\x00' ∉ i.tenant_id.toList := by
  have safe : ∀ {value}, safeIdentity value = true → '\x00' ∉ value.toList := by
    intro value hsafe hmem
    simp only [safeIdentity, Bool.and_eq_true, List.all_eq_true] at hsafe
    exact absurd (hsafe.1.1 _ hmem) (by decide)
  unfold _validate_identity at h
  split at h
  · cases h
  split at h
  · cases h
  rename_i hw
  split at h
  · cases h
  rename_i ht
  exact ⟨safe (by simpa using hw), safe (by simpa using ht)⟩

/-- The separator tells the two names of a scope apart. -/
theorem scope_injective (hi : _validate_identity i = .ok ())
    (h : utf8 (i.workspace_id ++ "\x00" ++ i.tenant_id) = utf8 (j.workspace_id ++ "\x00" ++ j.tenant_id)) :
    i.workspace_id = j.workspace_id ∧ i.tenant_id = j.tenant_id := by
  have htext := Option.some.inj ((decode_eq_some.mpr rfl).symm.trans (decode_eq_some.mpr h.symm))
  have hchars : i.workspace_id.toList ++ '\x00' :: i.tenant_id.toList =
      j.workspace_id.toList ++ '\x00' :: j.tenant_id.toList := by
    simpa using congrArg String.toList htext
  obtain ⟨hw, -, ht⟩ := (List.append_cons_inj_of_notMem (no_nul hi).1 (no_nul hi).2).mp hchars
  exact ⟨String.toList_injective hw, String.toList_injective ht⟩

/-- A key that an upload makes lies in the directory of the scope. -/
theorem Made.path {key : String} (h : Made W i key) (hlinks : store.Unlinked links) (fuel : Nat) :
    _validate_identity i = .ok () ∧ ∃ name,
      store._path links fuel key = .ok (store.root ++ [(AttachmentService._scope_key W i).chars, name]) := by
  obtain ⟨S, filename, content_type, data, oracle, image_format, extension, width, height, drawn, hcheck, rfl⟩ := h
  obtain ⟨hvalid, -, hext, -⟩ := check_ok hcheck
  exact ⟨hvalid, _, path_generated hlinks hext⟩

theorem keys_confined (h : store.Unlinked links) : Confined store links fuel where
  below key := by
    obtain herror | ⟨hpath, hproper⟩ := path_unlinked fuel key h
    · exact .inl herror
    · exact .inr ⟨hpath, List.splitOnP_ne_nil _ _, hproper⟩
  distinct key key' path := slashed_of_path h
  accepted W i key hmade := by
    obtain ⟨-, name, hpath⟩ := hmade.path h fuel
    exact ⟨_, hpath⟩
  separate W i j key key' path path' hmade hmade' hapart hne hpath hpath' := by
    obtain ⟨hi, name, hkey⟩ := hmade.path h fuel
    obtain ⟨hj, name', hkey'⟩ := hmade'.path h fuel
    cases hpath.symm.trans hkey
    cases hpath'.symm.trans hkey'
    intro hsame
    have hdirectory : store.root ++ [(AttachmentService._scope_key W i).chars] =
        store.root ++ [(AttachmentService._scope_key W j).chars] := by
      simpa [List.dropLast_append] using hsame
    have hscope := Hex.ext (List.singleton_inj.mp (List.append_cancel_left hdirectory))
    obtain ⟨hw, ht⟩ := scope_injective hi (hapart hscope)
    exact hne (by rw [hw, ht])

/-- What an upload stores is found in the directory of its scope. -/
theorem upload_path (h : store.Unlinked links) {s t : State S.backend} {r : AttachmentRecord}
    (hupload : S.upload W i filename content_type data oracle s = (.ok r, t)) : ∃ name,
      store._path links fuel r.storage_path = .ok (store.root ++ [(AttachmentService._scope_key W i).chars, name]) := by
  have hmade : Made W i r.storage_path := by
    unfold AttachmentService.upload at hupload
    split at hupload
    · cases hupload
    rename_i hcheck
    dsimp only at hupload
    split at hupload
    · cases hupload
    split at hupload
    · cases hupload
      exact ⟨S, filename, content_type, data, oracle, _, _, _, _, s.drawn, hcheck, rfl⟩
    · split at hupload <;> cases hupload
  exact (hmade.path h fuel).2

end Generated

section Sample

theorem srv_proper : ∀ name ∈ ["srv".toList], Proper name := by
  intro name hname
  rw [List.mem_singleton.mp hname]
  exact ⟨by decide, by decide, by decide, by decide⟩

def srv : FilesystemBlobStore := ⟨["srv".toList], srv_proper⟩

theorem keys_confined_sample : Confined srv (fun _ => none) 40 ∧
    srv.root ++ separated "a\\b/c.png" = ["srv".toList, "a".toList, "b".toList, "c.png".toList] :=
  ⟨keys_confined fun _ _ => rfl, by decide +kernel⟩

end Sample

end EnterpriseCopilot.Attachment
