import EnterpriseCopilot.Attachment.Service

/-! The two stores of the service hold one shelf of records with their contents. -/

namespace EnterpriseCopilot.Attachment

open EnterpriseCopilot.Lib EnterpriseCopilot.Python EnterpriseCopilot.Runtime

/-- What the service is for: records with their contents. -/
abbrev Shelf := List (AttachmentRecord × Bytes)

/-- The shelf after a call, from what the call returned. -/
def Shelf.next (shelf : Shelf) : Call × Except Failure Answer → Shelf
  | (.upload _ _ _ data _, .ok (.record r)) => shelf ++ [(r, data)]
  | (.delete i id, _) => shelf.filter fun e => !(e.1.id = id && e.1.scope = .of i)
  | (.purge_expired _, .ok (.records rs)) => shelf.filter fun e => e.1 ∉ rs
  | _ => shelf

section Shelved

variable {S : AttachmentService} {W : World} {s : State S.backend} {shelf : Shelf}

/-- The record is as `upload` made it from the bytes, with one of the ids drawn so far. -/
structure Sealed (S : AttachmentService) (W : World) (drawn : Nat) (r : AttachmentRecord)
    (data : Bytes) : Prop where
  size : data.length = r.size_bytes
  limit : data.length ≤ S.max_bytes
  digest : (W.sha256 data).text = r.sha256
  owner : ∃ i, _validate_identity i = .ok () ∧ r.scope = .of i
  place : ∃ n scope_key extension, n < drawn ∧ Suffix extension ∧ r.id = (W.uuid4 n).text ∧
    r.storage_path = storageKey scope_key (W.uuid4 n) extension

/-- The two stores hold the records and the contents of the shelf. -/
structure Shelved (S : AttachmentService) (W : World) (s : State S.backend) (shelf : Shelf) :
    Prop where
  rows : s.store.rows = shelf.map Prod.fst
  made : ∀ e ∈ shelf, Sealed S W s.drawn e.1 e.2
  files : ∀ e ∈ shelf, ∀ path, Files._path e.1.storage_path = .ok path → s.files path = some e.2

/-- The ids that have been drawn are different. -/
def Fresh (W : World) (drawn : Nat) : Prop :=
  ∀ m < drawn, ∀ n < drawn, W.uuid4 m = W.uuid4 n → m = n

theorem Fresh.mono {m n : Nat} (h : Fresh W n) (hle : m ≤ n) : Fresh W m :=
  fun i hi j hj => h i (hi.trans_le hle) j (hj.trans_le hle)

theorem Sealed.mono {m n : Nat} {r : AttachmentRecord} {data : Bytes} (h : Sealed S W m r data)
    (hle : m ≤ n) : Sealed S W n r data := by
  obtain ⟨k, scope_key, extension, hk, hext, hid, hpath⟩ := h.place
  exact ⟨h.size, h.limit, h.digest, h.owner, k, scope_key, extension, hk.trans_le hle, hext, hid, hpath⟩

/-- The content of a record has a path, which is no other record's. -/
theorem Sealed.path {m : Nat} {r : AttachmentRecord} {data : Bytes} (h : Sealed S W m r data) :
    ∃ path, Files._path r.storage_path = .ok path := by
  obtain ⟨k, scope_key, extension, _, hext, _, hpath⟩ := h.place
  rw [hpath]
  exact ⟨_, _path_storageKey scope_key _ hext⟩

theorem Sealed.id_of_path {m : Nat} {r r' : AttachmentRecord} {data data' : Bytes} {path : Path}
    (h : Sealed S W m r data) (h' : Sealed S W m r' data')
    (hp : Files._path r.storage_path = .ok path) (hp' : Files._path r'.storage_path = .ok path) :
    r.id = r'.id := by
  obtain ⟨k, scope_key, extension, _, hext, hid, hpath⟩ := h.place
  obtain ⟨k', scope_key', extension', _, hext', hid', hpath'⟩ := h'.place
  rw [hpath, _path_storageKey scope_key _ hext] at hp
  rw [hpath', _path_storageKey scope_key' _ hext'] at hp'
  have heq := Except.ok.inj (hp.trans hp'.symm)
  rw [hid, hid', Attachment.id_of_path scope_key _ heq]

theorem shelved_init : Shelved S W (.init S.backend) [] :=
  ⟨rfl, fun _ h => (List.not_mem_nil h).elim, fun _ h => (List.not_mem_nil h).elim⟩

theorem Shelved.mem_rows (h : Shelved S W s shelf) {e : AttachmentRecord × Bytes}
    (he : e ∈ shelf) : e.1 ∈ s.store.rows := by
  rw [h.rows]
  exact List.mem_map_of_mem he

theorem Shelved.exists_mem (h : Shelved S W s shelf) {r : AttachmentRecord}
    (hr : r ∈ s.store.rows) : ∃ data, (r, data) ∈ shelf := by
  rw [h.rows, List.mem_map] at hr
  obtain ⟨e, he, rfl⟩ := hr
  exact ⟨e.2, he⟩

/-- Both stores let go of a record that is there. -/
theorem Shelved.delete_ok (h : Shelved S W s shelf) {r : AttachmentRecord}
    (hr : r ∈ s.store.rows) :
    ∃ files, s.files.delete r.storage_path = .ok files ∧
      s.store.delete r.id r.scope = (some r, (s.store.delete r.id r.scope).2) := by
  obtain ⟨data, hdata⟩ := h.exists_mem hr
  obtain ⟨path, hpath⟩ := (h.made _ hdata).path
  refine ⟨Function.update s.files path none, ?_, Prod.ext ?_ rfl⟩
  · unfold Files.delete
    rw [hpath]
    rfl
  · rw [Store.delete_fst, Store.get_eq_some]
    exact ⟨hr, rfl, rfl⟩

/-- The content is removed together with the record: everything else is kept. -/
theorem Shelved.remove (h : Shelved S W s shelf) {r : AttachmentRecord} (hr : r ∈ s.store.rows)
    {files : Files} (hfiles : s.files.delete r.storage_path = .ok files) :
    Shelved S W { s with files := files, store := (s.store.delete r.id r.scope).2 }
      (shelf.filter fun e => !(e.1.id = r.id && e.1.scope = r.scope)) := by
  obtain ⟨data, hdata⟩ := h.exists_mem hr
  obtain ⟨path, hpath⟩ := (h.made _ hdata).path
  obtain ⟨p, hp, hupdate⟩ := bind_ok hfiles
  cases hpath.symm.trans hp
  cases hupdate
  refine ⟨?_, fun e he => h.made e (List.mem_of_mem_filter he), fun e he q hq => ?_⟩
  · change (s.store.delete r.id r.scope).2.rows = _
    rw [Store.delete_rows, h.rows, List.filter_map]
    rfl
  · obtain ⟨hmem, hkeep⟩ := List.mem_filter.mp he
    have hne : q ≠ path := by
      rintro rfl
      have hid := (h.made e hmem).id_of_path (h.made _ hdata) hq hpath
      have heq := Store.eq_of_id (h.mem_rows hmem) hr hid
      simp [heq] at hkeep
    change Function.update s.files path none q = some e.2
    rw [Function.update_of_ne hne]
    exact h.files e hmem q hq

theorem suffix_of_lookup {format media extension : String}
    (h : ALLOWED_IMAGE_TYPES.lookup format = some (media, extension)) : Suffix extension := by
  have hall : ∀ x ∈ ALLOWED_IMAGE_TYPES, (x.2.2.toList.all fun c => safeKeyChar c = true ∧
      c ≠ '/' ∧ c ≠ '\\') ∧ x.2.2.length ≤ 5 := by decide
  obtain ⟨l₁, l₂, heq, _⟩ := List.lookup_eq_some_iff.mp h
  obtain ⟨hsafe, hshort⟩ := hall (format, media, extension) (by rw [heq]; simp)
  exact ⟨List.all_iff_forall_prop.mp hsafe, hshort⟩

/-- What the checks of an upload leave. -/
theorem check_ok {i : IdentityContext} {filename content_type : String} {data : Bytes}
    {oracle : Oracle} {image_format extension : String} {width height : Int}
    (h : S.check i filename content_type data oracle =
      .ok (image_format, extension, width, height)) :
    _validate_identity i = .ok () ∧ data.length ≤ S.max_bytes ∧ Suffix extension ∧
      oracle.scan data content_type = .ok () := by
  obtain ⟨_, hid, h⟩ := bind_ok h
  split at h
  · cases h
  split at h
  · cases h
  split at h
  · cases h
  split at h
  · cases h
  rename_i hlen
  split at h
  · cases h
  · cases h
  split at h
  · cases h
  rename_i hlookup
  split at h
  · cases h
  split at h
  · cases h
  obtain ⟨_, hscan, h⟩ := bind_ok h
  cases h
  exact ⟨hid, Nat.le_of_not_lt hlen, suffix_of_lookup hlookup, hscan⟩

/-- Content under the next id touches no content that is there. -/
theorem Shelved.path_ne (h : Shelved S W s shelf) (hfresh : Fresh W (s.drawn + 1))
    {scope_key : Hex 64} {extension : String} {path : Path} (hext : Suffix extension)
    (hpath : Files._path (storageKey scope_key (W.uuid4 s.drawn) extension) = .ok path)
    {e : AttachmentRecord × Bytes} (he : e ∈ shelf) {q : Path}
    (hq : Files._path e.1.storage_path = .ok q) :
    q ≠ path := by
  rintro rfl
  obtain ⟨n, scope_key', extension', hn, hext', hid, hplace⟩ := (h.made e he).place
  rw [hplace, _path_storageKey _ _ hext'] at hq
  rw [_path_storageKey _ _ hext] at hpath
  have huuid := Attachment.id_of_path _ _ (Except.ok.inj (hpath.trans hq.symm))
  have := hfresh s.drawn (by omega) n (by omega) huuid
  omega

/-- Everything an upload can do: refuse, store the record with its content, or take the content
back. -/
theorem upload_cases {i : IdentityContext} {filename content_type : String} {data : Bytes}
    {oracle : Oracle} {a : Except Failure AttachmentRecord} {s' : State S.backend}
    (h : S.upload W i filename content_type data oracle s = (a, s')) :
    ((∃ e, a = .error e) ∧ s' = s) ∨
    ∃ scope_key extension path, Suffix extension ∧ data.length ≤ S.max_bytes ∧
      _validate_identity i = .ok () ∧
      Files._path (storageKey scope_key (W.uuid4 s.drawn) extension) = .ok path ∧
      ((∃ e, a = .error e ∧ s' = { s with
          drawn := s.drawn + 1
          files := Function.update (Function.update s.files path (some data)) path none }) ∨
        ∃ r store, a = .ok r ∧ s.store.create r = .ok store ∧
          r.id = (W.uuid4 s.drawn).text ∧ r.scope = .of i ∧ r.size_bytes = data.length ∧
          r.sha256 = (W.sha256 data).text ∧
          r.storage_path = storageKey scope_key (W.uuid4 s.drawn) extension ∧
          s' = ⟨store, Function.update s.files path (some data), s.drawn + 1⟩) := by
  unfold AttachmentService.upload at h
  cases hcheck : S.check i filename content_type data oracle with
  | error e =>
    rw [hcheck] at h
    cases h
    exact .inl ⟨⟨e, rfl⟩, rfl⟩
  | ok x =>
    obtain ⟨image_format, extension, width, height⟩ := x
    obtain ⟨hid, hlen, hext, -⟩ := check_ok hcheck
    have hpath := _path_storageKey (AttachmentService._scope_key W i) (W.uuid4 s.drawn) hext
    refine .inr ⟨_, extension, _, hext, hlen, hid, hpath, ?_⟩
    simp only [hcheck, Files.put, hpath, ok_bind] at h
    simp only [pure, Except.pure] at h
    split at h
    · rename_i store hcreate
      cases h
      exact .inr ⟨_, store, rfl, hcreate, rfl, rfl, rfl, rfl, rfl, rfl⟩
    · rename_i e hcreate
      simp only [Files.delete, hpath, ok_bind] at h
      cases h
      exact .inl ⟨e, rfl, rfl⟩

theorem upload_shelved {i : IdentityContext} {filename content_type : String} {data : Bytes}
    {oracle : Oracle} {a : Except Failure AttachmentRecord} {s' : State S.backend}
    (h : Shelved S W s shelf) (hu : S.upload W i filename content_type data oracle s = (a, s'))
    (hfresh : Fresh W s'.drawn) :
    Shelved S W s' (shelf.next (.upload i filename content_type data oracle, a.map .record)) := by
  obtain ⟨⟨e, rfl⟩, rfl⟩ | ⟨scope_key, extension, path, hext, hlen, hvalid, hpath, hcase⟩ :=
    upload_cases hu
  · exact h
  obtain ⟨e, rfl, rfl⟩ | ⟨r, store, rfl, hcreate, hid, hscope, hsize, hdigest, hplace, rfl⟩ :=
    hcase
  · refine ⟨h.rows, fun e he => (h.made e he).mono (Nat.le_succ _), fun e he q hq => ?_⟩
    have hne := h.path_ne hfresh hext hpath he hq
    change Function.update (Function.update s.files path (some data)) path none q = some e.2
    rw [Function.update_of_ne hne, Function.update_of_ne hne]
    exact h.files e he q hq
  · refine ⟨?_, fun e he => ?_, fun e he q hq => ?_⟩
    · change store.rows = (shelf ++ [(r, data)]).map Prod.fst
      rw [Store.create_ok hcreate, h.rows, List.map_append]
      rfl
    · rcases List.mem_append.mp he with he | he
      · exact (h.made e he).mono (Nat.le_succ _)
      · obtain rfl := List.mem_singleton.mp he
        exact ⟨hsize.symm, hlen, hdigest.symm, ⟨i, hvalid, hscope⟩, s.drawn, scope_key, extension,
          Nat.lt_succ_self _, hext, hid, hplace⟩
    · rcases List.mem_append.mp he with he | he
      · change Function.update s.files path (some data) q = some e.2
        rw [Function.update_of_ne (h.path_ne hfresh hext hpath he hq)]
        exact h.files e he q hq
      · obtain rfl := List.mem_singleton.mp he
        rw [hplace, hpath] at hq
        cases hq
        exact Function.update_self path (some data) s.files

/-- An identity is checked by what its scope holds. -/
theorem validate_of_scope {i j : IdentityContext} (h : Scope.of i = Scope.of j) :
    _validate_identity i = _validate_identity j := by
  obtain ⟨hw, ht, hu⟩ := Scope.mk.inj h
  unfold _validate_identity
  rw [hw, ht, hu]

theorem _scoped_record_ok {i : IdentityContext} {id : String} {r : AttachmentRecord} :
    S._scoped_record id i s = .ok r ↔
      _validate_identity i = .ok () ∧ r ∈ s.store.rows ∧ r.id = id ∧ r.scope = .of i := by
  unfold AttachmentService._scoped_record
  cases _validate_identity i with
  | error e => exact ⟨fun h => (by cases h), fun h => (by cases h.1)⟩
  | ok u =>
    rw [ok_bind, ← Store.get_eq_some]
    cases s.store.get id (.of i) with
    | none => exact ⟨fun h => (by cases h), fun h => (by cases h.2)⟩
    | some r' =>
      constructor
      · intro h
        cases h
        exact ⟨rfl, rfl⟩
      · rintro ⟨_, h⟩
        cases h
        rfl

theorem _scoped_record_none {i : IdentityContext} {id : String}
    (hi : _validate_identity i = .ok ()) (h : ∀ r ∈ s.store.rows, r.id = id → r.scope ≠ .of i) :
    S._scoped_record id i s = .error (.attachmentNotFound "attachment was not found") := by
  unfold AttachmentService._scoped_record
  rw [hi, ok_bind, Store.get_eq_none.mpr h]
  rfl

theorem delete_cases {i : IdentityContext} {id : String} {a : Except Failure AttachmentRecord}
    {s' : State S.backend} (h : Shelved S W s shelf) (hd : S.delete i id s = (a, s')) :
    ((∃ e, S._scoped_record id i s = .error e ∧ a = .error e) ∧ s' = s) ∨
    ∃ r files, S._scoped_record id i s = .ok r ∧ a = .ok r ∧
      s.files.delete r.storage_path = .ok files ∧
      s' = { s with files := files, store := (s.store.delete r.id r.scope).2 } := by
  unfold AttachmentService.delete at hd
  cases hrec : S._scoped_record id i s with
  | error e =>
    rw [hrec] at hd
    cases hd
    exact .inl ⟨⟨e, rfl, rfl⟩, rfl⟩
  | ok r =>
    obtain ⟨_, hr, rfl, hscope⟩ := _scoped_record_ok.mp hrec
    obtain ⟨files, hfiles, hget⟩ := h.delete_ok hr
    rw [hrec] at hd
    simp only [hfiles, ← hscope] at hd
    rw [hget] at hd
    cases hd
    exact .inr ⟨r, _, rfl, rfl, hfiles, rfl⟩

theorem delete_shelved {i : IdentityContext} {id : String} {a : Except Failure AttachmentRecord}
    {s' : State S.backend} (h : Shelved S W s shelf) (hd : S.delete i id s = (a, s')) :
    Shelved S W s' (shelf.next (.delete i id, a.map .record)) := by
  obtain ⟨⟨e, hrec, rfl⟩, rfl⟩ | ⟨r, files, hrec, rfl, hfiles, rfl⟩ := delete_cases h hd
  · have hself : shelf.filter (fun e => !(e.1.id = id && e.1.scope = .of i)) = shelf := by
      refine List.filter_eq_self.mpr fun x hx => ?_
      by_contra hneg
      simp only [Bool.not_eq_true', Bool.not_eq_false, Bool.and_eq_true, decide_eq_true_eq] at hneg
      obtain ⟨j, hj, hscope⟩ := (h.made x hx).owner
      have hi : _validate_identity i = .ok () := by
        rw [validate_of_scope (hneg.2.symm.trans hscope), hj]
      have hok := _scoped_record_ok.mpr ⟨hi, h.mem_rows hx, hneg.1, hneg.2⟩
      rw [hrec] at hok
      cases hok
    change Shelved S W s' (shelf.filter fun e => !(e.1.id = id && e.1.scope = .of i))
    rw [hself]
    exact h
  · obtain ⟨_, hr, rfl, hscope⟩ := _scoped_record_ok.mp hrec
    change Shelved S W _ (shelf.filter fun e => !(e.1.id = r.id && e.1.scope = .of i))
    rw [← hscope]
    exact h.remove hr hfiles

/-- The loop removes the records that it was given. -/
theorem purge_shelved (expired deleted : List AttachmentRecord) (h : Shelved S W s shelf)
    (hmem : ∀ r ∈ expired, r ∈ s.store.rows) (hnodup : expired.Nodup) :
    ∃ s', S.purge expired deleted s = (.ok (deleted ++ expired), s') ∧
      Shelved S W s' (shelf.filter fun e => e.1 ∉ expired) := by
  induction expired generalizing s shelf deleted with
  | nil => exact ⟨s, by rw [List.append_nil]; rfl, by simpa using h⟩
  | cons r expired ih =>
    have hr := hmem r (.head _)
    obtain ⟨files, hfiles, hget⟩ := h.delete_ok hr
    have hone : ∀ e ∈ shelf, (!(e.1.id = r.id && e.1.scope = r.scope)) = decide (e.1 ≠ r) := by
      intro e he
      by_cases heq : e.1 = r
      · simp [heq]
      · have hid : e.1.id ≠ r.id := fun hid => heq (Store.eq_of_id (h.mem_rows he) hr hid)
        simp [heq, hid]
    have hnext := h.remove hr hfiles
    rw [List.filter_congr hone] at hnext
    have hrest : ∀ x ∈ expired, x ∈ (s.store.delete r.id r.scope).2.rows := by
      intro x hx
      have hne : x.id ≠ r.id := fun hid => by
        have heq := Store.eq_of_id (hmem x (.tail _ hx)) hr hid
        exact (List.nodup_cons.mp hnodup).1 (heq ▸ hx)
      rw [Store.delete_rows, List.mem_filter]
      exact ⟨hmem x (.tail _ hx), by simp [hne]⟩
    obtain ⟨s', hs', hshelf⟩ :=
      ih (deleted ++ [r]) hnext hrest (List.nodup_cons.mp hnodup).2
    refine ⟨s', ?_, ?_⟩
    · rw [S.purge_next hfiles, hget, Option.toList_some, hs', List.append_assoc]
      rfl
    · rw [List.filter_filter] at hshelf
      refine cast (congrArg _ (List.filter_congr fun e _ => ?_)) hshelf
      by_cases heq : e.1 = r <;> simp [heq]

theorem purge_expired_shelved {now : DateTime} {a : Except Failure (List AttachmentRecord)}
    {s' : State S.backend} (h : Shelved S W s shelf)
    (hp : S.purge_expired W now s = (a, s')) :
    Shelved S W s' (shelf.next (.purge_expired now, a.map .records)) := by
  unfold AttachmentService.purge_expired at hp
  split at hp
  · cases hp
    change Shelved S W s (shelf.filter fun e => e.1 ∉ [])
    simpa using h
  split at hp
  · cases hp
    exact h
  · rename_i records hrec
    have hsub : records.Subperm s.store.rows := by
      obtain ⟨current, _, hrec⟩ := bind_ok hrec
      split at hrec
      · cases hrec
      · obtain ⟨cutoff, _, hrec⟩ := bind_ok hrec
        exact Store.list_before_subperm hrec
    have hnodup : records.Nodup := by
      obtain ⟨rows, hperm, hsub⟩ := hsub
      exact hperm.nodup_iff.mp ((List.Nodup.of_map _ Store.ids_nodup).sublist hsub)
    obtain ⟨s₁, hs₁, hshelf⟩ := purge_shelved records [] h (fun r hr => hsub.subset hr) hnodup
    rw [hs₁] at hp
    cases hp
    exact hshelf

theorem delete_drawn (i : IdentityContext) (id : String) (s : State S.backend) :
    (S.delete i id s).2.drawn = s.drawn := by
  unfold AttachmentService.delete
  split
  · rfl
  split
  · rfl
  split <;> rfl

theorem purge_drawn (expired deleted : List AttachmentRecord) (s : State S.backend) :
    (S.purge expired deleted s).2.drawn = s.drawn := by
  induction expired generalizing deleted s with
  | nil => rfl
  | cons r expired ih =>
    cases hfiles : s.files.delete r.storage_path with
    | error e => rw [S.purge_failed hfiles]
    | ok files =>
      rw [S.purge_next hfiles]
      exact ih _ _

theorem perform_drawn (c : Call) (s : State S.backend) : s.drawn ≤ (perform S W c s).2.drawn := by
  cases c with
  | upload i filename content_type data oracle =>
    change s.drawn ≤ (S.upload W i filename content_type data oracle s).2.drawn
    generalize hu : S.upload W i filename content_type data oracle s = x
    obtain ⟨_, h⟩ | ⟨_, _, _, _, _, _, _, ⟨_, _, h⟩ | ⟨_, _, _, _, _, _, _, _, _, h⟩⟩ :=
      upload_cases hu
    · rw [h]
    · rw [h]
      exact Nat.le_succ _
    · rw [h]
      exact Nat.le_succ _
  | delete i id => exact (delete_drawn i id s).ge
  | purge_expired now =>
    change s.drawn ≤ (S.purge_expired W now s).2.drawn
    unfold AttachmentService.purge_expired
    split
    · exact le_rfl
    split
    · exact le_rfl
    · exact (purge_drawn _ _ s).ge
  | list i => exact le_rfl
  | metadata i id => exact le_rfl
  | read_content i id => exact le_rfl

/-- A call does to the stores what it does to the shelf. -/
theorem perform_shelved (c : Call) (h : Shelved S W s shelf)
    (hfresh : Fresh W (perform S W c s).2.drawn) :
    Shelved S W (perform S W c s).2 (shelf.next (c, (perform S W c s).1)) := by
  cases c with
  | upload i filename content_type data oracle => exact upload_shelved h rfl hfresh
  | delete i id => exact delete_shelved h rfl
  | purge_expired now => exact purge_expired_shelved h rfl
  | list i => exact h
  | metadata i id => exact h
  | read_content i id => exact h

theorem after_cons (c : Call) (calls : List Call) (s : State S.backend) :
    after S W (c :: calls) s = after S W calls (perform S W c s).2 := rfl

theorem after_append (pre post : List Call) (s : State S.backend) :
    after S W (pre ++ post) s = after S W post (after S W pre s) := List.foldl_append

theorem after_drawn (calls : List Call) (s : State S.backend) :
    s.drawn ≤ (after S W calls s).drawn := by
  induction calls generalizing s with
  | nil => exact le_rfl
  | cons c calls ih => exact (perform_drawn c s).trans (ih _)

theorem after_shelved (calls : List Call) (h : Shelved S W s shelf)
    (hfresh : Fresh W (after S W calls s).drawn) :
    Shelved S W (after S W calls s) ((trace S W calls s).foldl Shelf.next shelf) := by
  induction calls generalizing s shelf with
  | nil => exact h
  | cons c calls ih =>
    rw [after_cons] at hfresh
    exact ih (perform_shelved c h (hfresh.mono (after_drawn calls _))) hfresh

end Shelved

end EnterpriseCopilot.Attachment
