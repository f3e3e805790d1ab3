import EnterpriseCopilot.Attachment.Shelf

/-! What a caller sees of an attachment between its upload and its removal. -/

namespace EnterpriseCopilot.Attachment

open EnterpriseCopilot.Lib EnterpriseCopilot.Python EnterpriseCopilot.Runtime

/-- The call took the record away: its owner deleted it or it was purged. -/
def Removes (r : AttachmentRecord) : Call × Except Failure Answer → Prop
  | (.delete i id, _) => id = r.id ∧ Scope.of i = r.scope
  | (.purge_expired _, .ok (.records rs)) => r ∈ rs
  | _ => False

section Law

variable {S : AttachmentService} {W : World} {s : State S.backend} {shelf : Shelf}
  {r : AttachmentRecord} {data : Bytes}

theorem Shelf.mem_next {x : Call × Except Failure Answer} (h : (r, data) ∈ shelf)
    (hx : ¬ Removes r x) : (r, data) ∈ shelf.next x := by
  unfold Shelf.next
  split
  · exact List.mem_append_left _ h
  · rename_i i id _
    refine List.mem_filter.mpr ⟨h, ?_⟩
    by_contra hneg
    simp only [Bool.not_eq_true', Bool.not_eq_false, Bool.and_eq_true, decide_eq_true_eq] at hneg
    exact hx ⟨hneg.1.symm, hneg.2.symm⟩
  · exact List.mem_filter.mpr ⟨h, decide_eq_true hx⟩
  · exact h

theorem Shelf.mem_foldl {tr : List (Call × Except Failure Answer)} (h : (r, data) ∈ shelf)
    (hx : ∀ x ∈ tr, ¬ Removes r x) : (r, data) ∈ tr.foldl Shelf.next shelf := by
  induction tr generalizing shelf with
  | nil => exact h
  | cons x tr ih => exact ih (Shelf.mem_next h (hx x (.head _))) fun y hy => hx y (.tail _ hy)

/-- No record on the shelf has the id. -/
def Shelf.Gone (shelf : Shelf) (id : String) : Prop := ∀ e ∈ shelf, e.1.id ≠ id

theorem Shelf.gone_next {x : Call × Except Failure Answer} (h : Shelved S W s shelf)
    (hr : (r, data) ∈ shelf) (hx : Removes r x) : Shelf.Gone (shelf.next x) r.id := by
  have hone : ∀ e ∈ shelf, e.1.id = r.id → e.1 = r := fun e he hid =>
    Store.eq_of_id (h.mem_rows he) (h.mem_rows hr) hid
  intro e he hid
  unfold Shelf.next at he
  split at he
  · exact hx
  · obtain ⟨rfl, hscope⟩ := hx
    obtain ⟨hmem, hkeep⟩ := List.mem_filter.mp he
    simp [hone e hmem hid, hscope] at hkeep
  · obtain ⟨hmem, hkeep⟩ := List.mem_filter.mp he
    rw [hone e hmem hid] at hkeep
    exact of_decide_eq_true hkeep hx
  · rename_i hne₁ hne₂ hne₃
    obtain ⟨c, a⟩ := x
    cases c with
    | delete i id => exact hne₂ _ _ _ rfl
    | purge_expired now =>
      cases a with
      | error e => exact hx
      | ok answer =>
        cases answer with
        | records rs => exact hne₃ _ _ rfl
        | record => exact hx
        | content => exact hx
    | _ => exact hx

theorem upload_record {i : IdentityContext} {filename content_type : String} {oracle : Oracle}
    (h : (perform S W (.upload i filename content_type data oracle) s).1 = .ok (.record r)) :
    r.id = (W.uuid4 s.drawn).text ∧ r.scope = .of i ∧ _validate_identity i = .ok () ∧
      (perform S W (.upload i filename content_type data oracle) s).2.drawn = s.drawn + 1 := by
  change (S.upload W i filename content_type data oracle s).1.map Answer.record = _ at h
  change _ ∧ _ ∧ _ ∧ (S.upload W i filename content_type data oracle s).2.drawn = _
  generalize hu : S.upload W i filename content_type data oracle s = x at h
  obtain ⟨a, s'⟩ := x
  obtain ⟨⟨e, rfl⟩, _⟩ | ⟨_, _, _, _, _, hvalid, _, hcase⟩ := upload_cases hu
  · cases h
  obtain ⟨e, rfl, _⟩ | ⟨r', store, rfl, _, hid, hscope, _, _, _, rfl⟩ := hcase
  · cases h
  · cases h
    exact ⟨hid, hscope, hvalid, rfl⟩

/-- A later upload draws another id. -/
theorem gone_perform {n : Nat} (c : Call) (hn : n < s.drawn)
    (h : shelf.Gone (W.uuid4 n).text) (hfresh : Fresh W (perform S W c s).2.drawn) :
    Shelf.Gone (shelf.next (c, (perform S W c s).1)) (W.uuid4 n).text := by
  intro e he
  unfold Shelf.next at he
  split at he
  · rename_i i filename content_type content oracle r' heq
    obtain ⟨rfl, hres⟩ := Prod.mk.inj heq
    obtain ⟨hid, _, _, hdrawn⟩ := upload_record hres
    rcases List.mem_append.mp he with he | he
    · exact h e he
    · obtain rfl := List.mem_singleton.mp he
      rw [hid]
      intro hsame
      rw [hdrawn] at hfresh
      have := hfresh _ (by omega) n (by omega) (Hex.text_injective hsame)
      omega
  · exact h e (List.mem_of_mem_filter he)
  · exact h e (List.mem_of_mem_filter he)
  · exact h e he

theorem gone_after {n : Nat} (calls : List Call) (hn : n < s.drawn)
    (h : shelf.Gone (W.uuid4 n).text) (hfresh : Fresh W (after S W calls s).drawn) :
    Shelf.Gone ((trace S W calls s).foldl Shelf.next shelf) (W.uuid4 n).text := by
  induction calls generalizing s shelf with
  | nil => exact h
  | cons c calls ih =>
    have hstep := gone_perform c hn h (hfresh.mono (after_drawn calls _))
    exact ih (hn.trans_le (perform_drawn c s)) hstep hfresh

/-- From its removal on, the id of a record is not on the shelf. -/
theorem removed_after {n : Nat} (calls : List Call) (h : Shelved S W s shelf)
    (hr : (r, data) ∈ shelf) (hn : n < s.drawn) (hid : r.id = (W.uuid4 n).text)
    (hx : ∃ x ∈ trace S W calls s, Removes r x) (hfresh : Fresh W (after S W calls s).drawn) :
    Shelf.Gone ((trace S W calls s).foldl Shelf.next shelf) r.id := by
  induction calls generalizing s shelf with
  | nil =>
    obtain ⟨x, hx, _⟩ := hx
    cases hx
  | cons c calls ih =>
    have hstep := hfresh.mono (after_drawn calls _)
    have hn' := hn.trans_le (perform_drawn (W := W) c s)
    by_cases hhead : Removes r (c, (perform S W c s).1)
    · have hgone := Shelf.gone_next h hr hhead
      rw [hid] at hgone ⊢
      exact gone_after calls hn' hgone hfresh
    · obtain ⟨x, hmem, hrem⟩ := hx
      refine ih (perform_shelved c h hstep) (Shelf.mem_next hr hhead) hn' ⟨x, ?_, hrem⟩ hfresh
      rcases List.mem_cons.mp hmem with rfl | hmem
      · exact absurd hrem hhead
      · exact hmem

theorem scope_of_read_content {j : IdentityContext} {id : String}
    (h : S.read_content W j id s = .ok (r, data)) : r.scope = .of j := by
  obtain ⟨r', hrec, h⟩ := bind_ok h
  split at h
  · cases h
  · cases h
  split at h
  · cases h
  · cases h
    exact (_scoped_record_ok.mp hrec).2.2.2

/-- A record on the shelf is read by its owner. -/
theorem read_content_ok (h : Shelved S W s shelf) (hr : (r, data) ∈ shelf) {j : IdentityContext}
    (hj : _validate_identity j = .ok ()) (hscope : r.scope = .of j) :
    S.read_content W j r.id s = .ok (r, data) := by
  have hrec : S._scoped_record r.id j s = .ok r :=
    _scoped_record_ok.mpr ⟨hj, h.mem_rows hr, rfl, hscope⟩
  obtain ⟨path, hpath⟩ := (h.made _ hr).path
  have hread : s.files.read r.storage_path S.max_bytes = .ok data := by
    unfold Files.read
    rw [hpath, ok_bind, h.files _ hr path hpath]
    simp only [if_neg (Nat.not_lt.mpr (h.made _ hr).limit)]
    rfl
  unfold AttachmentService.read_content
  rw [hrec, ok_bind, hread]
  simp only [(h.made _ hr).size, (h.made _ hr).digest]
  simp
  rfl

/-- What every call on an id answers when no record of the caller has it. -/
structure NotFound (S : AttachmentService) (W : World) (s : State S.backend) (j : IdentityContext)
    (id : String) : Prop where
  read_content : perform S W (.read_content j id) s =
    (.error (.attachmentNotFound "attachment was not found"), s)
  metadata : perform S W (.metadata j id) s =
    (.error (.attachmentNotFound "attachment was not found"), s)
  delete : perform S W (.delete j id) s =
    (.error (.attachmentNotFound "attachment was not found"), s)

theorem not_found {j : IdentityContext} {id : String} (hj : _validate_identity j = .ok ())
    (h : ∀ x ∈ s.store.rows, x.id = id → x.scope ≠ .of j) : NotFound S W s j id := by
  have hrec := _scoped_record_none hj h
  refine ⟨?_, ?_, ?_⟩
  · simp only [perform, AttachmentService.read_content, hrec]
    rfl
  · simp only [perform, AttachmentService.metadata, hrec]
    rfl
  · simp only [perform, AttachmentService.delete, hrec]
    rfl

theorem list_ok {j : IdentityContext} (hj : _validate_identity j = .ok ()) :
    S.list j s = .ok (s.store.list (.of j)) := by
  unfold AttachmentService.list
  rw [hj]
  rfl

/-- Until it is removed, an uploaded attachment is read and listed by the callers with the user,
workspace and tenant of the upload and by no others; afterwards it is found by nobody. -/
theorem upload_law (S : AttachmentService) (W : World) (pre post : List Call) (i : IdentityContext)
    (filename content_type : String) (data : Bytes) (oracle : Oracle) (r : AttachmentRecord)
    (hupload : (perform S W (.upload i filename content_type data oracle)
      (after S W pre (.init S.backend))).1 = .ok (.record r))
    (hfresh : Fresh W (after S W
      (pre ++ .upload i filename content_type data oracle :: post) (.init S.backend)).drawn) :
    let s₁ := (perform S W (.upload i filename content_type data oracle)
      (after S W pre (.init S.backend))).2
    let s := after S W post s₁
    r.scope = .of i ∧
    ((∀ x ∈ trace S W post s₁, ¬ Removes r x) → ∀ j : IdentityContext,
      (S.read_content W j r.id s = .ok (r, data) ↔ Scope.of j = .of i) ∧
      ((∃ rs, S.list j s = .ok rs ∧ rs.count r = 1) ↔ Scope.of j = .of i) ∧
      (_validate_identity j = .ok () → Scope.of j ≠ .of i →
        NotFound S W s j r.id ∧ ∃ rs, S.list j s = .ok rs ∧ r ∉ rs)) ∧
    ((∃ x ∈ trace S W post s₁, Removes r x) → ∀ j : IdentityContext,
      _validate_identity j = .ok () →
        NotFound S W s j r.id ∧ ∃ rs, S.list j s = .ok rs ∧ r ∉ rs) := by
  intro s₁ s
  rw [after_append, after_cons] at hfresh
  obtain ⟨hid, hscope, hvalid, hdrawn⟩ := upload_record hupload
  have hlast : Fresh W s₁.drawn := hfresh.mono (after_drawn post s₁)
  have hpre := after_shelved pre shelved_init (hlast.mono (perform_drawn _ _))
  have hs₁ := perform_shelved (.upload i filename content_type data oracle) hpre hlast
  rw [hupload] at hs₁
  change Shelved S W s₁ (_ ++ [(r, data)]) at hs₁
  have hr : (r, data) ∈ (trace S W pre (.init S.backend)).foldl Shelf.next [] ++ [(r, data)] :=
    List.mem_append_right _ (.head _)
  have hs := after_shelved post hs₁ hfresh
  refine ⟨hscope, fun hkeep j => ?_, fun hrem j hj => ?_⟩
  · have hmem := Shelf.mem_foldl hr hkeep
    have hrow := hs.mem_rows hmem
    refine ⟨⟨fun h => ?_, fun h => ?_⟩, ⟨fun ⟨rs, hrs, hcount⟩ => ?_, fun h => ?_⟩, fun hj hne => ?_⟩
    · exact (scope_of_read_content h).symm.trans hscope
    · have hj : _validate_identity j = .ok () := by rw [validate_of_scope h, hvalid]
      exact read_content_ok hs hmem hj (hscope.trans h.symm)
    · obtain ⟨_, hj, hlist⟩ := bind_ok hrs
      cases hlist
      have hin : r ∈ s.store.list (.of j) := List.count_pos_iff.mp (by omega)
      exact (Store.mem_list.mp hin).2.symm.trans hscope
    · have hj : _validate_identity j = .ok () := by rw [validate_of_scope h, hvalid]
      refine ⟨_, list_ok hj, ?_⟩
      rw [h, ← hscope]
      exact Store.count_list hrow
    · refine ⟨not_found hj fun x hx hid' => ?_, _, list_ok hj, fun hin => ?_⟩
      · rw [Store.eq_of_id hx hrow hid', hscope]
        exact fun h => hne h.symm
      · exact hne ((Store.mem_list.mp hin).2.symm.trans hscope)
  · have hgone := removed_after post hs₁ hr (Nat.lt_of_succ_le hdrawn.ge) hid hrem hfresh
    have hrows : ∀ x ∈ s.store.rows, x.id ≠ r.id := by
      intro x hx
      obtain ⟨d, hd⟩ := hs.exists_mem hx
      exact hgone _ hd
    refine ⟨not_found hj fun x hx hid' => absurd hid' (hrows x hx), _, list_ok hj, fun hin => ?_⟩
    exact hrows r (Store.mem_list.mp hin).1 rfl

/-- An image of one pixel. -/
def sampleImage : Bytes :=
  [0x47, 0x49, 0x46, 0x38, 0x39, 0x61, 0x01, 0x00, 0x01, 0x00, 0x80, 0x00, 0x00, 0x00, 0x00,
    0x00, 0xff, 0xff, 0xff, 0x2c, 0x00, 0x00, 0x00, 0x00, 0x01, 0x00, 0x01, 0x00, 0x00, 0x02,
    0x02, 0x44, 0x01, 0x00, 0x3b]

def sampleWorld : World where
  sha256 data :=
    if data = sampleImage then
      ⟨["6c63cc50", "63ac82d8", "bbc925f9", "a31adf3a", "87f1510c", "021e0fde", "51854d60", "484b5019"].flatMap String.toList,
        by decide, Hex.digits_of_all (by decide)⟩
    else
      ⟨["52db13a4", "6f101edb", "6b79079e", "19c88df9", "b46a802f", "661d69de", "2bf12db1", "73f0e6c0"].flatMap String.toList,
        by decide, Hex.digits_of_all (by decide)⟩
  uuid4
    | 0 => ⟨["3f9c1e7a", "8b2d4c6e", "9f0a1b2c", "3d4e5f60"].flatMap String.toList,
      by decide, Hex.digits_of_all (by decide)⟩
    | _ => ⟨["7c2e9d1b", "3a5f4e6c", "8b7a9f0e", "1d2c3b4a"].flatMap String.toList,
      by decide, Hex.digits_of_all (by decide)⟩
  library := ⟨fun _ => .error .notFound, fun text => .error ("Invalid isoformat string: " ++ text)⟩

def sampleOracle : Oracle where
  image _ := .ok (some "GIF", 1, 1)
  scan _ _ := .ok ()
  utc_now := ⟨0, false, .utc, by decide⟩

def sampleService : AttachmentService := ⟨.sqlite, 1024, 25000000, 0, by decide⟩

def sampleUpload : Call :=
  .upload ⟨"u1", "w1", "t1", "customer"⟩ "dot.gif" "image/gif" sampleImage sampleOracle

def sampleRecord : AttachmentRecord where
  id := "3f9c1e7a8b2d4c6e9f0a1b2c3d4e5f60"
  workspace_id := "w1"
  tenant_id := "t1"
  user_id := "u1"
  filename := "dot.gif"
  content_type := "image/gif"
  image_format := "GIF"
  size_bytes := 35
  sha256 := "6c63cc5063ac82d8bbc925f9a31adf3a87f1510c021e0fde51854d60484b5019"
  width := 1
  height := 1
  storage_path := "52db13a46f101edb6b79079e19c88df9b46a802f661d69de2bf12db173f0e6c0/" ++
    "3f9c1e7a8b2d4c6e9f0a1b2c3d4e5f60.gif"
  created_at := "0001-01-01T00:00:00+00:00"

/-- Another user of the tenant tries to delete an upload; its owner reads it afterwards. -/
theorem upload_law_sample :
    (perform sampleService sampleWorld sampleUpload (.init .sqlite)).1 =
        .ok (.record sampleRecord) ∧
      sampleService.read_content sampleWorld ⟨"u1", "w1", "t1", "manager"⟩ sampleRecord.id
        (after sampleService sampleWorld [.delete ⟨"u2", "w1", "t1", "admin"⟩ sampleRecord.id]
          (perform sampleService sampleWorld sampleUpload (.init .sqlite)).2) =
        .ok (sampleRecord, sampleImage) := by
  have hchecks : (perform sampleService sampleWorld sampleUpload (.init .sqlite)).1 = .ok (.record sampleRecord) ∧
      (after sampleService sampleWorld
        [sampleUpload, .delete ⟨"u2", "w1", "t1", "admin"⟩ sampleRecord.id] (.init .sqlite)).drawn = 1 := by
    decide +kernel
  obtain ⟨hupload, hdrawn⟩ := hchecks
  have law := upload_law sampleService sampleWorld []
    [.delete ⟨"u2", "w1", "t1", "admin"⟩ sampleRecord.id] _ _ _ _ _ sampleRecord hupload
    fun m hm n hn _ => by
      have hm' : m < 1 := lt_of_lt_of_eq hm hdrawn
      have hn' : n < 1 := lt_of_lt_of_eq hn hdrawn
      omega
  refine ⟨hupload, ((law.2.1 ?_ ⟨"u1", "w1", "t1", "manager"⟩).1).mpr rfl⟩
  intro x hx
  obtain rfl := List.mem_singleton.mp hx
  exact fun h => absurd h.2 (by decide)

end Law

end EnterpriseCopilot.Attachment
