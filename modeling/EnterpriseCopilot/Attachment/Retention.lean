import EnterpriseCopilot.Attachment.Service
import EnterpriseCopilot.Lib.Lockstep
import EnterpriseCopilot.Python.Isoformat

/-! What a purge takes away, and what it leaves. -/

namespace EnterpriseCopilot.Attachment

open EnterpriseCopilot.Lib EnterpriseCopilot.Python EnterpriseCopilot.Runtime

/-- PostgreSQL compares texts byte by byte. -/
def Backend.Bytewise : Backend → Prop
  | .postgres lt => ∀ s t, lt s t = decide (utf8 s < utf8 t)
  | _ => True

/-- Every record has a text of a UTC time, which `fromisoformat` reads. -/
structure Dated (L : Library) (created : AttachmentRecord → DateTime) (rows : List AttachmentRecord) : Prop where
  stamp : ∀ r ∈ rows, Stamp r.created_at (created r)
  reads : ∀ r ∈ rows, L.isoParser r.created_at = .ok ⟨(created r).wall, some 0, (created r).inRange⟩

section Selection

variable {b : Backend} {L : Library} {created : AttachmentRecord → DateTime} {cutoff d : DateTime} {text : String}

theorem textLt_of_precedes (hb : b.Bytewise) {x y : List Char} (h : Precedes x y)
    (hbytes : Precedes (utf8 (String.ofList x)) (utf8 (String.ofList y))) :
    b.textLt (String.ofList x) (String.ofList y) = true ∧ b.textLt (String.ofList y) (String.ofList x) = false := by
  have hlt : String.ofList x < String.ofList y := by
    rw [String.lt_iff, String.toList_ofList, String.toList_ofList]
    exact h.lt
  have hnot : ¬ String.ofList y < String.ofList x := by
    rw [String.lt_iff, String.toList_ofList, String.toList_ofList]
    exact h.not_lt
  cases b with
  | postgres lt =>
    change lt _ _ = true ∧ lt _ _ = false
    rw [hb, hb]
    exact ⟨decide_eq_true hbytes.lt, decide_eq_false hbytes.not_lt⟩
  | memory => exact ⟨decide_eq_true hlt, decide_eq_false hnot⟩
  | sqlite => exact ⟨decide_eq_true hlt, decide_eq_false hnot⟩

theorem textLt_self (hb : b.Bytewise) (s : String) : b.textLt s s = false := by
  have hirrefl : ¬ s < s := by
    rw [String.lt_iff]
    exact List.lt_irrefl _
  cases b with
  | postgres lt =>
    change lt s s = false
    rw [hb]
    exact decide_eq_false (List.lt_irrefl _)
  | memory => exact decide_eq_false hirrefl
  | sqlite => exact decide_eq_false hirrefl

/-- The order of the texts is the order of the times. -/
theorem textLt_stamp (hb : b.Bytewise) (h : Stamp text d) (hcutoff : cutoff.tzinfo = .utc) :
    b.textLt text cutoff.isoformat = decide (d.wall < cutoff.wall) := by
  obtain ⟨hd, e, rfl⟩ := h
  rw [show cutoff.isoformat = String.ofList (cutoff.stampChars false) from congrArg String.ofList cutoff.isoChars_eq]
  rcases Nat.lt_trichotomy d.wall cutoff.wall with hlt | heq | hgt
  · have hfirst := DateTime.precedes_stamp e false hd hcutoff hlt
    rw [(textLt_of_precedes hb hfirst (DateTime.precedes_bytes hd hcutoff hfirst)).1, decide_eq_true hlt]
  · rw [decide_eq_false (Nat.not_lt_of_le (Nat.le_of_eq heq.symm))]
    obtain hsame | hlater := DateTime.stamp_same (e := e) hd hcutoff heq
    · rw [hsame]
      exact textLt_self hb _
    · exact (textLt_of_precedes hb hlater (DateTime.precedes_bytes hcutoff hd hlater)).2
  · have hlater := DateTime.precedes_stamp false e hcutoff hd hgt
    rw [(textLt_of_precedes hb hlater (DateTime.precedes_bytes hcutoff hd hlater)).2,
      decide_eq_false (Nat.not_lt_of_gt hgt)]

theorem filter_zip_map {α β : Type} (p : β → Bool) (f : α → β) (l : List α) :
    ((l.zip (l.map f)).filter fun x => p x.2).map Prod.fst = l.filter fun a => p (f a) := by
  induction l with
  | nil => rfl
  | cons a l ih =>
    rw [List.map_cons, List.zip_cons_cons, List.filter_cons, List.filter_cons]
    split
    · rw [List.map_cons, ih]
    · exact ih

/-- The time that a text of UTC is read as. -/
def readBack (d : DateTime) : DateTime := ⟨d.wall, false, .utc, d.inRange⟩

theorem parse_stamp {value : String}
    (h : L.isoParser value = .ok ⟨d.wall, some 0, d.inRange⟩) :
    _parse_timestamp L value = .ok (readBack d) := by
  unfold _parse_timestamp Library.fromisoformat
  rw [h]
  rfl

/-- Each store selects the records from before the cutoff. -/
theorem list_before_ok {store : Store b} (hb : b.Bytewise) (hdated : Dated L created store.rows)
    (hcutoff : cutoff.tzinfo = .utc) : ∃ found, store.list_before L cutoff = .ok found ∧
      found.Perm (store.rows.filter fun r => (created r).instant < cutoff.instant) := by
  have hinstant : ∀ r ∈ store.rows, (created r).instant = (created r).wall := fun r hr =>
    DateTime.instant_utc (hdated.stamp r hr).1
  have htext : ∀ r ∈ store.rows, b.textLt r.created_at cutoff.isoformat =
      decide ((created r).instant < cutoff.instant) := by
    intro r hr
    rw [textLt_stamp hb (hdated.stamp r hr) hcutoff, hinstant r hr, DateTime.instant_utc hcutoff]
    simp
  unfold Store.list_before
  rw [DateTime.astimezone_utc hcutoff]
  cases b with
  | memory =>
    have htimes : store.rows.mapM (fun r => _parse_timestamp L r.created_at) =
        .ok (store.rows.map fun r => readBack (created r)) := by
      refine mapM_ok.mpr (List.forall₂_map_right_iff.mpr (List.forall₂_same.mpr fun r hr => ?_))
      exact parse_stamp (hdated.reads r hr)
    have hblt : ∀ r ∈ store.rows,
        (readBack (created r)).blt cutoff = decide ((created r).instant < cutoff.instant) := by
      intro r hr
      have hsame : (readBack (created r)).tzinfo.same cutoff.tzinfo = true := by rw [hcutoff]; rfl
      rw [DateTime.blt, if_pos hsame, hinstant r hr, DateTime.instant_utc hcutoff]
      exact decide_eq_decide.mpr Int.ofNat_lt.symm
    refine ⟨_, congrArg (Except.map _) htimes, ?_⟩
    dsimp only
    rw [filter_zip_map fun x : DateTime => x.blt cutoff, List.filter_congr hblt]
  | sqlite =>
    refine ⟨_, rfl, (List.perm_insertionSort _ _).trans ?_⟩
    rw [List.filter_congr htext]
  | postgres lt =>
    refine ⟨_, rfl, (List.perm_insertionSort _ _).trans ?_⟩
    rw [List.filter_congr htext]

end Selection

section Purge

variable {S : AttachmentService} {W : World} {created : AttachmentRecord → DateTime} {now : DateTime}
  {s t : State S.backend} {purged : List AttachmentRecord}

/-- The record was created before `now` minus the retention. -/
def Expired (S : AttachmentService) (created : AttachmentRecord → DateTime) (now : DateTime)
    (r : AttachmentRecord) : Prop :=
  (created r).instant < now.instant - S.retention_days * dayMicros

instance : DecidablePred (Expired S created now) := fun r =>
  inferInstanceAs (Decidable ((created r).instant < now.instant - S.retention_days * dayMicros))

/-- What is gone after a purge, and what is left. -/
structure Purged (S : AttachmentService) (W : World) (created : AttachmentRecord → DateTime) (now : DateTime)
    (s : State S.backend) (purged : List AttachmentRecord) (t : State S.backend) : Prop where
  returned : purged.Perm (s.store.rows.filter fun r => Expired S created now r)
  records : t.store.rows = s.store.rows.filter fun r => ¬ Expired S created now r
  deleted : ∀ r ∈ purged, ∀ path, Files._path r.storage_path = .ok path → t.files path = none
  blobs : ∀ path, (∀ r ∈ purged, Files._path r.storage_path ≠ .ok path) → t.files path = s.files path
  again : S.purge_expired W now t = (.ok [], t)

/-- The loop takes away the records that it is given, one after the other. -/
theorem purge_ok {records : List AttachmentRecord} (deleted : List AttachmentRecord)
    (hmem : ∀ r ∈ records, r ∈ s.store.rows) (hnodup : records.Nodup)
    (hpath : ∀ r ∈ records, ∃ path, Files._path r.storage_path = .ok path) :
    ∃ t, S.purge records deleted s = (.ok (deleted ++ records), t) ∧
      t.store.rows = s.store.rows.filter (· ∉ records) ∧
      (∀ r ∈ records, ∀ path, Files._path r.storage_path = .ok path → t.files path = none) ∧
      ∀ path, (∀ r ∈ records, Files._path r.storage_path ≠ .ok path) → t.files path = s.files path := by
  induction records generalizing s deleted with
  | nil => exact ⟨s, by rw [List.append_nil]; rfl, by simp, by simp, fun _ _ => rfl⟩
  | cons r records ih =>
    obtain ⟨hr, hrecords⟩ := List.forall_mem_cons.mp hmem
    obtain ⟨hnew, hnodup⟩ := List.nodup_cons.mp hnodup
    obtain ⟨⟨path, hone⟩, hpaths⟩ := List.forall_mem_cons.mp hpath
    have hfiles : s.files.delete r.storage_path = .ok (Function.update s.files path none) := by
      rw [Files.delete, hone]
      rfl
    have hget : (s.store.delete r.id r.scope).1 = some r := by
      rw [Store.delete_fst]
      exact Store.get_eq_some.mpr ⟨hr, rfl, rfl⟩
    have hrows := Store.delete_rows_of_mem hr
    have hrest : ∀ x ∈ records, x ∈ (s.store.delete r.id r.scope).2.rows := by
      intro x hx
      rw [hrows, List.mem_filter]
      exact ⟨hrecords x hx, decide_eq_true fun heq => hnew (heq ▸ hx)⟩
    obtain ⟨t, hrun, hstore, hgone, hkept⟩ := ih
      (s := { s with files := Function.update s.files path none, store := (s.store.delete r.id r.scope).2 })
      (deleted ++ [r]) hrest hnodup hpaths
    refine ⟨t, ?_, ?_, ?_, ?_⟩
    · rw [S.purge_next hfiles, hget, Option.toList_some, hrun, List.append_assoc, List.singleton_append]
    · rw [hstore, hrows, List.filter_filter]
      exact List.filter_congr fun x _ => by simp [Bool.and_comm]
    · intro x hx p hp
      by_cases hlater : ∃ y ∈ records, Files._path y.storage_path = .ok p
      · obtain ⟨y, hy, hyp⟩ := hlater
        exact hgone y hy p hyp
      · rw [hkept p fun y hy hyp => hlater ⟨y, hy, hyp⟩]
        rcases List.mem_cons.mp hx with rfl | hx
        · cases hone.symm.trans hp
          exact Function.update_self ..
        · exact absurd ⟨x, hx, hp⟩ hlater
    · intro p hp
      obtain ⟨hhere, hothers⟩ := List.forall_mem_cons.mp hp
      rw [hkept p hothers]
      exact Function.update_of_ne (fun heq : p = path => hhere (heq ▸ hone)) ..

/-- The cutoff is a time of the calendar. -/
theorem cutoff_ok (hnow : now.instant < wallEnd) (hcut : S.retention_days * dayMicros ≤ now.instant) :
    ∃ cutoff : DateTime, cutoff.tzinfo = .utc ∧ cutoff.instant = now.instant - S.retention_days * dayMicros ∧
      ∀ s : State S.backend, S.expired W now s = s.store.list_before W.library cutoff := by
  have hretention : (0 : Int) ≤ S.retention_days * dayMicros := Int.natCast_nonneg (S.retention_days * dayMicros)
  obtain ⟨current, hcurrent⟩ := DateTime.exists_astimezone_utc.mpr ⟨Int.le_trans hretention hcut, hnow⟩
  have hutc := DateTime.tzinfo_of_astimezone hcurrent
  have hinstant := DateTime.instant_of_astimezone hcurrent
  rw [DateTime.instant_utc hutc] at hinstant
  obtain ⟨cutoff, hcutoff⟩ : ∃ d, current.add (-(S.retention_days * dayMicros)) = .ok d := by
    refine DateTime.exists_make _ _ ?_ ?_ <;> omega
  obtain ⟨hwall, -, htz⟩ := DateTime.make_ok hcutoff
  have hzone : cutoff.tzinfo = .utc := htz.trans hutc
  refine ⟨cutoff, hzone, ?_, fun s => ?_⟩
  · rw [DateTime.instant_utc hzone, hwall]
    omega
  · have hshort : ¬ 999999999 < S.retention_days := by
      simp only [dayMicros, wallEnd] at hcut hnow
      omega
    unfold AttachmentService.expired
    rw [hcurrent]
    change (if _ then _ else _) = _
    rw [if_neg hshort, hcutoff]
    rfl

/-- All stores with these rows select the same records for a cutoff, those from before it. -/
def Alike (L : Library) (created : AttachmentRecord → DateTime) (rows : List AttachmentRecord) : Prop :=
  ∀ (b : Backend) (store : Store b) (cutoff : DateTime), b.Bytewise → store.rows = rows → cutoff.tzinfo = .utc →
    ∃ found, store.list_before L cutoff = .ok found ∧
      found.Perm (rows.filter fun r => (created r).instant < cutoff.instant)

/-- A purge takes away the expired records with their contents, on each of the stores, and a second one finds none. -/
theorem purge_exact (hb : S.backend.Bytewise) (hdated : Dated W.library created s.store.rows)
    (hpath : ∀ r ∈ s.store.rows, Expired S created now r → ∃ path, Files._path r.storage_path = .ok path)
    (hdays : 0 < S.retention_days) (hnow : now.instant < wallEnd) (hcut : S.retention_days * dayMicros ≤ now.instant) :
    (∃ purged t, S.purge_expired W now s = (.ok purged, t) ∧ Purged S W created now s purged t) ∧
      Alike W.library created s.store.rows := by
  refine ⟨?_, fun b store cutoff hb' hrows hutc => ?_⟩
  case refine_2 =>
    rw [← hrows] at hdated ⊢
    exact list_before_ok hb' hdated hutc
  obtain ⟨cutoff, hutc, hinstant, hexpired⟩ := cutoff_ok (W := W) hnow hcut
  obtain ⟨purged, hfound, hperm⟩ := list_before_ok hb hdated hutc
  rw [hinstant] at hperm
  have hmem : ∀ r ∈ purged, r ∈ s.store.rows := fun r hr => (List.mem_filter.mp (hperm.mem_iff.mp hr)).1
  have hexp : ∀ r ∈ purged, Expired S created now r := fun r hr =>
    of_decide_eq_true (List.mem_filter.mp (hperm.mem_iff.mp hr)).2
  have hnodup : purged.Nodup := hperm.nodup_iff.mpr ((List.Nodup.of_map _ Store.ids_nodup).filter _)
  obtain ⟨t, hrun, hrows, hgone, hkept⟩ := purge_ok [] hmem hnodup fun r hr => hpath r (hmem r hr) (hexp r hr)
  have hzero : S.retention_days ≠ 0 := by omega
  have hrecords : t.store.rows = s.store.rows.filter fun r => ¬ Expired S created now r := by
    rw [hrows]
    refine List.filter_congr fun r hr => decide_eq_decide.mpr (not_congr ?_)
    rw [hperm.mem_iff, List.mem_filter, decide_eq_true_eq]
    exact and_iff_right hr
  refine ⟨purged, t, ?_, hperm, hrecords, hgone, hkept, ?_⟩
  · unfold AttachmentService.purge_expired
    rw [if_neg hzero, hexpired, hfound]
    exact hrun
  · have hdated' : Dated W.library created t.store.rows := by
      rw [hrecords]
      exact ⟨fun r hr => hdated.stamp r (List.mem_filter.mp hr).1, fun r hr => hdated.reads r (List.mem_filter.mp hr).1⟩
    obtain ⟨found, hagain, hnone⟩ := list_before_ok hb hdated' hutc
    have hempty : found = [] := by
      rw [hinstant, hrecords, List.filter_filter] at hnone
      refine List.Perm.eq_nil (hnone.trans (List.Perm.of_eq (List.filter_eq_nil_iff.mpr fun r _ hboth => ?_)))
      obtain ⟨hold, hkept⟩ := (Bool.and_eq_true _ _).mp hboth
      exact of_decide_eq_true hkept (of_decide_eq_true hold)
    unfold AttachmentService.purge_expired
    rw [if_neg hzero, hexpired, hagain, hempty]
    rfl

end Purge

section Sample

theorem zeros_digits (n : Nat) : ∀ c ∈ List.replicate n '0', c ∈ "0123456789abcdef".toList := by
  intro c hc
  rw [List.eq_of_mem_replicate hc]
  decide

theorem digest_length : (List.replicate 64 '0').length = 64 :=
  List.length_replicate

theorem digest_digits : ∀ c ∈ List.replicate 64 '0', c ∈ "0123456789abcdef".toList :=
  zeros_digits 64

theorem uuid_length : (List.replicate 32 '0').length = 32 :=
  List.length_replicate

theorem uuid_digits : ∀ c ∈ List.replicate 32 '0', c ∈ "0123456789abcdef".toList :=
  zeros_digits 32

/-- A world whose `fromisoformat` knows the texts of two times. -/
def knowing (d e : DateTime) : World where
  sha256 _ := ⟨List.replicate 64 '0', digest_length, digest_digits⟩
  uuid4 _ := ⟨List.replicate 32 '0', uuid_length, uuid_digits⟩
  library := {
    zoneInfo := fun _ => .error .notFound
    isoParser := fun text =>
      if text = d.isoformat then .ok ⟨d.wall, some 0, d.inRange⟩
      else if text = e.isoformat then .ok ⟨e.wall, some 0, e.inRange⟩ else .error "Invalid isoformat string" }

theorem knowing_first (d e : DateTime) :
    (knowing d e).library.isoParser d.isoformat = .ok ⟨d.wall, some 0, d.inRange⟩ := by
  simp [knowing]

theorem knowing_second {d e : DateTime} (h : e.isoformat ≠ d.isoformat) :
    (knowing d e).library.isoParser e.isoformat = .ok ⟨e.wall, some 0, e.inRange⟩ := by
  simp [knowing, h]

def january : DateTime := ⟨739616 * dayMicros + 1, false, .utc, by decide⟩

theorem july_inRange : 739797 * dayMicros < wallEnd := by
  decide

def july : DateTime := ⟨739797 * dayMicros, false, .utc, july_inRange⟩

def june : DateTime := ⟨739790 * dayMicros, false, .utc, Nat.lt_trans (by decide) july_inRange⟩

def pictureOf (id : String) (created : DateTime) (storage_path : String) : AttachmentRecord :=
  ⟨id, "w", "t", "u", "a.png", "image/png", "PNG", 1, "", 1, 1, storage_path, created.isoformat⟩

/-- The second one is young, and its key is none of this store. -/
def picture : AttachmentRecord := pictureOf "1" january "a/1.png"

def youngPicture : AttachmentRecord := pictureOf "2" june "/2.png"

def taken (r : AttachmentRecord) : DateTime := if r.id = "1" then january else june

theorem june_later : june.isoformat ≠ january.isoformat := by
  decide +kernel

def monthly (b : Backend) : AttachmentService := ⟨b, 1, 1, 30, by decide⟩

def twoPictures : State (monthly .sqlite).backend :=
  ⟨⟨[picture, youngPicture], by decide⟩, fun _ => some [0], 0⟩

theorem purge_exact_sample : (∃ purged t,
      (monthly .sqlite).purge_expired (knowing january june) july twoPictures = (.ok purged, t) ∧
        Purged (monthly .sqlite) (knowing january june) taken july twoPictures purged t) ∧
    Alike (knowing january june).library taken [picture, youngPicture] := by
  have hdated : Dated (knowing january june).library taken [picture, youngPicture] := by
    constructor <;> intro r hr <;> obtain rfl | rfl := List.mem_pair.mp hr
    · exact DateTime.stamp_isoformat rfl
    · exact DateTime.stamp_isoformat rfl
    · exact knowing_first january june
    · exact knowing_second june_later
  have hpath : ∀ r ∈ [picture, youngPicture], Expired (monthly .sqlite) taken july r →
      ∃ path, Files._path r.storage_path = .ok path := by
    intro r hr hexpired
    obtain rfl | rfl := List.mem_pair.mp hr
    · exact ⟨["a".toList, "1.png".toList], by decide +kernel⟩
    · exact absurd hexpired (by decide)
  exact purge_exact (S := monthly .sqlite) (s := twoPictures) trivial hdated hpath (by decide) (by decide) (by decide)

/-- The first moment of the calendar, before which no cutoff lies. -/
theorem dawn_inRange : 0 < wallEnd := by
  decide

def dawn : DateTime := ⟨0, false, .utc, dawn_inRange⟩

theorem purge_overflow : ¬ ∀ (S : AttachmentService) (W : World) (created : AttachmentRecord → DateTime)
    (now : DateTime) (s : State S.backend), S.backend.Bytewise → Dated W.library created s.store.rows →
      (∀ r ∈ s.store.rows, Expired S created now r → ∃ path, Files._path r.storage_path = .ok path) →
        0 < S.retention_days →
          ∃ purged t, S.purge_expired W now s = (.ok purged, t) ∧ Purged S W created now s purged t := by
  intro h
  obtain ⟨purged, t, hrun, -⟩ := h (monthly .memory) (knowing dawn dawn) (fun _ => dawn) dawn (State.init .memory) trivial
    ⟨by simp [State.init, Table.empty], by simp [State.init, Table.empty]⟩
    (by simp [State.init, Table.empty]) (by decide)
  have herror : ((monthly .memory).purge_expired (knowing dawn dawn) dawn (State.init .memory)).1 =
      .error (.other (.overflowError "date value out of range")) := rfl
  rw [hrun] at herror
  cases herror

end Sample

end EnterpriseCopilot.Attachment
