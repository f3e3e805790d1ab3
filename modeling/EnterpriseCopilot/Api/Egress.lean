import EnterpriseCopilot.Api.Trail

/-! Where the images come from that go to the provider. -/

namespace EnterpriseCopilot.Api

open EnterpriseCopilot.Python EnterpriseCopilot.Runtime
open EnterpriseCopilot.Attachment (AttachmentRecord Fresh Scope Shelf Shelved)

/-- The request stored the image: it was answered with the record, or its event could not be stored. -/
structure Stores (D : Deployment) (x : Exchange) (record : AttachmentRecord) (image : Bytes) : Prop where
  operation : ∃ filename content_type decode scan utc_now,
    x.request.operation = .upload_attachment filename content_type image decode scan utc_now
  scope : record.scope = .of x.request.identity
  size : image.length ≤ D.attachments.max_bytes
  outcome : x.outcome = .response 201 (.attachment (_attachment_payload record)) ∨
    x.outcome = .unhandled ∧ x.request.raises ≠ none

/-- The request takes the record away: its owner deletes it, or the retention job reports it. -/
def Takes (record : AttachmentRecord) (x : Exchange) : Prop :=
  match x.request.operation with
  | .delete_attachment attachment_id => attachment_id = record.id ∧ Scope.of x.request.identity = record.scope
  | .purge_expired _ => ∃ records, x.outcome = .response 200 (.purged records) ∧ record ∈ records
  | _ => False

/-- The image has been stored and not been taken away since. -/
def Kept (D : Deployment) (xs : List Exchange) (record : AttachmentRecord) (image : Bytes) : Prop :=
  ∃ earlier x later, xs = earlier ++ x :: later ∧ Stores D x record image ∧ ∀ y ∈ later, ¬ Takes record y

/-- What the service has is what the requests so far have stored and not taken away. -/
def Provided (D : Deployment) (xs : List Exchange) (s : State D) : Prop :=
  ∃ shelf : Shelf, Shelved D.attachments D.world s.attachments shelf ∧ ∀ e ∈ shelf, Kept D xs e.1 e.2

section Step

variable {D : Deployment} {xs : List Exchange} {s : State D} {r : Request} {x : Served D} {record : AttachmentRecord}
  {image : Bytes}

theorem Kept.snoc {y : Exchange} (h : Kept D xs record image) (hy : ¬ Takes record y) :
    Kept D (xs ++ [y]) record image := by
  obtain ⟨earlier, x, later, rfl, hstores, hlater⟩ := h
  refine ⟨earlier, x, later ++ [y], by simp, hstores, fun z hz => ?_⟩
  rcases List.mem_append.mp hz with hz | hz
  · exact hlater z hz
  · exact List.mem_singleton.mp hz ▸ hy

theorem not_takes {outcome : Outcome} {sent : Option Outgoing} (h : r.operation.removes = false) :
    ¬ Takes record ⟨r, outcome, sent⟩ := by
  unfold Takes
  dsimp only
  split
  · rename_i heq
    rw [heq] at h
    cases h
  · rename_i heq
    rw [heq] at h
    cases h
  · exact id

/-- Requests that leave the service alone. -/
theorem Provided.still {outcome : Outcome} {sent : Option Outgoing} {t : State D} (h : Provided D xs s)
    (hop : r.operation.removes = false) (hsame : t.attachments = s.attachments) :
    Provided D (xs ++ [⟨r, outcome, sent⟩]) t := by
  obtain ⟨shelf, hshelved, hkept⟩ := h
  exact ⟨shelf, hsame ▸ hshelved, fun e he => (hkept e he).snoc (not_takes hop)⟩

theorem mem_next {shelf : Shelf} {e : AttachmentRecord × Bytes}
    {y : Attachment.Call × Except Attachment.Failure Attachment.Answer} (h : e ∈ shelf.next y) :
    (e ∈ shelf ∧ ¬ Attachment.Removes e.1 y) ∨
    ∃ i filename content_type oracle, y = (.upload i filename content_type e.2 oracle, .ok (.record e.1)) := by
  unfold Shelf.next at h
  split at h
  · rcases List.mem_append.mp h with h | h
    · exact .inl ⟨h, id⟩
    · rw [List.mem_singleton.mp h]
      exact .inr ⟨_, _, _, _, rfl⟩
  · obtain ⟨hmem, hkeep⟩ := List.mem_filter.mp h
    refine .inl ⟨hmem, fun ⟨hid, hscope⟩ => ?_⟩
    simp [hid, hscope] at hkeep
  · obtain ⟨hmem, hkeep⟩ := List.mem_filter.mp h
    have hremains : e.1 ∉ _ := of_decide_eq_true hkeep
    exact .inl ⟨hmem, hremains⟩
  · rename_i hupload hdelete hpurge
    refine .inl ⟨h, fun hremoves => ?_⟩
    unfold Attachment.Removes at hremoves
    split at hremoves
    · exact hdelete _ _ _ rfl
    · exact hpurge _ _ rfl
    · exact hremoves

theorem upload_call_inv {i : IdentityContext} {filename content_type : String} {data : Bytes}
    {oracle : Attachment.Oracle} (h : D.call? r = some (.upload i filename content_type data oracle)) :
    i = r.identity ∧ ∃ filename content_type image decode scan utc_now,
      r.operation = .upload_attachment filename content_type image decode scan utc_now ∧
        data = image.take (D.attachments.max_bytes + 1) := by
  unfold Deployment.call? at h
  split at h
  · rename_i hop
    cases h
    exact ⟨rfl, _, _, _, _, _, _, hop, rfl⟩
  · cases h
  · cases h
  · cases h

theorem uploaded_inv {i : IdentityContext} {filename content_type : String} {data : Bytes}
    {oracle : Attachment.Oracle} (h : (D.perform (.upload i filename content_type data oracle) s).1 =
      .ok (.record record)) : record.scope = .of i ∧ data.length ≤ D.attachments.max_bytes := by
  change (D.attachments.upload D.world i filename content_type data oracle s.attachments).1.map
    Attachment.Answer.record = _ at h
  generalize hup : D.attachments.upload D.world i filename content_type data oracle s.attachments = y at h
  obtain ⟨answer, _⟩ := y
  obtain ⟨⟨e, rfl⟩, _⟩ | ⟨_, _, _, _, hlength, _, _, ⟨e, rfl, _⟩ | ⟨record', _, rfl, _, _, hscope, _⟩⟩ :=
    Attachment.upload_cases hup
  · cases h
  · cases h
  · cases h
    exact ⟨hscope, hlength⟩

theorem removes_of_takes {c : Attachment.Call} {outcome : Outcome} {sent : Option Outgoing}
    (h : Takes record ⟨r, outcome, sent⟩) (hcall : D.call? r = some c)
    (hpurged : ∀ now records, r.operation = .purge_expired now → outcome = .response 200 (.purged records) →
      (D.perform c s).1 = .ok (.records records)) : Attachment.Removes record (c, (D.perform c s).1) := by
  unfold Takes at h
  dsimp only at h
  split at h
  · rename_i hop
    rw [Deployment.call?, hop] at hcall
    cases hcall
    exact h
  · rename_i hop
    rw [Deployment.call?, hop] at hcall
    cases hcall
    obtain ⟨records, houtcome, hmem⟩ := h
    rw [hpurged _ records hop houtcome]
    exact hmem
  · exact h.elim

/-- Requests that make a call of the service. -/
theorem Provided.performed {c : Attachment.Call} {outcome : Outcome} {sent : Option Outgoing} {t : State D}
    (h : Provided D xs s) (hcall : D.call? r = some c) (hsame : t.attachments = (D.perform c s).2)
    (hfresh : Fresh D.world t.attachments.drawn)
    (hpurged : ∀ now records, r.operation = .purge_expired now → outcome = .response 200 (.purged records) →
      (D.perform c s).1 = .ok (.records records))
    (hstores : ∀ record, (D.perform c s).1 = .ok (.record record) → event_type_of c = "attachment.created" →
      outcome = .response 201 (.attachment (_attachment_payload record)) ∨ outcome = .unhandled ∧ r.raises ≠ none) :
    Provided D (xs ++ [⟨r, outcome, sent⟩]) t := by
  obtain ⟨shelf, hshelved, hkept⟩ := h
  rw [hsame] at hfresh
  refine ⟨_, hsame ▸ Attachment.perform_shelved c hshelved hfresh, fun e he => ?_⟩
  obtain ⟨hmem, hremains⟩ | ⟨i, filename, content_type, oracle, heq⟩ := mem_next he
  · exact (hkept e hmem).snoc fun htakes => hremains (removes_of_takes htakes hcall hpurged)
  · obtain ⟨rfl, hok⟩ := Prod.mk.inj heq
    obtain ⟨hscope, hlength⟩ := uploaded_inv (D := D) hok
    obtain ⟨rfl, filename, content_type, image, decode, scan, utc_now, hop, hdata⟩ := upload_call_inv hcall
    have hshort : image.length ≤ D.attachments.max_bytes := by
      rw [hdata, List.length_take] at hlength
      omega
    have himage : e.2 = image := by
      rw [hdata, List.take_of_length_le (hshort.trans (Nat.le_succ _))]
    exact ⟨xs, _, [], rfl, ⟨⟨filename, content_type, decode, scan, utc_now, himage ▸ hop⟩, hscope, himage ▸ hshort,
      hstores _ hok rfl⟩, by simp⟩

theorem handled_provided (h : Handled D r s x) (hs : Provided D xs s) (hfresh : Fresh D.world x.state.attachments.drawn) :
    Provided D (xs ++ [⟨r, x.outcome, x.sent⟩]) x.state := by
  cases h with
  | idle hop _ => exact hs.still hop rfl
  | refused hcall hkeeps herror _ =>
    refine hs.performed hcall rfl hfresh (fun now _ hop _ => absurd hop (hkeeps now)) fun record hok _ => ?_
    cases herror.symm.trans hok
  | @purged _ now hop _ hrecords =>
    have hcall : D.call? r = some (.purge_expired now) := by rw [Deployment.call?, hop]
    exact hs.performed hcall rfl hfresh (fun _ records _ houtcome => hrecords records houtcome)
      fun record _ h => absurd h (by simp [event_type_of])
  | @changed _ c record _ _ _ _ _ hcall hok _ _ hbody hfinished =>
    have hkeeps : ∀ now, r.operation ≠ .purge_expired now := not_purge_of_record hcall hok
    have hanswer : ∀ record', (D.perform c s).1 = .ok (.record record') → record' = record := by
      intro record' hok'
      cases hok.symm.trans hok'
      rfl
    cases hfinished with
    | raised hraised _ =>
      exact hs.performed hcall rfl hfresh (fun now _ hop _ => absurd hop (hkeeps now)) fun _ _ _ => .inr ⟨rfl, hraised⟩
    | done =>
      refine hs.performed hcall rfl hfresh (fun now _ hop _ => absurd hop (hkeeps now)) fun record' hok' htype => ?_
      obtain ⟨rfl, rfl⟩ := hbody htype
      exact .inl (hanswer record' hok' ▸ rfl)
  | analyzed hsends _ _ hfinished =>
    obtain ⟨http, utc_now, hop⟩ := hsends.operation
    refine hs.still (by rw [hop]; rfl) ?_
    cases hfinished <;> rfl
  | failed hsends _ _ _ =>
    obtain ⟨http, utc_now, hop⟩ := hsends.operation
    exact hs.still (by rw [hop]; rfl) rfl
  | lost hsends _ =>
    obtain ⟨http, utc_now, hop⟩ := hsends.operation
    exact hs.still (by rw [hop]; rfl) rfl

theorem handled_drawn (h : Handled D r s x) : s.attachments.drawn ≤ x.state.attachments.drawn := by
  cases h with
  | idle => exact le_rfl
  | refused => exact Attachment.perform_drawn _ _
  | purged => exact Attachment.perform_drawn _ _
  | changed _ _ _ _ _ hfinished => cases hfinished <;> exact Attachment.perform_drawn _ _
  | analyzed _ _ _ hfinished => cases hfinished <;> exact le_rfl
  | failed => exact le_rfl
  | lost => exact le_rfl

theorem handled_sends {o : Outgoing} (h : Handled D r s x) (hsent : x.sent = some o) :
    ∃ limits attachment_id request record data, Sends D r s limits attachment_id request record data o := by
  cases h with
  | idle => cases hsent
  | refused => cases hsent
  | purged => cases hsent
  | changed => cases hsent
  | analyzed hsends =>
    cases hsent
    exact ⟨_, _, _, _, _, hsends⟩
  | failed hsends =>
    cases hsent
    exact ⟨_, _, _, _, _, hsends⟩
  | lost hsends =>
    cases hsent
    exact ⟨_, _, _, _, _, hsends⟩

/-- What is sent is what was stored. -/
theorem Provided.kept_of_sends {limits : Limits.Store} {attachment_id : String} {request : AnalysisRequest}
    {data : Bytes} {o : Outgoing} (h : Provided D xs s) (hsends : Sends D r s limits attachment_id request record data o) :
    Kept D xs record data ∧ record.id = attachment_id ∧ record.scope = .of r.identity := by
  obtain ⟨shelf, hshelved, hkept⟩ := h
  obtain ⟨record', hrecord, hread⟩ := bind_ok hsends.read
  obtain ⟨hvalid, hmem, hid, hscope⟩ := Attachment._scoped_record_ok.mp hrecord
  obtain ⟨stored, hstored⟩ := hshelved.exists_mem hmem
  have hok := Attachment.read_content_ok hshelved hstored hvalid hscope
  rw [hid, hsends.read] at hok
  obtain ⟨rfl, rfl⟩ := Prod.mk.inj (Except.ok.inj hok)
  exact ⟨hkept _ hstored, hid, hscope⟩

end Step

section Run

variable {D : Deployment} {xs : List Exchange} {s : State D} {requests : List Request}

theorem drawn_run (requests : List Request) (s : State D) :
    s.attachments.drawn ≤ (after D requests s).attachments.drawn := by
  induction requests generalizing s with
  | nil => exact le_rfl
  | cons r requests ih => exact (handled_drawn (handle_cases D r s)).trans (ih _)

theorem provided_run (h : Provided D xs s) (hfresh : Fresh D.world (after D requests s).attachments.drawn) :
    Provided D (xs ++ trace D requests s) (after D requests s) := by
  induction requests generalizing xs s with
  | nil =>
    rw [trace, List.append_nil]
    exact h
  | cons r requests ih =>
    have hstep := handled_provided (handle_cases D r s) h (hfresh.mono (drawn_run requests _))
    have hrun := ih hstep hfresh
    rw [trace]
    rwa [List.append_assoc] at hrun

theorem provided_init : Provided D [] (.init D) := ⟨[], Attachment.shelved_init, by simp⟩

theorem after_append (requests more : List Request) (s : State D) :
    after D (requests ++ more) s = after D more (after D requests s) := List.foldl_append

theorem trace_at (first : List Request) (r : Request) (rest : List Request) (s : State D) :
    ∃ before x later, trace D (first ++ r :: rest) s = before ++ x :: later ∧
      x.sent = (D.handle r (after D first s)).sent := by
  induction first generalizing s with
  | nil => exact ⟨[], _, _, rfl, rfl⟩
  | cons q first ih =>
    obtain ⟨before, x, later, htrace, hx⟩ := ih (D.handle q s).state
    exact ⟨_ :: before, x, later, congrArg (_ :: ·) htrace, hx⟩

theorem trace_split {before after' : List Exchange} {x : Exchange} (h : trace D requests s = before ++ x :: after') :
    ∃ first r rest, requests = first ++ r :: rest ∧ before = trace D first s ∧
      x = ⟨r, (D.handle r (after D first s)).outcome, (D.handle r (after D first s)).sent⟩ := by
  induction before generalizing requests s with
  | nil =>
    cases requests with
    | nil => cases h
    | cons r rest =>
      obtain ⟨hx, _⟩ := List.cons.inj h
      exact ⟨[], r, rest, rfl, rfl, hx.symm⟩
  | cons y before ih =>
    cases requests with
    | nil => cases h
    | cons q requests =>
      obtain ⟨hy, h⟩ := List.cons.inj h
      obtain ⟨first, r, rest, rfl, rfl, hx⟩ := ih h
      exact ⟨q :: first, r, rest, rfl, by rw [trace, hy], hx⟩

/-- An image goes to the provider only with the consent that its request gives, and it is the image that a request of
the same user, workspace and tenant has stored under the id and that has not been taken away since. -/
theorem sent_as_stored (hfresh : Fresh D.world (after D requests (.init D)).attachments.drawn)
    {before later : List Exchange} {x : Exchange} (hx : trace D requests (.init D) = before ++ x :: later) {o : Outgoing}
    (hsent : x.sent = some o) :
    ∃ attachment_id request http utc_now record image,
      x.request.operation = .analyze_attachment attachment_id request http utc_now ∧
      request.allow_external_processing = true ∧ record.id = attachment_id ∧ record.scope = .of x.request.identity ∧
      (∃ p, D.vision = some ⟨some p⟩ ∧ o = p.outgoing image record.content_type request.task
        (Vision.VisionService.prompt_for request.prompt)) ∧
      Vision.image_of record.content_type o = some image ∧ Kept D before record image := by
  obtain ⟨first, r, rest, rfl, rfl, rfl⟩ := trace_split hx
  rw [after_append] at hfresh
  have hprovided := provided_run provided_init (hfresh.mono (drawn_run (r :: rest) _))
  obtain ⟨limits, attachment_id, request, record, data, hsends⟩ := handled_sends (handle_cases D r _) hsent
  obtain ⟨http, utc_now, hop⟩ := hsends.operation
  obtain ⟨hkept, hid, hscope⟩ := hprovided.kept_of_sends hsends
  obtain ⟨p, hvision, rfl⟩ := hsends.provider
  exact ⟨attachment_id, request, http, utc_now, record, data, hop, hsends.consent, hid, hscope, ⟨p, hvision, rfl⟩,
    Vision.image_of_outgoing, hkept⟩

/-- The first analysis of the sample sends the image of its upload. -/
theorem sent_as_stored_sample : ∃ before x later o, trace sample sampleRequests (.init sample) = before ++ x :: later ∧
    x.sent = some o ∧
    ∃ attachment_id request http utc_now record image,
      x.request.operation = .analyze_attachment attachment_id request http utc_now ∧
      request.allow_external_processing = true ∧ record.id = attachment_id ∧ record.scope = .of x.request.identity ∧
      (∃ p, sample.vision = some ⟨some p⟩ ∧ o = p.outgoing image record.content_type request.task
        (Vision.VisionService.prompt_for request.prompt)) ∧
      Vision.image_of record.content_type o = some image ∧ Kept sample before record image := by
  obtain ⟨_, _, hdrawn, hsent⟩ := sample_checks
  have hfresh : Fresh sample.world (after sample sampleRequests (.init sample)).attachments.drawn := by
    intro m hm n hn _
    rw [hdrawn] at hm hn
    omega
  have hrequests : [sampleUpload] ++ sampleAnalysis "A dot." ::
      [sampleAnalysis " ", ask (.delete_attachment Attachment.sampleRecord.id)] = sampleRequests := rfl
  obtain ⟨before, x, later, htrace, hx⟩ := trace_at [sampleUpload] (sampleAnalysis "A dot.")
    [sampleAnalysis " ", ask (.delete_attachment Attachment.sampleRecord.id)] (.init sample)
  rw [hrequests] at htrace
  obtain ⟨o, hsent⟩ : ∃ o, (sample.handle (sampleAnalysis "A dot.") (after sample [sampleUpload] (.init sample))).sent =
      some o := Option.isSome_iff_exists.mp hsent
  rw [← hx] at hsent
  exact ⟨before, x, later, o, htrace, hsent, sent_as_stored hfresh htrace hsent⟩

end Run

end EnterpriseCopilot.Api
