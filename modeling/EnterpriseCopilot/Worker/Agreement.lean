import EnterpriseCopilot.Worker.Consume
import EnterpriseCopilot.Worker.Producer

/-! Producer and worker agree on the slot of a job. -/

namespace EnterpriseCopilot.Worker

open EnterpriseCopilot.Lib EnterpriseCopilot.Python EnterpriseCopilot.Schedule
open EnterpriseCopilot.Queue (Config Codec Redis Job)

/-- The zone is UTC or an offset, as the callers pass it. -/
def HasOffset (now : DateTime) : Prop := ∀ key z, now.tzinfo ≠ .zone key z

section Offset

variable {a b now : DateTime}

theorem astimezone_zone (h : HasOffset a) (key : String) (z : Zone) :
    a.astimezone (.zone key z) = (do
      let utc ← DateTime.make a.instant false (.zone key z)
      DateTime.make (utc.wall + (z.fromutc utc.wall).1) (z.fromutc utc.wall).2 (.zone key z)) := by
  have hsame : a.tzinfo.same (.zone key z) = false := by
    cases ha : a.tzinfo with
    | utc => rfl
    | fixed offset => rfl
    | zone key' z' => exact absurd ha (h key' z')
  rw [DateTime.astimezone, hsame]
  rfl

/-- The wall clock in UTC is the instant, if the calendar has it. -/
theorem astimezone_utc_wall (h : HasOffset a) : (a.astimezone .utc).map DateTime.wall =
    (DateTime.make a.instant false .utc).map DateTime.wall := by
  cases ha : a.tzinfo with
  | utc =>
    rw [DateTime.astimezone_utc ha, DateTime.instant_utc ha]
    have hmake := DateTime.make_wall ⟨a.wall, false, .utc, a.inRange⟩
    simp only at hmake
    rw [hmake]
    rfl
  | fixed offset =>
    have hsame : a.tzinfo.same .utc = false := by rw [ha]; rfl
    rw [DateTime.astimezone, hsame]
    change (DateTime.make a.instant false .utc >>= fun u => DateTime.make (u.wall + 0) false .utc).map
      DateTime.wall = _
    cases hm : DateTime.make a.instant false .utc with
    | error e => rfl
    | ok u =>
      obtain ⟨_, hf, htz⟩ := DateTime.make_ok hm
      rw [ok_bind, Int.add_zero, ← hf, ← htz, DateTime.make_wall]
  | zone key z => exact absurd ha (h key z)

theorem intervalSlot_congr (d : ScheduleDefinition)
    (h : (a.astimezone .utc).map DateTime.wall = (b.astimezone .utc).map DateTime.wall) :
    d.intervalSlot a = d.intervalSlot b := by
  unfold ScheduleDefinition.intervalSlot
  split
  · rfl
  · rfl
  · cases ha : a.astimezone .utc with
    | error e =>
      cases hb : b.astimezone .utc with
      | error e' =>
        rw [ha, hb] at h
        cases h
        rfl
      | ok v =>
        rw [ha, hb] at h
        cases h
    | ok u =>
      cases hb : b.astimezone .utc with
      | error e =>
        rw [ha, hb] at h
        cases h
      | ok v =>
        rw [ha, hb] at h
        have hwall : u.wall = v.wall := Except.ok.inj h
        rw [ok_bind, ok_bind, hwall]

/-- The slot depends only on the instant. -/
theorem scheduled_for_congr (L : Library) (d : ScheduleDefinition) (ha : HasOffset a)
    (hb : HasOffset b) (h : a.instant = b.instant) : d.scheduled_for L a = d.scheduled_for L b := by
  unfold ScheduleDefinition.scheduled_for
  cases htz : d.timezone L with
  | error e => rfl
  | ok tz =>
    have hlocal : a.astimezone tz = b.astimezone tz := by
      unfold ScheduleDefinition.timezone at htz
      split at htz
      · cases htz
        rw [astimezone_zone ha, astimezone_zone hb, h]
      all_goals cases htz
    have hinterval : d.intervalSlot a = d.intervalSlot b :=
      intervalSlot_congr d (by rw [astimezone_utc_wall ha, astimezone_utc_wall hb, h])
    rw [ok_bind, ok_bind, hlocal, hinterval]

theorem length_isoformat_le (now : DateTime) : now.isoformat.length ≤ 64 := by
  have hoff : (offsetText now.utcoffset).length ≤ 16 := by
    unfold offsetText
    split <;> simp <;> split <;> simp <;> split <;> simp
  have hchars : now.isoChars.length ≤ 26 + 16 := by
    unfold DateTime.isoChars
    split <;> simp <;> omega
  unfold DateTime.isoformat
  rw [String.length_ofList]
  omega

end Offset

section Payloads

variable {p p' : Payload} {k : String} {v : Json}

theorem lookup_eq_some_iff_mem (hp : (p.map Prod.fst).Nodup) :
    p.lookup k = some v ↔ (k, v) ∈ p := by
  induction p with
  | nil => simp
  | cons x p ih =>
    obtain ⟨k', v'⟩ := x
    simp only [List.map_cons, List.nodup_cons] at hp
    by_cases hk : k = k'
    · subst hk
      have hno : (k, v) ∉ p := fun hm => hp.1 (List.mem_map_of_mem hm)
      simp [hno, eq_comm]
    · have hbeq : (k == k') = false := by simpa using hk
      simp [List.lookup_cons, hbeq, ih hp.2, hk]

/-- The order of the keys does not matter. -/
theorem lookup_of_perm (hp : (p.map Prod.fst).Nodup) (h : p'.Perm p) :
    p'.lookup k = p.lookup k := by
  apply Option.ext
  intro v
  rw [lookup_eq_some_iff_mem ((h.map _).nodup_iff.mpr hp),
    lookup_eq_some_iff_mem hp, h.mem_iff]

/-- Decoding the text of a payload gives back its entries. -/
def Inverts (c : Codec) (p : Payload) : Prop :=
  ∀ text, c.dumps p = .ok text → ∃ p' : Payload, c.loads text = .ok (.obj p') ∧ p'.Perm p

/-- The entries of an accepted payload are those of the definition.  A boolean may have
been written as the number it equals. -/
structure Reviewed (d : ScheduleDefinition) (p : Payload) : Prop where
  keys : ∀ k now, (p.lookup k).isSome ↔ k ∈ (build_schedule_job_payload d now).map Prod.fst
  values : ∀ x ∈ expected d, p.get x.1 = x.2 ∨
    ∃ b, x.2 = .bool b ∧ p.get x.1 = .num (if b then 1 else 0)

theorem eqScalar_bool {j : Json} {b : Bool} (h : j.eqScalar (.bool b) = true) :
    j = .bool b ∨ j = .num (if b then 1 else 0) := by
  cases j <;> simp_all [Json.eqScalar]

theorem eqScalar_str {j : Json} {t : String} (h : j.eqScalar (.str t) = true) : j = .str t := by
  cases j <;> simp_all [Json.eqScalar]

theorem eqScalar_ofOption {j : Json} {t : Option String} (h : j.eqScalar (.ofOption t) = true) :
    j = .ofOption t := by
  cases t with
  | some t => exact eqScalar_str h
  | none => cases j <;> simp_all [Json.eqScalar, Json.ofOption]

theorem eqScalar_expected {d : ScheduleDefinition} {x : String × Json} (hx : x ∈ expected d)
    {j : Json} (h : j.eqScalar x.2 = true) :
    j = x.2 ∨ ∃ b, x.2 = .bool b ∧ j = .num (if b then 1 else 0) := by
  simp only [expected, List.mem_cons, List.not_mem_nil, or_false] at hx
  obtain rfl | rfl | rfl | rfl | rfl | rfl | rfl | rfl := hx
  · exact .inl (eqScalar_str h)
  · exact .inl (eqScalar_str h)
  · exact .inl (eqScalar_str h)
  · exact .inl (eqScalar_str h)
  · exact .inl (eqScalar_str h)
  · exact .inl (eqScalar_ofOption h)
  · exact .inl (eqScalar_ofOption h)
  · exact (eqScalar_bool h).imp_right fun hj => ⟨_, rfl, hj⟩

theorem eqScalar_ofOption_self (t : Option String) :
    (Json.ofOption t).eqScalar (.ofOption t) = true := by
  cases t with
  | none => rfl
  | some t => exact beq_self_eq_true t

theorem eqScalar_self {d : ScheduleDefinition} {x : String × Json} (hx : x ∈ expected d) :
    x.2.eqScalar x.2 = true := by
  simp only [expected, List.mem_cons, List.not_mem_nil, or_false] at hx
  obtain rfl | rfl | rfl | rfl | rfl | rfl | rfl | rfl := hx
  case inr.inr.inr.inr.inr.inl => exact eqScalar_ofOption_self d.query
  case inr.inr.inr.inr.inr.inr.inl => exact eqScalar_ofOption_self d.order_id
  all_goals exact beq_self_eq_true _

theorem build_keys (d : ScheduleDefinition) (now : DateTime) (k : String) :
    k ∈ (build_schedule_job_payload d now).map Prod.fst ↔
      k ∈ "scheduled_at" :: (expected d).map Prod.fst := by
  simp only [build_schedule_job_payload, expected, List.map_cons, List.map_nil, List.mem_cons,
    List.not_mem_nil, or_false]
  tauto

theorem reviewed_of_matches {d : ScheduleDefinition} (h : matchesReviewed p d = true) :
    Reviewed d p := by
  simp only [matchesReviewed, hasExactly, Bool.and_eq_true, List.all_eq_true, decide_eq_true_eq] at h
  obtain ⟨⟨hin, hall⟩, hval⟩ := h
  refine ⟨fun k now => ?_, fun x hx => eqScalar_expected hx (hval x hx)⟩
  rw [build_keys]
  refine ⟨fun hk => ?_, hall k⟩
  obtain ⟨v, hv⟩ := Option.isSome_iff_exists.mp hk
  obtain ⟨l₁, l₂, rfl, _⟩ := List.lookup_eq_some_iff.mp hv
  exact hin (k, v) (by simp)

theorem build_nodup (d : ScheduleDefinition) (now : DateTime) :
    ((build_schedule_job_payload d now).map Prod.fst).Nodup := by
  simp [build_schedule_job_payload]

/-- Whatever the order of its entries, a built payload matches the definition. -/
theorem matches_of_perm {d : ScheduleDefinition} {now : DateTime}
    (h : p.Perm (build_schedule_job_payload d now)) : matchesReviewed p d = true := by
  have hlookup : ∀ k, p.lookup k = (build_schedule_job_payload d now).lookup k := fun k =>
    lookup_of_perm (build_nodup d now) h
  simp only [matchesReviewed, hasExactly, Bool.and_eq_true, List.all_eq_true, decide_eq_true_eq]
  refine ⟨⟨fun x hx => ?_, fun k hk => ?_⟩, fun x hx => ?_⟩
  · rw [← build_keys d now]
    exact List.mem_map_of_mem (h.mem_iff.mp hx)
  · rw [← build_keys d now, List.mem_map] at hk
    obtain ⟨⟨_, v⟩, hin, rfl⟩ := hk
    rw [hlookup, (lookup_eq_some_iff_mem (build_nodup d now)).mpr hin]
    rfl
  · have hin : x ∈ build_schedule_job_payload d now := by
      simp only [expected, build_schedule_job_payload, List.mem_cons, List.not_mem_nil,
        or_false] at hx ⊢
      tauto
    rw [Payload.get, hlookup, (lookup_eq_some_iff_mem (build_nodup d now)).mpr hin]
    exact eqScalar_self hx

end Payloads

variable {q : Config} {L : Library} {d : ScheduleDefinition} {now slot : DateTime} {text : String}

/-- The job that the worker decodes from the text. -/
structure Agreed (q : Config) (L : Library) (d : ScheduleDefinition) (now : DateTime) (job : Job)
    (queued_at : DateTime) (key : String) : Prop where
  accepted : validate_schedule_job_payload L job.payload d = .ok queued_at
  instant : queued_at.instant = now.instant
  produced : enqueue_due q L d now =
    (q.enqueue_once (build_schedule_job_payload d now) key).bind fun job => .pure job.isSome
  consumed : _consume_job q L d job = (Code.queue (q.claim_run key (lease_seconds d))).bind
    (after_claim q L d job queued_at)

/-- What `fromisoformat` makes of the text of `now`. -/
def reread (now : DateTime) : DateTime :=
  ⟨now.wall, false, if now.utcoffset = 0 then .utc else .fixed now.utcoffset, now.inRange⟩

theorem reread_hasOffset (now : DateTime) : HasOffset (reread now) := by
  intro key z
  unfold reread
  split <;> simp

theorem reread_instant (now : DateTime) : (reread now).instant = now.instant := by
  have hoff : (reread now).utcoffset = now.utcoffset := by
    unfold reread
    by_cases h : now.utcoffset = 0
    · simp only [h, if_true]
      rfl
    · simp only [h, if_false]
      rfl
  rw [DateTime.instant, hoff]
  rfl

theorem validate_of_perm {payload : Payload}
    (hiso : L.isoParser now.isoformat = .ok ⟨now.wall, some now.utcoffset, now.inRange⟩)
    (h : payload.Perm (build_schedule_job_payload d now)) :
    validate_schedule_job_payload L payload d = .ok (reread now) := by
  have hget : payload.get "scheduled_at" = .str now.isoformat := by
    rw [Payload.get, lookup_of_perm (build_nodup d now) h]
    rfl
  unfold validate_schedule_job_payload
  rw [matches_of_perm h, hget]
  simp only [Bool.not_true, Bool.false_eq_true, if_false, not_lt.mpr (length_isoformat_le now),
    queuedAt, Library.fromisoformat, hiso]
  rfl

/-- Every job that the producer puts on the stream is accepted by the worker and claimed
under the key of the producer; and the worker accepts no other payloads. -/
theorem producer_worker_agree (hoff : HasOffset now)
    (hslot : d.scheduled_for L now = .ok (some slot))
    (hiso : L.isoParser now.isoformat = .ok ⟨now.wall, some now.utcoffset, now.inRange⟩)
    (hjson : Inverts q.codec (build_schedule_job_payload d now))
    (htext : q.encode (build_schedule_job_payload d now) = .ok text) :
    (∀ receipt job_id enqueued_at, ∃ job queued_at key,
      q.decode ⟨receipt, some job_id, some text, some enqueued_at⟩ = .ok job ∧
        Agreed q L d now job queued_at key) ∧
    ∀ payload queued_at, validate_schedule_job_payload L payload d = .ok queued_at →
      Reviewed d payload := by
  refine ⟨fun receipt job_id enqueued_at => ?_, fun payload queued_at h => ?_⟩
  · obtain ⟨p, hloads, hperm⟩ := hjson text (Config.dumps_of_encode htext)
    have hslot' : d.scheduled_for L (reread now) = .ok (some slot) := by
      rw [scheduled_for_congr L d (reread_hasOffset now) hoff (reread_instant now), hslot]
    have haccept := validate_of_perm hiso hperm
    refine ⟨⟨job_id, p, enqueued_at, some receipt⟩, reread now, d.id ++ ":" ++ slot.isoformat, ?_,
      haccept, reread_instant now, enqueue_due_eq hslot, consume_eq haccept hslot'⟩
    simp only [Config.decode, Option.getD_some, hloads]
  · unfold validate_schedule_job_payload at h
    split at h
    · cases h
    · rename_i hmatch
      exact reviewed_of_matches (by simpa using hmatch)

section Sample

/-- A job queued at half past two in a zone two hours ahead of UTC. -/
def offsetNow : DateTime :=
  ⟨739797 * dayMicros + 16200000000, false, .fixed 7200000000, by decide⟩

def offsetLibrary : Library where
  zoneInfo := utcLibrary.zoneInfo
  isoParser text :=
    if text = "2026-07-01T04:30:00+02:00" then
      .ok ⟨739797 * dayMicros + 16200000000, some 7200000000, by decide⟩
    else .error ("Invalid isoformat string: '" ++ text ++ "'")

/-- The encoder sorts the keys. -/
def offsetQueue : Config where
  codec := {
    sampleQueue.codec with
    dumps _ := .ok ("\x7b\"agent\":\"customer-service-agent\",\"allow_external_processing\":false," ++
      "\"kind\":\"scheduled_agent\",\"order_id\":null,\"permissions_mode\":\"read_only\"," ++
      "\"query\":null,\"schedule_id\":\"nightly\",\"schedule_version\":\"1\"," ++
      "\"scheduled_at\":\"2026-07-01T04:30:00+02:00\"\x7d")
    loads _ := .ok (.obj [("agent", .str "customer-service-agent"),
      ("allow_external_processing", .bool false), ("kind", .str "scheduled_agent"),
      ("order_id", .null), ("permissions_mode", .str "read_only"), ("query", .null),
      ("schedule_id", .str "nightly"), ("schedule_version", .str "1"),
      ("scheduled_at", .str "2026-07-01T04:30:00+02:00")]) }
  stream := "agent:jobs"
  claim_after_seconds := 60

theorem producer_worker_agree_sample : ∃ job queued_at key,
    offsetQueue.decode ⟨"1-0", some "5a0e", (offsetQueue.encode
      (build_schedule_job_payload sampleDefinition offsetNow)).toOption, some "1782"⟩ = .ok job ∧
    Agreed offsetQueue offsetLibrary sampleDefinition offsetNow job queued_at key := by
  have hslot : sampleDefinition.scheduled_for offsetLibrary offsetNow = .ok (some sampleNow) := by rfl
  refine (producer_worker_agree (fun _ _ h => by cases h) hslot (by rfl) ?_ rfl).1 "1-0" "5a0e" "1782"
  intro text htext
  refine ⟨_, rfl, (List.perm_ext_iff_of_nodup (.of_map Prod.fst (by decide))
    (.of_map Prod.fst (build_nodup _ _))).mpr fun x => ?_⟩
  have hiso : offsetNow.isoformat = "2026-07-01T04:30:00+02:00" := by rfl
  simp only [build_schedule_job_payload, hiso, List.mem_cons, List.not_mem_nil, or_false]
  simp only [sampleDefinition, Json.ofOption]
  tauto

end Sample

end EnterpriseCopilot.Worker
