import EnterpriseCopilot.Queue.Redis

/-! `enqueue_once` when Redis commands fail. -/

namespace EnterpriseCopilot.Queue

open EnterpriseCopilot.Lib EnterpriseCopilot.Python

/-- Which commands raise during a call, and with which text.  A command that raises
has no effect. -/
structure Outage where
  setNx : Option String := none
  xgroupCreate : Option String := none
  xadd : Option String := none
  delete : Option String := none

def Outage.of (o : Outage) : Cmd → Option String
  | .setNx _ _ _ => o.setNx
  | .xgroupCreate => o.xgroupCreate
  | .xadd _ _ _ => o.xadd
  | .delete _ => o.delete
  | _ => none

/-- Execute one command of client `i` during the outage. -/
def Redis.during (o : Outage) (i : Nat) (s : Redis) (c : Cmd) (ch : Choice) : Reply c × Redis :=
  s.apply i c { ch with raises := o.of c }

/-- Entries not yet delivered and entries not yet acknowledged are as before. -/
structure SameStream (s t : Redis) : Prop where
  fresh : t.fresh = s.fresh
  pending : t.pending = s.pending

/-- The job is one new entry of the stream and the marker is set; or nothing is changed;
or, after an exception, the stream and the marker are as before. -/
def AllOrNothing (marker : String) (s : Redis) :
    Program.Outcome Redis Cmd Reply PyError (Option Job) → Prop
  | ⟨.ok (some job), t, _⟩ => (∃ entry, t.fresh = s.fresh ++ [entry] ∧
      entry.job_id = some job.id ∧ job.receipt = some entry.receipt) ∧ t.pending = s.pending ∧
      t.strings marker = some "enqueued"
  | ⟨.ok none, t, _⟩ => t = s
  | ⟨.error _, t, _⟩ => SameStream s t ∧ t.strings marker = s.strings marker

section Conditions

variable (q : Config) (o : Outage) (i : Nat) (payload : Payload) (s : Redis)

/-- The consumer group is there or can be created. -/
def GroupOk : Prop :=
  s.ready i = true ∨ ∀ text, o.xgroupCreate = some text → "BUSYGROUP".toList <:+: text.toList

/-- `enqueue` raises. -/
def EnqueueFails : Prop :=
  ¬ ((∃ text, q.encode payload = .ok text ∧ text.utf8ByteSize ≤ 100000) ∧ GroupOk o i s ∧
    o.xadd = none)

/-- The call creates the marker, fails to enqueue and fails to take the marker back. -/
structure Stranded (key : String) (retention : Int) : Prop where
  valid : Config.ValidKey key
  lasting : 0 < retention ∧ retention ≤ 365 * 86400
  absent : s.strings (q.enqueue_state_key key) = none
  created : o.setNx = none
  fails : EnqueueFails q o i payload s
  kept : o.delete ≠ none

end Conditions

section Steps

variable {q : Config} {o : Outage} {i : Nat} {payload : Payload} {s t : Redis}
  {log : Exchange Cmd Reply}

abbrev ExecDuring {α : Type} (o : Outage) (i : Nat) (p : Code α) (s : Redis)
    (log : Exchange Cmd Reply) (out : Except PyError α) (t : Redis) : Prop :=
  Program.Exec (Redis.during o i) p s log out t

/-- Everything but the group flag of the client. -/
structure SameData (s t : Redis) : Prop extends SameStream s t where
  strings : t.strings = s.strings

theorem SameData.refl (s : Redis) : SameData s s := ⟨⟨rfl, rfl⟩, rfl⟩

theorem exec_ensure_group {out : Except PyError Unit}
    (h : ExecDuring o i Config.ensure_group s log out t) : SameData s t ∧
      ((out = .ok () ∧ GroupOk o i s) ∨ ((∃ e, out = .error e) ∧ ¬ GroupOk o i s)) := by
  obtain ⟨_, _, rfl, hready⟩ := Program.exec_issue.mp h
  simp only [Redis.during, Redis.apply, Program.pure_bind] at hready
  cases hr : s.ready i with
  | true =>
    rw [hr] at hready
    obtain ⟨_, rfl, rfl⟩ := Program.exec_pure.mp hready
    exact ⟨.refl _, .inl ⟨rfl, .inl hr⟩⟩
  | false =>
    rw [hr] at hready
    obtain ⟨_, _, rfl, hcreate⟩ := Program.exec_issue.mp hready
    cases hx : o.xgroupCreate with
    | none =>
      simp only [Redis.during, Redis.apply, Outage.of, hx] at hcreate
      obtain ⟨_, _, rfl, hset⟩ := Program.exec_issue.mp hcreate
      obtain ⟨_, rfl, rfl⟩ := Program.exec_pure.mp hset
      exact ⟨⟨⟨rfl, rfl⟩, rfl⟩, .inl ⟨rfl, .inr (by simp [hx])⟩⟩
    | some text =>
      simp only [Redis.during, Redis.apply, Outage.of, hx, Program.pure_bind] at hcreate
      split at hcreate
      · rename_i hbusy
        obtain ⟨_, _, rfl, hset⟩ := Program.exec_issue.mp hcreate
        obtain ⟨_, rfl, rfl⟩ := Program.exec_pure.mp hset
        exact ⟨⟨⟨rfl, rfl⟩, rfl⟩, .inl ⟨rfl, .inr (by simpa [hx] using hbusy)⟩⟩
      · rename_i hbusy
        obtain ⟨_, rfl, rfl⟩ := Program.exec_throw.mp hcreate
        refine ⟨.refl _, .inr ⟨⟨_, rfl⟩, ?_⟩⟩
        rintro (hready' | hall)
        · rw [hr] at hready'
          cases hready'
        · exact hbusy (hall text hx)

/-- `enqueue` adds one entry, or raises and leaves the data as it is. -/
theorem exec_enqueue {out : Except PyError Job} (h : ExecDuring o i (q.enqueue payload) s log out t) :
    (∃ job entry, out = .ok job ∧ ¬ EnqueueFails q o i payload s ∧ t.fresh = s.fresh ++ [entry] ∧
      entry.job_id = some job.id ∧ job.receipt = some entry.receipt ∧ t.pending = s.pending ∧
      t.strings = s.strings) ∨
    ((∃ e, out = .error e) ∧ EnqueueFails q o i payload s ∧ SameData s t) := by
  unfold Config.enqueue at h
  cases he : q.encode payload with
  | error e =>
    rw [he] at h
    obtain ⟨_, rfl, rfl⟩ := Program.exec_throw.mp h
    refine .inr ⟨⟨_, rfl⟩, fun ⟨⟨text, htext, _⟩, _⟩ => ?_, .refl _⟩
    rw [he] at htext
    cases htext
  | ok text =>
    rw [he, Program.ofExcept_ok, Program.bind_eq, Program.pure_bind] at h
    split at h
    · rename_i hsize
      obtain ⟨_, rfl, rfl⟩ := Program.exec_throw.mp h
      refine .inr ⟨⟨_, rfl⟩, fun ⟨⟨text', htext, hle⟩, _⟩ => ?_, .refl _⟩
      rw [he] at htext
      cases htext
      omega
    rename_i hsize
    obtain ⟨e, hg, rfl⟩ | ⟨_, u, l₁, l₂, hg, hrest, rfl⟩ := Program.exec_bind.mp h
    · obtain ⟨hsame, ⟨hok, _⟩ | ⟨_, hno⟩⟩ := exec_ensure_group hg
      · cases hok
      · exact .inr ⟨⟨_, rfl⟩, fun hall => hno hall.2.1, hsame⟩
    obtain ⟨hsame, ⟨_, hgroup⟩ | ⟨⟨e, he⟩, _⟩⟩ := exec_ensure_group hg
    · obtain ⟨ch, _, rfl, hid⟩ := Program.exec_issue.mp hrest
      obtain ⟨ch₁, _, rfl, hat⟩ := Program.exec_issue.mp hid
      obtain ⟨ch', _, rfl, hadd⟩ := Program.exec_issue.mp hat
      cases hx : o.xadd with
      | some e =>
        simp only [Redis.during, Redis.apply, Outage.of, hx] at hadd
        obtain ⟨_, rfl, rfl⟩ := Program.exec_throw.mp hadd
        refine .inr ⟨⟨_, rfl⟩, fun hall => ?_, ⟨hsame.fresh, hsame.pending⟩, hsame.strings⟩
        rw [hx] at hall
        cases hall.2.2
      | none =>
        simp only [Redis.during, Redis.apply, Outage.of, hx] at hadd
        obtain ⟨_, _, rfl, hnow⟩ := Program.exec_issue.mp hadd
        obtain ⟨_, rfl, rfl⟩ := Program.exec_pure.mp hnow
        refine .inl ⟨_, ⟨ch'.text, some ch.text, some text, some ch₁.text⟩, rfl, ?_, ?_, rfl, rfl, hsame.pending,
          hsame.strings⟩
        · exact not_not.mpr ⟨⟨text, he, not_lt.mp hsize⟩, hgroup, hx⟩
        · exact congrArg (· ++ _) hsame.fresh
    · cases he

/-- What the call has done once the marker is set. -/
def Released (q : Config) (o : Outage) (i : Nat) (payload : Payload) (marker : String) (s : Redis)
    (out : Except PyError (Option Job)) (t : Redis) : Prop :=
  (∃ job entry, out = .ok (some job) ∧ ¬ EnqueueFails q o i payload s ∧
    t.fresh = s.fresh ++ [entry] ∧ entry.job_id = some job.id ∧ job.receipt = some entry.receipt ∧
    t.pending = s.pending ∧ t.strings = s.strings) ∨
  ((∃ e, out = .error e) ∧ EnqueueFails q o i payload s ∧ SameStream s t ∧
    t.strings = if o.delete = none then Function.update s.strings marker none else s.strings)

theorem exec_enqueue_or_release {marker : String} {out : Except PyError (Option Job)}
    (h : ExecDuring o i (q.enqueue_or_release payload marker) s log out t) :
    Released q o i payload marker s out t := by
  obtain ⟨_, hok, rfl⟩ | ⟨e, u, l₁, l₂, herr, hdel, _⟩ := Program.exec_tryCatch.mp h
  · obtain ⟨_, _, he⟩ | ⟨job, u, l₁, l₂, henq, hret, _⟩ := Program.exec_bind.mp hok
    · cases he
    · obtain ⟨_, hjob, rfl⟩ := Program.exec_pure.mp hret
      cases hjob
      obtain ⟨_, entry, hj, hrest⟩ | ⟨⟨_, he⟩, _⟩ := exec_enqueue henq
      · cases hj
        exact .inl ⟨job, entry, rfl, hrest⟩
      · cases he
  · obtain ⟨e', henq, _⟩ | ⟨_, _, _, _, _, hret, _⟩ := Program.exec_bind.mp herr
    · obtain ⟨_, _, hj, _⟩ | ⟨_, hfails, hsame⟩ := exec_enqueue henq
      · cases hj
      · obtain ⟨_, _, rfl, hreply⟩ := Program.exec_issue.mp hdel
        cases hd : o.delete with
        | none =>
          simp only [Redis.during, Redis.apply, Outage.of, hd] at hreply
          obtain ⟨_, rfl, rfl⟩ := Program.exec_throw.mp hreply
          refine .inr ⟨⟨_, rfl⟩, hfails, ⟨hsame.fresh, hsame.pending⟩, ?_⟩
          rw [if_pos hd, ← hsame.strings]
        | some text =>
          simp only [Redis.during, Redis.apply, Outage.of, hd] at hreply
          obtain ⟨_, rfl, rfl⟩ := Program.exec_throw.mp hreply
          refine .inr ⟨⟨_, rfl⟩, hfails, ⟨hsame.fresh, hsame.pending⟩, ?_⟩
          rw [if_neg (by simp [hd]), hsame.strings]
    · obtain ⟨_, hjob, _⟩ := Program.exec_pure.mp hret
      cases hjob

theorem exec_reraise {marker : String} {out : Except PyError (Option Job)}
    (h : ExecDuring o i ((q.enqueue_or_release payload marker).tryCatch Config.reraise) s log out t) :
    Released q o i payload marker s out t := by
  obtain ⟨_, hok, rfl⟩ | ⟨e, u, l₁, l₂, herr, hraise, _⟩ := Program.exec_tryCatch.mp h
  · exact exec_enqueue_or_release hok
  · have hthrow : (∃ e', out = .error e') ∧ t = u := by
      cases e <;> obtain ⟨_, rfl, rfl⟩ := Program.exec_throw.mp hraise <;> exact ⟨⟨_, rfl⟩, rfl⟩
    obtain ⟨_, _, hj, _⟩ | ⟨_, hrest⟩ := exec_enqueue_or_release herr
    · cases hj
    · rw [hthrow.2]
      exact .inr ⟨hthrow.1, hrest⟩

/-- The server after the marker was created. -/
def Redis.mark (s : Redis) (marker : String) : Redis :=
  { s with strings := Function.update s.strings marker (some "enqueued") }

@[simp] theorem Redis.mark_self (s : Redis) (marker : String) :
    (s.mark marker).strings marker = some "enqueued" := Function.update_self ..

theorem Released.allOrNothing {marker : String} {out : Except PyError (Option Job)}
    (hm : s.strings marker = none) (h : Released q o i payload marker (s.mark marker) out t) :
    AllOrNothing marker s ⟨out, t, log⟩ ↔ ¬ (EnqueueFails q o i payload s ∧ o.delete ≠ none) := by
  obtain ⟨job, entry, rfl, hno, hfresh, hid, hrec, hpend, hstr⟩ | ⟨⟨e, rfl⟩, hfails, hsame, hstr⟩ := h
  · refine iff_of_true ⟨⟨entry, hfresh, hid, hrec⟩, hpend, ?_⟩ fun hboth => hno hboth.1
    rw [hstr, Redis.mark_self]
  · by_cases hd : o.delete = none
    · refine iff_of_true ⟨⟨hsame.fresh, hsame.pending⟩, ?_⟩ fun hboth => hboth.2 hd
      rw [hstr, if_pos hd, Function.update_self, hm]
    · refine iff_of_false (fun hall => ?_) fun hno => hno ⟨hfails, hd⟩
      have hmark := hall.2
      rw [hstr, if_neg hd, Redis.mark_self, hm] at hmark
      cases hmark

end Steps

/-- Exactly when a call of `enqueue_once` is all or nothing. -/
theorem all_or_nothing_iff {q : Config} {o : Outage} {i : Nat} {payload : Payload} {key : String}
    {retention : Int} {ω : Nat → Choice} {s : Redis} :
    AllOrNothing (q.enqueue_state_key key) s
      (Program.run (Redis.during o i) (q.enqueue_once payload key retention) ω s) ↔
    ¬ Stranded q o i payload s key retention := by
  by_cases hargs : Config.ValidKey key ∧ 0 < retention ∧ retention ≤ 365 * 86400
  · rw [Config.enqueue_once_eq hargs.1 hargs.2, Program.run_issue]
    cases hx : o.setNx with
    | some text =>
      simp only [Redis.during, Redis.apply, Outage.of, hx]
      refine iff_of_true ⟨⟨rfl, rfl⟩, rfl⟩ fun h => ?_
      cases hx.symm.trans h.created
    | none =>
      cases hm : s.strings (q.enqueue_state_key key) with
      | some v =>
        simp only [Redis.during, Redis.apply, Outage.of, hx, hm]
        refine iff_of_true rfl fun h => ?_
        cases hm.symm.trans h.absent
      | none =>
        simp only [Redis.during, Redis.apply, Outage.of, hx, hm]
        have hrel := exec_reraise (Program.exec_of_run (Redis.during o i)
          ((q.enqueue_or_release payload (q.enqueue_state_key key)).tryCatch Config.reraise)
          (fun n => ω (n + 1)) (s.mark (q.enqueue_state_key key)))
        refine (hrel.allOrNothing hm).trans (not_congr ⟨fun h => ?_, fun h => ⟨h.fails, h.kept⟩⟩)
        exact ⟨hargs.1, hargs.2, hm, hx, h.1, h.2⟩
  · have hrefused : ∃ msg, q.enqueue_once payload key retention = .throw (.valueError msg) :=
      Config.enqueue_once_refused hargs
    obtain ⟨msg, hmsg⟩ := hrefused
    rw [hmsg]
    exact iff_of_true ⟨⟨rfl, rfl⟩, rfl⟩ fun h => hargs ⟨h.valid, h.lasting⟩

/-- The payload and the key of the producer test. -/
def testQueue : Config where
  codec := {
    sha256 := tabled [("worker-schedule:slot",
      "c5e5393de1a1ae21569914338bb164a76be34863797af4193a8524e4356404f5")]
    dumps _ := .ok "\x7b\"kind\":\"scheduled_agent\"\x7d"
    loads _ := .ok (.obj [("kind", .str "scheduled_agent")]) }
  stream := "worker-test"
  claim_after_seconds := 60

/-- Redis goes away after the marker was created. -/
theorem marker_stranded : ¬ ∀ q o i payload key retention ω s,
    AllOrNothing (Config.enqueue_state_key q key) s
      (Program.run (Redis.during o i) (q.enqueue_once payload key retention) ω s) := by
  intro h
  have hmark := (h testQueue { xadd := some "Connection refused", delete := some "Connection refused" }
    0 [("kind", .str "scheduled_agent")] "worker-schedule:slot" 86400 (fun _ => .silent) .init).2
  exact absurd hmark (by decide)

end EnterpriseCopilot.Queue
