import EnterpriseCopilot.Api.Egress
import EnterpriseCopilot.Limits.Shared
import EnterpriseCopilot.Limits.Window

/-! How often images go to the provider. -/

namespace EnterpriseCopilot.Api

open EnterpriseCopilot.Lib EnterpriseCopilot.Python EnterpriseCopilot.Runtime
open EnterpriseCopilot.Limits (Check Endpoint InMemoryRateLimiter Query RedisRateLimiter limiter_key)
open Sliding (window)

/-- The times at which something was sent for a key of the limiter. -/
def sent_times {T : Type} (clock : Request → T) (key : String) (xs : List Exchange) : List T :=
  (xs.filter fun x => x.sent.isSome && limiter_key x.request.identity = key).map fun x => clock x.request

section Checks

variable {D : Deployment} {r : Request} {s : State D}

theorem finish_limits {event : AuditEvent} {operation : String} {status_code : Nat} {body : Body} :
    (D.finish r event operation status_code body s).2.limits = s.limits := by
  unfold Deployment.finish
  split
  · rfl
  split <;> rfl

theorem analyzed_limits {attachment_id : String} {request : AnalysisRequest} {record : Attachment.AttachmentRecord}
    {answer : Except Vision.VisionError Vision.VisionAnalysisResult} :
    (D.analyzed r attachment_id request record answer s).2.limits = s.limits := by
  unfold Deployment.analyzed
  split
  · rfl
  · rfl
  · split <;> rfl
  · rfl
  · exact finish_limits

/-- Which limiter a request asks; without its consent nothing is sent. -/
inductive Asks (D : Deployment) (r : Request) (s : State D) (x : Served D) : Prop
  | neither : x.state.limits = s.limits → x.sent = none → Asks D r s x
  | upload : x.state.limits = (D.check_limit .upload r s).2.limits → x.sent = none → Asks D r s x
  | analyze : x.state.limits = (D.check_limit .analyze r s).2.limits →
      (x.sent.isSome = true → (D.check_limit .analyze r s).1 = .ok ()) → Asks D r s x

theorem handle_asks (D : Deployment) (r : Request) (s : State D) : Asks D r s (D.handle r s) := by
  unfold Deployment.handle
  split
  · exact .neither rfl rfl
  · refine .upload ?_ rfl
    unfold Deployment.upload_attachment
    split
    · rename_i hlimit
      rw [hlimit]
    rename_i hlimit
    rw [hlimit]
    dsimp only
    split
    · rfl
    · exact finish_limits
  · exact .neither rfl rfl
  · exact .neither rfl rfl
  · refine .neither ?_ rfl
    unfold Deployment.delete_attachment
    dsimp only
    split
    · rfl
    · rfl
    · rfl
    · exact finish_limits
  · unfold Deployment.analyze_attachment
    split
    · exact .neither rfl rfl
    split
    · rename_i hlimit
      exact .analyze (by rw [hlimit]) (by simp)
    rename_i hlimit
    refine .analyze ?_ fun _ => by rw [hlimit]
    rw [hlimit]
    split
    · rfl
    · rfl
    · rfl
    · exact analyzed_limits
  · refine .neither ?_ rfl
    unfold Deployment.purge_expired
    dsimp only
    split <;> rfl

end Checks

section SentTimes

variable {T : Type} {clock : Request → T} {key : String} {xs : List Exchange} {r : Request} {outcome : Outcome}
  {sent : Option Outgoing}

theorem sent_times_none : sent_times clock key (xs ++ [⟨r, outcome, none⟩]) = sent_times clock key xs := by
  simp [sent_times, List.filter_append]

theorem sent_times_other (h : limiter_key r.identity ≠ key) :
    sent_times clock key (xs ++ [⟨r, outcome, sent⟩]) = sent_times clock key xs := by
  simp [sent_times, List.filter_append, h]

theorem sent_times_some {o : Outgoing} : sent_times clock (limiter_key r.identity) (xs ++ [⟨r, outcome, some o⟩]) =
    sent_times clock (limiter_key r.identity) xs ++ [clock r] := by
  simp [sent_times, List.filter_append]

/-- The times of the requests that asked are times of requests. -/
theorem clock_snoc {times : List T} (x : Exchange) (h : times.Sublist (xs.map fun x => clock x.request)) :
    times.Sublist ((xs ++ [x]).map fun x => clock x.request) ∧
      (times ++ [clock x.request]).Sublist ((xs ++ [x]).map fun x => clock x.request) := by
  rw [List.map_append]
  exact ⟨h.trans (List.sublist_append_left _ _), h.append (.refl _)⟩

end SentTimes

section InMemory

variable {D : Deployment} {r : Request} {s : State D} {x : Served D} {limiter : Endpoint → InMemoryRateLimiter}
  {xs : List Exchange} {calls : List Check}

theorem check_limit_in_memory (h : D.limiters = .in_memory limiter) (e : Endpoint) :
    (D.check_limit e r s).2.limits._events = Function.update s.limits._events e
        ((limiter e).check (s.limits._events e) (limiter_key r.identity) r.now).2 ∧
      ((D.check_limit e r s).1 = .ok () ↔
        ((limiter e).check (s.limits._events e) (limiter_key r.identity) r.now).1.1 = true) := by
  unfold Deployment.check_limit Limits.throttle
  rw [h]
  exact ⟨rfl, Limits.respond_ok⟩

theorem allowed_snoc {l : InMemoryRateLimiter} (c : Check) (key : String) : l.allowed key (calls ++ [c]) =
    l.allowed key calls ++
      if c.key = key ∧ (l.check (l.after calls) c.key c.time).1.1 = true then [c.time] else [] := by
  by_cases h : c.key = key ∧ (l.check (l.after calls) c.key c.time).1.1 = true
  · rw [if_pos h, InMemoryRateLimiter.allowed_of_true h.1 h.2]
  · rw [if_neg h, InMemoryRateLimiter.allowed_of_not h, List.append_nil]

/-- What has been sent is among what the limiter has allowed. -/
structure Allowed (l : InMemoryRateLimiter) (xs : List Exchange) (s : State D) (calls : List Check) : Prop where
  deques : s.limits._events .analyze = l.after calls
  clock : (calls.map Check.time).Sublist (xs.map fun x => x.request.now)
  sent : ∀ key, (sent_times Request.now key xs).Sublist (l.allowed key calls)

theorem handled_allowed (hlimiter : D.limiters = .in_memory limiter) (hx : Asks D r s x)
    (h : Allowed (limiter .analyze) xs s calls) :
    ∃ calls, Allowed (limiter .analyze) (xs ++ [⟨r, x.outcome, x.sent⟩]) x.state calls := by
  obtain ⟨outcome, sent, t⟩ := x
  cases hx with
  | neither hlimits hsent =>
    cases hsent
    refine ⟨calls, by rw [hlimits, h.deques], (clock_snoc _ h.clock).1, fun key => ?_⟩
    rw [sent_times_none]
    exact h.sent key
  | upload hlimits hsent =>
    cases hsent
    refine ⟨calls, ?_, (clock_snoc _ h.clock).1, fun key => ?_⟩
    · rw [hlimits, (check_limit_in_memory hlimiter .upload).1, Function.update_of_ne (by decide), h.deques]
    · rw [sent_times_none]
      exact h.sent key
  | analyze hlimits hadmitted =>
    obtain ⟨hdeques, hok⟩ := check_limit_in_memory (r := r) (s := s) hlimiter .analyze
    rw [h.deques] at hdeques hok
    refine ⟨calls ++ [⟨limiter_key r.identity, r.now⟩], ?_, ?_, fun key => ?_⟩
    · rw [hlimits, hdeques, Function.update_self, InMemoryRateLimiter.after_snoc]
    · rw [List.map_append]
      exact (clock_snoc ⟨r, outcome, sent⟩ h.clock).2
    · rw [allowed_snoc]
      cases sent with
      | none =>
        rw [sent_times_none]
        exact (h.sent key).trans (List.sublist_append_left _ _)
      | some o =>
        by_cases hkey : limiter_key r.identity = key
        · subst hkey
          rw [sent_times_some, if_pos ⟨rfl, hok.mp (hadmitted rfl)⟩]
          exact (h.sent _).append (.refl _)
        · rw [sent_times_other hkey]
          exact (h.sent key).trans (List.sublist_append_left _ _)

theorem allowed_run (hlimiter : D.limiters = .in_memory limiter) (requests : List Request)
    (h : Allowed (limiter .analyze) xs s calls) :
    ∃ calls, Allowed (limiter .analyze) (xs ++ trace D requests s) (after D requests s) calls := by
  induction requests generalizing xs s calls with
  | nil =>
    rw [trace, List.append_nil]
    exact ⟨calls, h⟩
  | cons r requests ih =>
    obtain ⟨calls, hstep⟩ := handled_allowed hlimiter (handle_asks D r s) h
    have hrun := ih hstep
    rwa [List.append_assoc] at hrun

theorem counted_le {l : InMemoryRateLimiter} (hmono : calls.Pairwise (·.time ≤ ·.time)) (key : String) (t : Rat) :
    l.counted key t calls ≤ l.max_events := by
  have hpos := l.positive.1
  obtain ⟨now, hpast⟩ : ∃ now, ∀ c ∈ calls, c.time ≤ now := by
    obtain rfl | ⟨init, c, rfl⟩ := calls.eq_nil_or_concat
    · exact ⟨0, by simp⟩
    · rw [List.concat_eq_append] at hmono ⊢
      obtain ⟨_, _, hlast⟩ := List.pairwise_append.mp hmono
      refine ⟨c.time, List.forall_mem_append.mpr ⟨fun x hx => hlast x hx c List.mem_cons_self, by simp⟩⟩
  obtain ⟨last, _, h⟩ : ∃ last ≤ now, InMemoryRateLimiter.Holds l calls key last :=
    InMemoryRateLimiter.holds_run hmono hpast
  have hbound := h.bounded t
  unfold InMemoryRateLimiter.counted
  omega

theorem Allowed.bounded {l : InMemoryRateLimiter} (h : Allowed l xs s calls)
    (hmono : (xs.map fun x => x.request.now).Pairwise (· ≤ ·)) (key : String) (t : Rat) :
    ((window l.span t (sent_times Request.now key xs)).length : Int) ≤ l.max_events := by
  have hcalls : calls.Pairwise (·.time ≤ ·.time) := List.pairwise_map.mp (hmono.sublist h.clock)
  have hcounted : l.counted key t calls ≤ l.max_events := counted_le hcalls key t
  have hfewer : (window l.span t (sent_times Request.now key xs)).length ≤
      (window l.span t (l.allowed key calls)).length :=
    Sliding.window_sublist (h.sent key)
  rw [InMemoryRateLimiter.counted] at hcounted
  omega

end InMemory

section Redis

variable {D : Deployment} {r : Request} {s : State D} {x : Served D} {limiter : Endpoint → RedisRateLimiter}
  {xs : List Exchange} {queries : List Query} {sha256 : Bytes → Hex 64}

theorem check_limit_redis (h : D.limiters = .redis limiter) (e : Endpoint) :
    (D.check_limit e r s).2.limits.strings =
        ((limiter e).check D.world.sha256 s.limits.strings (limiter_key r.identity) r.ms r.link).2 ∧
      ((D.check_limit e r s).1 = .ok () ↔
        ((limiter e).answer (s.limits.strings ((limiter e).redis_key D.world.sha256 (limiter_key r.identity)))
          r.ms r.link).1.1 = true) := by
  unfold Deployment.check_limit Limits.throttle
  rw [h]
  exact ⟨rfl, Limits.respond_ok⟩

/-- Limiters with different prefixes have different keys. -/
theorem redis_key_ne {l l' : RedisRateLimiter} (h : l.prefix_ ≠ l'.prefix_) (key key' : String) :
    l.redis_key sha256 key ≠ l'.redis_key sha256 key' := by
  intro heq
  have hdigest := Limits.digest_of_redis_key heq
  rw [RedisRateLimiter.redis_key, RedisRateLimiter.redis_key, hdigest] at heq
  refine h (String.toList_injective ?_)
  have hchars := congrArg String.toList heq
  simpa using hchars

/-- A server whose counters are those of the calls keeps them so. -/
theorem counters_after {l : RedisRateLimiter} {strings : String → Option Limits.Counter}
    (h : ∀ key, strings (l.redis_key sha256 key) = l.after sha256 queries (l.redis_key sha256 key)) (q : Query)
    (key : String) : (l.check sha256 strings q.key q.ms q.link).2 (l.redis_key sha256 key) =
      l.after sha256 (queries ++ [q]) (l.redis_key sha256 key) := by
  rw [RedisRateLimiter.check]
  dsimp only
  by_cases hslot : l.redis_key sha256 q.key = l.redis_key sha256 key
  · rw [← hslot, Function.update_self, h, RedisRateLimiter.after_at]
  · rw [Function.update_of_ne (Ne.symm hslot), h, RedisRateLimiter.after_other hslot]

/-- What has been sent is among what the limiter has granted. -/
structure Granted (l : RedisRateLimiter) (sha256 : Bytes → Hex 64) (xs : List Exchange) (s : State D)
    (queries : List Query) : Prop where
  counters : ∀ key, s.limits.strings (l.redis_key sha256 key) = l.after sha256 queries (l.redis_key sha256 key)
  clock : (queries.map Query.ms).Sublist (xs.map fun x => x.request.ms)
  sent : ∀ key, (sent_times Request.ms key xs).Sublist (l.allowed sha256 (l.redis_key sha256 key) queries)

theorem handled_granted (hlimiter : D.limiters = .redis limiter)
    (happart : (limiter .upload).prefix_ ≠ (limiter .analyze).prefix_) (hx : Asks D r s x)
    (h : Granted (limiter .analyze) D.world.sha256 xs s queries) :
    ∃ queries, Granted (limiter .analyze) D.world.sha256 (xs ++ [⟨r, x.outcome, x.sent⟩]) x.state queries := by
  obtain ⟨outcome, sent, t⟩ := x
  cases hx with
  | neither hlimits hsent =>
    cases hsent
    refine ⟨queries, fun key => by rw [hlimits, h.counters], (clock_snoc _ h.clock).1, fun key => ?_⟩
    rw [sent_times_none]
    exact h.sent key
  | upload hlimits hsent =>
    cases hsent
    refine ⟨queries, fun key => ?_, (clock_snoc _ h.clock).1, fun key => ?_⟩
    · rw [hlimits, (check_limit_redis hlimiter .upload).1, RedisRateLimiter.check]
      dsimp only
      rw [Function.update_of_ne (Ne.symm (redis_key_ne happart _ _)), h.counters]
    · rw [sent_times_none]
      exact h.sent key
  | analyze hlimits hadmitted =>
    obtain ⟨hcounters, hok⟩ := check_limit_redis (r := r) (s := s) hlimiter .analyze
    rw [h.counters] at hok
    refine ⟨queries ++ [⟨limiter_key r.identity, r.ms, r.link⟩], fun key => ?_, ?_, fun key => ?_⟩
    · rw [hlimits, hcounters]
      exact counters_after h.counters ⟨limiter_key r.identity, r.ms, r.link⟩ key
    · rw [List.map_append]
      exact (clock_snoc ⟨r, outcome, sent⟩ h.clock).2
    · rw [RedisRateLimiter.allowed_snoc]
      cases sent with
      | none =>
        rw [sent_times_none]
        exact (h.sent key).trans (List.sublist_append_left _ _)
      | some o =>
        by_cases hkey : limiter_key r.identity = key
        · subst hkey
          rw [sent_times_some, if_pos ⟨rfl, hok.mp (hadmitted rfl)⟩]
          exact (h.sent _).append (.refl _)
        · rw [sent_times_other hkey]
          exact (h.sent key).trans (List.sublist_append_left _ _)

theorem granted_run (hlimiter : D.limiters = .redis limiter)
    (happart : (limiter .upload).prefix_ ≠ (limiter .analyze).prefix_) (requests : List Request)
    (h : Granted (limiter .analyze) D.world.sha256 xs s queries) :
    ∃ queries, Granted (limiter .analyze) D.world.sha256 (xs ++ trace D requests s) (after D requests s) queries := by
  induction requests generalizing xs s queries with
  | nil =>
    rw [trace, List.append_nil]
    exact ⟨queries, h⟩
  | cons r requests ih =>
    obtain ⟨queries, hstep⟩ := handled_granted hlimiter happart (handle_asks D r s) h
    have hrun := ih hstep
    rwa [List.append_assoc] at hrun

theorem Granted.bounded {l : RedisRateLimiter} (h : Granted l sha256 xs s queries)
    (hmono : (xs.map fun x => x.request.ms).Pairwise (· ≤ ·)) (key : String) (t : Int) :
    ((window l.span t (sent_times Request.ms key xs)).length : Int) ≤ 2 * l.max_events - 1 := by
  have hqueries : queries.Pairwise (·.ms ≤ ·.ms) := List.pairwise_map.mp (hmono.sublist h.clock)
  have hadmitted : l.admitted sha256 (l.redis_key sha256 key) t queries ≤ 2 * l.max_events - 1 :=
    RedisRateLimiter.admitted_le hqueries t
  have hfewer : (window l.span t (sent_times Request.ms key xs)).length ≤
      (window l.span t (l.allowed sha256 (l.redis_key sha256 key) queries)).length :=
    Sliding.window_sublist (h.sent key)
  rw [RedisRateLimiter.admitted] at hadmitted
  omega

end Redis

section Bound

variable {D : Deployment}

theorem trace_requests (requests : List Request) (s : State D) :
    (trace D requests s).map Exchange.request = requests := by
  induction requests generalizing s with
  | nil => rfl
  | cons r requests ih => exact congrArg (r :: ·) (ih _)

/-- The times of the exchanges are those of the requests. -/
theorem trace_pairwise {T : Type} {R : T → T → Prop} {clock : Request → T} {requests : List Request}
    (hmono : requests.Pairwise fun r r' => R (clock r) (clock r')) (s : State D) :
    ((trace D requests s).map fun x => clock x.request).Pairwise R := by
  have htimes : ((trace D requests s).map Exchange.request).map clock = requests.map clock := by
    rw [trace_requests]
  rw [List.map_map] at htimes
  exact htimes ▸ List.pairwise_map.mpr hmono

/-- Whatever requests are sent, no window sees more images of a user go to the provider than the limiter of the analysis
allows: in memory its number, on a Redis server less than twice that number. -/
theorem egress_bound (D : Deployment) (requests : List Request) (key : String) :
    (∀ limiter, D.limiters = .in_memory limiter → requests.Pairwise (·.now ≤ ·.now) → ∀ t,
      ((window (limiter .analyze).span t (sent_times Request.now key (trace D requests (.init D)))).length : Int) ≤
        (limiter .analyze).max_events) ∧
    ∀ limiter, D.limiters = .redis limiter → (limiter .upload).prefix_ ≠ (limiter .analyze).prefix_ →
      requests.Pairwise (·.ms ≤ ·.ms) → ∀ t,
        ((window (limiter .analyze).span t (sent_times Request.ms key (trace D requests (.init D)))).length : Int) ≤
          2 * (limiter .analyze).max_events - 1 := by
  refine ⟨fun limiter hlimiter hmono t => ?_, fun limiter hlimiter happart hmono t => ?_⟩
  · have hstart : Allowed (limiter .analyze) [] (State.init D) [] := ⟨rfl, .slnil, fun _ => .slnil⟩
    obtain ⟨calls, h⟩ := allowed_run hlimiter requests hstart
    exact h.bounded (trace_pairwise hmono _) key t
  · have hstart : Granted (limiter .analyze) D.world.sha256 [] (State.init D) [] :=
      ⟨fun _ => rfl, .slnil, fun _ => .slnil⟩
    obtain ⟨queries, h⟩ := granted_run hlimiter happart requests hstart
    exact h.bounded (trace_pairwise hmono _) key t

theorem egress_bound_sample :
    (sent_times Request.now (limiter_key (ask .list_attachments).identity) (trace sample sampleRequests (.init sample))).length
        = 2 ∧
      ∀ t, ((window 60 t (sent_times Request.now (limiter_key (ask .list_attachments).identity)
        (trace sample sampleRequests (.init sample)))).length : Int) ≤ 20 := by
  refine ⟨by decide +kernel, fun t => ?_⟩
  exact (egress_bound sample sampleRequests _).1 (fun _ => ⟨20, 60, twenty_positive⟩) rfl
    (by simp [sampleRequests, sampleUpload, sampleAnalysis, ask]) t

end Bound

end EnterpriseCopilot.Api
