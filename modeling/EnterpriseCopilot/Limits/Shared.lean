import EnterpriseCopilot.Lib.Keyed
import EnterpriseCopilot.Lib.Tumbling
import EnterpriseCopilot.Limits.Throttle
import Mathlib.Data.List.Induction
import Mathlib.Order.Bounds.Basic

/-! What the limiter on a Redis server admits over its windows. -/

namespace EnterpriseCopilot.Limits

open EnterpriseCopilot.Lib EnterpriseCopilot.Python Sliding Tumbling

/-- A call of `check`: when the server runs the script, and what becomes of the request. -/
structure Query where
  key : String
  ms : Int
  link : Link

namespace RedisRateLimiter

variable (l : RedisRateLimiter) (sha256 : Bytes → Hex 64)

/-- Every key of Redis has a counter of its own. -/
def machine : Keyed (String → Option Counter) Query (Bool × Int) String (Option Counter) where
  step s q := ((l.check sha256 s q.key q.ms q.link).2, (l.check sha256 s q.key q.ms q.link).1)
  key q := l.redis_key sha256 q.key
  view s slot := s slot
  frame hne := Function.update_of_ne hne _ _
  reads h := by
    simp only [check, Function.update_self, h, and_self]

/-- The calls with their answers, on a server without keys. -/
def answers (queries : List Query) : List (Query × (Bool × Int)) :=
  (l.machine sha256).answers (fun _ => none) queries

/-- The counters after the calls. -/
def after (queries : List Query) : String → Option Counter := (l.machine sha256).after (fun _ => none) queries

/-- The times of the calls at a key of Redis that were allowed. -/
def allowed (slot : String) (queries : List Query) : List Int :=
  (l.answers sha256 queries).filterMap fun a =>
    if l.redis_key sha256 a.1.key = slot ∧ a.2.1 = true then some a.1.ms else none

def span : Int := l.window_seconds * 1000

/-- How many calls were allowed in the window up to `t`. -/
def admitted (slot : String) (t : Int) (queries : List Query) : Int :=
  (window l.span t (l.allowed sha256 slot queries)).length

variable {l : RedisRateLimiter} {sha256 : Bytes → Hex 64} {stored : Option Counter} {ms : Int} {link : Link}
  {queries : List Query} {slot : String} {q : Query}

section Script

theorem span_pos : 0 < l.span := by
  have := l.positive.2
  unfold span
  omega

theorem increment_opening (h : stored.filter (Counter.alive ms) = none) :
    l.increment stored ms = ⟨1, some (ms + l.span)⟩ := by
  rw [increment, h]
  rfl

theorem increment_counting {count : Nat} {expires : Int} (hcount : 1 ≤ count) (halive : ms ≤ expires) :
    l.increment (some ⟨count, some expires⟩) ms = ⟨(count + 1 : Nat), some expires⟩ := by
  have hfilter : (some (⟨count, some expires⟩ : Counter)).filter (Counter.alive ms) = some ⟨count, some expires⟩ := by
    simp [Option.filter, Counter.alive, halive]
  have hmore : ¬ (count : Int) + 1 = 1 := by omega
  rw [increment, hfilter]
  simp only [hmore, if_false]
  rfl

theorem answer_allowed : (l.answer stored ms link).1.1 = true ↔
    link = .replied ∧ (l.increment stored ms).count ≤ l.max_events := by
  cases link with
  | refused => simp [answer]
  | lost => simp [answer]
  | replied =>
    simp only [answer, script, true_and]
    split <;> simp <;> omega

theorem answer_stored (h : link ≠ .refused) : (l.answer stored ms link).2 = some (l.increment stored ms) := by
  cases link with
  | refused => exact absurd rfl h
  | lost => rfl
  | replied => rfl

/-- The answer of a denied call that the server replied to. -/
theorem answer_denied (h : l.max_events < (l.increment stored ms).count) :
    (l.answer stored ms .replied).1 = (false, max 1 ((l.increment stored ms).ttl ms)) := by
  simp [answer, script, h]

end Script

section Runs

theorem after_at : l.after sha256 (queries ++ [q]) (l.redis_key sha256 q.key) =
    (l.answer (l.after sha256 queries (l.redis_key sha256 q.key)) q.ms q.link).2 := by
  rw [after, Keyed.after_append]
  exact Function.update_self _ _ _

theorem after_other (h : l.redis_key sha256 q.key ≠ slot) :
    l.after sha256 (queries ++ [q]) slot = l.after sha256 queries slot := by
  rw [after, Keyed.after_append]
  exact Function.update_of_ne (Ne.symm h) _ _

theorem allowed_snoc : l.allowed sha256 slot (queries ++ [q]) = l.allowed sha256 slot queries ++
    if l.redis_key sha256 q.key = slot ∧
      (l.answer (l.after sha256 queries (l.redis_key sha256 q.key)) q.ms q.link).1.1 = true then [q.ms] else [] := by
  rw [allowed, answers, Keyed.answers_append, List.filterMap_append]
  refine congrArg (_ ++ ·) ?_
  by_cases h : l.redis_key sha256 q.key = slot ∧
      (l.answer (l.after sha256 queries (l.redis_key sha256 q.key)) q.ms q.link).1.1 = true
  · rw [if_pos h]
    exact List.filterMap_cons_some (if_pos h)
  · rw [if_neg h]
    exact List.filterMap_cons_none (if_neg h)

end Runs

/-- What a counter says of the calls up to `last` that were allowed. -/
inductive Tallied (l : RedisRateLimiter) (last : Int) : Option Counter → List Int → Prop
  | unused : Tallied l last none []
  | counting {start : Int} {count : Nat} {earlier current : List Int} : 1 ≤ count → start ≤ last →
      (∀ x ∈ current, x ≤ last) → Filled l.max_events.toNat l.span start count earlier current →
      Tallied l last (some ⟨count, some (start + l.span)⟩) (earlier ++ current)

section Invariant

variable {last : Int} {events : List Int}

theorem Tallied.later (h : Tallied l last stored events) (hlast : last ≤ ms) : Tallied l ms stored events := by
  cases h with
  | unused => exact .unused
  | counting hcount hstart hpast hfilled =>
    exact .counting hcount (hstart.trans hlast) (fun x hx => (hpast x hx).trans hlast) hfilled

/-- A call that reaches the server keeps the invariant, whether it is allowed or not. -/
theorem Tallied.increment (h : Tallied l last stored events) (hlast : last ≤ ms) {opening : List Int}
    (hopening : opening = [] ∨ opening = [ms] ∧ (l.increment stored ms).count ≤ l.max_events) :
    Tallied l ms (some (l.increment stored ms)) (events ++ opening) := by
  have hpos := l.positive.1
  have hown : opening = [] ∨ opening = [ms] := hopening.imp_right And.left
  have hnow : ∀ x ∈ opening, x ≤ ms := by
    obtain rfl | rfl := hown <;> simp
  cases h with
  | unused =>
    rw [increment_opening rfl]
    exact .counting (Nat.le_refl 1) le_rfl hnow (.first hown (by omega))
  | @counting start count earlier current hcount hstart hpast hfilled =>
    have hpast' : ∀ x ∈ current, x ≤ ms := fun x hx => (hpast x hx).trans hlast
    by_cases halive : ms ≤ start + l.span
    · rw [increment_counting hcount halive] at hopening ⊢
      obtain rfl | ⟨rfl, hroom⟩ := hopening
      · rw [List.append_nil]
        exact .counting (by omega) (hstart.trans hlast) hpast' hfilled.more
      · rw [List.append_assoc]
        refine .counting (by omega) (hstart.trans hlast) ?_
          (hfilled.push (hstart.trans hlast) hcount (by simp only at hroom; omega))
        rw [List.forall_mem_append]
        exact ⟨hpast', hnow⟩
    · have hdead : (some (⟨count, some (start + l.span)⟩ : Counter)).filter (Counter.alive ms) = none := by
        simp [Option.filter, Counter.alive, halive]
      rw [increment_opening hdead]
      exact .counting (Nat.le_refl 1) le_rfl hnow
        (hfilled.reopen (not_le.mp halive) span_pos.le hpast' hown (by omega))

theorem Tallied.answer (h : Tallied l last stored events) (hlast : last ≤ ms) :
    Tallied l ms (l.answer stored ms link).2
      (events ++ if (l.answer stored ms link).1.1 = true then [ms] else []) := by
  by_cases hlink : link = .refused
  · subst hlink
    simpa [RedisRateLimiter.answer] using h.later hlast
  · rw [answer_stored hlink]
    refine h.increment hlast ?_
    split
    · rename_i hallowed
      exact .inr ⟨rfl, (answer_allowed.mp hallowed).2⟩
    · exact .inl rfl

theorem Tallied.bounded (h : Tallied l last stored events) (t : Int) :
    (window l.span t events).length ≤ 2 * l.max_events.toNat - 1 := by
  cases h with
  | unused => exact Nat.zero_le _
  | counting _ _ _ hfilled => exact hfilled.bounded t

/-- Of calls in the order of their times. -/
theorem tallied_run (hmono : queries.Pairwise (·.ms ≤ ·.ms)) (hpast : ∀ q ∈ queries, q.ms ≤ ms) :
    ∃ last ≤ ms, Tallied l last (l.after sha256 queries slot) (l.allowed sha256 slot queries) := by
  induction queries using List.reverseRecOn generalizing ms with
  | nil => exact ⟨ms, le_rfl, .unused⟩
  | append_singleton queries q ih =>
    obtain ⟨hqueries, _, hlast⟩ := List.pairwise_append.mp hmono
    have hq : q.ms ≤ ms := hpast q (by simp)
    obtain ⟨last, hle, h⟩ := ih hqueries fun x hx => hlast x hx q List.mem_cons_self
    rw [allowed_snoc]
    by_cases hslot : l.redis_key sha256 q.key = slot
    · subst hslot
      refine ⟨q.ms, hq, ?_⟩
      rw [after_at]
      simpa using h.answer hle
    · refine ⟨last, hle.trans hq, ?_⟩
      rw [after_other hslot, if_neg fun hand => hslot hand.1, List.append_nil]
      exact h

theorem admitted_le (hmono : queries.Pairwise (·.ms ≤ ·.ms)) (t : Int) :
    l.admitted sha256 slot t queries ≤ 2 * l.max_events - 1 := by
  have hpos := l.positive.1
  unfold admitted
  obtain ⟨ms, hpast⟩ : ∃ ms, ∀ q ∈ queries, q.ms ≤ ms := by
    obtain rfl | ⟨init, q, rfl⟩ := queries.eq_nil_or_concat
    · exact ⟨0, by simp⟩
    · rw [List.concat_eq_append] at hmono ⊢
      obtain ⟨_, _, hlast⟩ := List.pairwise_append.mp hmono
      refine ⟨q.ms, List.forall_mem_append.mpr ⟨fun x hx => hlast x hx q List.mem_cons_self, by simp⟩⟩
  obtain ⟨last, _, h⟩ : ∃ last ≤ ms, Tallied l last (l.after sha256 queries slot) (l.allowed sha256 slot queries) :=
    tallied_run hmono hpast
  have hbound := h.bounded t
  omega

end Invariant

section Busiest

variable {key : String} {count k : Nat} {expires : Int}

/-- Calls at one moment are allowed as long as the window has room. -/
theorem fill (hcount : 1 ≤ count) (hroom : (count + k : Nat) ≤ l.max_events) (halive : ms ≤ expires)
    (h : l.after sha256 queries (l.redis_key sha256 key) = some ⟨count, some expires⟩) :
    l.after sha256 (queries ++ List.replicate k ⟨key, ms, .replied⟩) (l.redis_key sha256 key) =
        some ⟨(count + k : Nat), some expires⟩ ∧
      l.allowed sha256 (l.redis_key sha256 key) (queries ++ List.replicate k ⟨key, ms, .replied⟩) =
        l.allowed sha256 (l.redis_key sha256 key) queries ++ List.replicate k ms := by
  induction k with
  | zero => simpa using h
  | succ k ih =>
    obtain ⟨hafter, hallowed⟩ := ih (by omega)
    have hnext : l.increment (some ⟨(count + k : Nat), some expires⟩) ms = ⟨(count + k + 1 : Nat), some expires⟩ :=
      increment_counting (by omega) halive
    have hyes : (l.answer (some ⟨(count + k : Nat), some expires⟩) ms .replied).1.1 = true := by
      rw [answer_allowed, hnext]
      exact ⟨rfl, hroom⟩
    rw [List.replicate_succ', ← List.append_assoc, allowed_snoc, after_at (q := ⟨key, ms, .replied⟩), hafter, hallowed,
      if_pos ⟨rfl, hyes⟩, answer_stored (by simp), hnext, List.replicate_succ', List.append_assoc]
    exact ⟨rfl, rfl⟩

/-- One call opens a window, and then the calls of a moment fill it. -/
theorem fill_opening (hdead : (l.after sha256 queries (l.redis_key sha256 key)).filter (Counter.alive ms) = none) :
    l.after sha256 (queries ++ [⟨key, ms, .replied⟩]) (l.redis_key sha256 key) = some ⟨1, some (ms + l.span)⟩ ∧
      l.allowed sha256 (l.redis_key sha256 key) (queries ++ [⟨key, ms, .replied⟩]) =
        l.allowed sha256 (l.redis_key sha256 key) queries ++ [ms] := by
  have hyes : (l.answer (l.after sha256 queries (l.redis_key sha256 key)) ms .replied).1.1 = true := by
    rw [answer_allowed, increment_opening hdead]
    exact ⟨rfl, l.positive.1⟩
  rw [after_at (q := ⟨key, ms, .replied⟩), allowed_snoc, if_pos ⟨rfl, hyes⟩, answer_stored (by simp),
    increment_opening hdead]
  exact ⟨rfl, rfl⟩

variable (l) (key) in
/-- A window that is opened early and filled at its end, and then the next one at once. -/
def busiest : List Query :=
  [⟨key, 0, .replied⟩] ++ List.replicate (l.max_events.toNat - 1) ⟨key, l.span, .replied⟩ ++
    [⟨key, l.span + 1, .replied⟩] ++ List.replicate (l.max_events.toNat - 1) ⟨key, l.span + 1, .replied⟩

theorem busiest_sorted : (l.busiest key).Pairwise (·.ms ≤ ·.ms) := by
  have hspan : 0 < l.span := span_pos
  simp only [busiest, List.pairwise_append, List.pairwise_singleton, List.pairwise_replicate, List.mem_append,
    List.mem_singleton, List.mem_replicate]
  grind

theorem busiest_admitted :
    l.admitted sha256 (l.redis_key sha256 key) (l.span + 1) (l.busiest key) = 2 * l.max_events - 1 := by
  have hpos := l.positive.1
  have hspan : 1 < l.span := by
    have := l.positive.2
    unfold span
    omega
  have hroom : ((1 + (l.max_events.toNat - 1) : Nat) : Int) ≤ l.max_events := by omega
  have hunused : (l.after sha256 [] (l.redis_key sha256 key)).filter (Counter.alive 0) = none := rfl
  obtain ⟨hafter, hallowed⟩ := fill_opening hunused
  rw [zero_add] at hafter
  obtain ⟨hafter, hallowed'⟩ := fill le_rfl hroom le_rfl hafter
  have hdead : (l.after sha256 ([] ++ [⟨key, 0, .replied⟩] ++
      List.replicate (l.max_events.toNat - 1) ⟨key, l.span, .replied⟩) (l.redis_key sha256 key)).filter
        (Counter.alive (l.span + 1)) = none := by
    rw [hafter]
    simp [Option.filter, Counter.alive]
  obtain ⟨hagain, hallowed''⟩ := fill_opening hdead
  obtain ⟨_, hall⟩ := fill le_rfl hroom (le_add_of_nonneg_right span_pos.le) hagain
  have hevents : l.allowed sha256 (l.redis_key sha256 key) (l.busiest key) =
      [0] ++ List.replicate (l.max_events.toNat - 1) l.span ++ [l.span + 1] ++
        List.replicate (l.max_events.toNat - 1) (l.span + 1) := by
    rw [hallowed'', hallowed', hallowed] at hall
    exact hall
  -- only the opening of the first window is out of reach
  have hcount : (window l.span (l.span + 1) (l.allowed sha256 (l.redis_key sha256 key) (l.busiest key))).length =
      (l.max_events.toNat - 1) + 1 + (l.max_events.toNat - 1) := by
    rw [hevents, window]
    simp [List.filter_append, hspan, one_pos.trans hspan]
    omega
  rw [admitted, hcount]
  omega

/-- What a window of the sliding kind can see of calls in the order of their times, whatever becomes of them. -/
theorem admitted_bound (l : RedisRateLimiter) (sha256 : Bytes → Hex 64) :
    IsLeast {bound : Int | ∀ queries : List Query, queries.Pairwise (·.ms ≤ ·.ms) →
      ∀ key t, l.admitted sha256 (l.redis_key sha256 key) t queries ≤ bound} (2 * l.max_events - 1) := by
  refine ⟨fun queries hmono key t => admitted_le hmono t, fun bound hbound => ?_⟩
  have hbusiest : l.admitted sha256 (l.redis_key sha256 "") (l.span + 1) (l.busiest "") = 2 * l.max_events - 1 :=
    busiest_admitted
  rw [← hbusiest]
  exact hbound _ busiest_sorted "" _

end Busiest

section Retry

variable {key : String} {r : Int}

variable (l) (sha256) in
/-- How long the counter of a key is kept. -/
def left (queries : List Query) (key : String) (ms : Int) : Int :=
  ((l.after sha256 queries (l.redis_key sha256 key)).bind Counter.expires).getD ms - ms

variable (l) (sha256) in
/-- After the calls, another one `n` seconds later is allowed, whatever is called at other keys in between. -/
def Sufficient (queries : List Query) (key : String) (ms n : Int) : Prop :=
  ∀ more : List Query, (∀ q ∈ more, l.redis_key sha256 q.key ≠ l.redis_key sha256 key) →
    (l.check sha256 (l.after sha256 (queries ++ more)) key (ms + 1000 * n) .replied).1.1 = true

theorem after_others {more : List Query} (h : ∀ q ∈ more, l.redis_key sha256 q.key ≠ slot) :
    l.after sha256 (queries ++ more) slot = l.after sha256 queries slot := by
  induction more using List.reverseRecOn with
  | nil => rw [List.append_nil]
  | append_singleton more q ih =>
    rw [← List.append_assoc, after_other (h q (by simp))]
    exact ih fun x hx => h x (List.mem_append_left _ hx)

/-- A counter that is past the bound, up to the end of its window. -/
def Full (l : RedisRateLimiter) (expires : Int) (stored : Option Counter) : Prop :=
  ∃ count : Nat, l.max_events < count ∧ stored = some ⟨count, some expires⟩

/-- It stays so, whatever is called. -/
theorem Full.answer {expires : Int} (h : l.Full expires stored) (halive : ms ≤ expires) :
    l.Full expires (l.answer stored ms link).2 ∧ (l.answer stored ms link).1.1 = false := by
  obtain ⟨count, hcount, rfl⟩ := h
  have hpos := l.positive.1
  have hnext : l.increment (some ⟨count, some expires⟩) ms = ⟨(count + 1 : Nat), some expires⟩ :=
    increment_counting (by omega) halive
  have hno : (l.answer (some ⟨count, some expires⟩) ms link).1.1 = false := by
    rw [← Bool.not_eq_true, answer_allowed, hnext]
    simp only [not_and]
    omega
  refine ⟨?_, hno⟩
  by_cases hlink : link = .refused
  · subst hlink
    exact ⟨count, hcount, rfl⟩
  · rw [answer_stored hlink, hnext]
    exact ⟨count + 1, by omega, rfl⟩

theorem full_run {expires : Int} {more : List Query} (h : l.Full expires (l.after sha256 queries slot))
    (halive : ∀ q ∈ more, q.ms ≤ expires) : l.Full expires (l.after sha256 (queries ++ more) slot) := by
  induction more using List.reverseRecOn with
  | nil => rwa [List.append_nil]
  | append_singleton more q ih =>
    have hmore := ih fun x hx => halive x (List.mem_append_left _ hx)
    rw [← List.append_assoc]
    by_cases hslot : l.redis_key sha256 q.key = slot
    · subst hslot
      rw [after_at]
      exact (hmore.answer (halive q (by simp))).1
    · rw [after_other hslot]
      exact hmore

/-- What a denied call leaves behind, and what its answer says of it. -/
theorem denied_full (hmono : queries.Pairwise (·.ms ≤ ·.ms)) (hpast : ∀ q ∈ queries, q.ms ≤ ms)
    (hdenied : (l.check sha256 (l.after sha256 queries) key ms .replied).1 = (false, r)) :
    0 ≤ l.left sha256 queries key ms ∧ r = max 1 ((l.left sha256 queries key ms + 500) / 1000) ∧
      l.Full (ms + l.left sha256 queries key ms)
        (l.after sha256 (queries ++ [⟨key, ms, .replied⟩]) (l.redis_key sha256 key)) := by
  have hpos := l.positive.1
  obtain ⟨last, hlast, h⟩ : ∃ last ≤ ms, Tallied l last (l.after sha256 queries (l.redis_key sha256 key))
      (l.allowed sha256 (l.redis_key sha256 key) queries) := tallied_run hmono hpast
  rw [after_at (q := ⟨key, ms, .replied⟩), left]
  replace hdenied : (l.answer (l.after sha256 queries (l.redis_key sha256 key)) ms .replied).1 = (false, r) := hdenied
  generalize l.after sha256 queries (l.redis_key sha256 key) = stored at *
  generalize l.allowed sha256 (l.redis_key sha256 key) queries = events at *
  have hover : l.max_events < (l.increment stored ms).count := by
    by_contra hle
    have hyes : (l.answer stored ms .replied).1.1 = true := answer_allowed.mpr ⟨rfl, not_lt.mp hle⟩
    simp [hdenied] at hyes
  rw [answer_denied hover, Prod.mk.injEq] at hdenied
  obtain ⟨-, rfl⟩ := hdenied
  rw [answer_stored (by simp)]
  cases h with
  | unused =>
    rw [increment_opening rfl] at hover
    simp only at hover
    omega
  | @counting start count earlier current hcount hstart _ _ =>
    by_cases halive : ms ≤ start + l.span
    · rw [increment_counting hcount halive] at hover ⊢
      simp only [Option.bind_some, Option.getD_some, Counter.ttl]
      exact ⟨by omega, trivial, count + 1, hover, by simp⟩
    · have hdead : (some (⟨count, some (start + l.span)⟩ : Counter)).filter (Counter.alive ms) = none := by
        simp [Option.filter, Counter.alive, halive]
      rw [increment_opening hdead] at hover
      simp only at hover
      omega

/-- After a denied call, the server denies every call until the counter is dropped, whatever is called in
between, and the seconds of the answer are enough exactly when what is left of the window is rounded up; a
second less never is, and a second more always. -/
theorem wait_iff (l : RedisRateLimiter) (sha256 : Bytes → Hex 64) (queries : List Query) (key : String) (ms r : Int)
    (hmono : queries.Pairwise (·.ms ≤ ·.ms)) (hpast : ∀ q ∈ queries, q.ms ≤ ms)
    (hdenied : (l.check sha256 (l.after sha256 queries) key ms .replied).1 = (false, r)) :
    let denied := queries ++ [⟨key, ms, .replied⟩]
    (∀ more : List Query, ∀ again link, (∀ q ∈ more, q.ms ≤ ms + l.left sha256 queries key ms) →
      again ≤ ms + l.left sha256 queries key ms →
        (l.check sha256 (l.after sha256 (denied ++ more)) key again link).1.1 = false) ∧
    (l.Sufficient sha256 denied key ms r ↔
      l.left sha256 queries key ms < 1000 ∨ 500 ≤ l.left sha256 queries key ms % 1000) ∧
    (∀ n < r, ¬ l.Sufficient sha256 denied key ms n) ∧ ∀ n > r, l.Sufficient sha256 denied key ms n := by
  intro denied
  obtain ⟨hleft, rfl, hfull⟩ := denied_full hmono hpast hdenied
  have hblocked : ∀ more : List Query, ∀ again link, (∀ q ∈ more, q.ms ≤ ms + l.left sha256 queries key ms) →
      again ≤ ms + l.left sha256 queries key ms →
        (l.check sha256 (l.after sha256 (denied ++ more)) key again link).1.1 = false := by
    intro more again link hmore hagain
    exact ((full_run hfull hmore).answer hagain).2
  have hsufficient : ∀ n, l.Sufficient sha256 denied key ms n ↔ l.left sha256 queries key ms < 1000 * n := by
    intro n
    constructor
    · intro h
      by_contra hearly
      have hno := hblocked [] (ms + 1000 * n) .replied (by simp) (by omega)
      rw [h [] (by simp)] at hno
      cases hno
    · intro hlate more hmore
      obtain ⟨count, _, hstored⟩ := hfull
      change (l.answer (l.after sha256 (denied ++ more) (l.redis_key sha256 key)) _ _).1.1 = true
      rw [after_others hmore, hstored, answer_allowed, increment_opening]
      · exact ⟨rfl, l.positive.1⟩
      · simp [Option.filter, Counter.alive]
        omega
  refine ⟨hblocked, ?_, fun n hn => ?_, fun n hn => ?_⟩
  · rw [hsufficient]
    omega
  · rw [hsufficient]
    omega
  · rw [hsufficient]
    omega

end Retry

section Sample

/-- One event in 60 seconds. -/
def singly : RedisRateLimiter := ⟨1, 60, "agent", minute_positive⟩

theorem wait_checks :
    (singly.check noDigest (singly.after noDigest [⟨"a", 0, .replied⟩]) "a" 500 .replied).1 = (false, 60) ∧
    singly.left noDigest [⟨"a", 0, .replied⟩] "a" 500 = 59500 ∧
    (singly.check noDigest (singly.after noDigest [⟨"a", 0, .replied⟩]) "a" 501 .replied).1 = (false, 59) := by
  decide +kernel

/-- Half a second after the window opened, one is to wait for the whole minute. -/
theorem wait_sample : (singly.check noDigest (singly.after noDigest [⟨"a", 0, .replied⟩]) "a" 500 .replied).1 = (false, 60) ∧
    singly.Sufficient noDigest [⟨"a", 0, .replied⟩, ⟨"a", 500, .replied⟩] "a" 500 60 := by
  obtain ⟨hdenied, hleft, _⟩ := wait_checks
  obtain ⟨_, hretry, _⟩ := wait_iff singly noDigest [⟨"a", 0, .replied⟩] "a" 500 60 (by simp) (by simp) hdenied
  exact ⟨hdenied, hretry.mpr (by rw [hleft]; decide)⟩

/-- A moment later, the answer is half a second short. -/
example : (singly.check noDigest (singly.after noDigest [⟨"a", 0, .replied⟩]) "a" 501 .replied).1 = (false, 59) :=
  wait_checks.2.2

end Sample

end RedisRateLimiter

end EnterpriseCopilot.Limits
