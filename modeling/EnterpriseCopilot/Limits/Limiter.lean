import EnterpriseCopilot.Python.Text
import Mathlib.Data.Rat.Defs
import Mathlib.Algebra.Order.Ring.Rat
import Mathlib.Logic.Function.Basic
import Mathlib.Tactic.Linarith

/-! The limiters of one process and of a Redis server. -/

namespace EnterpriseCopilot.Limits

open EnterpriseCopilot.Python

def notPositive : PyError := .valueError "rate limit values must be positive"

/-- `int(value)` of a float. -/
def truncate (q : Rat) : Int := q.num.tdiv q.den

structure InMemoryRateLimiter where
  max_events : Int
  window_seconds : Int
  positive : 0 < max_events ∧ 0 < window_seconds

namespace InMemoryRateLimiter

def make (max_events window_seconds : Int) : Except PyError InMemoryRateLimiter :=
  if h : max_events ≤ 0 ∨ window_seconds ≤ 0 then .error notPositive
  else .ok ⟨max_events, window_seconds, by omega⟩

/-- The events of a key that are still counted at `now`. -/
def recent (l : InMemoryRateLimiter) (events : List Rat) (now : Rat) : List Rat :=
  events.dropWhile (· ≤ now - l.window_seconds)

/-- The answer, and what becomes of the events of the key. -/
def answer (l : InMemoryRateLimiter) (events : List Rat) (now : Rat) : (Bool × Int) × List Rat :=
  match l.recent events now with
  | [] => ((true, 0), [now])
  | first :: rest =>
    if l.max_events ≤ (first :: rest).length then
      ((false, max 1 (truncate (first + l.window_seconds - now + 999 / 1000))), first :: rest)
    else ((true, 0), first :: rest ++ [now])

/-- `_events` has an empty deque for every key that is new. -/
def check (l : InMemoryRateLimiter) (_events : String → List Rat) (key : String) (now : Rat) :
    (Bool × Int) × (String → List Rat) :=
  ((l.answer (_events key) now).1, Function.update _events key (l.answer (_events key) now).2)

end InMemoryRateLimiter

/-- An integer of the Redis server and the time in milliseconds up to which it is kept. -/
structure Counter where
  count : Int
  expires : Option Int
  deriving DecidableEq

def Counter.alive (ms : Int) (c : Counter) : Bool := c.expires.all (ms ≤ ·)

/-- The `TTL` in seconds, and -1 for a key that does not expire. -/
def Counter.ttl (ms : Int) (c : Counter) : Int :=
  match c.expires with
  | some expires => (expires - ms + 500) / 1000
  | none => -1

/-- What becomes of a request to the server: it may raise without effect, or after the effect. -/
inductive Link
  | replied | refused | lost
  deriving DecidableEq

/-- `prefix_` is the prefix of the keys, stripped. -/
structure RedisRateLimiter where
  max_events : Int
  window_seconds : Int
  prefix_ : String
  positive : 0 < max_events ∧ 0 < window_seconds

namespace RedisRateLimiter

def make (max_events window_seconds : Int) (prefix_ : String) : Except PyError RedisRateLimiter :=
  if h : max_events ≤ 0 ∨ window_seconds ≤ 0 ∨ isBlank prefix_ then .error notPositive
  else .ok ⟨max_events, window_seconds, str_strip prefix_, by omega⟩

def redis_key (l : RedisRateLimiter) (sha256 : Bytes → Hex 64) (key : String) : String :=
  l.prefix_ ++ ":rate:" ++ (sha256 (utf8 key)).text

/-- The counter after `INCR`, and `EXPIRE` if it is the first. -/
def increment (l : RedisRateLimiter) (stored : Option Counter) (ms : Int) : Counter :=
  let count := match stored.filter (Counter.alive ms) with
    | some c => ⟨c.count + 1, c.expires⟩
    | none => ⟨1, none⟩
  if count.count = 1 then ⟨1, some (ms + l.window_seconds * 1000)⟩ else count

/-- What the script returns. -/
def script (l : RedisRateLimiter) (count : Counter) (ms : Int) : Bool × Int :=
  if l.max_events < count.count then (false, count.ttl ms) else (true, 0)

/-- The answer, and what becomes of the counter. -/
def answer (l : RedisRateLimiter) (stored : Option Counter) (ms : Int) (link : Link) :
    (Bool × Int) × Option Counter :=
  match link with
  | .refused => ((false, l.window_seconds), stored)
  | .lost => ((false, l.window_seconds), some (l.increment stored ms))
  | .replied =>
    let result := l.script (l.increment stored ms) ms
    ((result.1, if result.1 then 0 else max 1 result.2), some (l.increment stored ms))

def check (l : RedisRateLimiter) (sha256 : Bytes → Hex 64) (strings : String → Option Counter)
    (key : String) (ms : Int) (link : Link) : (Bool × Int) × (String → Option Counter) :=
  let redis_key := l.redis_key sha256 key
  ((l.answer (strings redis_key) ms link).1,
    Function.update strings redis_key (l.answer (strings redis_key) ms link).2)

end RedisRateLimiter

section Filling

theorem InMemoryRateLimiter.recent_replicate {l : InMemoryRateLimiter} {now : Rat} {k : Nat} :
    l.recent (List.replicate k now) now = List.replicate k now := by
  have hlate : ¬ now ≤ now - l.window_seconds := by
    have hpos : (0 : Rat) < l.window_seconds := by exact_mod_cast l.positive.2
    linarith
  cases k with
  | zero => rfl
  | succ k => simp [recent, List.replicate_succ, hlate]

/-- Events of one moment are admitted up to the bound, -/
theorem InMemoryRateLimiter.answer_filling {l : InMemoryRateLimiter} {now : Rat} {k : Nat}
    (hk : k < l.max_events) :
    l.answer (List.replicate k now) now = ((true, 0), List.replicate (k + 1) now) := by
  unfold answer
  rw [recent_replicate]
  cases k with
  | zero => rfl
  | succ k =>
    have hlen : ¬ l.max_events ≤ ((now :: List.replicate k now).length : Nat) := by simpa using hk
    simp only [List.replicate_succ]
    rw [if_neg hlen, List.cons_append, ← List.replicate_succ', List.replicate_succ]

/-- and then no more. -/
theorem InMemoryRateLimiter.answer_full {l : InMemoryRateLimiter} {now : Rat} {k : Nat}
    (hk : l.max_events ≤ k) : (l.answer (List.replicate k now) now).1.1 = false := by
  unfold answer
  rw [recent_replicate]
  cases k with
  | zero => exact absurd l.positive.1 (not_lt.mpr hk)
  | succ k =>
    have hlen : l.max_events ≤ ((now :: List.replicate k now).length : Nat) := by simpa using hk
    simp only [List.replicate_succ]
    rw [if_pos hlen]

/-- The counter after `k` requests at one moment. -/
def RedisRateLimiter.counted (l : RedisRateLimiter) (ms : Int) : Nat → Option Counter
  | 0 => none
  | k + 1 => some ⟨k + 1, some (ms + l.window_seconds * 1000)⟩

theorem RedisRateLimiter.increment_counted {l : RedisRateLimiter} {ms : Int} {k : Nat} :
    some (l.increment (l.counted ms k) ms) = l.counted ms (k + 1) := by
  cases k with
  | zero => rfl
  | succ k =>
    have halive : Counter.alive ms ⟨k + 1, some (ms + l.window_seconds * 1000)⟩ = true := by
      have := l.positive.2
      simp only [Counter.alive, Option.all_some, decide_eq_true_eq]
      omega
    have hcount : ((k : Int) + 1 + 1 = 1) = False := by simp; omega
    simp only [counted, increment, Option.filter_some, halive, if_true, hcount, if_false]
    rfl

theorem RedisRateLimiter.count_counted {l : RedisRateLimiter} {ms : Int} {k : Nat} :
    (l.increment (l.counted ms k) ms).count = k + 1 := by
  have h : some (l.increment (l.counted ms k) ms) = l.counted ms (k + 1) := increment_counted
  rw [Option.some_inj.mp h]

theorem RedisRateLimiter.answer_filling {l : RedisRateLimiter} {ms : Int} {k : Nat} (hk : k < l.max_events) :
    l.answer (l.counted ms k) ms .replied = ((true, 0), l.counted ms (k + 1)) := by
  have hscript : l.script (l.increment (l.counted ms k) ms) ms = (true, 0) := by
    rw [script, count_counted, if_neg (by omega)]
  simp only [answer, hscript, if_true, increment_counted]

theorem RedisRateLimiter.answer_full {l : RedisRateLimiter} {ms : Int} {k : Nat} (hk : l.max_events ≤ k) :
    (l.answer (l.counted ms k) ms .replied).1.1 = false := by
  have hscript : (l.script (l.increment (l.counted ms k) ms) ms).1 = false := by
    rw [script, count_counted, if_pos (by omega)]
  simp only [answer, hscript]

end Filling

end EnterpriseCopilot.Limits
