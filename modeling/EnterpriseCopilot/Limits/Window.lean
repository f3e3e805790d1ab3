import EnterpriseCopilot.Lib.Keyed
import EnterpriseCopilot.Lib.Sliding
import EnterpriseCopilot.Limits.Limiter
import Mathlib.Data.List.Induction
import Mathlib.Data.Rat.Floor

/-! What the limiter of one process admits over a sliding window. -/

namespace EnterpriseCopilot.Limits

open EnterpriseCopilot.Lib EnterpriseCopilot.Python Sliding

/-- A call of `check`. -/
structure Check where
  key : String
  time : Rat

section Rounding

theorem truncate_eq_floor {q : Rat} (h : 0 ≤ q) : truncate q = ⌊q⌋ := by
  rw [truncate, Int.tdiv_eq_ediv_of_nonneg (Rat.num_nonneg.mpr h)]
  exact Rat.floor_def'.symm

/-- Adding 0.999 and truncating rounds up, unless the fraction is less than a thousandth. -/
theorem wait_le_iff {d : Rat} (hd : 0 < d) : d ≤ (max 1 (truncate (d + 999 / 1000)) : Int) ↔
    d ≤ 1 ∨ Int.fract d = 0 ∨ 1 / 1000 ≤ Int.fract d := by
  have hfloor : truncate (d + 999 / 1000) = ⌊d + 999 / 1000⌋ := truncate_eq_floor (by linarith)
  have hsum : d = ⌊d⌋ + Int.fract d := (Int.floor_add_fract d).symm
  have hfract := Int.fract_nonneg d
  have hone := Int.fract_lt_one d
  rw [hfloor, Int.cast_max, le_max_iff, Int.cast_one]
  refine or_congr_right' fun hlong => ?_
  by_cases hsmall : Int.fract d < 1 / 1000
  · have hdown : ⌊d + 999 / 1000⌋ = ⌊d⌋ := by
      rw [Int.floor_eq_iff]
      constructor <;> linarith
    rw [hdown, or_iff_left (not_le.mpr hsmall)]
    constructor
    · intro hle
      linarith
    · intro hzero
      linarith
  · have hup : ⌊d + 999 / 1000⌋ = ⌊d⌋ + 1 := by
      rw [Int.floor_eq_iff]
      push_cast
      constructor <;> linarith
    have hle : d ≤ ((⌊d⌋ + 1 : Int) : Rat) := by
      push_cast
      linarith
    rw [hup]
    exact ⟨fun _ => .inr (not_lt.mp hsmall), fun _ => hle⟩

/-- and never rounds up too far. -/
theorem retry_le {d : Rat} (hd : 0 < d) {n : Int} (hn : 0 < n) (hle : d ≤ n) :
    max 1 (truncate (d + 999 / 1000)) ≤ n := by
  rw [truncate_eq_floor (by linarith)]
  refine max_le hn (Int.lt_add_one_iff.mp (Int.floor_lt.mpr ?_))
  push_cast
  linarith

end Rounding

namespace InMemoryRateLimiter

variable (l : InMemoryRateLimiter)

/-- Every key has a deque of its own. -/
def machine : Keyed (String → List Rat) Check (Bool × Int) String (List Rat) where
  step s c := ((l.check s c.key c.time).2, (l.check s c.key c.time).1)
  key c := c.key
  view s key := s key
  frame hne := Function.update_of_ne hne _ _
  reads h := by
    simp only [check, Function.update_self, h, and_self]

/-- The calls with their answers, from a new limiter. -/
def answers (calls : List Check) : List (Check × (Bool × Int)) := l.machine.answers (fun _ => []) calls

/-- The deques after the calls. -/
def after (calls : List Check) : String → List Rat := l.machine.after (fun _ => []) calls

/-- The times of the calls of a key that were allowed. -/
def allowed (key : String) (calls : List Check) : List Rat :=
  (l.answers calls).filterMap fun a => if a.1.key = key ∧ a.2.1 = true then some a.1.time else none

def span : Rat := l.window_seconds

/-- How many calls of the key were allowed in the window up to `t`. -/
def counted (key : String) (t : Rat) (calls : List Check) : Int :=
  (window l.span t (l.allowed key calls)).length

variable {l : InMemoryRateLimiter} {events : List Rat} {now : Rat} {calls : List Check} {key : String}

theorem span_pos : 0 < l.span := by
  unfold span
  exact_mod_cast l.positive.2

/-- The key is denied when the window is full, and recorded otherwise. -/
theorem answer_eq : l.answer events now = if l.max_events ≤ (l.recent events now).length then
    ((false, max 1 (truncate ((l.recent events now).headD 0 + l.window_seconds - now + 999 / 1000))),
      l.recent events now)
    else ((true, 0), l.recent events now ++ [now]) := by
  unfold answer
  cases l.recent events now with
  | nil =>
    have hpos : ¬ l.max_events ≤ (([] : List Rat).length : Nat) := by simpa using l.positive.1
    rw [if_neg hpos]
    rfl
  | cons first rest => rfl

theorem after_snoc (c : Check) : l.after (calls ++ [c]) = (l.check (l.after calls) c.key c.time).2 := by
  simp only [after, Keyed.after, List.foldl_append]
  rfl

theorem answers_snoc (c : Check) :
    l.answers (calls ++ [c]) = l.answers calls ++ [(c, (l.check (l.after calls) c.key c.time).1)] := by
  have h : ∀ s, l.machine.answers s (calls ++ [c]) = l.machine.answers s calls ++
      [(c, (l.check (l.machine.after s calls) c.key c.time).1)] := by
    induction calls with
    | nil => exact fun _ => rfl
    | cons x xs ih => exact fun s => congrArg (_ :: ·) (ih _)
  exact h _

theorem allowed_of_true {c : Check} (hkey : c.key = key)
    (h : (l.check (l.after calls) c.key c.time).1.1 = true) :
    l.allowed key (calls ++ [c]) = l.allowed key calls ++ [c.time] := by
  rw [allowed, answers_snoc, List.filterMap_append, ← allowed,
    List.filterMap_cons_some (by rw [if_pos ⟨hkey, h⟩]), List.filterMap_nil]

theorem allowed_of_not {c : Check}
    (h : ¬ (c.key = key ∧ (l.check (l.after calls) c.key c.time).1.1 = true)) :
    l.allowed key (calls ++ [c]) = l.allowed key calls := by
  rw [allowed, answers_snoc, List.filterMap_append, ← allowed, List.filterMap_cons_none (by rw [if_neg h]),
    List.filterMap_nil, List.append_nil]

/-- The deque of a key after calls up to `last` of its own. -/
abbrev Holds (l : InMemoryRateLimiter) (calls : List Check) (key : String) (last : Rat) : Prop :=
  Held l.max_events.toNat l.span last (l.allowed key calls) (l.after calls key)

/-- A check of the key keeps the invariant, whatever it answers. -/
theorem Holds.check {last : Rat} (h : Holds l calls key last) (hnow : last ≤ now) :
    Holds l (calls ++ [⟨key, now⟩]) key now ∧
      ((l.check (l.after calls) key now).1.1 = false ↔ l.max_events = l.counted key now calls) := by
  have hrecent : l.recent (l.after calls key) now = window l.span now (l.allowed key calls) := h.evict hnow
  have hbound := h.bounded now
  have hpos := l.positive.1
  have hreply : l.answer (l.after calls key) now = _ := answer_eq
  rw [hrecent] at hreply
  have hdeque : l.after (calls ++ [⟨key, now⟩]) key = (l.answer (l.after calls key) now).2 := by
    rw [after_snoc]
    exact Function.update_self _ _ _
  have hanswer : (l.check (l.after calls) key now).1 = (l.answer (l.after calls key) now).1 := rfl
  rw [Holds, hdeque, hanswer, counted]
  by_cases hfull : l.max_events ≤ (window l.span now (l.allowed key calls)).length
  · rw [if_pos hfull] at hreply
    rw [allowed_of_not (by rw [hanswer, hreply]; simp), hreply]
    exact ⟨h.later hnow, by simp; omega⟩
  · rw [if_neg hfull] at hreply
    have hallowed : l.allowed key (calls ++ [⟨key, now⟩]) = l.allowed key calls ++ [now] :=
      allowed_of_true rfl (congrArg Prod.fst (hanswer.trans (congrArg Prod.fst hreply)))
    rw [hallowed, hreply]
    exact ⟨h.push hnow span_pos (by omega), by simp; omega⟩

/-- A check of another key leaves the deque alone. -/
theorem Holds.other {last : Rat} {c : Check} (h : Holds l calls key last) (hc : c.key ≠ key) :
    Holds l (calls ++ [c]) key last := by
  rw [Holds, allowed_of_not fun hkey => hc hkey.1, after_snoc]
  dsimp only [InMemoryRateLimiter.check]
  rw [Function.update_of_ne (Ne.symm hc)]
  exact h

/-- After calls in the order of their times, every key holds the invariant up to any later time. -/
theorem holds_run (hmono : calls.Pairwise (·.time ≤ ·.time)) (hpast : ∀ c ∈ calls, c.time ≤ now) :
    ∃ last ≤ now, Holds l calls key last := by
  induction calls using List.reverseRecOn generalizing now with
  | nil => exact ⟨now, le_rfl, .nil⟩
  | append_singleton calls c ih =>
    obtain ⟨hcalls, _, hlast⟩ := List.pairwise_append.mp hmono
    have hc : c.time ≤ now := hpast c (by simp)
    obtain ⟨last, hle, h⟩ := ih hcalls fun x hx => hlast x hx c List.mem_cons_self
    by_cases hkey : c.key = key
    · subst hkey
      exact ⟨c.time, hc, (h.check hle).1⟩
    · exact ⟨last, hle.trans hc, h.other hkey⟩

/-- The answers for a key are those that it gets without the calls of the others. -/
theorem answers_filter :
    (l.answers calls).filter (·.1.key == key) = l.answers (calls.filter (·.key == key)) := by
  have hfilter : l.machine.answersTo (·.key == key) (fun _ => []) calls =
      l.machine.answersTo (·.key == key) (fun _ => []) (calls.filter (·.key == key)) :=
    Keyed.answersTo_filter (K := (· = key)) (fun _ hc => beq_iff_eq.mp hc)
      (fun _ hc => beq_eq_false_iff_ne.mp hc) fun _ _ => rfl
  refine hfilter.trans (List.filter_eq_self.mpr fun a ha => ?_)
  have hown : ∀ (s : String → List Rat) (xs : List Check), ∀ a ∈ l.machine.answers s xs, a.1 ∈ xs := by
    intro s xs
    induction xs generalizing s with
    | nil => simp [Keyed.answers]
    | cons x xs ih =>
      intro a ha
      obtain rfl | ha := List.mem_cons.mp ha
      · exact List.mem_cons_self
      · exact List.mem_cons_of_mem _ (ih _ a ha)
  exact (List.mem_filter.mp (hown _ _ a ha)).2

/-- Calls in the order of their times: no window admits more than the bound, a call is denied exactly
when its window is full, the keys are apart, and the deques are sorted and bounded. -/
theorem sliding_window (l : InMemoryRateLimiter) (calls : List Check)
    (hmono : calls.Pairwise (·.time ≤ ·.time)) :
    (∀ key t, l.counted key t calls ≤ l.max_events) ∧
    (∀ before c later, calls = before ++ c :: later →
      ((l.check (l.after before) c.key c.time).1.1 = false ↔ l.max_events = l.counted c.key c.time before)) ∧
    (∀ key, (l.answers calls).filter (·.1.key == key) = l.answers (calls.filter (·.key == key))) ∧
    ∀ key, (l.after calls key).Pairwise (· ≤ ·) ∧ ((l.after calls key).length : Int) ≤ l.max_events := by
  have hpos := l.positive.1
  have hrun : ∀ key, ∃ last, Holds l calls key last := by
    intro key
    obtain ⟨now, hnow⟩ : ∃ now, ∀ c ∈ calls, c.time ≤ now := by
      obtain rfl | ⟨init, c, rfl⟩ := calls.eq_nil_or_concat
      · exact ⟨0, by simp⟩
      · obtain ⟨_, _, hlast⟩ := List.pairwise_append.mp (List.concat_eq_append ▸ hmono)
        refine ⟨c.time, fun x hx => ?_⟩
        rw [List.concat_eq_append] at hx
        obtain hx | hx := List.mem_append.mp hx
        · exact hlast x hx c List.mem_cons_self
        · rw [List.mem_singleton.mp hx]
    obtain ⟨last, _, h⟩ := holds_run (l := l) hmono hnow
    exact ⟨last, h⟩
  refine ⟨fun key t => ?_, ?_, fun key => ?_, fun key => ?_⟩
  · obtain ⟨_, h⟩ := hrun key
    have hbound := h.bounded t
    unfold counted
    omega
  · rintro before c later rfl
    obtain ⟨hbefore, _, hlast⟩ := List.pairwise_append.mp hmono
    obtain ⟨last, hle, h⟩ := holds_run (l := l) hbefore
      fun x hx => hlast x hx c List.mem_cons_self
    exact (h.check hle).2
  · exact answers_filter
  · obtain ⟨_, h⟩ := hrun key
    have hbound := h.kept_length
    exact ⟨h.kept_sorted, by omega⟩

section Retry

variable {t : Rat}

/-- Calls of other keys leave the deque of a key alone. -/
theorem after_others {more : List Check} (h : ∀ c ∈ more, c.key ≠ key) :
    l.after (calls ++ more) key = l.after calls key := by
  induction more using List.reverseRecOn with
  | nil => rw [List.append_nil]
  | append_singleton more c ih =>
    rw [← List.append_assoc, after_snoc]
    refine (Function.update_of_ne (Ne.symm (h c (by simp))) _ _).trans ?_
    exact ih fun x hx => h x (List.mem_append_left _ hx)

variable (l) in
/-- After a check of the key at `t`, another one `n` seconds later is allowed, whatever is called with
other keys in between. -/
def Sufficient (calls : List Check) (key : String) (t : Rat) (n : Int) : Prop :=
  ∀ more : List Check, (∀ c ∈ more, c.key ≠ key) →
    (l.check (l.after (calls ++ [⟨key, t⟩] ++ more)) key (t + n)).1.1 = true

variable (l) in
/-- The time until the oldest event of the window leaves it. -/
def wait (calls : List Check) (key : String) (t : Rat) : Rat :=
  (window l.span t (l.allowed key calls)).headD 0 + l.window_seconds - t

/-- A full deque admits exactly when its oldest event has left the window. -/
theorem answer_full_iff {first : Rat} {rest : List Rat} (hfull : l.max_events = (first :: rest).length) :
    (l.answer (first :: rest) now).1.1 = true ↔ first ≤ now - l.window_seconds := by
  rw [answer_eq]
  by_cases hold : first ≤ now - l.window_seconds
  · have hshort : (l.recent (first :: rest) now).length ≤ rest.length := by
      rw [recent, List.dropWhile_cons_of_pos (by simpa using hold)]
      exact (List.dropWhile_sublist _).length_le
    have hroom : ¬ l.max_events ≤ (l.recent (first :: rest) now).length := by
      rw [hfull, List.length_cons]
      omega
    rw [if_neg hroom]
    exact ⟨fun _ => hold, fun _ => rfl⟩
  · have hkept : l.recent (first :: rest) now = first :: rest :=
      List.dropWhile_cons_of_neg (by simpa using hold)
    rw [hkept, if_pos hfull.le]
    exact ⟨fun h => (by cases h), fun h => absurd h hold⟩

/-- A denied check leaves a full deque, whose oldest event says how long to wait. -/
theorem denied_inv (hmono : calls.Pairwise (·.time ≤ ·.time)) (hpast : ∀ c ∈ calls, c.time ≤ t) {r : Int}
    (hdenied : (l.check (l.after calls) key t).1 = (false, r)) :
    0 < l.wait calls key t ∧ r = max 1 (truncate (l.wait calls key t + 999 / 1000)) ∧
      ∀ n, l.Sufficient calls key t n ↔ l.wait calls key t ≤ n := by
  obtain ⟨last, hle, h⟩ := holds_run (l := l) hmono hpast
  have hfull := (h.check hle).2.mp (congrArg Prod.fst hdenied)
  unfold counted at hfull
  have hrecent : l.recent (l.after calls key) t = window l.span t (l.allowed key calls) := h.evict hle
  have hdeque : l.after (calls ++ [⟨key, t⟩]) key = window l.span t (l.allowed key calls) := by
    rw [after_snoc]
    refine (Function.update_self _ _ _).trans ?_
    rw [answer_eq, hrecent, if_pos hfull.le]
  have hanswer : (l.check (l.after calls) key t).1 = (false, max 1 (truncate (l.wait calls key t + 999 / 1000))) := by
    change (l.answer (l.after calls key) t).1 = _
    rw [answer_eq, hrecent, if_pos hfull.le, wait]
  have hwindow : ∀ x ∈ window l.span t (l.allowed key calls), t - l.span < x := fun x hx => by
    simpa using (of_decide_eq_true (List.mem_filter.mp hx).2).1
  rw [hanswer] at hdenied
  obtain ⟨-, rfl⟩ := Prod.mk.inj hdenied
  unfold wait
  generalize window l.span t (l.allowed key calls) = kept at *
  cases kept with
  | nil => exact absurd l.positive.1 (by rw [hfull]; simp)
  | cons first rest =>
    have hfirst := hwindow first List.mem_cons_self
    unfold span at hfirst
    refine ⟨by simp only [List.headD_cons]; linarith, rfl, fun n => ?_⟩
    have hcheck : ∀ more : List Check, (∀ c ∈ more, c.key ≠ key) →
        ((l.check (l.after (calls ++ [⟨key, t⟩] ++ more)) key (t + n)).1.1 = true ↔
          first ≤ t + n - l.window_seconds) := by
      intro more hmore
      change (l.answer (l.after (calls ++ [⟨key, t⟩] ++ more) key) (t + n)).1.1 = true ↔ _
      rw [after_others hmore, hdeque]
      exact answer_full_iff hfull
    simp only [List.headD_cons]
    constructor
    · intro hsufficient
      have := (hcheck [] (by simp)).mp (hsufficient [] (by simp))
      linarith
    · intro hwait more hmore
      exact (hcheck more hmore).mpr (by linarith)

/-- After a denied check, the seconds that it answers are enough, and no smaller number of them is,
exactly when the wait is at most one second, whole, or at least a thousandth more than whole. -/
theorem retry_after_iff (l : InMemoryRateLimiter) (calls : List Check) (key : String) (t : Rat) (r : Int)
    (hmono : calls.Pairwise (·.time ≤ ·.time)) (hpast : ∀ c ∈ calls, c.time ≤ t)
    (hdenied : (l.check (l.after calls) key t).1 = (false, r)) :
    (l.Sufficient calls key t r ∧ 0 < r ∧ ∀ n, 0 < n → l.Sufficient calls key t n → r ≤ n) ↔
      l.wait calls key t ≤ 1 ∨ Int.fract (l.wait calls key t) = 0 ∨
        1 / 1000 ≤ Int.fract (l.wait calls key t) := by
  obtain ⟨hpos, hr, hsufficient⟩ := denied_inv hmono hpast hdenied
  rw [hsufficient r, hr, ← wait_le_iff hpos]
  constructor
  · exact fun h => h.1
  · refine fun h => ⟨h, lt_max_of_lt_left one_pos, fun n hn hle => retry_le hpos hn ((hsufficient n).mp hle)⟩

end Retry

section Sample

/-- One event in 60 seconds. -/
def single : InMemoryRateLimiter := ⟨1, 60, by decide⟩

theorem sliding_window_sample : (∀ key t, single.counted key t [⟨"a", 0⟩, ⟨"b", 1⟩, ⟨"a", 2⟩] ≤ 1) ∧
    (single.check (single.after [⟨"a", 0⟩, ⟨"b", 1⟩]) "a" 2).1.1 = false := by
  obtain ⟨hbound, hdenied, _⟩ := sliding_window single [⟨"a", 0⟩, ⟨"b", 1⟩, ⟨"a", 2⟩] (by decide +kernel)
  exact ⟨hbound, (hdenied [⟨"a", 0⟩, ⟨"b", 1⟩] ⟨"a", 2⟩ [] rfl).mpr (by decide +kernel)⟩

/-- Ten seconds before the event leaves the window. -/
theorem retry_after_sample : single.Sufficient [⟨"a", 0⟩] "a" 50 10 ∧
    ∀ n, 0 < n → single.Sufficient [⟨"a", 0⟩] "a" 50 n → 10 ≤ n := by
  obtain ⟨henough, _, hleast⟩ := (retry_after_iff single [⟨"a", 0⟩] "a" 50 10 (by decide +kernel) (by decide +kernel)
    (by decide +kernel)).mpr (.inr (.inl (by decide +kernel)))
  exact ⟨henough, hleast⟩

/-- The wait of 59.0005 seconds is answered with 59. -/
theorem retry_too_early : (single.check (single.after [⟨"a", 0⟩]) "a" (1999 / 2000)).1 = (false, 59) ∧
    ¬ single.Sufficient [⟨"a", 0⟩] "a" (1999 / 2000) 59 :=
  ⟨by decide +kernel, fun h => absurd (h [] (by simp)) (by decide +kernel)⟩

end Sample

end InMemoryRateLimiter

end EnterpriseCopilot.Limits
