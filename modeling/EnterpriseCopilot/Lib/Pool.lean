import Mathlib.Logic.Function.Basic
import EnterpriseCopilot.Lib.Machine
import EnterpriseCopilot.Lib.Program

namespace EnterpriseCopilot.Lib

/-- Calls `K` that run as programs over one shared state, one command at a time
and in any order.  `env` moves the shared state between commands. -/
structure Pool (S C : Type) (R : C → Type) (χ ν K ε α : Type) where
  program : K → Program C R ε α
  apply : S → K → (c : C) → χ → R c × S
  env : S → ν → S

namespace Pool

variable {S C : Type} {R : C → Type} {χ ν K ε α : Type}

/-- A call in progress: what it has exchanged and what is left to run. -/
structure Thread (C : Type) (R : C → Type) (K ε α : Type) where
  call : K
  log : Exchange C R
  rest : Program C R ε α

/-- Every call has an identity of its own, which is never used again. -/
inductive Slot (C : Type) (R : C → Type) (K ε α : Type)
  | unused
  | live (th : Thread C R K ε α)
  | finished

structure State (S C : Type) (R : C → Type) (K ε α : Type) where
  shared : S
  threads : Nat → Slot C R K ε α

inductive Action (χ ν K : Type)
  | start (i : Nat) (call : K)
  | step (i : Nat) (choice : χ)
  | crash (i : Nat)
  | env (move : ν)

/-- A call returns in the step that executes its last command. -/
inductive Event (C : Type) (R : C → Type) (ν K ε α : Type)
  | started (i : Nat) (call : K) (out : Option (Except ε α))
  | did (i : Nat) (call : K) (c : C) (r : R c) (out : Option (Except ε α))
  | crashed (i : Nat) (call : K)
  | moved (move : ν)

def State.init (s : S) : State S C R K ε α := ⟨s, fun _ => .unused⟩

def Thread.slot (th : Thread C R K ε α) : Slot C R K ε α :=
  match th.rest.outcome? with
  | none => .live th
  | some _ => .finished

theorem Thread.slot_eq_live {th th' : Thread C R K ε α} (h : th.slot = .live th') :
    th' = th := by
  unfold Thread.slot at h
  split at h
  · exact (Slot.live.inj h).symm
  · cases h

theorem Thread.slot_ne_unused (th : Thread C R K ε α) : th.slot ≠ .unused := by
  unfold Thread.slot
  split <;> simp

def State.set (s : State S C R K ε α) (i : Nat) (x : Slot C R K ε α) : State S C R K ε α :=
  { s with threads := Function.update s.threads i x }

@[simp] theorem State.set_shared (s : State S C R K ε α) (i : Nat) (x : Slot C R K ε α) :
    (s.set i x).shared = s.shared := rfl

theorem State.set_threads (s : State S C R K ε α) (i j : Nat) (x : Slot C R K ε α) :
    (s.set i x).threads j = if j = i then x else s.threads j := by
  simp only [State.set, Function.update_apply]

def step (P : Pool S C R χ ν K ε α) (s : State S C R K ε α) :
    Action χ ν K → Option (State S C R K ε α × Event C R ν K ε α)
  | .start i call =>
    match s.threads i with
    | .unused => some (s.set i (Thread.slot ⟨call, [], P.program call⟩),
        .started i call (P.program call).outcome?)
    | _ => none
  | .step i ch =>
    match s.threads i with
    | .live ⟨call, log, .cmd c k⟩ =>
      let a := P.apply s.shared call c ch
      some (({ s with shared := a.2 }).set i
          (Thread.slot ⟨call, log ++ [Sigma.mk c a.1], k a.1⟩),
        .did i call c a.1 (k a.1).outcome?)
    | _ => none
  | .crash i =>
    match s.threads i with
    | .live th => some (s.set i .finished, .crashed i th.call)
    | _ => none
  | .env n => some ({ s with shared := P.env s.shared n }, .moved n)

def machine (P : Pool S C R χ ν K ε α) :
    Machine (State S C R K ε α) (Action χ ν K) (Event C R ν K ε α) := ⟨P.step⟩

variable {P : Pool S C R χ ν K ε α} {s t : State S C R K ε α}

/-- Everything a step of the pool can do. -/
inductive StepCases (P : Pool S C R χ ν K ε α) (s : State S C R K ε α) :
    Action χ ν K → State S C R K ε α → Event C R ν K ε α → Prop
  | start {i call} (hi : s.threads i = .unused) :
      StepCases P s (.start i call) (s.set i (Thread.slot ⟨call, [], P.program call⟩))
        (.started i call (P.program call).outcome?)
  | step {i ch call log c k} (hi : s.threads i = .live ⟨call, log, .cmd c k⟩) :
      StepCases P s (.step i ch)
        (({ s with shared := (P.apply s.shared call c ch).2 }).set i (Thread.slot
          ⟨call, log ++ [Sigma.mk c (P.apply s.shared call c ch).1],
            k (P.apply s.shared call c ch).1⟩))
        (.did i call c (P.apply s.shared call c ch).1
          (k (P.apply s.shared call c ch).1).outcome?)
  | crash {i th} (hi : s.threads i = .live th) :
      StepCases P s (.crash i) (s.set i .finished) (.crashed i th.call)
  | env {n} : StepCases P s (.env n) { s with shared := P.env s.shared n } (.moved n)

theorem step_cases {a : Action χ ν K} {e : Event C R ν K ε α}
    (h : P.machine.step s a = some (t, e)) : StepCases P s a t e := by
  cases a with
  | start i call =>
    simp only [machine, step] at h
    split at h
    · rename_i hi
      simp only [Option.some.injEq, Prod.mk.injEq] at h
      obtain ⟨rfl, rfl⟩ := h
      exact .start hi
    · cases h
  | step i ch =>
    simp only [machine, step] at h
    split at h
    · rename_i call log c k hi
      simp only [Option.some.injEq, Prod.mk.injEq] at h
      obtain ⟨rfl, rfl⟩ := h
      exact .step hi
    · cases h
  | crash i =>
    simp only [machine, step] at h
    split at h
    · rename_i th hi
      simp only [Option.some.injEq, Prod.mk.injEq] at h
      obtain ⟨rfl, rfl⟩ := h
      exact .crash hi
    · cases h
  | env n =>
    simp only [machine, step, Option.some.injEq, Prod.mk.injEq] at h
    obtain ⟨rfl, rfl⟩ := h
    exact .env

section Local

variable {I : K → Exchange C R → C → Prop} {Q : K → Exchange C R → Except ε α → Prop}
  {G : State S C R K ε α → Action χ ν K → Prop} {es : List (Event C R ν K ε α)} {sh : S}

/-- The thread is verified from here on, and what it has exchanged is on record. -/
structure Traced (I : K → Exchange C R → C → Prop) (Q : K → Exchange C R → Except ε α → Prop)
    (es : List (Event C R ν K ε α)) (i : Nat) (th : Thread C R K ε α) : Prop where
  sat : Program.Sat (I th.call) (Q th.call) th.log th.rest
  log : ∀ x ∈ th.log, ∃ out, Event.did i th.call x.1 x.2 out ∈ es

theorem Traced.snoc {i : Nat} {th : Thread C R K ε α} (h : Traced I Q es i th)
    (e : Event C R ν K ε α) : Traced I Q (es ++ [e]) i th :=
  ⟨h.sat, fun x hx => (h.log x hx).imp fun _ ho => List.mem_append_left _ ho⟩

/-- Local verification of the programs holds of every thread in every run. -/
theorem traced_of_run (hP : ∀ call, Program.Sat (I call) (Q call) [] (P.program call))
    (h : P.machine.Run G (State.init sh) es s) :
    ∀ i th, s.threads i = .live th → Traced I Q es i th := by
  refine h.invariant (I := fun es s => ∀ i th, s.threads i = .live th → Traced I Q es i th) ?_ ?_
  · intro i th hi
    cases hi
  · intro es s a t e _ _ hs ih j th hj
    cases step_cases hs with
    | @start i call hi =>
      rw [State.set_threads] at hj
      split at hj
      · obtain rfl := Thread.slot_eq_live hj
        exact ⟨hP call, by simp⟩
      · exact (ih j th hj).snoc _
    | @step i ch call log c k hi =>
      rw [State.set_threads] at hj
      split at hj
      · rename_i hji
        obtain rfl := Thread.slot_eq_live hj
        subst hji
        have hth := ih _ _ hi
        refine ⟨hth.sat.2 _, fun x hx => ?_⟩
        rcases List.mem_append.mp hx with hx | hx
        · exact (hth.log x hx).imp fun _ ho => List.mem_append_left _ ho
        · obtain rfl := List.mem_singleton.mp hx
          exact ⟨_, List.mem_append_right _ (List.mem_singleton_self _)⟩
      · exact (ih j th hj).snoc _
    | crash hi =>
      rw [State.set_threads] at hj
      split at hj
      · cases hj
      · exact (ih j th hj).snoc _
    | env => exact (ih j th hj).snoc _

/-- A property of what a thread has exchanged, kept by each of its own steps. -/
theorem log_of_run {J : K → Exchange C R → Prop} (h0 : ∀ call, J call [])
    (hstep : ∀ s i ch call log c k, G s (.step i ch) → s.threads i = .live ⟨call, log, .cmd c k⟩ →
      J call log → J call (log ++ [Sigma.mk c (P.apply s.shared call c ch).1]))
    (h : P.machine.Run G (State.init sh) es s) :
    ∀ i th, s.threads i = .live th → J th.call th.log := by
  refine h.invariant (I := fun _ s => ∀ i th, s.threads i = .live th → J th.call th.log) ?_ ?_
  · intro i th hi
    cases hi
  · intro es s a t e _ hg hs ih j th hj
    cases step_cases hs with
    | @start i call hi =>
      rw [State.set_threads] at hj
      split at hj
      · obtain rfl := Thread.slot_eq_live hj
        exact h0 call
      · exact ih j th hj
    | @step i ch call log c k hi =>
      rw [State.set_threads] at hj
      split at hj
      · obtain rfl := Thread.slot_eq_live hj
        exact hstep s i ch call log c k hg hi (ih _ _ hi)
      · exact ih j th hj
    | crash hi =>
      rw [State.set_threads] at hj
      split at hj
      · cases hj
      · exact ih j th hj
    | env => exact ih j th hj

/-- Every command on record was issued by a verified thread, and what that
thread had exchanged before is on record before it. -/
theorem did_of_run (hP : ∀ call, Program.Sat (I call) (Q call) [] (P.program call))
    (h : P.machine.Run G (State.init sh) es s) {pre post i call c r out}
    (he : es = pre ++ .did i call c r out :: post) :
    ∃ u ch log k, P.machine.Run G (State.init sh) pre u ∧ G u (.step i ch) ∧
      u.threads i = .live ⟨call, log, .cmd c k⟩ ∧ Traced I Q pre i ⟨call, log, .cmd c k⟩ ∧
      r = (P.apply u.shared call c ch).1 ∧ out = (k r).outcome? := by
  obtain ⟨u, a, v, hpre, hg, hs, _⟩ := h.at_event he
  cases step_cases hs with
  | @step _ ch _ log _ k hi =>
    exact ⟨u, ch, log, k, hpre, hg, hi, traced_of_run hP hpre _ _ hi, rfl, rfl⟩

/-- The step behind the last event of a run. -/
theorem did_last {i call c r out}
    (h : P.machine.Run G (State.init sh) (es ++ [Event.did i call c r out]) s) :
    ∃ u ch log k, P.machine.Run G (State.init sh) es u ∧ G u (.step i ch) ∧
      u.threads i = .live ⟨call, log, .cmd c k⟩ ∧ P.apply u.shared call c ch = (r, s.shared) ∧
      out = (k r).outcome? := by
  obtain ⟨u, a, hu, hg, hs⟩ := h.last
  generalize he : Event.did i call c r out = e at hs
  cases step_cases hs with
  | @step _ ch _ log _ k hi =>
    simp only [Event.did.injEq] at he
    obtain ⟨rfl, rfl, rfl, hr, rfl⟩ := he
    obtain rfl := eq_of_heq hr
    exact ⟨u, ch, log, k, hu, hg, hi, rfl, rfl⟩
  | start hi => cases he
  | crash hi => cases he
  | env => cases he

/-- The calls on record belong to identities in use, one call to each. -/
structure Owned (es : List (Event C R ν K ε α)) (s : State S C R K ε α) : Prop where
  used : ∀ {i call c r out}, Event.did i call c r out ∈ es →
    s.threads i ≠ .unused ∧ ∀ th, s.threads i = .live th → th.call = call
  unique : ∀ {i call call' c c' r r' out out'}, Event.did i call c r out ∈ es →
    Event.did i call' c' r' out' ∈ es → call = call'
  ended : ∀ {i call c r o}, Event.did i call c r (some o) ∈ es → s.threads i = .finished

theorem owned_of_run (h : P.machine.Run G (State.init sh) es s) : Owned es s := by
  refine h.invariant (I := Owned) ⟨by simp, by simp, by simp⟩ ?_
  intro es s a t e _ _ hs ih
  cases step_cases hs with
  | @start j call₀ hj =>
    have old : ∀ {i call c r out}, Event.did i call c r out ∈
        es ++ [Event.started j call₀ (P.program call₀).outcome?] →
        Event.did i call c r out ∈ es := by
      intro i call c r out hd
      simpa using hd
    refine ⟨fun hd => ?_, fun hd hd' => ih.unique (old hd) (old hd'), fun hd => ?_⟩ <;>
      rw [State.set_threads] <;> split
    · rename_i hij
      subst hij
      exact absurd hj (ih.used (old hd)).1
    · exact ih.used (old hd)
    · rename_i hij
      subst hij
      exact absurd hj (ih.used (old hd)).1
    · exact ih.ended (old hd)
  | @step j ch call₀ log c₀ k hj =>
    -- the new command belongs to the live thread `j`, whose call is on record
    have new : ∀ {i call c r out}, Event.did i call c r out ∈
        es ++ [Event.did j call₀ c₀ (P.apply s.shared call₀ c₀ ch).1
          (k (P.apply s.shared call₀ c₀ ch).1).outcome?] →
        Event.did i call c r out ∈ es ∨ (i = j ∧ call = call₀) := by
      intro i call c r out hd
      rcases List.mem_append.mp hd with hd | hd
      · exact .inl hd
      · cases List.mem_singleton.mp hd
        exact .inr ⟨rfl, rfl⟩
    have own : ∀ {i call c r out}, i = j → Event.did i call c r out ∈ es → call = call₀ := by
      rintro i call c r out rfl hd
      exact ((ih.used hd).2 _ hj).symm
    refine ⟨fun {i} _ _ _ _ hd => ?_, fun hd hd' => ?_, fun {i call c r o} hd => ?_⟩
    · rw [State.set_threads]
      split
      · rename_i hij
        refine ⟨Thread.slot_ne_unused _, fun th hth => ?_⟩
        obtain rfl := Thread.slot_eq_live hth
        rcases new hd with hd₀ | ⟨_, rfl⟩
        · exact (own hij hd₀).symm
        · rfl
      · rename_i hij
        rcases new hd with hd₀ | ⟨h, _⟩
        · exact ih.used hd₀
        · exact absurd h hij
    · rcases new hd with hd₀ | ⟨hi, rfl⟩ <;> rcases new hd' with hd₁ | ⟨hi', rfl⟩
      · exact ih.unique hd₀ hd₁
      · exact own hi' hd₀
      · exact (own hi hd₁).symm
      · rfl
    · rw [State.set_threads]
      rcases List.mem_append.mp hd with hd₀ | hd₀
      · have hfin := ih.ended hd₀
        split
        · rename_i hij
          rw [hij, hj] at hfin
          cases hfin
        · exact hfin
      · have heq := List.mem_singleton.mp hd₀
        simp only [Event.did.injEq] at heq
        rw [if_pos heq.1, Thread.slot, ← heq.2.2.2.2]
  | @crash j th hj =>
    have old : ∀ {i call c r out}, Event.did i call c r out ∈
        es ++ [Event.crashed j th.call] → Event.did i call c r out ∈ es := by
      intro i call c r out hd
      simpa using hd
    refine ⟨fun hd => ?_, fun hd hd' => ih.unique (old hd) (old hd'), fun hd => ?_⟩ <;>
      rw [State.set_threads] <;> split
    · exact ⟨by simp, fun th hth => by cases hth⟩
    · exact ih.used (old hd)
    · rfl
    · exact ih.ended (old hd)
  | @env n =>
    have old : ∀ {i call c r out}, Event.did i call c r out ∈
        es ++ [Event.moved n] → Event.did i call c r out ∈ es := by
      intro i call c r out hd
      simpa using hd
    exact ⟨fun hd => ih.used (old hd), fun hd hd' => ih.unique (old hd) (old hd'),
      fun hd => ih.ended (old hd)⟩

/-- What the guard asks of the calls that are started holds of the calls that run. -/
theorem calls_of_run {A : K → Prop} (hG : ∀ s i call, G s (.start i call) → A call)
    (h : P.machine.Run G (State.init sh) es s) : (∀ {i th}, s.threads i = .live th → A th.call) ∧
      (∀ {i call out}, Event.started i call out ∈ es → A call) ∧
        ∀ {i call c r out}, Event.did i call c r out ∈ es → A call := by
  refine h.invariant (I := fun es s => (∀ {i th}, s.threads i = .live th → A th.call) ∧
      (∀ {i call out}, Event.started i call out ∈ es → A call) ∧
        ∀ {i call c r out}, Event.did i call c r out ∈ es → A call) ⟨fun h => (by cases h), by simp, by simp⟩ ?_
  intro es s a t e _ hg hs ⟨hlive, hstarted, hdid⟩
  cases step_cases hs with
  | @start j call₀ hj =>
    refine ⟨fun {i th} hi => ?_, fun hd => ?_, fun hd => hdid (by simpa using hd)⟩
    · rw [State.set_threads] at hi
      split at hi
      · obtain rfl := Thread.slot_eq_live hi
        exact hG _ _ _ hg
      · exact hlive hi
    · rcases List.mem_append.mp hd with hd | hd
      · exact hstarted hd
      · cases List.mem_singleton.mp hd
        exact hG _ _ _ hg
  | @step j ch call₀ log c₀ k hj =>
    have hcall : A call₀ := hlive hj
    refine ⟨fun {i th} hi => ?_, fun hd => hstarted (by simpa using hd), fun hd => ?_⟩
    · rw [State.set_threads] at hi
      split at hi
      · obtain rfl := Thread.slot_eq_live hi
        exact hcall
      · exact hlive hi
    · rcases List.mem_append.mp hd with hd | hd
      · exact hdid hd
      · cases List.mem_singleton.mp hd
        exact hcall
  | @crash j th₀ hj =>
    refine ⟨fun {i th} hi => ?_, fun hd => hstarted (by simpa using hd), fun hd => hdid (by simpa using hd)⟩
    rw [State.set_threads] at hi
    split at hi
    · cases hi
    · exact hlive hi
  | env => exact ⟨hlive, fun hd => hstarted (by simpa using hd), fun hd => hdid (by simpa using hd)⟩

/-- A call in progress has on its record what it did. -/
theorem log_complete (h : P.machine.Run G (State.init sh) es s) : ∀ {i th}, s.threads i = .live th →
    ∀ {call c r out}, Event.did i call c r out ∈ es → ⟨c, r⟩ ∈ th.log := by
  refine h.invariant (I := fun es s => ∀ {i th}, s.threads i = .live th →
    ∀ {call c r out}, Event.did i call c r out ∈ es → ⟨c, r⟩ ∈ th.log) (by simp) ?_
  intro es s a t e hr _ hs ih i th hi call c r out hd
  cases step_cases hs with
  | @start j call₀ hj =>
    have hold : Event.did i call c r out ∈ es := by simpa using hd
    rw [State.set_threads] at hi
    split at hi
    · rename_i hij
      subst hij
      exact absurd hj ((owned_of_run hr).used hold).1
    · exact ih hi hold
  | @step j ch call₀ log c₀ k hj =>
    rw [State.set_threads] at hi
    split at hi
    · rename_i hij
      subst hij
      obtain rfl := Thread.slot_eq_live hi
      rcases List.mem_append.mp hd with hd | hd
      · exact List.mem_append_left _ (ih hj hd)
      · cases List.mem_singleton.mp hd
        exact List.mem_append_right _ (List.mem_singleton_self _)
    · rename_i hij
      rcases List.mem_append.mp hd with hd | hd
      · exact ih hi hd
      · cases List.mem_singleton.mp hd
        exact absurd rfl hij
  | crash hj =>
    rw [State.set_threads] at hi
    split at hi
    · cases hi
    · exact ih hi (by simpa using hd)
  | env => exact ih hi (by simpa using hd)

/-- A call that has returned does nothing more. -/
theorem no_event_after_end (h : P.machine.Run G (State.init sh) es s) {pre post i call c r o}
    (he : es = pre ++ .did i call c r (some o) :: post) {call' c' r' out'} :
    Event.did i call' c' r' out' ∉ post := by
  intro hd
  obtain ⟨mid, rest, rfl⟩ := List.append_of_mem hd
  obtain ⟨u, a, v, hu, _, hs, _⟩ := h.at_event
    (show es = (pre ++ .did i call c r (some o) :: mid) ++ .did i call' c' r' out' :: rest by simpa using he)
  have hend := (owned_of_run hu).ended
    (show .did i call c r (some o) ∈ pre ++ .did i call c r (some o) :: mid by simp)
  cases step_cases hs with
  | step hi =>
    rw [hend] at hi
    cases hi

/-- What a call did before it returned, and how it returned. -/
theorem returned_of_run (hP : ∀ call, Program.Sat (I call) (Q call) [] (P.program call))
    (h : P.machine.Run G (State.init sh) es s) {i call c r o} (hd : Event.did i call c r (some o) ∈ es) :
    ∃ log, Q call (log ++ [⟨c, r⟩]) o ∧
      ∀ x, x ∈ log ++ [⟨c, r⟩] ↔ ∃ out, Event.did i call x.1 x.2 out ∈ es := by
  obtain ⟨pre, post, he⟩ := List.append_of_mem hd
  obtain ⟨u, ch, log, k, hu, _, hi, htraced, _, ho⟩ := did_of_run hP h he
  refine ⟨log, (htraced.sat.2 r).outcome ho.symm, fun x => ⟨fun hx => ?_, ?_⟩⟩
  · rcases List.mem_append.mp hx with hx | hx
    · obtain ⟨out, hout⟩ := htraced.log x hx
      exact ⟨out, he ▸ List.mem_append_left _ hout⟩
    · obtain rfl := List.mem_singleton.mp hx
      exact ⟨some o, hd⟩
  · rintro ⟨out, hout⟩
    rw [he] at hout
    rcases List.mem_append.mp hout with hpre | hpost
    · exact List.mem_append_left _ (log_complete hu hi hpre)
    rcases List.mem_cons.mp hpost with heq | hpost
    · simp only [Event.did.injEq, true_and] at heq
      obtain ⟨hc, hr, _⟩ := heq
      obtain ⟨c', r'⟩ := x
      dsimp only at hc hr
      subst hc
      obtain rfl := eq_of_heq hr
      exact List.mem_append_right _ (List.mem_singleton_self _)
    · exact absurd hpost (no_event_after_end h he)

/-- A call that was started is in progress, has returned or has crashed. -/
theorem started_of_run (h : P.machine.Run G (State.init sh) es s) {i call out}
    (hd : Event.started i call out ∈ es) : (∃ th, s.threads i = .live th ∧ th.call = call) ∨
      (∃ o, out = some o) ∨ (∃ c r o, Event.did i call c r (some o) ∈ es) ∨ Event.crashed i call ∈ es := by
  refine h.invariant (I := fun es s => Event.started i call out ∈ es → (∃ th, s.threads i = .live th ∧ th.call = call) ∨
      (∃ o, out = some o) ∨ (∃ c r o, Event.did i call c r (some o) ∈ es) ∨ Event.crashed i call ∈ es) (by simp) ?_ hd
  intro es s a t e hr _ hs ih hd
  have later : (∃ o, out = some o) ∨ (∃ c r o, Event.did i call c r (some o) ∈ es) ∨ Event.crashed i call ∈ es →
      (∃ o, out = some o) ∨ (∃ c r o, Event.did i call c r (some o) ∈ es ++ [e]) ∨ Event.crashed i call ∈ es ++ [e] := by
    rintro (hend | ⟨c, r, o, hret⟩ | hcrash)
    · exact .inl hend
    · exact .inr (.inl ⟨c, r, o, List.mem_append_left _ hret⟩)
    · exact .inr (.inr (List.mem_append_left _ hcrash))
  cases step_cases hs with
  | @start j call₀ hj =>
    rw [State.set_threads]
    rcases List.mem_append.mp hd with hold | hnew
    · split
      · rename_i hij
        subst hij
        obtain ⟨th, hth, _⟩ | hrest := ih hold
        · rw [hj] at hth
          cases hth
        · exact .inr (later hrest)
      · exact (ih hold).imp_right later
    · cases List.mem_singleton.mp hnew
      rw [if_pos rfl]
      unfold Thread.slot
      cases ho : (P.program call).outcome? with
      | none => exact .inl ⟨_, rfl, rfl⟩
      | some o => exact .inr (.inl ⟨o, rfl⟩)
  | @step j ch call₀ log c₀ k hj =>
    have hold : Event.started i call out ∈ es := by simpa using hd
    rw [State.set_threads]
    split
    · rename_i hij
      subst hij
      obtain ⟨th, hth, hcall⟩ | hrest := ih hold
      · rw [hj] at hth
        cases hth
        obtain rfl : call₀ = call := hcall
        unfold Thread.slot
        cases ho : (k (P.apply s.shared call₀ c₀ ch).1).outcome? with
        | none => exact .inl ⟨_, rfl, rfl⟩
        | some o =>
          exact .inr (.inr (.inl ⟨c₀, _, o, List.mem_append_right _ (List.mem_singleton_self _)⟩))
      · exact .inr (later hrest)
    · exact (ih hold).imp_right later
  | @crash j th₀ hj =>
    have hold : Event.started i call out ∈ es := by simpa using hd
    rw [State.set_threads]
    split
    · rename_i hij
      subst hij
      obtain ⟨th, hth, hcall⟩ | hrest := ih hold
      · rw [hj] at hth
        cases hth
        exact .inr (.inr (.inr (by simp [hcall])))
      · exact .inr (later hrest)
    · exact (ih hold).imp_right later
  | env => exact (ih (by simpa using hd)).imp_right later

/-- A call that has done something is in progress, has returned or has crashed. -/
theorem fate_of_did (h : P.machine.Run G (State.init sh) es s) {i call c r out}
    (hd : Event.did i call c r out ∈ es) : (∃ th, s.threads i = .live th) ∨
      (∃ c r o, Event.did i call c r (some o) ∈ es) ∨ Event.crashed i call ∈ es := by
  refine h.invariant (I := fun es s => ∀ {c r out}, Event.did i call c r out ∈ es → (∃ th, s.threads i = .live th) ∨
      (∃ c r o, Event.did i call c r (some o) ∈ es) ∨ Event.crashed i call ∈ es) (by simp) ?_ hd
  intro es s a t e hr _ hs ih c r out hd
  have later : (∃ c r o, Event.did i call c r (some o) ∈ es) ∨ Event.crashed i call ∈ es →
      (∃ c r o, Event.did i call c r (some o) ∈ es ++ [e]) ∨ Event.crashed i call ∈ es ++ [e] :=
    Or.imp (fun ⟨c, r, o, hret⟩ => ⟨c, r, o, List.mem_append_left _ hret⟩) (List.mem_append_left _)
  cases step_cases hs with
  | @start j call₀ hj =>
    have hold : Event.did i call c r out ∈ es := by simpa using hd
    rw [State.set_threads]
    split
    · rename_i hij
      subst hij
      exact absurd hj ((owned_of_run hr).used hold).1
    · exact (ih hold).imp_right later
  | @step j ch call₀ log c₀ k hj =>
    rw [State.set_threads]
    split
    · rename_i hij
      subst hij
      have hcall : call₀ = call := by
        rcases List.mem_append.mp hd with hd | hd
        · exact ((owned_of_run hr).used hd).2 _ hj
        · cases List.mem_singleton.mp hd
          rfl
      subst hcall
      unfold Thread.slot
      cases ho : (k (P.apply s.shared call₀ c₀ ch).1).outcome? with
      | none => exact .inl ⟨_, rfl⟩
      | some o => exact .inr (.inl ⟨c₀, _, o, List.mem_append_right _ (List.mem_singleton_self _)⟩)
    · rename_i hij
      rcases List.mem_append.mp hd with hd | hd
      · exact (ih hd).imp_right later
      · cases List.mem_singleton.mp hd
        exact absurd rfl hij
  | @crash j th₀ hj =>
    have hold : Event.did i call c r out ∈ es := by simpa using hd
    rw [State.set_threads]
    split
    · rename_i hij
      subst hij
      rw [← ((owned_of_run hr).used hold).2 _ hj]
      exact .inr (.inr (List.mem_append_right _ (List.mem_singleton_self _)))
    · exact (ih hold).imp_right later
  | env => exact (ih (by simpa using hd)).imp_right later

/-- What is in progress or on record was started. -/
theorem call_started (h : P.machine.Run G (State.init sh) es s) :
    (∀ {i th}, s.threads i = .live th → ∃ out, Event.started i th.call out ∈ es) ∧
      ∀ {i call c r out}, Event.did i call c r out ∈ es → ∃ out, Event.started i call out ∈ es := by
  refine h.invariant (I := fun es s => (∀ {i th}, s.threads i = .live th → ∃ out, Event.started i th.call out ∈ es) ∧
      ∀ {i call c r out}, Event.did i call c r out ∈ es → ∃ out, Event.started i call out ∈ es)
    ⟨fun h => (by cases h), by simp⟩ ?_
  intro es s a t e _ _ hs ⟨hlive, hdid⟩
  have keep : ∀ {i call}, (∃ out, Event.started i call out ∈ es) → ∃ out, Event.started i call out ∈ es ++ [e] :=
    fun ⟨out, hm⟩ => ⟨out, List.mem_append_left _ hm⟩
  cases step_cases hs with
  | @start j call₀ hj =>
    refine ⟨fun {i th} hi => ?_, fun hd => keep (hdid (by simpa using hd))⟩
    rw [State.set_threads] at hi
    split at hi
    · rename_i hij
      subst hij
      obtain rfl := Thread.slot_eq_live hi
      exact ⟨_, List.mem_append_right _ (List.mem_singleton_self _)⟩
    · exact keep (hlive hi)
  | @step j ch call₀ log c₀ k hj =>
    have hcall := hlive hj
    refine ⟨fun {i th} hi => ?_, fun hd => ?_⟩
    · rw [State.set_threads] at hi
      split at hi
      · rename_i hij
        subst hij
        obtain rfl := Thread.slot_eq_live hi
        exact keep hcall
      · exact keep (hlive hi)
    · rcases List.mem_append.mp hd with hd | hd
      · exact keep (hdid hd)
      · cases List.mem_singleton.mp hd
        exact keep hcall
  | @crash j th₀ hj =>
    refine ⟨fun {i th} hi => ?_, fun hd => keep (hdid (by simpa using hd))⟩
    rw [State.set_threads] at hi
    split at hi
    · cases hi
    · exact keep (hlive hi)
  | env => exact ⟨fun hi => keep (hlive hi), fun hd => keep (hdid (by simpa using hd))⟩

end Local

/-- Values that commands draw from an unbounded supply, such as identifiers, and
the record the shared state keeps of those drawn so far. -/
structure Draws (P : Pool S C R χ ν K ε α) (τ : Type) where
  value : (c : C) → R c → Option τ
  drawn : S → τ → Prop
  keep : ∀ {s call c ch x}, drawn s x → drawn (P.apply s call c ch).2 x
  keep_env : ∀ {s n x}, drawn s x → drawn (P.env s n) x
  add : ∀ {s call c ch x}, value c (P.apply s call c ch).1 = some x →
    drawn (P.apply s call c ch).2 x

namespace Draws

variable {τ : Type} {D : Draws P τ} {G : State S C R K ε α → Action χ ν K → Prop}
  {es : List (Event C R ν K ε α)} {sh : S}

/-- The value that thread `i` would draw next. -/
def next? (D : Draws P τ) (s : State S C R K ε α) (i : Nat) (ch : χ) : Option τ :=
  match s.threads i with
  | .live ⟨call, _, .cmd c _⟩ => D.value c (P.apply s.shared call c ch).1
  | _ => none

/-- The guard under which no value is drawn twice. -/
def Fresh (D : Draws P τ) (s : State S C R K ε α) : Action χ ν K → Prop
  | .step i ch => ∀ x ∈ D.next? s i ch, ¬ D.drawn s.shared x
  | _ => True

instance [∀ s x, Decidable (D.drawn s x)] (s : State S C R K ε α) (a : Action χ ν K) :
    Decidable (D.Fresh s a) :=
  match a with
  | .start _ _ => .isTrue trivial
  | .crash _ => .isTrue trivial
  | .env _ => .isTrue trivial
  | .step i ch => inferInstanceAs (Decidable (∀ x ∈ D.next? s i ch, ¬ D.drawn s.shared x))

theorem drawn_of_run (h : P.machine.Run G (State.init sh) es s) {i call c r out x}
    (hd : Event.did i call c r out ∈ es) (hx : D.value c r = some x) : D.drawn s.shared x := by
  refine h.invariant (I := fun es s => ∀ i call c r out x,
    Event.did i call c r out ∈ es → D.value c r = some x → D.drawn s.shared x) (by simp) ?_
    i call c r out x hd hx
  intro es s a t e _ _ hs ih i call c r out x hd hx
  cases step_cases hs with
  | start hi => exact ih i call c r out x (by simpa using hd) hx
  | crash hi => exact ih i call c r out x (by simpa using hd) hx
  | env => exact D.keep_env (ih i call c r out x (by simpa using hd) hx)
  | step hi =>
    rcases List.mem_append.mp hd with hd | hd
    · exact D.keep (ih i call c r out x hd hx)
    · cases List.mem_singleton.mp hd
      exact D.add hx

/-- A value identifies the call that drew it. -/
theorem draw_unique (hG : ∀ s a, G s a → D.Fresh s a)
    (h : P.machine.Run G (State.init sh) es s) {i j call call' c c' r r' out out' x}
    (hd : Event.did i call c r out ∈ es) (hd' : Event.did j call' c' r' out' ∈ es)
    (hx : D.value c r = some x) (hx' : D.value c' r' = some x) : i = j := by
  refine h.invariant (I := fun es _ => ∀ i j call call' c c' r r' out out' x,
    Event.did i call c r out ∈ es → Event.did j call' c' r' out' ∈ es →
    D.value c r = some x → D.value c' r' = some x → i = j) (by simp) ?_
    i j call call' c c' r r' out out' x hd hd' hx hx'
  intro es s a t e hr hg hs ih i j call call' c c' r r' out out' x hd hd' hx hx'
  have old := ih i j call call' c c' r r' out out' x
  cases step_cases hs with
  | start hi => exact old (by simpa using hd) (by simpa using hd') hx hx'
  | crash hi => exact old (by simpa using hd) (by simpa using hd') hx hx'
  | env => exact old (by simpa using hd) (by simpa using hd') hx hx'
  | step hi =>
    rcases List.mem_append.mp hd with hp | hl <;> rcases List.mem_append.mp hd' with hp' | hl'
    · exact old hp hp' hx hx'
    · cases List.mem_singleton.mp hl'
      exact absurd (drawn_of_run hr hp hx) (hG _ _ hg x (by simpa [next?, hi] using hx'))
    · cases List.mem_singleton.mp hl
      exact absurd (drawn_of_run hr hp' hx') (hG _ _ hg x (by simpa [next?, hi] using hx))
    · cases List.mem_singleton.mp hl
      cases List.mem_singleton.mp hl'
      rfl

end Draws

/-- Neither a command nor a move of the environment. -/
def Event.Quiet : Event C R ν K ε α → Prop
  | .started _ _ _ | .crashed _ _ => True
  | _ => False

/-- An invariant of the trace and the shared state, and what every answer that a call
has received says about them from then on. -/
structure Rely (P : Pool S C R χ ν K ε α) (G : State S C R K ε α → Action χ ν K → Prop)
    (I : K → Exchange C R → C → Prop) where
  inv : List (Event C R ν K ε α) → S → Prop
  known : List (Event C R ν K ε α) → S → K → (c : C) → R c → Prop
  step : ∀ {es s i ch call log c k}, G s (.step i ch) →
    s.threads i = .live ⟨call, log, .cmd c k⟩ → inv es s.shared →
    (∀ x ∈ log, known es s.shared call x.1 x.2) → I call log c →
    ∀ {r t}, P.apply s.shared call c ch = (r, t) →
      inv (es ++ [.did i call c r (k r).outcome?]) t ∧
        known (es ++ [.did i call c r (k r).outcome?]) t call c r ∧
        ∀ {call' c' r'}, known es s.shared call' c' r' →
          known (es ++ [.did i call c r (k r).outcome?]) t call' c' r'
  quiet : ∀ {es s e}, Event.Quiet e → inv es s →
    inv (es ++ [e]) s ∧ ∀ {call c r}, known es s call c r → known (es ++ [e]) s call c r
  env : ∀ {es s n}, inv es s → inv (es ++ [.moved n]) (P.env s n) ∧
    ∀ {call c r}, known es s call c r → known (es ++ [.moved n]) (P.env s n) call c r

namespace Rely

variable {G : State S C R K ε α → Action χ ν K → Prop} {I : K → Exchange C R → C → Prop}
  {Q : K → Exchange C R → Except ε α → Prop} {es : List (Event C R ν K ε α)} {sh : S}

/-- What holds along every run: the invariant, and for calls in progress and calls
that have returned, everything they have been told. -/
structure Holds (D : Rely P G I) (Q : K → Exchange C R → Except ε α → Prop)
    (es : List (Event C R ν K ε α)) (s : State S C R K ε α) : Prop where
  inv : D.inv es s.shared
  live : ∀ {i th}, s.threads i = .live th → Program.Sat (I th.call) (Q th.call) th.log th.rest ∧
    ∀ x ∈ th.log, D.known es s.shared th.call x.1 x.2
  ended : ∀ {i call c r o}, Event.did i call c r (some o) ∈ es →
    ∃ log, Q call (log ++ [⟨c, r⟩]) o ∧ ∀ x ∈ log ++ [⟨c, r⟩], D.known es s.shared call x.1 x.2

theorem of_run (D : Rely P G I)
    (hP : ∀ call, Program.Sat (I call) (Q call) [] (P.program call)) (h0 : D.inv [] sh)
    (h : P.machine.Run G (State.init sh) es s) : D.Holds Q es s := by
  refine h.invariant (I := D.Holds Q) ⟨h0, fun hi => (by cases hi), by simp⟩ ?_
  intro es s a t e _ hg hs ih
  cases step_cases hs with
  | @start j call hj =>
    obtain ⟨hinv, hkeep⟩ := D.quiet (e := .started j call (P.program call).outcome?) trivial ih.inv
    refine ⟨hinv, fun {i th} hi => ?_, fun hd => ?_⟩
    · rw [State.set_threads] at hi
      split at hi
      · obtain rfl := Thread.slot_eq_live hi
        exact ⟨hP call, by simp⟩
      · exact (ih.live hi).imp_right fun hx x hm => hkeep (hx x hm)
    · obtain ⟨log, hQ, hx⟩ := ih.ended (by simpa using hd)
      exact ⟨log, hQ, fun x hm => hkeep (hx x hm)⟩
  | @step j ch call log c k hj =>
    obtain ⟨hsat, hlog⟩ := ih.live hj
    obtain ⟨hinv, hnew, hkeep⟩ := D.step hg hj ih.inv hlog hsat.1 rfl
    have all : ∀ x ∈ log ++ [⟨c, (P.apply s.shared call c ch).1⟩], D.known
        (es ++ [.did j call c (P.apply s.shared call c ch).1
          (k (P.apply s.shared call c ch).1).outcome?])
        (P.apply s.shared call c ch).2 call x.1 x.2 := by
      intro x hm
      rcases List.mem_append.mp hm with hm | hm
      · exact hkeep (hlog x hm)
      · obtain rfl := List.mem_singleton.mp hm
        exact hnew
    refine ⟨hinv, fun {i th} hi => ?_, fun {i call' c' r' o} hd => ?_⟩
    · rw [State.set_threads] at hi
      split at hi
      · obtain rfl := Thread.slot_eq_live hi
        exact ⟨hsat.2 _, all⟩
      · exact (ih.live hi).imp_right fun hx x hm => hkeep (hx x hm)
    · rcases List.mem_append.mp hd with hd | hd
      · obtain ⟨log', hQ, hx⟩ := ih.ended hd
        exact ⟨log', hQ, fun x hm => hkeep (hx x hm)⟩
      · have heq := List.mem_singleton.mp hd
        simp only [Event.did.injEq] at heq
        obtain ⟨rfl, rfl, rfl, hr, ho⟩ := heq
        obtain rfl := eq_of_heq hr
        exact ⟨log, (hsat.2 _).outcome ho.symm, all⟩
  | @crash j th hj =>
    obtain ⟨hinv, hkeep⟩ := D.quiet (e := .crashed j th.call) trivial ih.inv
    refine ⟨hinv, fun {i th'} hi => ?_, fun hd => ?_⟩
    · rw [State.set_threads] at hi
      split at hi
      · cases hi
      · exact (ih.live hi).imp_right fun hx x hm => hkeep (hx x hm)
    · obtain ⟨log, hQ, hx⟩ := ih.ended (by simpa using hd)
      exact ⟨log, hQ, fun x hm => hkeep (hx x hm)⟩
  | @env n =>
    obtain ⟨hinv, hkeep⟩ := D.env (n := n) ih.inv
    refine ⟨hinv, fun hi => (ih.live hi).imp_right fun hx x hm => hkeep (hx x hm), fun hd => ?_⟩
    obtain ⟨log, hQ, hx⟩ := ih.ended (by simpa using hd)
    exact ⟨log, hQ, fun x hm => hkeep (hx x hm)⟩

end Rely

end Pool

end EnterpriseCopilot.Lib
