import Mathlib.Data.List.Basic

namespace EnterpriseCopilot.Lib

/-- Programs that talk to shared state through atomic commands.  `cmd c k` issues
`c` and continues with the answer, whose type depends on the command. -/
inductive Program (C : Type) (R : C → Type) (ε α : Type)
  | pure : α → Program C R ε α
  | throw : ε → Program C R ε α
  | cmd : (c : C) → (R c → Program C R ε α) → Program C R ε α

/-- The commands issued so far, each with its answer, oldest first. -/
abbrev Exchange (C : Type) (R : C → Type) := List ((c : C) × R c)

namespace Program

variable {C : Type} {R : C → Type} {ε α β : Type}

protected def bind : Program C R ε α → (α → Program C R ε β) → Program C R ε β
  | .pure a, f => f a
  | .throw e, _ => .throw e
  | .cmd c k, f => .cmd c fun r => (k r).bind f

protected def tryCatch : Program C R ε α → (ε → Program C R ε α) → Program C R ε α
  | .pure a, _ => .pure a
  | .throw e, f => f e
  | .cmd c k, f => .cmd c fun r => (k r).tryCatch f

/-- `try p finally q`: an exception of `q` replaces the outcome of `p`. -/
protected def tryFinally : Program C R ε α → Program C R ε Unit → Program C R ε α
  | .pure a, q => q.bind fun _ => .pure a
  | .throw e, q => q.bind fun _ => .throw e
  | .cmd c k, q => .cmd c fun r => (k r).tryFinally q

instance : Monad (Program C R ε) where
  pure := .pure
  bind := Program.bind

instance : MonadExceptOf ε (Program C R ε) where
  throw := .throw
  tryCatch := Program.tryCatch

def request (c : C) : Program C R ε (R c) := .cmd c .pure

/-- A pure computation that may raise. -/
def ofExcept : Except ε α → Program C R ε α
  | .ok a => .pure a
  | .error e => .throw e

/-- Run a program on a larger command set. -/
def lift {D : Type} {T : D → Type} (f : C → D) (g : ∀ c, T (f c) → R c) :
    Program C R ε α → Program D T ε α
  | .pure a => .pure a
  | .throw e => .throw e
  | .cmd c k => .cmd (f c) fun r => (k (g c r)).lift f g

/-- Run every command as a program on a finer command set. -/
def expand {D : Type} {T : D → Type} (f : ∀ c, Program D T ε (R c)) : Program C R ε α → Program D T ε α
  | .pure a => .pure a
  | .throw e => .throw e
  | .cmd c k => (f c).bind fun r => (k r).expand f

/-- The outcome of a program as a value. -/
def attempt : Program C R ε α → Program C R ε (Except ε α)
  | .pure a => .pure (.ok a)
  | .throw e => .pure (.error e)
  | .cmd c k => .cmd c fun r => (k r).attempt

/-- The outcome of a program with no command left. -/
def outcome? : Program C R ε α → Option (Except ε α)
  | .pure a => some (.ok a)
  | .throw e => some (.error e)
  | .cmd _ _ => none

@[simp] theorem pure_eq (a : α) : (Pure.pure a : Program C R ε α) = .pure a := rfl
@[simp] theorem bind_eq (p : Program C R ε α) (f : α → Program C R ε β) :
    (p >>= f) = p.bind f := rfl
@[simp] theorem map_eq (f : α → β) (p : Program C R ε α) :
    (f <$> p) = p.bind fun a => .pure (f a) := rfl
@[simp] theorem throw_eq (e : ε) :
    (throwThe ε e : Program C R ε α) = .throw e := rfl
@[simp] theorem throw_eq' (e : ε) :
    (MonadExcept.throw e : Program C R ε α) = .throw e := rfl
@[simp] theorem tryCatch_eq (p : Program C R ε α) (f : ε → Program C R ε α) :
    (MonadExcept.tryCatch p f) = p.tryCatch f := rfl
@[simp] theorem request_bind (c : C) (f : R c → Program C R ε β) :
    (request c : Program C R ε (R c)).bind f = .cmd c f := rfl
@[simp] theorem pure_bind (a : α) (f : α → Program C R ε β) :
    (Program.pure a).bind f = f a := rfl
@[simp] theorem throw_bind (e : ε) (f : α → Program C R ε β) :
    (Program.throw e : Program C R ε α).bind f = .throw e := rfl
@[simp] theorem cmd_bind (c : C) (k : R c → Program C R ε α) (f : α → Program C R ε β) :
    (Program.cmd c k).bind f = .cmd c fun r => (k r).bind f := rfl
@[simp] theorem pure_tryCatch (a : α) (f : ε → Program C R ε α) :
    (Program.pure a).tryCatch f = .pure a := rfl
@[simp] theorem throw_tryCatch (e : ε) (f : ε → Program C R ε α) :
    (Program.throw e).tryCatch f = f e := rfl
@[simp] theorem cmd_tryCatch (c : C) (k : R c → Program C R ε α) (f : ε → Program C R ε α) :
    (Program.cmd c k).tryCatch f = .cmd c fun r => (k r).tryCatch f := rfl
@[simp] theorem ofExcept_ok (a : α) :
    (ofExcept (.ok a) : Program C R ε α) = .pure a := rfl
@[simp] theorem ofExcept_error (e : ε) :
    (ofExcept (.error e) : Program C R ε α) = .throw e := rfl

theorem bind_assoc {γ : Type} (p : Program C R ε α) (f : α → Program C R ε β)
    (g : β → Program C R ε γ) : (p.bind f).bind g = p.bind fun a => (f a).bind g := by
  induction p with
  | pure a => rfl
  | throw e => rfl
  | cmd c k ih =>
    simp only [cmd_bind]
    congr 1
    funext r
    exact ih r

theorem expand_bind {D : Type} {T : D → Type} {f : ∀ c, Program D T ε (R c)} (p : Program C R ε α)
    (g : α → Program C R ε β) : (p.bind g).expand f = (p.expand f).bind fun a => (g a).expand f := by
  induction p with
  | pure a => rfl
  | throw e => rfl
  | cmd c k ih =>
    simp only [cmd_bind, expand, bind_assoc]
    congr 1
    funext r
    exact ih r

section Sat

variable {I : Exchange C R → C → Prop} {Q : Exchange C R → Except ε α → Prop}

/-- Whatever is answered, every command issued after exchange `h` meets `I` and
every outcome meets `Q`.  Both may look at the whole exchange so far. -/
def Sat (I : Exchange C R → C → Prop) (Q : Exchange C R → Except ε α → Prop) :
    Exchange C R → Program C R ε α → Prop
  | h, .pure a => Q h (.ok a)
  | h, .throw e => Q h (.error e)
  | h, .cmd c k => I h c ∧ ∀ r, Sat I Q (h ++ [⟨c, r⟩]) (k r)

@[simp] theorem sat_pure {h : Exchange C R} (a : α) :
    Sat I Q h (.pure a : Program C R ε α) ↔ Q h (.ok a) := Iff.rfl
@[simp] theorem sat_throw {h : Exchange C R} (e : ε) :
    Sat I Q h (.throw e : Program C R ε α) ↔ Q h (.error e) := Iff.rfl
@[simp] theorem sat_issue {h : Exchange C R} (c : C) (k : R c → Program C R ε α) :
    Sat I Q h (.cmd c k) ↔ I h c ∧ ∀ r, Sat I Q (h ++ [⟨c, r⟩]) (k r) := Iff.rfl

theorem Sat.mono {I' : Exchange C R → C → Prop} {Q' : Exchange C R → Except ε α → Prop}
    (hI : ∀ h c, I h c → I' h c) (hQ : ∀ h o, Q h o → Q' h o) {p : Program C R ε α} :
    ∀ {h}, Sat I Q h p → Sat I' Q' h p := by
  induction p with
  | pure a => intro h hp; exact hQ _ _ hp
  | throw e => intro h hp; exact hQ _ _ hp
  | cmd c k ih => intro h hp; exact ⟨hI _ _ hp.1, fun r => ih r (hp.2 r)⟩

theorem Sat.bind {Q : Exchange C R → Except ε β → Prop} {p : Program C R ε α}
    {f : α → Program C R ε β} : ∀ {h},
    Sat I (fun h o => match o with
      | .ok a => Sat I Q h (f a)
      | .error e => Q h (.error e)) h p → Sat I Q h (p.bind f) := by
  induction p with
  | pure a => intro h hp; exact hp
  | throw e => intro h hp; exact hp
  | cmd c k ih => intro h hp; exact ⟨hp.1, fun r => ih r (hp.2 r)⟩

/-- A handler takes over from an exception. -/
theorem Sat.tryCatch {p : Program C R ε α} {f : ε → Program C R ε α} : ∀ {h},
    Sat I (fun h o => match o with
      | .ok a => Q h (.ok a)
      | .error e => Sat I Q h (f e)) h p → Sat I Q h (p.tryCatch f) := by
  induction p with
  | pure a => intro h hp; exact hp
  | throw e => intro h hp; exact hp
  | cmd c k ih => intro h hp; exact ⟨hp.1, fun r => ih r (hp.2 r)⟩

theorem Sat.attempt {Q : Exchange C R → Except ε (Except ε α) → Prop} {p : Program C R ε α} : ∀ {h},
    Sat I (fun h o => Q h (.ok o)) h p → Sat I Q h p.attempt := by
  induction p with
  | pure a => intro h hp; exact hp
  | throw e => intro h hp; exact hp
  | cmd c k ih => intro h hp; exact ⟨hp.1, fun r => ih r (hp.2 r)⟩

theorem Sat.and {I' : Exchange C R → C → Prop} {Q' : Exchange C R → Except ε α → Prop} {p : Program C R ε α} :
    ∀ {h}, Sat I Q h p → Sat I' Q' h p → Sat (fun h c => I h c ∧ I' h c) (fun h o => Q h o ∧ Q' h o) h p := by
  induction p with
  | pure a => intro h hp hp'; exact ⟨hp, hp'⟩
  | throw e => intro h hp hp'; exact ⟨hp, hp'⟩
  | cmd c k ih => intro h hp hp'; exact ⟨⟨hp.1, hp'.1⟩, fun r => ih r (hp.2 r) (hp'.2 r)⟩

/-- What holds of a program that wraps its value holds of the value. -/
theorem Sat.of_map {Q : Exchange C R → Except ε β → Prop} {f : α → β} {p : Program C R ε α} : ∀ {h},
    Sat I Q h (p.bind fun a => .pure (f a)) → Sat I (fun h o => Q h (o.map f)) h p := by
  induction p with
  | pure a => intro h hp; exact hp
  | throw e => intro h hp; exact hp
  | cmd c k ih => intro h hp; exact ⟨hp.1, fun r => ih r (hp.2 r)⟩

theorem Sat.outcome {p : Program C R ε α} {h : Exchange C R} (hp : Sat I Q h p)
    {o : Except ε α} (ho : p.outcome? = some o) : Q h o := by
  cases p with
  | pure a => cases ho; exact hp
  | throw e => cases ho; exact hp
  | cmd c k => cases ho

/-- A program on a part of the commands, all of which are allowed. -/
theorem sat_lift {D : Type} {T : D → Type} {f : C → D} {g : ∀ c, T (f c) → R c}
    {I : Exchange D T → D → Prop} {Q : Exchange D T → Except ε α → Prop} (hI : ∀ h c, I h (f c))
    {p : Program C R ε α} : ∀ {h}, (∀ ext o, (∀ x ∈ ext, ∃ c, x.1 = f c) → Q (h ++ ext) o) →
      Sat I Q h (p.lift f g) := by
  induction p with
  | pure a => intro h hQ; simpa [lift] using hQ [] (.ok a) (by simp)
  | throw e => intro h hQ; simpa [lift] using hQ [] (.error e) (by simp)
  | cmd c k ih =>
    intro h hQ
    refine ⟨hI h c, fun r => ih _ fun ext o hext => ?_⟩
    have := hQ (⟨f c, r⟩ :: ext) o (by simpa using hext)
    simpa using this

/-- A lifted program does what the program does, seen through its part of the exchange; `J` is what its commands keep. -/
theorem Sat.lift {D : Type} {T : D → Type} {f : C → D} {g : ∀ c, T (f c) → R c} {part : Exchange D T → Exchange C R}
    {J : Exchange D T → Prop} (hpart : ∀ h c r, part (h ++ [⟨f c, r⟩]) = part h ++ [⟨c, g c r⟩])
    (hJ : ∀ h c r, J h → J (h ++ [⟨f c, r⟩])) {p : Program C R ε α} : ∀ {h}, Sat I Q (part h) p → J h →
      Sat (fun h d => J h ∧ ∃ c, d = f c ∧ I (part h) c) (fun h o => J h ∧ Q (part h) o) h (p.lift f g) := by
  induction p with
  | pure a => intro h hp hj; exact ⟨hj, hp⟩
  | throw e => intro h hp hj; exact ⟨hj, hp⟩
  | cmd c k ih =>
    intro h hp hj
    refine ⟨⟨hj, c, rfl, hp.1⟩, fun r => ih _ ?_ (hJ h c r hj)⟩
    rw [hpart]
    exact hp.2 _

/-- A program that may issue nothing more has ended. -/
theorem Sat.ended {p : Program C R ε α} {h : Exchange C R} (hp : Sat I Q h p)
    (hI : ∀ c, ¬ I h c) : ∃ o, p.outcome? = some o ∧ Q h o := by
  cases p with
  | pure a => exact ⟨_, rfl, hp⟩
  | throw e => exact ⟨_, rfl, hp⟩
  | cmd c k => exact absurd hp.1 (hI c)

end Sat

section All

/-- Every command of the program meets `P`, whatever is answered. -/
def All (P : C → Prop) : Program C R ε α → Prop
  | .pure _ => True
  | .throw _ => True
  | .cmd c k => P c ∧ ∀ r, All P (k r)

variable {P : C → Prop}

theorem All.imp {P' : C → Prop} {p : Program C R ε α} (hp : All P p) (h : ∀ c, P c → P' c) :
    All P' p := by
  induction p with
  | pure a => trivial
  | throw e => trivial
  | cmd c k ih => exact ⟨h c hp.1, fun r => ih r (hp.2 r)⟩

theorem All.bind {p : Program C R ε α} {f : α → Program C R ε β} (hp : All P p)
    (hf : ∀ a, All P (f a)) : All P (p.bind f) := by
  induction p with
  | pure a => exact hf a
  | throw e => trivial
  | cmd c k ih => exact ⟨hp.1, fun r => ih r (hp.2 r)⟩

theorem All.tryCatch {p : Program C R ε α} {f : ε → Program C R ε α} (hp : All P p)
    (hf : ∀ e, All P (f e)) : All P (p.tryCatch f) := by
  induction p with
  | pure a => trivial
  | throw e => exact hf e
  | cmd c k ih => exact ⟨hp.1, fun r => ih r (hp.2 r)⟩

theorem All.tryFinally {p : Program C R ε α} {q : Program C R ε Unit} (hp : All P p)
    (hq : All P q) : All P (p.tryFinally q) := by
  induction p with
  | pure a => exact hq.bind fun _ => trivial
  | throw e => exact hq.bind fun _ => trivial
  | cmd c k ih => exact ⟨hp.1, fun r => ih r (hp.2 r)⟩

theorem all_of_forall (h : ∀ c, P c) (p : Program C R ε α) : All P p := by
  induction p with
  | pure a => trivial
  | throw e => trivial
  | cmd c k ih => exact ⟨h c, ih⟩

/-- What holds of every command holds along every exchange. -/
theorem All.sat {I : Exchange C R → C → Prop} {Q : Exchange C R → Except ε α → Prop}
    {p : Program C R ε α} (hI : ∀ h c, P c → I h c) (hQ : ∀ h o, Q h o) :
    ∀ {h}, All P p → Sat I Q h p := by
  induction p with
  | pure a => intro h _; exact hQ h _
  | throw e => intro h _; exact hQ h _
  | cmd c k ih => intro h hp; exact ⟨hI h c hp.1, fun r => ih r (hp.2 r)⟩

theorem all_ofExcept (x : Except ε α) : All P (ofExcept x : Program C R ε α) := by
  cases x <;> trivial

end All

/-- What a completed call leaves behind. -/
structure Outcome (S C : Type) (R : C → Type) (ε α : Type) where
  result : Except ε α
  state : S
  log : Exchange C R

section Run

variable {S χ : Type} (apply : S → (c : C) → χ → R c × S)

/-- Run a program alone.  `ω` supplies what the state does not determine: clock
readings, fresh identifiers, the behaviour of callbacks. -/
def run : Program C R ε α → (Nat → χ) → S → Outcome S C R ε α
  | .pure a, _, s => ⟨.ok a, s, []⟩
  | .throw e, _, s => ⟨.error e, s, []⟩
  | .cmd c k, ω, s =>
    let o := run (k (apply s c (ω 0)).1) (fun n => ω (n + 1)) (apply s c (ω 0)).2
    { o with log := ⟨c, (apply s c (ω 0)).1⟩ :: o.log }

@[simp] theorem run_pure (a : α) (ω : Nat → χ) (s : S) :
    run apply (.pure a : Program C R ε α) ω s = ⟨.ok a, s, []⟩ := rfl
@[simp] theorem run_throw (e : ε) (ω : Nat → χ) (s : S) :
    run apply (.throw e : Program C R ε α) ω s = ⟨.error e, s, []⟩ := rfl
theorem run_issue (c : C) (k : R c → Program C R ε α) (ω : Nat → χ) (s : S) :
    run apply (.cmd c k) ω s =
      { run apply (k (apply s c (ω 0)).1) (fun n => ω (n + 1)) (apply s c (ω 0)).2 with
        log := ⟨c, (apply s c (ω 0)).1⟩ ::
          (run apply (k (apply s c (ω 0)).1) (fun n => ω (n + 1)) (apply s c (ω 0)).2).log } := rfl

/-- Related states that answer every command of a program alike stay related. -/
theorem run_sim {Rel : S → S → Prop} {P : C → Prop}
    (hstep : ∀ s t c ch, Rel s t → P c →
      (apply s c ch).1 = (apply t c ch).1 ∧ Rel (apply s c ch).2 (apply t c ch).2)
    {p : Program C R ε α} : ∀ {ω : Nat → χ} {s t}, All P p → Rel s t →
      (run apply p ω s).log = (run apply p ω t).log ∧
        (run apply p ω s).result = (run apply p ω t).result ∧
        Rel (run apply p ω s).state (run apply p ω t).state := by
  induction p with
  | pure a => intro ω s t _ h; exact ⟨rfl, rfl, h⟩
  | throw e => intro ω s t _ h; exact ⟨rfl, rfl, h⟩
  | cmd c k ih =>
    intro ω s t hp h
    obtain ⟨hr, hrel⟩ := hstep s t c (ω 0) h hp.1
    obtain ⟨hlog, hres, hst⟩ := ih (apply t c (ω 0)).1 (ω := fun n => ω (n + 1)) (hp.2 _) hrel
    simp only [run_issue, hr]
    exact ⟨by rw [hlog], hres, hst⟩

/-- With the answers that some state and choice give, every command of the program meets `I` and
what it returns meets `P`. -/
def Assured (I : C → Prop) (P : α → Prop) : Program C R ε α → Prop
  | .pure a => P a
  | .throw _ => True
  | .cmd c k => I c ∧ ∀ s ch, Assured I P (k (apply s c ch).1)

/-- The program can run alone from one state to another, with this exchange and
this outcome. -/
inductive Exec : Program C R ε α → S → Exchange C R → Except ε α → S → Prop
  | pure {a s} : Exec (.pure a) s [] (.ok a) s
  | throw {e s} : Exec (.throw e) s [] (.error e) s
  | cmd {c k s log o t} (ch : χ) : Exec (k (apply s c ch).1) (apply s c ch).2 log o t →
      Exec (.cmd c k) s (⟨c, (apply s c ch).1⟩ :: log) o t

theorem exec_of_run (p : Program C R ε α) : ∀ (ω : Nat → χ) (s : S),
    Exec apply p s (run apply p ω s).log (run apply p ω s).result (run apply p ω s).state := by
  induction p with
  | pure a => intro ω s; exact .pure
  | throw e => intro ω s; exact .throw
  | cmd c k ih => intro ω s; exact .cmd (ω 0) (ih _ _ _)

/-- Every answer on record was given for one of the choices. -/
theorem mem_log (p : Program C R ε α) : ∀ {ω : Nat → χ} {s : S} {x : (c : C) × R c},
    x ∈ (run apply p ω s).log → ∃ n t, x.2 = (apply t x.1 (ω n)).1 := by
  induction p with
  | pure a => intro ω s x hx; cases hx
  | throw e => intro ω s x hx; cases hx
  | cmd c k ih =>
    intro ω s x hx
    rcases List.mem_cons.mp hx with rfl | hx
    · exact ⟨0, s, rfl⟩
    · obtain ⟨n, t, h⟩ := ih _ hx
      exact ⟨n + 1, t, h⟩

/-- A run all of whose choices meet `P`. -/
theorem exec_of_run_where {P : χ → Prop} (p : Program C R ε α) : ∀ {ω : Nat → χ} (s : S),
    (∀ n, P (ω n)) → Exec (fun s c (ch : Subtype P) => apply s c ch) p s (run apply p ω s).log
      (run apply p ω s).result (run apply p ω s).state := by
  induction p with
  | pure a => intro ω s _; exact .pure
  | throw e => intro ω s _; exact .throw
  | cmd c k ih =>
    intro ω s hω
    let ch : Subtype P := ⟨ω 0, hω 0⟩
    exact .cmd ch (ih _ _ fun n => hω (n + 1))

variable {apply}

theorem Assured.bind {I : C → Prop} {P : β → Prop} {p : Program C R ε α} {f : α → Program C R ε β}
    (hp : Assured apply I (fun a => Assured apply I P (f a)) p) : Assured apply I P (p.bind f) := by
  induction p with
  | pure a => exact hp
  | throw e => trivial
  | cmd c k ih => exact ⟨hp.1, fun s ch => ih _ (hp.2 s ch)⟩

theorem Assured.imp {I : C → Prop} {P P' : α → Prop} {p : Program C R ε α} (hp : Assured apply I P p)
    (h : ∀ a, P a → P' a) : Assured apply I P' p := by
  induction p with
  | pure a => exact h a hp
  | throw e => trivial
  | cmd c k ih => exact ⟨hp.1, fun s ch => ih _ (hp.2 s ch)⟩

/-- An assured program run alone: its commands, what it returns and, where such commands preserve
`J`, its final state. -/
theorem Assured.run {I : C → Prop} {P : α → Prop} {J : S → Prop} {p : Program C R ε α}
    (hp : Assured apply I P p) (hstep : ∀ s c ch, I c → J s → J (apply s c ch).2) :
    ∀ {ω : Nat → χ} {s}, J s → (∀ x ∈ (run apply p ω s).log, I x.1) ∧
      (∀ a, (run apply p ω s).result = .ok a → P a) ∧ J (run apply p ω s).state := by
  induction p with
  | pure a =>
    intro ω s hs
    refine ⟨by simp, fun b hb => ?_, hs⟩
    cases hb
    exact hp
  | throw e => exact fun hs => ⟨by simp, fun _ h => (by cases h), hs⟩
  | cmd c k ih =>
    intro ω s hs
    obtain ⟨hlog, hresult, hstate⟩ := ih _ (hp.2 s (ω 0)) (ω := fun n => ω (n + 1))
      (hstep s c (ω 0) hp.1 hs)
    refine ⟨fun x hx => ?_, hresult, hstate⟩
    rcases List.mem_cons.mp hx with rfl | hx
    · exact hp.1
    · exact hlog x hx

theorem All.exec {P : C → Prop} {p : Program C R ε α} (hp : All P p) {s t : S}
    {log : Exchange C R} {o : Except ε α} (h : Exec apply p s log o t) : ∀ x ∈ log, P x.1 := by
  induction h with
  | pure => intro x hx; cases hx
  | throw => intro x hx; cases hx
  | cmd ch _ ih =>
    intro x hx
    rcases List.mem_cons.mp hx with rfl | hx
    · exact hp.1
    · exact ih (hp.2 _) x hx

/-- What every command of a program preserves is preserved. -/
theorem All.invariant {P : C → Prop} {I : S → Prop} {p : Program C R ε α} (hp : All P p)
    (hstep : ∀ s c ch, P c → I s → I (apply s c ch).2) {s t : S} {log : Exchange C R}
    {o : Except ε α} (h : Exec apply p s log o t) (hs : I s) : I t := by
  induction h with
  | pure => exact hs
  | throw => exact hs
  | cmd ch _ ih => exact ih (hp.2 _) (hstep _ _ _ hp.1 hs)

theorem All.log {P : C → Prop} {p : Program C R ε α} (hp : All P p) {ω : Nat → χ} {s : S} :
    ∀ x ∈ (run apply p ω s).log, P x.1 :=
  hp.exec (exec_of_run apply p ω s)

@[simp] theorem exec_pure {a : α} {s t : S} {log : Exchange C R} {o : Except ε α} :
    Exec apply (.pure a) s log o t ↔ log = [] ∧ o = .ok a ∧ t = s := by
  constructor
  · intro h
    cases h
    exact ⟨rfl, rfl, rfl⟩
  · rintro ⟨rfl, rfl, rfl⟩
    exact .pure

@[simp] theorem exec_throw {e : ε} {s t : S} {log : Exchange C R} {o : Except ε α} :
    Exec apply (.throw e) s log o t ↔ log = [] ∧ o = .error e ∧ t = s := by
  constructor
  · intro h
    cases h
    exact ⟨rfl, rfl, rfl⟩
  · rintro ⟨rfl, rfl, rfl⟩
    exact .throw

@[simp] theorem exec_ofExcept {x : Except ε α} {s t : S} {log : Exchange C R} {o : Except ε α} :
    Exec apply (ofExcept x) s log o t ↔ log = [] ∧ o = x ∧ t = s := by
  cases x with
  | ok a => exact exec_pure
  | error e => exact exec_throw

theorem exec_issue {c : C} {k : R c → Program C R ε α} {s t : S} {log : Exchange C R}
    {o : Except ε α} : Exec apply (.cmd c k) s log o t ↔ ∃ ch rest,
      log = ⟨c, (apply s c ch).1⟩ :: rest ∧ Exec apply (k (apply s c ch).1) (apply s c ch).2 rest o t := by
  constructor
  · intro h
    cases h with
    | cmd ch h => exact ⟨ch, _, rfl, h⟩
  · rintro ⟨ch, rest, rfl, h⟩
    exact .cmd ch h

theorem exec_bind {p : Program C R ε α} {f : α → Program C R ε β} {o : Except ε β} {t : S} :
    ∀ {s log}, Exec apply (p.bind f) s log o t ↔
      (∃ e, Exec apply p s log (.error e) t ∧ o = .error e) ∨
      ∃ a u l₁ l₂, Exec apply p s l₁ (.ok a) u ∧ Exec apply (f a) u l₂ o t ∧ log = l₁ ++ l₂ := by
  induction p with
  | pure a => intro s log; simp
  | throw e => intro s log; simp; tauto
  | cmd c k ih =>
    intro s log
    simp only [cmd_bind, exec_issue, ih]
    constructor
    · rintro ⟨ch, rest, rfl, ⟨e, h, ho⟩ | ⟨a, u, l₁, l₂, h, hf, rfl⟩⟩
      · exact .inl ⟨e, ⟨ch, rest, rfl, h⟩, ho⟩
      · exact .inr ⟨a, u, _, l₂, ⟨ch, l₁, rfl, h⟩, hf, rfl⟩
    · rintro (⟨e, ⟨ch, rest, rfl, h⟩, ho⟩ | ⟨a, u, _, l₂, ⟨ch, l₁, rfl, h⟩, hf, rfl⟩)
      · exact ⟨ch, rest, rfl, .inl ⟨e, h, ho⟩⟩
      · exact ⟨ch, l₁ ++ l₂, rfl, .inr ⟨a, u, l₁, l₂, h, hf, rfl⟩⟩

theorem exec_map {f : α → β} {p : Program C R ε α} {o : Except ε β} {s t : S} {log : Exchange C R}
    (h : Exec apply (f <$> p) s log o t) : ∃ o', Exec apply p s log o' t ∧ o = o'.map f := by
  rw [map_eq] at h
  obtain ⟨e, hp, rfl⟩ | ⟨a, u, l₁, l₂, hp, hpure, rfl⟩ := exec_bind.mp h
  · exact ⟨_, hp, rfl⟩
  · obtain ⟨rfl, rfl, rfl⟩ := exec_pure.mp hpure
    exact ⟨.ok a, by rwa [List.append_nil], rfl⟩

theorem exec_tryCatch {p : Program C R ε α} {f : ε → Program C R ε α} {o : Except ε α} {t : S} :
    ∀ {s log}, Exec apply (p.tryCatch f) s log o t ↔
      (∃ a, Exec apply p s log (.ok a) t ∧ o = .ok a) ∨
      ∃ e u l₁ l₂, Exec apply p s l₁ (.error e) u ∧ Exec apply (f e) u l₂ o t ∧ log = l₁ ++ l₂ := by
  induction p with
  | pure a => intro s log; simp; tauto
  | throw e => intro s log; simp
  | cmd c k ih =>
    intro s log
    simp only [cmd_tryCatch, exec_issue, ih]
    constructor
    · rintro ⟨ch, rest, rfl, ⟨a, h, ho⟩ | ⟨e, u, l₁, l₂, h, hf, rfl⟩⟩
      · exact .inl ⟨a, ⟨ch, rest, rfl, h⟩, ho⟩
      · exact .inr ⟨e, u, _, l₂, ⟨ch, l₁, rfl, h⟩, hf, rfl⟩
    · rintro (⟨a, ⟨ch, rest, rfl, h⟩, ho⟩ | ⟨e, u, _, l₂, ⟨ch, l₁, rfl, h⟩, hf, rfl⟩)
      · exact ⟨ch, rest, rfl, .inl ⟨a, h, ho⟩⟩
      · exact ⟨ch, l₁ ++ l₂, rfl, .inr ⟨e, u, l₁, l₂, h, hf, rfl⟩⟩

/-- The finaliser runs after either outcome; if it returns, the outcome stands. -/
theorem exec_tryFinally {p : Program C R ε α} {q : Program C R ε Unit} {o : Except ε α} {t : S} :
    ∀ {s log}, Exec apply (p.tryFinally q) s log o t ↔
      ∃ o' u l₁ l₂, Exec apply p s l₁ o' u ∧ log = l₁ ++ l₂ ∧
        ((Exec apply q u l₂ (.ok ()) t ∧ o = o') ∨ ∃ e, Exec apply q u l₂ (.error e) t ∧ o = .error e) := by
  induction p with
  | pure a =>
    intro s log
    simp [Program.tryFinally, exec_bind, Unique.exists_iff, or_comm]
  | throw e =>
    intro s log
    simp [Program.tryFinally, exec_bind, Unique.exists_iff, or_comm]
  | cmd c k ih =>
    intro s log
    simp only [Program.tryFinally, exec_issue, ih]
    constructor
    · rintro ⟨ch, rest, rfl, o', u, l₁, l₂, h, rfl, hq⟩
      exact ⟨o', u, _, l₂, ⟨ch, l₁, rfl, h⟩, rfl, hq⟩
    · rintro ⟨o', u, _, l₂, ⟨ch, l₁, rfl, h⟩, rfl, hq⟩
      exact ⟨ch, l₁ ++ l₂, rfl, o', u, l₁, l₂, h, rfl, hq⟩

/-- Commands that do alone what they did as one command make a program that does what it did. -/
theorem exec_expand {D S' χ' : Type} {T : D → Type} {apply' : S' → (d : D) → χ' → T d × S'}
    {f : ∀ c, Program D T ε (R c)} {π : S' → S} {ch : χ}
    (hf : ∀ s c, ∃ log t, Exec apply' (f c) s log (.ok (apply (π s) c ch).1) t ∧ π t = (apply (π s) c ch).2)
    {p : Program C R ε α} : ∀ {s}, ∃ log t,
      Exec apply' (p.expand f) s log (run apply p (fun _ => ch) (π s)).result t ∧
        π t = (run apply p (fun _ => ch) (π s)).state := by
  induction p with
  | pure a => exact fun {s} => ⟨[], s, .pure, rfl⟩
  | throw e => exact fun {s} => ⟨[], s, .throw, rfl⟩
  | cmd c k ih =>
    intro s
    obtain ⟨log, u, hc, hu⟩ := hf s c
    obtain ⟨log', t, hk, ht⟩ := ih (apply (π s) c ch).1 (s := u)
    rw [hu] at hk ht
    exact ⟨log ++ log', t, exec_bind.mpr (.inr ⟨_, u, log, log', hc, hk, rfl⟩), ht⟩

section Lift

variable {D S' χ' : Type} {T : D → Type} {f : C → D} {g : ∀ c, T (f c) → R c}
  {apply' : S' → (d : D) → χ' → T d × S'}

theorem All.lift {P : D → Prop} {p : Program C R ε α} (hp : All (fun c => P (f c)) p) :
    All P (p.lift f g) := by
  induction p with
  | pure a => trivial
  | throw e => trivial
  | cmd c k ih => exact ⟨hp.1, fun r => ih (g c r) (hp.2 _)⟩

/-- A lifted program runs as it does on the part `π` of the state, and what its
commands preserve is preserved. -/
theorem exec_lift {π : S' → S} {I : S' → Prop} {h : ∀ c, R c → T (f c)}
    (hg : ∀ c r, h c (g c r) = r)
    (hstep : ∀ s c ch, I s → I (apply' s (f c) ch).2 ∧ ∃ ch',
      g c (apply' s (f c) ch).1 = (apply (π s) c ch').1 ∧
        π (apply' s (f c) ch).2 = (apply (π s) c ch').2)
    {p : Program C R ε α} : ∀ {s t log o}, Exec apply' (p.lift f g) s log o t → I s →
      I t ∧ ∃ log', Exec apply p (π s) log' o (π t) ∧
        log = log'.map fun x => ⟨f x.1, h x.1 x.2⟩ := by
  induction p with
  | pure a =>
    intro s t log o hx hI
    obtain ⟨rfl, rfl, rfl⟩ := exec_pure.mp hx
    exact ⟨hI, [], .pure, rfl⟩
  | throw e =>
    intro s t log o hx hI
    obtain ⟨rfl, rfl, rfl⟩ := exec_throw.mp hx
    exact ⟨hI, [], .throw, rfl⟩
  | cmd c k ih =>
    intro s t log o hx hI
    obtain ⟨ch, rest, rfl, hrest⟩ := exec_issue.mp hx
    obtain ⟨hI', ch', hr, hs⟩ := hstep s c ch hI
    obtain ⟨ht, log', hlog', rfl⟩ := ih _ hrest hI'
    refine ⟨ht, ⟨c, (apply (π s) c ch').1⟩ :: log', .cmd ch' ?_, ?_⟩
    · rw [← hr, ← hs]
      exact hlog'
    · rw [List.map_cons, ← hr, hg]

end Lift

end Run

end Program

end EnterpriseCopilot.Lib
