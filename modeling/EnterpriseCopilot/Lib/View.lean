import EnterpriseCopilot.Lib.Program

/-! Programs that look alike to an observer. -/

namespace EnterpriseCopilot.Lib

/-- What an observer makes of the commands: those it does not see, those it sees with their
answers, and pairs that it cannot tell apart. -/
structure View (C : Type) where
  hidden : C → Prop
  seen : C → Prop
  twins : C → C → Prop

namespace Program

variable {C : Type} {R : C → Type} {ε α β : Type} {V : View C}

/-- The programs differ in hidden commands and between twins only. -/
inductive Alike (V : View C) : Program C R ε α → Program C R ε α → Prop
  | pure {a} : Alike V (.pure a) (.pure a)
  | throw {e} : Alike V (.throw e) (.throw e)
  | left {c k q} : V.hidden c → (∀ r, Alike V (k r) q) → Alike V (.cmd c k) q
  | right {c p k} : V.hidden c → (∀ r, Alike V p (k r)) → Alike V p (.cmd c k)
  | seen {c k k'} : V.seen c → (∀ r, Alike V (k r) (k' r)) → Alike V (.cmd c k) (.cmd c k')
  | twins {c c' k k'} : V.twins c c' → (∀ r r', Alike V (k r) (k' r')) →
      Alike V (.cmd c k) (.cmd c' k')

theorem Alike.bind {p q : Program C R ε α} {f g : α → Program C R ε β} (h : Alike V p q)
    (hfg : ∀ a, Alike V (f a) (g a)) : Alike V (p.bind f) (q.bind g) := by
  induction h with
  | pure => exact hfg _
  | throw => exact .throw
  | left hc _ ih => exact .left hc ih
  | right hc _ ih => exact .right hc ih
  | seen hc _ ih => exact .seen hc ih
  | twins hc _ ih => exact .twins hc ih

theorem Alike.ite {c : Prop} [Decidable c] {p p' q q' : Program C R ε α} (hp : c → Alike V p q)
    (hq : ¬ c → Alike V p' q') : Alike V (if c then p else p') (if c then q else q') := by
  split
  · exact hp ‹_›
  · exact hq ‹_›

theorem alike_ofExcept {x : Except ε α} : Alike V (ofExcept x : Program C R ε α) (ofExcept x) := by
  cases x with
  | error e => exact .throw
  | ok a => exact .pure

/-- A program of hidden commands that returns. -/
def Quiet (V : View C) : Program C R ε α → Prop
  | .pure _ => True
  | .throw _ => False
  | .cmd c k => V.hidden c ∧ ∀ r, Quiet V (k r)

theorem Quiet.left {p : Program C R ε α} {f : α → Program C R ε β} {q : Program C R ε β}
    (h : Quiet V p) (hf : ∀ a, Alike V (f a) q) : Alike V (p.bind f) q := by
  induction p with
  | pure a => exact hf a
  | throw e => cases h
  | cmd c k ih => exact .left h.1 fun r => ih r (h.2 r)

theorem Quiet.right {q : Program C R ε α} {f : α → Program C R ε β} {p : Program C R ε β}
    (h : Quiet V q) (hf : ∀ a, Alike V p (f a)) : Alike V p (q.bind f) := by
  induction q with
  | pure a => exact hf a
  | throw e => cases h
  | cmd c k ih => exact .right h.1 fun r => ih r (h.2 r)

variable {S χ : Type} {apply : S → (c : C) → χ → R c × S}

/-- The states that the observer cannot tell apart stay so, whatever is chosen on either side. -/
structure Unwinding (V : View C) (apply : S → (c : C) → χ → R c × S) (Same : S → S → Prop) : Prop where
  left : ∀ {s t c ch}, V.hidden c → Same s t → Same (apply s c ch).2 t
  right : ∀ {s t c ch}, V.hidden c → Same s t → Same s (apply t c ch).2
  answer : ∀ {s t c ch ch'}, V.seen c → Same s t → (apply s c ch).1 = (apply t c ch').1
  seen : ∀ {s t c ch ch'}, V.seen c → Same s t → Same (apply s c ch).2 (apply t c ch').2
  twins : ∀ {s t c c' ch ch'}, V.twins c c' → Same s t → Same (apply s c ch).2 (apply t c' ch').2

/-- Programs that look alike have one outcome, and end in states that look alike. -/
theorem Alike.run {Same : S → S → Prop} (hu : Unwinding V apply Same) {p q : Program C R ε α}
    (h : Alike V p q) : ∀ {ω υ : Nat → χ} {s t}, Same s t →
      (run apply p ω s).result = (run apply q υ t).result ∧
        Same (run apply p ω s).state (run apply q υ t).state := by
  induction h with
  | pure => exact fun hs => ⟨rfl, hs⟩
  | throw => exact fun hs => ⟨rfl, hs⟩
  | left hc _ ih => exact fun hs => ih _ (hu.left hc hs)
  | right hc _ ih => exact fun hs => ih _ (hu.right hc hs)
  | @seen c k k' hc _ ih =>
    intro ω ω' s t hs
    rw [run_issue, run_issue, ← hu.answer hc hs]
    exact ih _ (hu.seen hc hs)
  | twins hc _ ih => exact fun hs => ih _ _ (hu.twins hc hs)

end Program

end EnterpriseCopilot.Lib
