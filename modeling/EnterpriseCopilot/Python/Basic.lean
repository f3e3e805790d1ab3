import Mathlib.Data.List.Nodup
import Mathlib.Data.Rat.Defs
import EnterpriseCopilot.Lib.Program

namespace EnterpriseCopilot.Python

/-- The exceptions the modelled code raises or lets through, with their texts. -/
inductive PyError
  | valueError (msg : String)
  | typeError (msg : String)
  | keyError (msg : String)
  | overflowError (msg : String)
  | runtimeError (msg : String)
  | queueError (msg : String)
  | approvalError (msg : String)
  | approvalNotFound (msg : String)
  | workerConfigurationError (msg : String)
  | exception (name : String)
  deriving DecidableEq, Repr

theorem bind_ok {ε α β : Type} {x : Except ε α} {f : α → Except ε β} {b : β}
    (h : (x >>= f) = .ok b) : ∃ a, x = .ok a ∧ f a = .ok b := by
  cases x with
  | error e => cases h
  | ok a => exact ⟨a, rfl, h⟩

theorem bind_error {ε α β : Type} {x : Except ε α} {f : α → Except ε β} {e : ε}
    (h : (x >>= f) = .error e) : x = .error e ∨ ∃ a, x = .ok a ∧ f a = .error e := by
  cases x with
  | error e' =>
    cases h
    exact .inl rfl
  | ok a => exact .inr ⟨a, rfl, h⟩

theorem ok_bind {ε α β : Type} (a : α) (f : α → Except ε β) : (Except.ok a >>= f) = f a := rfl

/-- Values that `json.loads` produces.  `special` stands for NaN and the infinities. -/
inductive Json
  | null
  | bool (b : Bool)
  | num (q : Rat)
  | special (text : String)
  | str (s : String)
  | arr (xs : List Json)
  | obj (kvs : List (String × Json))

/-- Python's `==` between scalars: booleans are the integers 0 and 1. -/
def Json.eqScalar : Json → Json → Bool
  | .null, .null => true
  | .bool a, .bool b => a == b
  | .bool a, .num q => q == if a then 1 else 0
  | .num q, .bool a => q == if a then 1 else 0
  | .num p, .num q => p == q
  | .str a, .str b => a == b
  | _, _ => false

def Json.ofOption : Option String → Json
  | none => .null
  | some s => .str s

/-- A dictionary that was decoded from JSON text. -/
abbrev Payload := List (String × Json)

/-- `dict.get(key)`: a missing key reads as `None`. -/
def Payload.get (p : Payload) (key : String) : Json := (p.lookup key).getD .null

abbrev Bytes := List UInt8

/-- `text.encode()`. -/
def utf8 (text : String) : Bytes := text.toList.flatMap String.utf8EncodeChar

/-- `str.strip()` leaves nothing: the text is empty or all white space. -/
def isSpace (c : Char) : Bool :=
  let n := c.toNat
  (9 ≤ n && n ≤ 13) || (28 ≤ n && n ≤ 32) || n == 0x85 || n == 0xa0 || n == 0x1680 ||
    (0x2000 ≤ n && n ≤ 0x200a) || n == 0x2028 || n == 0x2029 || n == 0x202f || n == 0x205f ||
    n == 0x3000

def isBlank (s : String) : Bool := s.toList.all isSpace

/-- A digest function that is known on the entries of a table and tags every other input. -/
def tabled (table : List (String × String)) (s : String) : String :=
  (table.lookup s).getD ("~" ++ s)

theorem tabled_injective {table : List (String × String)} (hval : (table.map Prod.snd).Nodup)
    (htag : ∀ x ∈ table, x.2.toList.head? ≠ some '~') : Function.Injective (tabled table) := by
  have mem : ∀ {a x}, table.lookup a = some x → (a, x) ∈ table := by
    intro a x h
    obtain ⟨l₁, l₂, rfl, _⟩ := List.lookup_eq_some_iff.mp h
    simp
  have tag : ∀ {a b x}, table.lookup a = some x → x ≠ "~" ++ b := by
    rintro a b x h rfl
    exact htag _ (mem h) (by simp)
  intro a b h
  unfold tabled at h
  cases ha : table.lookup a with
  | none =>
    cases hb : table.lookup b with
    | none => simpa [ha, hb] using h
    | some y => exact absurd (by simpa [ha, hb] using h.symm) (tag (b := a) hb)
  | some x =>
    cases hb : table.lookup b with
    | none => exact absurd (by simpa [ha, hb] using h) (tag (b := b) ha)
    | some y =>
      obtain rfl : x = y := by simpa [ha, hb] using h
      have := List.inj_on_of_nodup_map hval (mem ha) (mem hb) rfl
      exact (Prod.mk.inj this).1

end EnterpriseCopilot.Python
