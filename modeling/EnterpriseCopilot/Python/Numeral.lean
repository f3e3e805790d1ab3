import Mathlib.Data.List.TakeWhile
import EnterpriseCopilot.Python.Text

/-! What `int` reads, and the numerals of ASCII digits. -/

namespace EnterpriseCopilot.Python

section Literals

variable {cs : List Char}

/-- What `int` reads, whatever the number of its digits. -/
def literal (cs : List Char) : Option Int :=
  (digits (unsigned (strip cs))).map fun n : Nat => if (strip cs).head? = some '-' then -(n : Int) else n

/-- The digits that `int` counts. -/
def digitCount (cs : List Char) : Nat := ((unsigned (strip cs)).filter fun c => (decimalValue c).isSome).length

theorem int_ok {v : Int} : int cs = .ok v ↔ literal cs = some v ∧ digitCount cs ≤ 4300 := by
  unfold int literal digitCount
  dsimp only
  cases digits (unsigned (strip cs)) with
  | none => simp
  | some n =>
    dsimp only
    split
    · simp only [reduceCtorEq, false_iff, not_and]
      omega
    · simp only [Except.ok.injEq, Option.map_some, Option.some.injEq, iff_self_and]
      omega

theorem int_error {e : PyError} (h : int cs = .error e) : ∃ msg, e = .valueError msg := by
  unfold int at h
  dsimp only at h
  split at h
  · cases h
    exact ⟨_, rfl⟩
  · split at h
    · cases h
      exact ⟨_, rfl⟩
    · cases h

end Literals

/-- ASCII digits, and their value. -/
structure Numeral (cs : List Char) (n : Nat) : Prop where
  nonempty : cs ≠ []
  digits : ∀ c ∈ cs, c.isDigit = true
  value : Nat.ofDigitChars 10 cs 0 = n

theorem numeral_toDigits (n : Nat) : Numeral (Nat.toDigits 10 n) n where
  nonempty := Nat.toDigits_ne_nil
  digits c hc := Nat.isDigit_of_mem_toDigits (by decide) (by decide) hc
  value := Nat.ofDigitChars_ten_toDigits

section Digits

theorem isDigit_bounds {c : Char} (h : c.isDigit = true) : 48 ≤ c.toNat ∧ c.toNat ≤ 57 := by
  simp only [Char.isDigit, Bool.and_eq_true, decide_eq_true_eq, ge_iff_le, UInt32.le_iff_toNat_le] at h
  exact h

theorem decimalValue_digit {c : Char} (h : c.isDigit = true) : decimalValue c = some (c.toNat - 48) := by
  obtain ⟨hlo, hhi⟩ := isDigit_bounds h
  have hfirst : decimalZeros.find? (fun z => z ≤ c.toNat && c.toNat ≤ z + 9) = some 48 := by
    rw [decimalZeros, List.find?_cons_of_pos]
    simp only [Bool.and_eq_true, decide_eq_true_eq]
    omega
  rw [decimalValue, hfirst]
  rfl

theorem digitsFrom_ascii : ∀ {text : List Char} {acc : Nat}, (∀ c ∈ text, c.isDigit = true) →
    digitsFrom acc text = some (Nat.ofDigitChars 10 text acc) := by
  intro text
  induction text with
  | nil => exact fun _ => rfl
  | cons c text ih =>
    intro acc h
    have hc := h c (.head _)
    rw [digitsFrom.eq_def]
    split
    · rename_i heq
      cases heq
    · rename_i heq
      cases heq
      cases hc
    · rename_i heq
      cases heq
      rw [decimalValue_digit hc, Option.bind_some, ih fun d hd => h d (List.mem_cons_of_mem _ hd), Nat.ofDigitChars_cons]
      rfl

theorem not_isIntSpace {c : Char} (h : c.isDigit = true) : isIntSpace c = false := by
  obtain ⟨hlo, hhi⟩ := isDigit_bounds h
  have hspace : isSpace c = false := by
    unfold isSpace
    simp only [Bool.or_eq_false_iff, Bool.and_eq_false_iff, decide_eq_false_iff_not, beq_eq_false_iff_ne, ne_eq]
    omega
  simp [isIntSpace, hspace]

theorem strip_digits {text : List Char} (h : ∀ c ∈ text, c.isDigit = true) : strip text = text := by
  have hkept : ∀ {l : List Char}, (∀ c ∈ l, c.isDigit = true) → l.dropWhile isIntSpace = l := by
    intro l hl
    cases l with
    | nil => rfl
    | cons c l => exact List.dropWhile_cons_of_neg (by simp [not_isIntSpace (hl c (.head _))])
  rw [strip, hkept h, hkept fun c hc => h c (List.mem_reverse.mp hc), List.reverse_reverse]

theorem unsigned_digits {c : Char} {text : List Char} (h : c.isDigit = true) : unsigned (c :: text) = c :: text := by
  rw [unsigned.eq_def]
  split
  · rename_i heq
    cases heq
    cases h
  · rename_i heq
    cases heq
    cases h
  · rfl

namespace Numeral

variable {cs : List Char} {n : Nat}

theorem literal (h : Numeral cs n) : literal cs = some (n : Int) := by
  obtain ⟨hne, hdigits, rfl⟩ := h
  cases cs with
  | nil => exact absurd rfl hne
  | cons c cs =>
    have hc := hdigits c (.head _)
    have hvalue : Python.digits (c :: cs) = some (Nat.ofDigitChars 10 (c :: cs) 0) := by
      rw [Python.digits, decimalValue_digit hc, Option.bind_some,
        digitsFrom_ascii fun d hd => hdigits d (List.mem_cons_of_mem _ hd), Nat.ofDigitChars_cons, Nat.mul_zero,
        Nat.zero_add]
      rfl
    have hsign : ¬ (c :: cs).head? = some '-' := by
      intro heq
      cases heq
      cases hc
    rw [Python.literal, strip_digits hdigits, unsigned_digits hc, hvalue, Option.map_some, if_neg hsign]

theorem digitCount (h : Numeral cs n) : digitCount cs = cs.length := by
  obtain ⟨hne, hdigits, -⟩ := h
  cases cs with
  | nil => exact absurd rfl hne
  | cons c cs =>
    rw [Python.digitCount, strip_digits hdigits, unsigned_digits (hdigits c (.head _)), List.filter_eq_self.mpr]
    exact fun d hd => by rw [decimalValue_digit (hdigits d hd)]; rfl

theorem int (h : Numeral cs n) (hlen : cs.length ≤ 4300) : int cs = .ok (n : Int) :=
  int_ok.mpr ⟨h.literal, h.digitCount.trans_le hlen⟩

end Numeral

end Digits

end EnterpriseCopilot.Python
