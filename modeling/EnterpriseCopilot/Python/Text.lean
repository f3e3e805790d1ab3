import EnterpriseCopilot.Python.Basic

namespace EnterpriseCopilot.Python

/-- The code points of the decimal digits zero; nine digits follow each of them. -/
def decimalZeros : List Nat :=
  [0x30, 0x660, 0x6f0, 0x7c0, 0x966, 0x9e6, 0xa66, 0xae6, 0xb66, 0xbe6, 0xc66, 0xce6, 0xd66,
    0xde6, 0xe50, 0xed0, 0xf20, 0x1040, 0x1090, 0x17e0, 0x1810, 0x1946, 0x19d0, 0x1a80, 0x1a90,
    0x1b50, 0x1bb0, 0x1c40, 0x1c50, 0xa620, 0xa8d0, 0xa900, 0xa9d0, 0xa9f0, 0xaa50, 0xabf0,
    0xff10, 0x104a0, 0x10d30, 0x11066, 0x110f0, 0x11136, 0x111d0, 0x112f0, 0x11450, 0x114d0,
    0x11650, 0x116c0, 0x11730, 0x118e0, 0x11950, 0x11c50, 0x11d50, 0x11da0, 0x11f50, 0x16a60,
    0x16ac0, 0x16b50, 0x1d7ce, 0x1d7d8, 0x1d7e2, 0x1d7ec, 0x1d7f6, 0x1e140, 0x1e2f0, 0x1e4f0,
    0x1e950, 0x1fbf0]

def decimalValue (c : Char) : Option Nat :=
  (decimalZeros.find? fun z => z ≤ c.toNat && c.toNat ≤ z + 9).map (c.toNat - ·)

/-- The rest of a number after a digit: single underscores may separate digits. -/
def digitsFrom (acc : Nat) : List Char → Option Nat
  | [] => some acc
  | '_' :: c :: cs => (decimalValue c).bind fun d => digitsFrom (10 * acc + d) cs
  | c :: cs => (decimalValue c).bind fun d => digitsFrom (10 * acc + d) cs

def digits : List Char → Option Nat
  | [] => none
  | c :: cs => (decimalValue c).bind fun d => digitsFrom d cs

/-- `int` strips white space, except the ASCII separators that `split` also removes. -/
def isIntSpace (c : Char) : Bool := isSpace c && !(28 ≤ c.toNat && c.toNat ≤ 31)

def strip (cs : List Char) : List Char :=
  ((cs.dropWhile isIntSpace).reverse.dropWhile isIntSpace).reverse

def unsigned : List Char → List Char
  | '-' :: ds => ds
  | '+' :: ds => ds
  | ds => ds

/-- `int(text)`. -/
def int (cs : List Char) : Except PyError Int :=
  let text := strip cs
  let count := ((unsigned text).filter fun c => (decimalValue c).isSome).length
  match digits (unsigned text) with
  | none => .error (.valueError
      ("invalid literal for int() with base 10: \'" ++ String.ofList cs ++ "\'"))
  | some n =>
    if 4300 < count then .error (.valueError
      ("Exceeds the limit (4300 digits) for integer string conversion: value has " ++
        toString count ++ " digits; use sys.set_int_max_str_digits() to increase the limit"))
    else .ok (if text.head? = some '-' then -n else n)

/-- `"\x00" in text`. -/
def hasNul (s : String) : Bool := s.toList.contains '\x00'

theorem hasNul_append (s t : String) : hasNul (s ++ t) = (hasNul s || hasNul t) := by
  simp [hasNul, String.toList_append]

/-- `text.split()`. -/
def split (cs : List Char) : List (List Char) := (cs.splitOnP isSpace).filter (· ≠ [])

/-- `text.strip()`. -/
def str_strip (s : String) : String :=
  String.ofList ((s.toList.dropWhile isSpace).reverse.dropWhile isSpace).reverse

theorem isBlank_str_strip (s : String) : isBlank (str_strip s) = isBlank s := by
  have hall : ∀ l : List Char, (l.dropWhile isSpace).all isSpace = l.all isSpace := by
    intro l
    conv_rhs => rw [← List.takeWhile_append_dropWhile (p := isSpace) (l := l), List.all_append,
      List.all_takeWhile, Bool.true_and]
  unfold isBlank str_strip
  rw [String.toList_ofList, List.all_reverse, hall, List.all_reverse, hall]

theorem length_str_strip_le (s : String) : (str_strip s).length ≤ s.length := by
  have hle : ∀ l : List Char, (l.dropWhile isSpace).length ≤ l.length := fun l =>
    (List.dropWhile_sublist _).length_le
  unfold str_strip
  rw [String.length_ofList, List.length_reverse, ← String.length_toList]
  exact (hle _).trans (by rw [List.length_reverse]; exact hle _)

/-- `text.rstrip(c)` for a single character. -/
def rstrip (c : Char) (s : String) : String :=
  String.ofList (s.toList.reverse.dropWhile (· == c)).reverse

/-- Truth value of an optional text: `None` and the empty text are false. -/
def truthy : Option String → Option String
  | some s => if s.isEmpty then none else some s
  | none => none

theorem truthy_some {o : Option String} {key : String} (h : truthy o = some key) : o = some key := by
  unfold truthy at h
  split at h
  · split at h
    · cases h
    · exact h
  · cases h

/-- Text of `n` hexadecimal digits: a digest or the `hex` of a UUID. -/
structure Hex (n : Nat) where
  chars : List Char
  length : chars.length = n
  digits : ∀ c ∈ chars, c ∈ "0123456789abcdef".toList
  deriving DecidableEq

def Hex.text {n : Nat} (h : Hex n) : String := String.ofList h.chars

theorem Hex.digits_of_all {chars : List Char}
    (h : chars.all ("0123456789abcdef".toList.contains ·) = true) :
    ∀ c ∈ chars, c ∈ "0123456789abcdef".toList := by
  simpa using h

theorem Hex.ext {n : Nat} {a b : Hex n} (h : a.chars = b.chars) : a = b := by
  cases a
  cases b
  cases h
  rfl

theorem Hex.text_injective {n : Nat} : Function.Injective (Hex.text (n := n)) :=
  fun _ _ h => Hex.ext (String.ofList_injective h)

theorem Hex.chars_ne_nil {n : Nat} (h : Hex n) (hn : n ≠ 0) : h.chars ≠ [] := by
  intro hnil
  have := h.length
  rw [hnil] at this
  exact hn this.symm

end EnterpriseCopilot.Python
