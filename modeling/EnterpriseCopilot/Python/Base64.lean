import Mathlib.Data.List.Basic
import EnterpriseCopilot.Python.Text

namespace EnterpriseCopilot.Python

/-- `text.encode("ascii")`. -/
def encode_ascii (text : List Char) : Option Bytes :=
  if text.all fun c => c.toNat < 128 then some (text.map fun c => UInt8.ofNat c.toNat) else none

/-- The six bits of a character of the URL-safe alphabet, or of the standard one. -/
def sextet (c : Char) : Option Nat :=
  if 'A' ≤ c && c ≤ 'Z' then some (c.toNat - 65)
  else if 'a' ≤ c && c ≤ 'z' then some (c.toNat - 71)
  else if '0' ≤ c && c ≤ '9' then some (c.toNat + 4)
  else if c == '-' || c == '+' then some 62
  else if c == '_' || c == '/' then some 63
  else none

/-- `binascii.a2b_base64`: `quad` characters of the current group have been read, `left` are the
bits not yet written, `pads` the padding seen since.  Other characters are skipped. -/
def a2b_base64 (quad left pads : Nat) : List Char → Option Bytes
  | [] => if quad = 0 then some [] else none
  | '=' :: cs =>
    if 2 ≤ quad && 4 ≤ quad + (pads + 1) then some []
    else a2b_base64 quad left (if 2 ≤ quad then pads + 1 else pads) cs
  | c :: cs =>
    match sextet c, quad with
    | none, _ => a2b_base64 quad left pads cs
    | some n, 0 => a2b_base64 1 n 0 cs
    | some n, 1 => (UInt8.ofNat (left * 4 + n / 16) :: ·) <$> a2b_base64 2 (n % 16) 0 cs
    | some n, 2 => (UInt8.ofNat (left * 16 + n / 4) :: ·) <$> a2b_base64 3 (n % 4) 0 cs
    | some n, _ => (UInt8.ofNat (left * 64 + n) :: ·) <$> a2b_base64 0 0 0 cs

/-- `base64.urlsafe_b64decode` of the padded segment; `none` is an error that is a `ValueError`. -/
def b64decode (segment : List Char) : Option Bytes :=
  if segment.all fun c => c.toNat < 128 then
    a2b_base64 0 0 0 (segment ++ List.replicate ((4 - segment.length % 4) % 4) '=')
  else none

/-- The URL-safe alphabet. -/
def char64 (n : Nat) : Char :=
  if n < 26 then Char.ofNat (n + 65)
  else if n < 52 then Char.ofNat (n + 71)
  else if n < 62 then Char.ofNat (n - 4)
  else if n = 62 then '-'
  else '_'

/-- `base64.urlsafe_b64encode` without the padding, as tokens carry it. -/
def encoded : Bytes → List Char
  | [] => []
  | [x] => [char64 (x.toNat / 4), char64 (x.toNat % 4 * 16)]
  | [x, y] =>
    [char64 (x.toNat / 4), char64 (x.toNat % 4 * 16 + y.toNat / 16), char64 (y.toNat % 16 * 4)]
  | x :: y :: z :: rest =>
    char64 (x.toNat / 4) :: char64 (x.toNat % 4 * 16 + y.toNat / 16) ::
      char64 (y.toNat % 16 * 4 + z.toNat / 64) :: char64 (z.toNat % 64) :: encoded rest

theorem char64_spec (n : Fin 64) : sextet (char64 n) = some n.val ∧ char64 n ≠ '=' ∧
    char64 n ≠ '.' ∧ (char64 n).toNat < 128 := by
  revert n
  decide

section

variable {n : Nat} {cs : List Char}

theorem sextet_char64 (h : n < 64) : sextet (char64 n) = some n := (char64_spec ⟨n, h⟩).1

theorem a2b_char {quad left pads : Nat} (h : n < 64) : a2b_base64 quad left pads (char64 n :: cs) =
    match quad with
    | 0 => a2b_base64 1 n 0 cs
    | 1 => (UInt8.ofNat (left * 4 + n / 16) :: ·) <$> a2b_base64 2 (n % 16) 0 cs
    | 2 => (UInt8.ofNat (left * 16 + n / 4) :: ·) <$> a2b_base64 3 (n % 4) 0 cs
    | _ => (UInt8.ofNat (left * 64 + n) :: ·) <$> a2b_base64 0 0 0 cs := by
  rw [a2b_base64.eq_def]
  split
  · rename_i hnil
    cases hnil
  · rename_i heq
    exact absurd (List.cons.inj heq).1 (char64_spec ⟨n, h⟩).2.1
  · rename_i heq
    obtain ⟨rfl, rfl⟩ := List.cons.inj heq
    simp only [sextet_char64 h]
    split <;> split <;> simp_all

theorem a2b_first (h : n < 64) : a2b_base64 0 0 0 (char64 n :: cs) = a2b_base64 1 n 0 cs :=
  a2b_char h

theorem a2b_second {left : Nat} {x : UInt8} (h : n < 64) (hx : left * 4 + n / 16 = x.toNat) :
    a2b_base64 1 left 0 (char64 n :: cs) = (x :: ·) <$> a2b_base64 2 (n % 16) 0 cs := by
  rw [a2b_char h, hx, UInt8.ofNat_toNat]
  rfl

theorem a2b_third {left : Nat} {x : UInt8} (h : n < 64) (hx : left * 16 + n / 4 = x.toNat) :
    a2b_base64 2 left 0 (char64 n :: cs) = (x :: ·) <$> a2b_base64 3 (n % 4) 0 cs := by
  rw [a2b_char h, hx, UInt8.ofNat_toNat]
  rfl

theorem a2b_fourth {left : Nat} {x : UInt8} (h : n < 64) (hx : left * 64 + n = x.toNat) :
    a2b_base64 3 left 0 (char64 n :: cs) = (x :: ·) <$> a2b_base64 0 0 0 cs := by
  rw [a2b_char h, hx, UInt8.ofNat_toNat]
  rfl

end

/-- A segment with the padding that it lacks. -/
theorem a2b_encoded (bytes : Bytes) : a2b_base64 0 0 0
    (encoded bytes ++ List.replicate ((4 - (encoded bytes).length % 4) % 4) '=') = some bytes := by
  fun_induction encoded bytes with
  | case1 => rfl
  | case2 x =>
    have hx := x.toNat_lt
    simp only [List.cons_append, List.nil_append, List.length_cons, List.length_nil]
    rw [a2b_first (by omega), a2b_second (x := x) (by omega) (by omega)]
    rfl
  | case3 x y =>
    have hx := x.toNat_lt
    have hy := y.toNat_lt
    simp only [List.cons_append, List.nil_append, List.length_cons, List.length_nil]
    rw [a2b_first (by omega), a2b_second (x := x) (by omega) (by omega),
      a2b_third (x := y) (by omega) (by omega)]
    rfl
  | case4 x y z rest ih =>
    have hx := x.toNat_lt
    have hy := y.toNat_lt
    have hz := z.toNat_lt
    simp only [List.cons_append, List.length_cons, Nat.add_assoc, Nat.reduceAdd, Nat.add_mod_right]
    rw [a2b_first (by omega), a2b_second (x := x) (by omega) (by omega),
      a2b_third (x := y) (by omega) (by omega), a2b_fourth (x := z) (by omega) (by omega), ih]
    rfl

theorem encoded_char (bytes : Bytes) : ∀ c ∈ encoded bytes, ∃ n < 64, c = char64 n := by
  fun_induction encoded bytes with
  | case1 => simp
  | case2 x =>
    have hx := x.toNat_lt
    simp only [List.mem_cons, List.not_mem_nil, or_false]
    rintro c (rfl | rfl)
    all_goals exact ⟨_, by omega, rfl⟩
  | case3 x y =>
    have hx := x.toNat_lt
    have hy := y.toNat_lt
    simp only [List.mem_cons, List.not_mem_nil, or_false]
    rintro c (rfl | rfl | rfl)
    all_goals exact ⟨_, by omega, rfl⟩
  | case4 x y z rest ih =>
    have hx := x.toNat_lt
    have hy := y.toNat_lt
    have hz := z.toNat_lt
    simp only [List.mem_cons]
    rintro c (rfl | rfl | rfl | rfl | hc)
    · exact ⟨_, by omega, rfl⟩
    · exact ⟨_, by omega, rfl⟩
    · exact ⟨_, by omega, rfl⟩
    · exact ⟨_, by omega, rfl⟩
    · exact ih c hc

/-- Decoding gives back what was encoded. -/
theorem b64decode_encoded (bytes : Bytes) : b64decode (encoded bytes) = some bytes := by
  have hascii : (encoded bytes).all (fun c => c.toNat < 128) = true := by
    rw [List.all_eq_true]
    intro c hc
    obtain ⟨n, hn, rfl⟩ := encoded_char bytes c hc
    exact decide_eq_true (char64_spec ⟨n, hn⟩).2.2.2
  rw [b64decode, if_pos hascii, a2b_encoded]

theorem encoded_undotted (bytes : Bytes) : '.' ∉ encoded bytes := by
  intro h
  obtain ⟨n, hn, hc⟩ := encoded_char bytes _ h
  exact (char64_spec ⟨n, hn⟩).2.2.1 hc.symm

theorem encoded_ne_nil {bytes : Bytes} (h : bytes ≠ []) : encoded bytes ≠ [] := by
  fun_cases encoded bytes <;> simp_all

/-- The text that is signed, in ASCII. -/
theorem encode_ascii_encoded (a b : Bytes) : encode_ascii (encoded a ++ '.' :: encoded b) =
    some ((encoded a ++ '.' :: encoded b).map fun c => UInt8.ofNat c.toNat) := by
  refine if_pos (List.all_eq_true.mpr fun c hc => decide_eq_true ?_)
  rcases List.mem_append.mp hc with hc | hc
  · obtain ⟨n, hn, rfl⟩ := encoded_char a c hc
    exact (char64_spec ⟨n, hn⟩).2.2.2
  · rcases List.mem_cons.mp hc with rfl | hc
    · decide
    · obtain ⟨n, hn, rfl⟩ := encoded_char b c hc
      exact (char64_spec ⟨n, hn⟩).2.2.2

/-- The standard alphabet has other characters for the last two values. -/
def standard (c : Char) : Char :=
  if c = '-' then '+' else if c = '_' then '/' else c

/-- `base64.b64encode`. -/
def b64encode (bytes : Bytes) : List Char :=
  (encoded bytes ++ List.replicate ((4 - (encoded bytes).length % 4) % 4) '=').map standard

theorem sextet_standard (c : Char) : sextet (standard c) = sextet c := by
  unfold standard
  split
  · subst c
    decide
  split
  · subst c
    decide
  · rfl

theorem standard_eq_pad {c : Char} : standard c = '=' ↔ c = '=' := by
  unfold standard
  split
  · subst c
    decide
  split
  · subst c
    decide
  · rfl

theorem a2b_cons {quad left pads : Nat} {c : Char} {cs : List Char} (hc : c ≠ '=') :
    a2b_base64 quad left pads (c :: cs) =
      match sextet c, quad with
      | none, _ => a2b_base64 quad left pads cs
      | some n, 0 => a2b_base64 1 n 0 cs
      | some n, 1 => (UInt8.ofNat (left * 4 + n / 16) :: ·) <$> a2b_base64 2 (n % 16) 0 cs
      | some n, 2 => (UInt8.ofNat (left * 16 + n / 4) :: ·) <$> a2b_base64 3 (n % 4) 0 cs
      | some n, _ => (UInt8.ofNat (left * 64 + n) :: ·) <$> a2b_base64 0 0 0 cs := by
  rw [a2b_base64.eq_def]
  split
  · rename_i hnil
    cases hnil
  · rename_i heq
    exact absurd (List.cons.inj heq).1 hc
  · rename_i heq
    obtain ⟨rfl, rfl⟩ := List.cons.inj heq
    rfl

/-- The decoder reads both alphabets. -/
theorem a2b_standard (quad left pads : Nat) (cs : List Char) :
    a2b_base64 quad left pads (cs.map standard) = a2b_base64 quad left pads cs := by
  induction cs generalizing quad left pads with
  | nil => rfl
  | cons c cs ih =>
    by_cases hc : c = '='
    · subst hc
      change a2b_base64 quad left pads ('=' :: cs.map standard) = _
      rw [a2b_base64, a2b_base64, ih]
    · have hc' : standard c ≠ '=' := fun h => hc (standard_eq_pad.mp h)
      rw [List.map_cons, a2b_cons hc, a2b_cons hc', sextet_standard]
      simp only [ih]

theorem b64encode_ascii (bytes : Bytes) : ∀ c ∈ b64encode bytes, c.toNat < 128 := by
  intro c hc
  obtain ⟨d, hd, rfl⟩ := List.mem_map.mp hc
  have hlow : d.toNat < 128 := by
    rcases List.mem_append.mp hd with hd | hd
    · obtain ⟨n, hn, rfl⟩ := encoded_char bytes d hd
      exact (char64_spec ⟨n, hn⟩).2.2.2
    · rw [List.eq_of_mem_replicate hd]
      decide
  unfold standard
  split
  · decide
  split
  · decide
  · exact hlow

/-- The padding is complete, so that the decoder adds none. -/
theorem b64encode_length (bytes : Bytes) : (b64encode bytes).length % 4 = 0 := by
  rw [b64encode, List.length_map, List.length_append, List.length_replicate]
  omega

theorem b64decode_b64encode (bytes : Bytes) : b64decode (b64encode bytes) = some bytes := by
  have hascii : (b64encode bytes).all (fun c => c.toNat < 128) = true :=
    List.all_eq_true.mpr fun c hc => decide_eq_true (b64encode_ascii bytes c hc)
  rw [b64decode, if_pos hascii, b64encode_length]
  simp only [Nat.sub_zero, Nat.mod_self, List.replicate_zero, List.append_nil]
  rw [b64encode, a2b_standard, a2b_encoded]

end EnterpriseCopilot.Python
