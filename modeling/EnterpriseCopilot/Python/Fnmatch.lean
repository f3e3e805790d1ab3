import Mathlib.Data.List.Infix

namespace EnterpriseCopilot.Python

/-- The parts of a pattern of `fnmatch`. -/
inductive Token
  | star
  | one
  | set (negated : Bool) (ranges : List (Char × Char))
  | lit (c : Char)

/-- What stands between brackets, as ranges of characters. -/
def ranges : List Char → List (Char × Char)
  | a :: '-' :: b :: cs => (a, b) :: ranges cs
  | a :: cs => (a, a) :: ranges cs
  | [] => []

/-- What follows an opening bracket: the set, and the pattern behind it.  A bracket that comes
first does not close. -/
def bracket (cs : List Char) : Option (Token × List Char) :=
  let (negated, body) := match cs with
    | '!' :: ds => (true, ds)
    | ds => (false, ds)
  let (first, rest) := match body with
    | ']' :: ds => ([']'], ds)
    | ds => ([], ds)
  match rest.dropWhile (· ≠ ']') with
  | [] => none
  | _ :: more => some (.set negated (ranges (first ++ rest.takeWhile (· ≠ ']'))), more)

/-- The tokens of a pattern that is no longer than the fuel. -/
def tokens : Nat → List Char → List Token
  | 0, _ => []
  | _, [] => []
  | k + 1, '*' :: cs => .star :: tokens k cs
  | k + 1, '?' :: cs => .one :: tokens k cs
  | k + 1, '[' :: cs => match bracket cs with
    | some (token, rest) => token :: tokens k rest
    | none => .lit '[' :: tokens k cs
  | k + 1, c :: cs => .lit c :: tokens k cs

def isMatch : List Token → List Char → Bool
  | [], cs => cs.isEmpty
  | .star :: ts, cs => cs.tails.any (isMatch ts)
  | .one :: ts, _ :: cs => isMatch ts cs
  | .set negated rs :: ts, c :: cs =>
    (rs.any fun x => x.1 ≤ c && c ≤ x.2) != negated && isMatch ts cs
  | .lit d :: ts, c :: cs => c == d && isMatch ts cs
  | _ :: _, [] => false

/-- `fnmatch.fnmatchcase`. -/
def fnmatch (pattern name : String) : Bool :=
  isMatch (tokens pattern.toList.length pattern.toList) name.toList

/-- A character that stands for itself. -/
def isLiteral (c : Char) : Prop := c ≠ '*' ∧ c ≠ '?' ∧ c ≠ '['

theorem tokens_literal {c : Char} (h : isLiteral c) (k : Nat) (cs : List Char) :
    tokens (k + 1) (c :: cs) = .lit c :: tokens k cs := by
  obtain ⟨hstar, hone, hopen⟩ := h
  rw [tokens]
  · exact hstar
  · exact hone
  · exact hopen

theorem isMatch_star (cs : List Char) : isMatch [.star] cs = true := by
  rw [isMatch, List.any_eq_true]
  exact ⟨[], (List.mem_tails _ _).mpr (List.nil_suffix), rfl⟩

/-- A text followed by a star asks for a prefix. -/
theorem isMatch_literal {text : List Char} (h : ∀ c ∈ text, isLiteral c) : ∀ {k name},
    isMatch (tokens (text.length + 1 + k) (text ++ ['*'])) name = true ↔ text <+: name := by
  induction text with
  | nil =>
    intro k name
    have htokens : tokens (0 + 1 + k) ['*'] = [.star] := by
      rw [Nat.zero_add, Nat.add_comm]
      cases k <;> rfl
    rw [List.nil_append, List.length_nil, htokens, isMatch_star]
    simp
  | cons c cs ih =>
    intro k name
    have hlen : (c :: cs).length + 1 + k = (cs.length + 1 + k) + 1 := by
      rw [List.length_cons]
      omega
    rw [List.cons_append, hlen, tokens_literal (h c (by simp))]
    cases name with
    | nil =>
      rw [isMatch]
      · simp
      · exact fun heq => Token.noConfusion heq
    | cons d ds =>
      rw [isMatch, Bool.and_eq_true, ih fun x hx => h x (by simp [hx]), List.cons_prefix_cons, beq_iff_eq,
        eq_comm]

theorem fnmatch_prefix {text : String} (h : ∀ c ∈ text.toList, isLiteral c) {name : String} :
    fnmatch (text ++ "*") name = true ↔ text.toList <+: name.toList := by
  have hpattern : (text ++ "*").toList = text.toList ++ ['*'] := by simp
  rw [fnmatch, hpattern, List.length_append]
  exact isMatch_literal h (k := 0)

end EnterpriseCopilot.Python
