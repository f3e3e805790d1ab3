import Mathlib.Algebra.Field.Rat
import Mathlib.Data.List.Forall2
import Mathlib.Data.List.ReduceOption
import Mathlib.Data.List.TakeWhile
import EnterpriseCopilot.Lib.Float64

/-! The text format in which Prometheus reads samples. -/

namespace EnterpriseCopilot.Lib.Exposition

/-- The number that a sample shows: a double. -/
inductive Value
  | nan
  | inf (negative : Bool)
  | finite (q : Rat)
  deriving DecidableEq

structure Sample where
  name : String
  labels : List (String × String)
  value : Value
  timestamp : Option Int
  deriving DecidableEq

def blank (c : Char) : Bool := c = ' ' || c = '\t'

def blanks (text : List Char) : List Char := text.dropWhile blank

def labelStart (c : Char) : Bool := c.isAlpha || c = '_'

def labelChar (c : Char) : Bool := labelStart c || c.isDigit

def nameStart (c : Char) : Bool := labelStart c || c = ':'

def nameChar (c : Char) : Bool := nameStart c || c.isDigit

section Words

variable (start char : Char → Bool)

/-- A word and what comes after it. -/
def word : List Char → Option (List Char × List Char)
  | [] => none
  | c :: text => if start c then some (c :: text.takeWhile char, text.dropWhile char) else none

def IsWord : List Char → Prop
  | [] => False
  | c :: cs => start c = true ∧ ∀ d ∈ cs, char d = true

variable {start char} {cs rest : List Char} {c : Char}

theorem word_append (h : IsWord start char cs) (hc : char c = false) :
    word start char (cs ++ c :: rest) = some (cs, c :: rest) := by
  cases cs with
  | nil => exact h.elim
  | cons d cs =>
    have htake : (cs ++ c :: rest).takeWhile char = cs := by
      rw [List.takeWhile_append_of_pos h.2, List.takeWhile_cons_of_neg (by simp [hc]), List.append_nil]
    have hdrop : (cs ++ c :: rest).dropWhile char = c :: rest := by
      rw [List.dropWhile_append_of_pos h.2, List.dropWhile_cons_of_neg (by simp [hc])]
    rw [List.cons_append, word, if_pos h.1, htake, hdrop]

theorem IsWord.not_mem (h : IsWord start char cs) (hstart : start c = false) (hchar : char c = false) : c ∉ cs := by
  cases cs with
  | nil => exact List.not_mem_nil
  | cons d cs =>
    rw [List.mem_cons, not_or]
    constructor
    · rintro rfl
      cases hstart.symm.trans h.1
    · exact fun hc => by cases hchar.symm.trans (h.2 c hc)

end Words

/-- The value of a label up to the quote that ends it. -/
def quoted : List Char → Option (List Char × List Char)
  | [] => none
  | '"' :: rest => some ([], rest)
  | '\\' :: '\\' :: rest => (quoted rest).map fun found => ('\\' :: found.1, found.2)
  | '\\' :: '"' :: rest => (quoted rest).map fun found => ('"' :: found.1, found.2)
  | '\\' :: 'n' :: rest => (quoted rest).map fun found => ('\n' :: found.1, found.2)
  | '\\' :: _ => none
  | c :: rest => (quoted rest).map fun found => (c :: found.1, found.2)

/-- The texts that stand for a value between its quotes. -/
inductive Spells : List Char → List Char → Prop
  | nil : Spells [] []
  | plain {c text value} : c ≠ '\\' → c ≠ '"' → c ≠ '\n' → Spells text value → Spells (c :: text) (c :: value)
  | backslash {text value} : Spells text value → Spells ('\\' :: '\\' :: text) ('\\' :: value)
  | quote {text value} : Spells text value → Spells ('\\' :: '"' :: text) ('"' :: value)
  | newline {text value} : Spells text value → Spells ('\\' :: 'n' :: text) ('\n' :: value)

section Quoted

variable {c : Char} {text value rest : List Char}

theorem quoted_plain (hback : c ≠ '\\') (hquote : c ≠ '"') :
    quoted (c :: rest) = (quoted rest).map fun found => (c :: found.1, found.2) := by
  rw [quoted.eq_def]
  split <;> simp_all

/-- A value is read back. -/
theorem quoted_spells (h : Spells text value) : quoted (text ++ '"' :: rest) = some (value, rest) := by
  induction h with
  | nil => rfl
  | plain hback hquote _ _ ih => rw [List.cons_append, quoted_plain hback hquote, ih, Option.map_some]
  | backslash _ ih => rw [List.cons_append, List.cons_append, quoted, ih, Option.map_some]
  | quote _ ih => rw [List.cons_append, List.cons_append, quoted, ih, Option.map_some]
  | newline _ ih => rw [List.cons_append, List.cons_append, quoted, ih, Option.map_some]

/-- A value without its last quote is none. -/
theorem quoted_open (h : Spells text value) : quoted text = none := by
  induction h with
  | nil => rfl
  | plain hback hquote _ _ ih => rw [quoted_plain hback hquote, ih, Option.map_none]
  | backslash _ ih => rw [quoted, ih, Option.map_none]
  | quote _ ih => rw [quoted, ih, Option.map_none]
  | newline _ ih => rw [quoted, ih, Option.map_none]

theorem Spells.newline_not_mem (h : Spells text value) : '\n' ∉ text := by
  induction h with
  | nil => exact List.not_mem_nil
  | plain _ _ hline _ ih => exact List.not_mem_cons_of_ne_of_not_mem hline.symm ih
  | backslash _ ih => simpa using ih
  | quote _ ih => simpa using ih
  | newline _ ih => simpa using ih

end Quoted

/-- A label with its value, and what comes after them. -/
def label (text : List Char) : Option ((String × String) × List Char) := do
  let (name, rest) ← word labelStart labelChar text
  match blanks rest with
  | '=' :: rest =>
    match blanks rest with
    | '"' :: rest => (quoted rest).map fun found => ((String.ofList name, String.ofList found.1), found.2)
    | _ => none
  | _ => none

/-- The labels up to the brace.  There are fewer of them than characters. -/
def pairs : Nat → List Char → Option (List (String × String) × List Char)
  | 0, _ => none
  | fuel + 1, text =>
    match blanks text with
    | '}' :: rest => some ([], rest)
    | text => do
      let (found, rest) ← label text
      match blanks rest with
      | '}' :: rest => some ([found], rest)
      | ',' :: rest => (pairs fuel rest).map fun more => (found :: more.1, more.2)
      | _ => none

def labelSet (text : List Char) : Option (List (String × String) × List Char) :=
  match blanks text with
  | '{' :: rest => pairs rest.length rest
  | rest => some ([], rest)

/-- A sign, if there is one: whether it is a minus, and what it is the sign of. -/
def signed : List Char → Bool × List Char
  | '-' :: rest => (true, rest)
  | '+' :: rest => (false, rest)
  | rest => (false, rest)

def natural (cs : List Char) : Option Nat :=
  if cs ≠ [] ∧ cs.all Char.isDigit then some (Nat.ofDigitChars 10 cs 0) else none

def integer (cs : List Char) : Option Int :=
  (natural (signed cs).2).map fun n : Nat => if (signed cs).1 then -(n : Int) else n

/-- Digits with at most one point among them. -/
def mantissa (cs : List Char) : Option Rat :=
  match cs.dropWhile Char.isDigit with
  | [] => (natural cs).map fun n : Nat => (n : Rat)
  | '.' :: fraction =>
    (natural (cs.takeWhile Char.isDigit ++ fraction)).map fun n : Nat => (n : Rat) / 10 ^ fraction.length
  | _ => none

def decimal (cs : List Char) : Option Rat :=
  match cs.dropWhile fun c => c ≠ 'e' && c ≠ 'E' with
  | [] => mantissa cs
  | _ :: power => do return (← mantissa (cs.takeWhile fun c => c ≠ 'e' && c ≠ 'E')) * 10 ^ (← integer power)

/-- The numbers of `ParseFloat`, except those in base 16.  What rounds to no double is not read. -/
def number (cs : List Char) : Option Value :=
  if cs.map Char.toLower = ['n', 'a', 'n'] then some .nan
  else if (signed cs).2.map Char.toLower ∈ [['i', 'n', 'f'], ['i', 'n', 'f', 'i', 'n', 'i', 't', 'y']] then
    some (.inf (signed cs).1)
  else do
    let q ← decimal (signed cs).2
    return .finite (← Float64.round (if (signed cs).1 then -q else q))

/-- A line that holds a sample.  No label comes twice. -/
def sample (line : List Char) : Option Sample := do
  let (name, rest) ← word nameStart nameChar line
  let (labels, rest) ← labelSet rest
  if (labels.map Prod.fst).Nodup then
    match (rest.splitOnP blank).filter (· ≠ []) with
    | [value] => (number value).map fun value => ⟨String.ofList name, labels, value, none⟩
    | [value, time] => do return ⟨String.ofList name, labels, ← number value, some (← integer time)⟩
    | _ => none
  else none

/-- Blank lines and comments hold none. -/
def entry (line : List Char) : Option (Option Sample) :=
  match blanks line with
  | [] => some none
  | '#' :: _ => some none
  | line => (sample line).map some

/-- The samples of a text whose lines all end. -/
def parse (text : List Char) : Option (List Sample) :=
  let lines := text.splitOn '\n'
  if lines.getLast? = some [] then (lines.dropLast.mapM entry).map List.reduceOption else none

example : parse "# HELP hits of a page\nhits \x7b page = \"a\\\\b\", \x7d 1.5e1\n\nup 1 -3\n".toList =
    some [⟨"hits", [("page", "a\\b")], .finite 15, none⟩, ⟨"up", [], .finite 1, some (-3)⟩] := by decide +kernel

section Numbers

variable {cs : List Char} {n : Nat}

theorem not_blank_of_digit {c : Char} (h : c.isDigit = true) : blank c = false := by
  by_contra hblank
  rw [Bool.not_eq_false, blank, Bool.or_eq_true, decide_eq_true_iff, decide_eq_true_iff] at hblank
  rcases hblank with rfl | rfl <;> revert h <;> decide

/-- What starts with a digit is no word. -/
theorem lower_ne {c d : Char} {word : List Char} (h : c.isDigit = true) (hd : d.isDigit = false) :
    (c :: cs).map Char.toLower ≠ d :: word := by
  intro heq
  have hlower : c.toLower = c := by
    refine dif_neg fun hupper => ?_
    simp only [Char.isDigit, Bool.and_eq_true, decide_eq_true_eq, ge_iff_le, UInt32.le_iff_toNat_le] at h hupper
    have hlow : 'A'.val.toNat = 65 := rfl
    have hnine : '9'.val.toNat = 57 := rfl
    omega
  rw [List.map_cons, hlower, List.cons.injEq] at heq
  rw [heq.1, hd] at h
  cases h

theorem decimal_digits (hne : cs ≠ []) (h : ∀ c ∈ cs, c.isDigit = true) :
    decimal cs = some ((Nat.ofDigitChars 10 cs 0 : Nat) : Rat) := by
  have hpower : cs.dropWhile (fun c => c ≠ 'e' && c ≠ 'E') = [] := by
    refine List.dropWhile_eq_nil_iff.mpr fun c hc => ?_
    simp only [Bool.and_eq_true, decide_eq_true_eq]
    constructor <;> rintro rfl <;> exact absurd (h _ hc) (by decide)
  have hnatural : natural cs = some (Nat.ofDigitChars 10 cs 0) := if_pos ⟨hne, List.all_eq_true.mpr h⟩
  rw [decimal, hpower]
  dsimp only
  rw [mantissa, List.dropWhile_eq_nil_iff.mpr h]
  dsimp only
  rw [hnatural, Option.map_some]

/-- Digits read as their value, rounded. -/
theorem number_digits (hne : cs ≠ []) (h : ∀ c ∈ cs, c.isDigit = true) :
    number cs = (Float64.round ((Nat.ofDigitChars 10 cs 0 : Nat) : Rat)).map .finite := by
  obtain ⟨c, cs, rfl⟩ := List.exists_cons_of_ne_nil hne
  have hc := h c (.head _)
  have hsigned : signed (c :: cs) = (false, c :: cs) := by
    rw [signed.eq_def]
    split
    · rename_i heq
      cases heq
      cases hc
    · rename_i heq
      cases heq
      cases hc
    · rfl
  have hinf : (c :: cs).map Char.toLower ∉ [['i', 'n', 'f'], ['i', 'n', 'f', 'i', 'n', 'i', 't', 'y']] := by
    intro hmem
    rcases List.mem_cons.mp hmem with heq | hmem
    · exact lower_ne hc (by decide) heq
    · exact lower_ne hc (by decide) (List.mem_singleton.mp hmem)
  rw [number, if_neg (lower_ne hc (by decide)), hsigned, if_neg hinf, decimal_digits hne h]
  simp only [Option.bind_eq_bind, Option.bind_some, Bool.false_eq_true, if_false]
  cases Float64.round _ <;> rfl

theorem number_toDigits (n : Nat) : number (Nat.toDigits 10 n) = (Float64.round n).map .finite := by
  rw [number_digits Nat.toDigits_ne_nil fun c hc => Nat.isDigit_of_mem_toDigits (by decide) (by decide) hc,
    Nat.ofDigitChars_ten_toDigits]

end Numbers

section Lines

variable {name text line rest pre : List Char} {texts : List (List Char)} {l : String × String}
  {labels : List (String × String)} {fuel : Nat} {shown : List Char} {value : Value}

theorem blanks_of_head {c : Char} (h : blank c = false) : blanks (c :: rest) = c :: rest :=
  List.dropWhile_cons_of_neg (by simp [h])

theorem not_blank_of_start {c : Char} (h : nameStart c = true) : blank c = false := by
  by_contra hblank
  rw [Bool.not_eq_false, blank, Bool.or_eq_true, decide_eq_true_iff, decide_eq_true_iff] at hblank
  rcases hblank with rfl | rfl <;> revert h <;> decide

/-- A label as it is written, up to the quote that ends its value. -/
def Opens (text : List Char) (l : String × String) : Prop :=
  ∃ spelled, IsWord labelStart labelChar l.1.toList ∧ Spells spelled l.2.toList ∧
    text = l.1.toList ++ '=' :: '"' :: spelled

def Writes (text : List Char) (l : String × String) : Prop := ∃ start, Opens start l ∧ text = start ++ ['"']

theorem label_writes (h : Writes text l) (rest : List Char) : label (text ++ rest) = some (l, rest) := by
  obtain ⟨-, ⟨spelled, hword, hspells, rfl⟩, rfl⟩ := h
  have htext : l.1.toList ++ '=' :: '"' :: spelled ++ ['"'] ++ rest =
      l.1.toList ++ '=' :: '"' :: (spelled ++ '"' :: rest) := by simp
  rw [htext, label, word_append hword (by decide)]
  simp only [Option.bind_eq_bind, Option.bind_some, blanks_of_head (c := '=') (by decide),
    blanks_of_head (c := '"') (by decide), quoted_spells hspells, Option.map_some, String.ofList_toList]

theorem label_opens {start : List Char} (h : Opens start l) : label start = none := by
  obtain ⟨spelled, hword, hspells, rfl⟩ := h
  rw [label, word_append hword (by decide)]
  simp only [Option.bind_eq_bind, Option.bind_some, blanks_of_head (c := '=') (by decide),
    blanks_of_head (c := '"') (by decide), quoted_open hspells, Option.map_none]

theorem Opens.newline_not_mem {start : List Char} (h : Opens start l) : '\n' ∉ start := by
  obtain ⟨spelled, hword, hspells, rfl⟩ := h
  have hname := hword.not_mem (c := '\n') (by decide) (by decide)
  have hvalue := hspells.newline_not_mem
  simp [hname, hvalue]

theorem Writes.newline_not_mem (h : Writes text l) : '\n' ∉ text := by
  obtain ⟨start, hstart, rfl⟩ := h
  have hopens := hstart.newline_not_mem
  simp [hopens]

/-- A label starts with a letter. -/
theorem Opens.head {start : List Char} (h : Opens start l) : ∃ c cs, start = c :: cs ∧ labelStart c = true := by
  obtain ⟨spelled, hword, -, rfl⟩ := h
  cases hl : l.1.toList with
  | nil => rw [hl] at hword; exact hword.elim
  | cons c cs =>
    rw [hl] at hword
    exact ⟨c, _, rfl, hword.1⟩

/-- With a label ahead, `pairs` reads it. -/
theorem pairs_label {c : Char} (h : labelStart c = true) : pairs (fuel + 1) (c :: rest) = (do
    let (found, rest) ← label (c :: rest)
    match blanks rest with
    | '}' :: rest => some ([found], rest)
    | ',' :: rest => (pairs fuel rest).map fun more => (found :: more.1, more.2)
    | _ => none) := by
  have hblank : blanks (c :: rest) = c :: rest := blanks_of_head (not_blank_of_start (by simp [nameStart, h]))
  rw [pairs, hblank]
  split
  · rename_i heq
    cases heq
    exact absurd h (by decide)
  · rfl

theorem pairs_writes (h : Writes text l) : pairs (fuel + 1) (text ++ rest) = match blanks rest with
    | '}' :: rest => some ([l], rest)
    | ',' :: rest => (pairs fuel rest).map fun more => (l :: more.1, more.2)
    | _ => none := by
  have hlabel := label_writes h rest
  obtain ⟨start, hstart, rfl⟩ := h
  obtain ⟨c, cs, rfl, hc⟩ := hstart.head
  rw [List.cons_append, List.cons_append] at hlabel ⊢
  rw [pairs_label hc, hlabel]
  rfl

theorem pairs_last (h : Writes text l) : pairs (fuel + 1) (text ++ '}' :: rest) = some ([l], rest) := by
  rw [pairs_writes h, blanks_of_head (by decide)]
  rfl

theorem pairs_more (h : Writes text l) : pairs (fuel + 1) (text ++ ',' :: rest) =
    (pairs fuel rest).map fun more => (l :: more.1, more.2) := by
  rw [pairs_writes h, blanks_of_head (by decide)]
  rfl

/-- Labels between commas are read up to the brace. -/
theorem pairs_joined (h : List.Forall₂ Writes texts labels) (hne : labels ≠ []) (hfuel : labels.length ≤ fuel) :
    pairs fuel ([','].intercalate texts ++ '}' :: rest) = some (labels, rest) := by
  induction h generalizing fuel with
  | nil => exact absurd rfl hne
  | cons hwrites htail ih =>
    obtain ⟨fuel, rfl⟩ := Nat.exists_eq_add_of_le' (Nat.lt_of_lt_of_le (Nat.succ_pos _) hfuel)
    cases htail with
    | nil => rw [List.intercalate_singleton, pairs_last hwrites]
    | cons hnext hrest =>
      rw [List.intercalate_cons_cons, List.append_assoc, List.append_assoc, List.singleton_append, pairs_more hwrites,
        ih (by simp) (by simpa using hfuel), Option.map_some]

/-- Where a line ends within a label there is nothing to read. -/
theorem pairs_opens {start : List Char} (h : List.Forall₂ Writes texts labels) (hopens : Opens start l) :
    pairs fuel (texts.flatMap (· ++ [',']) ++ start) = none := by
  induction h generalizing fuel with
  | nil =>
    have hlabel := label_opens hopens
    obtain ⟨c, cs, rfl, hc⟩ := hopens.head
    cases fuel with
    | zero => rfl
    | succ fuel => rw [List.flatMap_nil, List.nil_append, pairs_label hc, hlabel]; rfl
  | cons hwrites _ ih =>
    cases fuel with
    | zero => rfl
    | succ fuel =>
      rw [List.flatMap_cons, List.append_assoc, List.append_assoc, List.singleton_append, pairs_more hwrites, ih,
        Option.map_none]

end Lines

section Samples

variable {name : String} {texts : List (List Char)} {labels : List (String × String)} {n : Nat} {pre : List Char}

theorem splitOnP_toDigits (n : Nat) : (Nat.toDigits 10 n).splitOnP blank = [Nat.toDigits 10 n] :=
  List.splitOnP_eq_singleton fun c hc => not_blank_of_digit (Nat.isDigit_of_mem_toDigits (by decide) (by decide) hc)

/-- A sample without labels. -/
theorem sample_bare (hname : IsWord nameStart nameChar name.toList) :
    sample (name.toList ++ ' ' :: Nat.toDigits 10 n) =
      (Float64.round n).map fun v => ⟨name, [], .finite v, none⟩ := by
  have hset : labelSet (' ' :: Nat.toDigits 10 n) = some ([], Nat.toDigits 10 n) := by
    obtain ⟨c, cs, hcs⟩ := List.exists_cons_of_ne_nil (Nat.toDigits_ne_nil (b := 10) (n := n))
    have hdigit : c.isDigit = true :=
      Nat.isDigit_of_mem_toDigits (b := 10) (n := n) (by decide) (by decide) (by simp [hcs])
    have hblanks : blanks (' ' :: c :: cs) = c :: cs := by
      rw [blanks, List.dropWhile_cons_of_pos (by decide)]
      exact blanks_of_head (not_blank_of_digit hdigit)
    rw [hcs, labelSet, hblanks]
    split
    · rename_i heq
      cases heq
      cases hdigit
    · rfl
  have htokens : ((Nat.toDigits 10 n).splitOnP blank).filter (· ≠ []) = [Nat.toDigits 10 n] := by
    rw [splitOnP_toDigits]
    simp [Nat.toDigits_ne_nil]
  rw [sample, word_append hname (by decide)]
  simp only [Option.bind_eq_bind, Option.bind_some, hset, List.map_nil, List.nodup_nil, if_true, htokens,
    number_toDigits, Option.map_map, String.ofList_toList]
  rfl

/-- There are fewer texts than characters, the commas counted. -/
theorem length_intercalate (texts : List (List Char)) : texts.length ≤ ([','].intercalate texts).length + 1 := by
  induction texts with
  | nil => exact Nat.zero_le _
  | cons text texts ih =>
    cases texts with
    | nil => simp
    | cons next texts =>
      rw [List.intercalate_cons_cons, List.length_cons, List.length_append, List.length_append, List.length_singleton]
      omega

/-- The texts up to the one that is followed no further. -/
theorem intercalate_append_cons (texts more : List (List Char)) (text : List Char) : ∃ tail,
    [','].intercalate (texts ++ text :: more) = texts.flatMap (· ++ [',']) ++ (text ++ tail) := by
  induction texts with
  | nil =>
    cases more with
    | nil => exact ⟨[], by simp⟩
    | cons next more => exact ⟨',' :: [','].intercalate (next :: more), by simp [List.intercalate_cons_cons]⟩
  | cons first texts ih =>
    obtain ⟨tail, htail⟩ := ih
    refine ⟨tail, ?_⟩
    rw [List.cons_append, List.intercalate_cons_of_ne_nil (by simp), htail, List.flatMap_cons]
    simp

theorem newline_not_mem_intercalate (h : List.Forall₂ Writes texts labels) :
    '\n' ∉ [','].intercalate texts := by
  induction h with
  | nil => exact List.not_mem_nil
  | cons hwrites htail ih =>
    have hnot := hwrites.newline_not_mem
    cases htail with
    | nil => simpa using hnot
    | cons _ _ => simp [List.intercalate_cons_cons, hnot, ih]

theorem newline_not_mem_flatMap (h : List.Forall₂ Writes texts labels) :
    '\n' ∉ texts.flatMap (· ++ [',']) := by
  induction h with
  | nil => exact List.not_mem_nil
  | cons hwrites _ ih =>
    have hnot := hwrites.newline_not_mem
    rw [List.flatMap_cons]
    simp [hnot, ih]

/-- A sample with labels. -/
theorem sample_labelled (hname : IsWord nameStart nameChar name.toList) (h : List.Forall₂ Writes texts labels)
    (hne : labels ≠ []) (hnodup : (labels.map Prod.fst).Nodup) :
    sample (name.toList ++ '{' :: ([','].intercalate texts ++ '}' :: ' ' :: Nat.toDigits 10 n)) =
      (Float64.round n).map fun v => ⟨name, labels, .finite v, none⟩ := by
  have hset : labelSet ('{' :: ([','].intercalate texts ++ '}' :: ' ' :: Nat.toDigits 10 n)) =
      some (labels, ' ' :: Nat.toDigits 10 n) := by
    rw [labelSet, blanks_of_head (by decide)]
    refine pairs_joined h hne ?_
    have hlength := length_intercalate texts
    rw [h.length_eq] at hlength
    simp only [List.length_append, List.length_cons]
    omega
  have htokens : ((' ' :: Nat.toDigits 10 n).splitOnP blank).filter (· ≠ []) = [Nat.toDigits 10 n] := by
    rw [List.splitOnP_cons_eq_if_modifyHead, if_pos (by decide), splitOnP_toDigits]
    simp [Nat.toDigits_ne_nil]
  rw [sample, word_append hname (by decide)]
  simp only [Option.bind_eq_bind, Option.bind_some, hset, if_pos hnodup, htokens, number_toDigits, Option.map_map,
    String.ofList_toList]
  rfl

/-- A line that ends within a label. -/
theorem sample_opens (hname : IsWord nameStart nameChar name.toList) (h : ∀ fuel, pairs fuel pre = none) :
    sample (name.toList ++ '{' :: pre) = none := by
  rw [sample, word_append hname (by decide)]
  simp only [Option.bind_eq_bind, Option.bind_some, labelSet, blanks_of_head (c := '{') (by decide), h,
    Option.bind_none]

/-- A line that starts with a name holds a sample. -/
theorem entry_sample (hname : IsWord nameStart nameChar name.toList) :
    entry (name.toList ++ pre) = (sample (name.toList ++ pre)).map some := by
  cases hlist : name.toList with
  | nil => rw [hlist] at hname; exact hname.elim
  | cons c cs =>
    rw [hlist] at hname
    rw [List.cons_append, entry, blanks_of_head (not_blank_of_start hname.1)]
    split
    · rename_i heq
      cases heq
    · rename_i heq
      cases heq
      exact absurd hname.1 (by decide)
    · rfl

/-- The first line is read on its own. -/
theorem parse_line {line rest : List Char} (h : '\n' ∉ line) : parse (line ++ '\n' :: rest) = (do
    let found ← entry line
    let more ← parse rest
    return found.toList ++ more) := by
  have hlines : (line ++ '\n' :: rest).splitOn '\n' = line :: rest.splitOn '\n' :=
    List.splitOn_append_cons_self_of_not_mem h _
  obtain ⟨l, ls, hrest⟩ := List.exists_cons_of_ne_nil (List.splitOn_ne_nil '\n' rest)
  simp only [parse, hlines, hrest, List.getLast?_cons_cons, List.dropLast_cons_cons, List.mapM_cons]
  split
  · cases entry line with
    | none => rfl
    | some found =>
      cases (l :: ls).dropLast.mapM entry with
      | none => rfl
      | some more => cases found <;> rfl
  · cases entry line <;> rfl

end Samples

end EnterpriseCopilot.Lib.Exposition
