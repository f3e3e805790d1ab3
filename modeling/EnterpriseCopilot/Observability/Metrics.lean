import Mathlib.Algebra.Order.Ring.Int
import Mathlib.Data.List.Lex
import Mathlib.Data.List.Sort
import Mathlib.Data.Prod.Lex
import Mathlib.Data.String.Basic
import EnterpriseCopilot.Lib.Exposition
import EnterpriseCopilot.Lib.Lockstep
import EnterpriseCopilot.Python.Basic

/-! Counters with labels, and the text in which they are read. -/

namespace EnterpriseCopilot.Observability

open EnterpriseCopilot.Lib EnterpriseCopilot.Python

/-- `^[a-zA-Z_:][a-zA-Z0-9_:]*$`. -/
def _SAFE_NAME (name : String) : Bool :=
  match name.toList with
  | [] => false
  | c :: cs => (c.isAlpha || c = '_' || c = ':') && cs.all fun c => c.isAlpha || c = '_' || c = ':' || c.isDigit

/-- `^[a-zA-Z_][a-zA-Z0-9_]*$`. -/
def _SAFE_LABEL (key : String) : Bool :=
  match key.toList with
  | [] => false
  | c :: cs => (c.isAlpha || c = '_') && cs.all fun c => c.isAlpha || c = '_' || c.isDigit

/-- The items of a mapping: no key comes twice. -/
structure Mapping where
  items : List (String × String)
  nodup : (items.map Prod.fst).Nodup

abbrev MetricKey := String × List (String × String)

/-- Tuples are compared from their first place on. -/
def label_le (a b : String × String) : Prop := toLex a ≤ toLex b

instance : DecidableRel label_le := fun a b => inferInstanceAs (Decidable (toLex a ≤ toLex b))

instance : Std.Total label_le := ⟨fun a b => le_total (toLex a) (toLex b)⟩

instance : IsTrans (String × String) label_le := ⟨fun _ _ _ => le_trans⟩

instance : Std.Antisymm label_le := ⟨fun _ _ h h' => toLex.injective (le_antisymm h h')⟩

def key_le (a b : MetricKey) : Prop := toLex (a.1, a.2.map toLex) ≤ toLex (b.1, b.2.map toLex)

instance : DecidableRel key_le :=
  fun a b => inferInstanceAs (Decidable (toLex (a.1, a.2.map toLex) ≤ toLex (b.1, b.2.map toLex)))

/-- `text.replace(old, new)`. -/
def replace (old : Char) (new text : List Char) : List Char := text.flatMap fun c => if c = old then new else [c]

/-- `str` of an integer. -/
def str (value : Int) : Except PyError (List Char) :=
  let digits := Nat.toDigits 10 value.natAbs
  if 4300 < digits.length then
    throw (.valueError ("Exceeds the limit (4300 digits) for integer string conversion; " ++
      "use sys.set_int_max_str_digits() to increase the limit"))
  else return if value < 0 then '-' :: digits else digits

/-- The counters, in the order of their first increments. -/
structure MetricsRegistry where
  _counters : List (MetricKey × Int)

namespace MetricsRegistry

def init : MetricsRegistry := ⟨[]⟩

/-- `labels or {}`, one item after the other. -/
def normalized (items : List (String × String)) : Except PyError (List (String × String)) :=
  items.mapM fun item =>
    if !_SAFE_LABEL item.1 || 100 < item.2.length then throw (.valueError "metric label is invalid") else return item

/-- `counters[key] = counters.get(key, 0) + value`. -/
def add (key : MetricKey) (value : Int) : List (MetricKey × Int) → List (MetricKey × Int)
  | [] => [(key, 0 + value)]
  | counter :: counters =>
    if counter.1 = key then (key, counter.2 + value) :: counters else counter :: add key value counters

def increment (r : MetricsRegistry) (name : String) (labels : Option Mapping) (value : Int) :
    Except PyError MetricsRegistry := do
  if !_SAFE_NAME name || value < 1 then throw (.valueError "metric name and value are invalid")
  let normalized ← normalized ((labels.map Mapping.items).getD [])
  return ⟨add (name, normalized.insertionSort label_le) value r._counters⟩

def snapshot (r : MetricsRegistry) : List (MetricKey × Int) := r._counters

/-- The value of a label, with its backslashes and then its quotes escaped. -/
def escaped (value : String) : List Char := replace '"' ['\\', '"'] (replace '\\' ['\\', '\\'] value.toList)

def rendered_label (label : String × String) : List Char :=
  label.1.toList ++ '=' :: '"' :: escaped label.2 ++ ['"']

def rendered_labels (labels : List (String × String)) : List Char := [','].intercalate (labels.map rendered_label)

def line (counter : MetricKey × Int) : Except PyError (List Char) := do
  let rendered_labels := rendered_labels counter.1.2
  let value ← str counter.2
  return counter.1.1.toList ++
    if rendered_labels ≠ [] then '{' :: (rendered_labels ++ '}' :: ' ' :: value) else ' ' :: value

def prometheus (r : MetricsRegistry) : Except PyError (List Char) := do
  let lines ← (r.snapshot.insertionSort fun a b => key_le a.1 b.1).mapM line
  return ['\n'].intercalate lines ++ if lines ≠ [] then ['\n'] else []

/-- The states that calls lead to. -/
inductive Reachable : MetricsRegistry → Prop
  | init : Reachable init
  | increment {r r' name labels value} : Reachable r → r.increment name labels value = .ok r' → Reachable r'

/-- A counter as the calls leave it. -/
structure Good (counter : MetricKey × Int) : Prop where
  name : Exposition.IsWord Exposition.nameStart Exposition.nameChar counter.1.1.toList
  label : ∀ l ∈ counter.1.2, Exposition.IsWord Exposition.labelStart Exposition.labelChar l.1.toList
  nodup : (counter.1.2.map Prod.fst).Nodup
  sorted : counter.1.2.Pairwise label_le
  positive : 1 ≤ counter.2

structure Inv (r : MetricsRegistry) : Prop where
  good : ∀ counter ∈ r._counters, Good counter
  nodup : (r._counters.map Prod.fst).Nodup

section Increment

variable {r r' : MetricsRegistry} {name : String} {labels : Option Mapping} {value : Int} {key : MetricKey}
  {counter : MetricKey × Int} {counters : List (MetricKey × Int)}

theorem isWord_of_safe_name (h : _SAFE_NAME name = true) :
    Exposition.IsWord Exposition.nameStart Exposition.nameChar name.toList := by
  unfold _SAFE_NAME at h
  split at h
  · cases h
  · rename_i hlist
    rw [hlist]
    simpa [Exposition.IsWord, Exposition.nameStart, Exposition.nameChar, Exposition.labelStart, or_assoc] using h

theorem isWord_of_safe_label (h : _SAFE_LABEL name = true) :
    Exposition.IsWord Exposition.labelStart Exposition.labelChar name.toList := by
  unfold _SAFE_LABEL at h
  split at h
  · cases h
  · rename_i hlist
    rw [hlist]
    simpa [Exposition.IsWord, Exposition.labelStart, Exposition.labelChar, or_assoc] using h

theorem normalized_ok {items found : List (String × String)} (h : normalized items = .ok found) :
    found = items ∧ ∀ l ∈ items, _SAFE_LABEL l.1 = true := by
  have heach : ∀ {item kept : String × String}, (if !_SAFE_LABEL item.1 || 100 < item.2.length then
      throw (.valueError "metric label is invalid") else return item : Except PyError (String × String)) = .ok kept →
      kept = item ∧ _SAFE_LABEL item.1 = true := by
    intro item kept hitem
    split at hitem
    · cases hitem
    · rename_i hsafe
      cases hitem
      simp only [Bool.or_eq_true, Bool.not_eq_true', decide_eq_true_eq, not_or, Bool.not_eq_false] at hsafe
      exact ⟨rfl, hsafe.1⟩
  have hall := mapM_ok.mp h
  constructor
  · exact (List.forall₂_eq_eq_eq ▸ hall.imp fun _ _ hitem => (heach hitem).1.symm).symm
  · intro l hl
    obtain ⟨kept, -, hkept⟩ := forall₂_mem hall hl
    exact (heach hkept).2

theorem mem_add (h : counter ∈ add key value counters) :
    counter ∈ counters ∨ counter = (key, value) ∨ ∃ old ∈ counters, counter = (key, old.2 + value) := by
  induction counters with
  | nil => exact .inr (.inl (by simpa [add] using h))
  | cons first counters ih =>
    rw [add] at h
    split at h
    · rcases List.mem_cons.mp h with rfl | h
      · exact .inr (.inr ⟨first, .head _, rfl⟩)
      · exact .inl (.tail _ h)
    · rcases List.mem_cons.mp h with rfl | h
      · exact .inl (.head _)
      · obtain h | h | ⟨old, hold, h⟩ := ih h
        · exact .inl (.tail _ h)
        · exact .inr (.inl h)
        · exact .inr (.inr ⟨old, .tail _ hold, h⟩)

theorem keys_add : (add key value counters).map Prod.fst =
    if key ∈ counters.map Prod.fst then counters.map Prod.fst else counters.map Prod.fst ++ [key] := by
  induction counters with
  | nil => rfl
  | cons first counters ih =>
    by_cases hfirst : first.1 = key
    · simp [add, hfirst]
    · rw [add, if_neg hfirst, List.map_cons, ih]
      simp only [List.map_cons, List.mem_cons, Ne.symm hfirst, false_or, List.cons_append]
      split <;> rfl

theorem nodup_add (h : (counters.map Prod.fst).Nodup) : ((add key value counters).map Prod.fst).Nodup := by
  rw [keys_add]
  split
  · exact h
  · rename_i hnew
    refine List.nodup_append.mpr ⟨h, List.nodup_singleton _, fun k hk k' hk' heq => hnew ?_⟩
    rwa [← List.mem_singleton.mp hk', ← heq]

theorem inv_init : Inv init where
  good counter h := by cases h
  nodup := List.nodup_nil

/-- What a call leaves. -/
theorem inv_increment (h : Inv r) (hcall : r.increment name labels value = .ok r') : Inv r' := by
  unfold increment at hcall
  split at hcall
  · cases hcall
  rename_i hsafe
  simp only [Bool.or_eq_true, Bool.not_eq_true', decide_eq_true_eq, not_or, Bool.not_eq_false, not_lt] at hsafe
  obtain ⟨found, hfound, hcall⟩ := bind_ok hcall
  cases hcall
  obtain ⟨rfl, hlabels⟩ := normalized_ok hfound
  have hperm := List.perm_insertionSort label_le ((labels.map Mapping.items).getD [])
  have hitems : (((labels.map Mapping.items).getD []).map Prod.fst).Nodup := by
    cases labels with
    | none => exact List.nodup_nil
    | some labels => exact labels.nodup
  have hkey : ∀ total, 1 ≤ total → Good ((name, ((labels.map Mapping.items).getD []).insertionSort label_le), total) :=
    fun total htotal =>
      { name := isWord_of_safe_name hsafe.1
        label := fun l hl => isWord_of_safe_label (hlabels l (hperm.mem_iff.mp hl))
        nodup := (hperm.map Prod.fst).nodup_iff.mpr hitems
        sorted := List.pairwise_insertionSort _ _
        positive := htotal }
  refine ⟨fun counter hcounter => ?_, nodup_add h.nodup⟩
  obtain hcounter | rfl | ⟨old, hold, rfl⟩ := mem_add hcounter
  · exact h.good counter hcounter
  · exact hkey value hsafe.2
  · have hpositive := (h.good old hold).positive
    exact hkey _ (by omega)

theorem Reachable.inv (h : Reachable r) : Inv r := by
  induction h with
  | init => exact inv_init
  | increment _ hcall ih => exact inv_increment ih hcall

end Increment

/-- The counter as a sample. -/
def sample (counter : MetricKey × Int) : Exposition.Sample :=
  ⟨counter.1.1, counter.1.2, .finite counter.2, none⟩

/-- What is read of the counter: its value is rounded. -/
def read (counter : MetricKey × Int) : Option Exposition.Sample :=
  (Float64.round counter.2).map fun v => ⟨counter.1.1, counter.1.2, .finite v, none⟩

/-- Whoever reads the text finds the counters, each once. -/
def Faithful (r : MetricsRegistry) : Prop :=
  ∃ text samples, r.prometheus = .ok text ∧ Exposition.parse text = some samples ∧
    samples.Perm (r.snapshot.map sample) ∧
      samples.Pairwise fun a b => a.name = b.name → ¬ a.labels.Perm b.labels

/-- A counter that is a double, with values of one line. -/
def Plain (counter : MetricKey × Int) : Prop :=
  (∀ l ∈ counter.1.2, '\n' ∉ l.2.toList) ∧ Float64.Exact counter.2

section Escape

variable {cs ds : List Char} {l : String × String}

/-- Both replacements, in their order. -/
def escape (cs : List Char) : List Char := replace '"' ['\\', '"'] (replace '\\' ['\\', '\\'] cs)

theorem escape_cons (c : Char) (cs : List Char) : escape (c :: cs) =
    (if c = '\\' then ['\\', '\\'] else if c = '"' then ['\\', '"'] else [c]) ++ escape cs := by
  unfold escape replace
  by_cases hback : c = '\\'
  · simp [hback]
  · by_cases hquote : c = '"'
    · simp [hquote]
    · simp [hback, hquote]

theorem escape_append (cs ds : List Char) : escape (cs ++ ds) = escape cs ++ escape ds := by
  simp [escape, replace]

/-- On one line the two replacements are all that is needed. -/
theorem spells_escape (h : '\n' ∉ cs) : Exposition.Spells (escape cs) cs := by
  induction cs with
  | nil => exact .nil
  | cons c cs ih =>
    rw [List.mem_cons, not_or] at h
    rw [escape_cons]
    split
    · rename_i hback
      subst hback
      exact .backslash (ih h.2)
    · split
      · rename_i hquote
        subst hquote
        exact .quote (ih h.2)
      · rename_i hback hquote
        exact .plain hback hquote (Ne.symm h.1) (ih h.2)

theorem writes_label (hword : Exposition.IsWord Exposition.labelStart Exposition.labelChar l.1.toList)
    (h : '\n' ∉ l.2.toList) : Exposition.Writes (rendered_label l) l :=
  ⟨_, ⟨_, hword, spells_escape h, rfl⟩, by simp [rendered_label, escaped, escape]⟩

/-- A value of several lines leaves the label open where the first of them ends. -/
theorem opens_label (hword : Exposition.IsWord Exposition.labelStart Exposition.labelChar l.1.toList)
    (h : '\n' ∈ l.2.toList) : ∃ start l' tail, Exposition.Opens start l' ∧
      rendered_label l = start ++ '\n' :: tail := by
  obtain ⟨first, more, hvalue, hfirst⟩ := List.eq_append_cons_of_mem h
  refine ⟨l.1.toList ++ '=' :: '"' :: escape first, (l.1, String.ofList first), escape more ++ ['"'],
    ⟨escape first, hword, ?_, rfl⟩, ?_⟩
  · rw [String.toList_ofList]
    exact spells_escape hfirst
  · have hescaped : escaped l.2 = escape first ++ '\n' :: escape more := by
      change escape l.2.toList = _
      rw [hvalue, escape_append, escape_cons]
      rfl
    simp [rendered_label, hescaped]

end Escape

section Lines

variable {r : MetricsRegistry} {text : List Char} {lines : List (List Char)} {value : Int}
  {counter : MetricKey × Int} {counters : List (MetricKey × Int)} {labels : List (String × String)}

/-- A value that is not refused, with its sign. -/
def shown (value : Int) : List Char :=
  if value < 0 then '-' :: Nat.toDigits 10 value.natAbs else Nat.toDigits 10 value.natAbs

theorem str_ok : str value = .ok text ↔ value.natAbs < 10 ^ 4300 ∧ shown value = text := by
  rw [← Nat.length_toDigits_le_iff (b := 10) (by decide) (by decide), ← not_lt]
  unfold str shown
  dsimp only
  split
  · rename_i hlong
    simp [hlong]
  · rename_i hshort
    exact ⟨fun h => ⟨hshort, Except.ok.inj h⟩, fun h => congrArg Except.ok h.2⟩

/-- The line of a counter that is not refused. -/
def written (counter : MetricKey × Int) : List Char :=
  counter.1.1.toList ++ if rendered_labels counter.1.2 ≠ [] then
    '{' :: (rendered_labels counter.1.2 ++ '}' :: ' ' :: shown counter.2) else ' ' :: shown counter.2

theorem line_ok : line counter = .ok text ↔ counter.2.natAbs < 10 ^ 4300 ∧ written counter = text := by
  unfold line written
  constructor
  · intro h
    obtain ⟨value, hvalue, h⟩ := bind_ok h
    obtain ⟨hsmall, rfl⟩ := str_ok.mp hvalue
    cases h
    exact ⟨hsmall, rfl⟩
  · rintro ⟨hsmall, rfl⟩
    dsimp only
    rw [str_ok.mpr ⟨hsmall, rfl⟩]
    rfl

theorem lines_ok : counters.mapM line = .ok lines ↔
    (∀ counter ∈ counters, counter.2.natAbs < 10 ^ 4300) ∧ counters.map written = lines := by
  simp only [mapM_ok, line_ok, List.forall₂_and_left]
  rw [← List.forall₂_map_left_iff (R := Eq), List.forall₂_eq_eq_eq]

/-- Every line is ended. -/
theorem join_lines (lines : List (List Char)) :
    ['\n'].intercalate lines ++ (if lines ≠ [] then ['\n'] else []) = lines.flatMap (· ++ ['\n']) := by
  induction lines with
  | nil => rfl
  | cons line lines ih =>
    cases lines with
    | nil => simp
    | cons next lines => simpa [List.intercalate_cons_cons] using ih

/-- The counters in the order of their lines. -/
def inOrder (r : MetricsRegistry) : List (MetricKey × Int) := r.snapshot.insertionSort fun a b => key_le a.1 b.1

theorem prometheus_ok : r.prometheus = .ok text ↔ (∀ counter ∈ r.inOrder, counter.2.natAbs < 10 ^ 4300) ∧
    r.inOrder.flatMap (fun counter => written counter ++ ['\n']) = text := by
  unfold prometheus
  constructor
  · intro h
    obtain ⟨lines, hlines, h⟩ := bind_ok h
    obtain ⟨hsmall, rfl⟩ := lines_ok.mp hlines
    cases h
    rw [join_lines, List.flatMap_map]
    exact ⟨hsmall, rfl⟩
  · rintro ⟨hsmall, rfl⟩
    rw [show (r.snapshot.insertionSort fun a b => key_le a.1 b.1).mapM line = _ from lines_ok.mpr ⟨hsmall, rfl⟩, ok_bind,
      join_lines, List.flatMap_map]
    rfl

theorem rendered_label_ne_nil (l : String × String) : rendered_label l ≠ [] := by simp [rendered_label]

theorem rendered_labels_eq_nil : rendered_labels labels = [] ↔ labels = [] := by
  cases labels with
  | nil => simp [rendered_labels]
  | cons l labels =>
    cases labels with
    | nil => simp [rendered_labels, rendered_label_ne_nil]
    | cons l' labels => simp [rendered_labels, List.intercalate_cons_cons]

theorem shown_of_positive (h : 1 ≤ value) : shown value = Nat.toDigits 10 value.natAbs := if_neg (by omega)

theorem newline_not_mem_shown (h : 1 ≤ value) : '\n' ∉ shown value := by
  rw [shown_of_positive h]
  exact fun hmem => absurd (Nat.isDigit_of_mem_toDigits (by decide) (by decide) hmem) (by decide)

theorem newline_not_mem_name (h : Good counter) : '\n' ∉ counter.1.1.toList :=
  h.name.not_mem (by decide) (by decide)

theorem forall₂_writes (h : ∀ l ∈ labels, Exposition.IsWord Exposition.labelStart Exposition.labelChar l.1.toList)
    (hplain : ∀ l ∈ labels, '\n' ∉ l.2.toList) :
    List.Forall₂ Exposition.Writes (labels.map rendered_label) labels := by
  induction labels with
  | nil => exact .nil
  | cons l labels ih =>
    obtain ⟨hl, hlabels⟩ := List.forall_mem_cons.mp h
    obtain ⟨hline, hlines⟩ := List.forall_mem_cons.mp hplain
    exact .cons (writes_label hl hline) (ih hlabels hlines)

/-- A line of values of one line each is read as its counter. -/
theorem entry_written (h : Good counter) (hplain : ∀ l ∈ counter.1.2, '\n' ∉ l.2.toList) :
    '\n' ∉ written counter ∧ Exposition.entry (written counter) = (read counter).map some := by
  have hname := newline_not_mem_name h
  have hvalue := newline_not_mem_shown h.positive
  have hnumber : ((counter.2.natAbs : Nat) : Rat) = counter.2 := by
    rw [← Int.cast_natCast, Int.natAbs_of_nonneg (Int.le_trans (by decide) h.positive)]
  unfold written
  rw [Exposition.entry_sample h.name]
  by_cases hlabels : counter.1.2 = []
  · rw [if_neg (by simp [rendered_labels_eq_nil, hlabels])]
    refine ⟨by simp [hname, hvalue], ?_⟩
    rw [shown_of_positive h.positive, Exposition.sample_bare h.name, read, hlabels, hnumber]
  · have hwrites := forall₂_writes h.label hplain
    have hrendered := Exposition.newline_not_mem_intercalate hwrites
    rw [if_pos (by simp [rendered_labels_eq_nil, hlabels])]
    refine ⟨by simp [hname, hvalue, rendered_labels, hrendered], ?_⟩
    rw [shown_of_positive h.positive, rendered_labels, Exposition.sample_labelled h.name hwrites hlabels h.nodup,
      read, hnumber]

/-- A line with a value of several lines is cut within its label. -/
theorem entry_cut (h : Good counter) (hbad : ∃ l ∈ counter.1.2, '\n' ∈ l.2.toList) :
    ∃ pre tail, written counter = pre ++ '\n' :: tail ∧ '\n' ∉ pre ∧ Exposition.entry pre = none := by
  obtain ⟨l, hfirst⟩ : ∃ l, counter.1.2.find? (fun l => '\n' ∈ l.2.toList) = some l := by
    rw [← Option.isSome_iff_exists, List.find?_isSome]
    simpa using hbad
  obtain ⟨hline, good, more, hlabels, hgood⟩ := List.find?_eq_some_iff_append.mp hfirst
  have hword := h.label
  rw [hlabels] at hword
  have hwrites : List.Forall₂ Exposition.Writes (good.map rendered_label) good :=
    forall₂_writes (fun l hl => hword l (by simp [hl])) fun l hl => by simpa using hgood l hl
  obtain ⟨start, l', tail, hopens, hstart⟩ := opens_label (hword l (by simp)) (by simpa using hline)
  obtain ⟨rest, hrest⟩ := Exposition.intercalate_append_cons (good.map rendered_label) (more.map rendered_label)
    (rendered_label l)
  have hrendered : rendered_labels counter.1.2 =
      (good.map rendered_label).flatMap (· ++ [',']) ++ (start ++ '\n' :: tail ++ rest) := by
    rw [rendered_labels, hlabels, List.map_append, List.map_cons, hrest, hstart]
  have hne : rendered_labels counter.1.2 ≠ [] := by simp [hrendered]
  refine ⟨counter.1.1.toList ++ '{' :: ((good.map rendered_label).flatMap (· ++ [',']) ++ start),
    tail ++ rest ++ '}' :: ' ' :: shown counter.2, ?_, ?_, ?_⟩
  · rw [written, if_pos hne, hrendered]
    simp
  · have hname := newline_not_mem_name h
    have hcut := hopens.newline_not_mem
    have htexts := Exposition.newline_not_mem_flatMap hwrites
    simp only [List.mem_append, List.mem_cons, hname, htexts, hcut, or_false, false_or]
    decide
  · rw [Exposition.entry_sample h.name, Exposition.sample_opens h.name fun fuel => Exposition.pairs_opens hwrites hopens,
      Option.map_none]

/-- The lines of counters with values of one line each are read one by one. -/
theorem parse_plain (hgood : ∀ counter ∈ counters, Good counter)
    (hplain : ∀ counter ∈ counters, ∀ l ∈ counter.1.2, '\n' ∉ l.2.toList) :
    Exposition.parse (counters.flatMap fun counter => written counter ++ ['\n']) = counters.mapM read := by
  induction counters with
  | nil => rfl
  | cons counter counters ih =>
    obtain ⟨hhere, hrest⟩ := List.forall_mem_cons.mp hgood
    obtain ⟨hline, hlines⟩ := List.forall_mem_cons.mp hplain
    obtain ⟨hnot, hentry⟩ := entry_written hhere hline
    rw [List.flatMap_cons, List.append_assoc, List.singleton_append, Exposition.parse_line hnot, hentry, ih hrest hlines,
      List.mapM_cons]
    cases read counter <;> rfl

theorem read_eq_sample : read counter = some (sample counter) ↔ Float64.Exact counter.2 := by
  rw [← Float64.round_eq_self, read, sample]
  cases Float64.round counter.2 <;> simp

theorem mapM_read (h : ∀ counter ∈ counters, Float64.Exact counter.2) :
    counters.mapM read = some (counters.map sample) := by
  induction counters with
  | nil => rfl
  | cons counter counters ih =>
    obtain ⟨hhere, hrest⟩ := List.forall_mem_cons.mp h
    rw [List.mapM_cons, read_eq_sample.mpr hhere, ih hrest]
    rfl

theorem read_of_mapM {samples : List Exposition.Sample} (h : counters.mapM read = some samples)
    (hcounter : counter ∈ counters) : ∃ s ∈ samples, read counter = some s := by
  induction counters generalizing samples with
  | nil => cases hcounter
  | cons first counters ih =>
    simp only [List.mapM_cons, Option.bind_eq_bind, Option.bind_eq_some_iff, Option.pure_def,
      Option.some.injEq] at h
    obtain ⟨s, hs, rest, hrest, rfl⟩ := h
    rcases List.mem_cons.mp hcounter with rfl | hcounter
    · exact ⟨s, .head _, hs⟩
    · obtain ⟨s', hmem, hread⟩ := ih hrest hcounter
      exact ⟨s', .tail _ hmem, hread⟩

/-- One value of several lines is enough for the text not to be read. -/
theorem parse_cut (hgood : ∀ counter ∈ counters, Good counter)
    (hbad : ∃ counter ∈ counters, ∃ l ∈ counter.1.2, '\n' ∈ l.2.toList) :
    Exposition.parse (counters.flatMap fun counter => written counter ++ ['\n']) = none := by
  induction counters with
  | nil => simp at hbad
  | cons counter counters ih =>
    obtain ⟨hhere, hrest⟩ := List.forall_mem_cons.mp hgood
    rw [List.flatMap_cons, List.append_assoc, List.singleton_append]
    by_cases hline : ∃ l ∈ counter.1.2, '\n' ∈ l.2.toList
    · obtain ⟨pre, tail, hcut, hnot, hentry⟩ := entry_cut hhere hline
      rw [hcut, List.append_assoc, List.cons_append, Exposition.parse_line hnot, hentry]
      rfl
    · obtain ⟨hnot, hentry⟩ := entry_written hhere (by simpa using hline)
      have hlater : ∃ counter ∈ counters, ∃ l ∈ counter.1.2, '\n' ∈ l.2.toList := by
        obtain ⟨other, hmem, hother⟩ := hbad
        rcases List.mem_cons.mp hmem with rfl | hmem
        · exact absurd hother hline
        · exact ⟨other, hmem, hother⟩
      rw [Exposition.parse_line hnot, hentry, ih hrest hlater]
      cases read counter <;> rfl

end Lines

section Exposition

variable {r : MetricsRegistry}

theorem perm_inOrder (r : MetricsRegistry) : r.inOrder.Perm r.snapshot := List.perm_insertionSort _ _

/-- No two counters show the same labels. -/
theorem distinct_inOrder (h : Inv r) : (r.inOrder.map sample).Pairwise fun a b =>
    a.name = b.name → ¬ a.labels.Perm b.labels := by
  have hnodup : (r.inOrder.map Prod.fst).Nodup := ((perm_inOrder r).map Prod.fst).nodup_iff.mpr h.nodup
  rw [List.Nodup, List.pairwise_map] at hnodup
  rw [List.pairwise_map]
  refine hnodup.imp_of_mem fun {a b} ha hb hne hname hlabels => hne (Prod.ext hname ?_)
  have hsorted := fun {c} (hc : c ∈ r.inOrder) => (h.good c ((perm_inOrder r).mem_iff.mp hc)).sorted
  exact hlabels.eq_of_pairwise' (hsorted ha) (hsorted hb)

/-- A double has fewer digits than `str` refuses to write. -/
theorem natAbs_lt_pow {value : Int} (h : Float64.Exact value) : value.natAbs < 10 ^ 4300 := by
  have hrat : ((value.natAbs : Nat) : Rat) < 2 ^ 1024 := by
    rw [Nat.cast_natAbs, Int.cast_abs]
    exact h.bounded
  have hnat : value.natAbs < 2 ^ 1024 := by exact_mod_cast hrat
  have hpow : ∀ m n : Nat, m ≤ n → 2 ^ m ≤ 10 ^ n := fun m n h =>
    (Nat.pow_le_pow_right (by decide) h).trans (Nat.pow_le_pow_left (by decide) n)
  exact hnat.trans_le (hpow 1024 4300 (by decide))

/-- Where the text gives the counters back, each is read as it is. -/
theorem exact_of_perm (h : Inv r) {samples : List Exposition.Sample} (hread : r.inOrder.mapM read = some samples)
    (hperm : samples.Perm (r.snapshot.map sample)) {counter : MetricKey × Int} (hcounter : counter ∈ r.snapshot) :
    Float64.Exact counter.2 := by
  obtain ⟨s, hs, hcounter'⟩ := read_of_mapM hread ((perm_inOrder r).mem_iff.mpr hcounter)
  obtain ⟨other, hother, rfl⟩ := List.mem_map.mp (hperm.mem_iff.mp hs)
  -- the sample has the key of the counter, which no other counter has
  have hkey : other.1 = counter.1 := by
    obtain ⟨v, -, hv⟩ := Option.map_eq_some_iff.mp hcounter'
    simp only [sample, Exposition.Sample.mk.injEq] at hv
    exact (Prod.ext hv.1 hv.2.1).symm
  obtain rfl := List.inj_on_of_nodup_map h.nodup hother hcounter hkey
  exact read_eq_sample.mp hcounter'

/-- A value of several lines makes the text one that cannot be read. -/
theorem not_faithful (h : Inv r) (hbad : ∃ counter ∈ r.snapshot, ∃ l ∈ counter.1.2, '\n' ∈ l.2.toList) :
    ¬ Faithful r := by
  rintro ⟨text, samples, htext, hparse, -, -⟩
  obtain ⟨-, rfl⟩ := prometheus_ok.mp htext
  obtain ⟨counter, hcounter, hline⟩ := hbad
  have hgood : ∀ counter ∈ r.inOrder, Good counter := fun c hc => h.good c ((perm_inOrder r).mem_iff.mp hc)
  cases (parse_cut hgood ⟨counter, (perm_inOrder r).mem_iff.mpr hcounter, hline⟩).symm.trans hparse

def oneLabel (key value : String) : Mapping := ⟨[(key, value)], List.nodup_singleton _⟩

theorem reachable_one (value : String) (h : value.length ≤ 100) :
    Reachable ⟨[(("hits", [("page", value)]), 1)]⟩ := by
  have hlabel : normalized [("page", value)] = .ok [("page", value)] := by
    have hkey : _SAFE_LABEL "page" = true := by decide +kernel
    exact mapM_ok.mpr (.cons (if_neg (by simpa [hkey] using h)) .nil)
  have hname : _SAFE_NAME "hits" = true := by decide +kernel
  have hcall : init.increment "hits" (some (oneLabel "page" value)) 1 = .ok ⟨[(("hits", [("page", value)]), 1)]⟩ := by
    unfold increment
    rw [if_neg (by simp [hname])]
    change normalized [("page", value)] >>= _ = _
    rw [hlabel]
    rfl
  exact .increment .init hcall

end Exposition

end MetricsRegistry

end EnterpriseCopilot.Observability
