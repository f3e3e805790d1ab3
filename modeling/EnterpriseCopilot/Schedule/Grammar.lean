import EnterpriseCopilot.Python.Numeral
import EnterpriseCopilot.Schedule.Fields

/-! The language of the fields of a cron expression, and what the parser makes of it. -/

namespace EnterpriseCopilot.Schedule

open EnterpriseCopilot.Lib EnterpriseCopilot.Python

namespace CronExpression

/-- The values from `start` to `stop` that are whole steps from the start. -/
structure Reading where
  start : Int
  stop : Int
  step : Int

def Reading.Names (r : Reading) (v : Int) : Prop := ∃ k : Nat, v = r.start + k * r.step ∧ v ≤ r.stop

section Grammar

variable (minimum maximum : Int)

/-- `*`, `n` or `a-b`. -/
inductive Base : List Char → Int → Int → Prop
  | star : Base ['*'] minimum maximum
  | single {text : List Char} {n : Nat} : Numeral text n → Base text n n
  | range {first last : List Char} {a b : Nat} : Numeral first a → Numeral last b → Base (first ++ '-' :: last) a b

/-- A base within the limits, and a step where there is one. -/
inductive Item : List Char → Reading → Prop
  | plain {base : List Char} {a b : Int} : Base minimum maximum base a b → minimum ≤ a → a ≤ b → b ≤ maximum →
      Item base ⟨a, b, 1⟩
  | stepped {base step : List Char} {a b : Int} {n : Nat} : Base minimum maximum base a b → minimum ≤ a → a ≤ b →
      b ≤ maximum → Numeral step n → 0 < n → Item (base ++ '/' :: step) ⟨a, b, n⟩

/-- Items with commas between them. -/
def Field (field : List Char) (readings : List Reading) : Prop :=
  ∃ items, items ≠ [] ∧ field = [','].intercalate items ∧ List.Forall₂ (Item minimum maximum) items readings

end Grammar

/-- The parser accepts the field exactly if it is in the language, with the values that are named, and raises
`ValueError` otherwise.  Neither the order of the items nor their repetition matters. -/
structure Right (minimum maximum : Int) (field : List Char) : Prop where
  accepts : ∀ readings, Field minimum maximum field readings →
    ∃ values, _parse_field field minimum maximum = .ok values ∧ ∀ v, v ∈ values ↔ ∃ r ∈ readings, r.Names v
  refuses : (∀ readings, ¬ Field minimum maximum field readings) →
    ∃ msg, _parse_field field minimum maximum = .error (.valueError msg)
  within : ∀ values, _parse_field field minimum maximum = .ok values →
    values ≠ [] ∧ ∀ v ∈ values, minimum ≤ v ∧ v ≤ maximum
  unordered : ∀ field' values, (∀ item, item ∈ field'.splitOn ',' ↔ item ∈ field.splitOn ',') →
    _parse_field field minimum maximum = .ok values →
    ∃ values', _parse_field field' minimum maximum = .ok values' ∧ ∀ v, v ∈ values' ↔ v ∈ values

section Spelling

/-- The base of an item. -/
def base (item : List Char) : List Char := item.takeWhile (· ≠ '/')

/-- What follows the slash of an item. -/
def stepText (item : List Char) : List Char := (item.dropWhile (· ≠ '/')).drop 1

/-- The numbers of a base, as they are written. -/
def boundTexts (base : List Char) : List (List Char) :=
  if base = ['*'] then []
  else if '-' ∈ base then [base.takeWhile (· ≠ '-'), (base.dropWhile (· ≠ '-')).drop 1]
  else [base]

/-- The numbers of an item, as they are written. -/
def numbers (item : List Char) : List (List Char) :=
  boundTexts (base item) ++ if '/' ∈ item then [stepText item] else []

/-- Every number is written in ASCII digits, and a slash has a number after it. -/
def Plain (item : List Char) : Prop := ∀ text ∈ numbers item, text ≠ [] ∧ ∀ c ∈ text, c.isDigit = true

/-- No number has more digits than `int` takes. -/
def Short (item : List Char) : Prop := ∀ text ∈ numbers item, digitCount text ≤ 4300

/-- The bounds of an item with the numbers that `int` knows. -/
def looseBounds (minimum maximum : Int) (base : List Char) : Option (Int × Int) :=
  if base = ['*'] then some (minimum, maximum)
  else if '-' ∈ base then do
    let start ← literal (base.takeWhile (· ≠ '-'))
    let stop ← literal ((base.dropWhile (· ≠ '-')).drop 1)
    return (start, stop)
  else do
    let start ← literal base
    return (start, start)

/-- A step that is left out is 1, after a slash too. -/
def looseStep (text : List Char) : Option Int :=
  if text.isEmpty then some 1 else literal text

/-- The item with the numbers that `int` knows. -/
def loose (minimum maximum : Int) (item : List Char) : Option Reading :=
  if item.isEmpty || 1 < item.count '/' then none
  else do
    let step ← looseStep (stepText item)
    let bounds ← looseBounds minimum maximum (base item)
    if 0 < step ∧ minimum ≤ bounds.1 ∧ bounds.1 ≤ bounds.2 ∧ bounds.2 ≤ maximum then
      some ⟨bounds.1, bounds.2, step⟩
    else none

end Spelling

section Items

variable {minimum maximum : Int} {field item text : List Char} {values : List Int} {r : Reading}

theorem takeWhile_sep {c : Char} {before : List Char} (after : List Char) (h : c ∉ before) :
    (before ++ c :: after).takeWhile (· ≠ c) = before ∧ (before ++ c :: after).dropWhile (· ≠ c) = c :: after := by
  have hall : ∀ d ∈ before, decide (d ≠ c) = true := fun d hd => decide_eq_true fun heq => h (heq ▸ hd)
  rw [List.takeWhile_append_of_pos hall, List.dropWhile_append_of_pos hall,
    List.takeWhile_cons_of_neg (by simp), List.dropWhile_cons_of_neg (by simp), List.append_nil]
  exact ⟨rfl, rfl⟩

/-- A text with the separator, cut at the first one. -/
theorem cut_eq {c : Char} (h : c ∈ text) :
    text = text.takeWhile (· ≠ c) ++ c :: (text.dropWhile (· ≠ c)).drop 1 := by
  obtain ⟨before, after, rfl, hbefore⟩ := List.eq_append_cons_of_mem h
  obtain ⟨htake, hdrop⟩ := takeWhile_sep after hbefore
  rw [htake, hdrop]
  rfl

theorem stepText_absent (h : '/' ∉ item) : base item = item ∧ stepText item = [] := by
  have hall : ∀ d ∈ item, decide (d ≠ '/') = true := fun d hd => decide_eq_true fun heq => h (heq ▸ hd)
  rw [base, stepText, List.takeWhile_eq_self_iff.mpr hall, List.dropWhile_eq_nil_iff.mpr hall]
  exact ⟨rfl, rfl⟩

theorem stepText_at {before : List Char} (after : List Char) (h : '/' ∉ before) :
    base (before ++ '/' :: after) = before ∧ stepText (before ++ '/' :: after) = after := by
  obtain ⟨htake, hdrop⟩ := takeWhile_sep after h
  exact ⟨htake, by rw [stepText, hdrop]; rfl⟩

theorem short_iff : Short item ↔
    (∀ text ∈ boundTexts (base item), digitCount text ≤ 4300) ∧ digitCount (stepText item) ≤ 4300 := by
  unfold Short numbers
  by_cases h : '/' ∈ item
  · simp [h, or_imp, forall_and]
  · have hnil : digitCount [] ≤ 4300 := by decide
    simp [h, (stepText_absent h).2, hnil]

theorem parse_step_ok {step : Int} :
    _parse_step text = .ok step ↔ looseStep text = some step ∧ digitCount text ≤ 4300 := by
  unfold _parse_step looseStep
  cases text with
  | nil =>
    have hnil : digitCount [] ≤ 4300 := by decide
    simp [hnil, pure, Except.pure]
  | cons c text => exact int_ok

theorem parse_bounds_ok {bounds : Int × Int} : _parse_bounds minimum maximum text = .ok bounds ↔
    looseBounds minimum maximum text = some bounds ∧ ∀ t ∈ boundTexts text, digitCount t ≤ 4300 := by
  unfold _parse_bounds looseBounds boundTexts
  split
  · simp [pure, Except.pure]
  · split
    · constructor
      · intro h
        obtain ⟨start, hstart, h⟩ := bind_ok h
        obtain ⟨stop, hstop, h⟩ := bind_ok h
        cases h
        obtain ⟨hstart, hfirst⟩ := int_ok.mp hstart
        obtain ⟨hstop, hlast⟩ := int_ok.mp hstop
        rw [hstart, hstop]
        exact ⟨rfl, List.forall_mem_cons.mpr ⟨hfirst, List.forall_mem_singleton.mpr hlast⟩⟩
      · rintro ⟨h, hshort⟩
        obtain ⟨start, hstart, h⟩ := Option.bind_eq_some_iff.mp h
        obtain ⟨stop, hstop, h⟩ := Option.bind_eq_some_iff.mp h
        cases h
        rw [int_ok.mpr ⟨hstart, hshort _ (.head _)⟩, int_ok.mpr ⟨hstop, hshort _ (.tail _ (.head _))⟩]
        rfl
    · constructor
      · intro h
        obtain ⟨start, hstart, h⟩ := bind_ok h
        cases h
        obtain ⟨hstart, hshort⟩ := int_ok.mp hstart
        rw [hstart]
        exact ⟨rfl, List.forall_mem_singleton.mpr hshort⟩
      · rintro ⟨h, hshort⟩
        obtain ⟨start, hstart, h⟩ := Option.bind_eq_some_iff.mp h
        cases h
        rw [int_ok.mpr ⟨hstart, hshort _ (.head _)⟩]
        rfl

theorem loose_eq_some : loose minimum maximum item = some r ↔ item.isEmpty = false ∧ item.count '/' ≤ 1 ∧
    looseStep (stepText item) = some r.step ∧
    looseBounds minimum maximum (base item) = some (r.start, r.stop) ∧
    0 < r.step ∧ minimum ≤ r.start ∧ r.start ≤ r.stop ∧ r.stop ≤ maximum := by
  unfold loose
  split
  · rename_i hbad
    simp only [Bool.or_eq_true, decide_eq_true_eq] at hbad
    refine iff_of_false nofun fun h => ?_
    obtain ⟨hne, hone, -⟩ := h
    rcases hbad with hbad | hbad
    · rw [hbad] at hne
      cases hne
    · omega
  · rename_i hgood
    simp only [Bool.or_eq_true, decide_eq_true_eq, not_or, Bool.not_eq_true, not_lt] at hgood
    simp only [hgood.1, hgood.2, true_and]
    constructor
    · intro h
      obtain ⟨step, hstep, h⟩ := Option.bind_eq_some_iff.mp h
      obtain ⟨bounds, hbounds, h⟩ := Option.bind_eq_some_iff.mp h
      split at h
      · rename_i hin
        cases h
        exact ⟨hstep, hbounds, hin⟩
      · cases h
    · rintro ⟨hstep, hbounds, hin⟩
      rw [hstep, hbounds]
      exact if_pos hin

theorem parse_item_ok : _parse_item field minimum maximum item = .ok values ↔
    ∃ r, loose minimum maximum item = some r ∧ Short item ∧ values = span r.start r.stop r.step := by
  simp only [loose_eq_some, short_iff]
  unfold _parse_item
  split
  · rename_i hbad
    simp only [Bool.or_eq_true, decide_eq_true_eq] at hbad
    refine iff_of_false nofun fun h => ?_
    obtain ⟨r, ⟨hne, hone, -⟩, -⟩ := h
    rcases hbad with hbad | hbad
    · rw [hbad] at hne
      cases hne
    · omega
  · rename_i hgood
    simp only [Bool.or_eq_true, decide_eq_true_eq, not_or, Bool.not_eq_true, not_lt] at hgood
    constructor
    · intro h
      obtain ⟨step, hstep, h⟩ := bind_ok h
      split at h
      · cases h
      rename_i hpos
      obtain ⟨bounds, hbounds, h⟩ := bind_ok h
      split at h
      · cases h
      rename_i hin
      cases h
      obtain ⟨hstep, hshort⟩ := parse_step_ok.mp hstep
      obtain ⟨hbounds, hshorts⟩ := parse_bounds_ok.mp hbounds
      have hstep' : 0 < step := by omega
      have hin' : minimum ≤ bounds.1 ∧ bounds.1 ≤ bounds.2 ∧ bounds.2 ≤ maximum := by omega
      exact ⟨⟨bounds.1, bounds.2, step⟩, ⟨hgood.1, hgood.2, hstep, hbounds, hstep', hin'⟩, ⟨hshorts, hshort⟩, rfl⟩
    · rintro ⟨r, ⟨-, -, hstep, hbounds, hpos, hin⟩, ⟨hshorts, hshort⟩, rfl⟩
      change (_parse_step (stepText item) >>= _) = _
      rw [parse_step_ok.mpr ⟨hstep, hshort⟩, ok_bind, if_neg (by omega)]
      change (_parse_bounds minimum maximum (base item) >>= _) = _
      rw [parse_bounds_ok.mpr ⟨hbounds, hshorts⟩, ok_bind, if_neg (by omega)]
      rfl

/-- The numbers of a base that is in the language are spelled plainly. -/
theorem base_iff {start stop : Int} : Base minimum maximum text start stop ↔
    looseBounds minimum maximum text = some (start, stop) ∧ ∀ t ∈ boundTexts text, t ≠ [] ∧ ∀ c ∈ t, c.isDigit = true := by
  have minus : ∀ {t : List Char} {n : Nat}, Numeral t n → '-' ∉ t ∧ t ≠ ['*'] := by
    intro t n h
    refine ⟨fun hc => absurd (h.digits _ hc) (by decide), ?_⟩
    rintro rfl
    exact absurd (h.digits '*' (.head _)) (by decide)
  unfold looseBounds boundTexts
  constructor
  · intro h
    cases h with
    | star => simp
    | single h =>
      obtain ⟨hminus, hstar⟩ := minus h
      rw [if_neg hstar, if_neg hminus, if_neg hstar, if_neg hminus, h.literal]
      exact ⟨rfl, List.forall_mem_singleton.mpr ⟨h.nonempty, h.digits⟩⟩
    | @range first last a b hfirst hlast =>
      have hmem : '-' ∈ first ++ '-' :: last := by simp
      have hstar : first ++ '-' :: last ≠ ['*'] := fun heq => by simp [heq] at hmem
      obtain ⟨htake, hdrop⟩ := takeWhile_sep last (minus hfirst).1
      rw [if_neg hstar, if_pos hmem, if_neg hstar, if_pos hmem, htake, hdrop, List.drop_succ_cons, List.drop_zero,
        hfirst.literal, hlast.literal]
      exact ⟨rfl, List.forall_mem_cons.mpr ⟨⟨hfirst.nonempty, hfirst.digits⟩,
        List.forall_mem_singleton.mpr ⟨hlast.nonempty, hlast.digits⟩⟩⟩
  · have numeral : ∀ {t : List Char} {v : Int}, literal t = some v → (t ≠ [] ∧ ∀ c ∈ t, c.isDigit = true) →
        ∃ n : Nat, v = n ∧ Numeral t n := by
      intro t v hv h
      have hn : Numeral t (Nat.ofDigitChars 10 t 0) := ⟨h.1, h.2, rfl⟩
      exact ⟨_, Option.some.inj (hv.symm.trans hn.literal), hn⟩
    rintro ⟨h, hplain⟩
    split at h
    · rename_i hstar
      cases h
      rw [hstar]
      exact .star
    rename_i hstar
    split at h
    · rename_i hmem
      rw [if_neg hstar, if_pos hmem] at hplain
      obtain ⟨a, ha, h⟩ := Option.bind_eq_some_iff.mp h
      obtain ⟨b, hb, h⟩ := Option.bind_eq_some_iff.mp h
      cases h
      obtain ⟨n, rfl, hn⟩ := numeral ha (hplain _ (.head _))
      obtain ⟨m, rfl, hm⟩ := numeral hb (hplain _ (.tail _ (.head _)))
      rw [cut_eq hmem]
      exact .range hn hm
    · rename_i hmem
      rw [if_neg hstar, if_neg hmem] at hplain
      obtain ⟨a, ha, h⟩ := Option.bind_eq_some_iff.mp h
      cases h
      obtain ⟨n, rfl, hn⟩ := numeral ha (hplain _ (.head _))
      exact .single hn

/-- The characters of the language. -/
theorem Base.chars {start stop : Int} (h : Base minimum maximum text start stop) :
    text ≠ [] ∧ ∀ c ∈ text, c.isDigit = true ∨ c = '*' ∨ c = '-' := by
  cases h with
  | star => simp
  | single h => exact ⟨h.nonempty, fun c hc => .inl (h.digits c hc)⟩
  | range hfirst hlast =>
    refine ⟨by simp, fun c hc => ?_⟩
    rcases List.mem_append.mp hc with hc | hc
    · exact .inl (hfirst.digits c hc)
    · rcases List.mem_cons.mp hc with rfl | hc
      · exact .inr (.inr rfl)
      · exact .inl (hlast.digits c hc)

theorem Base.no_slash {start stop : Int} (h : Base minimum maximum text start stop) : '/' ∉ text := by
  intro hc
  rcases h.chars.2 '/' hc with h | h | h
  · cases h
  · cases h
  · cases h

theorem Item.no_comma (h : Item minimum maximum item r) : ',' ∉ item := by
  have hbase : ∀ {text a b}, Base minimum maximum text a b → ',' ∉ text := by
    intro text a b h hc
    rcases h.chars.2 ',' hc with h | h | h
    · cases h
    · cases h
    · cases h
  cases h with
  | plain h => exact hbase h
  | stepped h _ _ _ hstep =>
    intro hc
    rcases List.mem_append.mp hc with hc | hc
    · exact hbase h hc
    · rcases List.mem_cons.mp hc with hc | hc
      · cases hc
      · exact absurd (hstep.digits _ hc) (by decide)

/-- The language is what the parser can read, spelled plainly. -/
theorem item_iff : Item minimum maximum item r ↔ loose minimum maximum item = some r ∧ Plain item := by
  rw [loose_eq_some]
  constructor
  · intro h
    cases h with
    | plain h hlo hle hhi =>
      have hslash := h.no_slash
      obtain ⟨hbase, hstep⟩ := stepText_absent hslash
      obtain ⟨hbounds, hplain⟩ := base_iff.mp h
      refine ⟨⟨by simpa using h.chars.1, ?_, by rw [hstep]; rfl, by rw [hbase]; exact hbounds, one_pos, hlo, hle, hhi⟩, ?_⟩
      · rw [List.count_eq_zero_of_not_mem hslash]
        exact zero_le_one
      · rw [Plain, numbers, if_neg hslash, hbase, List.append_nil]
        exact hplain
    | @stepped text step a b n h hlo hle hhi hn hpos =>
      have hslash := h.no_slash
      obtain ⟨hbase, hstep⟩ := stepText_at step hslash
      obtain ⟨hbounds, hplain⟩ := base_iff.mp h
      have hafter : '/' ∉ step := fun hc => absurd (hn.digits _ hc) (by decide)
      refine ⟨⟨by simp, ?_, ?_, by rw [hbase]; exact hbounds, Int.natCast_pos.mpr hpos, hlo, hle, hhi⟩, ?_⟩
      · rw [List.count_append, List.count_cons_self, List.count_eq_zero_of_not_mem hslash,
          List.count_eq_zero_of_not_mem hafter]
      · rw [hstep, looseStep, List.isEmpty_eq_false_iff.mpr hn.nonempty]
        exact hn.literal
      · rw [Plain, numbers, if_pos (by simp), hbase, hstep]
        intro t ht
        rcases List.mem_append.mp ht with ht | ht
        · exact hplain t ht
        · rw [List.mem_singleton.mp ht]
          exact ⟨hn.nonempty, hn.digits⟩
  · rintro ⟨⟨hne, hone, hstep, hbounds, hpos, hlo, hle, hhi⟩, hplain⟩
    obtain ⟨start, stop, step⟩ := r
    have hbase : Base minimum maximum (base item) start stop :=
      base_iff.mpr ⟨hbounds, fun t ht => hplain t (List.mem_append_left _ ht)⟩
    by_cases hslash : '/' ∈ item
    · obtain ⟨hnonempty, hdigits⟩ : stepText item ≠ [] ∧ ∀ c ∈ stepText item, c.isDigit = true :=
        hplain _ (List.mem_append_right _ (by simp [hslash]))
      have hn : Numeral (stepText item) (Nat.ofDigitChars 10 (stepText item) 0) := ⟨hnonempty, hdigits, rfl⟩
      rw [looseStep, List.isEmpty_eq_false_iff.mpr hnonempty] at hstep
      obtain rfl := Option.some.inj (hn.literal.symm.trans hstep)
      have hitem : Item minimum maximum (base item ++ '/' :: stepText item) ⟨start, stop, _⟩ :=
        .stepped hbase hlo hle hhi hn (Int.natCast_pos.mp hpos)
      rwa [show base item ++ '/' :: stepText item = item from (cut_eq hslash).symm] at hitem
    · obtain ⟨hsame, hnil⟩ := stepText_absent hslash
      rw [hnil] at hstep
      obtain rfl := Option.some.inj hstep
      rw [hsame] at hbase
      exact .plain hbase hlo hle hhi

end Items

section Fields

variable {minimum maximum : Int} {field : List Char} {values : List Int} {readings : List Reading}

theorem field_iff : Field minimum maximum field readings ↔
    List.Forall₂ (fun item r => loose minimum maximum item = some r) (field.splitOn ',') readings ∧
      ∀ item ∈ field.splitOn ',', Plain item := by
  have hitems : Field minimum maximum field readings ↔
      List.Forall₂ (Item minimum maximum) (field.splitOn ',') readings := by
    constructor
    · rintro ⟨items, hne, rfl, h⟩
      rwa [List.splitOn_intercalate ',' (fun item hitem => ?_) hne]
      obtain ⟨r, -, hr⟩ := forall₂_mem h hitem
      exact hr.no_comma
    · exact fun h => ⟨_, List.splitOn_ne_nil _ _, (List.intercalate_splitOn ',').symm, h⟩
  have hplain : Item minimum maximum = fun item r => Plain item ∧ loose minimum maximum item = some r := by
    funext item r
    exact propext (item_iff.trans and_comm)
  rw [hitems, hplain, List.forall₂_and_left, and_comm]

/-- What is read of the items, one after the other. -/
theorem read_items {items : List (List Char)} {results : List (List Int)} :
    List.Forall₂ (fun item result => _parse_item field minimum maximum item = .ok result) items results ↔
      ∃ readings, List.Forall₂ (fun item r => loose minimum maximum item = some r) items readings ∧
        (∀ item ∈ items, Short item) ∧ results = readings.map fun r => span r.start r.stop r.step := by
  constructor
  · intro h
    induction h with
    | nil => exact ⟨[], .nil, nofun, rfl⟩
    | cons hitem _ ih =>
      obtain ⟨readings, hreadings, hshorts, rfl⟩ := ih
      obtain ⟨r, hr, hshort, rfl⟩ := parse_item_ok.mp hitem
      exact ⟨r :: readings, .cons hr hreadings, List.forall_mem_cons.mpr ⟨hshort, hshorts⟩, rfl⟩
  · rintro ⟨readings, h, hshorts, rfl⟩
    induction h with
    | nil => exact .nil
    | cons hr _ ih =>
      obtain ⟨hshort, hshorts⟩ := List.forall_mem_cons.mp hshorts
      exact .cons (parse_item_ok.mpr ⟨_, hr, hshort, rfl⟩) (ih hshorts)

theorem parse_field_ok : _parse_field field minimum maximum = .ok values ↔
    ∃ readings, List.Forall₂ (fun item r => loose minimum maximum item = some r) (field.splitOn ',') readings ∧
      (∀ item ∈ field.splitOn ',', Short item) ∧
      values = (readings.map fun r => span r.start r.stop r.step).flatten := by
  constructor
  · intro h
    obtain ⟨results, hresults, h⟩ := bind_ok h
    split at h
    · cases h
    cases h
    obtain ⟨readings, hreadings, hshort, rfl⟩ := read_items.mp (mapM_ok.mp hresults)
    exact ⟨readings, hreadings, hshort, rfl⟩
  · rintro ⟨readings, hreadings, hshort, rfl⟩
    have hne : readings ≠ [] := by
      rintro rfl
      exact List.splitOn_ne_nil _ _ (List.forall₂_nil_right_iff.mp hreadings)
    obtain ⟨r, rest, rfl⟩ := List.exists_cons_of_ne_nil hne
    obtain ⟨item, -, hitem⟩ := forall₂_mem hreadings.flip (.head rest)
    obtain ⟨-, -, -, -, hpos, -, hle, -⟩ := loose_eq_some.mp hitem
    have hstart : r.start ∈ span r.start r.stop r.step := (mem_span hpos).mpr ⟨0, by simp, hle⟩
    rw [_parse_field, mapM_ok.mpr (read_items.mpr ⟨_, hreadings, hshort, rfl⟩), ok_bind, if_neg]
    · rfl
    · intro hempty
      have hall : span r.start r.stop r.step = [] := List.flatten_eq_nil_iff.mp (List.isEmpty_iff.mp hempty) _ (.head _)
      rw [hall] at hstart
      cases hstart

theorem parse_field_error {e : PyError} (h : _parse_field field minimum maximum = .error e) :
    ∃ msg, e = .valueError msg := by
  have bounds : ∀ {text e}, _parse_bounds minimum maximum text = .error e → ∃ msg, e = .valueError msg := by
    intro text e h
    unfold _parse_bounds at h
    split at h
    · cases h
    split at h
    · obtain h | ⟨_, _, h⟩ := bind_error h
      · exact int_error h
      obtain h | ⟨_, _, h⟩ := bind_error h
      · exact int_error h
      cases h
    · obtain h | ⟨_, _, h⟩ := bind_error h
      · exact int_error h
      cases h
  have step : ∀ {text e}, _parse_step text = .error e → ∃ msg, e = .valueError msg := by
    intro text e h
    unfold _parse_step at h
    split at h
    · cases h
    · exact int_error h
  obtain h | ⟨_, _, h⟩ := bind_error h
  · obtain ⟨item, -, h⟩ := mapM_error h
    unfold _parse_item at h
    split at h
    · cases h
      exact ⟨_, rfl⟩
    obtain h | ⟨_, _, h⟩ := bind_error h
    · exact step h
    split at h
    · cases h
      exact ⟨_, rfl⟩
    obtain h | ⟨_, _, h⟩ := bind_error h
    · exact bounds h
    split at h
    · cases h
      exact ⟨_, rfl⟩
    · cases h
  · split at h
    · cases h
      exact ⟨_, rfl⟩
    · cases h

/-- What the readings name, from the items. -/
theorem named_iff {items : List (List Char)} {v : Int}
    (h : List.Forall₂ (fun item r => loose minimum maximum item = some r) items readings) :
    (∃ r ∈ readings, r.Names v) ↔ ∃ item ∈ items, ∃ r, loose minimum maximum item = some r ∧ r.Names v := by
  constructor
  · rintro ⟨r, hr, hv⟩
    obtain ⟨item, hitem, hloose⟩ := forall₂_mem h.flip hr
    exact ⟨item, hitem, r, hloose, hv⟩
  · rintro ⟨item, hitem, r, hloose, hv⟩
    obtain ⟨r', hr', hloose'⟩ := forall₂_mem h hitem
    obtain rfl := Option.some.inj (hloose.symm.trans hloose')
    exact ⟨r, hr', hv⟩

/-- Every item that is accepted was read, has short numbers, and names what the set has. -/
theorem accepted_iff : (∃ values, _parse_field field minimum maximum = .ok values) ↔
    (∀ item ∈ field.splitOn ',', ∃ r, loose minimum maximum item = some r) ∧ ∀ item ∈ field.splitOn ',', Short item := by
  simp only [parse_field_ok, ← forall₂_total]
  constructor
  · rintro ⟨values, readings, h, hshort, -⟩
    exact ⟨⟨readings, h⟩, hshort⟩
  · rintro ⟨⟨readings, h⟩, hshort⟩
    exact ⟨_, readings, h, hshort, rfl⟩

theorem parse_field_mem (h : _parse_field field minimum maximum = .ok values) {v : Int} : v ∈ values ↔
    ∃ item ∈ field.splitOn ',', ∃ r, loose minimum maximum item = some r ∧ r.Names v := by
  obtain ⟨readings, hreadings, -, rfl⟩ := parse_field_ok.mp h
  have hspan : ∀ r ∈ readings, (v ∈ span r.start r.stop r.step ↔ r.Names v) := by
    intro r hr
    obtain ⟨item, -, hloose⟩ := forall₂_mem hreadings.flip hr
    exact mem_span (loose_eq_some.mp hloose).2.2.2.2.1
  rw [← named_iff hreadings, List.mem_flatten]
  constructor
  · rintro ⟨_, hvalues, hv⟩
    obtain ⟨r, hr, rfl⟩ := List.mem_map.mp hvalues
    exact ⟨r, hr, (hspan r hr).mp hv⟩
  · rintro ⟨r, hr, hv⟩
    exact ⟨_, List.mem_map_of_mem hr, (hspan r hr).mpr hv⟩

theorem language_iff : (∃ readings, Field minimum maximum field readings) ↔
    (∀ item ∈ field.splitOn ',', ∃ r, loose minimum maximum item = some r) ∧ ∀ item ∈ field.splitOn ',', Plain item := by
  simp only [field_iff, exists_and_right, forall₂_total]

theorem parse_field_unordered {field' : List Char} (hsame : ∀ item, item ∈ field'.splitOn ',' ↔ item ∈ field.splitOn ',')
    (h : _parse_field field minimum maximum = .ok values) :
    ∃ values', _parse_field field' minimum maximum = .ok values' ∧ ∀ v, v ∈ values' ↔ v ∈ values := by
  have haccepted := accepted_iff.mp ⟨values, h⟩
  simp only [← hsame] at haccepted
  obtain ⟨values', h'⟩ := accepted_iff.mpr haccepted
  refine ⟨values', h', fun v => ?_⟩
  simp only [parse_field_mem h', parse_field_mem h, hsame]

/-- The parser is right about a field, exactly if its numbers are plain where they are short and short where they
are plain, or some item cannot be read at all. -/
theorem right_iff : Right minimum maximum field ↔
    ((∀ item ∈ field.splitOn ',', ∃ r, loose minimum maximum item = some r) →
      ((∀ item ∈ field.splitOn ',', Plain item) ↔ ∀ item ∈ field.splitOn ',', Short item)) := by
  constructor
  · intro h hread
    constructor
    · intro hplain
      obtain ⟨readings, hfield⟩ := language_iff.mpr ⟨hread, hplain⟩
      obtain ⟨values, hvalues, -⟩ := h.accepts readings hfield
      exact (accepted_iff.mp ⟨values, hvalues⟩).2
    · intro hshort
      by_contra hplain
      obtain ⟨values, hvalues⟩ := accepted_iff.mpr ⟨hread, hshort⟩
      obtain ⟨msg, herror⟩ := h.refuses fun readings hfield => hplain (language_iff.mp ⟨readings, hfield⟩).2
      cases hvalues.symm.trans herror
  · intro h
    refine ⟨fun readings hfield => ?_, fun hnone => ?_, fun values => parse_field_bounds,
      fun field' values => parse_field_unordered⟩
    · obtain ⟨hread, hplain⟩ := language_iff.mp ⟨readings, hfield⟩
      obtain ⟨values, hvalues⟩ := accepted_iff.mpr ⟨hread, (h hread).mp hplain⟩
      refine ⟨values, hvalues, fun v => ?_⟩
      rw [parse_field_mem hvalues, named_iff (field_iff.mp hfield).1]
    · cases hparse : _parse_field field minimum maximum with
      | ok values =>
        obtain ⟨hread, hshort⟩ := accepted_iff.mp ⟨values, hparse⟩
        obtain ⟨readings, hfield⟩ := language_iff.mpr ⟨hread, (h hread).mpr hshort⟩
        exact absurd hfield (hnone readings)
      | error e =>
        obtain ⟨msg, rfl⟩ := parse_field_error hparse
        exact ⟨msg, rfl⟩

/-- A slash with nothing after it is accepted. -/
theorem bare_slash : ¬ ∀ minimum maximum field, Right minimum maximum field := by
  intro h
  have hvalues : _parse_field ['5', '/'] 0 59 = .ok [5] := by decide +kernel
  obtain ⟨msg, herror⟩ := (h 0 59 ['5', '/']).refuses fun readings hfield => by
    obtain ⟨-, hplain⟩ := field_iff.mp hfield
    have hnumbers : [] ∈ numbers ['5', '/'] := by decide
    exact (hplain ['5', '/'] (by decide) [] hnumbers).1 rfl
  cases hvalues.symm.trans herror

end Fields

end CronExpression

end EnterpriseCopilot.Schedule
