import EnterpriseCopilot.Plugin.Files
import EnterpriseCopilot.Python.Fnmatch

/-! Names of plugins, of their backups, and the patterns that look for them. -/

namespace EnterpriseCopilot.Plugin

open EnterpriseCopilot.Python

section Paths

/-- A path without `..`: it leads one level up, and nowhere at the top. -/
def normalise (parts : Path) : Path :=
  parts.foldl (fun path part => if part = ".." then path.dropLast else path ++ [part]) []

/-- Where the operating system finds `base / text`.  No directory on the way is a link. -/
def join (base : Path) (text : String) : Path :=
  normalise (if text.toList.head? = some '/' then path_parts text else base ++ path_parts text)

/-- `(self.root / name).resolve()` with `_assert_contained`. -/
def _assert_contained (root : Path) (name : String) : Except PyError Path :=
  if '\x00' ∈ name.toList then .error (.valueError "embedded null byte")
  else if root <+: join root name then .ok (join root name)
  else .error (installError "Plugin path escapes registry root")

theorem normalise_append {base parts : Path} (h : ∀ part ∈ parts, part ≠ "..") :
    normalise (base ++ parts) = normalise base ++ parts := by
  induction parts using List.reverseRecOn with
  | nil => simp
  | append_singleton parts part ih =>
    have hpart : part ≠ ".." := h part (by simp)
    have hinit := ih fun x hx => h x (by simp [hx])
    rw [normalise, ← List.append_assoc, List.foldl_append]
    change (if part = ".." then (normalise (base ++ parts)).dropLast else normalise (base ++ parts) ++ [part]) = _
    rw [if_neg hpart, hinit, List.append_assoc]

theorem normalise_eq_self {parts : Path} (h : ∀ part ∈ parts, part ≠ "..") : normalise parts = parts :=
  show normalise ([] ++ parts) = normalise [] ++ parts from normalise_append h

theorem ValidName.path_parts {name : String} (h : ValidName name) : path_parts name = [name] := by
  obtain ⟨hempty, hdot, _, hslash, _⟩ := h
  have hsplit : name.toList.splitOnP (· == '/') = [name.toList] :=
    List.splitOnP_eq_singleton fun c hc => by
      have hne : c ≠ '/' := fun heq => hslash (heq ▸ hc)
      simpa using hne
  simp [Plugin.path_parts, hsplit, hempty, hdot]

/-- One name below a directory. -/
theorem join_name {base : Path} {name : String} (hbase : ∀ part ∈ base, ValidName part)
    (h : ValidName name) : join base name = base ++ [name] := by
  have hhead : name.toList.head? ≠ some '/' := fun hhead => h.2.2.2.1 (List.mem_of_head? hhead)
  rw [join, if_neg hhead, h.path_parts]
  refine normalise_eq_self fun part hpart => ?_
  rcases List.mem_append.mp hpart with hpart | hpart
  · exact (hbase part hpart).2.2.1
  · exact List.mem_singleton.mp hpart ▸ h.2.2.1

theorem contained_name {root : Path} {name : String} (hroot : ∀ part ∈ root, ValidName part)
    (h : ValidName name) : _assert_contained root name = .ok (root ++ [name]) := by
  rw [_assert_contained, if_neg h.2.2.2.2, join_name hroot h, if_pos (List.prefix_append _ _)]

/-- A text with a hyphen is neither empty nor made of dots. -/
theorem validName_of_hyphen {text : String} (h : '-' ∈ text.toList) (hslash : '/' ∉ text.toList)
    (hnul : '\x00' ∉ text.toList) : ValidName text := by
  refine ⟨?_, ?_, ?_, hslash, hnul⟩ <;> rintro rfl <;> exact absurd h (by decide)

end Paths

section Backups

/-- `strftime("%Y%m%d%H%M%S")`. -/
structure Stamp where
  chars : List Char
  digits : ∀ c ∈ chars, c ∈ "0123456789".toList

def Stamp.text (s : Stamp) : String := String.ofList s.chars

/-- The directory of the version that `install` replaces. -/
def backup_name (name : String) (stamp : Stamp) (hex : Hex 32) : String :=
  name ++ "-" ++ stamp.text ++ "-" ++ hex.text

def removed_name (name : String) (stamp : Stamp) (hex : Hex 32) : String :=
  name ++ "-removed-" ++ stamp.text ++ "-" ++ hex.text

/-- The directory of the version that `rollback` replaces. -/
def current_name (name : String) (hex : Hex 32) : String := name ++ "-current-" ++ hex.text

def staging_name (name : String) (hex : Hex 32) : String := ".staging-" ++ name ++ "-" ++ hex.text

/-- What `rollback` looks for in a name to leave it out. -/
def isCurrent (name : String) : Bool := decide ("-current-".toList <:+: name.toList)

theorem isCurrent_iff {name : String} :
    isCurrent name = true ↔ "-current-".toList <:+: name.toList := decide_eq_true_iff

/-- What stands behind the name of the plugin in the name of a backup. -/
structure Label (label : String) : Prop where
  slash : '/' ∉ label.toList
  nul : '\x00' ∉ label.toList

theorem label_of_chars {label : String} (h : ∀ c ∈ label.toList, c ∈ "-0123456789abcdefmnortuv".toList) :
    Label label :=
  ⟨fun hc => absurd (h _ hc) (by decide), fun hc => absurd (h _ hc) (by decide)⟩

theorem hex_chars (hex : Hex 32) : ∀ c ∈ hex.text.toList, c ∈ "-0123456789abcdefmorv".toList := by
  have hsub : "0123456789abcdef".toList ⊆ "-0123456789abcdefmorv".toList := by decide
  simpa [Hex.text] using fun c hc => hsub (hex.digits c hc)

theorem stamp_chars (stamp : Stamp) (hex : Hex 32) :
    ∀ c ∈ (stamp.text ++ "-" ++ hex.text).toList, c ∈ "-0123456789abcdefmorv".toList := by
  have hsub : "0123456789".toList ⊆ "-0123456789abcdefmorv".toList := by decide
  intro c hc
  rw [String.toList_append, String.toList_append] at hc
  rcases List.mem_append.mp hc with hc | hc
  · rcases List.mem_append.mp hc with hc | hc
    · exact hsub (stamp.digits c (by simpa [Stamp.text] using hc))
    · exact List.mem_singleton.mp hc ▸ by decide
  · exact hex_chars hex c hc

/-- The labels of versions that `rollback` may restore have no `t`. -/
theorem plain_label {label : String} (h : ∀ c ∈ label.toList, c ∈ "-0123456789abcdefmorv".toList) :
    Label label ∧ 't' ∉ label.toList := by
  have hsub : "-0123456789abcdefmorv".toList ⊆ "-0123456789abcdefmnortuv".toList := by decide
  exact ⟨label_of_chars fun c hc => hsub (h c hc), fun hc => absurd (h _ hc) (by decide)⟩

theorem backup_label (name : String) (stamp : Stamp) (hex : Hex 32) :
    ∃ label, backup_name name stamp hex = name ++ "-" ++ label ∧ Label label ∧ 't' ∉ label.toList := by
  refine ⟨stamp.text ++ "-" ++ hex.text, ?_, plain_label (stamp_chars stamp hex)⟩
  simp [backup_name, String.append_assoc]

theorem removed_label (name : String) (stamp : Stamp) (hex : Hex 32) :
    ∃ label, removed_name name stamp hex = name ++ "-" ++ label ∧ Label label ∧ 't' ∉ label.toList := by
  refine ⟨"removed-" ++ (stamp.text ++ "-" ++ hex.text), ?_, plain_label fun c hc => ?_⟩
  · rw [removed_name]
    simp only [String.append_assoc]
    rfl
  · rw [String.toList_append] at hc
    rcases List.mem_append.mp hc with hc | hc
    · have hsub : "removed-".toList ⊆ "-0123456789abcdefmorv".toList := by decide
      exact hsub hc
    · exact stamp_chars stamp hex c hc

theorem current_label (name : String) (hex : Hex 32) :
    ∃ label, current_name name hex = name ++ "-" ++ label ∧ Label label := by
  refine ⟨"current-" ++ hex.text, ?_, label_of_chars fun c hc => ?_⟩
  · rw [current_name]
    simp only [String.append_assoc]
    rfl
  · rw [String.toList_append] at hc
    rcases List.mem_append.mp hc with hc | hc
    · have hsub : "current-".toList ⊆ "-0123456789abcdefmnortuv".toList := by decide
      exact hsub hc
    · have hsub : "-0123456789abcdefmorv".toList ⊆ "-0123456789abcdefmnortuv".toList := by decide
      exact hsub (hex_chars hex c hc)

theorem validName_label {name label : String} (h : ValidName name) (hl : Label label) :
    ValidName (name ++ "-" ++ label) := by
  obtain ⟨_, _, _, hslash, hnul⟩ := h
  refine validName_of_hyphen ?_ ?_ ?_ <;> simp [hslash, hnul, hl.slash, hl.nul]

theorem validName_staging {name : String} (h : ValidName name) (hex : Hex 32) :
    ValidName (staging_name name hex) := by
  have hl : Label hex.text := (plain_label (hex_chars hex)).1
  obtain ⟨_, _, _, hslash, hnul⟩ := h
  refine validName_of_hyphen ?_ ?_ ?_ <;> simp [staging_name, hslash, hnul, hl.slash, hl.nul]

/-- A mark that ends in `t-` does not reach into a text without `t`. -/
theorem infix_of_plain {mark name label : List Char} (hlabel : 't' ∉ label)
    (h : mark ++ ['t', '-'] <:+: name ++ '-' :: label) : mark ++ ['t', '-'] <:+: name ++ ['-'] := by
  obtain ⟨before, after, heq⟩ := h
  have heq' : (before ++ (mark ++ ['t', '-'])) ++ after = (name ++ ['-']) ++ label := by simpa using heq
  rcases List.append_eq_append_iff.mp heq' with ⟨rest, hrest, _⟩ | ⟨mid, hmid, hlab⟩
  · exact ⟨before, rest, hrest.symm⟩
  have hno : 't' ∉ mid := fun hmem => hlabel (by simp [hlab, hmem])
  -- the overlap is too short to hold the `t`
  rcases List.eq_nil_or_concat mid with rfl | ⟨init, last, rfl⟩
  · exact ⟨before, [], by simpa using hmid⟩
  rw [List.concat_eq_append, ← List.append_assoc] at hmid
  have hmid' : (before ++ mark ++ ['t']) ++ ['-'] = (name ++ ['-'] ++ init) ++ [last] := by
    simpa using hmid
  obtain ⟨hinit, _⟩ := List.append_inj' hmid' rfl
  rcases List.eq_nil_or_concat init with rfl | ⟨init', last', rfl⟩
  · rw [List.append_nil] at hinit
    obtain ⟨_, hlast⟩ := List.append_inj' hinit rfl
    exact absurd hlast (by decide)
  · rw [List.concat_eq_append, ← List.append_assoc] at hinit
    obtain ⟨_, hlast⟩ := List.append_inj' hinit rfl
    obtain rfl := List.singleton_inj.mp hlast
    exact absurd (by simp) hno

/-- Only the name of the plugin can bring `-current-` into the name of a version. -/
theorem isCurrent_label {name label : String} (hl : 't' ∉ label.toList) :
    isCurrent (name ++ "-" ++ label) = isCurrent (name ++ "-") := by
  have hmark : "-current-".toList = "-curren".toList ++ ['t', '-'] := rfl
  have hiff : "-current-".toList <:+: (name ++ "-" ++ label).toList ↔
      "-current-".toList <:+: (name ++ "-").toList := by
    rw [String.toList_append, String.toList_append, hmark]
    constructor
    · intro h
      exact infix_of_plain hl (by simpa using h)
    · exact fun h => h.trans (List.prefix_append _ _).isInfix
  exact Bool.eq_iff_iff.mpr (isCurrent_iff.trans (hiff.trans isCurrent_iff.symm))

end Backups

section Ids

variable {name : String}

theorem id_re_chars (h : id_re name = true) :
    ∃ c cs, name.toList = c :: cs ∧ isIdChar c = true ∧ ∀ d ∈ cs, isIdChar d = true ∨ d = '-' := by
  unfold id_re at h
  split at h
  · cases h
  · rename_i c cs heq
    simp only [Bool.and_eq_true, List.all_eq_true, Bool.or_eq_true, beq_iff_eq] at h
    exact ⟨c, cs, heq, h.1.1.1, h.2⟩

theorem id_re_mem (h : id_re name = true) {c : Char} (hc : c ∈ name.toList) : isIdChar c = true ∨ c = '-' := by
  obtain ⟨d, ds, heq, hd, hds⟩ := id_re_chars h
  rw [heq] at hc
  rcases List.mem_cons.mp hc with rfl | hc
  · exact .inl hd
  · exact hds c hc

theorem id_re_valid (h : id_re name = true) : ValidName name := by
  have hno : ∀ c, isIdChar c = false → c ≠ '-' → c ∉ name.toList := by
    intro c hid hhyphen hc
    rcases id_re_mem h hc with hc | hc
    · exact absurd (hid.symm.trans hc) (by decide)
    · exact hhyphen hc
  obtain ⟨c, cs, heq, hc, _⟩ := id_re_chars h
  have hdots : '.' ∉ name.toList := hno '.' (by decide) (by decide)
  refine ⟨?_, ?_, ?_, hno '/' (by decide) (by decide), hno '\x00' (by decide) (by decide)⟩
  · rintro rfl
    cases heq
  · rintro rfl
    exact hdots (by decide)
  · rintro rfl
    exact hdots (by decide)

theorem id_re_head (h : id_re name = true) : name.toList.head? ≠ some '.' := by
  obtain ⟨c, cs, heq, hc, _⟩ := id_re_chars h
  rw [heq]
  rintro ⟨⟩
  exact absurd hc (by decide)

theorem id_re_literal (h : id_re name = true) {c : Char} (hc : c ∈ name.toList) : isLiteral c := by
  have hne : ∀ d, isIdChar d = false → d ≠ '-' → c ≠ d := by
    rintro d hid hhyphen rfl
    rcases id_re_mem h hc with hc | hc
    · exact absurd (hid.symm.trans hc) (by decide)
    · exact hhyphen hc
  exact ⟨hne '*' (by decide) (by decide), hne '?' (by decide) (by decide), hne '[' (by decide) (by decide)⟩

end Ids

namespace Tree

variable {t : Tree} {dir : Path} {name : String}

/-- What `scandir` lists. -/
def children (t : Tree) (dir : Path) : List String :=
  t.entries.filterMap fun x => if x.1.dropLast = dir then x.1.getLast? else none

/-- A directory and all below it. -/
def directories (t : Tree) (dir : Path) : List Path :=
  dir :: (t.entries.filter fun x => dir <+: x.1 ∧ dir ≠ x.1 ∧ x.2 = .dir).map Prod.fst

/-- `Path.glob` below a directory, for the parts of a pattern. -/
def matching (t : Tree) (dir : Path) : List String → List Path
  | [] => [dir]
  | part :: parts =>
    if part = ".." then t.matching dir.dropLast parts
    else if part = "**" then (t.directories dir).flatMap fun d => t.matching d parts
    else ((t.children dir).filter (fnmatch part)).flatMap fun child => t.matching (dir ++ [child]) parts

theorem mem_children : name ∈ t.children dir ↔ ∃ e, (dir ++ [name], e) ∈ t.entries := by
  unfold children
  constructor
  · intro h
    obtain ⟨⟨path, e⟩, hx, heq⟩ := List.mem_filterMap.mp h
    simp only [Option.ite_none_right_eq_some] at heq
    obtain ⟨rfl, hlast⟩ := heq
    refine ⟨e, ?_⟩
    rw [List.dropLast_append_getLast? name hlast]
    exact hx
  · rintro ⟨e, hx⟩
    exact List.mem_filterMap.mpr ⟨_, hx, by simp⟩

/-- The pattern of `rollback`, for a name without separators. -/
theorem matching_name (h : ValidName name) :
    t.matching dir (path_parts (name ++ "-*")) =
      ((t.children dir).filter (fnmatch (name ++ "-*"))).map (dir ++ [·]) := by
  have hvalid : ValidName (name ++ "-*") := by
    have hslash : '/' ∉ (name ++ "-*").toList := by simp [h.2.2.2.1]
    have hnul : '\x00' ∉ (name ++ "-*").toList := by simp [h.2.2.2.2]
    exact validName_of_hyphen (by simp) hslash hnul
  have hstars : name ++ "-*" ≠ "**" := by
    intro heq
    have hmem : '-' ∈ (name ++ "-*").toList := by simp
    rw [heq] at hmem
    exact absurd hmem (by decide)
  rw [hvalid.path_parts, matching, if_neg hvalid.2.2.1, if_neg hstars, List.map_eq_flatMap]
  rfl

end Tree

end EnterpriseCopilot.Plugin
