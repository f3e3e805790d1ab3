import Mathlib.Data.List.DropRight
import Mathlib.Data.List.TakeWhile
import Mathlib.Tactic.IntervalCases
import EnterpriseCopilot.Python.Numeral
import EnterpriseCopilot.Runtime.Url

/-! Sanitised endpoints, parsed again. -/

namespace EnterpriseCopilot.Runtime

open EnterpriseCopilot.Python

namespace Url

section Lists

variable {c d : Char} {text : List Char}

theorem not_mem_takeWhile : c ∉ text.takeWhile (· != c) := by
  intro h
  simpa using List.mem_takeWhile_imp h

theorem partition_absent (h : c ∉ text) : partition c text = (text, false, []) := by
  have hall : ∀ d ∈ text, (d != c) = true := fun d hd => bne_iff_ne.mpr fun heq => h (heq ▸ hd)
  rw [partition, List.takeWhile_eq_self_iff.mpr hall, List.dropWhile_eq_nil_iff.mpr hall]
  simp [h]

theorem partition_at {before after : List Char} (h : c ∉ before) :
    partition c (before ++ c :: after) = (before, true, after) := by
  have hall : ∀ d ∈ before, (d != c) = true := fun d hd => bne_iff_ne.mpr fun heq => h (heq ▸ hd)
  rw [partition, List.takeWhile_append_of_pos hall, List.dropWhile_append_of_pos hall,
    List.takeWhile_cons_of_neg (by simp), List.dropWhile_cons_of_neg (by simp)]
  simp

theorem rpartition_absent (h : c ∉ text) : rpartition c text = ([], false, text) := by
  simp [rpartition, h]

/-- A text with the separator has a last one. -/
theorem rpartition_present (h : c ∈ text) :
    text = (rpartition c text).1 ++ c :: (rpartition c text).2.2 ∧ c ∉ (rpartition c text).2.2 := by
  have hc : text.contains c = true := by simpa using h
  have hsplit := List.takeWhile_append_dropWhile (p := (· != c)) (l := text.reverse)
  have hne : text.reverse.dropWhile (· != c) ≠ [] := by
    rw [Ne, List.dropWhile_eq_nil_iff]
    intro hall
    simpa using hall c (List.mem_reverse.mpr h)
  obtain ⟨x, rest, hrest⟩ := List.exists_cons_of_ne_nil hne
  obtain rfl : x = c := by
    have hx := List.head_dropWhile_not (· != c) hne
    simpa [hrest] using hx
  rw [hrest] at hsplit
  simp only [rpartition, hc, if_true, hrest, List.drop_succ_cons, List.drop_zero]
  refine ⟨?_, fun hmem => not_mem_takeWhile (List.mem_reverse.mp hmem)⟩
  have hback := congrArg List.reverse hsplit
  simpa using hback.symm

/-- What follows the last separator, or the whole. -/
theorem rpartition_last (c : Char) (text : List Char) :
    c ∉ (rpartition c text).2.2 ∧ ∀ d ∈ (rpartition c text).2.2, d ∈ text := by
  by_cases h : c ∈ text
  · obtain ⟨heq, hlast⟩ := rpartition_present h
    refine ⟨hlast, fun d hd => ?_⟩
    rw [heq]
    simp [hd]
  · rw [rpartition_absent h]
    exact ⟨h, fun _ => id⟩

theorem partition_mem (c : Char) (text : List Char) :
    (∀ d ∈ (partition c text).1, d ∈ text ∧ d ≠ c) ∧ ∀ d ∈ (partition c text).2.2, d ∈ text := by
  refine ⟨fun d hd => ⟨(List.takeWhile_subset _) hd, ?_⟩, fun d hd => ?_⟩
  · rintro rfl
    exact not_mem_takeWhile hd
  · exact (List.dropWhile_subset _) (List.mem_of_mem_drop hd)

end Lists

section Digits

/-- The text of a port is read as the port. -/
theorem int_port {n : Nat} (h : n ≤ 65535) : int (Nat.toDigits 10 n) = .ok (n : Int) := by
  have hlen : (Nat.toDigits 10 n).length ≤ 5 :=
    (Nat.length_toDigits_le_iff (by decide) (by decide)).mpr (Nat.lt_of_le_of_lt h (by decide))
  exact (numeral_toDigits n).int (by omega)

end Digits

section Parts

variable {U : Unicode}

/-- A character that no other one has as its lower case. -/
def Mark (U : Unicode) (c : Char) : Prop := (c.toNat < 128 ∧ c.isAlpha = false) ∨ U.expands c = true

theorem mem_lower {c : Char} {text : List Char} (hmark : Mark U c) (h : c ∈ lower U text) : c ∈ text := by
  have hmem := U.lower_marks (String.ofList text) c h hmark
  rwa [String.toList_ofList] at hmem

/-- A host has only marks that stand in the netloc before its port. -/
theorem mem_hostname {c : Char} {netloc host : List Char} (hmark : Mark U c) (h : hostname U netloc = some host)
    (hc : c ∈ host) : c ∈ (hostinfo netloc).1 := by
  unfold hostname at h
  simp only at h
  split at h
  · cases h
  · cases h
    obtain ⟨hbefore, hafter⟩ := partition_mem '%' (hostinfo netloc).1
    rcases List.mem_append.mp hc with hc | hc
    · exact (hbefore c (mem_lower hmark hc)).1
    · split at hc
      · rename_i hpercent
        rcases List.mem_cons.mp hc with rfl | hc
        · simpa [partition] using hpercent
        · exact hafter c hc
      · cases hc

/-- A netloc with an at sign. -/
theorem mem_info {c : Char} {netloc : List Char} (h : c ∈ (hostinfo netloc).1) :
    c ∈ (rpartition '@' netloc).2.2 := by
  unfold hostinfo at h
  simp only at h
  split at h
  · exact (partition_mem '[' _).2 c ((partition_mem ']' _).1 c h).1
  · exact ((partition_mem ':' _).1 c h).1

/-- User information that is empty, or a colon. -/
theorem userinfo_blank {netloc : List Char} (h : '@' ∈ netloc)
    (huser : (userinfo netloc).1 = none ∨ (userinfo netloc).1 = some [])
    (hpassword : (userinfo netloc).2 = none ∨ (userinfo netloc).2 = some []) :
    ∀ c ∈ (rpartition '@' netloc).1, c = ':' := by
  have hfound : (rpartition '@' netloc).2.1 = true := by simp [rpartition, h]
  simp only [userinfo, hfound, if_true] at huser hpassword
  generalize (rpartition '@' netloc).1 = before at huser hpassword
  simp only [partition, reduceCtorEq, false_or, Option.some.injEq] at huser
  cases before with
  | nil => simp
  | cons c rest =>
    by_cases hc : c = ':'
    · subst hc
      simp [partition] at hpassword
      simp [hpassword]
    · rw [List.takeWhile_cons_of_pos (by simpa using hc)] at huser
      cases huser

/-- The name has no at sign, and no bracket that closes. -/
theorem hostinfo_marks {netloc : List Char} (hbrackets : _check_brackets U netloc = .ok ())
    (huser : (userinfo netloc).1 = none ∨ (userinfo netloc).1 = some [])
    (hpassword : (userinfo netloc).2 = none ∨ (userinfo netloc).2 = some []) :
    '@' ∉ (hostinfo netloc).1 ∧ ']' ∉ (hostinfo netloc).1 := by
  refine ⟨fun h => (rpartition_last '@' netloc).1 (mem_info h), fun h => ?_⟩
  have hinfo := mem_info h
  by_cases hopen : '[' ∈ (rpartition '@' netloc).2.2
  · unfold hostinfo at h
    simp only [partition, List.contains_eq_mem, hopen, decide_true, if_true] at h
    exact not_mem_takeWhile h
  · have hnetloc : '[' ∈ netloc := by
      by_contra hnone
      have hclose : netloc.contains ']' = true := by simpa using (rpartition_last '@' netloc).2 _ hinfo
      have hno : netloc.contains '[' = false := by simpa using hnone
      rw [_check_brackets, hno, hclose] at hbrackets
      cases hbrackets
    by_cases hat : '@' ∈ netloc
    · have hblank := userinfo_blank hat huser hpassword
      rw [(rpartition_present hat).1] at hnetloc
      rcases List.mem_append.mp hnetloc with hmem | hmem
      · cases hblank _ hmem
      · rcases List.mem_cons.mp hmem with hmem | hmem
        · cases hmem
        · exact hopen hmem
    · rw [rpartition_absent hat] at hopen
      exact hopen hnetloc

/-- Outside brackets a name has neither a colon nor a bracket that opens. -/
theorem hostinfo_plain {netloc : List Char} (hat : '@' ∉ netloc) (hopen : '[' ∉ netloc) :
    hostinfo netloc = ((partition ':' netloc).1, (partition ':' netloc).2.2) := by
  simp [hostinfo, rpartition_absent hat, partition_absent hopen]

end Parts

section Https

variable {U : Unicode}

/-- The path, query and fragment of what follows the netloc. -/
def tail (rest : List Char) : List Char × List Char × List Char :=
  let (before, fragment) := split '#' (rest.filter (!isUnsafe ·))
  let (path, query) := split '?' before
  (path, query, fragment)

theorem lower_https : lower U "https".toList = "https".toList := by
  have hascii : "https".toList.all (fun c => c.toNat < 128) = true := rfl
  rw [lower, String.ofList_toList, U.lower_ascii "https" fun c hc => of_decide_eq_true (List.all_eq_true.mp hascii c hc),
    String.toList_ofList]
  rfl

/-- The characters of a netloc. -/
def isInside (c : Char) : Bool := !isUnsafe c && !(['/', '?', '#'].contains c)

/-- A URL with a netloc, taken apart. -/
theorem urlsplit_https {netloc rest : List Char} (hnetloc : ∀ c ∈ netloc, isInside c = true)
    (hrest : rest.head? = some '/') :
    urlsplit U ("https:".toList ++ '/' :: '/' :: (netloc ++ rest)) = (do
      _check_brackets U netloc
      _checknetloc U netloc
      return ⟨"https".toList, netloc, (tail rest).1, (tail rest).2.1, (tail rest).2.2⟩) := by
  obtain ⟨path, rfl⟩ : ∃ path, rest = '/' :: path := List.head?_eq_some_iff.mp hrest
  have hstart : ("https:".toList ++ '/' :: '/' :: (netloc ++ '/' :: path)).dropWhile isC0OrSpace =
      "https:".toList ++ '/' :: '/' :: (netloc ++ '/' :: path) := rfl
  have hnet : netloc.filter (!isUnsafe ·) = netloc := List.filter_eq_self.mpr fun c hc =>
    (Bool.and_eq_true_iff.mp (hnetloc c hc)).1
  have hkept : ("https:".toList ++ '/' :: '/' :: (netloc ++ '/' :: path)).filter (!isUnsafe ·) =
      "https".toList ++ ':' :: '/' :: '/' :: (netloc ++ '/' :: path.filter (!isUnsafe ·)) := by
    rw [List.filter_append, List.filter_cons_of_pos (by decide), List.filter_cons_of_pos (by decide), List.filter_append,
      hnet, List.filter_cons_of_pos (by decide)]
    rfl
  have hscheme : splitScheme U ("https".toList ++ ':' :: '/' :: '/' :: (netloc ++ '/' :: path.filter (!isUnsafe ·))) =
      ("https".toList, '/' :: '/' :: (netloc ++ '/' :: path.filter (!isUnsafe ·))) := by
    have hchars : ("https".toList.head?.any Char.isAlpha && "https".toList.all scheme_chars) = true := by decide
    rw [splitScheme, partition_at (by decide)]
    simp only [hchars, Bool.and_self, if_true, lower_https]
  have hinside : ∀ c ∈ netloc, (!(['/', '?', '#'].contains c)) = true := fun c hc =>
    (Bool.and_eq_true_iff.mp (hnetloc c hc)).2
  have hsplit : _splitnetloc (netloc ++ '/' :: path.filter (!isUnsafe ·)) =
      (netloc, '/' :: path.filter (!isUnsafe ·)) := by
    rw [_splitnetloc, List.takeWhile_append_of_pos hinside, List.dropWhile_append_of_pos hinside,
      List.takeWhile_cons_of_neg (by decide), List.dropWhile_cons_of_neg (by decide), List.append_nil]
  have htail : ('/' :: path).filter (!isUnsafe ·) = '/' :: path.filter (!isUnsafe ·) := List.filter_cons_of_pos (by decide)
  simp only [urlsplit, hstart, hkept, hscheme, List.take_succ_cons, List.take_zero, if_true, List.drop_succ_cons,
    List.drop_zero, hsplit, tail, htail]

/-- A netloc ends where the URL does, or before a delimiter. -/
theorem splitnetloc_cases (url : List Char) :
    (∀ c ∈ (_splitnetloc url).1, c ∈ url ∧ (!(['/', '?', '#'].contains c)) = true) ∧
      (∀ c ∈ (_splitnetloc url).2, c ∈ url) ∧
      ((_splitnetloc url).2 = [] ∨ ∃ c ∈ ['/', '?', '#'], (_splitnetloc url).2.head? = some c) := by
  refine ⟨fun c hc => ⟨List.takeWhile_subset _ hc, ?_⟩, fun c hc => List.dropWhile_subset _ hc, ?_⟩
  · exact List.mem_takeWhile_imp (p := fun c => !(['/', '?', '#'].contains c)) hc
  · cases hlist : (_splitnetloc url).2 with
    | nil => exact .inl rfl
    | cons c after =>
      have hne : url.dropWhile (fun c => !(['/', '?', '#'].contains c)) ≠ [] := by
        change (_splitnetloc url).2 ≠ []
        rw [hlist]
        exact List.cons_ne_nil _ _
      have hhead := List.head_dropWhile_not (fun c => !(['/', '?', '#'].contains c)) hne
      have hc : (url.dropWhile fun c => !(['/', '?', '#'].contains c)).head hne = c := by
        change (_splitnetloc url).2.head hne = c
        simp only [hlist, List.head_cons]
      rw [hc, Bool.not_eq_false'] at hhead
      exact .inr ⟨c, by simpa using hhead, rfl⟩

/-- What a URL with a netloc is made of. -/
theorem urlsplit_ok {url : List Char} {parts : SplitResult} (h : urlsplit U url = .ok parts) :
    _check_brackets U parts.netloc = .ok () ∧ _checknetloc U parts.netloc = .ok () ∧
      (∀ c ∈ parts.netloc, isInside c = true) ∧ (parts.netloc ≠ [] → parts.path = [] ∨ parts.path.head? = some '/') ∧
      ∀ c ∈ parts.path, isUnsafe c = false ∧ c ≠ '?' ∧ c ≠ '#' := by
  have hsafe : ∀ c ∈ (url.dropWhile isC0OrSpace).filter (!isUnsafe ·), isUnsafe c = false := by
    intro c hc
    simpa using (List.mem_filter.mp hc).2
  simp only [urlsplit] at h
  generalize (url.dropWhile isC0OrSpace).filter (!isUnsafe ·) = text at h hsafe
  have hrest : ∀ c ∈ (splitScheme U text).2, isUnsafe c = false := by
    intro c hc
    unfold splitScheme at hc
    simp only at hc
    split at hc
    · exact hsafe c ((partition_mem ':' text).2 c hc)
    · exact hsafe c hc
  generalize (splitScheme U text).2 = rest at h hrest
  generalize hx : (if rest.take 2 = ['/', '/'] then _splitnetloc (rest.drop 2) else ([], rest)) = x at h
  have hparts : (∀ c ∈ x.1, isInside c = true) ∧ (x.1 ≠ [] → x.2 = [] ∨ ∃ c ∈ ['/', '?', '#'], x.2.head? = some c) ∧
      ∀ c ∈ x.2, isUnsafe c = false := by
    subst hx
    split
    · have hdrop : ∀ c ∈ rest.drop 2, isUnsafe c = false := fun c hc => hrest c (List.mem_of_mem_drop hc)
      obtain ⟨hbefore, hafter, hend⟩ := splitnetloc_cases (rest.drop 2)
      refine ⟨fun c hc => ?_, fun _ => hend, fun c hc => hdrop c (hafter c hc)⟩
      rw [isInside, hdrop c (hbefore c hc).1]
      exact (hbefore c hc).2
    · exact ⟨fun c hc => (List.not_mem_nil hc).elim, fun h => absurd rfl h, hrest⟩
  obtain ⟨_, hbrackets, h⟩ := bind_ok h
  obtain ⟨_, hcheck, h⟩ := bind_ok h
  cases h
  refine ⟨hbrackets, hcheck, hparts.1, ?_, ?_⟩
  · intro hne
    obtain hnil | ⟨c, hc, hhead⟩ := hparts.2.1 hne
    · exact .inl (by simp [split, partition, hnil])
    · obtain ⟨after, hafter⟩ := List.head?_eq_some_iff.mp hhead
      simp only [List.mem_cons, List.not_mem_nil, or_false] at hc
      obtain rfl | rfl | rfl := hc
      · exact .inr (by simp [split, partition, hafter])
      · exact .inl (by simp [split, partition, hafter])
      · exact .inl (by simp [split, partition, hafter])
  · intro c hc
    obtain ⟨hbefore, hquestion⟩ := (partition_mem '?' _).1 c hc
    obtain ⟨hmem, hhash⟩ := (partition_mem '#' _).1 c hbefore
    exact ⟨hparts.2.2 c hmem, hquestion, hhash⟩

/-- The text of a host and a port. -/
def netlocText (host : List Char) (port : Option Nat) : List Char :=
  host ++ (port.map fun n => ':' :: Nat.toDigits 10 n).getD []

theorem mem_port {c : Char} {port : Option Nat} (h : c ∈ (port.map fun n => ':' :: Nat.toDigits 10 n).getD []) :
    c = ':' ∨ c.isDigit = true := by
  cases port with
  | none => cases h
  | some n =>
    rcases List.mem_cons.mp h with rfl | h
    · exact .inl rfl
    · exact .inr (Nat.isDigit_of_mem_toDigits (by decide) (by decide) h)

/-- A port adds colons and digits only. -/
theorem not_mem_netlocText {c : Char} {host : List Char} {port : Option Nat} (h : c ∉ host) (hcolon : c ≠ ':')
    (hdigit : c.isDigit = false) : c ∉ netlocText host port := by
  intro hc
  rcases List.mem_append.mp hc with hc | hc
  · exact h hc
  · obtain hc | hc := mem_port hc
    · exact hcolon hc
    · rw [hdigit] at hc
      cases hc

theorem partition_join (c : Char) (text : List Char) :
    (partition c text).1 ++ (if (partition c text).2.1 then c :: (partition c text).2.2 else []) = text := by
  by_cases h : c ∈ text
  · obtain ⟨before, after, rfl, hbefore⟩ := List.eq_append_cons_of_mem h
    rw [partition_at hbefore]
    rfl
  · rw [partition_absent h]
    simp

section Netloc

variable {host : List Char} {port : Option Nat}

theorem hostinfo_netlocText (hat : '@' ∉ host) (hopen : '[' ∉ host) (hcolon : ':' ∉ host) :
    hostinfo (netlocText host port) = (host, (port.map fun n => Nat.toDigits 10 n).getD []) := by
  rw [hostinfo_plain (not_mem_netlocText hat (by decide) (by decide)) (not_mem_netlocText hopen (by decide) (by decide))]
  cases port with
  | none => simp [netlocText, partition_absent hcolon]
  | some n => simp [netlocText, partition_at hcolon]

theorem hostname_netlocText (hne : host ≠ []) (hat : '@' ∉ host) (hopen : '[' ∉ host) (hcolon : ':' ∉ host)
    (hlower : ∀ text : List Char, (∀ c ∈ text, c ∈ host) → lower U text = text) :
    hostname U (netlocText host port) = some host := by
  have hempty : host.isEmpty = false := by simpa using hne
  simp only [hostname, hostinfo_netlocText hat hopen hcolon, hempty, Bool.false_eq_true, if_false,
    hlower _ fun c hc => ((partition_mem '%' host).1 c hc).1, partition_join]

theorem port_netlocText (hat : '@' ∉ host) (hopen : '[' ∉ host) (hcolon : ':' ∉ host) (hport : ∀ n ∈ port, n ≤ 65535) :
    Url.port (netlocText host port) = .ok (port.map fun n : Nat => (n : Int)) := by
  rw [Url.port, hostinfo_netlocText hat hopen hcolon]
  cases port with
  | none => rfl
  | some n =>
    have hle := hport n rfl
    have hne : (Nat.toDigits 10 n).isEmpty = false := by simp
    have hdigits : (Nat.toDigits 10 n).all Char.isDigit = true :=
      List.all_eq_true.mpr fun c hc => Nat.isDigit_of_mem_toDigits (by decide) (by decide) hc
    have hbound : (n : Int) ≤ 65535 := by omega
    simp only [Option.map_some, Option.getD_some, hne, hdigits, int_port hle]
    simp only [Bool.false_eq_true, if_false, if_true]
    rw [ok_bind, if_pos hbound]
    rfl

theorem userinfo_netlocText (hat : '@' ∉ host) : userinfo (netlocText host port) = (none, none) := by
  simp [userinfo, rpartition_absent (not_mem_netlocText hat (by decide) (by decide))]

theorem brackets_netlocText (hopen : '[' ∉ host) (hclose : ']' ∉ host) :
    _check_brackets U (netlocText host port) = .ok () := by
  have hopen' : (netlocText host port).contains '[' = false := by
    simpa using not_mem_netlocText hopen (by decide) (by decide)
  have hclose' : (netlocText host port).contains ']' = false := by
    simpa using not_mem_netlocText hclose (by decide) (by decide)
  rw [_check_brackets, hopen', hclose']

theorem brackets_netlocText_open (hopen : '[' ∈ host) (hclose : ']' ∉ host) :
    ∃ e, _check_brackets U (netlocText host port) = .error e := by
  have hopen' : (netlocText host port).contains '[' = true := by
    have hmem : '[' ∈ netlocText host port := List.mem_append_left _ hopen
    simpa using hmem
  have hclose' : (netlocText host port).contains ']' = false := by
    simpa using not_mem_netlocText hclose (by decide) (by decide)
  exact ⟨_, by rw [_check_brackets, hopen', hclose']⟩

theorem checknetloc_netlocText (hexpands : ∀ c ∈ host, U.expands c = true → c.toNat < 128) :
    _checknetloc U (netlocText host port) = .ok () := by
  rw [_checknetloc, if_neg]
  rw [List.any_eq_true]
  rintro ⟨c, hc, hbad⟩
  simp only [Bool.and_eq_true, decide_eq_true_eq] at hbad
  rcases List.mem_append.mp hc with hc | hc
  · have := hexpands c hc hbad.2
    omega
  · obtain rfl | hdigit := mem_port hc
    · exact absurd hbad.1 (by decide)
    · have := (isDigit_bounds hdigit).2
      omega

end Netloc

/-- The path of what follows a netloc. -/
def pathOf (rest : List Char) : List Char := (_splitparams (tail rest).1).1

/-- A path that `urlparse` leaves as it is: no control characters that it removes, no query, no fragment
and no parameters. -/
structure Plain (path : List Char) : Prop where
  chars : ∀ c ∈ path, isUnsafe c = false ∧ c ≠ '?' ∧ c ≠ '#'
  params : ';' ∉ (rpartition '/' path).2.2

theorem partition_length (c : Char) (text : List Char) : (partition c text).1.length ≤ text.length ∧
    (c ∈ text → (partition c text).1.length < text.length) := by
  refine ⟨(List.takeWhile_sublist _).length_le, fun h => ?_⟩
  obtain ⟨before, after, rfl, hbefore⟩ := List.eq_append_cons_of_mem h
  rw [partition_at hbefore]
  simp

theorem splitparams_length (path : List Char) : (_splitparams path).1.length ≤ path.length ∧
    (';' ∈ (rpartition '/' path).2.2 → (_splitparams path).1.length < path.length) ∧
    (';' ∉ (rpartition '/' path).2.2 → (_splitparams path).1 = path) := by
  obtain ⟨hle, hlt⟩ := partition_length ';' (rpartition '/' path).2.2
  by_cases h : '/' ∈ path
  · have heq := (rpartition_present h).1
    have hfound : (rpartition '/' path).2.1 = true := by simp [rpartition, h]
    have hpath : (_splitparams path).1 =
        (rpartition '/' path).1 ++ '/' :: (partition ';' (rpartition '/' path).2.2).1 := by
      simp only [_splitparams, hfound, if_true, split]
    have hlen : path.length = (rpartition '/' path).1.length + ((rpartition '/' path).2.2.length + 1) := by
      conv_lhs => rw [heq]
      rw [List.length_append, List.length_cons]
    rw [hpath, List.length_append, List.length_cons]
    refine ⟨by omega, fun hin => ?_, fun hno => ?_⟩
    · have hless := hlt hin
      omega
    · rw [partition_absent hno]
      exact heq.symm
  · rw [rpartition_absent h] at hle hlt ⊢
    have hpath : (_splitparams path).1 = (partition ';' path).1 := by simp [_splitparams, rpartition_absent h, split]
    rw [hpath]
    exact ⟨hle, hlt, fun hno => by rw [partition_absent hno]⟩

theorem splitparams_head {path : List Char} (h : path.head? = some '/') : (_splitparams path).1.head? = some '/' := by
  have hmem : '/' ∈ path := List.mem_of_mem_head? h
  obtain ⟨heq, _⟩ := rpartition_present hmem
  have hfound : (rpartition '/' path).2.1 = true := by simp [rpartition, hmem]
  simp only [_splitparams, hfound, if_true]
  cases hbefore : (rpartition '/' path).1 with
  | nil => rfl
  | cons c before =>
    rw [heq, hbefore] at h
    exact h

/-- A plain path is read back, with neither query nor fragment. -/
theorem tail_plain {path : List Char} (h : ∀ c ∈ path, isUnsafe c = false ∧ c ≠ '?' ∧ c ≠ '#') : tail path = (path, [], []) := by
  have hkept : path.filter (!isUnsafe ·) = path := List.filter_eq_self.mpr fun c hc => by simp [(h c hc).1]
  have hhash : '#' ∉ path := fun hc => (h _ hc).2.2 rfl
  have hquestion : '?' ∉ path := fun hc => (h _ hc).2.1 rfl
  simp [tail, split, hkept, partition_absent hhash, partition_absent hquestion]

theorem pathOf_plain {path : List Char} (h : Plain path) : pathOf path = path := by
  rw [pathOf, tail_plain h.chars]
  exact (splitparams_length path).2.2 h.params

/-- Any other path is read back as a shorter one. -/
theorem pathOf_length {path : List Char} (h : ¬ Plain path) : (pathOf path).length < path.length := by
  have hparams := (splitparams_length (tail path).1).1
  have hquestion := partition_length '?' (partition '#' (path.filter (!isUnsafe ·))).1
  have hhash := partition_length '#' (path.filter (!isUnsafe ·))
  have hkept : (path.filter (!isUnsafe ·)).length ≤ path.length := List.length_filter_le _ _
  change (_splitparams (partition '?' (partition '#' (path.filter (!isUnsafe ·))).1).1).1.length ≤
    (partition '?' (partition '#' (path.filter (!isUnsafe ·))).1).1.length at hparams
  change (_splitparams (partition '?' (partition '#' (path.filter (!isUnsafe ·))).1).1).1.length < path.length
  by_cases hchars : ∀ c ∈ path, isUnsafe c = false ∧ c ≠ '?' ∧ c ≠ '#'
  · have hlast : ';' ∈ (rpartition '/' path).2.2 := by
      by_contra hno
      exact h ⟨hchars, hno⟩
    have hshort := (splitparams_length path).2.1 hlast
    have hpath : (partition '?' (partition '#' (path.filter (!isUnsafe ·))).1).1 = path :=
      congrArg Prod.fst (tail_plain hchars)
    rwa [hpath]
  · push Not at hchars
    obtain ⟨c, hc, hbad⟩ := hchars
    by_cases hunsafe : isUnsafe c = true
    · have hless : (path.filter (!isUnsafe ·)).length < path.length :=
        List.length_filter_lt_length_iff_exists.mpr ⟨c, hc, by simpa using hunsafe⟩
      omega
    · have hmem : c ∈ path.filter (!isUnsafe ·) := List.mem_filter.mpr ⟨hc, by simpa using hunsafe⟩
      by_cases hin : '#' ∈ path.filter (!isUnsafe ·)
      · have hless := hhash.2 hin
        omega
      · have hmark : c = '?' := by
          by_contra hne
          exact hin (hbad (by simpa using hunsafe) hne ▸ hmem)
        rw [partition_absent hin] at hquestion hparams ⊢
        have hless := hquestion.2 (hmark ▸ hmem)
        dsimp only at *
        omega

theorem pathOf_head {path : List Char} (h : path.head? = some '/') : (pathOf path).head? = some '/' := by
  obtain ⟨rest, rfl⟩ := List.head?_eq_some_iff.mp h
  refine splitparams_head ?_
  simp [tail, split, partition, isUnsafe]

end Https

/-- `rstrip("/")`, or a slash where nothing is left, and a slash before what does not start with one. -/
def slashed (path : List Char) : List Char :=
  match path.rdropWhile (· == '/') with
  | [] => ['/']
  | c :: rest => if c = '/' then c :: rest else '/' :: c :: rest

theorem slashed_head (path : List Char) : (slashed path).head? = some '/' := by
  unfold slashed
  split
  · rfl
  · split
    · rename_i hc
      rw [hc]
      rfl
    · rfl

theorem slashed_length {path : List Char} (h : path.head? = some '/') : (slashed path).length ≤ path.length := by
  obtain ⟨rest, rfl⟩ := List.head?_eq_some_iff.mp h
  obtain ⟨cut, hcut⟩ := List.rdropWhile_prefix (· == '/') (l := '/' :: rest)
  unfold slashed
  split
  · simp
  · rename_i c kept hkept
    rw [hkept] at hcut
    obtain ⟨rfl, hrest⟩ := List.cons.inj hcut
    rw [if_pos rfl, ← hrest]
    simp

/-- Nothing is left to strip. -/
theorem slashed_slashed (path : List Char) : slashed (slashed path) = slashed path := by
  have hidem := List.rdropWhile_idempotent (p := (· == '/')) path
  cases hkept : path.rdropWhile (· == '/') with
  | nil =>
    have hslash : slashed path = ['/'] := by rw [slashed, hkept]
    rw [hslash]
    rfl
  | cons c kept =>
    rw [hkept] at hidem
    by_cases hc : c = '/'
    · have hslash : slashed path = c :: kept := by rw [slashed, hkept]; exact if_pos hc
      rw [hslash, slashed, hidem]
      exact if_pos hc
    · have hslash : slashed path = '/' :: c :: kept := by rw [slashed, hkept]; exact if_neg hc
      have hlast : ('/' :: c :: kept).rdropWhile (· == '/') = '/' :: c :: kept := by
        rw [List.rdropWhile_eq_self_iff]
        intro _
        rw [List.getLast_cons (List.cons_ne_nil _ _)]
        exact List.rdropWhile_eq_self_iff.mp hidem (List.cons_ne_nil _ _)
      rw [hslash, slashed, hlast]
      rfl

/-- What `urlunparse` makes of a path that was stripped. -/
theorem urlunparse_slashed (netloc : List Char) (path : String) :
    urlunparse (String.ofList netloc) (if (rstrip '/' path).isEmpty then "/" else rstrip '/' path) =
      String.ofList ("https:".toList ++ '/' :: '/' :: (netloc ++ slashed path.toList)) := by
  have hstrip : rstrip '/' path = String.ofList (path.toList.rdropWhile (· == '/')) := rfl
  apply String.toList_injective
  rw [hstrip, slashed]
  cases path.toList.rdropWhile (· == '/') with
  | nil => simp [urlunparse]
  | cons c kept =>
    by_cases hc : c = '/'
    · simp [urlunparse, hc]
    · simp [urlunparse, hc]

end Url

section Endpoint

variable (U : Urls)

/-- The host as it is compared with the approved ones. -/
def hostOf (parsed : ParseResult) : String := rstrip '.' (U.lower (parsed.hostname.getD ""))

/-- The checks that an endpoint passes, its port apart. -/
structure Accepts (allowed_hosts : List String) (parsed : ParseResult) : Prop where
  scheme : parsed.scheme = "https"
  host : (hostOf U parsed).isEmpty = false
  approved : (((allowed_hosts.filter fun item => !isBlank item).map fun item =>
    rstrip '.' (U.lower (str_strip item))).contains (hostOf U parsed)) = true
  allowed : is_disallowed_host U (hostOf U parsed) = false
  username : isTruthy parsed.username = false
  password : isTruthy parsed.password = false
  query : parsed.query = ""
  fragment : parsed.fragment = ""

/-- The text that an endpoint with a host, a port and a path is sanitised to. -/
def sanitised (host : List Char) (port : Option Nat) (path : List Char) : String :=
  String.ofList ("https:".toList ++ '/' :: '/' :: (Url.netlocText host port ++ Url.slashed path))

variable {U}

theorem netloc_eq (host : String) (port : Option Nat) :
    ((port.map fun n : Nat => (n : Int)).map fun port : Int => host ++ ":" ++ toString port).getD host =
      String.ofList (Url.netlocText host.toList port) := by
  apply String.toList_injective
  cases port with
  | none => simp [Url.netlocText]
  | some n =>
    have htext : toString (n : Int) = String.ofList (Nat.toDigits 10 n) := Nat.toString_eq_ofList_toDigits
    rw [Option.map_some, Option.map_some, Option.getD_some, htext]
    simp [Url.netlocText]

theorem sanitised_eq (host : String) (port : Option Nat) (path : String) : sanitised host.toList port path.toList =
    urlunparse (((port.map fun n : Nat => (n : Int)).map fun port : Int => host ++ ":" ++ toString port).getD host)
      (if (rstrip '/' path).isEmpty then "/" else rstrip '/' path) := by
  rw [netloc_eq]
  exact (Url.urlunparse_slashed _ _).symm

/-- A port in range is a number. -/
theorem port_range {port : Option Int} : (port.any fun port => !(1 ≤ port && port ≤ 65535)) = false ↔
    ∃ p : Option Nat, port = p.map (fun n : Nat => (n : Int)) ∧ ∀ n ∈ p, 1 ≤ n ∧ n ≤ 65535 := by
  cases port with
  | none => exact iff_of_true rfl ⟨none, rfl, by simp⟩
  | some n =>
    simp only [Option.any_some, Bool.not_eq_false', Bool.and_eq_true, decide_eq_true_eq]
    constructor
    · rintro ⟨hlo, hhi⟩
      refine ⟨some n.toNat, ?_, ?_⟩
      · rw [Option.map_some, Int.toNat_of_nonneg (by omega)]
      · intro m hm
        cases hm
        omega
    · rintro ⟨p, hp, hrange⟩
      cases p with
      | none => cases hp
      | some m =>
        cases hp
        obtain ⟨hlo, hhi⟩ := hrange m rfl
        exact ⟨Int.ofNat_le.mpr hlo, Int.ofNat_le.mpr hhi⟩

theorem validated_iff {endpoint label default_path u : String} {allowed_hosts : List String} {parsed : ParseResult}
    (hparse : U.urlparse endpoint = .ok parsed) :
    validated_https_endpoint U endpoint allowed_hosts label default_path = .ok u ↔ Accepts U allowed_hosts parsed ∧
      ∃ port : Option Nat, parsed.port = .ok (port.map fun n : Nat => (n : Int)) ∧ (∀ n ∈ port, 1 ≤ n ∧ n ≤ 65535) ∧
        u = sanitised (hostOf U parsed).toList port (if parsed.path.isEmpty then default_path else parsed.path).toList := by
  rw [validated_https_endpoint, hparse, ok_bind]
  simp only
  constructor
  · intro h
    split at h
    · cases h
    split at h
    · cases h
    rename_i hhost hsecret
    obtain ⟨port, hport, hrange, hu⟩ : ∃ port : Option Nat, parsed.port = .ok (port.map fun n : Nat => (n : Int)) ∧
        (∀ n ∈ port, 1 ≤ n ∧ n ≤ 65535) ∧ u = sanitised (hostOf U parsed).toList port
          (if parsed.path.isEmpty then default_path else parsed.path).toList := by
      split at h
      · cases h
      · cases h
      · rename_i port hport
        by_cases hany : (port.any fun port => !(1 ≤ port && port ≤ 65535)) = true
        · rw [if_pos hany] at h
          cases h
        · rw [if_neg hany] at h
          obtain ⟨p, rfl, hrange⟩ := port_range.mp (Bool.eq_false_iff.mpr hany)
          refine ⟨p, hport, hrange, ?_⟩
          have hu := Except.ok.inj h
          rw [sanitised_eq]
          exact hu.symm
    simp only [Bool.or_eq_true, not_or] at hhost hsecret
    obtain ⟨⟨⟨hscheme, hne⟩, happroved⟩, hallowed⟩ := hhost
    obtain ⟨⟨⟨husername, hpassword⟩, hquery⟩, hfragment⟩ := hsecret
    refine ⟨⟨?_, Bool.eq_false_iff.mpr hne, ?_, Bool.eq_false_iff.mpr hallowed, Bool.eq_false_iff.mpr husername,
      Bool.eq_false_iff.mpr hpassword, ?_, ?_⟩, port, hport, hrange, hu⟩
    · simpa using hscheme
    · exact Bool.not_eq_false' .. ▸ Bool.eq_false_iff.mpr happroved
    · simpa using hquery
    · simpa using hfragment
  · rintro ⟨hacc, port, hport, hrange, rfl⟩
    rw [if_neg, if_neg, hport]
    · have hany := Bool.eq_false_iff.mp (port_range.mpr ⟨port, rfl, hrange⟩)
      dsimp only
      rw [if_neg hany, sanitised_eq]
      rfl
    · simp [hacc.username, hacc.password, hacc.query, hacc.fragment]
    · simp only [Bool.or_eq_true, not_or]
      refine ⟨⟨⟨by simp [hacc.scheme], Bool.eq_false_iff.mp hacc.host⟩, Bool.eq_false_iff.mp ?_⟩,
        Bool.eq_false_iff.mp hacc.allowed⟩
      rw [Bool.not_eq_false']
      exact hacc.approved

end Endpoint

section Target

variable {U : Unicode} {is_global : String → Option Bool}

/-- The endpoint keeps its approved target when it is parsed again. -/
structure Preserved (U : Unicode) (is_global : String → Option Bool) (allowed_hosts : List String)
    (label default_path : String) (parsed : ParseResult) (u : String) : Prop where
  again : ∃ parsed', Url.urlparse U u = .ok parsed' ∧ parsed'.scheme = "https" ∧
    parsed'.hostname = some (hostOf (U.urls is_global) parsed) ∧ parsed'.port = parsed.port ∧
    parsed'.username = none ∧ parsed'.password = none ∧ parsed'.query = "" ∧ parsed'.fragment = ""
  approved : (((allowed_hosts.filter fun item => !isBlank item).map fun item =>
    rstrip '.' (U.lower (str_strip item))).contains (hostOf (U.urls is_global) parsed)) = true
  allowed : is_disallowed_host (U.urls is_global) (hostOf (U.urls is_global) parsed) = false
  stable : validated_https_endpoint (U.urls is_global) u allowed_hosts label default_path = .ok u

/-- What is known of the host of an endpoint that was accepted. -/
structure HostFacts (U : Unicode) (host : List Char) : Prop where
  nonempty : host ≠ []
  at_sign : '@' ∉ host
  close : ']' ∉ host
  inside : ∀ c ∈ host, Url.isInside c = true
  expands : ∀ c ∈ host, U.expands c = true → c.toNat < 128
  lower : ∀ text : List Char, (∀ c ∈ text, c ∈ host) → Url.lower U text = text
  dot : (host.rdropWhile (· == '.')) = host

theorem isTruthy_false {text : Option (List Char)} (h : isTruthy (text.map String.ofList) = false) :
    text = none ∨ text = some [] := by
  cases text with
  | none => exact .inl rfl
  | some text =>
    cases text with
    | nil => exact .inr rfl
    | cons c text => simp [isTruthy, truthy] at h

/-- Marks of the netloc that a host cannot have. -/
theorem inside_of_mark {netloc : List Char} (hnetloc : ∀ c ∈ netloc, Url.isInside c = true) {c : Char}
    (h : Url.Mark U c → c ∈ netloc) : Url.isInside c = true := by
  by_contra hout
  refine hout (hnetloc c (h (.inl ?_)))
  simp only [Url.isInside, Url.isUnsafe, List.contains_eq_mem, List.mem_cons, List.not_mem_nil, or_false, Bool.and_eq_true,
    Bool.not_eq_true', decide_eq_false_iff_not, not_and_or, not_not] at hout
  obtain (rfl | rfl | rfl) | rfl | rfl | rfl := hout <;> decide

/-- The host of an endpoint comes from its netloc, in lower case and without dots at its end. -/
theorem hostOf_eq {endpoint : String} {parsed : ParseResult} (hparse : Url.urlparse U endpoint = .ok parsed)
    (hne : (hostOf (U.urls is_global) parsed).isEmpty = false) : ∃ parts host, Url.urlsplit U endpoint.toList = .ok parts ∧
      parsed.username = (Url.userinfo parts.netloc).1.map String.ofList ∧
      parsed.password = (Url.userinfo parts.netloc).2.map String.ofList ∧ Url.hostname U parts.netloc = some host ∧
      (hostOf (U.urls is_global) parsed).toList = (Url.lower U host).rdropWhile (· == '.') := by
  obtain ⟨parts, hsplit, hparsed⟩ := bind_ok hparse
  cases hparsed
  cases hhost : Url.hostname U parts.netloc with
  | none =>
    have hlower : U.lower "" = "" := U.lower_ascii "" (by simp)
    simp [hostOf, hhost, Unicode.urls, hlower, rstrip] at hne
  | some host => exact ⟨parts, host, hsplit, rfl, rfl, hhost,
      by simp [hostOf, Unicode.urls, rstrip, Url.lower, List.rdropWhile]⟩

theorem hostFacts {endpoint : String} {allowed_hosts : List String} {parsed : ParseResult}
    (hparse : Url.urlparse U endpoint = .ok parsed) (hacc : Accepts (U.urls is_global) allowed_hosts parsed) :
    HostFacts U (hostOf (U.urls is_global) parsed).toList := by
  obtain ⟨parts, host, hsplit, husername, hpassword, hhost, htext⟩ := hostOf_eq hparse hacc.host
  obtain ⟨hbrackets, hcheck, hnetloc, _, _⟩ := Url.urlsplit_ok hsplit
  have hmarks := Url.hostinfo_marks hbrackets (isTruthy_false (husername ▸ hacc.username))
    (isTruthy_false (hpassword ▸ hacc.password))
  have hchars : ∀ c ∈ (hostOf (U.urls is_global) parsed).toList, c ∈ Url.lower U host := by
    intro c hc
    rw [htext] at hc
    exact (List.rdropWhile_prefix (· == '.') _).subset hc
  have hname : ∀ c ∈ (hostOf (U.urls is_global) parsed).toList, Url.Mark U c → c ∈ (Url.hostinfo parts.netloc).1 :=
    fun c hc hmark => Url.mem_hostname hmark hhost (Url.mem_lower hmark (hchars c hc))
  have hwhole : ∀ c ∈ (hostOf (U.urls is_global) parsed).toList, Url.Mark U c → c ∈ parts.netloc :=
    fun c hc hmark => (Url.rpartition_last '@' parts.netloc).2 c (Url.mem_info (hname c hc hmark))
  refine ⟨?_, ?_, ?_, ?_, ?_, ?_, ?_⟩
  · have hne := hacc.host
    intro hnil
    simp [String.toList_eq_nil_iff.mp hnil] at hne
  · exact fun h => hmarks.1 (hname _ h (.inl (by decide)))
  · exact fun h => hmarks.2 (hname _ h (.inl (by decide)))
  · exact fun c hc => inside_of_mark hnetloc (hwhole c hc)
  · intro c hc hexpands
    have hmem := hwhole c hc (.inr hexpands)
    by_contra hlarge
    have hany : (parts.netloc.any fun c => 128 ≤ c.toNat && U.expands c) = true :=
      List.any_eq_true.mpr ⟨c, hmem, by simp [hexpands]; omega⟩
    rw [Url._checknetloc, if_pos hany] at hcheck
    cases hcheck
  · intro text hsub
    have hfixed := U.lower_fixed (String.ofList host) (String.ofList text) fun c hc => by
      rw [String.toList_ofList] at hc
      exact hchars c (hsub c hc)
    rw [Url.lower, hfixed, String.toList_ofList]
  · rw [htext, List.rdropWhile_idempotent]

theorem inside_digit {c : Char} (h : c.isDigit = true) : Url.isInside c = true := by
  by_contra hout
  have hmark : c ∈ ['\t', '\r', '\n'] ∨ c ∈ ['/', '?', '#'] := by
    simp only [Url.isInside, Url.isUnsafe, List.contains_eq_mem, Bool.and_eq_true, Bool.not_eq_true',
      decide_eq_false_iff_not, not_and_or, not_not] at hout
    exact hout
  simp only [List.mem_cons, List.not_mem_nil, or_false] at hmark
  obtain (rfl | rfl | rfl) | rfl | rfl | rfl := hmark <;> cases h

theorem toList_sanitised (host : List Char) (port : Option Nat) (path : List Char) :
    (sanitised host port path).toList =
      "https:".toList ++ '/' :: '/' :: (Url.netlocText host port ++ Url.slashed path) := String.toList_ofList

/-- A sanitised endpoint, taken apart. -/
theorem urlparse_sanitised {host : List Char} (hf : HostFacts U host) (port : Option Nat) (path : List Char) :
    Url.urlparse U (sanitised host port path) = (do
      Url._check_brackets U (Url.netlocText host port)
      return {
        scheme := "https"
        username := (Url.userinfo (Url.netlocText host port)).1.map String.ofList
        password := (Url.userinfo (Url.netlocText host port)).2.map String.ofList
        hostname := (Url.hostname U (Url.netlocText host port)).map String.ofList
        port := Url.port (Url.netlocText host port)
        path := String.ofList (Url.pathOf (Url.slashed path))
        query := String.ofList (Url.tail (Url.slashed path)).2.1
        fragment := String.ofList (Url.tail (Url.slashed path)).2.2 }) := by
  have hinside : ∀ c ∈ Url.netlocText host port, Url.isInside c = true := by
    intro c hc
    rcases List.mem_append.mp hc with hc | hc
    · exact hf.inside c hc
    · obtain rfl | hdigit := Url.mem_port hc
      · decide
      · exact inside_digit hdigit
  have hsplit := Url.urlsplit_https (U := U) hinside (Url.slashed_head path)
  rw [Url.checknetloc_netlocText hf.expands] at hsplit
  rw [Url.urlparse, toList_sanitised, hsplit]
  cases Url._check_brackets U (Url.netlocText host port) with
  | error e => rfl
  | ok _ => rfl

/-- A host that is read back from the authority it is put in. -/
def PlainHost (host : List Char) : Prop := ':' ∉ host ∧ '[' ∉ host

/-- What a sanitised endpoint is parsed to where its host is plain. -/
def reparsed (host : List Char) (port : Option Nat) (path : List Char) : ParseResult where
  scheme := "https"
  hostname := some (String.ofList host)
  port := .ok (port.map fun n : Nat => (n : Int))
  path := String.ofList (Url.pathOf (Url.slashed path))
  query := String.ofList (Url.tail (Url.slashed path)).2.1
  fragment := String.ofList (Url.tail (Url.slashed path)).2.2

theorem urlparse_plain {host : List Char} (hf : HostFacts U host) (hplain : PlainHost host) {port : Option Nat}
    (hport : ∀ n ∈ port, n ≤ 65535) (path : List Char) :
    Url.urlparse U (sanitised host port path) = .ok (reparsed host port path) := by
  rw [urlparse_sanitised hf, Url.brackets_netlocText hplain.2 hf.close, ok_bind, Url.userinfo_netlocText hf.at_sign,
    Url.hostname_netlocText hf.nonempty hf.at_sign hplain.2 hplain.1 hf.lower,
    Url.port_netlocText hf.at_sign hplain.2 hplain.1 hport]
  rfl

/-- A host with a bracket or a colon is not read back. -/
theorem urlparse_literal {host : List Char} (hf : HostFacts U host) (hliteral : ¬ PlainHost host) {port : Option Nat}
    {path : List Char} {parsed : ParseResult} (h : Url.urlparse U (sanitised host port path) = .ok parsed) :
    parsed.hostname ≠ some (String.ofList host) := by
  rw [urlparse_sanitised hf] at h
  obtain ⟨_, hbrackets, h⟩ := bind_ok h
  cases h
  intro hname
  have hopen : '[' ∉ host := by
    intro hopen
    obtain ⟨e, he⟩ : ∃ e, Url._check_brackets U (Url.netlocText host port) = .error e :=
      Url.brackets_netlocText_open hopen hf.close
    rw [he] at hbrackets
    cases hbrackets
  have hcolon : ':' ∈ host := by
    by_contra hno
    exact hliteral ⟨hno, hopen⟩
  obtain ⟨name, hhost, hsame⟩ := Option.map_eq_some_iff.mp hname
  obtain rfl : name = host := String.ofList_injective hsame
  have hmem := Url.mem_hostname (.inl (by decide)) hhost hcolon
  rw [Url.hostinfo_plain (Url.not_mem_netlocText hf.at_sign (by decide) (by decide))
    (Url.not_mem_netlocText hopen (by decide) (by decide))] at hmem
  exact ((Url.partition_mem ':' _).1 _ hmem).2 rfl

theorem sanitised_congr (host : List Char) (port : Option Nat) {path path' : List Char}
    (h : Url.slashed path = Url.slashed path') : sanitised host port path = sanitised host port path' := by
  apply String.toList_injective
  rw [toList_sanitised, toList_sanitised, h]

theorem sanitised_path {host : List Char} {port : Option Nat} {path path' : List Char}
    (h : sanitised host port path = sanitised host port path') : Url.slashed path = Url.slashed path' := by
  have htext := congrArg String.toList h
  rw [toList_sanitised, toList_sanitised] at htext
  have hrest := List.append_cancel_left htext
  exact List.append_cancel_left (List.cons.inj (List.cons.inj hrest).2).2

theorem hostOf_reparsed {host : List Char} (hf : HostFacts U host) (port : Option Nat) (path : List Char) :
    (hostOf (U.urls is_global) (reparsed host port path)).toList = host := by
  have hlower := hf.lower host fun _ => id
  rw [Url.lower] at hlower
  have hhost : hostOf (U.urls is_global) (reparsed host port path) =
      String.ofList ((U.lower (String.ofList host)).toList.rdropWhile (· == '.')) := rfl
  rw [hhost, hlower, String.toList_ofList, hf.dot]

/-- An accepted endpoint with a plain host is accepted again as it is if and only if its path is plain. -/
theorem stable_iff {endpoint label default_path : String} {allowed_hosts : List String} {parsed : ParseResult}
    {port : Option Nat} {path : List Char} (hparse : Url.urlparse U endpoint = .ok parsed)
    (hacc : Accepts (U.urls is_global) allowed_hosts parsed)
    (hplain : PlainHost (hostOf (U.urls is_global) parsed).toList) (hport : ∀ n ∈ port, 1 ≤ n ∧ n ≤ 65535) :
    validated_https_endpoint (U.urls is_global) (sanitised (hostOf (U.urls is_global) parsed).toList port path)
        allowed_hosts label default_path = .ok (sanitised (hostOf (U.urls is_global) parsed).toList port path) ↔
      Url.Plain (Url.slashed path) := by
  have hf := hostFacts hparse hacc
  have hagain := urlparse_plain hf hplain (fun n hn => (hport n hn).2) path
  have hsame : hostOf (U.urls is_global) (reparsed (hostOf (U.urls is_global) parsed).toList port path) =
      hostOf (U.urls is_global) parsed := String.toList_injective (hostOf_reparsed hf port path)
  have hhead := Url.pathOf_head (Url.slashed_head path)
  have hpath : (reparsed (hostOf (U.urls is_global) parsed).toList port path).path.isEmpty = false := by
    obtain ⟨rest, hrest⟩ := List.head?_eq_some_iff.mp hhead
    simp [reparsed, hrest]
  rw [validated_iff (U := U.urls is_global) hagain, hpath, hsame]
  constructor
  · rintro ⟨_, port', hport', _, hu⟩
    have hports : port.map (fun n : Nat => (n : Int)) = port'.map fun n : Nat => (n : Int) := Except.ok.inj hport'
    obtain rfl : port = port' := Option.map_injective (fun _ _ => Int.ofNat.inj) hports
    have hslashed := sanitised_path hu
    rw [if_neg (by decide)] at hslashed
    by_contra hnot
    have hless := Url.pathOf_length hnot
    have hle := Url.slashed_length hhead
    have hlen := congrArg List.length hslashed
    rw [reparsed, String.toList_ofList] at hlen
    omega
  · intro hp
    refine ⟨⟨rfl, ?_, ?_, ?_, rfl, rfl, ?_, ?_⟩, port, rfl, hport, ?_⟩
    · rw [hsame]
      exact hacc.host
    · rw [hsame]
      exact hacc.approved
    · rw [hsame]
      exact hacc.allowed
    · rw [reparsed, Url.tail_plain hp.chars]
    · rw [reparsed, Url.tail_plain hp.chars]
    · refine sanitised_congr _ _ ?_
      rw [if_neg (by decide), reparsed, String.toList_ofList, Url.pathOf_plain hp, Url.slashed_slashed]

/-- An endpoint keeps its target if and only if its host is no literal with a colon, and its path has
no parameters. -/
theorem endpoint_preserved_iff (U : Unicode) (is_global : String → Option Bool) (allowed_hosts : List String)
    (endpoint label default_path u : String) (parsed : ParseResult) (hparse : Url.urlparse U endpoint = .ok parsed)
    (hu : validated_https_endpoint (U.urls is_global) endpoint allowed_hosts label default_path = .ok u) :
    Preserved U is_global allowed_hosts label default_path parsed u ↔
      PlainHost (hostOf (U.urls is_global) parsed).toList ∧
        Url.Plain (Url.slashed (if parsed.path.isEmpty then default_path else parsed.path).toList) := by
  obtain ⟨hacc, port, hport, hrange, rfl⟩ := (validated_iff (U := U.urls is_global) hparse).mp hu
  have hf := hostFacts hparse hacc
  constructor
  · rintro ⟨⟨parsed', hagain, _, hname, _⟩, _, _, hstable⟩
    have hplain : PlainHost (hostOf (U.urls is_global) parsed).toList := by
      by_contra hliteral
      refine urlparse_literal hf hliteral hagain ?_
      rw [hname, String.ofList_toList]
    exact ⟨hplain, (stable_iff hparse hacc hplain hrange).mp hstable⟩
  · rintro ⟨hplain, hpath⟩
    refine ⟨⟨_, urlparse_plain hf hplain (fun n hn => (hrange n hn).2) _, rfl, ?_, ?_, rfl, rfl, ?_, ?_⟩, hacc.approved,
      hacc.allowed, (stable_iff hparse hacc hplain hrange).mpr hpath⟩
    · rw [reparsed, String.ofList_toList]
    · exact hport.symm
    · rw [reparsed, Url.tail_plain hpath.chars]
    · rw [reparsed, Url.tail_plain hpath.chars]

end Target

section Samples

/-- A capital becomes a small letter. -/
theorem toLower_of_isUpper {c : Char} (h : c.isUpper = true) : c.toLower.isUpper = false ∧ c.toLower.isAlpha = true := by
  have hbounds : 65 ≤ c.toNat ∧ c.toNat ≤ 90 := by
    obtain ⟨hlo, hhi⟩ := of_decide_eq_true h
    exact ⟨UInt32.le_iff_toNat_le.mp hlo, UInt32.le_iff_toNat_le.mp hhi⟩
  rw [← Char.ofNat_toNat c]
  obtain ⟨hlo, hhi⟩ := hbounds
  generalize c.toNat = n at hlo hhi
  interval_cases n <;> decide

theorem toLower_of_not_isUpper {c : Char} (h : c.isUpper = false) : c.toLower = c := by
  exact dif_neg (of_decide_eq_false h)

theorem toLower_toLower (c : Char) : c.toLower.toLower = c.toLower := by
  cases h : c.isUpper with
  | true => exact toLower_of_not_isUpper (toLower_of_isUpper h).1
  | false => rw [toLower_of_not_isUpper h, toLower_of_not_isUpper h]
/-- Unicode for ASCII texts, with one IPv6 address. -/
def ascii : Unicode where
  lower s := String.ofList (s.toList.map Char.toLower)
  expands _ := false
  version s := if s = "2606:4700::1111" then some 6 else none
  lower_fixed s t h := by
    apply String.toList_injective
    rw [String.toList_ofList]
    refine (List.map_congr_left fun c hc => ?_).trans (List.map_id _)
    have hmem := h c hc
    rw [String.toList_ofList, List.mem_map] at hmem
    obtain ⟨d, _, rfl⟩ := hmem
    exact toLower_toLower d
  lower_ascii _ _ := rfl
  lower_marks s c h hmark := by
    rw [String.toList_ofList, List.mem_map] at h
    obtain ⟨d, hd, rfl⟩ := h
    cases hupper : d.isUpper with
    | true =>
      rcases hmark with ⟨_, hno⟩ | hno
      · rw [(toLower_of_isUpper hupper).2] at hno
        cases hno
      · cases hno
    | false => rwa [toLower_of_not_isUpper hupper]

def onlyAddress (s : String) : Option Bool := if s = "2606:4700::1111" then some true else none

deriving instance DecidableEq for ParseResult

def sampleParts : ParseResult where
  scheme := "https"
  hostname := some "api.example.com."
  port := .ok (some 8443)
  path := "/v1/"

theorem samplePath : Url.slashed (if sampleParts.path.isEmpty then "/" else sampleParts.path).toList = ['/', 'v', '1'] := by
  decide +kernel

/-- Upper case, a trailing dot and a port. -/
theorem endpoint_preserved_sample :
    Preserved ascii onlyAddress ["api.example.com"] "MCP" "/" sampleParts "https://api.example.com:8443/v1" := by
  refine (endpoint_preserved_iff ascii onlyAddress ["api.example.com"] "https://API.Example.com.:8443/v1/" "MCP" "/"
    "https://api.example.com:8443/v1" sampleParts (by decide +kernel) (by decide +kernel)).mpr
    ⟨⟨by decide +kernel, by decide +kernel⟩, ?_⟩
  rw [samplePath]
  exact ⟨by simp [Url.isUnsafe], by decide⟩

def literalParts : ParseResult where
  scheme := "https"
  hostname := some "2606:4700::1111"
  path := "/"

/-- The brackets of an address are lost, and the result is refused. -/
theorem literal_lost : Url.urlparse ascii "https://[2606:4700::1111]/" = .ok literalParts ∧
    validated_https_endpoint (ascii.urls onlyAddress) "https://[2606:4700::1111]/" ["2606:4700::1111"] "MCP" "/" =
      .ok "https://2606:4700::1111/" ∧
    ¬ Preserved ascii onlyAddress ["2606:4700::1111"] "MCP" "/" literalParts "https://2606:4700::1111/" := by
  refine ⟨by decide +kernel, by decide +kernel, fun h => ?_⟩
  have hrefused : validated_https_endpoint (ascii.urls onlyAddress) "https://2606:4700::1111/" ["2606:4700::1111"] "MCP" "/" =
      .error (.valueError "MCP endpoint must be HTTPS, public and match an approved host") := by decide +kernel
  rw [h.stable] at hrefused
  cases hrefused

end Samples

end EnterpriseCopilot.Runtime
