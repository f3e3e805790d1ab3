import Mathlib.Data.Set.Finite.Basic
import EnterpriseCopilot.Plugin.Files

/-! What the digest of a plugin says about the files that are installed. -/

namespace EnterpriseCopilot.Plugin

open EnterpriseCopilot.Python

/-- Directories that `install` cannot tell apart. -/
structure Alike (t t' : Tree) : Prop where
  safe : t'.hasSymlink = t.hasSymlink
  manifest : t'.at? manifest_path = t.at? manifest_path
  target : ∀ path e, t.at? path = some e → ∃ e', t'.at? path = some e' ∧ (e' = .dir ↔ e = .dir)
  skills : ∀ path, skill_files t' path = skill_files t path
  mcp : ∀ path, mcp_files t' path = mcp_files t path
  hashed : ∀ root, hashed root t' = hashed root t

section Checked

variable {sha256 : Hexdigest} {L : Library} {root : Path} {t t' : Tree}

theorem at?_linkless {path : Path} (hlink : t.hasSymlink = false) : t.at? path ≠ some .symlink := by
  intro hat
  have hpath : path ≠ [] := by
    rintro rfl
    cases hat
  exact List.any_eq_false.mp hlink _ ((Tree.at?_eq_some hpath).mp hat) rfl

/-- Without links a path leads to what is there. -/
theorem follow_inside {path place : Path} (hlink : t.hasSymlink = false)
    (h : follow L.resolve t path = .ok (.inside place)) :
    place = path ∧ (t.at? path = some .dir ∨ ∃ content, t.at? path = some (.file content)) := by
  unfold follow at h
  split at h
  · rename_i hdir
    exact ⟨(Target.inside.inj (Except.ok.inj h)).symm, .inl hdir⟩
  · rename_i content hfile
    exact ⟨(Target.inside.inj (Except.ok.inj h)).symm, .inr ⟨content, hfile⟩⟩
  · rw [L.resolve_linkless _ _ _ h] at hlink
    cases hlink

theorem Alike.follow (h : Alike t t') {path place : Path} (hlink : t.hasSymlink = false)
    (hok : follow L.resolve t path = .ok (.inside place)) :
    follow L.resolve t' path = .ok (.inside place) ∧ ∃ e, t.at? place = some e := by
  obtain ⟨rfl, hplain⟩ := follow_inside hlink hok
  have hsafe : t'.at? place ≠ some .symlink := at?_linkless (h.safe.trans hlink)
  unfold Plugin.follow
  obtain hdir | ⟨content, hfile⟩ := hplain
  · obtain ⟨e', he', hkind⟩ := h.target _ _ hdir
    rw [he', hkind.mpr rfl]
    exact ⟨rfl, _, hdir⟩
  · obtain ⟨e', he', hkind⟩ := h.target _ _ hfile
    rw [he'] at hsafe ⊢
    cases e' with
    | file content' => exact ⟨rfl, _, hfile⟩
    | dir => cases hkind.mp rfl
    | symlink => exact absurd rfl hsafe

theorem Alike.contained (h : Alike t t') {relative : Json} {field_name : String} {path : Path}
    (hlink : t.hasSymlink = false) (hok : _contained_file_or_directory L t relative field_name = .ok (.ok path)) :
    _contained_file_or_directory L t' relative field_name = .ok (.ok path) ∧
      ∃ e, t.at? path = some e := by
  unfold _contained_file_or_directory at hok ⊢
  split at hok
  · split at hok
    · cases hok
    · rename_i hblank
      split at hok
      · cases hok
      · rename_i hinside
        split at hok
        · cases hok
        · rename_i hnul
          rw [if_neg hblank, if_neg hinside, if_neg hnul]
          obtain ⟨found, hfound, hok⟩ := bind_ok hok
          cases found with
          | inside place =>
            obtain rfl := Except.ok.inj (Except.ok.inj hok)
            obtain ⟨hfollow, e, he⟩ := h.follow hlink hfound
            rw [hfollow]
            exact ⟨rfl, e, he⟩
          | outside => cases hok
          | missing => cases hok
  · cases hok

theorem Alike.directory_issues (h : Alike t t') {mapping : Payload} {field_name : String}
    {inside : Path → Except PyError (List String)}
    (hlink : t.hasSymlink = false) (hok : directory_issues L t mapping field_name inside = .ok []) :
    directory_issues L t' mapping field_name inside = .ok [] := by
  unfold Plugin.directory_issues at hok ⊢
  split at hok
  · rfl
  · obtain ⟨found, hfound, hrest⟩ := bind_ok hok
    cases found with
    | error issue => cases hrest
    | ok path =>
      obtain ⟨hfound', e, he⟩ := h.contained hlink hfound
      obtain ⟨e', he', hdir⟩ := h.target path e he
      rw [hfound', ok_bind]
      simp only [he, Option.some.injEq] at hrest
      simp only [he', Option.some.injEq, hdir]
      split at hrest
      · rename_i hd
        rw [if_pos hd]
        exact hrest
      · cases hrest

theorem Alike.validate_plugin (h : Alike t t') (hlink : t.hasSymlink = false) (hok : validate_plugin L root t = .ok []) :
    validate_plugin L root t' = .ok [] := by
  unfold Plugin.validate_plugin at hok ⊢
  rw [h.manifest]
  obtain ⟨found, hread, hrest⟩ := bind_ok hok
  rw [hread, ok_bind]
  match found, hrest with
  | .ok (.obj mapping), hrest =>
    obtain ⟨skills, hskills, hrest⟩ := bind_ok hrest
    obtain ⟨mcp, hmcp, hrest⟩ := bind_ok hrest
    have hnil := Except.ok.inj hrest
    simp only [List.append_eq_nil_iff] at hnil
    obtain ⟨⟨⟨⟨⟨⟨hfields, hname⟩, hversion⟩, rfl⟩, rfl⟩, hperm⟩, hdep⟩ := hnil
    simp only [h.skills, h.mcp]
    rw [h.directory_issues hlink hskills, ok_bind, h.directory_issues hlink hmcp, ok_bind, hfields, hname, hversion,
      hperm, hdep]
    rfl

theorem Alike.checked (h : Alike t t') {approved_by digest : String} {mapping : Payload}
    {integrity : String} (hok : checked sha256 L root (some t) approved_by (some digest) =
      .ok (t, mapping, integrity)) :
    checked sha256 L root (some t') approved_by (some digest) = .ok (t', mapping, integrity) := by
  have hdigest : plugin_integrity sha256 root t' = plugin_integrity sha256 root t := by
    rw [plugin_integrity, plugin_integrity, digest_input, digest_input, h.hashed]
  unfold Plugin.checked at hok ⊢
  dsimp only at hok
  simp only [h.safe, hdigest, h.manifest]
  split at hok
  · cases hok
  · rename_i hlink
    split at hok
    · cases hok
    · rename_i hblank
      obtain ⟨issues, hvalid, hok⟩ := bind_ok hok
      split at hok
      · cases hok
      · rename_i hissues
        rw [not_not] at hissues
        subst hissues
        obtain ⟨found, hread, hok⟩ := bind_ok hok
        rw [if_neg hlink, if_neg hblank, h.validate_plugin (by simpa using hlink) hvalid, ok_bind, if_neg (by simp), hread,
          ok_bind]
        split at hok
        · split at hok
          · cases hok
          · rename_i hexpected
            cases hok
            simp only [if_neg hexpected]
            rfl
        · cases hok

end Checked

section Git

variable {t t' : Tree} {extra : List (Path × Entry)}

/-- An entry below `.git` that no check looks at. -/
structure Unseen (x : Path × Entry) : Prop where
  git : x.1.head? = some ".git"
  plain : x.2 ≠ .symlink
  name : ∀ name ∈ x.1.getLast?, name ≠ "SKILL.md" ∧ ¬ ".yaml".toList <:+ name.toList ∧
    ¬ ".yml".toList <:+ name.toList

theorem Unseen.not_skill {x : Path × Entry} (h : Unseen x) : x.1.getLast? ≠ some "SKILL.md" :=
  fun hlast => (h.name _ hlast).1 rfl

theorem Unseen.mem_git {x : Path × Entry} (h : Unseen x) : ".git" ∈ x.1 := List.mem_of_head? h.git

theorem mem_files {path : Path} {content : Bytes} :
    (path, content) ∈ t.files ↔ (path, .file content) ∈ t.entries := by
  unfold Tree.files
  constructor
  · intro h
    obtain ⟨⟨path', e⟩, hx, hxy⟩ := List.mem_filterMap.mp h
    obtain ⟨content', hc, heq⟩ := Option.map_eq_some_iff.mp hxy
    cases heq
    cases e with
    | file c =>
      cases hc
      exact hx
    | dir => cases hc
    | symlink => cases hc
  · intro h
    exact List.mem_filterMap.mpr ⟨_, h, rfl⟩

theorem files_append (h : t'.entries = t.entries ++ extra) : t'.files = t.files ++
    extra.filterMap fun x => x.2.content?.map fun content => (x.1, content) := by
  rw [Tree.files, Tree.files, h, List.filterMap_append]

theorem alike_of_append (h : t'.entries = t.entries ++ extra) (hextra : ∀ x ∈ extra, Unseen x) :
    Alike t t' where
  safe := by
    have hno : (extra.any fun x => x.2 == .symlink) = false := by
      simpa using fun p e hx => (hextra (p, e) hx).plain
    rw [Tree.hasSymlink, Tree.hasSymlink, h, List.any_append, hno, Bool.or_false]
  manifest := by
    have hno : extra.lookup manifest_path = none := by
      rw [List.lookup_eq_none_iff]
      intro x hx
      have hgit := (hextra x hx).git
      have hne : manifest_path ≠ x.1 := by
        rintro heq
        rw [← heq] at hgit
        exact absurd hgit (by decide)
      simpa using hne
    rw [Tree.at?, Tree.at?, if_neg (by decide), if_neg (by decide), h, List.lookup_append, hno,
      Option.or_none]
  target path e he := by
    refine ⟨e, ?_, Iff.rfl⟩
    unfold Tree.at? at he ⊢
    split at he
    · rename_i hroot
      rw [if_pos hroot, he]
    · rename_i hroot
      rw [if_neg hroot, h, List.lookup_append, he, Option.some_or]
  skills path := by
    have hno : (extra.filter fun x => path <+: x.1 ∧ path ≠ x.1 ∧ x.1.getLast? = some "SKILL.md") = [] :=
      List.filter_eq_nil_iff.mpr fun x hx => by
        simpa using fun _ _ => (hextra x hx).not_skill
    rw [skill_files, skill_files, h, List.filter_append, hno, List.append_nil]
  mcp path := by
    have hno : ∀ suffix, suffix = ".yaml" ∨ suffix = ".yml" →
        glob t' path suffix = glob t path suffix := by
      intro suffix hsuffix
      rw [glob, glob, h, List.filter_append]
      refine List.append_right_eq_self.mpr (List.filter_eq_nil_iff.mpr fun x hx => ?_)
      rw [decide_eq_true_eq]
      rintro ⟨_, name, hname, hends⟩
      obtain ⟨_, hyaml, hyml⟩ := (hextra x hx).name name hname
      obtain rfl | rfl := hsuffix
      · exact hyaml hends
      · exact hyml hends
    rw [mcp_files, mcp_files, hno _ (.inl rfl), hno _ (.inr rfl)]
  hashed root := by
    have hno : ((extra.filterMap fun x => x.2.content?.map fun content => (x.1, content)).filter
        fun x => ".git" ∉ root ++ x.1) = [] := by
      refine List.filter_eq_nil_iff.mpr fun x hx => ?_
      obtain ⟨y, hy, hxy⟩ := List.mem_filterMap.mp hx
      obtain ⟨content, _, rfl⟩ := Option.map_eq_some_iff.mp hxy
      simpa using fun _ => (hextra y hy).mem_git
    rw [Plugin.hashed, Plugin.hashed, files_append h, List.filter_append, hno, List.append_nil]

/-- Names for new files, as many as are needed. -/
def freshName (k : Nat) : String := String.ofList (List.replicate (k + 1) 'x')

theorem freshName_valid (k : Nat) : ValidName (freshName k) := by
  refine ⟨?_, ?_, ?_, ?_, ?_⟩ <;> simp [freshName, List.replicate_succ, String.ext_iff]

theorem freshName_unseen (k : Nat) : Unseen ([".git", freshName k], .file []) := by
  have hx : ∀ c ∈ (freshName k).toList, c = 'x' := by simp [freshName]
  have hends : ∀ suffix : String, '.' ∈ suffix.toList → ¬ suffix.toList <:+ (freshName k).toList :=
    fun suffix hdot hs => absurd (hx _ (hs.subset hdot)) (by decide)
  refine ⟨rfl, by simp, ?_⟩
  intro name hname
  obtain rfl : freshName k = name := Option.some.inj hname
  refine ⟨?_, hends _ (by decide), hends _ (by decide)⟩
  intro heq
  exact absurd (hx 'S' (by rw [heq]; decide)) (by decide)

theorem exists_fresh (paths : List Path) : ∃ k, [".git", freshName k] ∉ paths := by
  have hinj : Function.Injective fun k => ([".git", freshName k] : Path) := by
    intro j k h
    have hlen := congrArg (fun p : Path => (p.getLastD "").length) h
    simpa [freshName] using hlen
  obtain ⟨x, ⟨k, rfl⟩, hk⟩ := (Set.infinite_range_of_injective hinj).exists_notMem_finset paths.toFinset
  exact ⟨k, by simpa using hk⟩

/-- A file can be added below `.git`, unless `.git` is a file itself. -/
theorem exists_added (hdir : ∀ e, ([".git"], e) ∈ t.entries → e = .dir) :
    ∃ t' x, Alike t t' ∧ x ∈ t'.files ∧ x ∉ t.files := by
  obtain ⟨k, hk⟩ := exists_fresh (t.entries.map Prod.fst)
  -- the directory comes along when it is not there yet
  obtain ⟨extra, hunseen, hnodup, hnew, hnamed, hparents, hmem⟩ : ∃ extra : List (Path × Entry),
      (∀ x ∈ extra, Unseen x) ∧ (extra.map Prod.fst).Nodup ∧
      (∀ x ∈ extra, x.1 ∉ t.entries.map Prod.fst) ∧
      (∀ x ∈ extra, x.1 ≠ [] ∧ ∀ name ∈ x.1, ValidName name) ∧
      (∀ x ∈ extra, x.1.dropLast ≠ [] → (x.1.dropLast, .dir) ∈ t.entries ++ extra) ∧
      ([".git", freshName k], .file []) ∈ extra := by
    have hgit : ValidName ".git" := by decide
    by_cases hthere : [".git"] ∈ t.entries.map Prod.fst
    · refine ⟨[([".git", freshName k], .file [])], by simpa using freshName_unseen k, by simp,
        by simpa using hk, by simpa using ⟨hgit, freshName_valid k⟩, ?_, by simp⟩
      obtain ⟨⟨path, e⟩, hx, rfl⟩ := List.mem_map.mp hthere
      obtain rfl := hdir e hx
      simpa using hx
    · have hdirUnseen : Unseen ([".git"], .dir) :=
        ⟨rfl, by simp, by simp; decide⟩
      refine ⟨[([".git"], .dir), ([".git", freshName k], .file [])], ?_, by simp, ?_, ?_, by simp,
        by simp⟩
      · simpa using ⟨hdirUnseen, freshName_unseen k⟩
      · simpa using ⟨by simpa using hthere, by simpa using hk⟩
      · simp only [List.forall_mem_cons, List.not_mem_nil, false_implies, implies_true, and_true]
        exact ⟨⟨by simp, hgit⟩, by simp, hgit, freshName_valid k⟩
  let t' : Tree :=
    { entries := t.entries ++ extra
      nodup := by
        rw [List.map_append, List.nodup_append]
        refine ⟨t.nodup, hnodup, fun a ha b hb hab => ?_⟩
        obtain ⟨x, hx, rfl⟩ := List.mem_map.mp hb
        exact hnew x hx (hab ▸ ha)
      named := fun x hx => (List.mem_append.mp hx).elim (t.named x) (hnamed x)
      parents := fun x hx hne => (List.mem_append.mp hx).elim
        (fun hx => List.mem_append_left _ (t.parents x hx hne)) fun hx => hparents x hx hne }
  refine ⟨t', ([".git", freshName k], []), alike_of_append rfl hunseen, ?_, ?_⟩
  · exact mem_files.mpr (List.mem_append_right _ hmem)
  · intro hx
    exact hk (List.mem_map.mpr ⟨_, mem_files.mp hx, rfl⟩)

/-- Other bytes for the file `.git`. -/
def rewritten (content : Bytes) (x : Path × Entry) : Path × Entry :=
  if x.1 = [".git"] then (x.1, .file content) else x

theorem rewritten_fst (content : Bytes) (x : Path × Entry) : (rewritten content x).1 = x.1 := by
  unfold rewritten
  split <;> rfl

theorem rewritten_of_ne {content : Bytes} {x : Path × Entry} (h : x.1 ≠ [".git"]) :
    rewritten content x = x := if_neg h

theorem filter_rewritten {content : Bytes} {q : Path × Entry → Prop} [DecidablePred q]
    (hq : ∀ e, ¬ q ([".git"], e)) (xs : List (Path × Entry)) :
    (xs.map (rewritten content)).filter q = xs.filter q := by
  induction xs with
  | nil => rfl
  | cons x xs ih =>
    rw [List.map_cons, List.filter_cons, List.filter_cons, ih]
    by_cases hx : x.1 = [".git"]
    · have hno : ∀ e, ¬ q (x.1, e) := hx ▸ hq
      rw [rewritten, if_pos hx, if_neg (by simpa using hno _), if_neg (by simpa using hno x.2)]
    · rw [rewritten_of_ne hx]

theorem lookup_rewritten {content : Bytes} {path : Path} (xs : List (Path × Entry)) :
    (xs.map (rewritten content)).lookup path =
      (xs.lookup path).map fun e => (rewritten content (path, e)).2 := by
  induction xs with
  | nil => rfl
  | cons x xs ih =>
    obtain ⟨p, e⟩ := x
    rw [List.map_cons, List.lookup_cons, List.lookup_cons, ih, rewritten_fst]
    cases hp : path == p with
    | false => rfl
    | true =>
      obtain rfl := beq_iff_eq.mp hp
      rfl

/-- A file stays a file, and nothing else is touched. -/
theorem rewritten_kind {content : Bytes} (content' : Bytes) (hfile : ([".git"], .file content) ∈ t.entries)
    {x : Path × Entry} (hx : x ∈ t.entries) :
    (∃ c d, x.2 = .file c ∧ (rewritten content' x).2 = .file d) ∨ rewritten content' x = x := by
  by_cases hgit : x.1 = [".git"]
  · obtain ⟨path, e⟩ := x
    obtain rfl : path = [".git"] := hgit
    exact .inl ⟨content, content', Tree.unique hx hfile, by simp [rewritten]⟩
  · exact .inr (rewritten_of_ne hgit)

/-- The directory with other bytes in the file `.git`. -/
def Tree.rewrite (t : Tree) (content content' : Bytes)
    (hfile : ([".git"], .file content) ∈ t.entries) : Tree where
  entries := t.entries.map (rewritten content')
  nodup := by
    have hkeys : Prod.fst ∘ rewritten content' = Prod.fst := funext (rewritten_fst content')
    rw [List.map_map, hkeys]
    exact t.nodup
  named x hx := by
    obtain ⟨y, hy, rfl⟩ := List.mem_map.mp hx
    rw [rewritten_fst]
    exact t.named y hy
  parents x hx hne := by
    obtain ⟨y, hy, rfl⟩ := List.mem_map.mp hx
    rw [rewritten_fst] at hne ⊢
    have hdir := t.parents y hy hne
    obtain ⟨_, _, hc, _⟩ | hsame := rewritten_kind content' hfile hdir
    · cases hc
    · exact List.mem_map.mpr ⟨_, hdir, hsame⟩

theorem hashed_eq (root : Path) (t : Tree) : hashed root t =
    (t.entries.filter fun x => ".git" ∉ root ++ x.1).filterMap
      fun x => x.2.content?.map fun content => (x.1, content) := by
  rw [hashed, Tree.files, List.filter_filterMap, List.filterMap_filter]
  congr 1
  funext x
  cases x.2.content? with
  | none => simp
  | some content => simp [Option.filter]

theorem alike_rewrite {content : Bytes} (content' : Bytes) (hfile : ([".git"], .file content) ∈ t.entries) :
    Alike t (t.rewrite content content' hfile) where
  safe := by
    rw [Bool.eq_iff_iff, Tree.hasSymlink, Tree.hasSymlink, Tree.rewrite, List.any_map, List.any_eq_true,
      List.any_eq_true]
    refine exists_congr fun x => and_congr_right fun hx => ?_
    obtain ⟨_, _, hc, hd⟩ | hsame := rewritten_kind content' hfile hx
    · simp [hc, hd]
    · simp [hsame]
  manifest := by
    rw [Tree.at?, Tree.at?, if_neg (by decide), if_neg (by decide), Tree.rewrite, lookup_rewritten]
    cases t.entries.lookup manifest_path with
    | none => rfl
    | some e => rw [Option.map_some, rewritten_of_ne (by decide : manifest_path ≠ [".git"])]
  target path e he := by
    unfold Tree.at? at he ⊢
    split at he
    · rename_i hroot
      rw [if_pos hroot]
      exact ⟨_, rfl, by rw [← Option.some.inj he]⟩
    · rename_i hroot
      rw [if_neg hroot, Tree.rewrite, lookup_rewritten, he, Option.map_some]
      refine ⟨_, rfl, ?_⟩
      obtain ⟨l₁, l₂, hl, _⟩ := List.lookup_eq_some_iff.mp he
      obtain ⟨_, _, hc, hd⟩ | hsame := rewritten_kind content' hfile
        (x := (path, e)) (by simp [hl])
      · obtain rfl : e = _ := hc
        simp [hd]
      · rw [hsame]
  skills path := by
    rw [skill_files, skill_files, Tree.rewrite, filter_rewritten]
    rintro e ⟨_, _, hlast⟩
    have hname : ".git" = "SKILL.md" := Option.some.inj hlast
    exact absurd hname (by decide)
  mcp path := by
    have hno : ∀ suffix : String, ¬ suffix.toList <:+ ".git".toList →
        glob (t.rewrite content content' hfile) path suffix = glob t path suffix := by
      intro suffix hsuffix
      rw [glob, glob, Tree.rewrite, filter_rewritten]
      rintro e ⟨_, name, hname, hends⟩
      obtain rfl : ".git" = name := Option.some.inj hname
      exact hsuffix hends
    rw [mcp_files, mcp_files, hno ".yaml" (by decide), hno ".yml" (by decide)]
  hashed root := by
    rw [hashed_eq, hashed_eq, Tree.rewrite, filter_rewritten]
    simp

/-- For every directory there is another one that `install` cannot tell from it. -/
theorem exists_alike (hsafe : t.hasSymlink = false) :
    ∃ t' x, Alike t t' ∧ x ∈ t'.files ∧ x ∉ t.files := by
  by_cases hfile : ∃ content, ([".git"], .file content) ∈ t.entries
  · obtain ⟨content, hfile⟩ := hfile
    refine ⟨_, ([".git"], content ++ [0]), alike_rewrite (content ++ [0]) hfile, ?_, ?_⟩
    · exact mem_files.mpr (List.mem_map.mpr ⟨_, hfile, by simp [rewritten]⟩)
    · intro hx
      have := Tree.unique (mem_files.mp hx) hfile
      simp at this
  · refine exists_added fun e he => ?_
    cases e with
    | dir => rfl
    | file content => exact absurd ⟨content, he⟩ hfile
    | symlink =>
      have : t.hasSymlink = true := List.any_eq_true.mpr ⟨_, he, by simp⟩
      rw [hsafe] at this
      cases this

end Git

section Install

variable {sha256 : Hexdigest} {L : Library} {r : Registry} {source : Path} {t t' : Tree}
  {approved_by digest : String} {readings : Readings} {record : PluginRecord}

theorem install_ok {o : Option Tree} {expected : Option String}
    (h : (r.install sha256 L source o approved_by expected readings).1 = .ok record) :
    ∃ t mapping integrity, checked sha256 L source o approved_by expected =
        .ok (t, mapping, integrity) ∧ record = record_of mapping integrity readings.installed_at
          ("/" ++ as_posix source) approved_by ∧
      (r.install sha256 L source o approved_by expected readings).2 =
        r.place t record approved_by readings := by
  unfold Registry.install at h ⊢
  split at h
  · cases h
  · rename_i t mapping integrity hc
    cases h
    exact ⟨t, mapping, integrity, hc, rfl, rfl⟩

/-- `install` hands on the directory that it was given. -/
theorem checked_source {expected : Option String} {mapping : Payload} {integrity : String}
    (h : checked sha256 L source (some t) approved_by expected = .ok (t', mapping, integrity)) :
    t' = t ∧ t.hasSymlink = false := by
  obtain ⟨heq, hlink, _⟩ := checked_ok h
  obtain rfl := Option.some.inj heq
  exact ⟨rfl, hlink⟩

theorem installed_place : (r.place t record approved_by readings).installed record.name = t.files := by
  simp [Registry.place, Registry.installed]

/-- The digest of a plugin never determines what is installed: the same digest admits another
directory, from which a file is installed that is not among the plugin's. -/
theorem integrity_binds_no_plugin
    (h : (r.install sha256 L source (some t) approved_by (some digest) readings).1 = .ok record) :
    ∃ t' record' x,
      (r.install sha256 L source (some t') approved_by (some digest) readings).1 = .ok record' ∧
      x ∈ (r.install sha256 L source (some t') approved_by (some digest) readings).2.installed
        record'.name ∧
      x ∉ (r.install sha256 L source (some t) approved_by (some digest) readings).2.installed
        record.name := by
  obtain ⟨_, mapping, integrity, hc, hrecord, hplace⟩ := install_ok h
  obtain ⟨rfl, hsafe⟩ := checked_source hc
  obtain ⟨t', x, halike, hx, hx'⟩ := exists_alike hsafe
  have hinstall : r.install sha256 L source (some t') approved_by (some digest) readings =
      (.ok record, r.place t' record approved_by readings) := by
    rw [Registry.install, halike.checked hc, hrecord]
  refine ⟨t', record, x, by rw [hinstall], ?_, ?_⟩
  · rw [hinstall, installed_place]
    exact hx
  · rw [hplace, installed_place]
    exact hx'

end Install

end EnterpriseCopilot.Plugin
