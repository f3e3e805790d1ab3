import EnterpriseCopilot.Plugin.Agreement
import EnterpriseCopilot.Plugin.Atomic

/-! The backups of a registry: which of them a rollback may restore, and what calls leave of them. -/

namespace EnterpriseCopilot.Plugin

open EnterpriseCopilot.Lib EnterpriseCopilot.Python

section Candidates

variable {found : List (Path × Int)} {first p : Path} {rest : List Path}

instance : Std.Total fun a b : Path × Int => b.2 ≤ a.2 := ⟨fun a b => le_total b.2 a.2⟩

instance : IsTrans (Path × Int) fun a b => b.2 ≤ a.2 := ⟨fun _ _ _ h h' => le_trans h' h⟩

theorem mem_candidates : p ∈ candidates found ↔ ∃ m, (p, m) ∈ found ∧ isCurrent (p.getLastD "") = false := by
  simp [candidates, List.mem_insertionSort]

/-- The first candidate is a newest one. -/
theorem candidates_newest (h : candidates found = first :: rest) : ∃ m, (first, m) ∈ found ∧
    ∀ q m', (q, m') ∈ found → isCurrent (q.getLastD "") = false → m' ≤ m := by
  unfold candidates at h
  obtain ⟨x, xs, hx, rfl, _⟩ := List.map_eq_cons_iff.mp h
  have hmem : ∀ y, y ∈ x :: xs ↔ y ∈ found ∧ isCurrent (y.1.getLastD "") = false := by
    intro y
    rw [← hx, List.mem_insertionSort, List.mem_filter, Bool.not_eq_true']
  have hsorted := List.pairwise_insertionSort (fun a b : Path × Int => b.2 ≤ a.2)
    (found.filter fun x => !isCurrent (x.1.getLastD ""))
  rw [hx] at hsorted
  refine ⟨x.2, ((hmem x).mp (.head _)).1, fun q m' hq hcurrent => ?_⟩
  rcases List.mem_cons.mp ((hmem (q, m')).mpr ⟨hq, hcurrent⟩) with heq | hrest
  · rw [← heq]
  · exact (List.pairwise_cons.mp hsorted).1 _ hrest

/-- What is listed first comes first if nothing is newer. -/
theorem candidates_cons {x : Path × Int} (hx : isCurrent (x.1.getLastD "") = false)
    (h : ∀ y ∈ found, isCurrent (y.1.getLastD "") = false → y.2 ≤ x.2) :
    ∃ rest, candidates (x :: found) = x.1 :: rest := by
  have hnewest : ∀ y ∈ found.filter fun x => !isCurrent (x.1.getLastD ""), y.2 ≤ x.2 := by
    intro y hy
    obtain ⟨hy, hcurrent⟩ := List.mem_filter.mp hy
    exact h y hy (by simpa using hcurrent)
  rw [candidates, List.filter_cons_of_pos (by simpa using hx),
    List.insertionSort_cons_of_forall_rel (r := fun a b : Path × Int => b.2 ≤ a.2) hnewest]
  exact ⟨_, rfl⟩

end Candidates

section Versions

variable {R : PluginRegistry} {s : Disk} {name child : String} {ch : Choice} {found : List (Path × Int)}

/-- A directory below `.rollback` that a rollback of the plugin may restore. -/
structure Version (R : PluginRegistry) (s : Disk) (name child : String) : Prop where
  there : s.tree.at? (R.rollback_root ++ [child]) ≠ none
  named : (name ++ "-").toList <+: child.toList
  current : isCurrent child = false

theorem Version.plain (h : Version R s name child) : isCurrent (name ++ "-") = false := by
  by_contra hcurrent
  have hmark := isCurrent_iff.mp (Bool.not_eq_false _ ▸ hcurrent)
  have hchild := isCurrent_iff.mpr (hmark.trans h.named.isInfix)
  rw [h.current] at hchild
  cases hchild

theorem version_label {label : String} (hlabel : 't' ∉ label.toList) (hplain : isCurrent (name ++ "-") = false)
    (hthere : s.tree.at? (R.rollback_root ++ [name ++ "-" ++ label]) ≠ none) : Version R s name (name ++ "-" ++ label) := by
  refine ⟨hthere, ?_, ?_⟩
  · simp only [String.toList_append]
    exact List.prefix_append _ _
  · rw [isCurrent_label hlabel, hplain]

theorem listed_perm (ch : Choice) (paths : List Path) : (ch.listed paths).Perm paths := by
  unfold Choice.listed
  split
  · assumption
  · exact .refl _

/-- What the pattern of a rollback finds. -/
theorem glob_eq (hname : id_re name = true) (ch : Choice) : s.glob ch R.rollback_root (name ++ "-*") =
    .ok ((ch.listed (s.tree.matching R.rollback_root (path_parts (name ++ "-*")))).map fun p => (p, s.mtime p)) := by
  obtain ⟨c, cs, heq, hc, _⟩ := id_re_chars hname
  refine if_neg ?_
  rw [String.toList_append, heq]
  rintro ⟨⟩
  exact absurd hc (by decide)

theorem mem_matching (hname : id_re name = true) {p : Path} :
    p ∈ s.tree.matching R.rollback_root (path_parts (name ++ "-*")) ↔
      ∃ child, p = R.rollback_root ++ [child] ∧ s.tree.at? p ≠ none ∧ (name ++ "-").toList <+: child.toList := by
  have hliteral : ∀ c ∈ (name ++ "-").toList, isLiteral c := by
    intro c hc
    rw [String.toList_append] at hc
    rcases List.mem_append.mp hc with hc | hc
    · exact id_re_literal hname hc
    · exact List.mem_singleton.mp hc ▸ ⟨by decide, by decide, by decide⟩
  have hpattern : name ++ "-*" = (name ++ "-") ++ "*" := by rw [String.append_assoc]; rfl
  rw [Tree.matching_name (id_re_valid hname), List.mem_map]
  constructor
  · rintro ⟨child, hchild, rfl⟩
    obtain ⟨hthere, hmatch⟩ := List.mem_filter.mp hchild
    obtain ⟨e, he⟩ := Tree.mem_children.mp hthere
    refine ⟨child, rfl, by simp [Tree.at?_of_mem he], ?_⟩
    rw [hpattern] at hmatch
    exact Iff.mp ( fnmatch_prefix hliteral) hmatch
  · rintro ⟨child, rfl, hthere, hprefix⟩
    obtain ⟨e, he⟩ := Option.ne_none_iff_exists'.mp hthere
    refine ⟨child, List.mem_filter.mpr ⟨Tree.mem_children.mpr ⟨e, (Tree.at?_eq_some (by simp)).mp he⟩, ?_⟩, rfl⟩
    rw [hpattern]
    exact Iff.mpr ( fnmatch_prefix hliteral) hprefix

theorem mem_glob (hname : id_re name = true) (h : s.glob ch R.rollback_root (name ++ "-*") = .ok found) {x : Path × Int} :
    x ∈ found ↔ ∃ child, x = (R.rollback_root ++ [child], s.mtime (R.rollback_root ++ [child])) ∧
      s.tree.at? (R.rollback_root ++ [child]) ≠ none ∧ (name ++ "-").toList <+: child.toList := by
  obtain rfl := Except.ok.inj ((glob_eq hname ch).symm.trans h)
  rw [List.mem_map]
  constructor
  · rintro ⟨p, hp, rfl⟩
    obtain ⟨child, rfl, hthere, hprefix⟩ := (mem_matching hname).mp ((listed_perm ch _).mem_iff.mp hp)
    exact ⟨child, rfl, hthere, hprefix⟩
  · rintro ⟨child, rfl, hthere, hprefix⟩
    exact ⟨_, (listed_perm ch _).mem_iff.mpr ((mem_matching hname).mpr ⟨child, rfl, hthere, hprefix⟩), rfl⟩

theorem last_child (dir : Path) (child : String) : (dir ++ [child]).getLastD "" = child := by simp

theorem newest_version {first : Path} {rest : List Path} (hname : id_re name = true)
    (h : s.glob ch R.rollback_root (name ++ "-*") = .ok found) (hfirst : candidates found = first :: rest) :
    ∃ child, first = R.rollback_root ++ [child] ∧ Version R s name child ∧ ∀ other, Version R s name other →
      s.mtime (R.rollback_root ++ [other]) ≤ s.mtime (R.rollback_root ++ [child]) := by
  obtain ⟨m, hm, hnewest⟩ := candidates_newest hfirst
  obtain ⟨child, heq, hthere, hprefix⟩ := (mem_glob hname h).mp hm
  obtain ⟨rfl, rfl⟩ := Prod.mk.inj heq
  have hmem : R.rollback_root ++ [child] ∈ candidates found := hfirst ▸ .head _
  obtain ⟨_, _, hcurrent⟩ := mem_candidates.mp hmem
  rw [last_child] at hcurrent
  refine ⟨child, rfl, ⟨hthere, hprefix, hcurrent⟩, fun other hother => ?_⟩
  refine hnewest _ _ ((mem_glob hname h).mpr ⟨other, rfl, hother.there, hother.named⟩) ?_
  rw [last_child]
  exact hother.current

theorem no_version (hname : id_re name = true) (h : s.glob ch R.rollback_root (name ++ "-*") = .ok found)
    (hnil : candidates found = []) : ¬ Version R s name child := by
  intro hversion
  have hmem : R.rollback_root ++ [child] ∈ candidates found := by
    refine mem_candidates.mpr ⟨_, (mem_glob hname h).mpr ⟨child, rfl, hversion.there, hversion.named⟩, ?_⟩
    rw [last_child]
    exact hversion.current
  rw [hnil] at hmem
  cases hmem

end Versions

section Kept

variable {P : Choice → Prop} {R : PluginRegistry} {s t u : Disk} {name child : String} {log : Log} {paths : List Path}

/-- The paths that a call for a plugin changes: the plugin, its staging directory, and new backups. -/
def Touched (R : PluginRegistry) (name : String) (log : Log) (p : Path) : Prop :=
  p = R.home name ∨ (∃ hex, p = R.home (staging_name name hex)) ∨
    ∃ backup hex, p = R.rollback_root ++ [backup] ∧ hex.chars <:+ backup.toList ∧ ⟨.uuid4, hex⟩ ∈ log

/-- A call for a plugin changed no other paths. -/
def Confined (R : PluginRegistry) (name : String) (log : Log) (s t : Disk) : Prop :=
  ∃ paths, Frame paths s.tree t.tree ∧ ∀ p ∈ paths, Touched R name log p

/-- What was below `.rollback` before a call stays. -/
theorem Confined.same (h : Confined R name log s t) (hplain : Plain name) (hnovel : Novel s log)
    (hthere : s.tree.at? (R.rollback_root ++ [child]) ≠ none) :
    Tree.Same s.tree t.tree (R.rollback_root ++ [child]) := by
  obtain ⟨paths, hframe, htouched⟩ := h
  refine hframe _ fun p hp => ?_
  obtain rfl | ⟨hex, rfl⟩ | ⟨backup, hex, rfl, hsuffix, hmem⟩ := htouched p hp
  · exact (apart_rollback hplain _).symm
  · exact staging_apart_rollback name hex _
  · refine apart_child fun heq => hthere ?_
    rw [← heq]
    exact (hnovel hex hmem).free hsuffix

theorem SetAside.touched {rollback_path : Option Path} {l : Log}
    (h : SetAside R name (R.home name) s l (.ok rollback_path) u) (hname : id_re name = true)
    (hsub : ∀ hex, ⟨.uuid4, hex⟩ ∈ l → ⟨.uuid4, hex⟩ ∈ log) :
    ∀ p ∈ rollback_path.toList, Touched R name log p := by
  intro p hp
  obtain ⟨path, rfl, rfl⟩ : ∃ path, rollback_path = some path ∧ p = path := by simpa using hp
  obtain ⟨stamp, hex, rfl, hmem⟩ := h.path
  exact .inr (.inr ⟨_, hex, backup_path_eq (id_re_valid hname) stamp hex, hex_suffix _ hex, hsub hex hmem⟩)

theorem Installing.confined {source : Path} {approved_by : String} {expected_integrity : Option String}
    {o : Except PyError PluginRecord} (h : Installing R source approved_by expected_integrity s log o t) :
    t = s ∨ ∃ name, id_re name = true ∧ Confined R name log s t := by
  cases h with
  | refused => exact .inl rfl
  | @unmoved tree mapping integrity _ _ _ _ hchecked _ _ haside =>
    have hname := (checked_ok hchecked).2.2.2.2
    cases haside with
    | @failed stamp hex _ _ _ hhalted =>
      rw [backup_path_eq (id_re_valid hname)] at hhalted
      refine .inr ⟨text_of (mapping.get "name"), hname, _, hhalted.frame.1, fun p hp => ?_⟩
      rcases List.mem_cons.mp hp with rfl | hp
      · exact .inl rfl
      · obtain rfl := List.mem_singleton.mp hp
        exact .inr (.inr ⟨_, hex, rfl, hex_suffix _ hex, by simp⟩)
  | @unplaced tree mapping integrity rollback_path hex l₀ l₁ l₂ u v n _ _ hchecked haside hbroken _ _ _ hrecovered =>
    have hname := (checked_ok hchecked).2.2.2.2
    rw [staging_path_eq (id_re_valid hname)] at hbroken hrecovered
    refine .inr ⟨text_of (mapping.get "name"), hname, R.home (staging_name (text_of (mapping.get "name")) hex) ::
      R.home (text_of (mapping.get "name")) :: rollback_path.toList, ?_, fun p hp => ?_⟩
    · refine (haside.frame.mono fun p hp => List.mem_cons_of_mem _ hp).trans ((hbroken.frame.1.mono fun p hp => ?_).trans
        (hrecovered.frame (by simp [PluginRegistry.home])).1)
      exact List.mem_singleton.mp hp ▸ .head _
    · rcases List.mem_cons.mp hp with rfl | hp
      · exact .inr (.inl ⟨hex, rfl⟩)
      rcases List.mem_cons.mp hp with rfl | hp
      · exact .inl rfl
      · exact haside.touched hname (fun hex' hmem => by simp [hmem]) p hp
  | @placed tree mapping integrity rollback_path hex l₀ l₁ l₂ u v _ _ hchecked haside hplaced htree =>
    have hname := (checked_ok hchecked).2.2.2.2
    rw [staging_path_eq (id_re_valid hname)] at hplaced
    obtain ⟨_, _, _, _, hframe, _⟩ := hplaced.spec haside.free (apart_staging (id_re_head hname) _ hex)
    refine .inr ⟨text_of (mapping.get "name"), hname, R.home (staging_name (text_of (mapping.get "name")) hex) ::
      R.home (text_of (mapping.get "name")) :: rollback_path.toList, ?_, fun p hp => ?_⟩
    · rw [htree]
      refine (haside.frame.mono fun p hp => List.mem_cons_of_mem _ hp).trans (hframe.mono fun p hp => ?_)
      simp only [List.mem_cons, List.not_mem_nil, or_false] at hp
      rcases hp with rfl | rfl <;> simp [PluginRegistry.home]
    · rcases List.mem_cons.mp hp with rfl | hp
      · exact .inr (.inl ⟨hex, rfl⟩)
      rcases List.mem_cons.mp hp with rfl | hp
      · exact .inl rfl
      · exact haside.touched hname (fun hex' hmem => by simp [hmem]) p hp

theorem Clearing.confined {l : Log} {o : Except PyError Unit} (h : Clearing P R name (R.home name) s l o u)
    (hname : ValidName name)
    (hsub : ∀ hex, ⟨.uuid4, hex⟩ ∈ l → ⟨.uuid4, hex⟩ ∈ log) : Confined R name log s u := by
  cases h with
  | absent => exact ⟨[], .refl _ _, by simp⟩
  | @moved hex _ _ _ hmove =>
    rw [current_path_eq hname] at hmove
    refine ⟨_, move?_frame hmove, fun p hp => ?_⟩
    rcases List.mem_cons.mp hp with rfl | hp
    · exact .inl rfl
    · obtain rfl := List.mem_singleton.mp hp
      exact .inr (.inr ⟨_, hex, rfl, hex_suffix _ hex, hsub hex (by simp)⟩)
  | @failed hex _ _ _ hhalted =>
    rw [current_path_eq hname] at hhalted
    refine ⟨_, hhalted.frame.1, fun p hp => ?_⟩
    rcases List.mem_cons.mp hp with rfl | hp
    · exact .inl rfl
    · obtain rfl := List.mem_singleton.mp hp
      exact .inr (.inr ⟨_, hex, rfl, hex_suffix _ hex, hsub hex (by simp)⟩)

theorem Confined.home (h : Confined R name log s u) (hframe : Frame [R.home name] u.tree t.tree) :
    Confined R name log s t := by
  obtain ⟨paths, hpaths, htouched⟩ := h
  refine ⟨R.home name :: paths, (hpaths.mono fun p hp => List.mem_cons_of_mem _ hp).trans (hframe.mono fun p hp => ?_),
    fun p hp => ?_⟩
  · exact List.mem_singleton.mp hp ▸ .head _
  · rcases List.mem_cons.mp hp with rfl | hp
    · exact .inl rfl
    · exact htouched p hp

theorem scraps_frame (s : Disk) (ch : Choice) (dst : Path) : Frame [dst] s.tree (s.scraps ch dst).tree := by
  obtain ⟨_, hsame | ⟨sub, hput⟩⟩ := scraps_spec s ch dst
  · rw [hsame]
    exact .refl _ _
  · exact frame_put hput

theorem RollingBack.confined {o : Except PyError PluginRecord} (h : RollingBack P R name s log o t)
    (hname : ValidName name) : Confined R name log s t := by
  cases h with
  | escaped => exact ⟨[], .refl _ _, by simp⟩
  | unlisted => exact ⟨[], .refl _ _, by simp⟩
  | unavailable => exact ⟨[], .refl _ _, by simp⟩
  | uncleared hdest _ _ hclear =>
    obtain rfl := Except.ok.inj ((contained_home hname).symm.trans hdest)
    exact hclear.confined hname fun hex hmem => by simp [hmem]
  | uncopied hdest _ _ hclear =>
    obtain rfl := Except.ok.inj ((contained_home hname).symm.trans hdest)
    exact (hclear.confined hname fun hex hmem => by simp [hmem]).home (scraps_frame _ _ _)
  | copied hdest _ _ hclear hcopy hend =>
    obtain rfl := Except.ok.inj ((contained_home hname).symm.trans hdest)
    refine (hclear.confined hname fun hex hmem => by simp [hmem]).home ?_
    rw [hend.tree]
    exact copytree?_frame hcopy

theorem Removing.confined {o : Except PyError Unit} (h : Removing R name s log o t) (hname : ValidName name) :
    Confined R name log s t := by
  cases h with
  | refused => exact ⟨[], .refl _ _, by simp⟩
  | @unmoved destination stamp hex _ _ hdest hhalted =>
    obtain rfl := Except.ok.inj ((contained_home hname).symm.trans hdest)
    rw [removed_path_eq hname] at hhalted
    refine ⟨_, hhalted.frame.1, fun p hp => ?_⟩
    rcases List.mem_cons.mp hp with rfl | hp
    · exact .inl rfl
    · obtain rfl := List.mem_singleton.mp hp
      exact .inr (.inr ⟨_, hex, rfl, hex_suffix _ hex, by simp⟩)
  | @moved destination stamp hex _ _ _ _ _ hdest _ hmove htree =>
    obtain rfl := Except.ok.inj ((contained_home hname).symm.trans hdest)
    rw [removed_path_eq hname] at hmove
    refine ⟨_, htree ▸ move?_frame hmove, fun p hp => ?_⟩
    rcases List.mem_cons.mp hp with rfl | hp
    · exact .inl rfl
    · obtain rfl := List.mem_singleton.mp hp
      exact .inr (.inr ⟨_, hex, rfl, hex_suffix _ hex, by simp⟩)

/-- Plugins are asked for by valid names. -/
def Call.Named : Call → Prop
  | .install _ _ _ => True
  | .rollback name | .remove name _ => id_re name = true

instance : DecidablePred Call.Named := fun c => by
  cases c <;> unfold Call.Named <;> infer_instance

/-- No call takes away or changes what is below `.rollback`. -/
theorem call_kept {c : Call} {o : Except PyError (Option PluginRecord)} (h : Exec P (R.call c) s log o t)
    (hnamed : c.Named) (hnovel : Novel s log) (hthere : s.tree.at? (R.rollback_root ++ [child]) ≠ none) :
    Tree.Same s.tree t.tree (R.rollback_root ++ [child]) := by
  cases c with
  | install source approved_by expected_integrity =>
    obtain ⟨o', hinstall, _⟩ := exec_call_install h
    obtain rfl | ⟨name, hname, hconfined⟩ := hinstall.confined
    · exact .refl _ _
    · exact hconfined.same (id_re_head hname) hnovel hthere
  | rollback name =>
    obtain ⟨o', hrollback, _⟩ := exec_call_rollback h
    exact (hrollback.confined (id_re_valid hnamed)).same (id_re_head hnamed) hnovel hthere
  | remove name approved_by =>
    obtain ⟨o', hremove, _⟩ := exec_call_remove h
    exact (hremove.confined (id_re_valid hnamed)).same (id_re_head hnamed) hnovel hthere

end Kept

end EnterpriseCopilot.Plugin
