import EnterpriseCopilot.Plugin.Ownership

/-! When a rollback undoes the last installation. -/

namespace EnterpriseCopilot.Plugin

open EnterpriseCopilot.Lib EnterpriseCopilot.Python

section Times

variable {R : PluginRegistry} {s t u v : Disk} {name child : String} {src dst : Path} {now : Int} {log l : Log}
  {rollback_path : Option Path} {source staging : Path}

/-- What comes to a place elsewhere leaves the time of a backup alone. -/
theorem times_apart {changed : List Path} (hdst : Paths.Apart dst (R.rollback_root ++ [child]))
    (hup : dst.dropLast ≠ R.rollback_root ++ [child]) (hchanged : R.rollback_root ++ [child] ∉ changed) :
    s.times src dst changed now (R.rollback_root ++ [child]) = s.mtime (R.rollback_root ++ [child]) := by
  rw [Disk.times, if_neg hdst.1, if_neg]
  rintro (hmem | heq | ⟨hin, _⟩)
  · exact hchanged hmem
  · exact hup heq.symm
  · exact hdst.2 hin

theorem times_landed {changed : List Path} : s.times src dst changed now dst = s.mtime src := by
  rw [Disk.times, if_pos (List.prefix_refl _), List.drop_length, List.append_nil]

theorem backup_ne_root : R.rollback_root ++ [child] ≠ R.root := by
  intro h
  simpa [PluginRegistry.rollback_root] using congrArg List.length h

/-- What is below `.rollback`, with its times, is the same. -/
def Preserved (R : PluginRegistry) (s t : Disk) (child : String) : Prop :=
  Tree.Same s.tree t.tree (R.rollback_root ++ [child]) ∧
    t.mtime (R.rollback_root ++ [child]) = s.mtime (R.rollback_root ++ [child])

theorem Preserved.trans (h : Preserved R s t child) (h' : Preserved R t u child) : Preserved R s u child :=
  ⟨h.1.trans h'.1, h'.2.trans h.2⟩

theorem Preserved.symm (h : Preserved R s t child) : Preserved R t s child := ⟨h.1.symm, h.2.symm⟩

theorem Preserved.version (h : Preserved R s t child) (hversion : Version R s name child) : Version R t name child :=
  ⟨by rw [h.1.entry]; exact hversion.there, hversion.named, hversion.current⟩

/-- The installed version is a backup now, with its time, and the only new one. -/
structure Replaced (R : PluginRegistry) (name : String) (s t : Disk) (own : String) : Prop where
  free : s.tree.at? (R.rollback_root ++ [own]) = none
  backup : BackedUp R name own (s.dir? (R.home name)) t
  age : t.mtime (R.rollback_root ++ [own]) = s.mtime (R.home name)
  others : ∀ child, child ≠ own → Preserved R s t child

theorem Replaced.later {own : String} (h : Replaced R name s t own) (hrest : ∀ child, Preserved R t u child) :
    Replaced R name s u own :=
  ⟨h.free, h.backup.mono (hrest own).1, (hrest own).2.trans h.age, fun child hne => (h.others child hne).trans (hrest child)⟩

theorem SetAside.replaced (h : SetAside R name (R.home name) s l (.ok rollback_path) u) (hname : id_re name = true)
    (hnovel : ∀ hex, ⟨.uuid4, hex⟩ ∈ l → s.Unused hex) (hthere : s.tree.at? (R.home name) ≠ none) :
    ∃ own, Replaced R name s u own := by
  cases h with
  | absent hnone => exact absurd hnone hthere
  | @moved stamp hex now _ _ hmove =>
    rw [backup_path_eq (id_re_valid hname)] at hmove
    have hfree := (hnovel hex (by simp)).backup R.rollback_root name stamp
    obtain ⟨label, heq, _, hlabel⟩ := backup_label name stamp hex
    have hmoved := move?_landed hmove hfree
    have htimes := (move?_spec hmove).2.2
    rw [Tree.landing_free hfree] at htimes
    refine ⟨backup_name name stamp hex, hfree, ⟨⟨label, heq, hlabel⟩, ?_, dir?_congr hmoved.entry hmoved.below⟩, ?_, ?_⟩
    · rw [hmoved.entry]
      exact hmoved.there
    · rw [htimes, times_landed]
    · intro child hchild
      have hapart : Paths.Apart (R.rollback_root ++ [backup_name name stamp hex]) (R.rollback_root ++ [child]) :=
        apart_child (Ne.symm hchild)
      refine ⟨hmoved.same _ (apart_rollback (id_re_head hname) _).symm hapart, ?_⟩
      rw [htimes, times_apart hapart]
      · simp
      · simp [PluginRegistry.home, backup_ne_root]

/-- Staging and putting in place leave the backups alone. -/
theorem Placed.preserved {hex : Hex 32} (h : Placed source (R.home (staging_name name hex)) (R.home name) s t)
    (hname : id_re name = true) (hfree : s.tree.at? (R.home name) = none) : Preserved R s t child := by
  obtain ⟨u, now, now', hcopy, hreplace⟩ := h
  have hstaging : Paths.Apart (R.home (staging_name name hex)) (R.rollback_root ++ [child]) :=
    staging_apart_rollback name hex [child]
  have hhome : Paths.Apart (R.home name) (R.rollback_root ++ [child]) := (apart_rollback (id_re_head hname) _).symm
  have hfree' : u.tree.at? (R.home name) = none := by
    rw [(copytree?_frame hcopy _ (by simpa using apart_staging (id_re_head hname) name hex)).entry, hfree]
  obtain ⟨hmoved, _, htimes'⟩ := replace?_spec hreplace hfree'
  obtain ⟨_, _, _, htimes⟩ := copytree?_spec hcopy
  refine ⟨(copytree?_frame hcopy _ (by simpa using hstaging)).trans (hmoved.same _ hstaging hhome), ?_⟩
  rw [htimes', times_apart hhome, htimes, times_apart hstaging]
  · simp [PluginRegistry.home, backup_ne_root.symm]
  · simp
  · simp [PluginRegistry.home, backup_ne_root.symm]
  · simp [PluginRegistry.home, backup_ne_root]

theorem Installing.replaced {record : PluginRecord} {approved_by : String} {expected_integrity : Option String}
    (h : Installing R source approved_by expected_integrity s log (.ok record) t) (hnovel : Novel s log)
    (hthere : s.tree.at? (R.home record.name) ≠ none) : ∃ own, Replaced R record.name s t own := by
  cases h with
  | @placed tree mapping integrity rollback_path hex l₀ l₁ l₂ u v _ _ hchecked haside hplaced htree hmtime hend =>
    obtain ⟨records, installed_at, hread, hrecord, hwritten⟩ | ⟨_, herr, _⟩ := hend
    swap
    · cases herr
    obtain rfl := Except.ok.inj hrecord
    have hname := (checked_ok hchecked).2.2.2.2
    rw [staging_path_eq (id_re_valid hname)] at hplaced
    obtain ⟨own, hreplaced⟩ := haside.replaced hname (fun hex' hmem => hnovel hex' (by simp [hmem])) hthere
    refine ⟨own, hreplaced.later fun child => ?_⟩
    obtain ⟨hsame, hage⟩ : Preserved R u v child := hplaced.preserved hname haside.free
    exact ⟨htree ▸ hsame, by rw [hmtime, hage]⟩

end Times

section Rollback

variable {P : Choice → Prop} {R : PluginRegistry} {s t u v : Disk} {name child own : String} {log l : Log}
  {tree : Tree} {o : Except PyError PluginRecord}

/-- Nothing fails for reasons that are not on the disk. -/
def Reliable (ch : Choice) : Prop := ch.failure = none

theorem reliable_never : ¬ MayFail Reliable := fun ⟨_, hreliable, hfailure⟩ => hfailure hreliable

/-- What the rollback needs in order to find the version that an installation replaces: no other version is as
new, and it can be restored. -/
structure Undoable (R : PluginRegistry) (s : Disk) (name : String) (tree : Tree) : Prop where
  plain : isCurrent (name ++ "-") = false
  linkless : tree.hasSymlink = false
  readable : ∀ installed_at, ∃ record, R.restored name (R.home name) (some tree) installed_at = .ok record
  newest : ∀ child, Version R s name child → s.dir? (R.rollback_root ++ [child]) ≠ some tree →
    s.mtime (R.rollback_root ++ [child]) < s.mtime (R.home name) ∨ ∃ other, Version R s name other ∧
      s.dir? (R.rollback_root ++ [other]) = some tree ∧
        s.mtime (R.rollback_root ++ [child]) < s.mtime (R.rollback_root ++ [other])

/-- The clock has no part in whether a version can be restored. -/
theorem restored_at {destination : Path} {installed_at : String} {record : PluginRecord}
    (h : R.restored name destination (some tree) installed_at = .ok record) (again : String) :
    ∃ record, R.restored name destination (some tree) again = .ok record := by
  unfold PluginRegistry.restored at h ⊢
  obtain ⟨read, hread, h⟩ := bind_ok h
  cases read with
  | error text => cases h
  | ok manifest =>
    obtain ⟨version, hversion, h⟩ := bind_ok h
    obtain ⟨publisher, hpublisher, h⟩ := bind_ok h
    obtain ⟨permissions, hpermissions, h⟩ := bind_ok h
    obtain ⟨_, htools, h⟩ := bind_ok h
    obtain ⟨tools, htools', h⟩ := bind_ok h
    obtain ⟨_, hnetwork, h⟩ := bind_ok h
    obtain ⟨network, hnetwork', h⟩ := bind_ok h
    obtain ⟨_, hdependencies, h⟩ := bind_ok h
    obtain ⟨dependencies, hdependencies', h⟩ := bind_ok h
    simp only [hread, hversion, hpublisher, hpermissions, htools, htools', hnetwork, hnetwork', hdependencies,
      hdependencies', bind, Except.bind]
    exact ⟨_, rfl⟩

theorem dir?_some {p : Path} (h : s.dir? p = some tree) : s.tree.at? p = some .dir ∧ s.tree.below p = tree := by
  unfold Disk.dir? at h
  split at h
  · rename_i hdir
    exact ⟨hdir, Option.some.inj h⟩
  · cases h

/-- The newest versions after the installation are the replaced version and those that are equal to it. -/
theorem Undoable.first {first : Path} {rest : List Path} {ch : Choice} {found : List (Path × Int)}
    (h : Undoable R s name tree) (hreplaced : Replaced R name s t own) (hinstalled : s.dir? (R.home name) = some tree)
    (hname : id_re name = true) (hglob : t.glob ch R.rollback_root (name ++ "-*") = .ok found)
    (hfirst : candidates found = first :: rest) : ∃ child, first = R.rollback_root ++ [child] ∧
      Version R t name child ∧ t.dir? (R.rollback_root ++ [child]) = some tree := by
  obtain ⟨child, rfl, hversion, hnewest⟩ := newest_version hname hglob hfirst
  refine ⟨child, rfl, hversion, ?_⟩
  by_cases hown : child = own
  · subst hown
    exact hreplaced.backup.content.trans hinstalled
  have hkept := hreplaced.others child hown
  by_contra hother
  rw [dir?_same hkept.1] at hother
  obtain hold | ⟨newer, hnewer, hsame, hold⟩ := h.newest child (hkept.symm.version hversion) hother
  · have hlate := hnewest own (hreplaced.backup.version h.plain)
    rw [hreplaced.age, hkept.2] at hlate
    exact absurd hold hlate.not_gt
  · have hne : newer ≠ own := fun heq => hnewer.there (heq ▸ hreplaced.free)
    have hlate := hnewest newer ((hreplaced.others newer hne).version hnewer)
    rw [(hreplaced.others newer hne).2, hkept.2] at hlate
    exact absurd hold hlate.not_gt

/-- The installed version can be moved out of the way. -/
theorem not_uncleared {e : PyError} (hname : id_re name = true) (hthere : s.tree.at? (R.rollback_root ++ [child]) ≠ none)
    (hnovel : ∀ hex, ⟨.uuid4, hex⟩ ∈ l → s.Unused hex) : ¬ Clearing Reliable R name (R.home name) s l (.error e) u := by
  intro h
  cases h with
  | @failed hex _ _ hhome _ hwhy =>
    obtain ⟨_, hthere⟩ := Option.ne_none_iff_exists'.mp hthere
    obtain hmay | hfail := hwhy
    · exact reliable_never hmay
    rw [current_path_eq (id_re_valid hname)] at hfail
    obtain ⟨label, heq, hlabel⟩ := current_label name hex
    have hfree : s.tree.Free (R.rollback_root ++ [current_name name hex]) := by
      refine ⟨by simp, fun part hpart => ?_, (hnovel hex (by simp)).current _ _, ?_⟩
      · rcases List.mem_append.mp hpart with hpart | hpart
        · exact rollback_root_named R part hpart
        · rw [List.mem_singleton.mp hpart, heq]
          exact validName_label (id_re_valid hname) hlabel
      · rw [List.dropLast_concat]
        exact Tree.at?_dir hthere (by simp)
    obtain ⟨_, hmove⟩ := Tree.move?_free hhome hfree (apart_rollback (id_re_head hname) _).symm
    rw [hfail] at hmove
    cases hmove

/-- A version without links can be copied to the place of the plugin. -/
theorem copies (hclear : Clearing P R name (R.home name) s l (.ok ()) u) (hname : id_re name = true)
    (hnovel : Novel s l) (hdir : s.dir? (R.rollback_root ++ [child]) = some tree) (hlinkless : tree.hasSymlink = false) :
    ∃ w, u.tree.copytree? (R.rollback_root ++ [child]) (R.home name) = some w := by
  obtain ⟨hthere, hbelow⟩ := dir?_some hdir
  have hversion : s.tree.at? (R.rollback_root ++ [child]) ≠ none := by simp [hthere]
  have hsame := (hclear.confined (id_re_valid hname) fun _ hmem => hmem).same (id_re_head hname) hnovel hversion
  have hfree : u.tree.at? (R.home name) = none := by
    cases hclear with
    | absent hnone => exact hnone
    | moved _ hmove => exact (move?_spec hmove).1.gone
  have hroot : u.tree.at? R.root = some .dir := Tree.at?_above (hsame.entry.trans hthere)
    ((List.prefix_append _ _).trans (List.prefix_append _ _))
  have hplace : u.tree.Free (R.home name) := by
    refine ⟨by simp [PluginRegistry.home], fun part hpart => ?_, hfree, ?_⟩
    · rcases List.mem_append.mp hpart with hpart | hpart
      · exact R.named part hpart
      · exact List.mem_singleton.mp hpart ▸ id_re_valid hname
    · rw [PluginRegistry.home, List.dropLast_concat]
      exact hroot
  refine ⟨_, Tree.copytree?_eq_some.mpr ⟨hsame.entry.trans hthere, (apart_rollback (id_re_head hname) _).1, ?_,
    Tree.put?_free hplace (.inl rfl)⟩⟩
  rw [hsame.below, hbelow]
  exact hlinkless

/-- Then the rollback brings it back. -/
theorem Undoable.rollback (h : Undoable R s name tree) (hreplaced : Replaced R name s t own)
    (hinstalled : s.dir? (R.home name) = some tree) (hname : id_re name = true)
    (hrecords : ∃ records, t.records = .ok records) (hback : RollingBack Reliable R name t log o v) (hnovel : Novel t log) :
    ∃ record installed_at, o = .ok record ∧ R.restored name (R.home name) (some tree) installed_at = .ok record ∧
      v.dir? (R.home name) = some tree := by
  have hvalid := id_re_valid hname
  have hversion : Version R t name own := hreplaced.backup.version h.plain
  cases hback with
  | escaped hescape => cases (contained_home hvalid).symm.trans hescape
  | unlisted hwhy =>
    obtain hmay | ⟨ch, hglob⟩ := hwhy
    · exact absurd hmay reliable_never
    · cases (glob_eq hname ch).symm.trans hglob
  | unavailable hglob hnone => exact absurd hversion (no_version hname hglob hnone)
  | uncleared hdest hglob hfirst hclear =>
    obtain rfl := Except.ok.inj ((contained_home hvalid).symm.trans hdest)
    exact absurd hclear (not_uncleared hname hversion.there fun hex hmem => hnovel hex (by simp [hmem]))
  | uncopied hdest hglob hfirst hclear hwhy =>
    obtain rfl := Except.ok.inj ((contained_home hvalid).symm.trans hdest)
    obtain ⟨child, rfl, hfound, hdir⟩ := h.first hreplaced hinstalled hname hglob hfirst
    obtain hmay | hfail := hwhy
    · exact absurd hmay reliable_never
    obtain ⟨w, hcopy⟩ := copies hclear hname (fun hex hmem => hnovel hex (by simp [hmem])) hdir h.linkless
    rw [hfail] at hcopy
    cases hcopy
  | copied hdest hglob hfirst hclear hcopy hend =>
    obtain rfl := Except.ok.inj ((contained_home hvalid).symm.trans hdest)
    obtain ⟨child, rfl, hfound, hdir⟩ := h.first hreplaced hinstalled hname hglob hfirst
    obtain ⟨version, hbefore, hafter⟩ := copied_version hclear hcopy hname
      (fun hex hmem => hnovel hex (by simp [hmem])) hfound.there
    obtain rfl := Option.some.inj (hdir.symm.trans hbefore)
    have hv : v.dir? (R.home name) = some tree := by rw [Disk.dir?, hend.tree, ← Disk.dir?, hafter]
    obtain ⟨record, installed_at, _, hmade, _, hok, _⟩ | ⟨_, _, hmay | ⟨e, hbad⟩ | ⟨installed_at, e, hbad⟩⟩ := hend.outcome
    · exact ⟨record, installed_at, hok, hafter ▸ hmade, hv⟩
    · exact absurd hmay reliable_never
    · obtain ⟨records, hread⟩ := hrecords
      rw [(copytree?_spec hcopy).2.2.1, hclear.records, hread] at hbad
      cases hbad
    · obtain ⟨record, hread⟩ := h.readable installed_at
      rw [hafter, hread] at hbad
      cases hbad

/-- A rollback brings the version back. -/
def Undone (R : PluginRegistry) (name : String) (tree : Tree) (o : Except PyError PluginRecord) (v : Disk) : Prop :=
  ∃ record installed_at, o = .ok record ∧ R.restored name (R.home name) (some tree) installed_at = .ok record ∧
    v.dir? (R.home name) = some tree

/-- A choice under which nothing fails, with its order of the listing. -/
def listing (hex : Hex 32) (order : List Path → List Path) : Choice where
  stamp := sampleStamp
  hex := hex
  order := order

theorem exec_glob_by {ch : Choice} {dir : Path} {pattern : String} {o : Except PyError (List (Path × Int))}
    (h : Exec (· = ch) (PluginRegistry.glob dir pattern) s log o t) :
    o = ch.answer (s.glob ch dir pattern) ∧ log = [⟨.glob dir pattern, o⟩] := by
  obtain ⟨⟨_, rfl⟩, rest, rfl, hrest⟩ := Program.exec_issue.mp h
  obtain ⟨rfl, ho, _⟩ := Program.exec_ofExcept.mp hrest
  exact ⟨ho, by rw [ho]⟩

/-- The first request of a rollback. -/
theorem exec_listed {ch : Choice} {found : List (Path × Int)} (h : Exec (· = ch) (R.rollback name) s log o t)
    (hname : id_re name = true) (hreliable : Reliable ch) (hglob : s.glob ch R.rollback_root (name ++ "-*") = .ok found) :
    ∃ rest, log = ⟨.glob R.rollback_root (name ++ "-*"), .ok found⟩ :: rest := by
  have hanswer : ch.answer (s.glob ch R.rollback_root (name ++ "-*")) = .ok found := by
    rw [hglob, Choice.answer, show ch.failure = none from hreliable]
  obtain ⟨e, hescape, _⟩ | ⟨destination, _, hlist⟩ := exec_check h
  · cases (contained_home (id_re_valid hname)).symm.trans hescape
  obtain ⟨e, hfirst, _⟩ | ⟨_, _, l₁, l₂, hfirst, _, rfl⟩ := exec_then hlist
  · obtain ⟨ho, _⟩ := exec_glob_by hfirst
    cases ho.trans hanswer
  · obtain ⟨ho, rfl⟩ := exec_glob_by hfirst
    obtain rfl := Except.ok.inj (ho.trans hanswer)
    exact ⟨l₂, rfl⟩

/-- A version that nothing is newer than is found if it is listed first. -/
theorem newest_listed {hex : Hex 32} {found : List (Path × Int)} (hname : id_re name = true) (hversion : Version R s name child)
    (hnewest : ∀ other, Version R s name other → s.mtime (R.rollback_root ++ [other]) ≤ s.mtime (R.rollback_root ++ [child]))
    (hglob : s.glob (listing hex fun paths => (R.rollback_root ++ [child]) :: paths.erase (R.rollback_root ++ [child]))
      R.rollback_root (name ++ "-*") = .ok found) :
    ∃ rest, candidates found = (R.rollback_root ++ [child]) :: rest := by
  have hmem : R.rollback_root ++ [child] ∈ s.tree.matching R.rollback_root (path_parts (name ++ "-*")) :=
    (mem_matching hname).mpr ⟨child, rfl, hversion.there, hversion.named⟩
  have hlisted : (listing hex fun paths => (R.rollback_root ++ [child]) :: paths.erase (R.rollback_root ++ [child])).listed
      (s.tree.matching R.rollback_root (path_parts (name ++ "-*"))) = (R.rollback_root ++ [child]) ::
        (s.tree.matching R.rollback_root (path_parts (name ++ "-*"))).erase (R.rollback_root ++ [child]) :=
    if_pos (List.perm_cons_erase hmem).symm
  have hfound := (glob_eq hname _).symm.trans hglob
  rw [hlisted] at hfound
  obtain rfl := Except.ok.inj hfound
  refine candidates_cons (by rw [last_child]; exact hversion.current) fun y hy hcurrent => ?_
  obtain ⟨p, hp, rfl⟩ := List.mem_map.mp hy
  obtain ⟨other, rfl, hthere, hnamed⟩ := (mem_matching hname).mp (List.mem_of_mem_erase hp)
  rw [last_child] at hcurrent
  exact hnewest other ⟨hthere, hnamed, hcurrent⟩

/-- What a rollback that brings the version back has found, in whatever order it was listed. -/
theorem undone_first {hex : Hex 32} (hall : ∀ log o v, Exec Reliable (R.rollback name) t log o v → Novel t log → Undone R name tree o v)
    (hhex : t.Unused hex) (hname : id_re name = true) (order : List Path → List Path) :
    ∃ found child rest installed_at record, t.glob (listing hex order) R.rollback_root (name ++ "-*") = .ok found ∧
      candidates found = (R.rollback_root ++ [child]) :: rest ∧ t.dir? (R.rollback_root ++ [child]) = some tree ∧
      tree.hasSymlink = false ∧ R.restored name (R.home name) (some tree) installed_at = .ok record := by
  have hrun : ∀ {P : Choice → Prop}, P (listing hex order) → Exec P (R.rollback name) t
      ((R.rollback name).run Disk.apply (fun _ => listing hex order) t).log
      ((R.rollback name).run Disk.apply (fun _ => listing hex order) t).result
      ((R.rollback name).run Disk.apply (fun _ => listing hex order) t).state :=
    fun hP => Program.exec_of_run_where Disk.apply (R.rollback name) t fun _ => hP
  have hnovel : Novel t ((R.rollback name).run Disk.apply (fun _ => listing hex order) t).log :=
    novel_of_unused (fun _ => rfl) hhex
  generalize ((R.rollback name).run Disk.apply (fun _ => listing hex order) t).log = log at *
  generalize ((R.rollback name).run Disk.apply (fun _ => listing hex order) t).result = o at *
  generalize ((R.rollback name).run Disk.apply (fun _ => listing hex order) t).state = v at *
  obtain ⟨record, installed_at, rfl, hrestored, hhome⟩ := hall _ _ _ (hrun rfl) hnovel
  have hglob := glob_eq (R := R) (s := t) hname (listing hex order)
  obtain ⟨rest, hlog⟩ := exec_listed (hrun rfl) hname rfl hglob
  have hback := exec_rollback (hrun (P := Reliable) rfl)
  cases hback with
  | copied hdest hlisted hfirst hclear hcopy hend =>
    obtain rfl := Except.ok.inj ((contained_home (id_re_valid hname)).symm.trans hdest)
    obtain ⟨⟨⟩, rfl⟩ := List.cons.inj hlog
    obtain ⟨child, rfl, hversion, _⟩ := newest_version hname hlisted hfirst
    obtain ⟨version, hbefore, hafter⟩ := copied_version hclear hcopy hname
      (fun hex hmem => hnovel hex (by simp [hmem])) hversion.there
    have hsame : some version = some tree := by rw [← hafter, ← hhome, Disk.dir?, Disk.dir?, hend.tree]
    obtain rfl := Option.some.inj hsame
    obtain ⟨_, hcopied, rfl⟩ := Option.map_eq_some_iff.mp hcopy
    obtain ⟨_, _, hlinkless, hput⟩ := Tree.copytree?_eq_some.mp hcopied
    refine ⟨_, child, _, installed_at, record, hglob, hfirst, hbefore, ?_, hrestored⟩
    rw [← (dir?_some hafter).2, Tree.put?_below hput]
    exact hlinkless

end Rollback

section Sample

/-- The plugin is installed once more. -/
def renewed : Program.Outcome Disk Command Reply PyError PluginRecord :=
  (samplePlugins.install sampleSource "alice" none).run Disk.apply (fun _ => laterChoice) installed.state

def reverted : Program.Outcome Disk Command Reply PyError PluginRecord :=
  (samplePlugins.rollback "erp-plugin").run Disk.apply (fun _ => lastChoice) renewed.state

def firstVersion : Tree := installed.state.tree.below (samplePlugins.home "erp-plugin")

/-- What the installed plugin is, and what the second install comes to. -/
theorem undo_checks : isCurrent ("erp-plugin" ++ "-") = false ∧ firstVersion.hasSymlink = false ∧
    (samplePlugins.restored "erp-plugin" (samplePlugins.home "erp-plugin") (some firstVersion) "").isOk = true ∧
    (installed.state.dir? (samplePlugins.home "erp-plugin")).isSome = true ∧
    renewed.result.toOption.map (·.name) = some "erp-plugin" ∧ renewed.state.Unused lastChoice.hex ∧
    installed.state.tree.entries.map Prod.fst =
    [["srv"], ["srv", "plugins"], ["srv", "plugins", "erp"], ["srv", "plugins", "erp", ".codex-plugin"],
      ["srv", "plugins", "erp", ".codex-plugin", "plugin.json"], ["srv", "registry"], ["srv", "registry", ".rollback"],
      ["srv", "registry", "erp-plugin"], ["srv", "registry", "erp-plugin", ".codex-plugin"],
      ["srv", "registry", "erp-plugin", ".codex-plugin", "plugin.json"]] := by
  decide +kernel

theorem installed_undoable : Undoable samplePlugins installed.state "erp-plugin" firstVersion := by
  obtain ⟨hplain, hlinkless, hread, _, _, _, hpaths⟩ := undo_checks
  obtain ⟨_, hrecord⟩ := ok_of_isOk hread
  refine ⟨hplain, hlinkless, restored_at hrecord, fun child hversion => ?_⟩
  obtain ⟨e, he⟩ := Option.ne_none_iff_exists'.mp hversion.there
  have hpath := List.mem_map_of_mem (f := Prod.fst) ((Tree.at?_eq_some (by simp)).mp he)
  rw [hpaths] at hpath
  simp [PluginRegistry.rollback_root, samplePlugins] at hpath

end Sample

end EnterpriseCopilot.Plugin
