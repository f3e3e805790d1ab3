import EnterpriseCopilot.Plugin.History

/-! `registry.json` and the plugin directories agree. -/

namespace EnterpriseCopilot.Plugin

open EnterpriseCopilot.Lib EnterpriseCopilot.Python

section Agreed

variable {P : Choice → Prop} {R : PluginRegistry} {s t u : Disk} {name : String} {log : Log}

/-- A directory of the registry that is not one of its own. -/
def Installed (R : PluginRegistry) (d : Disk) (name : String) : Prop :=
  Plain name ∧ d.tree.at? (R.home name) = some .dir

/-- The records are about the plugin directories, and have their digests. -/
def Agreed (R : PluginRegistry) (d : Disk) : Prop :=
  ∃ records, d.records = .ok records ∧ (∀ name, name ∈ records.map Prod.fst ↔ Installed R d name) ∧
    ∀ x ∈ records, x.2.integrity_sha256 =
      plugin_integrity R.sha256 (R.home x.1) (d.tree.below (R.home x.1))

/-- The directory of the plugin has the files that it had. -/
structure Kept (R : PluginRegistry) (s t : Disk) (name : String) : Prop where
  entry : t.tree.at? (R.home name) = s.tree.at? (R.home name)
  files : (t.tree.below (R.home name)).files = (s.tree.below (R.home name)).files

theorem Kept.of_same (h : Tree.Same s.tree t.tree (R.home name)) : Kept R s t name :=
  ⟨h.entry, by rw [h.below]⟩

theorem plugin_integrity_congr {sha256 : Hexdigest} {root : Path} {a b : Tree} (h : a.files = b.files) :
    plugin_integrity sha256 root a = plugin_integrity sha256 root b := by
  rw [plugin_integrity, plugin_integrity, digest_input, digest_input, hashed, hashed, h]

/-- Without `.git` in the way the digest is that of the files alone. -/
theorem plugin_integrity_root {sha256 : Hexdigest} {root root' : Path} (t : Tree) (h : ".git" ∉ root)
    (h' : ".git" ∉ root') : plugin_integrity sha256 root t = plugin_integrity sha256 root' t := by
  have hsame : hashed root t = hashed root' t := by
    refine List.filter_congr fun x _ => ?_
    simp [h, h']
  rw [plugin_integrity, plugin_integrity, digest_input, digest_input, hsame]

theorem Agreed.plain (h : Agreed R s) {records : Records} (hrecords : s.records = .ok records)
    (hname : name ∈ records.map Prod.fst) : Installed R s name := by
  obtain ⟨records', hrecords', hnames, _⟩ := h
  cases hrecords.symm.trans hrecords'
  exact (hnames name).mp hname

/-- A new version of one plugin is entered. -/
theorem Agreed.set (h : Agreed R s) {records : Records} {record : PluginRecord}
    (hrecords : s.records = .ok records) (hentered : t.records = .ok (records.set name record))
    (hplain : Plain name) (hdir : t.tree.at? (R.home name) = some .dir)
    (hdigest : record.integrity_sha256 =
      plugin_integrity R.sha256 (R.home name) (t.tree.below (R.home name)))
    (hkept : ∀ other, Plain other → other ≠ name → Kept R s t other) : Agreed R t := by
  obtain ⟨records', hrecords', hnames, hdigests⟩ := h
  cases hrecords.symm.trans hrecords'
  refine ⟨_, hentered, fun other => ?_, fun x hx => ?_⟩
  · by_cases hother : other = name
    · subst hother
      simp [Records.set, Installed, hplain, hdir]
    · have hmem : other ∈ (records.set name record).map Prod.fst ↔ other ∈ records.map Prod.fst := by
        simp [Records.set, hother]
      rw [hmem, hnames other, Installed, Installed]
      exact and_congr_right fun hp => by rw [(hkept other hp hother).entry]
  · rcases List.mem_append.mp hx with hx | hx
    · obtain ⟨hx, hne⟩ := List.mem_filter.mp hx
      have hne' : x.1 ≠ name := by simpa using hne
      have hp := ((hnames x.1).mp (List.mem_map_of_mem hx)).1
      rw [hdigests x hx, plugin_integrity_congr (hkept x.1 hp hne').files]
    · obtain rfl := List.mem_singleton.mp hx
      exact hdigest

/-- The record of one name is dropped, and no directory has the name. -/
theorem Agreed.pop (h : Agreed R s) {records : Records} (hrecords : s.records = .ok records)
    (hentered : t.records = .ok (records.pop name)) (hgone : ¬ Installed R t name)
    (hkept : ∀ other, Plain other → other ≠ name → Kept R s t other) : Agreed R t := by
  obtain ⟨records', hrecords', hnames, hdigests⟩ := h
  cases hrecords.symm.trans hrecords'
  refine ⟨_, hentered, fun other => ?_, fun x hx => ?_⟩
  · by_cases hother : other = name
    · subst hother
      simp [Records.pop, hgone]
    · have hmem : other ∈ (records.pop name).map Prod.fst ↔ other ∈ records.map Prod.fst := by
        simp [Records.pop, hother]
      rw [hmem, hnames other, Installed, Installed]
      exact and_congr_right fun hp => by rw [(hkept other hp hother).entry]
  · obtain ⟨hx, hne⟩ := List.mem_filter.mp hx
    have hne' : x.1 ≠ name := by simpa using hne
    have hp := ((hnames x.1).mp (List.mem_map_of_mem hx)).1
    rw [hdigests x hx, plugin_integrity_congr (hkept x.1 hp hne').files]

end Agreed

section Install

variable {R : PluginRegistry} {s t u v : Disk} {name : String} {log l : Log} {source : Path}
  {approved_by : String} {expected_integrity : Option String} {record : PluginRecord}
  {rollback_path : Option Path} {staging : Path}

/-- The source is where it was when the installed version has been set aside. -/
theorem SetAside.source_kept (h : SetAside R name (R.home name) s l (.ok rollback_path) u)
    (hname : ValidName name) (hnovel : ∀ hex, ⟨.uuid4, hex⟩ ∈ l → s.Unused hex)
    (hbefore : s.tree.at? source = some .dir) (hafter : u.tree.at? source = some .dir)
    (hroot : ¬ source <+: R.root) (hrollback : source ≠ R.rollback_root) :
    Tree.Same s.tree u.tree source := by
  cases h with
  | absent => exact .refl _ _
  | @moved stamp hex now _ hthere hmove =>
    rw [backup_path_eq hname] at hmove
    have hmoved := move?_landed hmove ((hnovel hex (by simp)).backup _ _ _)
    have hup : ∀ last, source <+: R.root ++ [last] → source = R.root ++ [last] := fun last hp =>
      (List.prefix_concat_iff.mp (by simpa using hp)).resolve_right hroot
    refine hmoved.same source ⟨fun hp => ?_, fun hp => ?_⟩ ⟨fun hp => ?_, fun hp => ?_⟩
    · exact absurd (hmoved.gone.symm.trans (Tree.at?_above hafter hp)) (by simp)
    · rw [hup name hp, ← PluginRegistry.home, hmoved.gone] at hafter
      cases hafter
    · exact absurd (hmoved.free.symm.trans (Tree.at?_above hbefore hp)) (by simp)
    · rcases List.prefix_concat_iff.mp (by simpa using hp) with heq | hp
      · rw [heq, hmoved.free] at hbefore
        cases hbefore
      · exact hrollback (hup _ hp)

/-- What a successful installation did. -/
structure InstallOk (R : PluginRegistry) (source : Path) (s : Disk) (record : PluginRecord) (t : Disk) : Prop where
  name : id_re record.name = true
  source_dir : s.tree.at? source = some .dir
  integrity : record.integrity_sha256 = plugin_integrity R.sha256 source (s.tree.below source)
  dir : t.tree.at? (R.home record.name) = some .dir
  content : source ≠ R.rollback_root →
    t.tree.below (R.home record.name) = s.tree.below source
  same : ∀ other, Plain other → other ≠ record.name → Tree.Same s.tree t.tree (R.home other)
  records : ∃ records, s.records = .ok records ∧ t.records = .ok (records.set record.name record)

theorem installing_ok (h : Installing R source approved_by expected_integrity s log (.ok record) t)
    (hnovel : Novel s log) : InstallOk R source s record t := by
  cases h with
  | @placed tree mapping integrity rollback_path hex l₀ l₁ l₂ u v _ _ hchecked haside hplaced htree _ hend =>
    obtain ⟨hfound, _, hintegrity, _, hname⟩ := checked_ok hchecked
    obtain ⟨records, installed_at, hread, hrecord, hwritten⟩ | ⟨_, herr, _⟩ := hend
    swap
    · cases herr
    obtain rfl := Except.ok.inj hrecord
    have hvalid := id_re_valid hname
    have hplain : Plain (text_of (mapping.get "name")) := id_re_head hname
    rw [staging_path_eq hvalid] at hplaced
    obtain ⟨hsource, hstrict, hdir, hcontent, hframe, hkept⟩ :=
      hplaced.spec haside.free (apart_staging hplain _ hex)
    have hbefore : s.tree.at? source = some .dir ∧ tree = s.tree.below source := by
      unfold Disk.dir? at hfound
      split at hfound
      · rename_i hdir'
        exact ⟨hdir', (Option.some.inj hfound).symm⟩
      · cases hfound
    refine ⟨hname, hbefore.1, ?_, by rw [htree]; exact hdir, fun hrollback => ?_, fun other hother hne => ?_, ?_⟩
    · rw [← hbefore.2]
      exact hintegrity
    · have hroot : ¬ source <+: R.root := fun hp => hstrict (hp.trans (List.prefix_append _ _))
      have hsame := haside.source_kept hvalid (fun hex' hmem => hnovel hex' (by simp [hmem])) hbefore.1 hsource
        hroot hrollback
      rw [htree, ← hsame.below]
      exact hcontent
    · have hfirst : Tree.Same s.tree u.tree (R.home other) := by
        refine haside.frame _ fun p hp => ?_
        rcases List.mem_cons.mp hp with rfl | hp
        · exact apart_home (Ne.symm hne)
        · obtain ⟨path, rfl, rfl⟩ : ∃ path, rollback_path = some path ∧ p = path := by simpa using hp
          obtain ⟨stamp, hex', rfl, _⟩ := haside.path
          rw [backup_path_eq hvalid]
          exact apart_rollback hother _
      have hsecond : Tree.Same u.tree v.tree (R.home other) := by
        refine hframe _ fun p hp => ?_
        simp only [List.mem_cons, List.not_mem_nil, or_false] at hp
        rcases hp with rfl | rfl
        · exact apart_staging hother _ hex
        · exact apart_home (Ne.symm hne)
      rw [htree]
      exact hfirst.trans hsecond
    · exact ⟨records, by rw [← haside.records, ← hkept, hread], hwritten⟩

theorem Agreed.install (h : Agreed R s) (hx : InstallOk R source s record t) (hroot : ".git" ∉ R.root)
    (hgit : ".git" ∉ source) (hrollback : source ≠ R.rollback_root) : Agreed R t := by
  obtain ⟨records, hread, hwritten⟩ := hx.records
  have hplain : Plain record.name := id_re_head hx.name
  refine h.set hread hwritten hplain hx.dir ?_ fun other hother hne => .of_same (hx.same other hother hne)
  have hhome : ".git" ∉ R.home record.name := by
    have hne : ".git" ≠ record.name := by
      intro heq
      rw [← heq] at hplain
      exact hplain (by decide)
    simp [PluginRegistry.home, hroot, hne]
  rw [hx.integrity, hx.content hrollback]
  exact plugin_integrity_root _ hgit hhome

end Install

section Rollback

variable {P : Choice → Prop} {R : PluginRegistry} {s t u v : Disk} {name : String} {log l : Log}
  {record : PluginRecord} {first : Path} {now : Int}

/-- The name and the digest of the record are those of the directory. -/
theorem restored_ok {destination : Path} {found : Option Tree} {installed_at : String}
    (h : R.restored name destination found installed_at = .ok record) : ∃ tree, found = some tree ∧
      record.name = name ∧ record.integrity_sha256 = plugin_integrity R.sha256 destination tree := by
  unfold PluginRegistry.restored at h
  cases found with
  | none => cases h
  | some tree =>
    obtain ⟨manifest, _, h⟩ := bind_ok h
    cases manifest with
    | error text => cases h
    | ok manifest =>
      obtain ⟨version, _, h⟩ := bind_ok h
      obtain ⟨publisher, _, h⟩ := bind_ok h
      obtain ⟨permissions, _, h⟩ := bind_ok h
      obtain ⟨_, _, h⟩ := bind_ok h
      obtain ⟨tools, _, h⟩ := bind_ok h
      obtain ⟨_, _, h⟩ := bind_ok h
      obtain ⟨network, _, h⟩ := bind_ok h
      obtain ⟨_, _, h⟩ := bind_ok h
      obtain ⟨dependencies, _, h⟩ := bind_ok h
      cases h
      exact ⟨tree, rfl, rfl, rfl⟩

theorem Clearing.records {destination : Path} {o : Except PyError Unit}
    (h : Clearing P R name destination s l o u) : u.records = s.records := by
  cases h with
  | absent => rfl
  | moved _ hmove => exact (move?_spec hmove).2.1
  | failed _ hhalted => exact hhalted.frame.2

/-- The version that is replaced goes below `.rollback`. -/
theorem Clearing.same (h : Clearing P R name (R.home name) s l (.ok ()) u) (hname : ValidName name)
    {other : String} (hother : Plain other) (hne : other ≠ name) :
    Tree.Same s.tree u.tree (R.home other) := by
  cases h with
  | absent => exact .refl _ _
  | moved _ hmove =>
    refine move?_frame hmove _ fun p hp => ?_
    simp only [List.mem_cons, List.not_mem_nil, or_false] at hp
    rcases hp with rfl | rfl
    · exact apart_home (Ne.symm hne)
    · rw [current_path_eq hname]
      exact apart_rollback hother _

/-- What a successful rollback did. -/
structure RollbackOk (R : PluginRegistry) (name : String) (s : Disk) (record : PluginRecord) (t : Disk) :
    Prop where
  named : record.name = name
  dir : t.tree.at? (R.home name) = some .dir
  integrity : record.integrity_sha256 =
    plugin_integrity R.sha256 (R.home name) (t.tree.below (R.home name))
  same : ∀ other, Plain other → other ≠ name → Tree.Same s.tree t.tree (R.home other)
  records : ∃ records, s.records = .ok records ∧ t.records = .ok (records.set name record)

theorem rollingBack_ok (h : RollingBack P R name s log (.ok record) t) (hname : ValidName name) :
    RollbackOk R name s record t := by
  cases h with
  | @copied destination ch found first rest l₁ u now v l₂ _ _ hdest _ _ hclear hcopy hend =>
    obtain rfl := Except.ok.inj ((contained_home hname).symm.trans hdest)
    obtain ⟨record', installed_at, records, hmade, hread, hrecord, hwritten⟩ | ⟨_, herr, _⟩ := hend.outcome
    swap
    · cases herr
    obtain rfl := Except.ok.inj hrecord
    obtain ⟨hsource, hput, hkept, _⟩ := copytree?_spec hcopy
    have hdir : v.tree.at? (R.home name) = some .dir := Tree.put?_at hput
    obtain ⟨tree, hfound, hrecordname, hintegrity⟩ := restored_ok hmade
    rw [Disk.dir?, if_pos hdir] at hfound
    obtain rfl := Option.some.inj hfound
    refine ⟨hrecordname, by rw [hend.tree]; exact hdir, by rw [hend.tree]; exact hintegrity, fun other hother hne => ?_, ?_⟩
    · rw [hend.tree]
      exact (hclear.same hname hother hne).trans
        (copytree?_frame hcopy _ (by simpa using apart_home (Ne.symm hne)))
    · exact ⟨records, by rw [← hclear.records, ← hkept, hread], by rw [hwritten, hrecordname]⟩

theorem Agreed.rollback (h : Agreed R s) (hx : RollbackOk R name s record t) (hplain : Plain name) :
    Agreed R t := by
  obtain ⟨records, hread, hwritten⟩ := hx.records
  exact h.set hread hwritten hplain hx.dir hx.integrity fun other hother hne =>
    .of_same (hx.same other hother hne)

end Rollback

section Remove

variable {R : PluginRegistry} {s t u v : Disk} {name : String} {log l : Log} {destination target : Path}
  {now : Int}

/-- A removal that moves no file of a plugin: what it moves is no plugin, and has no files if it is
inside one, and it goes elsewhere. -/
structure Harmless (R : PluginRegistry) (d : Disk) (name : String) : Prop where
  outside : ∀ destination, _assert_contained R.root name = .ok destination →
    ∀ other, Plain other → ¬ destination <+: R.home other
  bare : ∀ destination, _assert_contained R.root name = .ok destination →
    ∀ other, Plain other → R.home other <+: destination → (d.tree.below destination).files = []
  apart : ∀ stamp hex other, Plain other →
    Paths.Apart (join R.rollback_root (removed_name name stamp hex)) (R.home other)

theorem mem_without_files {t' : Tree} {q : Path} (hdir : t'.at? q = some .dir)
    (hbare : (t'.below q).files = []) {x : Path × Entry} (hx : x ∈ t'.entries) (hq : q <+: x.1) :
    x.2.content? = none := by
  obtain ⟨path, e⟩ := x
  obtain ⟨r, rfl⟩ := hq
  cases e with
  | dir => rfl
  | symlink => rfl
  | file content =>
    by_cases hr : r = []
    · subst hr
      rw [List.append_nil] at hx
      exact absurd ((Tree.at?_of_mem hx).symm.trans hdir) (by simp)
    · have hmem : (r, content) ∈ (t'.below q).files := mem_files.mpr (Paths.mem_below.mpr ⟨hr, hx⟩)
      rw [hbare] at hmem
      cases hmem

/-- Directories without files can go. -/
theorem files_without {xs : List (Path × Entry)} {q : Path}
    (h : ∀ x ∈ xs, q <+: x.1 → x.2.content? = none) :
    ((Paths.without q xs).filterMap fun x => x.2.content?.map fun content => (x.1, content)) =
      xs.filterMap fun x => x.2.content?.map fun content => (x.1, content) := by
  rw [Paths.without, List.filterMap_filter]
  refine List.filterMap_congr fun x hx => ?_
  by_cases hq : q <+: x.1
  · simp [hq, h x hx hq]
  · simp [hq]

theorem harmless_kept (hmove : s.move? destination target now = some u)
    (hdir : s.tree.at? destination = some .dir) {other : String}
    (hout : ¬ destination <+: R.home other)
    (hbare : R.home other <+: destination → (s.tree.below destination).files = [])
    (htarget : Paths.Apart target (R.home other)) : Kept R s u other := by
  by_cases hup : R.home other <+: destination
  · specialize hbare hup
    obtain ⟨q, rfl⟩ := hup
    have hq : q ≠ [] := by
      rintro rfl
      simp at hout
    obtain ⟨tree, htree, rfl⟩ := Option.map_eq_some_iff.mp hmove
    have hland : Paths.Apart (s.tree.landing (R.home other ++ q) target) (R.home other) := by
      obtain ⟨r, hr⟩ := Tree.landing_prefix (t := s.tree)
      rw [← hr]
      exact (htarget.symm.append_right r).symm
    refine ⟨Tree.move?_above htree (List.prefix_append _ q) (by simpa using hq) hland, ?_⟩
    have hentries := Tree.move?_out htree hland
    rw [Tree.files, hentries, Tree.files]
    refine files_without fun x hx hpre => ?_
    have hbelow : (s.tree.below (R.home other)).at? q = some .dir := by
      rw [← Tree.at?_append hq, hdir]
    refine mem_without_files hbelow ?_ hx hpre
    rwa [Tree.below_below]
  · refine .of_same (move?_frame hmove _ fun p hp => ?_)
    simp only [List.mem_cons, List.not_mem_nil, or_false] at hp
    rcases hp with rfl | rfl
    · exact ⟨hout, hup⟩
    · exact htarget

/-- A plugin directory has the name of a directory. -/
theorem Installed.valid (h : Installed R s name) : ValidName name :=
  (s.tree.named _ ((Tree.at?_eq_some (by simp [PluginRegistry.home])).mp h.2)).2 name
    (by simp [PluginRegistry.home])

/-- What a successful removal did. -/
structure RemoveOk (R : PluginRegistry) (name : String) (s t : Disk) : Prop where
  gone : ¬ Installed R t name
  kept : ∀ other, Plain other → other ≠ name → Kept R s t other
  records : ∃ records, s.records = .ok records ∧ t.records = .ok (records.pop name)

theorem Kept.of_tree (h : Kept R s u name) (htree : t.tree = u.tree) : Kept R s t name :=
  ⟨by rw [htree, h.entry], by rw [htree, h.files]⟩

theorem removing_ok (h : Removing R name s log (.ok ()) t) (hname : ValidName name ∨ Harmless R s name) :
    RemoveOk R name s t := by
  cases h with
  | @moved destination stamp hex now u l _ _ hdest hdir hmove htree _ _ hend =>
    obtain ⟨records, hread, _, hwritten⟩ | ⟨_, herr⟩ := hend
    swap
    · cases herr
    have hrecords : ∃ records, s.records = .ok records ∧ t.records = .ok (records.pop name) :=
      ⟨records, by rw [← (move?_spec hmove).2.1, hread], hwritten⟩
    rcases hname with hname | hharmless
    · obtain rfl := Except.ok.inj ((contained_home hname).symm.trans hdest)
      rw [removed_path_eq hname] at hmove
      refine ⟨fun hthere => ?_, fun other hother hne => ?_, hrecords⟩
      · have hgone := (move?_spec hmove).1.gone
        rw [← htree, hthere.2] at hgone
        cases hgone
      · refine .of_tree (.of_same (move?_frame hmove _ fun p hp => ?_)) htree
        simp only [List.mem_cons, List.not_mem_nil, or_false] at hp
        rcases hp with rfl | rfl
        · exact apart_home (Ne.symm hne)
        · exact apart_rollback hother _
    · refine ⟨fun hthere => ?_, fun other hother _ => ?_, hrecords⟩
      · have hhome := hharmless.outside _ (contained_home hthere.valid) name hthere.1
        exact hhome (List.prefix_refl _)
      · exact .of_tree (harmless_kept hmove hdir (hharmless.outside _ hdest other hother)
          (hharmless.bare _ hdest other hother) (hharmless.apart _ _ other hother)) htree

theorem Agreed.remove (h : Agreed R s) (hx : RemoveOk R name s t) : Agreed R t := by
  obtain ⟨records, hread, hwritten⟩ := hx.records
  exact h.pop hread hwritten hx.gone hx.kept

end Remove

section Histories

variable {R : PluginRegistry} {d : Disk} {h : History} {es : List Event}

/-- The registry is asked for a plugin by its name, and the path of a source is not hidden from the
digest. -/
def Proper (R : PluginRegistry) (d : Disk) : Call → Prop
  | .install source _ _ => ".git" ∉ source ∧ source ≠ R.rollback_root
  | .rollback name => ValidName name ∧ Plain name
  | .remove name _ => ValidName name ∨ Harmless R d name

/-- The call succeeds, with new UUIDs. -/
def Succeeds (R : PluginRegistry) (h : History) : Action → Prop
  | .call c ω => (∃ r, (R.among c ω h.disk).result = .ok r) ∧ Novel h.disk (R.among c ω h.disk).log
  | .edit _ _ => True

/-- The call succeeds, and is proper. -/
def Tidy (R : PluginRegistry) (h : History) (a : Action) : Prop :=
  Succeeds R h a ∧ match a with
    | .call c _ => Proper R h.disk c
    | .edit _ _ => True

/-- The plugin that a call is about. -/
def Call.plugin : Call → Option PluginRecord → Option String
  | .install _ _ _, record => record.map PluginRecord.name
  | .rollback name, _ | .remove name _, _ => some name

/-- The call changed no file of another plugin. -/
def Event.Spares (R : PluginRegistry) : Event → Prop
  | .called c before _ result after => ∀ record, result = .ok record →
      ∀ other, Plain other → some other ≠ c.plugin record →
        (after.tree.below (R.home other)).files = (before.tree.below (R.home other)).files
  | .edited => True

theorem PluginRegistry.Fresh.agreed (hfresh : R.Fresh d) : Agreed R d := by
  refine ⟨[], hfresh.records, fun name => ?_, by simp⟩
  simp only [List.map_nil, List.not_mem_nil, false_iff]
  rintro ⟨hplain, hdir⟩
  rw [PluginRegistry.home, Tree.at?_append (by simp), Tree.at?_eq_some (by simp), hfresh.entries] at hdir
  obtain ⟨heq, _⟩ := Prod.mk.inj (List.mem_singleton.mp hdir)
  exact hplain.ne_rollback (List.singleton_inj.mp heq).symm

/-- An edit leaves the directories of the plugins alone. -/
theorem edited_same {tree : Tree} {mtime : Path → Int} {d' : Disk} (hd : R.edited d tree mtime = some d')
    (name : String) : Tree.Same d.tree d'.tree (R.home name) ∧ d'.records = d.records := by
  unfold PluginRegistry.edited at hd
  split at hd
  · rename_i hsame
    obtain rfl := Option.some.inj hd
    have hbelow : tree.below R.root = d.tree.below R.root := Tree.ext_entries hsame.2
    refine ⟨⟨?_, ?_⟩, rfl⟩
    · rw [PluginRegistry.home, Tree.at?_append (by simp), Tree.at?_append (by simp), hbelow]
    · rw [PluginRegistry.home, ← Tree.below_below, ← Tree.below_below, hbelow]
  · cases hd

theorem Agreed.edit (h : Agreed R d) {tree : Tree} {mtime : Path → Int} {d' : Disk}
    (hd : R.edited d tree mtime = some d') : Agreed R d' := by
  obtain ⟨records, hrecords, hnames, hdigests⟩ := h
  refine ⟨records, by rw [(edited_same hd "").2, hrecords], fun name => ?_, fun x hx => ?_⟩
  · rw [hnames name, Installed, Installed, (edited_same hd name).1.entry]
  · rw [hdigests x hx, (edited_same hd x.1).1.below]

theorem map_eq_ok {α β : Type} {f : α → β} {o : Except PyError α} {b : β} (h : o.map f = .ok b) :
    ∃ a, o = .ok a ∧ b = f a := by
  cases o with
  | error e => cases h
  | ok a => exact ⟨a, rfl, (Except.ok.inj h).symm⟩

/-- A proper call that succeeds keeps the registry and its directories together. -/
theorem Agreed.call {P : Choice → Prop} {c : Call} {log : Log} {record : Option PluginRecord} {t : Disk}
    (h : Agreed R d) (hroot : ".git" ∉ R.root) (hx : Exec P (R.call c) d log (.ok record) t)
    (hnovel : Novel d log) (hproper : Proper R d c) : Agreed R t ∧
      Event.Spares R (.called c d log (.ok record) t) := by
  cases c with
  | install source approved_by expected_integrity =>
    obtain ⟨o', hinstall, heq⟩ := exec_call_install hx
    obtain ⟨r, rfl, rfl⟩ := map_eq_ok heq.symm
    have hok := installing_ok hinstall hnovel
    refine ⟨h.install hok hroot hproper.1 hproper.2, ?_⟩
    rintro _ ⟨⟩ other hother hne
    have hname : other ≠ r.name := by simpa [Call.plugin] using hne
    rw [(hok.same other hother hname).below]
  | rollback name =>
    obtain ⟨o', hrollback, heq⟩ := exec_call_rollback hx
    obtain ⟨r, rfl, rfl⟩ := map_eq_ok heq.symm
    have hok := rollingBack_ok hrollback hproper.1
    refine ⟨h.rollback hok hproper.2, ?_⟩
    rintro _ ⟨⟩ other hother hne
    have hname : other ≠ name := by simpa [Call.plugin] using hne
    rw [(hok.same other hother hname).below]
  | remove name approved_by =>
    obtain ⟨o', hremove, heq⟩ := exec_call_remove hx
    obtain ⟨_, rfl, rfl⟩ := map_eq_ok heq.symm
    have hok := removing_ok hremove hproper
    refine ⟨h.remove hok, ?_⟩
    rintro _ ⟨⟩ other hother hne
    have hname : other ≠ name := by simpa [Call.plugin] using hne
    exact (hok.kept other hother hname).files

theorem agreed_step {a : Action} {h' : History} {e : Event} (hag : Agreed R h.disk)
    (hroot : ".git" ∉ R.root) (htidy : Tidy R h a) (hs : R.machine.step h a = some (h', e)) :
    Agreed R h'.disk ∧ Event.Spares R e := by
  cases a with
  | call c ω =>
    obtain ⟨⟨⟨record, hrecord⟩, hnovel⟩, hproper⟩ := htidy
    obtain ⟨rfl, rfl⟩ := Prod.mk.inj (Option.some.inj hs)
    have hx := exec_among (P := fun _ => True) R c ω h.disk fun _ => trivial
    rw [hrecord] at hx ⊢
    exact hag.call hroot hx hnovel hproper
  | edit tree mtime =>
    obtain ⟨d, hd, heq⟩ := Option.map_eq_some_iff.mp hs
    obtain ⟨rfl, rfl⟩ := Prod.mk.inj heq
    exact ⟨hag.edit hd, trivial⟩

/-- As long as plugins are asked for by their names, the records are those of the directories, and
calls touch only the files of their plugin. -/
theorem registry_agrees (R : PluginRegistry) (d : Disk) (es : List Event) (h : History)
    (hroot : ".git" ∉ R.root) (hfresh : R.Fresh d) (hrun : R.machine.Run (Tidy R) ⟨d, []⟩ es h) :
    Agreed R h.disk ∧ ∀ e ∈ es, e.Spares R := by
  refine hrun.invariant (I := fun es h => Agreed R h.disk ∧ ∀ e ∈ es, e.Spares R)
    ⟨hfresh.agreed, by simp⟩ ?_
  rintro es t a u e _ htidy hs ⟨hag, hspares⟩
  obtain ⟨hag', hspare⟩ := agreed_step hag hroot htidy hs
  refine ⟨hag', fun e' he' => ?_⟩
  rcases List.mem_append.mp he' with he' | he'
  · exact hspares e' he'
  · exact List.mem_singleton.mp he' ▸ hspare

end Histories

section Sample

def installCall : Call := .install sampleSource "alice" none

def installed : Program.Outcome Disk Command Reply PyError (Option PluginRecord) :=
  samplePlugins.among installCall (fun _ => sampleChoice) sampleDisk

/-- The plugin, by another name for its directory. -/
def removeCall : Call := .remove "./erp-plugin" "alice"

def removed : Program.Outcome Disk Command Reply PyError (Option PluginRecord) :=
  samplePlugins.among removeCall (fun _ => laterChoice) installed.state

theorem sample_fresh : samplePlugins.Fresh sampleDisk := ⟨by decide, by decide, rfl⟩

theorem ok_of_isOk {α : Type} {o : Except PyError α} (h : o.isOk = true) : ∃ a, o = .ok a := by
  cases o with
  | ok a => exact ⟨a, rfl⟩
  | error e => cases h

/-- What the two calls leave. -/
theorem removed_checks : installed.result.isOk = true ∧ sampleDisk.Unused sampleChoice.hex ∧
    installed.state.Unused laterChoice.hex ∧ removed.result.isOk = true ∧
    (removed.state.records.toOption.map fun records => records.map Prod.fst) = some ["erp-plugin"] ∧
    removed.state.tree.at? (samplePlugins.home "erp-plugin") = none := by
  decide +kernel

theorem install_succeeds {h : History} (hd : h.disk = sampleDisk) :
    Succeeds samplePlugins h (.call installCall fun _ => sampleChoice) := by
  obtain ⟨hok, hunused, _⟩ := removed_checks
  unfold Succeeds
  rw [hd]
  exact ⟨ok_of_isOk hok, novel_of_unused (fun _ => rfl) hunused⟩

theorem installed_unused : installed.state.Unused laterChoice.hex := removed_checks.2.2.1

theorem remove_succeeds {h : History} (hd : h.disk = installed.state) :
    Succeeds samplePlugins h (.call removeCall fun _ => laterChoice) := by
  obtain ⟨_, _, _, hok, _⟩ := removed_checks
  unfold Succeeds
  rw [hd]
  exact ⟨ok_of_isOk hok, novel_of_unused (fun _ => rfl) installed_unused⟩

/-- A call as the last step of a run. -/
theorem run_call {R : PluginRegistry} {G : History → Action → Prop} {d : Disk} {es : List Event} {h : History}
    {c : Call} {ω : Nat → Choice} (hrun : R.machine.Run G ⟨d, []⟩ es h) (hg : G h (.call c ω)) :
    ∃ es' h', R.machine.Run G ⟨d, []⟩ es' h' ∧ h'.disk = (R.among c ω h.disk).state :=
  ⟨_, _, hrun.snoc hg rfl, rfl⟩

theorem registry_agrees_sample : ∃ h : History, h.disk = installed.state ∧ Agreed samplePlugins h.disk := by
  have htidy : Tidy samplePlugins ⟨sampleDisk, []⟩ (.call installCall fun _ => sampleChoice) :=
    ⟨install_succeeds rfl, by decide, by decide⟩
  obtain ⟨es, h, hrun, hd⟩ := run_call .nil htidy
  exact ⟨h, hd, (registry_agrees samplePlugins sampleDisk es h (by decide) sample_fresh hrun).1⟩

/-- After the removal the record of the plugin is still there. -/
theorem alias_kept : ¬ ∀ (R : PluginRegistry) (d : Disk) (es : List Event) (h : History),
    ".git" ∉ R.root → R.Fresh d → R.machine.Run (Succeeds R) ⟨d, []⟩ es h →
    Agreed R h.disk ∧ ∀ e ∈ es, e.Spares R := by
  intro hclaim
  obtain ⟨es, h, hrun, hd⟩ := run_call .nil (install_succeeds (h := ⟨sampleDisk, []⟩) rfl)
  obtain ⟨es', h', hrun', hd'⟩ := run_call hrun (remove_succeeds hd)
  obtain ⟨⟨records, hrecords, hnames, _⟩, _⟩ := hclaim samplePlugins sampleDisk es' h' (by decide) sample_fresh hrun'
  rw [hd] at hd'
  replace hd' : h'.disk = removed.state := hd'
  obtain ⟨_, _, _, _, hkept, hgone⟩ := removed_checks
  rw [← hd', hrecords] at hkept
  have hthere := (hnames "erp-plugin").mp (by simp [Option.some.inj hkept])
  rw [hd'] at hthere
  exact absurd (hthere.2.symm.trans hgone) (by simp)

end Sample

end EnterpriseCopilot.Plugin
