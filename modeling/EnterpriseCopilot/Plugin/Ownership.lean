import EnterpriseCopilot.Plugin.Versions

/-! Whose backups a rollback restores. -/

namespace EnterpriseCopilot.Plugin

open EnterpriseCopilot.Lib EnterpriseCopilot.Python

section Backups

variable {P : Choice → Prop} {R : PluginRegistry} {s t u v w : Disk} {name child : String} {log l : Log}
  {source staging : Path} {approved_by : String} {expected_integrity : Option String} {rollback_path : Option Path}

/-- The plugin whose directory a call puts below `.rollback` for later rollbacks. -/
def Call.Backs (R : PluginRegistry) (d : Disk) (name : String) : Call → Prop
  | .install source approved_by expected_integrity => R.Names d source approved_by expected_integrity name
  | .remove other _ => other = name
  | .rollback _ => False

/-- The call left a backup of the plugin. -/
def Event.Leaves (R : PluginRegistry) (name child : String) : Event → Prop
  | .called c before _ _ after => c.Backs R before name ∧
      before.tree.at? (R.rollback_root ++ [child]) = none ∧ after.tree.at? (R.rollback_root ++ [child]) ≠ none
  | .edited => False

/-- The version of the plugin that was installed before the call. -/
def Event.installed (R : PluginRegistry) (name : String) : Event → Option Tree
  | .called _ before _ _ _ => before.dir? (R.home name)
  | .edited => none

/-- A backup of the plugin was made. -/
def Made (R : PluginRegistry) (past : List Event) (name child : String) : Prop := ∃ e ∈ past, e.Leaves R name child

/-- A rollback restores a version of the plugin from a backup of it, leaves the other plugins alone, and misses no
backup. -/
def Event.Restores (R : PluginRegistry) (past : List Event) : Event → Prop
  | .called (.rollback name) before log result after =>
    (∀ record, result = .ok record → (∃ e ∈ past, ∃ child version, e.Leaves R name child ∧
      ⟨.copytree (R.rollback_root ++ [child]) (R.home name), .ok ()⟩ ∈ log ∧
        e.installed R name = some version ∧ after.dir? (R.home name) = some version) ∧
      ∀ other, Plain other → other ≠ name → Tree.Same before.tree after.tree (R.home other)) ∧
    ((∃ found, log = [⟨.glob R.rollback_root (name ++ "-*"), .ok found⟩]) →
      result = .error (installError ("no rollback version is available for " ++ name)) →
        ∀ child, ¬ Made R past name child)
  | _ => True

theorem dir?_congr {p q : Path} (hentry : t.tree.at? q = s.tree.at? p) (hbelow : t.tree.below q = s.tree.below p) :
    t.dir? q = s.dir? p := by
  rw [Disk.dir?, Disk.dir?, hentry, hbelow]

theorem dir?_same {p : Path} (h : Tree.Same s.tree t.tree p) : t.dir? p = s.dir? p := dir?_congr h.entry h.below

/-- The name of a backup that a rollback of the plugin may restore, and what is in it. -/
structure BackedUp (R : PluginRegistry) (name child : String) (version : Option Tree) (t : Disk) : Prop where
  label : ∃ label, child = name ++ "-" ++ label ∧ 't' ∉ label.toList
  there : t.tree.at? (R.rollback_root ++ [child]) ≠ none
  content : t.dir? (R.rollback_root ++ [child]) = version

theorem BackedUp.mono {version : Option Tree} (h : BackedUp R name child version s)
    (hsame : Tree.Same s.tree t.tree (R.rollback_root ++ [child])) : BackedUp R name child version t :=
  ⟨h.label, by rw [hsame.entry]; exact h.there, by rw [dir?_same hsame, h.content]⟩

theorem BackedUp.version {version : Option Tree} (h : BackedUp R name child version s)
    (hplain : isCurrent (name ++ "-") = false) : Version R s name child := by
  obtain ⟨label, rfl, hlabel⟩ := h.label
  exact version_label hlabel hplain h.there

/-- What is new below `.rollback` after a move of the plugin there. -/
theorem moved_backup {label : String} {now : Int} (hlabel : 't' ∉ label.toList) (hname : id_re name = true)
    (hmove : s.move? (R.home name) (R.rollback_root ++ [name ++ "-" ++ label]) now = some t)
    (hfree : s.tree.at? (R.rollback_root ++ [name ++ "-" ++ label]) = none) :
    Tree.Same s.tree t.tree (R.rollback_root ++ [child]) ∨ BackedUp R name child (s.dir? (R.home name)) t := by
  have hmoved := move?_landed hmove hfree
  by_cases hchild : child = name ++ "-" ++ label
  · subst hchild
    refine .inr ⟨⟨label, rfl, hlabel⟩, ?_, dir?_congr hmoved.entry hmoved.below⟩
    rw [hmoved.entry]
    exact hmoved.there
  · exact .inl (hmoved.same _ (apart_rollback (id_re_head hname) _).symm (apart_child (Ne.symm hchild)))

theorem SetAside.backup (h : SetAside R name (R.home name) s l (.ok rollback_path) u) (hname : id_re name = true)
    (hnovel : ∀ hex, ⟨.uuid4, hex⟩ ∈ l → s.Unused hex) :
    Tree.Same s.tree u.tree (R.rollback_root ++ [child]) ∨ BackedUp R name child (s.dir? (R.home name)) u := by
  cases h with
  | absent => exact .inl (.refl _ _)
  | @moved stamp hex _ _ _ hmove =>
    rw [backup_path_eq (id_re_valid hname)] at hmove
    have hfree := (hnovel hex (by simp)).backup R.rollback_root name stamp
    obtain ⟨label, heq, _, hlabel⟩ := backup_label name stamp hex
    rw [heq] at hmove hfree
    exact moved_backup hlabel hname hmove hfree

/-- The handler of the copy keeps what is below `.rollback`, or puts it back. -/
theorem Recovered.backup {torn : Prop} {hex : Hex 32} {n : Nat}
    (h : Recovered torn (R.home (staging_name name hex)) (R.home name) rollback_path s n t) (hwhole : ¬ torn)
    (hname : id_re name = true) (hpath : ∀ path ∈ rollback_path, ∃ backup, path = R.rollback_root ++ [backup]) :
    Tree.Same s.tree t.tree (R.rollback_root ++ [child]) ∨ t.tree.at? (R.rollback_root ++ [child]) = none := by
  have hdiscard : ∀ {u}, Discarded (R.home (staging_name name hex)) s u →
      Tree.Same s.tree u.tree (R.rollback_root ++ [child]) := fun hu =>
    (hu.frame (by simp [PluginRegistry.home])).1 _ (by simpa using staging_apart_rollback name hex [child])
  cases h with
  | @done u _ hdiscarded hbrought =>
    have hsame := hdiscard hdiscarded
    cases rollback_path with
    | none =>
      obtain rfl : t = u := hbrought
      exact .inl hsame
    | some path =>
      obtain ⟨backup, rfl⟩ := hpath path rfl
      obtain ⟨_, rfl⟩ | ⟨hfree, now, hmove⟩ := hbrought
      · exact .inl hsame
      have hmoved := move?_landed hmove hfree
      by_cases hchild : backup = child
      · exact .inr (hchild ▸ hmoved.gone)
      · exact .inl (hsame.trans (hmoved.same _ (apart_child hchild) (apart_rollback (id_re_head hname) _).symm))
  | left hleft =>
    obtain rfl | hdiscarded := hleft
    · exact .inl (.refl _ _)
    · exact .inl (hdiscard hdiscarded)
  | halted hdiscarded _ hhalted htorn =>
    obtain ⟨_, rfl⟩ | ⟨htears, _⟩ := hhalted
    · exact .inl (hdiscard hdiscarded)
    · exact absurd (htorn htears) hwhole

/-- An installation leaves no other backup than that of the version it replaces. -/
theorem Installing.backup {o : Except PyError PluginRecord}
    (h : Installing R source approved_by expected_integrity s log o t) (hnovel : Novel s log) (hwhole : ¬ Torn log)
    (hnames : R.Names s source approved_by expected_integrity name)
    (hbefore : s.tree.at? (R.rollback_root ++ [child]) = none) (hafter : t.tree.at? (R.rollback_root ++ [child]) ≠ none) :
    BackedUp R name child (s.dir? (R.home name)) t := by
  have hcarry : ∀ u : Disk, (Tree.Same s.tree u.tree (R.rollback_root ++ [child]) ∨
      BackedUp R name child (s.dir? (R.home name)) u) → Tree.Same u.tree t.tree (R.rollback_root ++ [child]) →
        BackedUp R name child (s.dir? (R.home name)) t := by
    rintro u (hsame | hbacked) hrest
    · rw [(hsame.trans hrest).entry] at hafter
      exact absurd hbefore hafter
    · exact hbacked.mono hrest
  cases h with
  | refused => exact absurd hbefore hafter
  | unmoved _ _ _ haside =>
    cases haside with
    | failed _ hhalted =>
      obtain rfl := hhalted.same fun htorn => hwhole (by simpa [tears] using .inr (by simpa [tears] using htorn))
      exact absurd hbefore hafter
  | @unplaced tree mapping integrity rollback_path hex l₀ l₁ l₂ u v n _ _ hchecked haside hbroken _ _ _ hrecovered =>
    obtain rfl := Names.unique hchecked hnames
    have hname := (checked_ok hchecked).2.2.2.2
    rw [staging_path_eq (id_re_valid hname)] at hbroken hrecovered
    have hpath : ∀ path ∈ rollback_path, ∃ backup, path = R.rollback_root ++ [backup] := by
      rintro path rfl
      obtain ⟨stamp, hex', rfl, _⟩ := haside.path
      exact ⟨_, backup_path_eq (id_re_valid hname) stamp hex'⟩
    have hstaged : Tree.Same u.tree v.tree (R.rollback_root ++ [child]) :=
      hbroken.frame.1 _ (by simpa using staging_apart_rollback _ hex [child])
    have hkept : Tree.Same v.tree t.tree (R.rollback_root ++ [child]) ∨ t.tree.at? (R.rollback_root ++ [child]) = none :=
      hrecovered.backup hwhole hname hpath
    obtain hsame | hgone := hkept
    · exact hcarry u (haside.backup hname fun hex' hmem => hnovel hex' (by simp [hmem])) (hstaged.trans hsame)
    · exact absurd hgone hafter
  | @placed tree mapping integrity rollback_path hex l₀ l₁ l₂ u v _ _ hchecked haside hplaced htree =>
    obtain rfl := Names.unique hchecked hnames
    have hname := (checked_ok hchecked).2.2.2.2
    rw [staging_path_eq (id_re_valid hname)] at hplaced
    obtain ⟨_, _, _, _, hframe, _⟩ := hplaced.spec haside.free (apart_staging (id_re_head hname) _ hex)
    have hsame : Tree.Same u.tree v.tree (R.rollback_root ++ [child]) := by
      refine hframe _ fun p hp => ?_
      simp only [List.mem_cons, List.not_mem_nil, or_false] at hp
      rcases hp with rfl | rfl
      · exact staging_apart_rollback _ hex _
      · exact (apart_rollback (id_re_head hname) _).symm
    exact hcarry u (haside.backup hname fun hex' hmem => hnovel hex' (by simp [hmem])) (htree ▸ hsame)

theorem Removing.backup {o : Except PyError Unit} (h : Removing R name s log o t) (hname : id_re name = true)
    (hnovel : Novel s log) (hwhole : ¬ Torn log) (hbefore : s.tree.at? (R.rollback_root ++ [child]) = none)
    (hafter : t.tree.at? (R.rollback_root ++ [child]) ≠ none) : BackedUp R name child (s.dir? (R.home name)) t := by
  cases h with
  | refused => exact absurd hbefore hafter
  | unmoved _ hhalted =>
    obtain rfl := hhalted.same fun htorn => hwhole (by simpa [tears] using htorn)
    exact absurd hbefore hafter
  | @moved destination stamp hex _ u _ _ _ hdest _ hmove htree =>
    obtain rfl := Except.ok.inj ((contained_home (id_re_valid hname)).symm.trans hdest)
    rw [removed_path_eq (id_re_valid hname)] at hmove
    have hfree := (hnovel hex (by simp)).removed R.rollback_root name stamp
    obtain ⟨label, heq, _, hlabel⟩ := removed_label name stamp hex
    rw [heq] at hmove hfree
    have hrest : Tree.Same u.tree t.tree (R.rollback_root ++ [child]) := htree ▸ .refl _ _
    have hmoved : Tree.Same s.tree u.tree (R.rollback_root ++ [child]) ∨
        BackedUp R name child (s.dir? (R.home name)) u := moved_backup hlabel hname hmove hfree
    obtain hsame | hbacked := hmoved
    · rw [(hsame.trans hrest).entry] at hafter
      exact absurd hbefore hafter
    · exact hbacked.mono hrest

end Backups

section Histories

variable {P : Choice → Prop} {R : PluginRegistry} {s t d : Disk} {h : History} {name child : String} {log : Log}
  {past : List Event}

/-- Plugins are asked for by valid names, UUIDs are new, and no move that fails leaves something behind. -/
def Asked (R : PluginRegistry) (h : History) : Action → Prop
  | .call c ω => c.Named ∧ Novel h.disk (R.among c ω h.disk).log ∧ ¬ Torn (R.among c ω h.disk).log
  | .edit _ _ => True

/-- A rollback of the plugin is not misled: if it has backups then `-current-` is not in its name, and what
else the pattern finds is older than one of them. -/
structure Clear (R : PluginRegistry) (h : History) (name : String) : Prop where
  plain : ∀ child, Made R h.past name child → isCurrent (name ++ "-") = false
  newest : ∀ child, Version R h.disk name child → ¬ Made R h.past name child →
    ∃ own, Version R h.disk name own ∧ Made R h.past name own ∧
      h.disk.mtime (R.rollback_root ++ [child]) < h.disk.mtime (R.rollback_root ++ [own])

def Cleared (R : PluginRegistry) (h : History) (a : Action) : Prop :=
  Asked R h a ∧ match a with
    | .call (.rollback name) _ => Clear R h name
    | _ => True

/-- Every backup is still there. -/
def Holds (R : PluginRegistry) (past : List Event) (d : Disk) : Prop :=
  ∀ e ∈ past, ∀ name child, e.Leaves R name child → BackedUp R name child (e.installed R name) d

theorem edited_kept {tree : Tree} {mtime : Path → Int} {d' : Disk} (hd : R.edited d tree mtime = some d')
    (name child : String) : Tree.Same d.tree d'.tree (R.home name ++ [child]) :=
  (edited_same hd name).1.append [child]

theorem call_backup {c : Call} {o : Except PyError (Option PluginRecord)} (h : Exec P (R.call c) s log o t)
    (hnamed : c.Named) (hnovel : Novel s log) (hwhole : ¬ Torn log) (hleaves : Event.Leaves R name child (.called c s log o t)) :
    BackedUp R name child (s.dir? (R.home name)) t := by
  obtain ⟨hbacks, hbefore, hafter⟩ := hleaves
  cases c with
  | install source approved_by expected_integrity =>
    obtain ⟨o', hinstall, _⟩ := exec_call_install h
    exact hinstall.backup hnovel hwhole hbacks hbefore hafter
  | rollback other => exact hbacks.elim
  | remove other approved_by =>
    obtain rfl : other = name := hbacks
    obtain ⟨o', hremove, _⟩ := exec_call_remove h
    exact hremove.backup hnamed hnovel hwhole hbefore hafter

theorem holds_step {a : Action} {h' : History} {e : Event} (hasked : Asked R h a)
    (hs : R.machine.step h a = some (h', e)) (hholds : Holds R h.past h.disk) :
    h'.past = h.past ++ [e] ∧ Holds R h'.past h'.disk := by
  cases a with
  | call c ω =>
    obtain ⟨hnamed, hnovel, hwhole⟩ := hasked
    obtain ⟨rfl, rfl⟩ := Prod.mk.inj (Option.some.inj hs)
    have hx := exec_among (P := fun _ => True) R c ω h.disk fun _ => trivial
    refine ⟨rfl, fun e he name child hleaves => ?_⟩
    rcases List.mem_append.mp he with he | he
    · have hbacked := hholds e he name child hleaves
      exact hbacked.mono (call_kept hx hnamed hnovel hbacked.there)
    · obtain rfl := List.mem_singleton.mp he
      exact call_backup hx hnamed hnovel hwhole hleaves
  | edit tree mtime =>
    obtain ⟨d, hd, heq⟩ := Option.map_eq_some_iff.mp hs
    obtain ⟨rfl, rfl⟩ := Prod.mk.inj heq
    refine ⟨rfl, fun e he name child hleaves => ?_⟩
    rcases List.mem_append.mp he with he | he
    · exact (hholds e he name child hleaves).mono (edited_kept hd ".rollback" child)
    · obtain rfl := List.mem_singleton.mp he
      exact hleaves.elim

theorem run_holds {es : List Event} (hrun : R.machine.Run (Cleared R) ⟨d, []⟩ es h) :
    h.past = es ∧ Holds R es h.disk := by
  refine hrun.invariant (I := fun es h => h.past = es ∧ Holds R es h.disk) ⟨rfl, by simp [Holds]⟩ ?_
  rintro es t a u e _ hcleared hs ⟨rfl, hholds⟩
  obtain ⟨hpast, hholds'⟩ := holds_step hcleared.1 hs hholds
  rw [← hpast]
  exact ⟨rfl, hholds'⟩

theorem Made.version (h : Made R past name child) (hholds : Holds R past s) (hplain : isCurrent (name ++ "-") = false) :
    Version R s name child := by
  obtain ⟨e, he, hleaves⟩ := h
  exact (hholds e he name child hleaves).version hplain

/-- The newest version that the pattern finds is a backup of the plugin. -/
theorem Clear.first {first : Path} {rest : List Path} {ch : Choice} {found : List (Path × Int)}
    (hclear : Clear R h name) (hname : id_re name = true)
    (hglob : h.disk.glob ch R.rollback_root (name ++ "-*") = .ok found) (hfirst : candidates found = first :: rest) :
    ∃ child, first = R.rollback_root ++ [child] ∧ Version R h.disk name child ∧ Made R h.past name child := by
  obtain ⟨child, hpath, hversion, hnewest⟩ := newest_version hname hglob hfirst
  refine ⟨child, hpath, hversion, ?_⟩
  by_contra hother
  obtain ⟨own, hown, _, hlater⟩ := hclear.newest child hversion hother
  exact absurd (hnewest own hown) (not_le.mpr hlater)

/-- The copy of a version is what the version was before the call. -/
theorem copied_version {l : Log} {u v : Disk} {now : Int} (hclear : Clearing P R name (R.home name) s l (.ok ()) u)
    (hcopy : u.copytree? (R.rollback_root ++ [child]) (R.home name) now = some v) (hname : id_re name = true)
    (hnovel : Novel s l) (hthere : s.tree.at? (R.rollback_root ++ [child]) ≠ none) :
    ∃ version, s.dir? (R.rollback_root ++ [child]) = some version ∧ v.dir? (R.home name) = some version := by
  obtain ⟨hdir, hput, _⟩ := copytree?_spec hcopy
  have hsame := (hclear.confined (id_re_valid hname) fun _ hmem => hmem).same (id_re_head hname) hnovel hthere
  refine ⟨u.tree.below (R.rollback_root ++ [child]), ?_, ?_⟩
  · rw [← dir?_same hsame, Disk.dir?, if_pos hdir]
  · rw [Disk.dir?, if_pos (Tree.put?_at hput), Tree.put?_below hput]

theorem rollingBack_restores {o : Except PyError PluginRecord} {o' : Except PyError (Option PluginRecord)}
    (hback : RollingBack P R name h.disk log o t) (ho : o' = o.map some) (hname : id_re name = true)
    (hnovel : Novel h.disk log) (hholds : Holds R h.past h.disk) (hclear : Clear R h name) :
    Event.Restores R h.past (.called (.rollback name) h.disk log o' t) := by
  subst ho
  constructor
  · intro record hok
    obtain ⟨_, rfl, _⟩ := map_eq_ok hok
    refine ⟨?_, (rollingBack_ok hback (id_re_valid hname)).same⟩
    cases hback with
    | copied hdest hglob hfirst hcleared hcopy hend =>
      obtain rfl := Except.ok.inj ((contained_home (id_re_valid hname)).symm.trans hdest)
      obtain ⟨child, rfl, hversion, e, he, hleaves⟩ := hclear.first hname hglob hfirst
      obtain ⟨version, hbefore, hafter⟩ := copied_version hcleared hcopy hname
        (fun hex hmem => hnovel hex (by simp [hmem])) hversion.there
      refine ⟨e, he, child, version, hleaves, by simp, ?_, ?_⟩
      · rw [← (hholds e he name child hleaves).content, hbefore]
      · rw [Disk.dir?, hend.tree, ← Disk.dir?, hafter]
  · rintro ⟨found, hlog⟩ - child hmade
    have hversion := hmade.version hholds (hclear.plain child hmade)
    cases hback with
    | unavailable hglob hnone => exact no_version hname hglob hnone hversion
    | escaped hescape =>
      cases (contained_home (id_re_valid hname)).symm.trans hescape
    | unlisted => simp at hlog
    | uncleared _ _ _ hcleared =>
      cases hcleared
      simp at hlog
    | uncopied => simp at hlog
    | copied => simp at hlog

end Histories

section Sample

/-- The event of a call. -/
def PluginRegistry.called (R : PluginRegistry) (c : Call) (ω : Nat → Choice) (d : Disk) : Event :=
  .called c d (R.among c ω d).log (R.among c ω d).result (R.among c ω d).state

theorem run_called {R : PluginRegistry} {G : History → Action → Prop} {s d : Disk} {es past : List Event} {c : Call}
    {ω : Nat → Choice} (hrun : R.machine.Run G ⟨s, []⟩ es ⟨d, past⟩) (hg : G ⟨d, past⟩ (.call c ω)) :
    R.machine.Run G ⟨s, []⟩ (es ++ [R.called c ω d]) ⟨(R.among c ω d).state, past ++ [R.called c ω d]⟩ :=
  hrun.snoc hg rfl

/-- A call leaves a backup of no other plugin than the one it is about. -/
theorem not_leaves {R : PluginRegistry} {c : Call} {ω : Nat → Choice} {d : Disk} {name child : String}
    (h : ¬ c.Backs R d name) : ¬ (R.called c ω d).Leaves R name child := fun hleaves => h hleaves.1

def lastChoice : Choice := { sampleChoice with hex := sampleHex 'c' (by decide) }

def takeCall : Call := .remove "erp-plugin" "alice"

def taken : Program.Outcome Disk Command Reply PyError (Option PluginRecord) :=
  samplePlugins.among takeCall (fun _ => laterChoice) installed.state

/-- The rollback of a plugin after the removal of `erp-plugin`. -/
def rolled (name : String) : Program.Outcome Disk Command Reply PyError (Option PluginRecord) :=
  samplePlugins.among (.rollback name) (fun _ => lastChoice) taken.state

def installEvent : Event := samplePlugins.called installCall (fun _ => sampleChoice) sampleDisk

def takeEvent : Event := samplePlugins.called takeCall (fun _ => laterChoice) installed.state

def rollEvent (name : String) : Event := samplePlugins.called (.rollback name) (fun _ => lastChoice) taken.state

theorem asked_of_unused {R : PluginRegistry} {d : Disk} {past : List Event} {c : Call} {ω : Nat → Choice} {hex : Hex 32}
    (hnamed : c.Named) (hω : ∀ n, (ω n).hex = hex) (h : d.Unused hex) (hrefused : ∀ n, (ω n).progress = .refused) :
    Asked R ⟨d, past⟩ (.call c ω) :=
  ⟨hnamed, novel_of_unused hω h, whole_of_refused hrefused⟩

/-- What the two names are, and what the install, the removal and the rollback of `erp` come to. -/
theorem rolled_checks : id_re "erp-plugin" = true ∧ id_re "erp" = true ∧ isCurrent ("erp-plugin" ++ "-") = false ∧
    sampleDisk.Unused sampleChoice.hex ∧ taken.state.Unused lastChoice.hex ∧ (rolled "erp").result.isOk = true ∧
    (checked samplePlugins.sha256 samplePlugins.library sampleSource (sampleDisk.dir? sampleSource) "alice"
      none).toOption.map (fun x => text_of (x.2.1.get "name")) = some "erp-plugin" ∧
    taken.state.tree.entries.map Prod.fst =
    [["srv"], ["srv", "plugins"], ["srv", "plugins", "erp"], ["srv", "plugins", "erp", ".codex-plugin"],
      ["srv", "plugins", "erp", ".codex-plugin", "plugin.json"], ["srv", "registry"], ["srv", "registry", ".rollback"],
      ["srv", "registry", ".rollback", removed_name "erp-plugin" sampleStamp laterChoice.hex],
      ["srv", "registry", ".rollback", removed_name "erp-plugin" sampleStamp laterChoice.hex, ".codex-plugin"],
      ["srv", "registry", ".rollback", removed_name "erp-plugin" sampleStamp laterChoice.hex, ".codex-plugin",
        "plugin.json"]] := by
  decide +kernel

theorem install_asked : Asked samplePlugins ⟨sampleDisk, []⟩ (.call installCall fun _ => sampleChoice) := by
  obtain ⟨_, _, _, hunused, _⟩ := rolled_checks
  exact asked_of_unused trivial (fun _ => rfl) hunused fun _ => rfl

theorem take_asked : Asked samplePlugins ⟨installed.state, [installEvent]⟩ (.call takeCall fun _ => laterChoice) := by
  obtain ⟨hname, _⟩ := rolled_checks
  exact asked_of_unused hname (fun _ => rfl) installed_unused fun _ => rfl

theorem roll_asked {name : String} (hname : id_re name = true) :
    Asked samplePlugins ⟨taken.state, [installEvent, takeEvent]⟩ (.call (.rollback name) fun _ => lastChoice) := by
  obtain ⟨_, _, _, _, hunused, _⟩ := rolled_checks
  exact asked_of_unused hname (fun _ => rfl) hunused fun _ => rfl

theorem roll_run {G : History → Action → Prop} {name : String}
    (hinstall : G ⟨sampleDisk, []⟩ (.call installCall fun _ => sampleChoice))
    (htake : G ⟨installed.state, [installEvent]⟩ (.call takeCall fun _ => laterChoice))
    (hroll : G ⟨taken.state, [installEvent, takeEvent]⟩ (.call (.rollback name) fun _ => lastChoice)) :
    samplePlugins.machine.Run G ⟨sampleDisk, []⟩ [installEvent, takeEvent, rollEvent name]
      ⟨(rolled name).state, [installEvent, takeEvent, rollEvent name]⟩ :=
  run_called (run_called (run_called .nil hinstall) htake) hroll

theorem clear_of_made {R : PluginRegistry} {d : Disk} {past : List Event} {name : String}
    (hplain : isCurrent (name ++ "-") = false) (h : ∀ child, Version R d name child → Made R past name child) :
    Clear R ⟨d, past⟩ name :=
  ⟨fun _ _ => hplain, fun child hversion hother => absurd (h child hversion) hother⟩

/-- The one backup is that of the removal. -/
theorem taken_backups {name child : String} (h : Version samplePlugins taken.state name child) :
    takeEvent.Leaves samplePlugins "erp-plugin" child := by
  obtain ⟨_, _, _, _, _, _, _, hpaths⟩ := rolled_checks
  obtain ⟨e, he⟩ := Option.ne_none_iff_exists'.mp h.there
  have hpath := List.mem_map_of_mem (f := Prod.fst) ((Tree.at?_eq_some (by simp)).mp he)
  rw [hpaths] at hpath
  obtain rfl : child = removed_name "erp-plugin" sampleStamp laterChoice.hex := by
    simpa [PluginRegistry.rollback_root, samplePlugins] using hpath
  exact ⟨rfl, installed_unused.removed _ _ _, h.there⟩

theorem taken_made {name child : String} (h : Version samplePlugins taken.state name child) :
    Made samplePlugins [installEvent, takeEvent] "erp-plugin" child :=
  ⟨takeEvent, List.mem_cons_of_mem _ List.mem_cons_self, taken_backups h⟩

theorem erp_not_installed : ¬ installCall.Backs samplePlugins sampleDisk "erp" := by
  rintro ⟨tree, mapping, integrity, hchecked, hname⟩
  obtain ⟨_, _, _, _, _, _, hnamed, _⟩ := rolled_checks
  rw [hchecked, Except.toOption, Option.map_some, ← hname] at hnamed
  exact absurd (Option.some.inj hnamed) (by decide)

/-- After the removal of `erp-plugin` a rollback of `erp`, which was never installed, succeeds. -/
theorem erp_restored : ¬ ∀ (R : PluginRegistry) (d : Disk) (es : List Event) (h : History), R.Fresh d →
    R.machine.Run (Asked R) ⟨d, []⟩ es h → ∀ pre e post, es = pre ++ e :: post → e.Restores R pre := by
  intro hclaim
  obtain ⟨_, hname, _, _, _, hok, _⟩ := rolled_checks
  obtain ⟨hrestores, _⟩ := hclaim samplePlugins sampleDisk _ _ sample_fresh
    (roll_run install_asked take_asked (roll_asked hname)) [installEvent, takeEvent] _ [] rfl
  obtain ⟨record, hrecord⟩ := ok_of_isOk hok
  obtain ⟨⟨e, he, child, _, hleaves, _⟩, _⟩ := hrestores record hrecord
  have htaken : ¬ takeCall.Backs samplePlugins installed.state "erp" := by
    intro h
    have hne : "erp-plugin" ≠ "erp" := by decide
    exact hne h
  rcases List.mem_cons.mp he with rfl | he
  · exact not_leaves erp_not_installed hleaves
  · obtain rfl := List.mem_singleton.mp he
    exact not_leaves htaken hleaves

end Sample

end EnterpriseCopilot.Plugin
