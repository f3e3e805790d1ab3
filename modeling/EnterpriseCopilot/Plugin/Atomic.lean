import EnterpriseCopilot.Plugin.History

/-! What a failed installation leaves behind. -/

namespace EnterpriseCopilot.Plugin

open EnterpriseCopilot.Lib EnterpriseCopilot.Python

section Failed

variable {P : Choice → Prop} {R : PluginRegistry} {s t : Disk} {log : Log} {source : Path}
  {approved_by : String} {expected_integrity : Option String}

/-- The name in the manifest of a source that passes the checks. -/
def PluginRegistry.Names (R : PluginRegistry) (d : Disk) (source : Path) (approved_by : String)
    (expected_integrity : Option String) (name : String) : Prop :=
  ∃ tree mapping integrity, checked R.sha256 R.library source (d.dir? source) approved_by
    expected_integrity = .ok (tree, mapping, integrity) ∧ name = text_of (mapping.get "name")

/-- `registry.json`, the backups, and the directory of the plugin are as before. -/
structure Unchanged (R : PluginRegistry) (named : String → Prop) (s t : Disk) : Prop where
  records : t.records = s.records
  backups : t.tree.below R.rollback_root = s.tree.below R.rollback_root
  home : ∀ name, named name → Tree.Same s.tree t.tree (R.home name)

theorem Unchanged.refl (R : PluginRegistry) (named : String → Prop) (s : Disk) : Unchanged R named s s :=
  ⟨rfl, rfl, fun _ _ => .refl _ _⟩

/-- Putting back what was set aside leaves the backups as they were. -/
theorem restored_backups {u w : Disk} {name backup : String} {now now' : Int} (hplain : Plain name)
    (hmove : s.move? (R.home name) (R.rollback_root ++ [backup]) now = some u)
    (hfree : s.tree.at? (R.rollback_root ++ [backup]) = none)
    (hsame : w.tree.below R.rollback_root = u.tree.below R.rollback_root)
    (hback : w.move? (R.rollback_root ++ [backup]) (R.home name) now' = some t)
    (hhome : w.tree.at? (R.home name) = none) :
    t.tree.below R.rollback_root = s.tree.below R.rollback_root := by
  obtain ⟨tree, htree, rfl⟩ := Option.map_eq_some_iff.mp hmove
  obtain ⟨tree', htree', rfl⟩ := Option.map_eq_some_iff.mp hback
  have hapart : Paths.Apart R.rollback_root (R.home name) := by simpa using apart_rollback hplain []
  obtain ⟨e, _, hinto⟩ := Tree.move?_into htree hfree hapart.symm
  have hout := Tree.move?_out htree' (by rw [Tree.landing_free hhome]; exact hapart.symm)
  refine Tree.ext_entries ?_
  have hold : Paths.without [backup] (s.tree.below R.rollback_root).entries = (s.tree.below R.rollback_root).entries := by
    refine Paths.without_eq_self fun x hx hpre => ?_
    have hat : (s.tree.below R.rollback_root).at? [backup] = none := by
      rw [← Tree.at?_append (by simp), hfree]
    exact Tree.not_below_free hat hx hpre
  rw [hout, hsame, hinto, Paths.without_append, hold, Paths.without_cons_self, Paths.without_under,
    List.append_nil]

/-- The version that was set aside came back. -/
theorem recovered_unchanged {named : String → Prop} {name : String} {hex : Hex 32} {l : Log}
    {rollback_path : Option Path} {u v : Disk} {torn : Prop} (hname : id_re name = true) (hnamed : ∀ other, named other → other = name)
    (haside : SetAside R name (R.home name) s l (.ok rollback_path) u)
    (hnovel : ∀ hex, ⟨.uuid4, hex⟩ ∈ l → s.Unused hex)
    (hbroken : Broken source (R.home (staging_name name hex)) u v)
    (hrecovered : Recovered torn (R.home (staging_name name hex)) (R.home name) rollback_path v 0 t) :
    Unchanged R named s t := by
  have hplain : Plain name := id_re_head hname
  have hhome := apart_staging hplain name hex (R := R)
  have hroot : Paths.Apart (R.home (staging_name name hex)) R.rollback_root := by
    simpa using staging_apart_rollback name hex [] (R := R)
  have hne : R.home (staging_name name hex) ≠ [] := by simp [PluginRegistry.home]
  cases hrecovered with
  | left _ hn => exact absurd hn (by decide)
  | halted _ _ _ _ hn => exact absurd hn (by decide)
  | @done w _ hdiscarded hbrought =>
    obtain ⟨hframe, hrecords⟩ := hbroken.frame
    obtain ⟨hframe', hrecords'⟩ := hdiscarded.frame hne
    have hall := hframe.trans hframe'
    have hbackups : w.tree.below R.rollback_root = u.tree.below R.rollback_root :=
      (hall _ (by simpa using hroot)).below
    have hhome' : Tree.Same u.tree w.tree (R.home name) := hall _ (by simpa using hhome)
    cases haside with
    | absent hnone =>
      obtain rfl : t = w := hbrought
      exact ⟨hrecords'.trans hrecords, hbackups, fun other hother => hnamed other hother ▸ hhome'⟩
    | @moved stamp hex' now _ hthere hmove =>
      have hpath := backup_path_eq (R := R) (id_re_valid hname) stamp hex'
      have hfree : s.tree.at? (R.rollback_root ++ [backup_name name stamp hex']) = none :=
        (hnovel hex' (by simp)).backup _ _ _
      rw [hpath] at hmove
      have hmoved := move?_landed hmove hfree
      have hgone : w.tree.at? (R.home name) = none := hhome'.entry.trans hmoved.gone
      obtain ⟨hthere', _⟩ | ⟨_, now', hback⟩ := hbrought
      · exact absurd hgone hthere'
      · rw [hpath] at hback
        have hmoved' := move?_landed hback hgone
        have hkept : Tree.Same u.tree w.tree (R.rollback_root ++ [backup_name name stamp hex']) :=
          hall _ (by simpa using staging_apart_rollback name hex _)
        refine ⟨?_, restored_backups hplain hmove hfree hbackups hback hgone, fun other hother => ?_⟩
        · rw [(move?_spec hback).2.1, hrecords', hrecords, (move?_spec hmove).2.1]
        · obtain rfl := hnamed other hother
          refine ⟨?_, ?_⟩
          · rw [hmoved'.entry, hkept.entry, hmoved.entry]
          · rw [hmoved'.below, hkept.below, hmoved.below]

/-- The new version is in place. -/
theorem placed_changed {named : String → Prop} {name : String} {hex : Hex 32} {l : Log}
    {rollback_path : Option Path} {u v : Disk} (hname : id_re name = true) (hnamed : named name)
    (haside : SetAside R name (R.home name) s l (.ok rollback_path) u)
    (hnovel : ∀ hex, ⟨.uuid4, hex⟩ ∈ l → s.Unused hex)
    (hplaced : Placed source (R.home (staging_name name hex)) (R.home name) u v) (htree : t.tree = v.tree) :
    ¬ Unchanged R named s t := by
  intro hsame
  obtain ⟨_, _, hdir, _, hframe, _⟩ := hplaced.spec haside.free (apart_staging (id_re_head hname) name hex)
  cases haside with
  | absent hnone =>
    have hentry := (hsame.home name hnamed).entry
    rw [htree, hdir, hnone] at hentry
    cases hentry
  | @moved stamp hex' now _ hthere hmove =>
    rw [backup_path_eq (id_re_valid hname)] at hmove
    have hfree : s.tree.at? (R.rollback_root ++ [backup_name name stamp hex']) = none :=
      (hnovel hex' (by simp)).backup _ _ _
    have hmoved := move?_landed hmove hfree
    have hkept : Tree.Same u.tree v.tree (R.rollback_root ++ [backup_name name stamp hex']) := by
      refine hframe _ fun p hp => ?_
      simp only [List.mem_cons, List.not_mem_nil, or_false] at hp
      rcases hp with rfl | rfl
      · exact staging_apart_rollback name hex _
      · exact (apart_rollback (id_re_head hname) _).symm
    have hthere' : t.tree.at? (R.rollback_root ++ [backup_name name stamp hex']) ≠ none := by
      rw [htree, hkept.entry, hmoved.entry]
      exact hthere
    rw [Tree.at?_append (by simp), hsame.backups, ← Tree.at?_append (by simp), hfree] at hthere'
    exact hthere' rfl

theorem Names.unique {tree : Tree} {mapping : Payload} {integrity name : String}
    (hchecked : checked R.sha256 R.library source (s.dir? source) approved_by expected_integrity =
      .ok (tree, mapping, integrity)) (h : R.Names s source approved_by expected_integrity name) :
    name = text_of (mapping.get "name") := by
  obtain ⟨tree', mapping', integrity', hchecked', rfl⟩ := h
  cases hchecked.symm.trans hchecked'
  rfl

theorem installing_unchanged {e : PyError}
    (h : Installing R source approved_by expected_integrity s log (.error e) t)
    (hone : failures log ≤ 1) (hnovel : Novel s log) (hindexed : ¬ Unindexed log) (hwhole : ¬ Torn log) :
    Unchanged R (R.Names s source approved_by expected_integrity) s t := by
  cases h with
  | refused => exact .refl _ _ _
  | unmoved _ _ _ haside =>
    cases haside with
    | failed _ hhalted =>
      obtain rfl := hhalted.same fun htorn => hwhole (by simpa [tears] using .inr (by simpa [tears] using htorn))
      exact .refl _ _ _
  | @unplaced tree mapping integrity rollback_path hex l₀ l₁ l₂ u v n _ _ hchecked haside hbroken hn _ _ hrecovered =>
    have hname := (checked_ok hchecked).2.2.2.2
    rw [staging_path_eq (id_re_valid hname)] at hbroken hrecovered
    have hzero : n = 0 := by
      simp only [failures_append, failures_cons] at hone
      omega
    subst hzero
    exact recovered_unchanged hname (fun _ => Names.unique hchecked) haside
      (fun hex' hmem => hnovel hex' (by simp [hmem])) hbroken hrecovered
  | placed _ _ _ _ _ hend =>
    obtain ⟨_, _, _, hok, _⟩ | ⟨_, _, hfail⟩ := hend
    · cases hok
    · exact absurd (unindexed_append (unindexed_cons hfail)) hindexed

/-- A torn move of the installed version leaves something among the backups. -/
theorem torn_changed {named : String → Prop} {name : String} {l : Log} {e : PyError} (hname : id_re name = true)
    (haside : SetAside R name (R.home name) s l (.error e) t) (hnovel : ∀ hex, ⟨.uuid4, hex⟩ ∈ l → s.Unused hex)
    (htorn : Torn l) : ¬ Unchanged R named s t := by
  intro hsame
  cases haside with
  | @failed stamp hex halt _ hthere hhalted =>
    have hpath := backup_path_eq (R := R) (id_re_valid hname) stamp hex
    have hfree : s.tree.at? (R.rollback_root ++ [backup_name name stamp hex]) = none :=
      (hnovel hex (by simp)).backup _ _ _
    obtain ⟨hwhole, _⟩ | ⟨_, ch, hleft⟩ := hhalted
    · simp [tears, hwhole] at htorn
    rw [hpath] at hleft
    obtain ⟨_, _, hsome⟩ := torn?_spec hleft
    refine hsome hfree (apart_rollback (id_re_head hname) _).symm ?_
    rw [Tree.at?_append (by simp), hsame.backups, ← Tree.at?_append (by simp), hfree]

theorem installing_changed {e : PyError}
    (h : Installing R source approved_by expected_integrity s log (.error e) t) (hone : failures log ≤ 1)
    (hnovel : Novel s log) (hwrong : Unindexed log ∨ Torn log) :
    ¬ Unchanged R (R.Names s source approved_by expected_integrity) s t := by
  cases h with
  | refused hquiet hwhole => exact (hwrong.elim hquiet hwhole).elim
  | @unmoved tree mapping integrity l₀ l₁ _ _ hchecked hwhole hquiet haside =>
    have htorn : Torn l₁ := (torn_append.mp (hwrong.resolve_left hquiet)).resolve_left hwhole
    exact torn_changed (checked_ok hchecked).2.2.2.2 haside (fun hex hmem => hnovel hex (by simp [hmem])) htorn
  | @unplaced tree mapping integrity rollback_path hex l₀ l₁ l₂ u v n _ _ _ _ _ hn hwhole hquiet =>
    -- with the copy a move of the handler would be a second failure
    have htwo := hwhole (hwrong.resolve_left hquiet)
    simp only [failures_append, failures_cons] at hone
    omega
  | placed hchecked haside hplaced htree =>
    have hname := (checked_ok hchecked).2.2.2.2
    rw [staging_path_eq (id_re_valid hname)] at hplaced
    exact placed_changed hname ⟨_, _, _, hchecked, rfl⟩ haside
      (fun hex' hmem => hnovel hex' (by simp [hmem])) hplaced htree

/-- A failed installation changed nothing exactly if the step that failed is none on the files of
the registry, and no move that left something behind. -/
theorem failed_install_iff (R : PluginRegistry) (s : Disk) (source : Path) (approved_by : String)
    (expected_integrity : Option String) (ω : Nat → Choice) (e : PyError)
    (hraised : ((R.install source approved_by expected_integrity).run Disk.apply ω s).result = .error e)
    (hone : failures ((R.install source approved_by expected_integrity).run Disk.apply ω s).log ≤ 1)
    (hnovel : Novel s ((R.install source approved_by expected_integrity).run Disk.apply ω s).log) :
    Unchanged R (R.Names s source approved_by expected_integrity) s
        ((R.install source approved_by expected_integrity).run Disk.apply ω s).state ↔
      ¬ Unindexed ((R.install source approved_by expected_integrity).run Disk.apply ω s).log ∧
        ¬ Torn ((R.install source approved_by expected_integrity).run Disk.apply ω s).log := by
  have hx := exec_install (Program.exec_of_run_where Disk.apply (P := fun _ => True)
    (R.install source approved_by expected_integrity) (ω := ω) s fun _ => trivial)
  rw [hraised] at hx
  constructor
  · intro hsame
    exact ⟨fun hindexed => installing_changed hx hone hnovel (.inl hindexed) hsame,
      fun htorn => installing_changed hx hone hnovel (.inr htorn) hsame⟩
  · exact fun ⟨hindexed, hwhole⟩ => installing_unchanged hx hone hnovel hindexed hwhole

end Failed

section Sample

/-- One command of the call fails. -/
def sampleFailure (k : Nat) (e : PyError) (n : Nat) : Choice :=
  if n = k then { sampleChoice with failure := some e } else sampleChoice

def sampleInstall : Code PluginRecord := samplePlugins.install sampleSource "alice" none

/-- The copy cannot be moved into its place. -/
def unreplaced : Program.Outcome Disk Command Reply PyError PluginRecord :=
  sampleInstall.run Disk.apply (sampleFailure 4 osError) sampleDisk

/-- `registry.json` cannot be read. -/
def unread : Program.Outcome Disk Command Reply PyError PluginRecord :=
  sampleInstall.run Disk.apply (sampleFailure 5 (installError "cannot read Plugin registry")) sampleDisk

theorem error_of_isOk {ε α : Type} {o : Except ε α} (h : o.isOk = false) : ∃ e, o = .error e := by
  cases o with
  | ok a => cases h
  | error e => exact ⟨e, rfl⟩

theorem sampleFailure_hex (k : Nat) (e : PyError) (n : Nat) : (sampleFailure k e n).hex = sampleChoice.hex := by
  unfold sampleFailure
  split <;> rfl

/-- How the two installations fail. -/
theorem failure_checks : sampleDisk.Unused sampleChoice.hex ∧
    (unreplaced.result.isOk = false ∧ failures unreplaced.log ≤ 1 ∧
      unreplaced.log.all (fun x => !indexing x.1 && !tears x.1 x.2) = true) ∧
    unread.result.isOk = false ∧ failures unread.log ≤ 1 ∧
      unread.log.any (fun x => indexing x.1 && failed x.1 x.2) = true := by
  decide +kernel

theorem sample_novel (k : Nat) (e : PyError) :
    Novel sampleDisk (sampleInstall.run Disk.apply (sampleFailure k e) sampleDisk).log :=
  novel_of_unused (sampleFailure_hex k e) failure_checks.1

theorem failed_install_sample : Unchanged samplePlugins
    (samplePlugins.Names sampleDisk sampleSource "alice" none) sampleDisk unreplaced.state := by
  obtain ⟨_, ⟨hraised, hone, hquiet⟩, _⟩ := failure_checks
  obtain ⟨e, he⟩ := error_of_isOk hraised
  refine (failed_install_iff samplePlugins sampleDisk sampleSource "alice" none _ e he hone
    (sample_novel 4 _)).mpr ?_
  constructor
  · rintro ⟨x, hx, hindexing, _⟩
    simpa [hindexing] using List.all_eq_true.mp hquiet x hx
  · rintro ⟨x, hx, htears⟩
    simpa [htears] using List.all_eq_true.mp hquiet x hx

/-- With an unreadable `registry.json` the new version stays in place without a record. -/
theorem unread_installed : ¬ ∀ (R : PluginRegistry) (s : Disk) (source : Path) (approved_by : String)
    (expected_integrity : Option String) (ω : Nat → Choice) (e : PyError),
    ((R.install source approved_by expected_integrity).run Disk.apply ω s).result = .error e →
    failures ((R.install source approved_by expected_integrity).run Disk.apply ω s).log ≤ 1 →
    Novel s ((R.install source approved_by expected_integrity).run Disk.apply ω s).log →
    Unchanged R (R.Names s source approved_by expected_integrity) s
      ((R.install source approved_by expected_integrity).run Disk.apply ω s).state := by
  intro h
  obtain ⟨_, _, hraised, hone, hindexed⟩ := failure_checks
  have hnovel := sample_novel 5 (installError "cannot read Plugin registry")
  obtain ⟨e, he⟩ := error_of_isOk hraised
  have hx := exec_install (Program.exec_of_run_where Disk.apply (P := fun _ => True) sampleInstall
    (ω := sampleFailure 5 (installError "cannot read Plugin registry")) sampleDisk fun _ => trivial)
  change Installing _ _ _ _ _ unread.log unread.result unread.state at hx
  rw [he] at hx
  refine installing_changed hx hone hnovel (.inl ?_) (h samplePlugins sampleDisk sampleSource "alice" none _ e he hone hnovel)
  obtain ⟨x, hmem, hfail⟩ := List.any_eq_true.mp hindexed
  exact ⟨x, hmem, Bool.and_eq_true_iff.mp hfail⟩

end Sample

end EnterpriseCopilot.Plugin
