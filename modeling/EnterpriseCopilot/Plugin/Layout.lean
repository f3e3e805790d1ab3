import EnterpriseCopilot.Plugin.Steps

/-! Which parts of the registry directory the programs reach. -/

namespace EnterpriseCopilot.Plugin

open EnterpriseCopilot.Lib EnterpriseCopilot.Python

section Geometry

variable {R : PluginRegistry} {name : String}

theorem apart_child {base p q : Path} {a b : String} (h : a ≠ b) :
    Paths.Apart (base ++ a :: p) (base ++ b :: q) :=
  (Paths.apart_of_head h).append base

/-- The directory of a plugin. -/
def PluginRegistry.home (R : PluginRegistry) (name : String) : Path := R.root ++ [name]

theorem rollback_root_named (R : PluginRegistry) : ∀ part ∈ R.rollback_root, ValidName part := by
  intro part hpart
  rcases List.mem_append.mp hpart with hpart | hpart
  · exact R.named part hpart
  · exact List.mem_singleton.mp hpart ▸ by decide

theorem contained_home (h : ValidName name) : _assert_contained R.root name = .ok (R.home name) :=
  contained_name R.named h

theorem backup_path_eq (h : ValidName name) (stamp : Stamp) (hex : Hex 32) :
    backup_path R name stamp hex = R.rollback_root ++ [backup_name name stamp hex] := by
  obtain ⟨label, heq, hl, _⟩ := backup_label name stamp hex
  rw [backup_path, heq]
  exact join_name (rollback_root_named R) (validName_label h hl)

theorem current_path_eq (h : ValidName name) (hex : Hex 32) :
    current_path R name hex = R.rollback_root ++ [current_name name hex] := by
  obtain ⟨label, heq, hl⟩ := current_label name hex
  rw [current_path, heq]
  exact join_name (rollback_root_named R) (validName_label h hl)

theorem removed_path_eq (h : ValidName name) (stamp : Stamp) (hex : Hex 32) :
    join R.rollback_root (removed_name name stamp hex) =
      R.rollback_root ++ [removed_name name stamp hex] := by
  obtain ⟨label, heq, hl, _⟩ := removed_label name stamp hex
  rw [heq]
  exact join_name (rollback_root_named R) (validName_label h hl)

theorem staging_path_eq (h : ValidName name) (hex : Hex 32) :
    join R.root (staging_name name hex) = R.home (staging_name name hex) :=
  join_name R.named (validName_staging h hex)

theorem staging_head (name : String) (hex : Hex 32) : (staging_name name hex).toList.head? = some '.' := by
  simp [staging_name]

/-- A name that is no name of the registry's own. -/
def Plain (name : String) : Prop := name.toList.head? ≠ some '.'

instance : DecidablePred Plain := fun name => inferInstanceAs (Decidable (name.toList.head? ≠ some '.'))

theorem Plain.ne_rollback (h : Plain name) : ".rollback" ≠ name := by
  rintro rfl
  exact h (by decide)

theorem Plain.ne_staging (h : Plain name) (other : String) (hex : Hex 32) :
    staging_name other hex ≠ name := by
  rintro rfl
  exact h (staging_head other hex)

theorem apart_home {other : String} (h : other ≠ name) : Paths.Apart (R.home other) (R.home name) :=
  apart_child h

theorem apart_rollback (h : Plain name) (p : Path) : Paths.Apart (R.rollback_root ++ p) (R.home name) := by
  rw [PluginRegistry.rollback_root, PluginRegistry.home, List.append_assoc]
  exact apart_child h.ne_rollback

theorem apart_staging (h : Plain name) (other : String) (hex : Hex 32) :
    Paths.Apart (R.home (staging_name other hex)) (R.home name) :=
  apart_child (h.ne_staging other hex)

theorem staging_apart_rollback (other : String) (hex : Hex 32) (p : Path) :
    Paths.Apart (R.home (staging_name other hex)) (R.rollback_root ++ p) := by
  have hne : staging_name other hex ≠ ".rollback" := by
    intro heq
    have hmem : '-' ∈ (staging_name other hex).toList := by simp [staging_name]
    rw [heq] at hmem
    exact absurd hmem (by decide)
  rw [PluginRegistry.rollback_root, PluginRegistry.home, List.append_assoc]
  exact apart_child hne

end Geometry

section Changed

variable {P : Choice → Prop} {s t u v : Disk} {R : PluginRegistry} {name : String} {log : Log}
  {source staging destination target : Path} {rollback_path : Option Path} {now : Int}

theorem move?_frame (h : s.move? source target now = some t) : Frame [source, target] s.tree t.tree :=
  frame_moved (move?_spec h).1

/-- A move to a free place goes there. -/
theorem move?_landed (h : s.move? source target now = some t) (hfree : s.tree.at? target = none) :
    Tree.Moved s.tree t.tree source target := by
  have hmoved := (move?_spec h).1
  rwa [Tree.landing_free hfree] at hmoved

/-- What a torn move changed, and what it left where it was to go. -/
theorem torn?_spec {ch : Choice} (h : s.torn? ch source target = some t) :
    Frame [source, target] s.tree t.tree ∧ t.records = s.records ∧
      (s.tree.at? target = none → Paths.Apart source target → t.tree.at? target ≠ none) := by
  obtain ⟨tree, htree, rfl⟩ := Option.map_eq_some_iff.mp h
  split at htree
  · cases htree
  rename_i hinside
  have hne : source ≠ [] := by
    rintro rfl
    exact hinside List.nil_prefix
  have hland : ∀ {a b}, Frame [s.tree.landing source target] a b → Frame [source, target] a b := by
    intro a b hframe q hq
    obtain ⟨rest, hrest⟩ : target <+: s.tree.landing source target := Tree.landing_prefix
    refine hframe q fun p hp => ?_
    obtain rfl := List.mem_singleton.mp hp
    exact hrest ▸ ((hq target (by simp)).symm.append_right rest).symm
  obtain ⟨e, he, htree⟩ := Option.bind_eq_some_iff.mp htree
  cases hprogress : ch.progress with
  | refused =>
    rw [hprogress] at htree
    cases htree
  | copying part sub =>
    rw [hprogress] at htree
    refine ⟨hland (frame_put htree), rfl, fun hfree _ => ?_⟩
    rw [Tree.landing_free hfree] at htree
    simp [Tree.put?_at htree]
  | removing rest =>
    rw [hprogress] at htree
    obtain ⟨copied, hcopied, hrest⟩ := Option.bind_eq_some_iff.mp htree
    have hleft : Frame [source] copied tree := (frame_without hne).trans (frame_put hrest)
    refine ⟨(hland (frame_put hcopied)).trans (hleft.mono (by simp)), rfl, fun hfree hapart => ?_⟩
    rw [Tree.landing_free hfree] at hcopied
    change tree.at? target ≠ none
    rw [(hleft target (by simpa using hapart)).entry, Tree.put?_at hcopied]
    simp

theorem Halted.frame {halt : Halt} (h : Halted s source target halt t) :
    Frame [source, target] s.tree t.tree ∧ t.records = s.records := by
  obtain ⟨_, rfl⟩ | ⟨_, ch, htorn⟩ := h
  · exact ⟨.refl _ _, rfl⟩
  · obtain ⟨hframe, hrecords, _⟩ := torn?_spec htorn
    exact ⟨hframe, hrecords⟩

theorem copytree?_frame (h : s.copytree? source target now = some t) : Frame [target] s.tree t.tree :=
  frame_put (copytree?_spec h).2.1

theorem Broken.frame (h : Broken source staging s t) :
    Frame [staging] s.tree t.tree ∧ t.records = s.records := by
  obtain ⟨ch, rfl⟩ | ⟨now, hcopy⟩ := h
  · obtain ⟨hrecords, hsame | ⟨sub, hput⟩⟩ := scraps_spec s ch staging
    · exact ⟨by rw [hsame]; exact .refl _ _, hrecords⟩
    · exact ⟨frame_put hput, hrecords⟩
  · exact ⟨copytree?_frame hcopy, (copytree?_spec hcopy).2.2.1⟩

theorem Discarded.frame (h : Discarded staging s t) (hne : staging ≠ []) :
    Frame [staging] s.tree t.tree ∧ t.records = s.records := by
  obtain ⟨_, rfl⟩ | ⟨now, hrm⟩ := h
  · exact ⟨.refl _ _, rfl⟩
  · obtain ⟨_, htree, hrecords, _⟩ := rmtree?_spec hrm
    exact ⟨by rw [htree]; exact frame_without hne, hrecords⟩

theorem Discarded.gone (h : Discarded staging s t) (hne : staging ≠ []) : t.tree.at? staging = none := by
  obtain ⟨hnone, rfl⟩ | ⟨now, hrm⟩ := h
  · exact hnone
  · obtain ⟨_, htree, _⟩ := rmtree?_spec hrm
    rw [htree, Tree.at?_without hne, if_pos (List.prefix_refl _)]

theorem BroughtBack.frame (h : BroughtBack destination rollback_path s t) :
    Frame (destination :: rollback_path.toList) s.tree t.tree ∧ t.records = s.records := by
  cases rollback_path with
  | none =>
    obtain rfl : t = s := h
    exact ⟨.refl _ _, rfl⟩
  | some path =>
    obtain ⟨_, rfl⟩ | ⟨_, now, hmove⟩ := h
    · exact ⟨.refl _ _, rfl⟩
    · exact ⟨(move?_frame hmove).mono (by simp), (move?_spec hmove).2.1⟩

theorem Recovered.frame {torn : Prop} {n : Nat} (h : Recovered torn staging destination rollback_path s n t)
    (hne : staging ≠ []) :
    Frame (staging :: destination :: rollback_path.toList) s.tree t.tree ∧ t.records = s.records := by
  cases h with
  | done hdiscarded hbrought =>
    obtain ⟨hframe, hrecords⟩ := hdiscarded.frame hne
    obtain ⟨hframe', hrecords'⟩ := hbrought.frame
    exact ⟨(hframe.mono (by simp)).trans (hframe'.mono (by simp)), hrecords'.trans hrecords⟩
  | left hleft =>
    obtain rfl | hdiscarded := hleft
    · exact ⟨.refl _ _, rfl⟩
    · obtain ⟨hframe, hrecords⟩ := hdiscarded.frame hne
      exact ⟨hframe.mono (by simp), hrecords⟩
  | @halted _ _ path _ _ hdiscarded hpath hhalted =>
    obtain rfl : rollback_path = some path := hpath
    obtain ⟨hframe, hrecords⟩ := hdiscarded.frame hne
    obtain ⟨hframe', hrecords'⟩ := hhalted.frame
    exact ⟨(hframe.mono (by simp)).trans (hframe'.mono (by simp)), hrecords'.trans hrecords⟩

/-- What is in place after the copy. -/
theorem Placed.spec (h : Placed source staging destination s t) (hfree : s.tree.at? destination = none)
    (hapart : Paths.Apart staging destination) :
    s.tree.at? source = some .dir ∧ ¬ source <+: staging ∧ t.tree.at? destination = some .dir ∧
      t.tree.below destination = s.tree.below source ∧
      Frame [staging, destination] s.tree t.tree ∧ t.records = s.records := by
  obtain ⟨u, now, now', hcopy, hreplace⟩ := h
  obtain ⟨hdir, hput, hrecords, _⟩ := copytree?_spec hcopy
  have hframe := copytree?_frame hcopy
  have hfree' : u.tree.at? destination = none := by
    rw [(hframe destination (by simpa using hapart)).entry, hfree]
  obtain ⟨hmoved, hrecords', _⟩ := replace?_spec hreplace hfree'
  have hstrict : ¬ source <+: staging := by
    obtain ⟨_, htree, _⟩ := Option.map_eq_some_iff.mp hcopy
    exact (Tree.copytree?_eq_some.mp htree).2.1
  refine ⟨hdir, hstrict, hmoved.entry.trans (Tree.put?_at hput), hmoved.below.trans (Tree.put?_below hput), ?_,
    hrecords'.trans hrecords⟩
  refine Frame.trans (hframe.mono (by simp)) fun q hq => ?_
  exact hmoved.same q (hq staging (by simp)) (hq destination (by simp))

theorem SetAside.records {o : Except PyError (Option Path)} (h : SetAside R name destination s log o u) :
    u.records = s.records := by
  cases h with
  | absent => rfl
  | moved _ hmove => exact (move?_spec hmove).2.1
  | failed _ hhalted => exact hhalted.frame.2

/-- After the installed version was set aside nothing has its place. -/
theorem SetAside.free (h : SetAside R name destination s log (.ok rollback_path) u) :
    u.tree.at? destination = none := by
  cases h with
  | absent hnone => exact hnone
  | moved _ hmove => exact (move?_spec hmove).1.gone

theorem SetAside.frame (h : SetAside R name destination s log (.ok rollback_path) u) :
    Frame (destination :: rollback_path.toList) s.tree u.tree := by
  cases h with
  | absent => exact .refl _ _
  | moved _ hmove => exact (move?_frame hmove).mono (by simp)

theorem SetAside.path {path : Path} (h : SetAside R name destination s log (.ok (some path)) u) :
    ∃ stamp hex, path = backup_path R name stamp hex ∧ ⟨.uuid4, hex⟩ ∈ log := by
  cases h with
  | moved => exact ⟨_, _, rfl, by simp⟩

end Changed

end EnterpriseCopilot.Plugin
