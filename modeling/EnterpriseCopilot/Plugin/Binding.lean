import EnterpriseCopilot.Lib.Records
import EnterpriseCopilot.Plugin.Integrity
import EnterpriseCopilot.Python.Utf8

/-! For which pairs of plugins one digest stands for the same files. -/

namespace EnterpriseCopilot.Plugin

open EnterpriseCopilot.Lib
open EnterpriseCopilot.Lib.Records
open EnterpriseCopilot.Python

abbrev HexDigit (c : Char) : Prop := c ∈ "0123456789abcdef".toList

/-- What `hexdigest()` of SHA-256 returns: 64 digits. -/
def HexDigests (sha256 : Hexdigest) : Prop := ∀ bytes, Mark HexDigit 64 (sha256 bytes).toList

/-- What is hashed of a directory: the files that count, and the text that they make together. -/
def inputs (sha256 : Hexdigest) (root : Path) (t : Tree) : Set Bytes :=
  {bytes | bytes = digest_input sha256 root t ∨ ∃ path, (path, bytes) ∈ hashed root t}

/-- The files that do not count: those whose absolute path has a part `.git`. -/
def unhashed (root : Path) (t : Tree) : List (Path × Bytes) := t.files.filter fun x => ".git" ∈ root ++ x.1

/-- The paths of the files that count, in the order in which they are hashed. -/
def hashed_paths (root : Path) (t : Tree) : List (List Char) :=
  (sorted (hashed root t)).map fun x => (as_posix x.1).toList

/-- The two directories have the same files below `.git`, and wherever the path of a file of one runs on after that of
the file in the same place of the other, it does so with something else than 64 hexadecimal digits, or fewer at its
end. -/
structure Unambiguous (root root' : Path) (t t' : Tree) : Prop where
  git : ∀ x, x ∈ unhashed root t ↔ x ∈ unhashed root' t'
  apart : Apart HexDigit 64 (hashed_paths root t) (hashed_paths root' t')

section Paths

variable {a b : Path}

theorem as_posix_inj (ha : a ≠ [] ∧ ∀ name ∈ a, ValidName name) (hb : b ≠ [] ∧ ∀ name ∈ b, ValidName name)
    (h : as_posix a = as_posix b) : a = b := by
  have hparts : ∀ {p : Path}, (p ≠ [] ∧ ∀ name ∈ p, ValidName name) →
      List.splitOn '/' (as_posix p).toList = p.map String.toList := by
    rintro p ⟨hne, hvalid⟩
    rw [as_posix, String.toList_intercalate]
    refine List.splitOn_intercalate '/' (fun l hl => ?_) (by simpa using hne)
    obtain ⟨name, hname, rfl⟩ := List.mem_map.mp hl
    obtain ⟨_, _, _, hslash, _⟩ := hvalid name hname
    exact hslash
  have hmap : a.map String.toList = b.map String.toList := by rw [← hparts ha, ← hparts hb, h]
  exact List.map_injective_iff.mpr (fun _ _ => String.toList_injective) hmap

end Paths

section Sorted

variable {α : Type} {xs ys : List (Path × α)}

instance : Std.Total (path_le (α := α)) where
  total a b := List.le_total a.1 b.1

instance : IsTrans (Path × α) path_le where
  trans _ _ _ h h' := List.le_trans h h'

theorem perm_sorted (xs : List (Path × α)) : (sorted xs).Perm xs := List.perm_insertionSort path_le xs

theorem mem_sorted {x : Path × α} : x ∈ sorted xs ↔ x ∈ xs := (perm_sorted xs).mem_iff

/-- The order does not depend on how the files were found. -/
theorem sorted_congr (hx : (xs.map Prod.fst).Nodup) (hy : (ys.map Prod.fst).Nodup) (h : ∀ x, x ∈ xs ↔ x ∈ ys) :
    sorted xs = sorted ys := by
  have hperm : xs.Perm ys := (List.perm_ext_iff_of_nodup (.of_map _ hx) (.of_map _ hy)).mpr h
  have hsame : ∀ a b, a ∈ sorted xs → b ∈ sorted ys → path_le a b → path_le b a → a = b := by
    intro a b ha hb hab hba
    have hkey : a.1 = b.1 := List.le_antisymm hab hba
    exact List.inj_on_of_nodup_map hx (mem_sorted.mp ha) ((h b).mpr (mem_sorted.mp hb)) hkey
  exact List.Perm.eq_of_pairwise hsame (List.pairwise_insertionSort path_le xs) (List.pairwise_insertionSort path_le ys)
    ((perm_sorted xs).trans (hperm.trans (perm_sorted ys).symm))

end Sorted

section Digest

variable {sha256 : Hexdigest} {L : Library} {root root' source source' : Path} {t t' : Tree}

/-- Path and digest of each file, as they are hashed. -/
def records (sha256 : Hexdigest) (root : Path) (t : Tree) : List (List Char × List Char) :=
  (sorted (hashed root t)).map fun x => ((as_posix x.1).toList, (sha256 x.2).toList)

theorem records_fst : (records sha256 root t).map Prod.fst = hashed_paths root t := by
  rw [records, hashed_paths, List.map_map]
  rfl

theorem records_mark (hsha : HexDigests sha256) : ∀ x ∈ records sha256 root t, Mark HexDigit 64 x.2 := by
  intro x hx
  obtain ⟨file, _, rfl⟩ := List.mem_map.mp hx
  exact hsha file.2

theorem digest_input_eq : digest_input sha256 root t = utf8 (String.ofList (joined (records sha256 root t))) := by
  rw [digest_input, records]
  induction sorted (hashed root t) with
  | nil => rfl
  | cons x xs ih =>
    rw [List.flatMap_cons, ih]
    simp only [utf8, joined, List.map_cons, List.flatMap_cons, String.toList_ofList, List.flatMap_append]

theorem hashed_nodup : ((hashed root t).map Prod.fst).Nodup := by
  have hfiles : (t.files.map Prod.fst).Sublist (t.entries.map Prod.fst) := by
    rw [Tree.files]
    induction t.entries with
    | nil => exact .slnil
    | cons x xs ih =>
      rw [List.filterMap_cons]
      cases x.2.content? with
      | none => exact ih.cons _
      | some content => exact ih.cons_cons _
  exact t.nodup.sublist ((List.filter_sublist.map Prod.fst).trans hfiles)

theorem hashed_named {x : Path × Bytes} (hx : x ∈ hashed root t) : x.1 ≠ [] ∧ ∀ name ∈ x.1, ValidName name :=
  t.named _ (mem_files.mp (List.mem_of_mem_filter hx))

theorem mem_hashed {x : Path × Bytes} : x ∈ hashed root t ↔ x ∈ t.files ∧ ".git" ∉ root ++ x.1 := by
  simp [hashed]

theorem mem_unhashed {x : Path × Bytes} : x ∈ unhashed root t ↔ x ∈ t.files ∧ x ∉ hashed root t := by
  rw [mem_hashed, unhashed, List.mem_filter, decide_eq_true_eq]
  tauto

/-- With no collision the files are known from the paths and digests. -/
theorem records_inj (hfree : Set.InjOn sha256 (inputs sha256 root t ∪ inputs sha256 root' t'))
    (h : records sha256 root t = records sha256 root' t') : sorted (hashed root t) = sorted (hashed root' t') := by
  have hpair : ∀ x ∈ sorted (hashed root t), ∀ y ∈ sorted (hashed root' t'),
      ((as_posix x.1).toList, (sha256 x.2).toList) = ((as_posix y.1).toList, (sha256 y.2).toList) → x = y := by
    rintro ⟨path, content⟩ hx ⟨path', content'⟩ hy hxy
    obtain ⟨hpath, hdigest⟩ := Prod.mk.inj hxy
    have hx := mem_sorted.mp hx
    have hy := mem_sorted.mp hy
    obtain rfl := as_posix_inj (hashed_named hx) (hashed_named hy) (String.toList_injective hpath)
    obtain rfl : content = content' :=
      hfree (.inl (.inr ⟨path, hx⟩)) (.inr (.inr ⟨path, hy⟩)) (String.toList_injective hdigest)
    rfl
  rw [records, records] at h
  generalize sorted (hashed root t) = xs at h hpair
  generalize sorted (hashed root' t') = ys at h hpair
  induction xs generalizing ys with
  | nil => exact (List.map_eq_nil_iff.mp h.symm).symm
  | cons x xs ih =>
    cases ys with
    | nil => cases h
    | cons y ys =>
      obtain ⟨hhead, htail⟩ := List.cons.inj h
      rw [hpair x List.mem_cons_self y List.mem_cons_self hhead,
        ih ys htail fun x hx y hy => hpair x (List.mem_cons_of_mem _ hx) y (List.mem_cons_of_mem _ hy)]

/-- The files that count are the same, if nothing hides where a path ends. -/
theorem hashed_iff (hsha : HexDigests sha256) (hfree : Set.InjOn sha256 (inputs sha256 root t ∪ inputs sha256 root' t'))
    (h : plugin_integrity sha256 root t = plugin_integrity sha256 root' t') :
    (∀ x, x ∈ hashed root t ↔ x ∈ hashed root' t') ↔ Apart HexDigit 64 (hashed_paths root t) (hashed_paths root' t') := by
  have hinput : digest_input sha256 root t = digest_input sha256 root' t' := hfree (.inl (.inl rfl)) (.inr (.inl rfl)) h
  have hjoined : joined (records sha256 root t) = joined (records sha256 root' t') := by
    rw [digest_input_eq, digest_input_eq] at hinput
    exact String.ofList_injective (utf8_injective hinput)
  have hkeys : (records sha256 root t).map Prod.fst = hashed_paths root t := records_fst
  have hkeys' : (records sha256 root' t').map Prod.fst = hashed_paths root' t' := records_fst
  rw [← hkeys, ← hkeys', ← joined_eq_iff (by decide) (records_mark hsha) (records_mark hsha) hjoined]
  constructor
  · intro hsame
    rw [records, records, sorted_congr hashed_nodup hashed_nodup hsame]
  · intro hrecords x
    rw [← mem_sorted, records_inj hfree hrecords, mem_sorted]

/-- If the files are the same, those that count are: of two directories only one of which is below a `.git`, the
other one has nothing that counts either. -/
theorem hashed_of_files (hsha : HexDigests sha256)
    (hfree : Set.InjOn sha256 (inputs sha256 root t ∪ inputs sha256 root' t'))
    (h : plugin_integrity sha256 root t = plugin_integrity sha256 root' t')
    (hfiles : ∀ x, x ∈ t.files ↔ x ∈ t'.files) : ∀ x, x ∈ hashed root t ↔ x ∈ hashed root' t' := by
  have hnone : ∀ {root t}, ".git" ∈ root → hashed root t = [] := by
    intro root t hroot
    exact List.filter_eq_nil_iff.mpr fun x _ => by simp [hroot]
  by_cases hroot : ".git" ∈ root
  · refine (hashed_iff hsha hfree h).mpr fun x hx => ?_
    rw [hashed_paths, hnone hroot] at hx
    exact absurd hx (by simp [sorted])
  · by_cases hroot' : ".git" ∈ root'
    · refine (hashed_iff hsha hfree h).mpr fun x hx => ?_
      rw [hashed_paths, hashed_paths, hnone hroot'] at hx
      exact absurd hx (by simp [sorted])
    · intro x
      simp only [mem_hashed, hfiles x, List.mem_append, hroot, hroot', false_or]

theorem files_iff (hsha : HexDigests sha256) (hfree : Set.InjOn sha256 (inputs sha256 root t ∪ inputs sha256 root' t'))
    (h : plugin_integrity sha256 root t = plugin_integrity sha256 root' t') :
    (∀ x, x ∈ t.files ↔ x ∈ t'.files) ↔ Unambiguous root root' t t' := by
  constructor
  · intro hfiles
    have hhashed := hashed_of_files hsha hfree h hfiles
    refine ⟨fun x => ?_, (hashed_iff hsha hfree h).mp hhashed⟩
    rw [mem_unhashed, mem_unhashed, hfiles, hhashed]
  · rintro ⟨hgit, hapart⟩ x
    have hhashed := (hashed_iff hsha hfree h).mpr hapart x
    have hfile : ∀ root t, x ∈ t.files ↔ x ∈ unhashed root t ∨ x ∈ hashed root t := by
      intro root t
      rw [mem_unhashed, mem_hashed]
      tauto
    rw [hfile root, hfile root', hgit, hhashed]

/-- `install` accepts the digest that it expects, and puts the files there. -/
theorem install_digest {r : Registry} {approved_by digest : String} {readings : Readings} {record : PluginRecord}
    (h : (r.install sha256 L source (some t) approved_by (some digest) readings).1 = .ok record) :
    plugin_integrity sha256 source t = digest ∧
      (r.install sha256 L source (some t) approved_by (some digest) readings).2.installed record.name = t.files := by
  obtain ⟨_, mapping, integrity, hc, _, hplace⟩ := install_ok h
  obtain ⟨rfl, _⟩ := checked_source hc
  rw [hplace, installed_place]
  exact ⟨(checked_expected hc).symm, rfl⟩

/-- A digest that two directories have, or with which both are installed, stands for the same files exactly if they
are unambiguous. -/
theorem integrity_binds_iff (hsha : HexDigests sha256)
    (hfree : Set.InjOn sha256 (inputs sha256 source t ∪ inputs sha256 source' t')) :
    (plugin_integrity sha256 source t = plugin_integrity sha256 source' t' →
      ((∀ x, x ∈ t.files ↔ x ∈ t'.files) ↔ Unambiguous source source' t t')) ∧
    ∀ (r r' : Registry) (approved_by approved_by' digest : String) (readings readings' : Readings)
      (record record' : PluginRecord),
      (r.install sha256 L source (some t) approved_by (some digest) readings).1 = .ok record →
      (r'.install sha256 L source' (some t') approved_by' (some digest) readings').1 = .ok record' →
      ((∀ x, x ∈ (r.install sha256 L source (some t) approved_by (some digest) readings).2.installed record.name ↔
          x ∈ (r'.install sha256 L source' (some t') approved_by' (some digest) readings').2.installed record'.name) ↔
        Unambiguous source source' t t') := by
  refine ⟨files_iff hsha hfree, ?_⟩
  intro r r' approved_by approved_by' digest readings readings' record record' h h'
  obtain ⟨hdigest, hfiles⟩ := install_digest h
  obtain ⟨hdigest', hfiles'⟩ := install_digest h'
  rw [hfiles, hfiles']
  exact files_iff hsha hfree (hdigest.trans hdigest'.symm)

end Digest

section Sample

def manifestText : String :=
  "\x7b\"name\":\"erp-plugin\",\"version\":\"1.0.0\",\"description\":\"ERP tools\"," ++
    "\"publisher\":\"Example\",\"permissions\":\x7b\x7d\x7d"

def manifestBytes : Bytes := manifestText.toByteArray.data.toList

def manifestDigest : String := "2879c26d0e58882b3fb4b0cbda83f3b0d3eeb98dc6df66bedc6f2340c96651eb"

def sampleDigest : String := "f3506a628d03b707e83f9e77f7cd9bd16a298bab1b1dbad920bd9eb663e4370f"

/-- What the files of the sample make together. -/
def sampleBytes : Bytes := (".codex-plugin/plugin.json" ++ manifestDigest).toByteArray.data.toList

/-- SHA-256 on the inputs of the sample. -/
def sampleSha256 (bytes : Bytes) : String :=
  if bytes = manifestBytes then manifestDigest
  else if bytes = sampleBytes then sampleDigest
  else String.ofList (List.replicate 64 '0')

theorem sampleSha256_manifest : sampleSha256 manifestBytes = manifestDigest := if_pos rfl

theorem sampleBytes_ne : sampleBytes ≠ manifestBytes := by
  intro h
  have hhead : sampleBytes.head? ≠ manifestBytes.head? := by decide +kernel
  exact hhead (congrArg List.head? h)

theorem sampleSha256_text : sampleSha256 sampleBytes = sampleDigest := by
  rw [sampleSha256, if_neg sampleBytes_ne, if_pos rfl]

def sampleManifest : Payload :=
  [("name", .str "erp-plugin"), ("version", .str "1.0.0"), ("description", .str "ERP tools"),
    ("publisher", .str "Example"), ("permissions", .obj [])]

def sampleLibrary : Library where
  read_json _ e := match e with
    | some (.file content) =>
      if content = manifestBytes then .ok (.ok (.obj sampleManifest)) else .ok (.error "cannot load JSON")
    | _ => .ok (.error "cannot load JSON")
  validate_skill _ _ := .ok []
  validate_mcp_config _ _ := .ok []
  resolve _ _ := .ok .missing
  resolve_linkless _ _ _ h := nomatch h

def samplePlugin : Tree where
  entries := [([".codex-plugin"], .dir), (manifest_path, .file manifestBytes)]
  nodup := by decide
  named := by decide
  parents := by decide

/-- The plugin with a file below `.git`. -/
def hookedPlugin : Tree where
  entries := samplePlugin.entries ++
    [([".git"], .dir), ([".git", "config"], .file (utf8 "[core]"))]
  nodup := by decide
  named := by decide
  parents := by decide

def sampleReadings : Readings := ⟨"20260701020000", "5a0e", "2026-07-01T02:00:00+00:00",
  "2026-07-01T02:00:00+00:00"⟩

def sampleRegistry : Registry where
  plugins _ := none

def sampleSource : Path := ["srv", "plugins", "erp"]

def sampleRecord : PluginRecord :=
  record_of sampleManifest sampleDigest sampleReadings.installed_at "/srv/plugins/erp" "alice"

theorem sample_hashed {t : Tree} (ht : t = samplePlugin ∨ t = hookedPlugin) :
    hashed sampleSource t = [(manifest_path, manifestBytes)] := by
  obtain rfl | rfl := ht <;> rfl

theorem sample_digest_input {t : Tree} (ht : t = samplePlugin ∨ t = hookedPlugin) :
    digest_input sampleSha256 sampleSource t = sampleBytes := by
  have hpath : as_posix manifest_path = ".codex-plugin/plugin.json" := by decide
  have hsorted : sorted [(manifest_path, manifestBytes)] = [(manifest_path, manifestBytes)] := rfl
  calc digest_input sampleSha256 sampleSource t
      = utf8 (as_posix manifest_path) ++ utf8 (sampleSha256 manifestBytes) := by
        rw [digest_input, sample_hashed ht, hsorted, List.flatMap_singleton]
    _ = sampleBytes := by
        rw [sampleSha256_manifest, hpath, ← utf8_append]
        exact utf8_eq _

theorem sample_integrity {t : Tree} (ht : t = samplePlugin ∨ t = hookedPlugin) :
    plugin_integrity sampleSha256 sampleSource t = sampleDigest := by
  rw [plugin_integrity, sample_digest_input ht, sampleSha256_text]

theorem sample_valid {t : Tree} (ht : t = samplePlugin ∨ t = hookedPlugin) :
    validate_plugin sampleLibrary sampleSource t = .ok [] := by
  obtain rfl | rfl := ht <;> rfl

theorem sample_install {t : Tree} (ht : t = samplePlugin ∨ t = hookedPlugin) :
    sampleRegistry.install sampleSha256 sampleLibrary sampleSource (some t) "alice" (some sampleDigest)
      sampleReadings = (.ok sampleRecord, sampleRegistry.place t sampleRecord "alice" sampleReadings) := by
  have hlink : t.hasSymlink = false := by obtain rfl | rfl := ht <;> rfl
  have hread : sampleLibrary.read_json (sampleSource ++ manifest_path) (t.at? manifest_path) =
      .ok (.ok (.obj sampleManifest)) := by obtain rfl | rfl := ht <;> rfl
  have hchecked : checked sampleSha256 sampleLibrary sampleSource (some t) "alice"
      (some sampleDigest) = .ok (t, sampleManifest, sampleDigest) := by
    unfold checked
    simp only [hlink, sample_valid ht, sample_integrity ht, hread, ok_bind]
    rfl
  rw [Registry.install, hchecked]
  rfl

theorem mark_of_all {text : String}
    (h : text.toList.length = 64 ∧ text.toList.all (fun c => decide (HexDigit c)) = true) : Mark HexDigit 64 text.toList :=
  ⟨h.1, fun c hc => of_decide_eq_true (List.all_eq_true.mp h.2 c hc)⟩

theorem sampleSha256_hex : HexDigests sampleSha256 := by
  intro bytes
  unfold sampleSha256
  split
  · exact mark_of_all (by decide +kernel)
  split
  · exact mark_of_all (by decide +kernel)
  · exact mark_of_all (by decide +kernel)

/-- The files of the sample and what they make together. -/
theorem sample_inputs {t : Tree} (ht : t = samplePlugin ∨ t = hookedPlugin) :
    inputs sampleSha256 sampleSource t ⊆ {manifestBytes, sampleBytes} := by
  rintro bytes (rfl | ⟨path, hpath⟩)
  · exact .inr (sample_digest_input ht)
  · rw [sample_hashed ht, List.mem_singleton] at hpath
    exact .inl (Prod.mk.inj hpath).2

theorem sample_free {t t' : Tree} (ht : t = samplePlugin ∨ t = hookedPlugin) (ht' : t' = samplePlugin ∨ t' = hookedPlugin) :
    Set.InjOn sampleSha256 (inputs sampleSha256 sampleSource t ∪ inputs sampleSha256 sampleSource t') := by
  refine Set.InjOn.mono (Set.union_subset (sample_inputs ht) (sample_inputs ht')) ?_
  have hne : sampleSha256 manifestBytes ≠ sampleSha256 sampleBytes := by
    rw [sampleSha256_text, sampleSha256_manifest]
    decide
  rintro a (rfl | rfl) b (rfl | rfl) h
  · rfl
  · exact absurd h hne
  · exact absurd h.symm hne
  · rfl

theorem integrity_binds_sample :
    (∀ x, x ∈ (sampleRegistry.install sampleSha256 sampleLibrary sampleSource (some samplePlugin) "alice"
        (some sampleDigest) sampleReadings).2.installed sampleRecord.name ↔
      x ∈ (sampleRegistry.install sampleSha256 sampleLibrary sampleSource (some samplePlugin) "alice"
        (some sampleDigest) sampleReadings).2.installed sampleRecord.name) ↔
    Unambiguous sampleSource sampleSource samplePlugin samplePlugin :=
  (integrity_binds_iff sampleSha256_hex (sample_free (.inl rfl) (.inl rfl))).2 sampleRegistry sampleRegistry "alice"
    "alice" sampleDigest sampleReadings sampleReadings sampleRecord sampleRecord (by rw [sample_install (.inl rfl)])
    (by rw [sample_install (.inl rfl)])

/-- The plugin and the plugin with a file below `.git` are installed under one digest. -/
theorem integrity_not_binding : ¬ ∀ (sha256 : Hexdigest) (L : Library) (r : Registry) (source : Path) (t t' : Tree)
    (approved_by digest : String) (readings : Readings) (record record' : PluginRecord), HexDigests sha256 →
      Set.InjOn sha256 (inputs sha256 source t ∪ inputs sha256 source t') →
      (r.install sha256 L source (some t) approved_by (some digest) readings).1 = .ok record →
      (r.install sha256 L source (some t') approved_by (some digest) readings).1 = .ok record' →
      ∀ x, x ∈ (r.install sha256 L source (some t) approved_by (some digest) readings).2.installed
          record.name ↔
        x ∈ (r.install sha256 L source (some t') approved_by (some digest) readings).2.installed
          record'.name := by
  intro h
  have hsame := h sampleSha256 sampleLibrary sampleRegistry sampleSource samplePlugin hookedPlugin "alice" sampleDigest
    sampleReadings sampleRecord sampleRecord sampleSha256_hex (sample_free (.inl rfl) (.inr rfl))
    (by rw [sample_install (.inl rfl)]) (by rw [sample_install (.inr rfl)]) ([".git", "config"], utf8 "[core]")
  rw [sample_install (.inl rfl), sample_install (.inr rfl), installed_place, installed_place, mem_files,
    mem_files] at hsame
  exact absurd (hsame.mpr (by simp [hookedPlugin])) (by decide)

end Sample

end EnterpriseCopilot.Plugin
