import Mathlib.Data.List.Induction
import Mathlib.Data.List.Infix
import EnterpriseCopilot.Lib.Paths
import EnterpriseCopilot.Plugin.Registry

/-! Moving, copying and removing what lies at a path. -/

namespace EnterpriseCopilot.Plugin

open EnterpriseCopilot.Lib

namespace Tree

variable {t u : Tree} {p q : Path} {e : Entry}

theorem ext_entries (h : t.entries = u.entries) : t = u := by
  cases t
  cases u
  cases h
  rfl

theorem unique {e' : Entry} (h : (p, e) ∈ t.entries) (h' : (p, e') ∈ t.entries) : e = e' :=
  (Prod.mk.inj (List.inj_on_of_nodup_map t.nodup h h' rfl)).2

@[simp] theorem at?_nil : t.at? [] = some .dir := if_pos rfl

theorem at?_eq_some (hp : p ≠ []) : t.at? p = some e ↔ (p, e) ∈ t.entries := by
  rw [at?, if_neg hp]
  constructor
  · intro h
    obtain ⟨l₁, l₂, heq, _⟩ := List.lookup_eq_some_iff.mp h
    simp [heq]
  · intro h
    cases hl : t.entries.lookup p with
    | none => exact absurd (List.lookup_eq_none_iff.mp hl _ h) (by simp)
    | some e' =>
      obtain ⟨l₁, l₂, heq, _⟩ := List.lookup_eq_some_iff.mp hl
      exact congrArg some (unique (by simp [heq]) h)

theorem at?_of_mem (h : (p, e) ∈ t.entries) : t.at? p = some e :=
  (at?_eq_some (t.named _ h).1).mpr h

theorem at?_congr (h : ∀ e, (p, e) ∈ t.entries ↔ (p, e) ∈ u.entries) : t.at? p = u.at? p := by
  by_cases hp : p = []
  · simp [hp]
  · refine Option.ext fun e => ?_
    rw [at?_eq_some hp, at?_eq_some hp, h]

/-- What lies below something lies in a directory. -/
theorem dir_of_mem (hp : p ≠ []) : ∀ {q}, q ≠ [] → (p ++ q, e) ∈ t.entries → (p, .dir) ∈ t.entries := by
  intro q
  induction q using List.reverseRecOn generalizing e with
  | nil => exact fun hne => absurd rfl hne
  | append_singleton q name ih =>
    intro _ h
    have hdir := t.parents _ h
    rw [← List.append_assoc, List.dropLast_concat] at hdir
    by_cases hq : q = []
    · subst hq
      simpa using hdir (by simpa using hp)
    · exact ih hq (hdir (by simp [hp]))

theorem at?_dir (h : t.at? (p ++ q) = some e) (hq : q ≠ []) : t.at? p = some .dir := by
  by_cases hp : p = []
  · simp [hp]
  · exact at?_of_mem (dir_of_mem hp hq ((at?_eq_some (by simp [hp])).mp h))

theorem at?_above (h : t.at? q = some .dir) (hpq : p <+: q) : t.at? p = some .dir := by
  obtain ⟨r, rfl⟩ := hpq
  by_cases hr : r = []
  · simpa [hr] using h
  · exact at?_dir h hr

/-- The directory at a path as a tree of its own. -/
def below (t : Tree) (p : Path) : Tree where
  entries := Paths.below p t.entries
  nodup := Paths.nodup_below t.nodup
  named x hx := by
    obtain ⟨q, e⟩ := x
    obtain ⟨hq, hx⟩ := Paths.mem_below.mp hx
    exact ⟨hq, fun name hname => (t.named _ hx).2 name (List.mem_append_right p hname)⟩
  parents x hx hne := by
    obtain ⟨q, e⟩ := x
    obtain ⟨hq, hx⟩ := Paths.mem_below.mp hx
    have hlast : (p ++ q).dropLast = p ++ q.dropLast := List.dropLast_append_of_ne_nil hq
    have hparent := t.parents _ hx
    rw [hlast] at hparent
    exact Paths.mem_below.mpr ⟨hne, hparent (by simp [hne])⟩

def without (t : Tree) (p : Path) : Tree where
  entries := Paths.without p t.entries
  nodup := Paths.nodup_without t.nodup
  named x hx := t.named x (Paths.mem_without.mp hx).1
  parents x hx hne := by
    obtain ⟨hx, hp⟩ := Paths.mem_without.mp hx
    exact Paths.mem_without.mpr ⟨t.parents x hx hne, fun h => hp (h.trans (List.dropLast_prefix _))⟩

@[simp] theorem below_entries : (t.below p).entries = Paths.below p t.entries := rfl

@[simp] theorem without_entries : (t.without p).entries = Paths.without p t.entries := rfl

theorem at?_below (h : t.at? p = some .dir) : (t.below p).at? q = t.at? (p ++ q) := by
  by_cases hq : q = []
  · simp [hq, h]
  · refine Option.ext fun e => ?_
    rw [at?_eq_some hq, at?_eq_some (by simp [hq]), below_entries, Paths.mem_below]
    simp [hq]

theorem at?_without (hp : p ≠ []) : (t.without p).at? q = if p <+: q then none else t.at? q := by
  by_cases hq : q = []
  · simp [hq, hp]
  · refine Option.ext fun e => ?_
    rw [at?_eq_some hq, without_entries, Paths.mem_without]
    split
    · rename_i h
      simp [h]
    · rename_i h
      rw [at?_eq_some hq]
      simp [h]

/-- Something can be put at the path: its directory is there, and nothing has its name. -/
structure Free (t : Tree) (p : Path) : Prop where
  ne : p ≠ []
  valid : ∀ name ∈ p, ValidName name
  free : t.at? p = none
  parent : t.at? p.dropLast = some .dir

instance (t : Tree) (p : Path) : Decidable (t.Free p) :=
  decidable_of_iff (p ≠ [] ∧ (∀ name ∈ p, ValidName name) ∧ t.at? p = none ∧ t.at? p.dropLast = some .dir)
    ⟨fun ⟨h₁, h₂, h₃, h₄⟩ => ⟨h₁, h₂, h₃, h₄⟩, fun h => ⟨h.ne, h.valid, h.free, h.parent⟩⟩

theorem not_below_free (h : t.at? p = none) {x : Path × Entry} (hx : x ∈ t.entries) : ¬ p <+: x.1 := by
  rintro ⟨q, hq⟩
  have hat : t.at? (p ++ q) = some x.2 := at?_of_mem (hq ▸ hx)
  by_cases hnil : q = []
  · rw [hnil, List.append_nil] at hat
    exact absurd (h.symm.trans hat) (by simp)
  · exact absurd (h.symm.trans (at?_dir hat hnil)) (by simp)

/-- Put an entry at a path, with a tree below it if it is a directory. -/
def graft (t : Tree) (p : Path) (e : Entry) (sub : Tree) (h : t.Free p)
    (he : e = .dir ∨ sub.entries = []) : Tree where
  entries := t.entries ++ (p, e) :: Paths.under p sub.entries
  nodup := by
    have hp : p ∉ (Paths.under p sub.entries).map Prod.fst := by
      intro hp
      obtain ⟨⟨q, e'⟩, hx, rfl⟩ := List.mem_map.mp hp
      obtain ⟨r, hr, hx⟩ := Paths.mem_under.mp hx
      exact (sub.named _ hx).1 (by simpa using hr)
    rw [List.map_append, List.map_cons, List.nodup_append]
    refine ⟨t.nodup, List.nodup_cons.mpr ⟨hp, Paths.nodup_under sub.nodup⟩, ?_⟩
    rintro a ha b hb rfl
    obtain ⟨x, hx, rfl⟩ := List.mem_map.mp ha
    refine not_below_free h.free hx ?_
    rcases List.mem_cons.mp hb with hb | hb
    · exact hb ▸ List.prefix_refl _
    · obtain ⟨⟨q, e'⟩, hy, hq⟩ := List.mem_map.mp hb
      obtain ⟨r, rfl, _⟩ := Paths.mem_under.mp hy
      exact ⟨r, hq⟩
  named x hx := by
    rcases List.mem_append.mp hx with hx | hx
    · exact t.named x hx
    rcases List.mem_cons.mp hx with rfl | hx
    · exact ⟨h.ne, h.valid⟩
    · obtain ⟨q, e'⟩ := x
      obtain ⟨r, rfl, hr⟩ := Paths.mem_under.mp hx
      refine ⟨by simp [h.ne], fun name hname => ?_⟩
      exact (List.mem_append.mp hname).elim (h.valid name) ((sub.named _ hr).2 name)
  parents x hx hne := by
    rcases List.mem_append.mp hx with hx | hx
    · exact List.mem_append_left _ (t.parents x hx hne)
    rcases List.mem_cons.mp hx with rfl | hx
    · exact List.mem_append_left _ ((at?_eq_some hne).mp h.parent)
    · obtain ⟨q, e'⟩ := x
      obtain ⟨r, rfl, hr⟩ := Paths.mem_under.mp hx
      have hr' := (sub.named _ hr).1
      obtain rfl : e = .dir := he.resolve_right fun hnil => by simp [hnil] at hr
      rw [List.dropLast_append_of_ne_nil hr']
      refine List.mem_append_right _ ?_
      by_cases hd : r.dropLast = []
      · simp [hd]
      · exact List.mem_cons_of_mem _ (Paths.mem_under.mpr ⟨_, rfl, sub.parents _ hr hd⟩)

def graft? (t : Tree) (p : Path) (e : Entry) (sub : Tree) : Option Tree :=
  if h : t.Free p ∧ (e = .dir ∨ sub.entries = []) then some (t.graft p e sub h.1 h.2) else none

def empty : Tree := ⟨[], .nil, by simp, by simp⟩

/-- `os.makedirs` on a path and all above it, shortest first. -/
def makedirs? : Tree → List Path → Option Tree
  | t, [] => some t
  | t, p :: ps => if t.at? p = some .dir then makedirs? t ps
      else (t.graft? p .dir empty).bind fun t => makedirs? t ps

/-- `graft?` where the directories above may be missing. -/
def put? (t : Tree) (p : Path) (e : Entry) (sub : Tree) : Option Tree :=
  (t.makedirs? p.dropLast.inits).bind fun t => t.graft? p e sub

/-- Where `shutil.move` moves to: into the destination if that is a directory. -/
def landing (t : Tree) (src dst : Path) : Path :=
  if t.at? dst = some .dir then dst ++ [src.getLastD ""] else dst

/-- `shutil.move`. -/
def move? (t : Tree) (src dst : Path) : Option Tree :=
  if src <+: t.landing src dst then none
  else (t.at? src).bind fun e => (t.without src).put? (t.landing src dst) e (t.below src)

/-- `shutil.copytree`.  A link is taken to dangle. -/
def copytree? (t : Tree) (src dst : Path) : Option Tree :=
  if t.at? src = some .dir ∧ ¬ src <+: dst ∧ (t.below src).hasSymlink = false then
    t.put? dst .dir (t.below src)
  else none

/-- `Path.replace` of a directory, which may take the place of an empty one. -/
def replace? (t : Tree) (src dst : Path) : Option Tree :=
  if t.at? src = some .dir ∧ ¬ src <+: dst then
    let vacated := if t.at? dst = some .dir ∧ (t.below dst).entries = [] then t.without dst else t
    (vacated.without src).graft? dst .dir (t.below src)
  else none

/-- `shutil.rmtree`. -/
def rmtree? (t : Tree) (p : Path) : Option Tree :=
  if t.at? p = some .dir then some (t.without p) else none

/-- The same thing is at the path in both trees. -/
structure Same (t u : Tree) (p : Path) : Prop where
  entry : u.at? p = t.at? p
  below : u.below p = t.below p

theorem Same.refl (t : Tree) (p : Path) : Same t t p := ⟨rfl, rfl⟩

theorem Same.symm (h : Same t u p) : Same u t p := ⟨h.entry.symm, h.below.symm⟩

theorem Same.trans {v : Tree} (h : Same t u p) (h' : Same u v p) : Same t v p :=
  ⟨h'.entry.trans h.entry, h'.below.trans h.below⟩

theorem below_below : (t.below p).below q = t.below (p ++ q) := ext_entries Paths.below_below

theorem at?_append (hq : q ≠ []) : t.at? (p ++ q) = (t.below p).at? q := by
  by_cases hp : t.at? p = some .dir
  · exact (at?_below hp).symm
  · refine Option.ext fun e => ?_
    rw [at?_eq_some hq, below_entries, Paths.mem_below]
    constructor
    · exact fun h => absurd (at?_dir h hq) hp
    · exact fun h => at?_of_mem h.2

theorem Same.append (h : Same t u p) (q : Path) : Same t u (p ++ q) := by
  by_cases hq : q = []
  · simpa [hq] using h
  · refine ⟨?_, ?_⟩
    · rw [at?_append hq, at?_append hq, h.below]
    · rw [← below_below, ← below_below, h.below]

theorem same_without (hp : p ≠ []) (h : Paths.Apart p q) : Same t (t.without p) q :=
  ⟨by rw [at?_without hp, if_neg h.1], ext_entries (Paths.below_without_apart h)⟩

theorem graft?_eq_some {sub : Tree} : t.graft? p e sub = some u ↔
    t.Free p ∧ (e = .dir ∨ sub.entries = []) ∧
      u.entries = t.entries ++ (p, e) :: Paths.under p sub.entries := by
  unfold graft?
  split
  · rename_i h
    constructor
    · rintro ⟨⟩
      exact ⟨h.1, h.2, rfl⟩
    · rintro ⟨_, _, hu⟩
      exact congrArg some (ext_entries hu.symm)
  · rename_i h
    simp only [reduceCtorEq, false_iff]
    exact fun hu => h ⟨hu.1, hu.2.1⟩

theorem makedirs?_entries {ps : List Path} : ∀ {t u : Tree}, t.makedirs? ps = some u →
    ∃ extra, u.entries = t.entries ++ extra ∧ ∀ x ∈ extra, x.1 ∈ ps := by
  induction ps with
  | nil =>
    rintro t u ⟨⟩
    exact ⟨[], by simp, by simp⟩
  | cons p ps ih =>
    intro t u h
    rw [makedirs?] at h
    split at h
    · obtain ⟨extra, hu, hin⟩ := ih h
      exact ⟨extra, hu, fun x hx => List.mem_cons_of_mem _ (hin x hx)⟩
    · obtain ⟨v, hv, hrest⟩ := Option.bind_eq_some_iff.mp h
      obtain ⟨_, _, hv⟩ := graft?_eq_some.mp hv
      obtain ⟨extra, hu, hin⟩ := ih hrest
      refine ⟨(p, .dir) :: extra, by simp [hu, hv, empty, Paths.under], ?_⟩
      exact List.forall_mem_cons.mpr ⟨by simp, fun x hx => List.mem_cons_of_mem _ (hin x hx)⟩

theorem makedirs?_dirs {ps : List Path} (h : ∀ q ∈ ps, t.at? q = some .dir) :
    t.makedirs? ps = some t := by
  induction ps with
  | nil => rfl
  | cons p ps ih =>
    rw [makedirs?, if_pos (h p (by simp))]
    exact ih fun q hq => h q (by simp [hq])

section Put

variable {sub : Tree}

/-- What `put?` adds: the entry, what lies below it, and directories above it. -/
theorem put?_entries (h : t.put? p e sub = some u) : p ≠ [] ∧ t.at? p = none ∧
    (∀ name ∈ p, ValidName name) ∧ (e = .dir ∨ sub.entries = []) ∧ ∃ extra,
      u.entries = t.entries ++ extra ++ (p, e) :: Paths.under p sub.entries ∧
        ∀ x ∈ extra, x.1 <+: p ∧ x.1 ≠ p := by
  obtain ⟨v, hv, hu⟩ := Option.bind_eq_some_iff.mp h
  obtain ⟨hfree, he, hu⟩ := graft?_eq_some.mp hu
  obtain ⟨extra, hv, hin⟩ := makedirs?_entries hv
  refine ⟨hfree.ne, ?_, hfree.valid, he, extra, by rw [hu, hv], fun x hx => ?_⟩
  · refine Option.eq_none_iff_forall_ne_some.mpr fun e' he' => ?_
    have hmem : (p, e') ∈ v.entries := by
      rw [hv]
      exact List.mem_append_left _ ((at?_eq_some hfree.ne).mp he')
    exact absurd (hfree.free.symm.trans (at?_of_mem hmem)) (by simp)
  · have hpre : x.1 <+: p.dropLast := (List.mem_inits _ _).mp (hin x hx)
    refine ⟨hpre.trans (List.dropLast_prefix p), fun heq => ?_⟩
    have hle := hpre.length_le
    have hpos := List.length_pos_iff.mpr hfree.ne
    rw [heq, List.length_dropLast] at hle
    omega

theorem put?_free (hfree : t.Free p) (he : e = .dir ∨ sub.entries = []) :
    t.put? p e sub = some (t.graft p e sub hfree he) := by
  have hdirs : t.makedirs? p.dropLast.inits = some t :=
    makedirs?_dirs fun q hq => at?_above hfree.parent ((List.mem_inits _ _).mp hq)
  rw [put?, hdirs, Option.bind_some, graft?, dif_pos ⟨hfree, he⟩]

theorem put?_at (h : t.put? p e sub = some u) : u.at? p = some e := by
  obtain ⟨_, _, _, _, extra, hu, _⟩ := put?_entries h
  exact at?_of_mem (by simp [hu])

theorem put?_below (h : t.put? p e sub = some u) : u.below p = sub := by
  obtain ⟨_, hnone, _, _, extra, hu, hextra⟩ := put?_entries h
  refine ext_entries ?_
  have hold : Paths.below p t.entries = [] :=
    Paths.below_eq_nil fun x hx hp => absurd hp (not_below_free hnone hx)
  have hdirs : Paths.below p extra = [] := Paths.below_eq_nil fun x hx hp =>
    hp.eq_of_length_le (hextra x hx).1.length_le
  rw [below_entries, hu, Paths.below_append, Paths.below_append, hold, hdirs, Paths.below_cons_self,
    Paths.below_under fun x hx => (sub.named x hx).1]
  rfl

theorem put?_same (h : t.put? p e sub = some u) (hq : Paths.Apart p q) : Same t u q := by
  obtain ⟨_, _, _, _, extra, hu, hextra⟩ := put?_entries h
  have hno : ∀ x ∈ extra, ¬ q <+: x.1 := fun x hx hp => hq.2 (hp.trans (hextra x hx).1)
  refine ⟨at?_congr fun e' => ?_, ext_entries ?_⟩
  · have hpq : q ≠ p := hq.ne.symm
    have hex : (q, e') ∉ extra := fun hx => hno _ hx (List.prefix_refl _)
    have hunder : (q, e') ∉ Paths.under p sub.entries := fun hx => by
      obtain ⟨r, rfl, _⟩ := Paths.mem_under.mp hx
      exact hq.1 (List.prefix_append _ _)
    simp [hu, hpq, hex, hunder]
  · have hdirs : Paths.below q extra = [] := Paths.below_eq_nil fun x hx hp => absurd hp (hno x hx)
    rw [below_entries, hu, Paths.below_append, Paths.below_append, hdirs, Paths.below_cons_apart _ hq.2,
      Paths.below_under_apart hq]
    simp

end Put

section Moves

variable {src dst : Path}

theorem landing_free (h : t.at? dst = none) : t.landing src dst = dst := by simp [landing, h]

theorem landing_prefix : dst <+: t.landing src dst := by
  unfold landing
  split
  · exact List.prefix_append _ _
  · exact List.prefix_refl _

/-- What `shutil.move` does, wherever it lands. -/
structure Moved (t u : Tree) (src land : Path) : Prop where
  apart : Paths.Apart src land
  free : t.at? land = none
  gone : u.at? src = none
  entry : u.at? land = t.at? src
  below : u.below land = t.below src
  there : t.at? src ≠ none
  same : ∀ q, Paths.Apart src q → Paths.Apart land q → Same t u q

theorem move?_spec (h : t.move? src dst = some u) : Moved t u src (t.landing src dst) := by
  unfold move? at h
  split at h
  · cases h
  rename_i hsrc
  obtain ⟨e, he, hput⟩ := Option.bind_eq_some_iff.mp h
  generalize t.landing src dst = land at *
  have hne : src ≠ [] := fun hnil => hsrc (hnil ▸ List.nil_prefix)
  have hfree := (put?_entries hput).2.1
  rw [at?_without hne, if_neg hsrc] at hfree
  have hapart : Paths.Apart src land := ⟨hsrc, fun hp => by
    rcases hp with ⟨r, rfl⟩
    by_cases hr : r = []
    · subst hr
      simp at hsrc
    · exact absurd (hfree.symm.trans (at?_dir he hr)) (by simp)⟩
  refine ⟨hapart, hfree, ?_, (put?_at hput).trans he.symm, put?_below hput, by simp [he], fun q hq hq' =>
    (same_without hne hq).trans (put?_same hput hq')⟩
  rw [(put?_same hput hapart.symm).entry, at?_without hne, if_pos (List.prefix_refl _)]

/-- A move to a free place. -/
theorem move?_free (hsrc : t.at? src ≠ none) (hdst : t.Free dst) (hapart : Paths.Apart src dst) :
    ∃ u, t.move? src dst = some u := by
  obtain ⟨e, he⟩ := Option.ne_none_iff_exists'.mp hsrc
  have hne : src ≠ [] := fun hnil => hapart.1 (hnil ▸ List.nil_prefix)
  have hfree : (t.without src).Free dst := ⟨hdst.ne, hdst.valid, by
    rw [at?_without hne, if_neg hapart.1]
    exact hdst.free, by
    rw [at?_without hne, if_neg fun hp => hapart.1 (hp.trans (List.dropLast_prefix _))]
    exact hdst.parent⟩
  have hbelow : e = .dir ∨ (t.below src).entries = [] := by
    by_cases hdir : e = .dir
    · exact .inl hdir
    · refine .inr (List.eq_nil_iff_forall_not_mem.mpr fun x hx => hdir ?_)
      obtain ⟨q, e'⟩ := x
      obtain ⟨hq, hx⟩ := Paths.mem_below.mp hx
      exact Option.some.inj (he.symm.trans (at?_dir (at?_of_mem hx) hq))
  rw [move?, landing_free hdst.free, if_neg hapart.1, he]
  exact ⟨_, put?_free hfree hbelow⟩

/-- The directory that something was moved into. -/
theorem move?_into {name : String} (h : t.move? src (p ++ [name]) = some u)
    (hfree : t.at? (p ++ [name]) = none) (hapart : Paths.Apart src p) : ∃ e, t.at? src = some e ∧
      (u.below p).entries =
        (t.below p).entries ++ ([name], e) :: Paths.under [name] (t.below src).entries := by
  unfold move? at h
  rw [landing_free hfree] at h
  split at h
  · cases h
  obtain ⟨e, he, hput⟩ := Option.bind_eq_some_iff.mp h
  obtain ⟨_, _, _, _, extra, hu, hextra⟩ := put?_entries hput
  have hdirs : Paths.below p extra = [] := by
    refine Paths.below_eq_nil fun x hx hp => ?_
    obtain ⟨hpre, hne⟩ := hextra x hx
    refine hp.eq_of_length_le (Nat.le_of_lt_succ ?_)
    have hlt := lt_of_le_of_ne hpre.length_le fun hlen => hne (hpre.eq_of_length hlen)
    simpa using hlt
  have hself : Paths.below p [(p ++ [name], e)] = [([name], e)] := by simp [Paths.below]
  refine ⟨e, he, ?_⟩
  rw [below_entries, hu, ← List.singleton_append, Paths.below_append, Paths.below_append,
    Paths.below_append, hdirs, hself, Paths.below_under_append (by simp), without_entries,
    Paths.below_without_apart hapart]
  simp

/-- What lies above the path that was moved is still there. -/
theorem move?_above (h : t.move? src dst = some u) (hup : p <+: src) (hne : p ≠ src)
    (hapart : Paths.Apart (t.landing src dst) p) : u.at? p = t.at? p := by
  unfold move? at h
  split at h
  · cases h
  rename_i hsrc
  obtain ⟨e, _, hput⟩ := Option.bind_eq_some_iff.mp h
  have hnil : src ≠ [] := fun hnil => hsrc (hnil ▸ List.nil_prefix)
  rw [(put?_same hput hapart).entry, at?_without hnil, if_neg fun hp => hne (hup.eq_of_length_le hp.length_le)]

/-- The directory that something was moved out of. -/
theorem move?_out (h : t.move? (p ++ q) dst = some u) (hapart : Paths.Apart (t.landing (p ++ q) dst) p) :
    (u.below p).entries = Paths.without q (t.below p).entries := by
  unfold move? at h
  split at h
  · cases h
  obtain ⟨e, _, hput⟩ := Option.bind_eq_some_iff.mp h
  rw [(put?_same hput hapart).below, below_entries, without_entries, Paths.below_without_append]
  rfl

theorem copytree?_eq_some : t.copytree? src dst = some u ↔ t.at? src = some .dir ∧ ¬ src <+: dst ∧
    (t.below src).hasSymlink = false ∧ t.put? dst .dir (t.below src) = some u := by
  unfold copytree?
  split <;> rename_i h
  · simp [h]
  · simp only [reduceCtorEq, false_iff]
    exact fun hu => h ⟨hu.1, hu.2.1, hu.2.2.1⟩

/-- What moving a directory to a free place by `replace` does. -/
theorem replace?_spec (h : t.replace? src dst = some u) (hdst : t.at? dst = none) :
    Moved t u src dst := by
  unfold replace? at h
  split at h
  · rename_i hc
    rw [hdst, if_neg (by simp)] at h
    have hne : src ≠ [] := fun hnil => hc.2 (hnil ▸ List.nil_prefix)
    have hput : (t.without src).put? dst .dir (t.below src) = some u := by
      obtain ⟨hfree, he, hu⟩ := graft?_eq_some.mp h
      rw [put?_free hfree he]
      exact congrArg some (ext_entries hu.symm)
    have hapart : Paths.Apart src dst := ⟨hc.2, fun hp => by
      exact absurd (hdst.symm.trans (at?_above hc.1 hp)) (by simp)⟩
    refine ⟨hapart, hdst, ?_, (put?_at hput).trans hc.1.symm, put?_below hput, by simp [hc.1], fun q hq hq' =>
      (same_without hne hq).trans (put?_same hput hq')⟩
    rw [(put?_same hput hapart.symm).entry, at?_without hne, if_pos (List.prefix_refl _)]
  · cases h

theorem rmtree?_eq_some : t.rmtree? p = some u ↔ t.at? p = some .dir ∧ u = t.without p := by
  simp [rmtree?, eq_comm]

end Moves

end Tree

end EnterpriseCopilot.Plugin
