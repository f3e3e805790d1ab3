import EnterpriseCopilot.Plugin.Operations

/-! What the programs of the registry do to the disk, step by step. -/

namespace EnterpriseCopilot.Plugin

open EnterpriseCopilot.Lib EnterpriseCopilot.Python

abbrev Log := Exchange Command Reply

/-- Runs in which every choice meets `P`. -/
abbrev Exec {α : Type} (P : Choice → Prop) (p : Code α) : Disk → Log → Except PyError α → Disk → Prop :=
  Program.Exec (fun d c (ch : Subtype P) => Disk.apply d c ch) p

/-- Commands can fail for reasons that are not on the disk. -/
def MayFail (P : Choice → Prop) : Prop := ∃ ch, P ch ∧ ch.failure ≠ none

section Requests

variable {P : Choice → Prop} {s t : Disk} {log : Log} {src dst p : Path} {ch : Subtype P}

theorem attempt_cases {result : Option Disk} {o : Except PyError Unit}
    (h : ch.1.attempt s result = (o, t)) :
    (o = .ok () ∧ result = some t) ∨ ∃ e, o = .error e ∧ t = s ∧ (MayFail P ∨ result = none) := by
  unfold Choice.attempt at h
  cases hfailure : ch.1.failure with
  | some e =>
    rw [hfailure] at h
    cases h
    exact .inr ⟨e, rfl, rfl, .inl ⟨ch, ch.2, by simp [hfailure]⟩⟩
  | none =>
    rw [hfailure] at h
    cases result with
    | some d =>
      cases h
      exact .inl ⟨rfl, rfl⟩
    | none =>
      cases h
      exact .inr ⟨osError, rfl, rfl, .inr rfl⟩

theorem answer_cases {α : Type} (ch : Subtype P) (result : Except PyError α) :
    ch.1.answer result = result ∨ MayFail P := by
  unfold Choice.answer
  split
  · rename_i e hfailure
    exact .inr ⟨ch, ch.2, by simp [hfailure]⟩
  · exact .inl rfl

theorem answer_ok {α : Type} {result : Except PyError α} {a : α} (h : ch.1.answer result = .ok a) :
    result = .ok a := by
  unfold Choice.answer at h
  split at h
  · cases h
  · exact h

/-- A failed move leaves the disk as it was, or something behind. -/
def Halted (s : Disk) (src dst : Path) (halt : Halt) (t : Disk) : Prop :=
  (halt.torn = false ∧ t = s) ∨ (halt.torn = true ∧ ∃ ch, s.torn? ch src dst = some t)

theorem halt_cases {e : PyError} {r : Except Halt Unit} (h : ch.1.halt s src dst e = (r, t)) :
    ∃ halt, r = .error halt ∧ Halted s src dst halt t := by
  unfold Choice.halt at h
  split at h
  · rename_i d' htorn
    cases h
    exact ⟨_, rfl, .inr ⟨rfl, ch.1, htorn⟩⟩
  · cases h
    exact ⟨_, rfl, .inl ⟨rfl, rfl⟩⟩

theorem attemptMove_cases {result : Option Disk} {r : Except Halt Unit}
    (h : ch.1.attemptMove s src dst result = (r, t)) : (r = .ok () ∧ result = some t) ∨
      ∃ halt, r = .error halt ∧ Halted s src dst halt t ∧ (MayFail P ∨ result = none) := by
  unfold Choice.attemptMove at h
  cases hfailure : ch.1.failure with
  | some e =>
    rw [hfailure] at h
    obtain ⟨halt, hr, hhalted⟩ := halt_cases h
    exact .inr ⟨halt, hr, hhalted, .inl ⟨ch, ch.2, by simp [hfailure]⟩⟩
  | none =>
    rw [hfailure] at h
    cases result with
    | some d =>
      cases h
      exact .inl ⟨rfl, rfl⟩
    | none =>
      obtain ⟨halt, hr, hhalted⟩ := halt_cases h
      exact .inr ⟨halt, hr, hhalted, .inr rfl⟩

theorem exec_move {o : Except PyError Unit} (h : Exec P (PluginRegistry.move src dst) s log o t) :
    (o = .ok () ∧ log = [⟨.move src dst, .ok ()⟩] ∧ ∃ now, s.move? src dst now = some t) ∨
      ∃ halt, o = .error halt.error ∧ log = [⟨.move src dst, .error halt⟩] ∧ Halted s src dst halt t ∧
        (MayFail P ∨ s.tree.move? src dst = none) := by
  obtain ⟨ch, rest, rfl, hrest⟩ := Program.exec_issue.mp h
  obtain ⟨rfl, ho, ht⟩ := Program.exec_ofExcept.mp hrest
  generalize hr : (s.apply (.move src dst) ch.1).1 = r at ho ⊢
  obtain ⟨rfl, hsome⟩ | ⟨halt, rfl, hhalted, hwhy⟩ := attemptMove_cases (Prod.ext hr ht.symm)
  · exact .inl ⟨ho, rfl, ch.1.now, hsome⟩
  · exact .inr ⟨halt, ho, rfl, hhalted, hwhy.imp_right fun hnone => by simpa [Disk.move?] using hnone⟩

theorem exec_replace {o : Except PyError Unit} (h : Exec P (PluginRegistry.replace src dst) s log o t) :
    log = [⟨.replace src dst, o⟩] ∧
      ((o = .ok () ∧ ∃ now, s.replace? src dst now = some t) ∨ ∃ e, o = .error e ∧ t = s) := by
  obtain ⟨ch, rest, rfl, hrest⟩ := Program.exec_issue.mp h
  obtain ⟨rfl, ho, ht⟩ := Program.exec_ofExcept.mp hrest
  have hcases := attempt_cases (Prod.ext ho.symm ht.symm)
  refine ⟨by rw [ho], hcases.imp (fun ⟨hok, hsome⟩ => ⟨hok, ch.1.now, hsome⟩) ?_⟩
  exact fun ⟨e, herr, hsame, _⟩ => ⟨e, herr, hsame⟩

theorem exec_rmtree {o : Except PyError Unit} (h : Exec P (PluginRegistry.rmtree p) s log o t) :
    log = [⟨.rmtree p, o⟩] ∧
      ((o = .ok () ∧ ∃ now, s.rmtree? p now = some t) ∨ ∃ e, o = .error e ∧ t = s) := by
  obtain ⟨ch, rest, rfl, hrest⟩ := Program.exec_issue.mp h
  obtain ⟨rfl, ho, ht⟩ := Program.exec_ofExcept.mp hrest
  have hcases := attempt_cases (Prod.ext ho.symm ht.symm)
  refine ⟨by rw [ho], hcases.imp (fun ⟨hok, hsome⟩ => ⟨hok, ch.1.now, hsome⟩) ?_⟩
  exact fun ⟨e, herr, hsame, _⟩ => ⟨e, herr, hsame⟩

theorem exec_copytree {o : Except PyError Unit}
    (h : Exec P (PluginRegistry.copytree src dst) s log o t) : log = [⟨.copytree src dst, o⟩] ∧
      ((o = .ok () ∧ ∃ now, s.copytree? src dst now = some t) ∨ ∃ e ch, o = .error e ∧
        t = s.scraps ch dst ∧ (MayFail P ∨ s.tree.copytree? src dst = none)) := by
  obtain ⟨ch, rest, rfl, hrest⟩ := Program.exec_issue.mp h
  obtain ⟨rfl, ho, ht⟩ := Program.exec_ofExcept.mp hrest
  have hpair : ch.1.attemptCopy s dst (s.copytree? src dst ch.1.now) = (o, t) :=
    Prod.ext ho.symm ht.symm
  refine ⟨by rw [ho], ?_⟩
  unfold Choice.attemptCopy at hpair
  cases hfailure : ch.1.failure with
  | some e =>
    rw [hfailure] at hpair
    cases hpair
    exact .inr ⟨e, ch, rfl, rfl, .inl ⟨ch, ch.2, by simp [hfailure]⟩⟩
  | none =>
    rw [hfailure] at hpair
    cases hcopy : s.copytree? src dst ch.1.now with
    | some d =>
      rw [hcopy] at hpair
      cases hpair
      exact .inl ⟨rfl, ch.1.now, hcopy⟩
    | none =>
      rw [hcopy] at hpair
      cases hpair
      exact .inr ⟨osError, ch, rfl, rfl, .inr (by simpa [Disk.copytree?] using hcopy)⟩

theorem exec_read_tree {o : Except PyError (Option Tree)}
    (h : Exec P (PluginRegistry.read_tree p) s log o t) :
    log = [⟨.read_tree p, o⟩] ∧ t = s ∧ (o = .ok (s.dir? p) ∨ ∃ e, o = .error e ∧ MayFail P) := by
  obtain ⟨ch, rest, rfl, hrest⟩ := Program.exec_issue.mp h
  obtain ⟨rfl, ho, ht⟩ := Program.exec_ofExcept.mp hrest
  refine ⟨by rw [ho], ht, ?_⟩
  cases o with
  | ok found => exact .inl (answer_ok ho.symm).symm
  | error e =>
    rcases answer_cases ch (.ok (s.dir? p)) with hsame | hmay
    · exact absurd (ho.trans hsame) (by simp)
    · exact .inr ⟨e, rfl, hmay⟩

theorem read_tree_ok {found : Option Tree} (h : Exec P (PluginRegistry.read_tree p) s log (.ok found) t) :
    found = s.dir? p := by
  obtain ⟨_, _, hok | ⟨_, herr, _⟩⟩ := exec_read_tree h
  · exact Except.ok.inj hok
  · cases herr

theorem exec_glob {dir : Path} {pattern : String} {o : Except PyError (List (Path × Int))}
    (h : Exec P (PluginRegistry.glob dir pattern) s log o t) : log = [⟨.glob dir pattern, o⟩] ∧ t = s ∧
      ((∃ ch, s.glob ch dir pattern = o) ∨ ∃ e, o = .error e ∧ MayFail P) := by
  obtain ⟨ch, rest, rfl, hrest⟩ := Program.exec_issue.mp h
  obtain ⟨rfl, ho, ht⟩ := Program.exec_ofExcept.mp hrest
  refine ⟨by rw [ho], ht, ?_⟩
  cases o with
  | ok found => exact .inl ⟨ch, answer_ok ho.symm⟩
  | error e =>
    rcases answer_cases ch (s.glob ch dir pattern) with hsame | hmay
    · exact .inl ⟨ch, (ho.trans hsame).symm⟩
    · exact .inr ⟨e, rfl, hmay⟩

theorem exec_read_records {o : Except PyError Records}
    (h : Exec P PluginRegistry._read_records s log o t) :
    log = [⟨.read_records, o⟩] ∧ t = s ∧ (o = s.records ∨ ∃ e, o = .error e ∧ MayFail P) := by
  obtain ⟨ch, rest, rfl, hrest⟩ := Program.exec_issue.mp h
  obtain ⟨rfl, ho, ht⟩ := Program.exec_ofExcept.mp hrest
  refine ⟨by rw [ho], ht, ?_⟩
  cases o with
  | ok records => exact .inl (answer_ok ho.symm).symm
  | error e =>
    rcases answer_cases ch s.records with hsame | hmay
    · exact .inl (ho.trans hsame)
    · exact .inr ⟨e, rfl, hmay⟩

theorem read_records_ok {records : Records}
    (h : Exec P PluginRegistry._read_records s log (.ok records) t) : s.records = .ok records := by
  obtain ⟨_, _, hok | ⟨_, herr, _⟩⟩ := exec_read_records h
  · exact hok.symm
  · cases herr

theorem exec_write_records {records : Records} {o : Except PyError Unit}
    (h : Exec P (PluginRegistry._write_records records) s log o t) :
    log = [⟨.write_records records, o⟩] ∧ ((o = .ok () ∧ t = { s with records := .ok records }) ∨
      ∃ e, o = .error e ∧ t = s ∧ MayFail P) := by
  obtain ⟨ch, rest, rfl, hrest⟩ := Program.exec_issue.mp h
  obtain ⟨rfl, ho, ht⟩ := Program.exec_ofExcept.mp hrest
  have hcases := attempt_cases (Prod.ext ho.symm ht.symm)
  refine ⟨by rw [ho], hcases.imp (fun ⟨hok, hsome⟩ => ⟨hok, (Option.some.inj hsome).symm⟩) ?_⟩
  rintro ⟨e, herr, hsame, hmay | hnone⟩
  · exact ⟨e, herr, hsame, hmay⟩
  · cases hnone

/-- An event leaves the tree and the records alone. -/
theorem exec_append_event {action name version actor : String} {o : Except PyError Unit}
    (h : Exec P (PluginRegistry._append_event action name version actor) s log o t) :
    t.tree = s.tree ∧ t.mtime = s.mtime ∧ t.records = s.records ∧
      (o = .ok () ∨ ∃ e, o = .error e ∧ MayFail P) ∧ ∃ created_at, log = [⟨.isoformat, created_at⟩,
        ⟨.append_event ⟨action, name, version, actor, created_at⟩, o⟩] := by
  obtain ⟨ch, rest, rfl, hrest⟩ := Program.exec_issue.mp h
  obtain ⟨ch', rest', rfl, hrest'⟩ := Program.exec_issue.mp hrest
  obtain ⟨rfl, ho, ht⟩ := Program.exec_ofExcept.mp hrest'
  have hcases := attempt_cases (Prod.ext ho.symm ht.symm)
  obtain ⟨hok, hsome⟩ | ⟨e, herr, rfl, hmay | hnone⟩ := hcases
  · cases hsome
    exact ⟨rfl, rfl, rfl, .inl hok, ch.1.iso, by rw [ho]; rfl⟩
  · exact ⟨rfl, rfl, rfl, .inr ⟨e, herr, hmay⟩, ch.1.iso, by rw [ho]; rfl⟩
  · cases hnone

section Questions

variable {α : Type} {o : Except PyError α}

theorem exec_exists_at {k : Bool → Code α} (h : Exec P (Program.request (.exists_at p) >>= k) s log o t) :
    ∃ rest, log = ⟨.exists_at p, (s.tree.at? p).isSome⟩ :: rest ∧ Exec P (k (s.tree.at? p).isSome) s rest o t := by
  obtain ⟨_, rest, hlog, hrest⟩ := Program.exec_issue.mp h
  exact ⟨rest, hlog, hrest⟩

theorem exec_is_dir {k : Bool → Code α} (h : Exec P (Program.request (.is_dir p) >>= k) s log o t) :
    ∃ rest, log = ⟨.is_dir p, decide (s.tree.at? p = some .dir)⟩ :: rest ∧
      Exec P (k (decide (s.tree.at? p = some .dir))) s rest o t := by
  obtain ⟨_, rest, hlog, hrest⟩ := Program.exec_issue.mp h
  exact ⟨rest, hlog, hrest⟩

theorem exec_strftime {k : Stamp → Code α} (h : Exec P (Program.request .strftime >>= k) s log o t) :
    ∃ stamp rest, log = ⟨.strftime, stamp⟩ :: rest ∧ Exec P (k stamp) s rest o t := by
  obtain ⟨ch, rest, hlog, hrest⟩ := Program.exec_issue.mp h
  exact ⟨ch.1.stamp, rest, hlog, hrest⟩

theorem exec_uuid4 {k : Hex 32 → Code α} (h : Exec P (Program.request .uuid4 >>= k) s log o t) :
    ∃ hex rest, log = ⟨.uuid4, hex⟩ :: rest ∧ Exec P (k hex) s rest o t := by
  obtain ⟨ch, rest, hlog, hrest⟩ := Program.exec_issue.mp h
  exact ⟨ch.1.hex, rest, hlog, hrest⟩

theorem exec_isoformat {k : String → Code α} (h : Exec P (Program.request .isoformat >>= k) s log o t) :
    ∃ iso rest, log = ⟨.isoformat, iso⟩ :: rest ∧ Exec P (k iso) s rest o t := by
  obtain ⟨ch, rest, hlog, hrest⟩ := Program.exec_issue.mp h
  exact ⟨ch.1.iso, rest, hlog, hrest⟩

/-- The first part raises, or the second goes on from where it ended. -/
theorem exec_then {β : Type} {p : Code β} {k : β → Code α} (h : Exec P (p >>= k) s log o t) :
    (∃ e, Exec P p s log (.error e) t ∧ o = .error e) ∨
      ∃ b u l₁ l₂, Exec P p s l₁ (.ok b) u ∧ Exec P (k b) u l₂ o t ∧ log = l₁ ++ l₂ :=
  Program.exec_bind.mp h

theorem exec_check {β : Type} {x : Except PyError β} {k : β → Code α}
    (h : Exec P (Program.ofExcept x >>= k) s log o t) :
    (∃ e, x = .error e ∧ log = [] ∧ o = .error e ∧ t = s) ∨ ∃ b, x = .ok b ∧ Exec P (k b) s log o t := by
  cases x with
  | error e =>
    obtain ⟨rfl, rfl, rfl⟩ := Program.exec_throw.mp h
    exact .inl ⟨e, rfl, rfl, rfl, rfl⟩
  | ok b => exact .inr ⟨b, rfl, h⟩

end Questions

end Requests

section Changes

variable {s t : Disk} {src dst p : Path} {now : Int}

theorem move?_spec (h : s.move? src dst now = some t) :
    Tree.Moved s.tree t.tree src (s.tree.landing src dst) ∧ t.records = s.records ∧
      t.mtime = s.times src (s.tree.landing src dst) [src.dropLast] now := by
  obtain ⟨tree, htree, rfl⟩ := Option.map_eq_some_iff.mp h
  exact ⟨Tree.move?_spec htree, rfl, rfl⟩

theorem replace?_spec (h : s.replace? src dst now = some t) (hdst : s.tree.at? dst = none) :
    Tree.Moved s.tree t.tree src dst ∧ t.records = s.records ∧
      t.mtime = s.times src dst [src.dropLast] now := by
  obtain ⟨tree, htree, rfl⟩ := Option.map_eq_some_iff.mp h
  exact ⟨Tree.replace?_spec htree hdst, rfl, rfl⟩

theorem copytree?_spec (h : s.copytree? src dst now = some t) : s.tree.at? src = some .dir ∧
    s.tree.put? dst .dir (s.tree.below src) = some t.tree ∧ t.records = s.records ∧
      t.mtime = s.times src dst [] now := by
  obtain ⟨tree, htree, rfl⟩ := Option.map_eq_some_iff.mp h
  obtain ⟨hdir, _, _, hput⟩ := Tree.copytree?_eq_some.mp htree
  exact ⟨hdir, hput, rfl, rfl⟩

theorem rmtree?_spec (h : s.rmtree? p now = some t) : s.tree.at? p = some .dir ∧
    t.tree = s.tree.without p ∧ t.records = s.records ∧
      t.mtime = fun q => if q = p.dropLast then now else s.mtime q := by
  obtain ⟨tree, htree, rfl⟩ := Option.map_eq_some_iff.mp h
  obtain ⟨hdir, rfl⟩ := Tree.rmtree?_eq_some.mp htree
  exact ⟨hdir, rfl, rfl, rfl⟩

theorem scraps_spec (s : Disk) (ch : Choice) (dst : Path) : (s.scraps ch dst).records = s.records ∧
    ((s.scraps ch dst).tree = s.tree ∨
      ∃ sub, s.tree.put? dst .dir sub = some (s.scraps ch dst).tree) := by
  unfold Disk.scraps
  split
  · rename_i tree hput
    obtain ⟨sub, _, hput⟩ := Option.bind_eq_some_iff.mp hput
    exact ⟨rfl, .inr ⟨sub, hput⟩⟩
  · exact ⟨rfl, .inl rfl⟩

/-- Everything apart from the paths is as it was. -/
def Frame (paths : List Path) (s t : Tree) : Prop :=
  ∀ q, (∀ p ∈ paths, Paths.Apart p q) → Tree.Same s t q

variable {a b c : Tree} {paths more : List Path}

theorem Frame.refl (paths : List Path) (a : Tree) : Frame paths a a := fun q _ => .refl a q

theorem Frame.mono (h : Frame paths a b) (hsub : paths ⊆ more) : Frame more a b :=
  fun q hq => h q fun p hp => hq p (hsub hp)

theorem Frame.trans (h : Frame paths a b) (h' : Frame paths b c) : Frame paths a c :=
  fun q hq => (h q hq).trans (h' q hq)

theorem frame_put {e : Entry} {sub : Tree} (h : a.put? p e sub = some b) : Frame [p] a b :=
  fun _ hq => Tree.put?_same h (hq p (by simp))

theorem frame_without (hp : p ≠ []) : Frame [p] a (a.without p) :=
  fun _ hq => Tree.same_without hp (hq p (by simp))

theorem frame_moved (h : Tree.Moved a b src (a.landing src dst)) : Frame [src, dst] a b := by
  intro q hq
  obtain ⟨rest, hrest⟩ := Tree.landing_prefix (t := a)
  refine h.same q (hq src (by simp)) (hrest ▸ ?_)
  exact ((hq dst (by simp)).symm.append_right rest).symm

end Changes

section Failures

/-- The command failed. -/
def failed : (c : Command) → Reply c → Bool
  | .read_tree _, r => !r.isOk
  | .exists_at _, _ | .is_dir _, _ => false
  | .move _ _, r => !r.isOk
  | .copytree _ _, r | .replace _ _, r | .rmtree _, r => !r.isOk
  | .glob _ _, r => !r.isOk
  | .read_records, r => !r.isOk
  | .write_records _, r | .append_event _, r => !r.isOk
  | .strftime, _ => false
  | .uuid4, _ => false
  | .isoformat, _ => false

/-- How many commands failed. -/
def failures (log : Log) : Nat := log.countP fun x => failed x.1 x.2

@[simp] theorem failures_nil : failures [] = 0 := rfl

@[simp] theorem failures_cons (c : Command) (r : Reply c) (log : Log) :
    failures (⟨c, r⟩ :: log) = failures log + if failed c r then 1 else 0 :=
  List.countP_cons

@[simp] theorem failures_append (log log' : Log) : failures (log ++ log') = failures log + failures log' :=
  List.countP_append

/-- The command is a move that failed and left something behind. -/
def tears : (c : Command) → Reply c → Bool
  | .move _ _, .error halt => halt.torn
  | _, _ => false

def Torn (log : Log) : Prop := ∃ x ∈ log, tears x.1 x.2 = true

instance (log : Log) : Decidable (Torn log) := inferInstanceAs (Decidable (∃ x ∈ log, _))

@[simp] theorem not_torn_nil : ¬ Torn [] := fun ⟨_, hx, _⟩ => List.not_mem_nil hx

@[simp] theorem torn_append {l₁ l₂ : Log} : Torn (l₁ ++ l₂) ↔ Torn l₁ ∨ Torn l₂ := by
  simp only [Torn, List.mem_append, or_and_right, exists_or]

@[simp] theorem torn_cons {x : (c : Command) × Reply c} {l : Log} :
    Torn (x :: l) ↔ tears x.1 x.2 = true ∨ Torn l := by
  simp only [Torn, List.mem_cons, or_and_right, exists_or, exists_eq_left]

/-- What tears has failed. -/
theorem Torn.failures {log : Log} (h : Torn log) : 1 ≤ failures log := by
  obtain ⟨⟨c, r⟩, hx, htears⟩ := h
  refine List.countP_pos_iff.mpr ⟨_, hx, ?_⟩
  cases c with
  | move src dst =>
    cases r with
    | ok _ => cases htears
    | error halt => rfl
  | _ => cases htears

theorem Halted.same {halt : Halt} {src dst : Path} {s t : Disk} (h : Halted s src dst halt t)
    (hlog : ¬ Torn [⟨.move src dst, .error halt⟩]) : t = s := by
  obtain ⟨_, rfl⟩ | ⟨htorn, _⟩ := h
  · rfl
  · exact absurd ⟨_, List.mem_singleton_self _, htorn⟩ hlog

end Failures

section Programs

variable {P : Choice → Prop} {s t : Disk} {log : Log} {R : PluginRegistry} {name : String}
  {source staging destination : Path} {rollback_path : Option Path}

/-- The backup of a version, under its name. -/
def backup_path (R : PluginRegistry) (name : String) (stamp : Stamp) (hex : Hex 32) : Path :=
  join R.rollback_root (backup_name name stamp hex)

/-- What `set_aside` does: nothing, a move to the backup, or a move that fails. -/
inductive SetAside (R : PluginRegistry) (name : String) (destination : Path) (s : Disk) :
    Log → Except PyError (Option Path) → Disk → Prop
  | absent : s.tree.at? destination = none →
      SetAside R name destination s [⟨.exists_at destination, false⟩] (.ok none) s
  | moved {stamp hex now t} : s.tree.at? destination ≠ none →
      s.move? destination (backup_path R name stamp hex) now = some t →
      SetAside R name destination s [⟨.exists_at destination, true⟩, ⟨.strftime, stamp⟩, ⟨.uuid4, hex⟩,
        ⟨.move destination (backup_path R name stamp hex), .ok ()⟩] (.ok (some (backup_path R name stamp hex))) t
  | failed {stamp hex halt t} : s.tree.at? destination ≠ none →
      Halted s destination (backup_path R name stamp hex) halt t →
      SetAside R name destination s [⟨.exists_at destination, true⟩, ⟨.strftime, stamp⟩, ⟨.uuid4, hex⟩,
        ⟨.move destination (backup_path R name stamp hex), .error halt⟩] (.error halt.error) t

theorem exec_set_aside {o : Except PyError (Option Path)}
    (h : Exec P (R.set_aside name destination) s log o t) : SetAside R name destination s log o t := by
  obtain ⟨rest, rfl, hrest⟩ := exec_exists_at h
  by_cases hthere : s.tree.at? destination = none
  · rw [hthere] at hrest ⊢
    obtain ⟨rfl, rfl, rfl⟩ := Program.exec_pure.mp hrest
    exact .absent hthere
  · rw [Option.isSome_iff_ne_none.mpr hthere] at hrest ⊢
    obtain ⟨stamp, rest₁, rfl, hrest₁⟩ := exec_strftime hrest
    obtain ⟨hex, rest₂, rfl, hrest₂⟩ := exec_uuid4 hrest₁
    obtain ⟨e, hmove, rfl⟩ | ⟨_, u, l₁, l₂, hmove, hret, rfl⟩ := exec_then hrest₂
    · obtain ⟨hok, _⟩ | ⟨halt, heq, rfl, hhalted, _⟩ := exec_move hmove
      · cases hok
      · obtain rfl := Except.error.inj heq
        exact .failed hthere hhalted
    · obtain ⟨rfl, rfl, rfl⟩ := Program.exec_pure.mp hret
      obtain ⟨_, rfl, now, hnow⟩ | ⟨_, herr, _⟩ := exec_move hmove
      · exact .moved hthere hnow
      · cases herr

theorem SetAside.whole (h : SetAside R name destination s log (.ok rollback_path) t) : ¬ Torn log := by
  cases h <;> simp [tears]

/-- The copy is gone. -/
def Discarded (staging : Path) (s t : Disk) : Prop :=
  (s.tree.at? staging = none ∧ t = s) ∨ ∃ now, s.rmtree? staging now = some t

/-- The version that was set aside is back, unless something has its place. -/
def BroughtBack (destination : Path) (rollback_path : Option Path) (s t : Disk) : Prop :=
  match rollback_path with
  | none => t = s
  | some path => (s.tree.at? destination ≠ none ∧ t = s) ∨
      (s.tree.at? destination = none ∧ ∃ now, s.move? path destination now = some t)

theorem exec_discard {o : Except PyError Unit} (h : Exec P (PluginRegistry.discard staging) s log o t) :
    (o = .ok () ∧ Discarded staging s t) ∨ (∃ e, o = .error e ∧ t = s ∧ failures log = 1) := by
  obtain ⟨rest, rfl, hrest⟩ := exec_exists_at h
  cases hthere : s.tree.at? staging with
  | none =>
    rw [hthere] at hrest
    obtain ⟨rfl, rfl, rfl⟩ := Program.exec_pure.mp hrest
    exact .inl ⟨rfl, .inl ⟨hthere, rfl⟩⟩
  | some found =>
    rw [hthere] at hrest
    obtain ⟨rfl, ⟨rfl, hnow⟩ | ⟨e, rfl, rfl⟩⟩ := exec_rmtree hrest
    · exact .inl ⟨rfl, .inr hnow⟩
    · exact .inr ⟨e, rfl, rfl, rfl⟩

theorem exec_bring_back {o : Except PyError Unit}
    (h : Exec P (PluginRegistry.bring_back destination rollback_path) s log o t) :
    (o = .ok () ∧ ¬ Torn log ∧ BroughtBack destination rollback_path s t) ∨
      (∃ e, o = .error e ∧ failures log = 1 ∧ ∃ path ∈ rollback_path, ∃ halt, Halted s path destination halt t ∧
        (halt.torn = true → Torn log)) := by
  cases rollback_path with
  | none =>
    obtain ⟨rfl, rfl, rfl⟩ := Program.exec_pure.mp h
    exact .inl ⟨rfl, not_torn_nil, rfl⟩
  | some path =>
    obtain ⟨rest, rfl, hrest⟩ := exec_exists_at h
    cases hthere : s.tree.at? destination with
    | none =>
      rw [hthere] at hrest
      obtain ⟨rfl, rfl, hnow⟩ | ⟨halt, rfl, rfl, hhalted, _⟩ := exec_move hrest
      · exact .inl ⟨rfl, by simp [tears], .inr ⟨hthere, hnow⟩⟩
      · exact .inr ⟨_, rfl, rfl, path, rfl, halt, hhalted, fun htorn => by simp [tears, htorn]⟩
    | some found =>
      rw [hthere] at hrest
      obtain ⟨rfl, rfl, rfl⟩ := Program.exec_pure.mp hrest
      exact .inl ⟨rfl, by simp [tears], .inl ⟨by simp [hthere], rfl⟩⟩

/-- What is discarded is not moved. -/
theorem discard_whole {o : Except PyError Unit} (h : Exec P (PluginRegistry.discard staging) s log o t) :
    ¬ Torn log := by
  obtain ⟨rest, rfl, hrest⟩ := exec_exists_at h
  cases hthere : s.tree.at? staging with
  | none =>
    rw [hthere] at hrest
    obtain ⟨rfl, rfl, rfl⟩ := Program.exec_pure.mp hrest
    simp [tears]
  | some found =>
    rw [hthere] at hrest
    obtain ⟨rfl, _⟩ := exec_rmtree hrest
    simp [tears]

/-- The handler ends, or a command of it fails, which for a move that leaves something behind is `torn`. -/
inductive Recovered (torn : Prop) (staging destination : Path) (rollback_path : Option Path) (s : Disk) :
    Nat → Disk → Prop
  | done {u t} : Discarded staging s u → BroughtBack destination rollback_path u t →
      Recovered torn staging destination rollback_path s 0 t
  | left {n t} : t = s ∨ Discarded staging s t → 1 ≤ n → Recovered torn staging destination rollback_path s n t
  | halted {n u path halt t} : Discarded staging s u → path ∈ rollback_path → Halted u path destination halt t →
      (halt.torn = true → torn) → 1 ≤ n → Recovered torn staging destination rollback_path s n t

theorem Recovered.mono {torn torn' : Prop} {n : Nat} (h : Recovered torn staging destination rollback_path s n t)
    (himp : torn → torn') : Recovered torn' staging destination rollback_path s n t := by
  cases h with
  | done hdiscarded hbrought => exact .done hdiscarded hbrought
  | left hleft hn => exact .left hleft hn
  | halted hdiscarded hpath hhalted htorn hn => exact .halted hdiscarded hpath hhalted (fun h => himp (htorn h)) hn

theorem exec_recover {e : PyError} {o : Except PyError Unit}
    (h : Exec P (PluginRegistry.recover staging destination rollback_path e) s log o t) :
    (∃ e', o = .error e') ∧ ∃ n ≤ failures log, Recovered (Torn log) staging destination rollback_path s n t ∧
      (Torn log → 1 ≤ n) := by
  obtain ⟨e', hdiscard, rfl⟩ | ⟨_, u, l₁, l₂, hdiscard, hrest, rfl⟩ := exec_then h
  · obtain ⟨hok, _⟩ | ⟨_, _, rfl, hfail⟩ := exec_discard hdiscard
    · cases hok
    · exact ⟨⟨e', rfl⟩, _, le_refl _, .left (.inl rfl) hfail.ge, Torn.failures⟩
  obtain ⟨_, hdiscarded⟩ | ⟨_, herr, _⟩ := exec_discard hdiscard
  · obtain ⟨e', hback, rfl⟩ | ⟨_, v, l₃, l₄, hback, hthrow, rfl⟩ := exec_then hrest
    · obtain ⟨hok, _⟩ | ⟨_, _, hfail, path, hpath, halt, hhalted, htorn⟩ := exec_bring_back hback
      · cases hok
      · refine ⟨⟨e', rfl⟩, _, le_refl _, .halted hdiscarded hpath hhalted
          (fun h => torn_append.mpr (.inr (htorn h))) ?_, Torn.failures⟩
        rw [failures_append, hfail]
        omega
    · obtain ⟨rfl, rfl, rfl⟩ := Program.exec_throw.mp hthrow
      obtain ⟨_, hwhole, hbrought⟩ | ⟨_, herr, _⟩ := exec_bring_back hback
      · refine ⟨⟨e, rfl⟩, 0, Nat.zero_le _, .done hdiscarded hbrought, ?_⟩
        have hquiet := discard_whole hdiscard
        simp [hwhole, hquiet]
      · cases herr
  · cases herr

/-- Where the handler starts: with what a failed copy left, or with a copy that was not put in
place. -/
def Broken (source staging : Path) (s u : Disk) : Prop :=
  (∃ ch, u = s.scraps ch staging) ∨ ∃ now, s.copytree? source staging now = some u

theorem exec_stage {o : Except PyError Unit}
    (h : Exec P (PluginRegistry.stage source staging destination rollback_path) s log o t) :
    (o = .ok () ∧ ∃ u now now', s.copytree? source staging now = some u ∧
      u.replace? staging destination now' = some t) ∨
    ∃ e u n, o = .error e ∧ 1 + n ≤ failures log ∧ Broken source staging s u ∧
      Recovered (Torn log) staging destination rollback_path u n t ∧ (Torn log → 1 ≤ n) := by
  obtain ⟨_, hx, rfl⟩ | ⟨e, u, l₁, l₂, hx, hrec, rfl⟩ := Program.exec_tryCatch.mp h
  · obtain ⟨e', _, herr⟩ | ⟨_, v, l₁, l₂, hcopy, hrep, rfl⟩ := exec_then hx
    · cases herr
    · obtain ⟨rfl, ⟨_, now, hnow⟩ | ⟨_, _, herr, _⟩⟩ := exec_copytree hcopy
      · obtain ⟨rfl, ⟨_, now', hnow'⟩ | ⟨_, herr, _⟩⟩ := exec_replace hrep
        · exact .inl ⟨rfl, v, now, now', hnow, hnow'⟩
        · cases herr
      · cases herr
  · obtain ⟨⟨e', rfl⟩, n, hn, hrecovered, htorn⟩ := exec_recover hrec
    -- one command failed before the handler
    have hbroken : Broken source staging s u ∧ 1 ≤ failures l₁ ∧ ¬ Torn l₁ := by
      obtain ⟨_, hcopy, _⟩ | ⟨_, v, l₃, l₄, hcopy, hrep, rfl⟩ := exec_then hx
      · obtain ⟨rfl, ⟨hok, _⟩ | ⟨_, ch, _, rfl, _⟩⟩ := exec_copytree hcopy
        · cases hok
        · exact ⟨.inl ⟨ch, rfl⟩, le_refl 1, by simp [tears]⟩
      · obtain ⟨rfl, ⟨_, now, hnow⟩ | ⟨_, _, herr, _⟩⟩ := exec_copytree hcopy
        · obtain ⟨rfl, ⟨hok, _⟩ | ⟨_, _, rfl⟩⟩ := exec_replace hrep
          · cases hok
          · exact ⟨.inr ⟨now, hnow⟩, le_refl 1, by simp [tears]⟩
        · cases herr
    obtain ⟨hbroken, hfail, hwhole⟩ := hbroken
    refine .inr ⟨e', u, n, rfl, ?_, hbroken, hrecovered.mono fun h => torn_append.mpr (.inr h),
      by simpa [hwhole] using htorn⟩
    rw [failures_append]
    omega

/-- The command reads or writes a file of the registry. -/
def indexing : Command → Bool
  | .read_records | .write_records _ | .append_event _ => true
  | _ => false

/-- A file of the registry could not be read or written. -/
def Unindexed (log : Log) : Prop := ∃ x ∈ log, indexing x.1 = true ∧ failed x.1 x.2 = true

theorem Unindexed.failures {log : Log} (h : Unindexed log) : 1 ≤ failures log := by
  obtain ⟨x, hx, _, hfail⟩ := h
  exact List.countP_pos_iff.mpr ⟨x, hx, hfail⟩

theorem unindexed_append {l₁ l₂ : Log} (h : Unindexed l₂) : Unindexed (l₁ ++ l₂) := by
  obtain ⟨x, hx, hfail⟩ := h
  exact ⟨x, List.mem_append_right _ hx, hfail⟩

theorem unindexed_cons {x : (c : Command) × Reply c} {l : Log} (h : Unindexed l) : Unindexed (x :: l) := by
  obtain ⟨y, hy, hfail⟩ := h
  exact ⟨y, List.mem_cons_of_mem _ hy, hfail⟩

theorem exec_enter {action actor : String} {records : Records} {record : PluginRecord}
    {o : Except PyError PluginRecord}
    (h : Exec P (PluginRegistry.enter action actor records record) s log o t) :
    t.tree = s.tree ∧ t.mtime = s.mtime ∧
      ((o = .ok record ∧ t.records = .ok (records.set record.name record)) ∨
        ∃ e, o = .error e ∧ Unindexed log ∧ MayFail P) := by
  obtain ⟨e, hwrite, rfl⟩ | ⟨_, u, l₁, l₂, hwrite, hrest, rfl⟩ := exec_then h
  · obtain ⟨rfl, ⟨hok, _⟩ | ⟨_, _, rfl, hmay⟩⟩ := exec_write_records hwrite
    · cases hok
    · exact ⟨rfl, rfl, .inr ⟨e, rfl, ⟨_, List.mem_singleton_self _, rfl, rfl⟩, hmay⟩⟩
  obtain ⟨rfl, ⟨_, rfl⟩ | ⟨_, herr, _⟩⟩ := exec_write_records hwrite
  · obtain ⟨e, happend, rfl⟩ | ⟨_, v, l₃, l₄, happend, hret, rfl⟩ := exec_then hrest
    · obtain ⟨htree, hmtime, _, hok | ⟨_, _, hmay⟩, created_at, rfl⟩ := exec_append_event happend
      · cases hok
      refine ⟨htree, hmtime, .inr ⟨e, rfl, unindexed_append (unindexed_cons ?_), hmay⟩⟩
      exact ⟨_, List.mem_singleton_self _, rfl, rfl⟩
    · obtain ⟨htree, hmtime, hrecords, _⟩ := exec_append_event happend
      obtain ⟨_, rfl, rfl⟩ := Program.exec_pure.mp hret
      exact ⟨htree, hmtime, .inl ⟨rfl, hrecords⟩⟩
  · cases herr

/-- The copy is in its place. -/
def Placed (source staging destination : Path) (s t : Disk) : Prop :=
  ∃ u now now', s.copytree? source staging now = some u ∧ u.replace? staging destination now' = some t

/-- How an installation goes, for the check `checked` of the source. -/
inductive Installing (R : PluginRegistry) (source : Path) (approved_by : String)
    (expected_integrity : Option String) (s : Disk) : Log → Except PyError PluginRecord → Disk → Prop
  | refused {log e} : ¬ Unindexed log → ¬ Torn log →
      Installing R source approved_by expected_integrity s log (.error e) s
  | unmoved {tree mapping integrity l₀ l₁ e t} :
      checked R.sha256 R.library source (s.dir? source) approved_by expected_integrity =
        .ok (tree, mapping, integrity) →
      ¬ Torn l₀ → ¬ Unindexed (l₀ ++ l₁) →
      SetAside R (text_of (mapping.get "name")) (R.root ++ [text_of (mapping.get "name")]) s l₁ (.error e) t →
      Installing R source approved_by expected_integrity s (l₀ ++ l₁) (.error e) t
  | unplaced {tree mapping integrity rollback_path hex l₀ l₁ l₂ u v n e t} :
      checked R.sha256 R.library source (s.dir? source) approved_by expected_integrity =
        .ok (tree, mapping, integrity) →
      SetAside R (text_of (mapping.get "name")) (R.root ++ [text_of (mapping.get "name")]) s l₁
        (.ok rollback_path) u →
      Broken source (join R.root (staging_name (text_of (mapping.get "name")) hex)) u v →
      1 + n ≤ failures l₂ → (Torn (l₀ ++ l₁ ++ ⟨.uuid4, hex⟩ :: l₂) → 1 ≤ n) →
      ¬ Unindexed (l₀ ++ l₁ ++ ⟨.uuid4, hex⟩ :: l₂) →
      Recovered (Torn (l₀ ++ l₁ ++ ⟨.uuid4, hex⟩ :: l₂)) (join R.root (staging_name (text_of (mapping.get "name")) hex))
        (R.root ++ [text_of (mapping.get "name")]) rollback_path v n t →
      Installing R source approved_by expected_integrity s (l₀ ++ l₁ ++ ⟨.uuid4, hex⟩ :: l₂) (.error e) t
  | placed {tree mapping integrity rollback_path hex l₀ l₁ l₂ u v o t} :
      checked R.sha256 R.library source (s.dir? source) approved_by expected_integrity =
        .ok (tree, mapping, integrity) →
      SetAside R (text_of (mapping.get "name")) (R.root ++ [text_of (mapping.get "name")]) s l₁
        (.ok rollback_path) u →
      Placed source (join R.root (staging_name (text_of (mapping.get "name")) hex))
        (R.root ++ [text_of (mapping.get "name")]) u v →
      t.tree = v.tree → t.mtime = v.mtime →
      ((∃ records installed_at, v.records = .ok records ∧
          o = .ok (record_of mapping integrity installed_at ("/" ++ as_posix source) approved_by) ∧
          t.records = .ok (records.set (text_of (mapping.get "name"))
            (record_of mapping integrity installed_at ("/" ++ as_posix source) approved_by))) ∨
        ∃ e, o = .error e ∧ Unindexed l₂) →
      Installing R source approved_by expected_integrity s (l₀ ++ l₁ ++ ⟨.uuid4, hex⟩ :: l₂) o t

/-- No command of the program is about the files of the registry. -/
theorem not_unindexed {α : Type} {p : Code α} (hp : Program.All (fun c => indexing c = false) p)
    {o : Except PyError α} (h : Exec P p s log o t) : ¬ Unindexed log := by
  rintro ⟨x, hx, hindexing, _⟩
  exact absurd (hindexing.symm.trans (hp.exec h x hx)) (by decide)

theorem not_unindexed_append {l₁ l₂ : Log} (h₁ : ¬ Unindexed l₁) (h₂ : ¬ Unindexed l₂) :
    ¬ Unindexed (l₁ ++ l₂) := by
  rintro ⟨x, hx, hfail⟩
  exact (List.mem_append.mp hx).elim (fun hx => h₁ ⟨x, hx, hfail⟩) fun hx => h₂ ⟨x, hx, hfail⟩

theorem all_request {c : Command} {P : Command → Prop} (hc : P c) :
    Program.All P (Program.request c : Code (Reply c)) := ⟨hc, fun _ => trivial⟩

theorem move_unindexing {src dst : Path} :
    Program.All (fun c => indexing c = false) (PluginRegistry.move src dst) :=
  ⟨rfl, fun r => Program.all_ofExcept (r.mapError Halt.error)⟩

theorem set_aside_unindexing :
    Program.All (fun c => indexing c = false) (R.set_aside name destination) := by
  refine Program.All.bind (all_request rfl) fun there => ?_
  cases there with
  | true =>
    refine Program.All.bind (all_request rfl) fun stamp => Program.All.bind (all_request rfl) fun hex => ?_
    exact Program.All.bind move_unindexing fun _ => trivial
  | false => trivial

theorem stage_unindexing : Program.All (fun c => indexing c = false)
    (PluginRegistry.stage source staging destination rollback_path) := by
  refine Program.All.tryCatch ?_ fun e => ?_
  · refine Program.All.bind ⟨rfl, fun r => Program.all_ofExcept r⟩ fun _ => ?_
    exact ⟨rfl, fun r => Program.all_ofExcept r⟩
  · refine Program.All.bind ⟨rfl, fun there => ?_⟩ fun _ => Program.All.bind ?_ fun _ => trivial
    · cases there with
      | true => exact ⟨rfl, fun r => Program.all_ofExcept r⟩
      | false => trivial
    · cases rollback_path with
      | none => trivial
      | some path =>
        refine ⟨rfl, fun there => ?_⟩
        cases there with
        | true => trivial
        | false => exact move_unindexing

theorem read_tree_unindexing {p : Path} :
    Program.All (fun c => indexing c = false) (PluginRegistry.read_tree p) :=
  ⟨rfl, fun r => Program.all_ofExcept r⟩

theorem not_unindexed_uuid4 {hex : Hex 32} {log : Log} (h : ¬ Unindexed log) :
    ¬ Unindexed (⟨.uuid4, hex⟩ :: log) := by
  rintro ⟨x, hx, hindexing, hfail⟩
  rcases List.mem_cons.mp hx with rfl | hx
  · cases hindexing
  · exact h ⟨x, hx, hindexing, hfail⟩

theorem exec_install {approved_by : String} {expected_integrity : Option String}
    {o : Except PyError PluginRecord} (h : Exec P (R.install source approved_by expected_integrity) s log o t) :
    Installing R source approved_by expected_integrity s log o t := by
  obtain ⟨e, hread, rfl⟩ | ⟨found, u₀, l₀, l, hread, hcheck, rfl⟩ := exec_then h
  · have hquiet := not_unindexed read_tree_unindexing hread
    obtain ⟨rfl, rfl, _⟩ := exec_read_tree hread
    exact .refused hquiet (by simp [tears])
  have hquiet := not_unindexed read_tree_unindexing hread
  obtain rfl := read_tree_ok hread
  obtain ⟨rfl, rfl, _⟩ := exec_read_tree hread
  obtain ⟨e, _, rfl, rfl, rfl⟩ | ⟨⟨tree, mapping, integrity⟩, hchecked, hcontain⟩ := exec_check hcheck
  · exact .refused (by simpa using hquiet) (by simp [tears])
  have hvalid := id_re_valid (checked_ok hchecked).2.2.2.2
  have hdest := contained_name R.named hvalid
  obtain ⟨e, hescape, _⟩ | ⟨destination, hinside, hmove⟩ := exec_check hcontain
  · rw [hdest] at hescape
    cases hescape
  obtain rfl := Except.ok.inj (hdest.symm.trans hinside)
  obtain ⟨e, haside, rfl⟩ | ⟨rollback_path, u, l₁, l', haside, huuid, rfl⟩ := exec_then hmove
  · have hquiet' := not_unindexed set_aside_unindexing haside
    exact .unmoved hchecked (by simp [tears]) (not_unindexed_append hquiet hquiet') (exec_set_aside haside)
  have hquiet₁ := not_unindexed set_aside_unindexing haside
  replace haside := exec_set_aside haside
  obtain ⟨hex, l'', rfl, hcopy⟩ := exec_uuid4 huuid
  rw [← List.append_assoc]
  obtain ⟨e, hstage, rfl⟩ | ⟨_, v, l₂, l₃, hstage, hrecords, rfl⟩ := exec_then hcopy
  · have hquiet₂ := not_unindexed stage_unindexing hstage
    obtain ⟨hok, _⟩ | ⟨e', w, n, heq, hn, hbroken, hrecovered, htorn⟩ := exec_stage hstage
    · cases hok
    have hwhole := haside.whole
    refine .unplaced hchecked haside hbroken hn ?_ ?_ (hrecovered.mono fun h => by simp [h])
    · simpa [tears, hwhole] using htorn
    exact not_unindexed_append (not_unindexed_append hquiet hquiet₁) (not_unindexed_uuid4 hquiet₂)
  obtain ⟨_, hplaced⟩ | ⟨_, _, _, herr, _⟩ := exec_stage hstage
  · obtain ⟨e, hread', rfl⟩ | ⟨records, w, l₄, l₅, hread', hclock, rfl⟩ := exec_then hrecords
    · obtain ⟨rfl, rfl, _⟩ := exec_read_records hread'
      exact .placed hchecked haside hplaced rfl rfl
        (.inr ⟨e, rfl, unindexed_append ⟨_, List.mem_singleton_self _, rfl, rfl⟩⟩)
    have hfound := read_records_ok hread'
    obtain ⟨rfl, rfl, _⟩ := exec_read_records hread'
    obtain ⟨installed_at, l₆, rfl, henter⟩ := exec_isoformat hclock
    obtain ⟨htree, hmtime, ⟨rfl, hwritten⟩ | ⟨e, rfl, hfail, _⟩⟩ := exec_enter henter
    · exact .placed hchecked haside hplaced htree hmtime
        (.inl ⟨records, installed_at, hfound, rfl, hwritten⟩)
    · refine .placed hchecked haside hplaced htree hmtime (.inr ⟨e, rfl, ?_⟩)
      exact unindexed_append (unindexed_append (unindexed_cons hfail))
  · cases herr

/-- Where the version goes that a rollback replaces. -/
def current_path (R : PluginRegistry) (name : String) (hex : Hex 32) : Path :=
  join R.rollback_root (current_name name hex)

/-- What `clear` does: nothing, a move, or a move that fails. -/
inductive Clearing (P : Choice → Prop) (R : PluginRegistry) (name : String) (destination : Path) (s : Disk) :
    Log → Except PyError Unit → Disk → Prop
  | absent : s.tree.at? destination = none →
      Clearing P R name destination s [⟨.exists_at destination, false⟩] (.ok ()) s
  | moved {hex now t} : s.tree.at? destination ≠ none →
      s.move? destination (current_path R name hex) now = some t →
      Clearing P R name destination s [⟨.exists_at destination, true⟩, ⟨.uuid4, hex⟩,
        ⟨.move destination (current_path R name hex), .ok ()⟩] (.ok ()) t
  | failed {hex halt t} : s.tree.at? destination ≠ none →
      Halted s destination (current_path R name hex) halt t →
      (MayFail P ∨ s.tree.move? destination (current_path R name hex) = none) →
      Clearing P R name destination s [⟨.exists_at destination, true⟩, ⟨.uuid4, hex⟩,
        ⟨.move destination (current_path R name hex), .error halt⟩] (.error halt.error) t

theorem exec_clear {o : Except PyError Unit} (h : Exec P (R.clear name destination) s log o t) :
    Clearing P R name destination s log o t := by
  obtain ⟨rest, rfl, hrest⟩ := exec_exists_at h
  by_cases hthere : s.tree.at? destination = none
  · rw [hthere] at hrest ⊢
    obtain ⟨rfl, rfl, rfl⟩ := Program.exec_pure.mp hrest
    exact .absent hthere
  · rw [Option.isSome_iff_ne_none.mpr hthere] at hrest ⊢
    obtain ⟨hex, rest₁, rfl, hrest₁⟩ := exec_uuid4 hrest
    obtain ⟨rfl, rfl, now, hnow⟩ | ⟨halt, rfl, rfl, hhalted, hwhy⟩ := exec_move hrest₁
    · exact .moved hthere hnow
    · exact .failed hthere hhalted hwhy

/-- How the version in place is entered. -/
structure Registering (P : Choice → Prop) (R : PluginRegistry) (name : String) (destination : Path)
    (s : Disk) (o : Except PyError PluginRecord) (t : Disk) : Prop where
  tree : t.tree = s.tree
  mtime : t.mtime = s.mtime
  outcome : (∃ record installed_at records,
      R.restored name destination (s.dir? destination) installed_at = .ok record ∧
        s.records = .ok records ∧ o = .ok record ∧ t.records = .ok (records.set record.name record)) ∨
    ∃ e, o = .error e ∧ (MayFail P ∨ (∃ e, s.records = .error e) ∨
      ∃ installed_at e, R.restored name destination (s.dir? destination) installed_at = .error e)

theorem exec_register {o : Except PyError PluginRecord}
    (h : Exec P (R.register name destination) s log o t) : Registering P R name destination s o t := by
  obtain ⟨e, hread, rfl⟩ | ⟨found, u, l₁, l, hread, hclock, rfl⟩ := exec_then h
  · obtain ⟨_, rfl, hok | ⟨_, _, hmay⟩⟩ := exec_read_tree hread
    · cases hok
    · exact ⟨rfl, rfl, .inr ⟨e, rfl, .inl hmay⟩⟩
  obtain rfl := read_tree_ok hread
  obtain ⟨_, rfl, _⟩ := exec_read_tree hread
  obtain ⟨installed_at, l', rfl, hmake⟩ := exec_isoformat hclock
  obtain ⟨e, hbad, _, rfl, rfl⟩ | ⟨record, hrecord, hrecords⟩ := exec_check hmake
  · exact ⟨rfl, rfl, .inr ⟨e, rfl, .inr (.inr ⟨installed_at, e, hbad⟩)⟩⟩
  obtain ⟨e, hread', rfl⟩ | ⟨records, v, l₂, l₃, hread', henter, rfl⟩ := exec_then hrecords
  · obtain ⟨_, rfl, hsame | ⟨_, _, hmay⟩⟩ := exec_read_records hread'
    · exact ⟨rfl, rfl, .inr ⟨e, rfl, .inr (.inl ⟨e, hsame.symm⟩)⟩⟩
    · exact ⟨rfl, rfl, .inr ⟨e, rfl, .inl hmay⟩⟩
  have hfound := read_records_ok hread'
  obtain ⟨_, rfl, _⟩ := exec_read_records hread'
  obtain ⟨htree, hmtime, ⟨rfl, hwritten⟩ | ⟨e, rfl, _, hmay⟩⟩ := exec_enter henter
  · exact ⟨htree, hmtime, .inl ⟨record, installed_at, records, hrecord, hfound, rfl, hwritten⟩⟩
  · exact ⟨htree, hmtime, .inr ⟨e, rfl, .inl hmay⟩⟩

/-- How a rollback goes. -/
inductive RollingBack (P : Choice → Prop) (R : PluginRegistry) (name : String) (s : Disk) :
    Log → Except PyError PluginRecord → Disk → Prop
  | escaped {e} : _assert_contained R.root name = .error e → RollingBack P R name s [] (.error e) s
  | unlisted {e} : (MayFail P ∨ ∃ ch, s.glob ch R.rollback_root (name ++ "-*") = .error e) →
      RollingBack P R name s [⟨.glob R.rollback_root (name ++ "-*"), .error e⟩] (.error e) s
  | unavailable {ch found} : s.glob ch R.rollback_root (name ++ "-*") = .ok found → candidates found = [] →
      RollingBack P R name s [⟨.glob R.rollback_root (name ++ "-*"), .ok found⟩]
        (.error (installError ("no rollback version is available for " ++ name))) s
  | uncleared {destination ch found first rest l₁ e t} : _assert_contained R.root name = .ok destination →
      s.glob ch R.rollback_root (name ++ "-*") = .ok found → candidates found = first :: rest →
      Clearing P R name destination s l₁ (.error e) t →
      RollingBack P R name s (⟨.glob R.rollback_root (name ++ "-*"), .ok found⟩ :: l₁) (.error e) t
  | uncopied {destination ch found first rest l₁ u e ch'} : _assert_contained R.root name = .ok destination →
      s.glob ch R.rollback_root (name ++ "-*") = .ok found → candidates found = first :: rest →
      Clearing P R name destination s l₁ (.ok ()) u →
      (MayFail P ∨ u.tree.copytree? first destination = none) →
      RollingBack P R name s (⟨.glob R.rollback_root (name ++ "-*"), .ok found⟩ :: (l₁ ++
        [⟨.copytree first destination, .error e⟩])) (.error e) (u.scraps ch' destination)
  | copied {destination ch found first rest l₁ u now v l₂ o t} : _assert_contained R.root name = .ok destination →
      s.glob ch R.rollback_root (name ++ "-*") = .ok found → candidates found = first :: rest →
      Clearing P R name destination s l₁ (.ok ()) u → u.copytree? first destination now = some v →
      Registering P R name destination v o t →
      RollingBack P R name s (⟨.glob R.rollback_root (name ++ "-*"), .ok found⟩ :: (l₁ ++
        ⟨.copytree first destination, .ok ()⟩ :: l₂)) o t

theorem exec_rollback {o : Except PyError PluginRecord} (h : Exec P (R.rollback name) s log o t) :
    RollingBack P R name s log o t := by
  obtain ⟨e, hescape, rfl, rfl, rfl⟩ | ⟨destination, hdest, hlist⟩ := exec_check h
  · exact .escaped hescape
  obtain ⟨e, hglob, rfl⟩ | ⟨found, u₀, l₀, l, hglob, hpick, rfl⟩ := exec_then hlist
  · obtain ⟨rfl, rfl, hwhy | ⟨_, _, hmay⟩⟩ := exec_glob hglob
    · exact .unlisted (.inr hwhy)
    · exact .unlisted (.inl hmay)
  obtain ⟨rfl, rfl, ⟨ch, hfound⟩ | ⟨_, herr, _⟩⟩ := exec_glob hglob
  swap
  · cases herr
  cases hcandidates : candidates found with
  | nil =>
    rw [hcandidates] at hpick
    obtain ⟨rfl, rfl, rfl⟩ := Program.exec_throw.mp hpick
    exact .unavailable hfound hcandidates
  | cons first rest =>
    rw [hcandidates] at hpick
    change Exec P (R.clear name destination >>= fun _ => _) _ _ _ _ at hpick
    obtain ⟨e, hclear, rfl⟩ | ⟨_, u, l₁, l', hclear, hcopy, rfl⟩ := exec_then hpick
    · exact .uncleared hdest hfound hcandidates (exec_clear hclear)
    have hcleared := exec_clear hclear
    obtain ⟨e, hcp, rfl⟩ | ⟨_, v, l₂, l'', hcp, hread, rfl⟩ := exec_then hcopy
    · obtain ⟨rfl, ⟨hok, _⟩ | ⟨_, ch', _, rfl, hwhy⟩⟩ := exec_copytree hcp
      · cases hok
      · exact .uncopied hdest hfound hcandidates hcleared hwhy
    obtain ⟨rfl, ⟨_, now, hcopied⟩ | ⟨_, _, herr, _⟩⟩ := exec_copytree hcp
    swap
    · cases herr
    exact .copied hdest hfound hcandidates hcleared hcopied (exec_register hread)

/-- How a removal goes. -/
inductive Removing (R : PluginRegistry) (name : String) (s : Disk) : Log → Except PyError Unit → Disk → Prop
  | refused {log e} : (∀ src dst, ⟨.move src dst, .ok ()⟩ ∉ log) → Removing R name s log (.error e) s
  | unmoved {destination stamp hex halt t} : _assert_contained R.root name = .ok destination →
      Halted s destination (join R.rollback_root (removed_name name stamp hex)) halt t →
      Removing R name s [⟨.is_dir destination, true⟩, ⟨.strftime, stamp⟩, ⟨.uuid4, hex⟩,
        ⟨.move destination (join R.rollback_root (removed_name name stamp hex)), .error halt⟩] (.error halt.error) t
  | moved {destination stamp hex now u l o t} : _assert_contained R.root name = .ok destination →
      s.tree.at? destination = some .dir →
      s.move? destination (join R.rollback_root (removed_name name stamp hex)) now = some u →
      t.tree = u.tree → t.mtime = u.mtime → (∀ x ∈ l, indexing x.1 = true ∨ ∃ iso, x = ⟨.isoformat, iso⟩) →
      ((∃ records, u.records = .ok records ∧ o = .ok () ∧ t.records = .ok (records.pop name)) ∨
        ∃ e, o = .error e) →
      Removing R name s (⟨.is_dir destination, true⟩ :: ⟨.strftime, stamp⟩ :: ⟨.uuid4, hex⟩ ::
        ⟨.move destination (join R.rollback_root (removed_name name stamp hex)), .ok ()⟩ :: l) o t

theorem exec_remove {approved_by : String} {o : Except PyError Unit}
    (h : Exec P (R.remove name approved_by) s log o t) : Removing R name s log o t := by
  unfold PluginRegistry.remove at h
  split at h
  · obtain ⟨rfl, rfl, rfl⟩ := Program.exec_throw.mp h
    exact .refused (by simp)
  obtain ⟨e, _, rfl, rfl, rfl⟩ | ⟨destination, hdest, hask⟩ := exec_check h
  · exact .refused (by simp)
  obtain ⟨rest, rfl, hrest⟩ := exec_is_dir hask
  by_cases hdir : s.tree.at? destination = some .dir
  swap
  · rw [decide_eq_false hdir] at hrest ⊢
    obtain ⟨rfl, rfl, rfl⟩ := Program.exec_throw.mp hrest
    exact .refused (by simp)
  rw [decide_eq_true hdir] at hrest ⊢
  obtain ⟨stamp, l₁, rfl, hrest₁⟩ := exec_strftime hrest
  obtain ⟨hex, l₂, rfl, hrest₂⟩ := exec_uuid4 hrest₁
  obtain ⟨e, hmove, rfl⟩ | ⟨_, u, l₃, l₄, hmove, hrecords, rfl⟩ := exec_then hrest₂
  · obtain ⟨hok, _⟩ | ⟨halt, heq, rfl, hhalted, _⟩ := exec_move hmove
    · cases hok
    · obtain rfl := Except.error.inj heq
      exact .unmoved hdest hhalted
  obtain ⟨_, rfl, now, hnow⟩ | ⟨_, herr, _⟩ := exec_move hmove
  swap
  · cases herr
  obtain ⟨e, hread, rfl⟩ | ⟨records, v, l₅, l₆, hread, hwrite, rfl⟩ := exec_then hrecords
  · obtain ⟨rfl, rfl, _⟩ := exec_read_records hread
    exact .moved hdest hdir hnow rfl rfl (by simp [indexing]) (.inr ⟨e, rfl⟩)
  have hfound := read_records_ok hread
  obtain ⟨rfl, rfl, _⟩ := exec_read_records hread
  obtain ⟨e, hw, rfl⟩ | ⟨_, w, l₇, l₈, hw, happend, rfl⟩ := exec_then hwrite
  · obtain ⟨rfl, ⟨hok, _⟩ | ⟨_, _, rfl, _⟩⟩ := exec_write_records hw
    · cases hok
    · exact .moved hdest hdir hnow rfl rfl (by simp [indexing]) (.inr ⟨e, rfl⟩)
  obtain ⟨rfl, ⟨_, rfl⟩ | ⟨_, herr, _⟩⟩ := exec_write_records hw
  swap
  · cases herr
  obtain ⟨htree, hmtime, hrec, hwhy, created_at, rfl⟩ := exec_append_event happend
  refine .moved hdest hdir hnow htree hmtime ?_ ?_
  · simp [indexing]
  · obtain rfl | ⟨e, rfl, _⟩ := hwhy
    · exact .inl ⟨records, hfound, rfl, hrec⟩
    · exact .inr ⟨e, rfl⟩

end Programs

end EnterpriseCopilot.Plugin
