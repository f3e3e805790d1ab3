import EnterpriseCopilot.Lib.Machine
import EnterpriseCopilot.Plugin.Binding
import EnterpriseCopilot.Plugin.Layout

/-! Histories of a plugin registry. -/

namespace EnterpriseCopilot.Plugin

open EnterpriseCopilot.Lib EnterpriseCopilot.Python

/-- A call with the disk before and after it, or a change elsewhere on the disk. -/
inductive Event
  | called (call : Call) (before : Disk) (log : Log) (result : Except PyError (Option PluginRecord))
      (after : Disk)
  | edited

/-- `edit` is a change outside the registry, where the sources are. -/
inductive Action
  | call (call : Call) (ω : Nat → Choice)
  | edit (tree : Tree) (mtime : Path → Int)

structure History where
  disk : Disk
  past : List Event := []

namespace PluginRegistry

variable (R : PluginRegistry)

def among (c : Call) (ω : Nat → Choice) (d : Disk) :
    Program.Outcome Disk Command Reply PyError (Option PluginRecord) :=
  (R.call c).run Disk.apply ω d

/-- Another tree outside the directory of the registry. -/
def edited (d : Disk) (tree : Tree) (mtime : Path → Int) : Option Disk :=
  if tree.at? R.root = some .dir ∧ (tree.below R.root).entries = (d.tree.below R.root).entries then
    some { d with tree, mtime := fun q => if R.root <+: q then d.mtime q else mtime q }
  else none

def machine : Machine History Action Event where
  step h
    | .call c ω =>
      let o := R.among c ω h.disk
      let e := Event.called c h.disk o.log o.result o.state
      some (⟨o.state, h.past ++ [e]⟩, e)
    | .edit tree mtime => (R.edited h.disk tree mtime).map fun d => (⟨d, h.past ++ [.edited]⟩, .edited)

/-- The registry was just made. -/
structure Fresh (d : Disk) : Prop where
  root : d.tree.at? R.root = some .dir
  entries : (d.tree.below R.root).entries = [([".rollback"], .dir)]
  records : d.records = .ok []

end PluginRegistry

/-- Nothing on the disk has the UUID in its name. -/
def Disk.Unused (d : Disk) (hex : Hex 32) : Prop :=
  ∀ x ∈ d.tree.entries, ∀ last ∈ x.1.getLast?, ¬ hex.chars <:+ last.toList

instance (d : Disk) (hex : Hex 32) : Decidable (d.Unused hex) :=
  inferInstanceAs (Decidable (∀ x ∈ d.tree.entries, ∀ last ∈ x.1.getLast?, ¬ hex.chars <:+ last.toList))

/-- The UUIDs that the call drew are new. -/
def Novel (d : Disk) (log : Log) : Prop := ∀ hex, ⟨.uuid4, hex⟩ ∈ log → d.Unused hex

section Calls

variable {P : Choice → Prop} {R : PluginRegistry} {s t : Disk} {c : Call} {ω : Nat → Choice} {log : Log}
  {o : Except PyError (Option PluginRecord)}

theorem exec_among (R : PluginRegistry) (c : Call) (ω : Nat → Choice) (s : Disk) (hω : ∀ n, P (ω n)) :
    Exec P (R.call c) s (R.among c ω s).log (R.among c ω s).result (R.among c ω s).state :=
  Program.exec_of_run_where Disk.apply (R.call c) s hω

theorem exec_call_install {source : Path} {approved_by : String} {expected_integrity : Option String}
    (h : Exec P (R.call (.install source approved_by expected_integrity)) s log o t) :
    ∃ o', Installing R source approved_by expected_integrity s log o' t ∧ o = o'.map some := by
  obtain ⟨o', hx, ho⟩ := Program.exec_map h
  exact ⟨o', exec_install hx, ho⟩

theorem exec_call_rollback {name : String} (h : Exec P (R.call (.rollback name)) s log o t) :
    ∃ o', RollingBack P R name s log o' t ∧ o = o'.map some := by
  obtain ⟨o', hx, ho⟩ := Program.exec_map h
  exact ⟨o', exec_rollback hx, ho⟩

theorem exec_call_remove {name approved_by : String}
    (h : Exec P (R.call (.remove name approved_by)) s log o t) :
    ∃ o', Removing R name s log o' t ∧ o = o'.map fun _ => none := by
  obtain ⟨o', hx, ho⟩ := Program.exec_map h
  exact ⟨o', exec_remove hx, ho⟩

theorem Disk.Unused.free {hex : Hex 32} (h : s.Unused hex) {p : Path} {name : String}
    (hname : hex.chars <:+ name.toList) : s.tree.at? (p ++ [name]) = none := by
  refine Option.eq_none_iff_forall_ne_some.mpr fun e he => ?_
  exact h _ ((Tree.at?_eq_some (by simp)).mp he) name (by simp) hname

theorem hex_suffix (text : String) (hex : Hex 32) : hex.chars <:+ (text ++ hex.text).toList := by
  rw [String.toList_append, Hex.text, String.toList_ofList]
  exact List.suffix_append _ _

theorem Disk.Unused.backup {hex : Hex 32} (h : s.Unused hex) (p : Path) (name : String) (stamp : Stamp) :
    s.tree.at? (p ++ [backup_name name stamp hex]) = none := h.free (hex_suffix _ hex)

theorem Disk.Unused.removed {hex : Hex 32} (h : s.Unused hex) (p : Path) (name : String) (stamp : Stamp) :
    s.tree.at? (p ++ [removed_name name stamp hex]) = none := h.free (hex_suffix _ hex)

theorem Disk.Unused.current {hex : Hex 32} (h : s.Unused hex) (p : Path) (name : String) :
    s.tree.at? (p ++ [current_name name hex]) = none := h.free (hex_suffix _ hex)

theorem Disk.Unused.staging {hex : Hex 32} (h : s.Unused hex) (p : Path) (name : String) :
    s.tree.at? (p ++ [staging_name name hex]) = none := h.free (hex_suffix _ hex)

/-- One new UUID for the whole call. -/
theorem novel_of_unused {α : Type} {p : Code α} {hex : Hex 32} (hω : ∀ n, (ω n).hex = hex)
    (h : s.Unused hex) : Novel s (p.run Disk.apply ω s).log := by
  intro hex' hmem
  obtain ⟨n, t, heq⟩ := Program.mem_log Disk.apply p hmem
  obtain rfl : hex' = (ω n).hex := heq
  rwa [hω n]

theorem attemptMove_refused {ch : Choice} {src dst : Path} {result : Option Disk} {halt : Halt}
    (hch : ch.progress = .refused) (h : (ch.attemptMove s src dst result).1 = .error halt) : halt.torn = false := by
  have hnone : s.torn? ch src dst = none := by simp [Disk.torn?, hch]
  have hhalt : ∀ e, ch.halt s src dst e = (.error ⟨e, false⟩, s) := fun e => by rw [Choice.halt, hnone]
  unfold Choice.attemptMove at h
  simp only [hhalt] at h
  split at h <;> cases h
  rfl

/-- A move whose fallback has not begun leaves nothing behind. -/
theorem whole_of_refused {α : Type} {p : Code α} (hω : ∀ n, (ω n).progress = .refused) :
    ¬ Torn (p.run Disk.apply ω s).log := by
  rintro ⟨⟨c, r⟩, hmem, htears⟩
  obtain ⟨n, t, heq⟩ := Program.mem_log Disk.apply p hmem
  cases c with
  | move src dst =>
    cases r with
    | ok _ => cases htears
    | error halt =>
      have htorn := attemptMove_refused (hω n) heq.symm
      rw [tears, htorn] at htears
      cases htears
  | _ => cases htears

end Calls

section Sample

/-- The plugin among its neighbours, and an empty registry. -/
def sampleTree : Tree where
  entries := [(["srv"], .dir), (["srv", "plugins"], .dir), (["srv", "plugins", "erp"], .dir),
    (["srv", "plugins", "erp", ".codex-plugin"], .dir),
    (["srv", "plugins", "erp", ".codex-plugin", "plugin.json"], .file manifestBytes),
    (["srv", "registry"], .dir), (["srv", "registry", ".rollback"], .dir)]
  nodup := by decide
  named := by decide
  parents := by decide

def sampleDisk : Disk where
  tree := sampleTree
  mtime _ := 0
  records := .ok []
  events := []

def samplePlugins : PluginRegistry where
  root := ["srv", "registry"]
  named := by decide
  sha256 := sampleSha256
  library := sampleLibrary
  str := text_of

theorem sampleStamp_digits : "20260701020000".toList.all (· ∈ "0123456789".toList) = true := by decide

def sampleStamp : Stamp :=
  ⟨"20260701020000".toList, fun c hc => of_decide_eq_true (List.all_eq_true.mp sampleStamp_digits c hc)⟩

def sampleHex (c : Char) (h : c ∈ "0123456789abcdef".toList) : Hex 32 :=
  ⟨List.replicate 32 c, by simp, fun d hd => by rw [List.eq_of_mem_replicate hd]; exact h⟩

def sampleChoice : Choice where
  stamp := sampleStamp
  hex := sampleHex 'a' (by decide)
  iso := "2026-07-01T02:00:00+00:00"

/-- The choice of a later call. -/
def laterChoice : Choice := { sampleChoice with hex := sampleHex 'b' (by decide) }

end Sample

end EnterpriseCopilot.Plugin
