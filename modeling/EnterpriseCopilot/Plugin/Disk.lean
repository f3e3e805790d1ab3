import EnterpriseCopilot.Plugin.Names

/-! The disk under a plugin registry, and the commands that the registry gives to it. -/

namespace EnterpriseCopilot.Plugin

open EnterpriseCopilot.Lib EnterpriseCopilot.Python

/-- What `registry.json` holds, by the name of the plugin. -/
abbrev Records := List (String × PluginRecord)

/-- All directories with their modification times, and the two files of the registry, which are kept
apart from the tree.  `records` is what reading `registry.json` gives. -/
structure Disk where
  tree : Tree
  mtime : Path → Int
  records : Except PyError Records
  events : List RegistryEvent

/-- How far `shutil.move` gets that fails: `os.rename` is refused, and of what it falls back to, a copy and then the
removal of the source, nothing is done, or the copy stops and then leaves some part of it, or the removal stops and
leaves some part of the source. -/
inductive Progress
  | refused
  | copying (part : Entry) (sub : Tree)
  | removing (rest : Tree)

/-- What a command depends on beside the disk: whether it fails, what a copy or a move leaves behind when it
does, the clock, a fresh UUID, and the order in which a directory is listed. -/
structure Choice where
  failure : Option PyError := none
  left : Option Tree := none
  progress : Progress := .refused
  now : Int := 0
  stamp : Stamp
  hex : Hex 32
  iso : String := ""
  order : List Path → List Path := id

def osError : PyError := .exception "OSError"

/-- The listing in the order of the choice. -/
def Choice.listed (ch : Choice) (paths : List Path) : List Path :=
  if (ch.order paths).Perm paths then ch.order paths else paths

namespace Disk

variable (d : Disk)

/-- The directory at a path. -/
def dir? (p : Path) : Option Tree := if d.tree.at? p = some .dir then some (d.tree.below p) else none

/-- The times after something came from `src` to `dst`: its own come along, and the directories
that changed have the time of the change. -/
def times (src dst : Path) (changed : List Path) (now : Int) (q : Path) : Int :=
  if dst <+: q then d.mtime (src ++ q.drop dst.length)
  else if q ∈ changed ∨ q = dst.dropLast ∨ (q <+: dst ∧ d.tree.at? q = none) then now
  else d.mtime q

def move? (src dst : Path) (now : Int) : Option Disk :=
  (d.tree.move? src dst).map fun tree =>
    { d with tree, mtime := d.times src (d.tree.landing src dst) [src.dropLast] now }

/-- `copytree` copies the times as well. -/
def copytree? (src dst : Path) (now : Int) : Option Disk :=
  (d.tree.copytree? src dst).map fun tree => { d with tree, mtime := d.times src dst [] now }

def replace? (src dst : Path) (now : Int) : Option Disk :=
  (d.tree.replace? src dst).map fun tree => { d with tree, mtime := d.times src dst [src.dropLast] now }

def rmtree? (p : Path) (now : Int) : Option Disk :=
  (d.tree.rmtree? p).map fun tree =>
    { d with tree, mtime := fun q => if q = p.dropLast then now else d.mtime q }

/-- What a failed copy leaves behind. -/
def scraps (ch : Choice) (dst : Path) : Disk :=
  match ch.left.bind fun sub => d.tree.put? dst .dir sub with
  | some tree => { d with tree, mtime := d.times dst dst [] ch.now }
  | none => d

/-- What a failed move leaves behind, if it had begun to copy. -/
def torn? (ch : Choice) (src dst : Path) : Option Disk :=
  let target := d.tree.landing src dst
  let tree : Option Tree :=
    if src <+: target then none
    else (d.tree.at? src).bind fun e => match ch.progress with
      | .refused => none
      | .copying part sub => d.tree.put? target part sub
      | .removing rest => (d.tree.put? target e (d.tree.below src)).bind fun t => (t.without src).put? src e rest
  tree.map fun tree => { d with tree, mtime := d.times src target [] ch.now }

/-- `dir.glob(pattern)`, with the times of what it finds. -/
def glob (ch : Choice) (dir : Path) (pattern : String) : Except PyError (List (Path × Int)) :=
  if pattern.toList.head? = some '/' then .error (.exception "NotImplementedError")
  else .ok ((ch.listed (d.tree.matching dir (path_parts pattern))).map fun p => (p, d.mtime p))

end Disk

/-- How a move fails; `torn` if it leaves something behind. -/
structure Halt where
  error : PyError
  torn : Bool

inductive Command
  | read_tree (p : Path)
  | exists_at (p : Path)
  | is_dir (p : Path)
  | move (src dst : Path)
  | copytree (src dst : Path)
  | replace (src dst : Path)
  | rmtree (p : Path)
  | glob (dir : Path) (pattern : String)
  | read_records
  | write_records (records : Records)
  | append_event (event : RegistryEvent)
  | strftime
  | uuid4
  | isoformat

/-- Questions about a path, the clock and UUIDs do not fail. -/
abbrev Reply : Command → Type
  | .read_tree _ => Except PyError (Option Tree)
  | .exists_at _ | .is_dir _ => Bool
  | .move _ _ => Except Halt Unit
  | .copytree _ _ | .replace _ _ | .rmtree _ => Except PyError Unit
  | .glob _ _ => Except PyError (List (Path × Int))
  | .read_records => Except PyError Records
  | .write_records _ | .append_event _ => Except PyError Unit
  | .strftime => Stamp
  | .uuid4 => Hex 32
  | .isoformat => String

namespace Choice

variable (ch : Choice) (d : Disk)

/-- The change, unless it fails or is not possible. -/
def attempt (result : Option Disk) : Except PyError Unit × Disk :=
  match ch.failure, result with
  | none, some d' => (.ok (), d')
  | failure, _ => (.error (failure.getD osError), d)

/-- A move that fails. -/
def halt (src dst : Path) (e : PyError) : Except Halt Unit × Disk :=
  match d.torn? ch src dst with
  | some d' => (.error ⟨e, true⟩, d')
  | none => (.error ⟨e, false⟩, d)

def attemptMove (src dst : Path) (result : Option Disk) : Except Halt Unit × Disk :=
  match ch.failure, result with
  | none, some d' => (.ok (), d')
  | failure, _ => ch.halt d src dst (failure.getD osError)

def attemptCopy (dst : Path) (result : Option Disk) : Except PyError Unit × Disk :=
  match ch.failure, result with
  | none, some d' => (.ok (), d')
  | failure, _ => (.error (failure.getD osError), d.scraps ch dst)

def answer {α : Type} (result : Except PyError α) : Except PyError α :=
  match ch.failure with
  | some e => .error e
  | none => result

end Choice

/-- A command on the disk. -/
def Disk.apply (d : Disk) : (c : Command) → Choice → Reply c × Disk
  | .read_tree p, ch => (ch.answer (.ok (d.dir? p)), d)
  | .exists_at p, _ => ((d.tree.at? p).isSome, d)
  | .is_dir p, _ => (decide (d.tree.at? p = some .dir), d)
  | .move src dst, ch => ch.attemptMove d src dst (d.move? src dst ch.now)
  | .copytree src dst, ch => ch.attemptCopy d dst (d.copytree? src dst ch.now)
  | .replace src dst, ch => ch.attempt d (d.replace? src dst ch.now)
  | .rmtree p, ch => ch.attempt d (d.rmtree? p ch.now)
  | .glob dir pattern, ch => (ch.answer (d.glob ch dir pattern), d)
  | .read_records, ch => (ch.answer d.records, d)
  | .write_records records, ch => ch.attempt d (some { d with records := .ok records })
  | .append_event event, ch => ch.attempt d (some { d with events := d.events ++ [event] })
  | .strftime, ch => (ch.stamp, d)
  | .uuid4, ch => (ch.hex, d)
  | .isoformat, ch => (ch.iso, d)

end EnterpriseCopilot.Plugin
