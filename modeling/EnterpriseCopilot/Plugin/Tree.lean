import Mathlib.Data.List.Sort
import EnterpriseCopilot.Python.Basic

/-! Directories of plugin files and their digest. -/

namespace EnterpriseCopilot.Plugin

open EnterpriseCopilot.Python

/-- The parts of a path below a directory. -/
abbrev Path := List String

inductive Entry
  | file (content : Bytes)
  | dir
  | symlink
  deriving DecidableEq

/-- A name that a directory entry can have. -/
def ValidName (name : String) : Prop :=
  name ≠ "" ∧ name ≠ "." ∧ name ≠ ".." ∧ '/' ∉ name.toList ∧ '\x00' ∉ name.toList

instance : DecidablePred ValidName := fun name =>
  inferInstanceAs (Decidable (name ≠ "" ∧ _ ∧ _ ∧ _ ∧ _))

/-- What `rglob("*")` lists below a directory. -/
structure Tree where
  entries : List (Path × Entry)
  nodup : (entries.map Prod.fst).Nodup
  named : ∀ x ∈ entries, x.1 ≠ [] ∧ ∀ name ∈ x.1, ValidName name
  parents : ∀ x ∈ entries, x.1.dropLast ≠ [] → (x.1.dropLast, .dir) ∈ entries

def Entry.content? : Entry → Option Bytes
  | .file content => some content
  | _ => none

namespace Tree

variable (t : Tree)

/-- The entry at a path; the empty path is the directory itself. -/
def at? (path : Path) : Option Entry := if path = [] then some .dir else t.entries.lookup path

def files : List (Path × Bytes) :=
  t.entries.filterMap fun x => x.2.content?.map fun content => (x.1, content)

def hasSymlink : Bool := t.entries.any fun x => x.2 == .symlink

end Tree

def as_posix (path : Path) : String := "/".intercalate path

/-- The order of `sorted` on paths: part by part, by code points. -/
def path_le {α : Type} (a b : Path × α) : Prop := ¬ b.1 < a.1

instance {α : Type} : DecidableRel (path_le (α := α)) := fun a b =>
  inferInstanceAs (Decidable (¬ b.1 < a.1))

def sorted {α : Type} (xs : List (Path × α)) : List (Path × α) := xs.insertionSort path_le

/-- `hashlib.sha256(...).hexdigest()`. -/
abbrev Hexdigest := Bytes → String

/-- The files whose absolute path, below the directory `root`, has no part `.git`. -/
def hashed (root : Path) (t : Tree) : List (Path × Bytes) :=
  t.files.filter fun x => ".git" ∉ root ++ x.1

def digest_input (sha256 : Hexdigest) (root : Path) (t : Tree) : Bytes :=
  (sorted (hashed root t)).flatMap fun x => utf8 (as_posix x.1) ++ utf8 (sha256 x.2)

def plugin_integrity (sha256 : Hexdigest) (root : Path) (t : Tree) : String :=
  sha256 (digest_input sha256 root t)

end EnterpriseCopilot.Plugin
