import EnterpriseCopilot.Python.Text

/-! Values of parsed YAML documents. -/

namespace EnterpriseCopilot.Python

/-- What `yaml.safe_load` builds.  A float is kept exactly; `special` is NaN or an infinity. -/
inductive Yaml
  | null
  | bool (b : Bool)
  | int (n : Int)
  | float (q : Rat)
  | special (text : String)
  | str (s : String)
  | bytes (data : Bytes)
  | date (text : String)
  | datetime (text : String)
  | list (xs : List Yaml)
  | map (kvs : List (Yaml × Yaml))
  | set (xs : List Yaml)

abbrev Mapping := List (Yaml × Yaml)

/-- The value of a key that is a text. -/
def Mapping.lookup : Mapping → String → Option Yaml
  | [], _ => none
  | (.str k, value) :: rest, key => if k = key then some value else Mapping.lookup rest key
  | _ :: rest, key => Mapping.lookup rest key

/-- `mapping.get(key)`. -/
def Mapping.get (m : Mapping) (key : String) : Yaml := (m.lookup key).getD .null

/-- `mapping[key]`. -/
def Mapping.item (m : Mapping) (key : String) : Except PyError Yaml :=
  match m.lookup key with
  | some value => .ok value
  | none => .error (.keyError key)

namespace Yaml

def truth : Yaml → Bool
  | .null => false
  | .bool b => b
  | .int n => n ≠ 0
  | .float q => q ≠ 0
  | .str s => !s.isEmpty
  | .bytes data => !data.isEmpty
  | .list xs | .set xs => !xs.isEmpty
  | .map kvs => !kvs.isEmpty
  | .special _ | .date _ | .datetime _ => true

/-- The value of an instance of `int`: booleans are among them. -/
def asInt : Yaml → Option Int
  | .bool b => some (if b then 1 else 0)
  | .int n => some n
  | _ => none

/-- The value as an instance of `dict`. -/
def asMapping : Yaml → Option Mapping
  | .map kvs => some kvs
  | _ => none

/-- `value == 0`. -/
def isZero : Yaml → Bool
  | .bool b => !b
  | .int n => n = 0
  | .float q => q = 0
  | _ => false

/-- `value in {…}` for a set of texts, which hashes the value; a set is looked up as a frozen one. -/
def oneOf (texts : List String) : Yaml → Except PyError Bool
  | .str s => .ok (texts.contains s)
  | .list _ => .error (.typeError "unhashable type: \'list\'")
  | .map _ => .error (.typeError "unhashable type: \'dict\'")
  | _ => .ok false

/-- `value or {}`. -/
def orEmpty (value : Yaml) : Yaml := if value.truth then value else .map []

theorem oneOf_true {texts : List String} {value : Yaml} (h : value.oneOf texts = .ok true) :
    ∃ s ∈ texts, value = .str s := by
  cases value with
  | str s => exact ⟨s, by simpa [oneOf] using h, rfl⟩
  | _ => cases h

end Yaml

/-- Conversions of values that the modelled code seldom meets: `str()` of what is no text, `int()` of
what is no integer, and the slot of an interval that is a float. -/
structure YamlLibrary where
  str : Yaml → String
  int : Yaml → Except PyError Int
  float_slot : Int → Yaml → Except PyError Int

def YamlLibrary.to_str (Y : YamlLibrary) : Yaml → String
  | .str s => s
  | value => Y.str value

def YamlLibrary.to_int (Y : YamlLibrary) (value : Yaml) : Except PyError Int :=
  match value.asInt with
  | some n => .ok n
  | none => Y.int value

end EnterpriseCopilot.Python
