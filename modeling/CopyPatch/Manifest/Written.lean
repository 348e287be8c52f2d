import CopyPatch.Toml.Document

/-! The data of a manifest as it is written, before any of it is checked against the rest. A
family and an axis may be written as a table or as the list of their fields in order. -/
namespace CopyPatch.Manifest.Written

/-- A value in an exclusion pattern. -/
inductive Value where
  | bool (b : Bool)
  | number (n : UInt64)
  | name (text : String)
  deriving DecidableEq, Repr

inductive Axis where
  | type (name : String) (values : Option (List String))
  | bool (name : String)
  | enum (name : String) (count : Option UInt64) (variants : List String)
  deriving DecidableEq, Repr

/-- An exclusion pattern: values for axis names, in the order of the names. -/
abbrev Pattern := List (String × List Value)

structure Family where
  name : String
  body : String
  axes : List Axis
  exclude : List Pattern
  same : List (String × String)
  deriving DecidableEq, Repr

structure Module where
  name : String
  families : List Family
  deriving DecidableEq, Repr

abbrev Entries := List (String × Toml.Value)

/-- Read a field that may be missing. -/
def optionally {α : Type} (read : Toml.Value → Option α) (default : α) :
    Option Toml.Value → Option α
  | none => some default
  | some value => read value

def strings (value : Toml.Value) : Option (List String) := do
  (← value.array?).mapM Toml.Value.string?

/-- An integer that is not negative. -/
def count (value : Toml.Value) : Option UInt64 := do
  let n ← value.integer?
  if 0 ≤ n then some (UInt64.ofNat n.toNat) else none

/-- An axis of a kind from its fields, absent ones given as `none`. -/
def axisOf (kind : String) (name first second : Option Toml.Value) : Option Axis := do
  let name ← (← name).string?
  if kind = "type" then
    let values ← optionally (fun v => some <$> strings v) none first
    return .type name values
  else if kind = "bool" then return .bool name
  else if kind = "enum" then
    let count ← optionally (fun v => some <$> count v) none first
    let variants ← optionally strings [] second
    return .enum name count variants
  else none

/-- How many fields an axis of a kind has. -/
def fieldCount (kind : String) : Nat :=
  if kind = "type" then 2 else if kind = "bool" then 1 else 3

def axis : Toml.Value → Option Axis
  | .table entries => do
    let kind ← (← entries.lookup "kind").string?
    let second := entries.lookup "variants"
    if kind = "type" then axisOf kind (entries.lookup "name") (entries.lookup "values") second
    else axisOf kind (entries.lookup "name") (entries.lookup "count") second
  | .array (kind :: fields) => do
    let kind ← kind.string?
    if fields.length ≤ fieldCount kind then axisOf kind fields[0]? fields[1]? fields[2]?
    else none
  | _ => none

def patternValue : Toml.Value → Option Value
  | .boolean b => some (.bool b)
  | .string text => some (.name text)
  | value => (count value).map .number

def pattern (value : Toml.Value) : Option Pattern := do
  let entries ← (← value.table?).mapM fun (name, values) => do
    return (name, ← (← values.array?).mapM patternValue)
  return entries.mergeSort fun a b => !(b.1 < a.1)

/-- Two axis names; whatever follows them has no meaning. -/
def samePair (value : Toml.Value) : Option (String × String) := do
  match ← value.array? with
  | first :: second :: _ => return (← first.string?, ← second.string?)
  | _ => none

def listOf {α : Type} (item : Toml.Value → Option α) (value : Toml.Value) : Option (List α) := do
  (← value.array?).mapM item

def familyOf (name body axes exclude same : Option Toml.Value) : Option Family := do
  return {
    name := ← (← name).string?
    body := ← (← body).string?
    axes := ← optionally (listOf axis) [] axes
    exclude := ← optionally (listOf pattern) [] exclude
    same := ← optionally (listOf samePair) [] same }

def familyFields : List String := ["name", "body", "axes", "exclude", "same"]

def family : Toml.Value → Option Family
  | .table entries =>
    if entries.all fun e => familyFields.contains e.1 then
      familyOf (entries.lookup "name") (entries.lookup "body") (entries.lookup "axes")
        (entries.lookup "exclude") (entries.lookup "same")
    else none
  | .array fields => familyOf fields[0]? fields[1]? fields[2]? fields[3]? fields[4]?
  | _ => none

/-- The data of a manifest, or nothing if the text or its shape is wrong. -/
def read (text : String) : Option Module := do
  let entries ← Toml.read text
  if entries.all fun e => e.1 = "module" || e.1 = "family" then
    return {
      name := ← (← entries.lookup "module").string?
      families := ← optionally (listOf family) [] (entries.lookup "family") }
  else none

end CopyPatch.Manifest.Written
