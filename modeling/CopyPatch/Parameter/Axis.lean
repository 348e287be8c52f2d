import CopyPatch.Parameter.TypeId
import CopyPatch.Text.Numeral

/-! Parameter axes and tuples. The axes of a family are ordered, its type axes stand first, and a
type axis lists each of its members once. -/
namespace CopyPatch

/-- One encoded value for each axis. -/
abbrev Tuple := List UInt64

/-- What can be wrong with types, axes, tuples and placeholder names. -/
inductive ModelError where
  | malformedAxisOrder (position : Nat)
  | duplicateTuple (family : String) (tuple : Tuple)
  | parameterCountMismatch (family : String) (expected found : Nat)
  | unknownTypeName (text : String)
  | duplicateDomainMember (position : Nat) (member : TypeId)
  | badPlaceholderOrdinal (name : String)
  deriving DecidableEq, Repr

namespace ModelError

def message : ModelError → String
  | malformedAxisOrder position =>
    s!"malformed axis order: non-type axis at position {position} precedes a type axis"
  | duplicateTuple family tuple =>
    s!"duplicate parameter tuple {Text.tuple tuple} in family {Text.quoted family}"
  | parameterCountMismatch family expected found =>
    s!"family {Text.quoted family} expects {expected} parameters, got {found}"
  | unknownTypeName text => s!"unknown type name {Text.quoted text}"
  | duplicateDomainMember position member =>
    s!"type axis at position {position} lists {Text.quoted member.display} more than once"
  | badPlaceholderOrdinal name => s!"placeholder {Text.quoted name} has a malformed ordinal"

end ModelError

/-- Read a type name or report it, without the blanks around it. -/
def TypeId.parse (text : String) : Except ModelError TypeId :=
  match TypeId.ofName? text with
  | some t => .ok t
  | none => .error (.unknownTypeName (String.ofList (Text.trim text.toList)))

/-- The shape of an axis, without the members of a type axis. -/
inductive AxisKind where
  | type
  | bool
  | enum (count : UInt64)
  deriving DecidableEq, Repr

/-- The first member that already stands among the earlier ones. -/
def firstRepeat? {α : Type} [DecidableEq α] (earlier : List α) : List α → Option α
  | [] => none
  | a :: rest => if a ∈ earlier then some a else firstRepeat? (a :: earlier) rest

inductive Axis where
  | type (domain : List TypeId)
  | bool
  | enum (count : UInt64)
  deriving DecidableEq, Repr

namespace Axis

def kind : Axis → AxisKind
  | type _ => .type
  | bool => .bool
  | enum count => .enum count

def isType : Axis → Bool
  | type _ => true
  | _ => false

def cardinality : Axis → UInt64
  | type domain => UInt64.ofNat domain.length
  | bool => 2
  | enum count => count

/-- The encoded values of an axis in visiting order. -/
def values : Axis → List UInt64
  | type domain => domain.map TypeId.encode
  | bool => [0, 1]
  | enum count => (List.range count.toNat).map UInt64.ofNat

/-- Check the axes from `position` on; `free` is the first axis before them that is no type axis. -/
def validateFrom (position : Nat) (free : Option Nat) : List Axis → Except ModelError Unit
  | [] => .ok ()
  | type domain :: rest => match free with
    | some first => .error (.malformedAxisOrder first)
    | none => match firstRepeat? [] domain with
      | some t => .error (.duplicateDomainMember position t)
      | none => validateFrom (position + 1) none rest
  | _ :: rest => validateFrom (position + 1) (some (free.getD position)) rest

/-- Type axes stand before all others and list no member twice; the first fault is reported. -/
def validate (axes : List Axis) : Except ModelError Unit := validateFrom 0 none axes

end Axis

end CopyPatch
