import CopyPatch.Fault
import CopyPatch.Parameter.Axis

/-! Checked manifests. A family declares its axes with their names, the constraints that rule
tuples out, and the template of its body symbols. Names have been resolved: constraints and
templates speak of axes by position and of values by their codes. -/
namespace CopyPatch

/-- Name and vocabulary of an axis; the variants are empty unless the axis names its values. -/
structure AxisSignature where
  name : String
  kind : AxisKind
  variants : List String
  deriving DecidableEq, Repr

inductive Constraint where
  /-- No tuple has on every listed axis one of the values listed with it. -/
  | exclude (pattern : List (Nat × List UInt64))
  /-- Two axes have the same value. -/
  | same (first second : Nat)
  deriving DecidableEq, Repr

/-- Whether a constraint allows the values chosen so far. It allows all as long as an axis it
mentions is still open, so a rejection comes as early as the constraint can tell. -/
def Constraint.accepts : Constraint → Tuple → Bool
  | exclude pattern, chosen =>
    !((pattern.all fun (axis, _) => axis < chosen.length) &&
      pattern.all fun (axis, values) => (chosen[axis]?).any fun v => values.contains v)
  | same first second, chosen =>
    chosen.length ≤ max first second || chosen[first]? == chosen[second]?

/-- A piece of a body template. -/
inductive Segment where
  | literal (text : String)
  | axis (position : Nat)
  deriving DecidableEq, Repr

structure FamilyDecl where
  name : String
  axes : List Axis
  signature : List AxisSignature
  constraints : List Constraint
  body : List Segment
  deriving DecidableEq, Repr

namespace FamilyDecl

def accepts (decl : FamilyDecl) (chosen : Tuple) : Bool :=
  decl.constraints.all fun c => c.accepts chosen

/-- How a value of an axis is written inside a symbol. A code without a name of its own is
written in decimal. -/
def valueSymbol (decl : FamilyDecl) (position : Nat) (value : UInt64) : Except Fault String :=
  match decl.axes[position]?, decl.signature[position]? with
  | some (.type _), _ => .ok (((TypeId.decode value).map TypeId.symbolName).getD s!"type{value}")
  | some .bool, _ => .ok (if value = 0 then "false" else "true")
  | some (.enum _), some signature =>
    .ok ((signature.variants[value.toNat]?).getD (toString value))
  | _, _ => .error .outOfBounds

def segmentText (decl : FamilyDecl) (tuple : Tuple) : Segment → Except Fault String
  | .literal text => .ok text
  | .axis position => match tuple[position]? with
    | some value => decl.valueSymbol position value
    | none => .error .outOfBounds

/-- The symbol of the body for a tuple. A tuple too short for the template is a fault. -/
def bodySymbol (decl : FamilyDecl) (tuple : Tuple) : Except Fault String :=
  (decl.body.mapM (decl.segmentText tuple)).map String.join

def axisKinds (decl : FamilyDecl) : List AxisKind := decl.axes.map Axis.kind

end FamilyDecl

structure Manifest where
  moduleName : String
  families : List FamilyDecl
  deriving DecidableEq, Repr

end CopyPatch
