import CopyPatch.Manifest.Written
import CopyPatch.Parameter.Axis

/-! What can be wrong with a module: its manifest, the names it shares with other modules, or the
types generated for it. -/
namespace CopyPatch

/-- What can be wrong with one family of a manifest. -/
inductive FamilyIssue where
  | notIdentifier (name : String)
  | model (cause : ModelError)
  | emptyTypeAxis (axis : String)
  | variantNotIdentifier (axis variant : String)
  | repeatedVariant (axis variant : String)
  | countMismatch (axis : String) (count : UInt64) (listed : Nat)
  | missingCount (axis : String)
  | emptyEnum (axis : String)
  | axisNotIdentifier (axis : String)
  | repeatedAxis (axis : String)
  | emptyPattern
  | unknownAxis (axis : String)
  | outsideDomain (axis : String) (value : Manifest.Written.Value)
  | differentKinds (first second : String)
  | openPlaceholder (body : String)
  | unknownPlaceholder (body axis : String)
  | strayBrace (body : String)
  | emptyBody
  deriving DecidableEq, Repr

/-- How a pattern value is shown. -/
def Manifest.Written.Value.display : Manifest.Written.Value → String
  | .bool b => if b then "true" else "false"
  | .number n => toString n
  | .name text => "\"" ++ text ++ "\""

namespace FamilyIssue

def identifierText (name : String) : String := Text.quoted name ++ " is not a lowercase identifier"

def message : FamilyIssue → String
  | notIdentifier name => identifierText name
  | model cause => cause.message
  | emptyTypeAxis axis => s!"type axis {Text.quoted axis} has no values"
  | variantNotIdentifier axis variant =>
    s!"axis {Text.quoted axis} variant: {identifierText variant}"
  | repeatedVariant axis variant =>
    s!"axis {Text.quoted axis} lists variant {Text.quoted variant} twice"
  | countMismatch axis count listed =>
    s!"axis {Text.quoted axis}: count = {count} but {listed} variants are listed"
  | missingCount axis => s!"axis {Text.quoted axis} needs `count` or `variants`"
  | emptyEnum axis => s!"axis {Text.quoted axis} is empty"
  | axisNotIdentifier axis => s!"axis name: {identifierText axis}"
  | repeatedAxis axis => s!"axis {Text.quoted axis} declared twice"
  | emptyPattern => "empty exclude pattern"
  | unknownAxis axis => s!"unknown axis {Text.quoted axis}"
  | outsideDomain axis value =>
    s!"value {value.display} is not in the domain of axis {Text.quoted axis}"
  | differentKinds first second =>
    s!"`same` pairs axes of different kinds: {Text.quoted first} and {Text.quoted second}"
  | openPlaceholder body => "unterminated `\x7b` in body " ++ Text.quoted body
  | unknownPlaceholder body axis =>
    s!"body {Text.quoted body} names unknown axis {Text.quoted axis}"
  | strayBrace body => "stray `\x7d` in body " ++ Text.quoted body
  | emptyBody => "empty body template"

end FamilyIssue

/-- What can be wrong with a module. -/
inductive ModuleIssue where
  | unreadable
  | notIdentifier (name : String)
  | repeatedFamily (name : String)
  | family (name : String) (issue : FamilyIssue)
  | nameUsedTwice (first second : String)
  | typeCollision (typeName owner other : String)
  deriving DecidableEq, Repr

namespace ModuleIssue

def message : ModuleIssue → String
  | unreadable => "not a manifest"
  | notIdentifier name => "module name: " ++ FamilyIssue.identifierText name
  | repeatedFamily name => s!"family {Text.quoted name} declared twice"
  | family name issue => s!"family {Text.quoted name}: {issue.message}"
  | nameUsedTwice first second => s!"module name used by both {first} and {second}"
  | typeCollision typeName owner other =>
    s!"generated type {Text.quoted typeName} of family {Text.quoted owner} " ++
      s!"collides with family {Text.quoted other}"

end ModuleIssue

end CopyPatch
