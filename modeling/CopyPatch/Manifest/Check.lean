import CopyPatch.Manifest.Template

/-! Checking a written manifest. Every name is resolved, and the first thing that is wrong is
reported. -/
namespace CopyPatch.Manifest

/-- Names that may stand in generated source and in file names. -/
def isIdentifier (name : String) : Bool :=
  name ≠ "_" && match name.toList with
    | [] => false
    | c :: rest => (c.isLower || c = '_') && rest.all fun c => c.isLower || c.isDigit || c = '_'

/-- Report an issue unless a name is an identifier. -/
def requireIdentifier {ε : Type} (issue : ε) (name : String) : Except ε Unit :=
  if isIdentifier name then .ok () else .error issue

/-- The number of values of an enumeration axis. -/
def enumCount (name : String) (count : Option UInt64) (variants : List String) :
    Except FamilyIssue UInt64 :=
  match count, variants.length with
  | some c, 0 => .ok c
  | none, 0 => .error (.missingCount name)
  | none, n => .ok (UInt64.ofNat n)
  | some c, n => if c.toNat = n then .ok c else .error (.countMismatch name c n)

/-- The axis, its name and its variants, before the name itself is checked. -/
def axisOf : Written.Axis → Except FamilyIssue (Axis × String × List String)
  | .type name values => do
    let domain ← match values with
      | some names => (names.mapM TypeId.parse).mapError FamilyIssue.model
      | none => .ok TypeId.all
    if domain.isEmpty then throw (.emptyTypeAxis name)
    return (.type domain, name, [])
  | .bool name => .ok (.bool, name, [])
  | .enum name count variants => do
    for variant in variants do
      requireIdentifier (.variantNotIdentifier name variant) variant
    if let some variant := firstRepeat? [] variants then throw (.repeatedVariant name variant)
    let count ← enumCount name count variants
    if count = 0 then throw (.emptyEnum name)
    return (.enum count, name, variants)

def checkAxis (written : Written.Axis) : Except FamilyIssue (Axis × AxisSignature) := do
  let (axis, name, variants) ← axisOf written
  requireIdentifier (.axisNotIdentifier name) name
  return (axis, { name, kind := axis.kind, variants })

/-- Check the axes one after another; `earlier` are the names already taken. -/
def checkAxes (earlier : List String) :
    List Written.Axis → Except FamilyIssue (List (Axis × AxisSignature))
  | [] => .ok []
  | written :: rest => do
    let (axis, signature) ← checkAxis written
    if signature.name ∈ earlier then throw (.repeatedAxis signature.name)
    return (axis, signature) :: (← checkAxes (signature.name :: earlier) rest)

/-- The position of an axis by its name. -/
def positionOf (axes : List (Axis × AxisSignature)) (name : String) :
    Except FamilyIssue (Nat × Axis × AxisSignature) :=
  match axes.findIdx? fun a => a.2.name = name with
  | some position => match axes[position]? with
    | some axis => .ok (position, axis)
    | none => .error (.unknownAxis name)
  | none => .error (.unknownAxis name)

/-- The code of a pattern value on an axis, if it is in the domain. -/
def encodeValue (axis : Axis) (signature : AxisSignature) (value : Written.Value) :
    Except FamilyIssue UInt64 :=
  let outside := Except.error (FamilyIssue.outsideDomain signature.name value)
  match axis, value with
  | .type domain, .name text => do
    let type ← (TypeId.parse text).mapError FamilyIssue.model
    if type ∈ domain then return type.encode else outside
  | .bool, .bool b => .ok (if b then 1 else 0)
  | .enum count, .number n => if n < count then .ok n else outside
  | .enum _, .name text => match signature.variants.idxOf? text with
    | some position => .ok (UInt64.ofNat position)
    | none => outside
  | _, _ => outside

def checkPattern (axes : List (Axis × AxisSignature)) (pattern : Written.Pattern) :
    Except FamilyIssue Constraint := do
  if pattern.isEmpty then throw .emptyPattern
  return .exclude (← pattern.mapM fun (name, values) => do
    let (position, axis, signature) ← positionOf axes name
    return (position, ← values.mapM (encodeValue axis signature)))

def checkSame (axes : List (Axis × AxisSignature)) (pair : String × String) :
    Except FamilyIssue Constraint := do
  let (first, firstAxis, _) ← positionOf axes pair.1
  let (second, secondAxis, _) ← positionOf axes pair.2
  if firstAxis.kind ≠ secondAxis.kind then throw (.differentKinds pair.1 pair.2)
  return .same first second

def checkFamily (written : Written.Family) : Except FamilyIssue FamilyDecl := do
  requireIdentifier (.notIdentifier written.name) written.name
  let axes ← checkAxes [] written.axes
  (Axis.validate (axes.map (·.1))).mapError FamilyIssue.model
  let excluded ← written.exclude.mapM (checkPattern axes)
  let same ← written.same.mapM (checkSame axes)
  let body ← Template.parse written.body (axes.map (·.2.name))
  return {
    name := written.name
    axes := axes.map (·.1)
    signature := axes.map (·.2)
    constraints := excluded ++ same
    body }

/-- Check the families one after another; `earlier` are the names already taken. -/
def checkFamilies (earlier : List String) :
    List Written.Family → Except ModuleIssue (List FamilyDecl)
  | [] => .ok []
  | written :: rest => do
    if written.name ∈ earlier then throw (.repeatedFamily written.name)
    let decl ← (checkFamily written).mapError (ModuleIssue.family written.name)
    return decl :: (← checkFamilies (written.name :: earlier) rest)

def check (written : Written.Module) : Except ModuleIssue Manifest := do
  requireIdentifier (.notIdentifier written.name) written.name
  return { moduleName := written.name, families := ← checkFamilies [] written.families }

/-- Read and check a manifest. An issue comes with the module it is about: the name the manifest
gives, or `origin` if the text cannot be read. -/
def parse (origin text : String) : Except (String × ModuleIssue) Manifest :=
  match Written.read text with
  | none => .error (origin, .unreadable)
  | some written => (check written).mapError (written.name, ·)

end CopyPatch.Manifest
