import CopyPatch.Record.Basic
import CopyPatch.Source.Names
import CopyPatch.Text.Capital

/-! Fragments of the generated source: a family's declarations, its tables of blueprints and its
accessor. -/
namespace CopyPatch.Source

/-- The crate that the generated items refer to. -/
def core : String := "::patchwork_core"

/-- Text on lines of its own. -/
def lines (parts : List String) : String := String.join (parts.map (· ++ "\n"))

def braced (text : String) : String := "\x7b " ++ text ++ " \x7d"

/-- The lifetime of everything generated. -/
def forever : String := "<'static>"

/-- The type of an accessor's parameter. -/
def parameterType (family : String) (axis : AxisSignature) : String :=
  match axis.kind with
  | .type => core ++ "::TypeId"
  | .bool => "bool"
  | .enum _ => (enumTypeName? family axis).getD "u64"

def kindExpression : AxisKind → String
  | .type => core ++ "::AxisKind::Type"
  | .bool => core ++ "::AxisKind::Bool"
  | .enum count => core ++ "::AxisKind::Enum " ++ braced s!"count: {count}"

def words (values : List UInt32) : String := Text.bracketed (values.map toString)

def siteExpression (site : FixupSite) : String :=
  core ++ "::FixupSite " ++ braced s!"offset: {site.offset}, ordinal: {site.ordinal}"

def sites (all : List FixupSite) : String := Text.bracketed (all.map siteExpression)

def slotExpression (slot : Slot) : String :=
  if slot.isVacant then core ++ "::EMPTY_SLOT"
  else core ++ "::HashSlot " ++
    braced s!"ordinal: {slot.ordinal}, fingerprint: {Text.hexMarked slot.fingerprint.toNat}"

/-- How a value of an axis is shown in comments. -/
def valueText (axis : AxisSignature) (value : UInt64) : String :=
  match axis.kind with
  | .type => ((TypeId.decode value).map TypeId.display).getD (toString value)
  | .bool => if value = 0 then "false" else "true"
  | .enum _ => (axis.variants[value.toNat]?).getD (toString value)

/-- A tuple in comments: each axis with its value. -/
def describeTuple (signature : List AxisSignature) (tuple : Tuple) : String :=
  ", ".intercalate ((signature.zip tuple).map fun (axis, value) =>
    axis.name ++ " = " ++ valueText axis value)

/-- The declaration of a named enumeration axis. -/
def enumDeclaration (family : String) (axis : AxisSignature) : String :=
  match enumTypeName? family axis with
  | none => ""
  | some type =>
    let names := variantNames axis.variants
    lines ([s!"/// Values of axis {Text.quoted axis.name} of family {Text.quoted family}.",
      "#[derive(Debug, Clone, Copy, PartialEq, Eq, Hash)]",
      "#[repr(u64)]",
      "pub enum " ++ type ++ " \x7b"] ++
      (names.zipIdx.map fun (name, i) => s!"    {name} = {i},") ++
      ["\x7d", ""])

/-- The parameters of a family, each axis named by `name`. -/
def parameters (name : String → String) (family : CompiledFamily) : String :=
  ", ".intercalate (family.signature.map fun axis =>
    name axis.name ++ ": " ++ parameterType family.name axis)

/-- The constant that holds a family's axis layout. -/
def axesName (family : CompiledFamily) : String := Text.capitals family.name ++ "_AXES"

/-- The declarations of a family: its enumerations and its axis layout. -/
def declarations (family : CompiledFamily) : String :=
  String.join (family.signature.map (enumDeclaration family.name)) ++
  lines [
    s!"/// Axis layout of family {Text.quoted family.name}: `({parameters id family})`.",
    s!"pub const {axesName family}: &[{core}::AxisKind] = &" ++
      Text.bracketed (family.axisKinds.map kindExpression) ++ ";",
    ""]

/-- The bytes of code, sixteen to a line. -/
def codeLines (code : Bytes) : List String :=
  (Bytes.chunks 16 code).map fun chunk =>
    "        " ++ ", ".intercalate (chunk.map fun b => "0x" ++ Text.hexByte b) ++ ","

/-- The static items of one variant. -/
def variantItems (signature : List AxisSignature) (i : Nat) (variant : CompiledVariant) :
    String :=
  let code := variant.code
  let counts := code.counts
  lines ([s!"    static V{i}_CODE: [u8; {code.code.length}] = ["] ++ codeLines code.code ++ [
    "    ];",
    s!"    /// {Text.quoted code.symbol} for `({describeTuple signature variant.tuple})`.",
    s!"    pub static V{i}: {core}::Blueprint{forever} = {core}::Blueprint " ++ "\x7b",
    s!"        symbol: \"{code.symbol}\",",
    s!"        code: &V{i}_CODE,",
    s!"        unpadded_len: {code.unpaddedLen},",
    s!"        self_relative32: &{words code.selfRelative32},",
    s!"        symbol32: &{sites code.symbol32},",
    s!"        symbol64: &{sites code.symbol64},",
    s!"        thread_local32: &{words code.threadLocal32},",
    s!"        fixup_counts: {core}::FixupCounts " ++
      braced (s!"boilerplate_fns: {counts.boilerplates}, host_fns: {counts.hosts}, " ++
        s!"constants: {counts.constants}") ++ ",",
    "    \x7d;",
    ""])

/-- The static items of a family's index and of the family itself. -/
def familyItems (family : CompiledFamily) : String :=
  let index := family.index
  lines ([s!"    static SLOTS: [{core}::HashSlot; {index.slots.size}] = ["] ++
    (index.slots.toList.map fun slot => s!"        {slotExpression slot},") ++ [
    "    ];",
    "",
    s!"    pub static FAMILY: {core}::BoilerplateFamily{forever} = {core}::BoilerplateFamily " ++
      "\x7b",
    s!"        name: \"{family.name}\",",
    s!"        axes: super::{axesName family},",
    s!"        index: {core}::PerfectHashIndex " ++ "\x7b",
    s!"            h1: &{words index.h1},",
    s!"            h2: &{words index.h2},",
    s!"            h3: &{words index.h3},",
    "            slots: &SLOTS,",
    "        \x7d,",
    "        variants: &" ++
      Text.bracketed ((List.range family.variants.length).map fun i => s!"&V{i}") ++ ",",
    "    \x7d;"])

/-- The module of a family's tables. -/
def familyModule (family : CompiledFamily) : String :=
  lines [
    s!"/// Blueprints of family {Text.quoted family.name} ({family.variants.length} variants).",
    "pub mod " ++ itemName family.name ++ " \x7b"] ++
  String.join (family.variants.zipIdx.map fun (variant, i) =>
    variantItems family.signature i variant) ++
  familyItems family ++
  lines ["\x7d", ""]

/-- A parameter as the word that the index takes. -/
def encodedParameter (axis : AxisSignature) : String :=
  let name := itemName axis.name
  match axis.kind with
  | .type => name ++ ".encode()"
  | .bool => s!"u64::from({name})"
  | .enum _ => if axis.variants.isEmpty then name else name ++ " as u64"

/-- The function that selects a blueprint of a family. -/
def accessor (family : CompiledFamily) : String :=
  let params := parameters itemName family
  lines [
    s!"/// Select the {Text.quoted family.name} blueprint for a parameter tuple.",
    "///",
    "/// Panics if the tuple was excluded when the library was built.",
    s!"pub fn select_{family.name}_blueprint({params}) -> &'static {core}::Blueprint{forever} " ++
      "\x7b",
    s!"    {itemName family.name}::FAMILY.select(&" ++
      Text.bracketed (family.signature.map encodedParameter) ++ ")",
    "\x7d",
    ""]

end CopyPatch.Source
