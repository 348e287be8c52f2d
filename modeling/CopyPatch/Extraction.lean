import CopyPatch.Blueprint
import CopyPatch.Build.Error
import CopyPatch.Extraction.Padding
import CopyPatch.Fixup.Placeholder

/-! Extraction of a variant from its object file. The bytes of the symbol are cut out of its own
section, the constant part of every relocation in them is written into its field, and the
relocation becomes a fixup: its type decides how the field is patched, the placeholder it points
to decides with which value. -/
namespace CopyPatch

/-- A blueprint with its fixups in the order of their offsets. -/
structure ExtractedCode extends Blueprint where
  fixups : List FixupRecord
  deriving DecidableEq, Repr

namespace Extraction

/-- What a relocation points to: an open name, or something described. -/
inductive Target where
  | name (text : String)
  | other (description : String)
  deriving DecidableEq, Repr

structure TargetedRelocation where
  offset : Nat
  type : Nat
  addend : Option Int
  target : Target
  deriving DecidableEq, Repr

/-- The target of a relocation; none if the object does not hold it or its name. -/
def targetOf (file : ObjectFile) (relocation : Object.Relocation) : Option Target :=
  if relocation.symbol = 0 then some (.other "Absolute")
  else do
    let symbol ← file.symbols[relocation.symbol]?
    let name ← symbol.name
    if name = "" || symbol.place ≠ .undefined then
      return .other (symbol.type.name ++ " symbol " ++ Text.quoted name)
    else return .name name

def targeted (file : ObjectFile) (relocation : Object.Relocation) : Option TargetedRelocation :=
  (targetOf file relocation).map fun target =>
    ⟨relocation.offset, relocation.type, relocation.addend, target⟩

/-- Where the body of a symbol stands in its section. -/
structure Extent where
  home : Nat
  start : Nat
  size : Nat
  deriving DecidableEq, Repr

/-- The extent of a symbol that a section gives a body. -/
def extentOf? (file : ObjectFile) (symbol : Object.Symbol) :
    Except Fault (Option (String × Extent)) :=
  match symbol.name, symbol.place with
  | some name, .inSection index =>
    if name = "" || !symbol.isDefinition then .ok none
    else match file.sections[index]? with
      | some s => do
        let start ← Checked.sub symbol.address s.address
        return some (name, ⟨index, start, symbol.size⟩)
      | none => .ok (some (name, ⟨index, symbol.address, symbol.size⟩))
  | _, _ => .ok none

end Extraction

/-- An object prepared for extraction: its relocations by section and the extents of its symbols,
the last one of a name first. -/
structure Extractor where
  moduleName : String
  file : ObjectFile
  relocations : List (Nat × List Extraction.TargetedRelocation)
  extents : List (String × Extraction.Extent)
  deriving DecidableEq, Repr

namespace Extractor

open Extraction

/-- Prepare an object. Every relocation in it must have a readable target. -/
def ofFile (moduleName : String) (file : ObjectFile) : Outcome BuildError Extractor := do
  let relocations ← match file.properSections.mapM fun s =>
      (s.relocations.mapM (targeted file)).map fun found => (s.index, found) with
    | some relocations => pure relocations
    | none => Outcome.fail (.malformedObject moduleName .unreadable)
  let extents ← Outcome.ofFaulting (file.properSymbols.mapM (extentOf? file))
  return { moduleName, file, relocations, extents := (extents.filterMap id).reverse }

/-- The relocations of a section. -/
def relocationsOf (e : Extractor) (index : Nat) : List TargetedRelocation :=
  (e.relocations.lookup index).getD []

/-- The part of its section that a symbol takes: what the symbol table says, or all of it. -/
def range (e : Extractor) (symbol : String) (home : Object.Section) (len : Nat) :
    Except Fault (Nat × Nat) :=
  match e.extents.lookup symbol with
  | some extent =>
    if extent.home ≠ home.index then .ok (0, len)
    else if extent.size = 0 then .ok (extent.start, len)
    else (Checked.add 64 extent.start extent.size).map (extent.start, ·)
  | none => .ok (0, len)

/-- How the supported relocation types patch their field. -/
def kindOf? : Nat → Option RelocationKind
  | 1 => some .absolute64
  | 4 => some .selfRelative32
  | 23 => some .threadLocalOffset32
  | _ => none

/-- Whether a signed number fits in 32 bits. -/
def fitsSigned32 (n : Int) : Bool := -2 ^ 31 ≤ n && n < 2 ^ 31

/-- The constant part of a relocation, as its field holds it. -/
def constantPart (kind : RelocationKind) (offset : UInt32) (addend : Int) : Option Bytes :=
  match kind with
  | .absolute64 => some (Bytes.ofNat 8 (Bytes.residue 8 addend))
  | .selfRelative32 =>
    let baked := addend - offset.toNat
    if fitsSigned32 baked then some (Bytes.ofNat 4 (Bytes.residue 4 baked)) else none
  | .threadLocalOffset32 =>
    if fitsSigned32 addend then some (Bytes.ofNat 4 (Bytes.residue 4 addend)) else none

/-- Classify a relocation: how its field is patched, and with the value of which placeholder. -/
def classify (symbol : String) (offset : UInt32) (relocation : TargetedRelocation) :
    Except BuildError (RelocationKind × SymbolClass × UInt32) := do
  let kind ← match kindOf? relocation.type with
    | some kind => pure kind
    | none => throw (.unsupportedRelocation symbol offset relocation.type)
  match relocation.target with
  | .other description => throw (.unsupportedTarget symbol offset description)
  | .name name =>
    match ← (Placeholder.parse name).mapError BuildError.model with
    | none => throw (.unsupportedTarget symbol offset name)
    | some (symbolClass, ordinal) =>
      if (kind == .threadLocalOffset32) != (symbolClass == .threadLocalBase) then
        throw (.unsupportedTarget symbol offset (Text.quoted name ++ " for " ++ kind.name))
      return (kind, symbolClass, ordinal)

/-- Turn a relocation into a fixup and write its constant part into the code. -/
def bake (e : Extractor) (symbol : String) (code : Bytes) (offset : UInt32)
    (relocation : TargetedRelocation) : Except BuildError (Bytes × FixupRecord) := do
  let (kind, symbolClass, ordinal) ← classify symbol offset relocation
  match code.slice? offset.toNat kind.width with
  | none => throw (.malformedObject e.moduleName (.relocationPastCode symbol offset))
  | some field =>
    let addend := relocation.addend.getD (Bytes.signed kind.width (Bytes.value field))
    match constantPart kind offset addend with
    | none => throw (.addendOutOfRange symbol offset addend)
    | some baked => return (code.splice offset.toNat baked, ⟨offset, kind, symbolClass, ordinal⟩)

/-- Bake the relocations of a range one after another. -/
def bakeAll (e : Extractor) (symbol : String) (start stop : Nat) :
    List TargetedRelocation → Bytes → Except BuildError (Bytes × List FixupRecord)
  | [], code => .ok (code, [])
  | relocation :: rest, code =>
    if start ≤ relocation.offset && relocation.offset < stop then do
      let offset := UInt32.ofNat (relocation.offset - start)
      let (code, fixup) ← e.bake symbol code offset relocation
      let (code, fixups) ← e.bakeAll symbol start stop rest code
      return (code, fixup :: fixups)
    else e.bakeAll symbol start stop rest code

end Extractor

namespace Extraction

/-- How many values a class needs: one more than the largest position named. -/
def countOf (fixups : List FixupRecord) (symbolClass : SymbolClass) : Except Fault UInt32 := do
  let needs ← (fixups.filter (·.symbolClass = symbolClass)).mapM fun f => Checked.add32 f.ordinal 1
  return needs.foldl max 0

def countsOf (fixups : List FixupRecord) : Except Fault FixupCounts := do
  return {
    boilerplates := ← countOf fixups .boilerplate
    hosts := ← countOf fixups .host
    constants := ← countOf fixups .constant }

/-- Replace the position in its class by the packed position. -/
def packOrdinal (counts : FixupCounts) (fixup : FixupRecord) : Except Fault FixupRecord := do
  match ← counts.base fixup.symbolClass with
  | some base => return { fixup with ordinal := ← Checked.add32 base fixup.ordinal }
  | none => return { fixup with ordinal := 0 }

def site (fixup : FixupRecord) : FixupSite := ⟨fixup.offset, fixup.ordinal⟩

/-- Sort the fixups into their tables. -/
def assemble (symbol : String) (code : Bytes) (unpaddedLen : UInt32) (counts : FixupCounts)
    (fixups : List FixupRecord) : ExtractedCode :=
  let ofKind := fun kind => fixups.filter (·.kind = kind)
  { symbol, code, unpaddedLen, counts, fixups
    selfRelative32 := (ofKind .selfRelative32).map (·.offset)
    symbol32 := (ofKind .selfRelative32).map site
    symbol64 := (ofKind .absolute64).map site
    threadLocal32 := (ofKind .threadLocalOffset32).map (·.offset) }

/-- Pad the code, pack the positions and order the fixups by offset. -/
def finish (symbol : String) (code : Bytes) (fixups : List FixupRecord) :
    Except Fault ExtractedCode := do
  let counts ← countsOf fixups
  let packed ← fixups.mapM (packOrdinal counts)
  let sorted := packed.mergeSort fun a b => a.offset ≤ b.offset
  return assemble symbol (Padding.pad code) (UInt32.ofNat code.length) counts sorted

end Extraction

/-- Extract the variant whose body is `symbol`. -/
def Extractor.extract (e : Extractor) (symbol : String) : Outcome BuildError ExtractedCode := do
  match e.file.sectionNamed? (".text." ++ symbol) with
  | none => Outcome.fail (.missingCode e.moduleName symbol)
  | some home => match home.data with
    | none => Outcome.fail (.malformedObject e.moduleName .unreadable)
    | some data =>
      let (start, stop) ← Outcome.ofFaulting (e.range symbol home data.length)
      if stop < start || data.length < stop then
        Outcome.fail (.malformedObject e.moduleName (.beyondSection symbol))
      else
        let (code, fixups) ← Outcome.ofReporting
          (e.bakeAll symbol start stop (e.relocationsOf home.index)
            ((data.drop start).take (stop - start)))
        Outcome.ofFaulting (Extraction.finish symbol code fixups)

end CopyPatch
