import CopyPatch.Digest.Sha256
import CopyPatch.Manifest.Check
import CopyPatch.Random.Keystream
import CopyPatch.Record.Basic
import CopyPatch.Registration

/-! Compiling a module. Preparing reads the manifest and the object and registers every family;
finishing leads the registered addresses back to symbols, extracts their code and builds the index
of each family. -/
namespace CopyPatch

/-- A manifest with its object, the addresses it was loaded at and the registered families. -/
structure PreparedModule where
  manifest : Manifest
  file : ObjectFile
  map : LoadMap
  registrations : List Registration
  deriving DecidableEq, Repr

/-- Load the object of a manifest and register its families, given the addresses the process
knows. -/
def Manifest.prepare (manifest : Manifest) (file : ObjectFile) (process : String → Option Nat) :
    Outcome BuildError PreparedModule := do
  let (loaded, map) := LoadMap.load process manifest.moduleName file {}
  loaded
  let registrations ← manifest.families.mapM fun decl => decl.register manifest.moduleName map
  return { manifest, file, map, registrations }

/-- The seed of a family's index: the first eight bytes of the digest of its name, varied by the
seed of the build. -/
def familySeed (family : String) (base : Option UInt64) : UInt64 :=
  UInt64.ofNat (Bytes.value ((sha256 (Bytes.ofText family)).take 8)) ^^^ base.getD 0

/-- Extract one registered variant. -/
def PreparedModule.variant (prepared : PreparedModule) (extractor : Extractor)
    (entry : Tuple × Nat) : Outcome BuildError CompiledVariant := do
  let symbol ← Outcome.ofReporting (prepared.map.resolve prepared.manifest.moduleName entry.2)
  return ⟨entry.1, ← extractor.extract symbol⟩

/-- Extract the variants of a family and build its index. -/
def PreparedModule.family (prepared : PreparedModule) (extractor : Extractor)
    (seed : Option UInt64) (decl : FamilyDecl) (registration : Registration) :
    Outcome BuildError CompiledFamily := do
  let variants ← registration.entries.mapM (prepared.variant extractor)
  let index ← (Index.build decl.name decl.axes.length (variants.map (·.tuple)) Keystream.next
    (Keystream.ofSeed (familySeed decl.name seed))).mapError BuildError.index
  return ⟨decl.name, decl.signature, variants, index⟩

/-- Extract all variants of a prepared module. -/
def PreparedModule.finish (prepared : PreparedModule) (seed : Option UInt64) :
    Outcome BuildError CompiledModule := do
  let extractor ← Extractor.ofFile prepared.manifest.moduleName prepared.file
  let families ← (prepared.manifest.families.zip prepared.registrations).mapM
    fun (decl, registration) => prepared.family extractor seed decl registration
  return ⟨prepared.manifest.moduleName, families⟩

/-- A module as it is read: where its manifest is from, the text of it, and the object file. -/
structure ModuleSource where
  origin : String
  manifest : String
  object : Bytes
  deriving DecidableEq, Repr

namespace ModuleSource

/-- Read a module and register its families. -/
def prepare (source : ModuleSource) (process : String → Option Nat) :
    Outcome BuildError PreparedModule := do
  let manifest ← Outcome.ofReporting ((Manifest.parse source.origin source.manifest).mapError
    fun (name, issue) => BuildError.malformedModule name issue)
  let file ← Outcome.ofReporting (Object.acceptFor manifest.moduleName source.object)
  manifest.prepare file process

/-- Compile one module. -/
def compile (source : ModuleSource) (process : String → Option Nat) (seed : Option UInt64) :
    Outcome BuildError CompiledModule := do
  (← source.prepare process).finish seed

end ModuleSource

end CopyPatch
