import CopyPatch.CodeBuffer
import CopyPatch.Compile
import CopyPatch.Sample.Machine

/-! A small library of arithmetic blueprints, compiled from an object that is put together here,
and the sum of two constants as code that is built from it. -/
namespace CopyPatch.Sample

/-- Two sums, the return of a constant and a call. -/
def manifestText : String :=
  "\nmodule = \"arith\"\n\n" ++
  "[[family]]\nname = \"add\"\nbody = \"add_\x7bwidth\x7d\"\n" ++
  "axes = [ \x7b name = \"width\", kind = \"type\", values = [\"u8\", \"u64\"] \x7d ]\n\n" ++
  "[[family]]\nname = \"ret_const\"\nbody = \"ret_const\"\n\n" ++
  "[[family]]\nname = \"call_first\"\nbody = \"call_first\"\n"

def zeros (n : Nat) : Bytes := List.replicate n 0

/-- Load both constants. -/
def loadBoth : Bytes := [0x48, 0xb8] ++ zeros 8 ++ [0x48, 0xb9] ++ zeros 8

def addBytesCode : Bytes := loadBoth ++ [0x00, 0xc8, 0x0f, 0xb6, 0xc0, 0xc3]

def addWordsCode : Bytes := loadBoth ++ [0x48, 0x01, 0xc8, 0xc3]

def returnCode : Bytes := [0x48, 0xb8] ++ zeros 8 ++ [0xc3]

def callCode : Bytes := [0xe8] ++ zeros 4 ++ [0xc3]

/-- A section that holds the code of one function. -/
def codeSection (index : Nat) (name : String) (code : Bytes)
    (relocations : List Object.Relocation) : Object.Section :=
  ⟨index, some (".text." ++ name), 0, 16, code.length, some code, relocations⟩

def function (name : String) (index : Nat) (code : Bytes) : Object.Symbol :=
  ⟨some name, true, .text, .inSection index, 0, code.length, true⟩

def undefinedSymbol (name : String) : Object.Symbol :=
  ⟨some name, true, .unknown, .undefined, 0, 0, false⟩

/-- Relocations of two constants, symbols two and three of the object. -/
def twoConstants : List Object.Relocation := [⟨2, 1, 2, some 0⟩, ⟨12, 1, 3, some 0⟩]

/-- The object of the library. -/
def object : ObjectFile where
  sections := [
    ⟨0, some "", 0, 0, 0, some [], []⟩,
    codeSection 1 "add_u8" addBytesCode twoConstants,
    codeSection 2 "add_u64" addWordsCode twoConstants,
    codeSection 3 "ret_const" returnCode [⟨2, 1, 2, some 0⟩],
    codeSection 4 "call_first" callCode [⟨1, 4, 7, some (-4)⟩]]
  symbols := [
    ⟨some "", false, .unknown, .undefined, 0, 0, false⟩,
    function "add_u8" 1 addBytesCode,
    undefinedSymbol (Placeholder.name .constant 0),
    undefinedSymbol (Placeholder.name .constant 1),
    function "add_u64" 2 addWordsCode,
    function "ret_const" 3 returnCode,
    function "call_first" 4 callCode,
    undefinedSymbol (Placeholder.name .boilerplate 0)]

/-- The compiled library. -/
def library : Outcome BuildError CompiledModule := do
  let manifest ← Outcome.ofReporting ((Manifest.parse "arith.toml" manifestText).mapError
    fun (name, issue) => BuildError.malformedModule name issue)
  (← manifest.prepare object fun _ => none).finish (some 1)

/-- A family of the library; one that is missing selects nothing. -/
def family (name : String) : Family :=
  match library with
  | .ok compiled => ((compiled.family? name).map CompiledFamily.toFamily).getD
      ⟨name, [], ⟨[], [], [], #[]⟩, []⟩
  | .error _ => ⟨name, [], ⟨[], [], [], #[]⟩, []⟩

def selectAdd (width : TypeId) : Except Fault Blueprint := (family "add").select [width.encode]

def selectReturn : Except Fault Blueprint := (family "ret_const").select []

def selectCall : Except Fault Blueprint := (family "call_first").select []

/-- Why a sum could not be made. -/
inductive SumError where
  | patch (cause : PatchError)
  | mapping (cause : MappingError)
  deriving DecidableEq, Repr

/-- Code for the sum of two constants, at some address. -/
def sumCode (base : UInt64) (width : Primitive) (lhs rhs : UInt64) : Outcome SumError Bytes := do
  let blueprint ← Outcome.ofFaulting (selectAdd (.value width))
  let buffer ← (CodeBuffer.withCapacity base blueprint.code.length).mapError SumError.mapping
  let (buffer, emitted) := buffer.emit none blueprint ⟨[], [], [lhs, rhs]⟩
  let piece ← emitted.mapError SumError.patch
  return (buffer.code.drop piece.offset).take piece.length

/-- The sum of two constants, computed by the code that was made for it. -/
def constantSum (base : UInt64) (width : Primitive) (lhs rhs : UInt64) :
    Outcome SumError (Option UInt64) :=
  (sumCode base width lhs rhs).map run

end CopyPatch.Sample
