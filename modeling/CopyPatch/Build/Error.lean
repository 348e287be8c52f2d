import CopyPatch.Files.Cause
import CopyPatch.Index.Build
import CopyPatch.Manifest.Issue
import CopyPatch.Object.Reader

/-! What can go wrong in a build. Every error ends it: a bad input must not become a library that
is subtly wrong. -/
namespace CopyPatch

/-- What can be wrong with an object file. -/
inductive ObjectIssue where
  /-- The bytes, or a part of them that is needed, cannot be read. -/
  | unreadable
  | beyondSection (symbol : String)
  | relocationPastCode (symbol : String) (offset : UInt32)
  deriving DecidableEq, Repr

def ObjectIssue.message : ObjectIssue → String
  | unreadable => "not a readable object file"
  | beyondSection symbol => s!"{Text.quoted symbol} extends beyond .text.{symbol}"
  | relocationPastCode symbol offset =>
    s!"relocation at {Text.quoted symbol}+{Text.hexMarked offset.toNat} runs past the code"

inductive BuildError where
  | io (path : String) (cause : Files.Cause)
  | inputCountMismatch (manifests objects : Nat)
  | malformedModule (moduleName : String) (issue : ModuleIssue)
  | malformedObject (moduleName : String) (issue : ObjectIssue)
  | unsupportedFormat (moduleName : String) (format : Object.Format)
  | model (cause : ModelError)
  | unknownBody (moduleName family symbol : String) (declared : Bool)
  | ambiguousAddress (moduleName : String) (address : Nat) (symbols : List String)
  | unresolvedAddress (moduleName : String) (address : Nat)
  | missingCode (moduleName symbol : String)
  | unsupportedRelocation (symbol : String) (offset : UInt32) (type : Nat)
  | unsupportedTarget (symbol : String) (offset : UInt32) (target : String)
  | addendOutOfRange (symbol : String) (offset : UInt32) (addend : Int)
  | index (cause : IndexError)
  | duplicateFamily (family first second : String)
  deriving DecidableEq, Repr

namespace BuildError

/-- A place in the code of a symbol. -/
def placeText (symbol : String) (offset : UInt32) : String :=
  Text.quoted symbol ++ "+" ++ Text.hexMarked offset.toNat

def message : BuildError → String
  | io path cause => s!"I/O error on {path}: {cause.message}"
  | inputCountMismatch manifests objects =>
    s!"{manifests} manifest(s) but {objects} object file(s); the lists pair up by index"
  | malformedModule name issue => s!"malformed module {Text.quoted name}: {issue.message}"
  | malformedObject name issue =>
    s!"malformed object for module {Text.quoted name}: {issue.message}"
  | unsupportedFormat name format =>
    s!"module {Text.quoted name}: unsupported object format ({format.describe}); " ++
      "expected 64-bit little-endian x86-64 ELF"
  | model cause => cause.message
  | unknownBody name family symbol declared =>
    s!"module {Text.quoted name}, family {Text.quoted family}: body {Text.quoted symbol} is " ++
      (if declared then "declared but not defined" else "not declared")
  | ambiguousAddress name address symbols =>
    s!"module {Text.quoted name}: address {Text.hexMarked address} maps to several symbols: " ++
      ", ".intercalate symbols
  | unresolvedAddress name address =>
    s!"module {Text.quoted name}: address {Text.hexMarked address} maps to no defined symbol"
  | missingCode name symbol =>
    s!"module {Text.quoted name}: no code section `.text.{symbol}` " ++
      s!"for boilerplate {Text.quoted symbol}"
  | unsupportedRelocation symbol offset type =>
    s!"{placeText symbol offset}: unsupported relocation Elf \x7b r_type: {type} \x7d"
  | unsupportedTarget symbol offset target =>
    s!"{placeText symbol offset}: unsupported relocation target {target}"
  | addendOutOfRange symbol offset addend =>
    s!"{placeText symbol offset}: addend {addend} does not fit the relocation field"
  | index cause => cause.message
  | duplicateFamily family first second =>
    s!"family {Text.quoted family} is defined by both {Text.quoted first} and {Text.quoted second}"

/-- The error of a module whose object file is not accepted. -/
def ofRejection (moduleName : String) : Object.Rejection → BuildError
  | .malformed => malformedObject moduleName .unreadable
  | .unsupported format => unsupportedFormat moduleName format

end BuildError

/-- Read the object file of a module. -/
def Object.acceptFor (moduleName : String) (file : Bytes) : Except BuildError ObjectFile :=
  (Object.accept file).mapError (BuildError.ofRejection moduleName)

end CopyPatch
