import CopyPatch.Bytes

/-! An object file as the rest of the library sees it: numbered sections with their bytes and
relocations, and a numbered symbol table. Names and bytes that the file does not hold are
absent. -/
namespace CopyPatch

namespace Object

/-- What a symbol denotes. -/
inductive SymbolType where
  | unknown | data | text | region | file | tls
  deriving DecidableEq, Repr

/-- The word messages use for a symbol type. -/
def SymbolType.name : SymbolType → String
  | unknown => "Unknown" | data => "Data" | text => "Text"
  | region => "Section" | file => "File" | tls => "Tls"

/-- Where a symbol is defined. -/
inductive Place where
  | undefined
  | inSection (index : Nat)
  | absolute
  | common
  | other
  deriving DecidableEq, Repr

structure Symbol where
  /-- Absent when it cannot be read or is not UTF-8. -/
  name : Option String
  isGlobal : Bool
  type : SymbolType
  place : Place
  address : Nat
  size : Nat
  /-- Whether the entry gives a function or a datum a body. -/
  isDefinition : Bool
  deriving DecidableEq, Repr

structure Relocation where
  offset : Nat
  type : Nat
  /-- Position in the symbol table; zero is no symbol. -/
  symbol : Nat
  /-- Absent when the addend stands in the relocated field. -/
  addend : Option Int
  deriving DecidableEq, Repr

structure Section where
  index : Nat
  /-- Absent when it cannot be read or is not UTF-8. -/
  name : Option String
  address : Nat
  alignment : Nat
  size : Nat
  /-- Absent when the section leaves the file. -/
  data : Option Bytes
  relocations : List Relocation
  deriving DecidableEq, Repr

end Object

/-- Sections and symbols by position; position zero of each is the null entry. -/
structure ObjectFile where
  sections : List Object.Section
  symbols : List Object.Symbol
  deriving DecidableEq, Repr

namespace ObjectFile

/-- The sections after the null entry. -/
def properSections (file : ObjectFile) : List Object.Section := file.sections.drop 1

/-- The symbols after the null entry. -/
def properSymbols (file : ObjectFile) : List Object.Symbol := file.symbols.drop 1

/-- The first section of a name. -/
def sectionNamed? (file : ObjectFile) (name : String) : Option Object.Section :=
  file.sections.find? fun s => s.name == some name

end ObjectFile

end CopyPatch
