import CopyPatch.Object.Basic
import CopyPatch.Object.Format

/-! Reading an ELF file of either word width and byte order into sections and symbols. Every table
must lie inside the file and have entries of the right size; a file for which this fails is
malformed and has no reading. -/
namespace CopyPatch

namespace Object.Elf

/-- The fields of the file header that lead to the tables. -/
structure Header where
  type : Nat
  machine : Nat
  programOffset : Nat
  sectionOffset : Nat
  programEntrySize : Nat
  programCount : Nat
  sectionEntrySize : Nat
  sectionCount : Nat
  nameTable : Nat
  deriving DecidableEq, Repr

/-- Sizes of the header and of table entries. -/
structure Sizes where
  header : Nat
  program : Nat
  region : Nat
  symbol : Nat
  rel : Nat
  rela : Nat
  deriving DecidableEq, Repr

def sizes (e : Encoding) : Sizes :=
  if e.wide then ⟨64, 56, 64, 24, 16, 24⟩ else ⟨52, 32, 40, 16, 8, 12⟩

/-- The identification bytes: class, byte order and version. -/
def encoding? (file : Bytes) : Option Encoding := do
  let ident ← file.slice? 0 16
  match ident with
  | 0x7f :: 0x45 :: 0x4c :: 0x46 :: wordClass :: order :: version :: _ =>
    let wide ← match wordClass with
      | 1 => some false
      | 2 => some true
      | _ => none
    let big ← match order with
      | 1 => some false
      | 2 => some true
      | _ => none
    if version = 1 then some ⟨wide, big⟩ else none
  | _ => none

def header? (e : Encoding) (file : Bytes) : Option Header := do
  let h ← file.slice? 0 (sizes e).header
  return {
    type := e.number h 16 2
    machine := e.number h 18 2
    programOffset := e.either h (32, 8) (28, 4)
    sectionOffset := e.either h (40, 8) (32, 4)
    programEntrySize := e.either h (54, 2) (42, 2)
    programCount := e.either h (56, 2) (44, 2)
    sectionEntrySize := e.either h (58, 2) (46, 2)
    sectionCount := e.either h (60, 2) (48, 2)
    nameTable := e.either h (62, 2) (50, 2) }

/-- A table of equal entries, if it fits. -/
def table? (file : Bytes) (offset count size : Nat) : Option (List Bytes) :=
  (file.slice? offset (count * size)).map (Bytes.chunks size)

structure SectionHeader where
  name : Nat
  type : Nat
  address : Nat
  offset : Nat
  size : Nat
  link : Nat
  info : Nat
  alignment : Nat
  deriving DecidableEq, Repr

def sectionHeader (e : Encoding) (entry : Bytes) : SectionHeader where
  name := e.number entry 0 4
  type := e.number entry 4 4
  address := e.either entry (16, 8) (12, 4)
  offset := e.either entry (24, 8) (16, 4)
  size := e.either entry (32, 8) (20, 4)
  link := e.either entry (40, 4) (24, 4)
  info := e.either entry (44, 4) (28, 4)
  alignment := e.either entry (48, 8) (32, 4)

/-- The first section header, which holds counts too large for the file header. -/
def firstSection? (e : Encoding) (file : Bytes) (h : Header) : Option SectionHeader :=
  if h.sectionEntrySize = (sizes e).region then
    (file.slice? h.sectionOffset (sizes e).region).map (sectionHeader e)
  else none

/-- The program header table, which is not used, must fit where there is one. -/
def programTableFits (e : Encoding) (file : Bytes) (h : Header) : Bool :=
  if h.programOffset = 0 then true
  else
    let count := if h.programCount < 0xffff then some h.programCount
      else if h.sectionOffset = 0 then none
      else (firstSection? e file h).map (·.info)
    match count with
    | none => false
    | some count =>
      count = 0 ||
        (h.programEntrySize = (sizes e).program &&
          (file.slice? h.programOffset (count * (sizes e).program)).isSome)

def sectionHeaders? (e : Encoding) (file : Bytes) (h : Header) : Option (List SectionHeader) :=
  if h.sectionOffset = 0 then some []
  else do
    let count ← if h.sectionCount ≠ 0 then some h.sectionCount
      else (firstSection? e file h).map (·.size)
    if count = 0 then return []
    if h.sectionEntrySize ≠ (sizes e).region then none
    return (← table? file h.sectionOffset count (sizes e).region).map (sectionHeader e)

def noBits : Nat := 8

/-- The bytes of a section: none in the file for one without bits. -/
def data? (file : Bytes) (s : SectionHeader) : Option Bytes :=
  if s.type = noBits then some [] else file.slice? s.offset s.size

/-- A stretch of the file that holds names. -/
structure Strings where
  start : Nat
  stop : Nat
  deriving DecidableEq, Repr

/-- The names a section holds; none for a section without bits. -/
def strings? (s : SectionHeader) : Option (Option Strings) :=
  if s.type = noBits then some none
  else if s.offset + s.size < 2 ^ 64 then some (some ⟨s.offset, s.offset + s.size⟩)
  else none

/-- The bytes from an offset up to the zero byte that ends them. -/
def Strings.bytes? (file : Bytes) (strings : Strings) (offset : Nat) : Option Bytes :=
  let start := strings.start + offset
  if start ≤ strings.stop then do
    let rest ← file.slice? start (strings.stop - start)
    if 0 ∈ rest then some (rest.takeWhile (· ≠ 0)) else none
  else none

def nameAt? (file : Bytes) (strings : Option Strings) (offset : Nat) : Option String := do
  (← (← strings).bytes? file offset).toText?

/-- Where section names stand. -/
def sectionNames? (e : Encoding) (file : Bytes) (h : Header) (headers : List SectionHeader) :
    Option (Option Strings) :=
  if headers.isEmpty then some none
  else do
    let index ← if h.nameTable ≠ 0xffff then some h.nameTable
      else (firstSection? e file h).map (·.link)
    if index = 0 then none
    else strings? (← headers[index]?)

/-- A symbol table as it stands in the file. -/
structure SymbolTable where
  /-- Its section; zero when the file has none. -/
  index : Nat
  entries : List Bytes
  names : Option Strings
  /-- Section numbers of symbols whose own field is too narrow. -/
  wideSections : List Bytes
  deriving DecidableEq, Repr

def stringTable : Nat := 3
def wideSectionTable : Nat := 18

/-- The names a symbol table refers to: its linked section must be a string table. -/
def linkedNames? (headers : List SectionHeader) (link : Nat) : Option (Option Strings) :=
  if link = 0 then some none
  else do
    let s ← headers[link]?
    if s.type = stringTable then strings? s else none

/-- Entries of a section that must be whole in number. -/
def entries? (file : Bytes) (s : SectionHeader) (size : Nat) : Option (List Bytes) := do
  let bytes ← data? file s
  if bytes.length % size = 0 then some (Bytes.chunks size bytes) else none

/-- The first symbol table of a type. -/
def symbolTable? (e : Encoding) (file : Bytes) (headers : List SectionHeader) (type : Nat) :
    Option SymbolTable :=
  match headers.zipIdx.find? fun (s, _) => s.type = type with
  | none => some ⟨0, [], none, []⟩
  | some (s, index) => do
    let entries ← entries? file s (sizes e).symbol
    let names ← linkedNames? headers s.link
    let wide ← (headers.filter fun t => t.type = wideSectionTable && t.link = index).mapM
      fun t => entries? file t 4
    return ⟨index, entries, names, wide.getLastD []⟩

def symbolType : Nat → SymbolType
  | 1 | 5 => .data
  | 2 | 10 => .text
  | 3 => .region
  | 4 => .file
  | 6 => .tls
  | _ => .unknown

def reserved : Nat := 0xff00
def widened : Nat := 0xffff

/-- Where a section number points. The widened number is looked up in its own table, where zero is
no section. -/
def place (sectionNumber : Nat) (wide : Option Nat) : Place :=
  if sectionNumber = 0 then .undefined
  else if sectionNumber < reserved then .inSection sectionNumber
  else if sectionNumber = 0xfff1 then .absolute
  else if sectionNumber = 0xfff2 then .common
  else if sectionNumber = widened then
    match wide with
    | none | some 0 => .other
    | some number => .inSection number
  else .other

def symbol (e : Encoding) (file : Bytes) (table : SymbolTable) (entry : Bytes) (index : Nat) :
    Symbol :=
  let info := e.either entry (4, 1) (12, 1)
  let sectionNumber := e.either entry (6, 2) (14, 2)
  let size := e.either entry (16, 8) (8, 4)
  { name := nameAt? file table.names (e.number entry 0 4)
    isGlobal := info / 16 ≠ 0
    type := symbolType (info % 16)
    place := place sectionNumber ((table.wideSections[index]?).map fun w => e.number w 0 4)
    address := e.either entry (8, 8) (4, 4)
    size := size
    isDefinition := sectionNumber ≠ 0 && (sectionNumber < reserved || sectionNumber = widened) &&
      (info % 16 = 1 || info % 16 = 2 || (info % 16 = 0 && size ≠ 0)) }

/-- A section of relocations. -/
def isRelocations (s : SectionHeader) : Bool := s.type = 4 || s.type = 9

/-- Relocation sections count when they refer to the symbol table and apply to a section. -/
def applies (table : SymbolTable) (s : SectionHeader) : Bool :=
  isRelocations s && s.link = table.index && s.info ≠ 0

/-- Relocations may not apply to a section that is not there or holds relocations itself. -/
def relocationsWellPlaced (headers : List SectionHeader) (table : SymbolTable) : Bool :=
  headers.all fun s => !applies table s ||
    match headers[s.info]? with
    | none => false
    | some target => !isRelocations target

def relocation (e : Encoding) (explicit : Bool) (entry : Bytes) : Relocation :=
  let info := e.either entry (8, 8) (4, 4)
  let width := if e.wide then 8 else 4
  { offset := e.either entry (0, 8) (0, 4)
    type := if e.wide then info % 2 ^ 32 else info % 256
    symbol := if e.wide then info / 2 ^ 32 else info / 256
    addend := if explicit then some (Bytes.signed width (e.either entry (16, 8) (8, 4))) else none }

/-- The relocations one section holds; one whose entries are not whole holds none. -/
def relocationsIn (e : Encoding) (file : Bytes) (s : SectionHeader) : List Relocation :=
  let explicit := s.type = 4
  ((entries? file s (if explicit then (sizes e).rela else (sizes e).rel)).getD []).map
    (relocation e explicit)

/-- The relocation sections that apply to a section, in file order. A relocation section is
followed by the later ones for its own target. -/
def relocationSections (headers : List SectionHeader) (table : SymbolTable) (index : Nat) :
    List SectionHeader :=
  let all := headers.zipIdx.filter fun (s, _) => applies table s
  match all.find? fun (_, i) => i = index with
  | some (own, _) => (all.filter fun (s, i) => s.info = own.info && index < i).map (·.1)
  | none => (all.filter fun (s, _) => s.info = index).map (·.1)

def region (e : Encoding) (file : Bytes) (names : Option Strings) (headers : List SectionHeader)
    (table : SymbolTable) (s : SectionHeader) (index : Nat) : Section where
  index := index
  name := nameAt? file names s.name
  address := s.address
  alignment := s.alignment
  size := s.size
  data := data? file s
  relocations := (relocationSections headers table index).flatMap (relocationsIn e file)

def symbolTableType : Nat := 2
def dynamicSymbolTableType : Nat := 11

/-- Read a whole file: its format, sections and symbols. -/
def read (file : Bytes) : Option (Format × ObjectFile) := do
  let e ← encoding? file
  let h ← header? e file
  if !programTableFits e file h then none
  let headers ← sectionHeaders? e file h
  let names ← sectionNames? e file h headers
  let table ← symbolTable? e file headers symbolTableType
  let _ ← symbolTable? e file headers dynamicSymbolTableType
  if !relocationsWellPlaced headers table then none
  let sections := headers.zipIdx.map fun (s, i) => region e file names headers table s i
  let symbols := table.entries.zipIdx.map fun (entry, i) => symbol e file table entry i
  return (⟨.elf, elfArchitecture h.machine e.wide, elfPurpose h.type, e⟩, ⟨sections, symbols⟩)

end Object.Elf

end CopyPatch
