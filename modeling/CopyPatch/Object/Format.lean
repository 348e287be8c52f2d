import CopyPatch.Bytes

/-! Recognising an object file: the container it is in, the machine and purpose it is for, its
word width and byte order. Only 64-bit little-endian x86-64 relocatable ELF files are supported;
for the others a description is all that is kept. -/
namespace CopyPatch

namespace Object

/-- Word width and byte order of the numbers in a file. -/
structure Encoding where
  wide : Bool
  bigEndian : Bool
  deriving DecidableEq, Repr

namespace Encoding

/-- The number in the `width` bytes from `start` on. -/
def number (e : Encoding) (entry : Bytes) (start width : Nat) : Nat :=
  let bytes := (entry.drop start).take width
  Bytes.value (if e.bigEndian then bytes.reverse else bytes)

/-- The number at one place in a wide file and another in a narrow one. -/
def either (e : Encoding) (entry : Bytes) (wide narrow : Nat × Nat) : Nat :=
  if e.wide then e.number entry wide.1 wide.2 else e.number entry narrow.1 narrow.2

end Encoding

inductive Container where
  | elf | coff | machO
  deriving DecidableEq, Repr

def Container.name : Container → String
  | elf => "Elf" | coff => "Coff" | machO => "MachO"

/-- What a file is for. -/
inductive Purpose where
  | relocatable | executable | dynamic | core | unknown
  deriving DecidableEq, Repr

def Purpose.name : Purpose → String
  | relocatable => "Relocatable" | executable => "Executable" | dynamic => "Dynamic"
  | core => "Core" | unknown => "Unknown"

structure Format where
  container : Container
  architecture : String
  purpose : Purpose
  encoding : Encoding
  deriving DecidableEq, Repr

namespace Format

/-- The one supported format. -/
def supported : Format := ⟨.elf, "X86_64", .relocatable, ⟨true, false⟩⟩

/-- The description in messages; it does not tell the byte order. -/
def describe (f : Format) : String :=
  f.container.name ++ " " ++ f.architecture ++ " " ++ f.purpose.name ++
    (if f.encoding.wide then "" else " 32-bit")

end Format

/-- Architecture by ELF machine number and word width. -/
def elfArchitecture (machine : Nat) (wide : Bool) : String :=
  match machine, wide with
  | 3, _ => "I386"
  | 8, true => "Mips64"
  | 8, false => "Mips"
  | 20, _ => "PowerPc"
  | 21, _ => "PowerPc64"
  | 22, true => "S390x"
  | 40, _ => "Arm"
  | 43, true => "Sparc64"
  | 62, true => "X86_64"
  | 62, false => "X86_64_X32"
  | 183, true => "Aarch64"
  | 183, false => "Aarch64_Ilp32"
  | 243, true => "Riscv64"
  | 243, false => "Riscv32"
  | 247, _ => "Bpf"
  | 258, true => "LoongArch64"
  | _, _ => "Unknown"

def elfPurpose : Nat → Purpose
  | 1 => .relocatable
  | 2 => .executable
  | 3 => .dynamic
  | 4 => .core
  | _ => .unknown

/-- A COFF file by its machine number: header, section table and symbol table must fit. -/
def coffFormat? (file : Bytes) : Option Format := do
  let e : Encoding := ⟨false, false⟩
  let header ← file.slice? 0 20
  let architecture ← match e.number header 0 2 with
    | 0x8664 => some "X86_64"
    | 0x014c => some "I386"
    | 0xaa64 => some "Aarch64"
    | _ => none
  let _ ← file.slice? (20 + e.number header 16 2) (40 * e.number header 2 2)
  let symbols := e.number header 8 4
  if symbols ≠ 0 then
    let _ ← file.slice? symbols (18 * e.number header 12 4 + 4)
  return ⟨.coff, architecture, .relocatable, e⟩

/-- A Mach-O file by its header, which alone tells the format. -/
def machOFormat? (wide : Bool) (file : Bytes) : Option Format := do
  let e : Encoding := ⟨wide, false⟩
  let size := if wide then 32 else 28
  let header ← file.slice? 0 size
  let architecture := match e.number header 4 4 with
    | 7 => "I386"
    | 8 => "Mips"
    | 12 => "Arm"
    | 18 => "PowerPc"
    | 0x01000007 => "X86_64"
    | 0x0100000c => "Aarch64"
    | 0x0200000c => "Aarch64_Ilp32"
    | 0x01000012 => "PowerPc64"
    | _ => "Unknown"
  let purpose := match e.number header 12 4 with
    | 1 => .relocatable
    | 2 => .executable
    | 4 => .core
    | 6 => .dynamic
    | _ => .unknown
  return ⟨.machO, architecture, purpose, e⟩

end Object

end CopyPatch
