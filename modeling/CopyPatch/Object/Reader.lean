import CopyPatch.Object.Elf

/-! Reading an object file of any known container and accepting it if it is of the supported
format. -/
namespace CopyPatch

namespace Object

/-- Recognise a file by its first bytes and read it. A container other than ELF has no sections
that matter here. -/
def read (file : Bytes) : Option (Format × ObjectFile) := do
  match ← file.slice? 0 16 with
  | 0x7f :: 0x45 :: 0x4c :: 0x46 :: _ => Elf.read file
  | 0xcf :: 0xfa :: 0xed :: 0xfe :: _ => (machOFormat? true file).map (·, ⟨[], []⟩)
  | 0xce :: 0xfa :: 0xed :: 0xfe :: _ => (machOFormat? false file).map (·, ⟨[], []⟩)
  | 0x64 :: 0x86 :: _ | 0x4c :: 0x01 :: _ | 0x64 :: 0xaa :: _ =>
    (coffFormat? file).map (·, ⟨[], []⟩)
  | _ => none

/-- Why a file is not accepted. -/
inductive Rejection where
  | malformed
  | unsupported (format : Format)
  deriving DecidableEq, Repr

/-- Accept a file of the supported format. -/
def accept (file : Bytes) : Except Rejection ObjectFile :=
  match read file with
  | none => .error .malformed
  | some (format, object) =>
    if format = Format.supported then .ok object else .error (.unsupported format)

end Object

end CopyPatch
