import CopyPatch.Fault

/-! Fixups: the places in a variant's code that a call site fills in. A relocation kind says how a
field is patched, a symbol class says which list of values it draws from, and counts give the
packed position of each class. -/
namespace CopyPatch

inductive RelocationKind where
  | selfRelative32
  | absolute64
  | threadLocalOffset32
  deriving DecidableEq, Repr

namespace RelocationKind

def all : List RelocationKind := [selfRelative32, absolute64, threadLocalOffset32]

/-- Width of the patched field in bytes. -/
def width : RelocationKind → Nat
  | selfRelative32 => 4
  | absolute64 => 8
  | threadLocalOffset32 => 4

def name : RelocationKind → String
  | selfRelative32 => "SelfRelative32"
  | absolute64 => "Absolute64"
  | threadLocalOffset32 => "ThreadLocalOffset32"

end RelocationKind

inductive SymbolClass where
  | boilerplate
  | host
  | constant
  | threadLocalBase
  deriving DecidableEq, Repr

namespace SymbolClass

def all : List SymbolClass := [boilerplate, host, constant, threadLocalBase]

/-- The classes a call site supplies values for, in packing order. -/
def supplied : List SymbolClass := [boilerplate, host, constant]

def name : SymbolClass → String
  | boilerplate => "BoilerplateFunctionPointer"
  | host => "HostFunctionPointer"
  | constant => "U64Constant"
  | threadLocalBase => "ThreadLocalBase"

end SymbolClass

/-- One patched field of a variant, with the packed position of its value. -/
structure FixupRecord where
  offset : UInt32
  kind : RelocationKind
  symbolClass : SymbolClass
  ordinal : UInt32
  deriving DecidableEq, Repr

/-- A field and the packed position of its value. -/
structure FixupSite where
  offset : UInt32
  ordinal : UInt32
  deriving DecidableEq, Repr

/-- How many values each class needs. -/
structure FixupCounts where
  boilerplates : UInt32
  hosts : UInt32
  constants : UInt32
  deriving DecidableEq, Repr

namespace FixupCounts

def count (counts : FixupCounts) : SymbolClass → UInt32
  | .boilerplate => counts.boilerplates
  | .host => counts.hosts
  | .constant => counts.constants
  | .threadLocalBase => 0

/-- The number of values in all. -/
def total (counts : FixupCounts) : Except Fault UInt32 := do
  Checked.add32 (← Checked.add32 counts.boilerplates counts.hosts) counts.constants

/-- The first packed position of a class; thread-local fixups take no value. -/
def base (counts : FixupCounts) : SymbolClass → Except Fault (Option UInt32)
  | .boilerplate => .ok (some 0)
  | .host => .ok (some counts.boilerplates)
  | .constant => (Checked.add32 counts.boilerplates counts.hosts).map some
  | .threadLocalBase => .ok none

end FixupCounts

end CopyPatch
