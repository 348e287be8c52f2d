import CopyPatch.Bytes
import CopyPatch.Fixup
import CopyPatch.Index

/-! Blueprints: the frozen code of one variant with its fixup tables, and families of blueprints
with the index that selects among them. -/
namespace CopyPatch

structure Blueprint where
  symbol : String
  /-- Padded code with the constant part of each relocation already in its field. -/
  code : Bytes
  unpaddedLen : UInt32
  /-- Fields from which the destination address is subtracted. -/
  selfRelative32 : List UInt32
  /-- Fields to which the low half of a value is added. -/
  symbol32 : List FixupSite
  /-- Fields to which a value is added. -/
  symbol64 : List FixupSite
  /-- Fields to which the thread-local base is added. -/
  threadLocal32 : List UInt32
  counts : FixupCounts
  deriving DecidableEq, Repr

namespace Blueprint

/-- The number of values a call site supplies. -/
def valueCount (b : Blueprint) : Except Fault Nat := b.counts.total.map UInt32.toNat

def needsThreadLocalBase (b : Blueprint) : Bool := !b.threadLocal32.isEmpty

end Blueprint

/-- All variants of one shape of code, at the positions the index stores. -/
structure Family where
  name : String
  axes : List AxisKind
  index : Index
  variants : List Blueprint
  deriving DecidableEq, Repr

namespace Family

def find? (family : Family) (params : Tuple) : Option Blueprint :=
  (family.index.lookup params).bind fun ordinal => family.variants[ordinal.toNat]?

/-- The blueprint for a tuple that must be registered. -/
def select (family : Family) (params : Tuple) : Except Fault Blueprint :=
  match family.find? params with
  | some b => .ok b
  | none => .error (.noVariant family.name params)

end Family

end CopyPatch
