import CopyPatch.Fault
import CopyPatch.Parameter.Axis

/-! The variant index: a table in which every registered tuple sits in one of two candidate slots,
told apart by a fingerprint. Three coefficient vectors give the two slots and the fingerprint as
dot products in 64-bit words. -/
namespace CopyPatch

/-- A table entry: the variant's ordinal and its tuple's fingerprint. -/
structure Slot where
  ordinal : UInt32
  fingerprint : UInt64
  deriving DecidableEq, Repr

namespace Slot

/-- The fingerprint that marks a vacant slot. -/
def vacantMark : UInt64 := 0xffffffffffffffff

def vacant : Slot := ⟨0xffffffff, vacantMark⟩

def isVacant (slot : Slot) : Bool := slot.fingerprint == vacantMark

end Slot

/-- Dot product of coefficients and values, wrapping in 64 bits; it stops at the shorter list. -/
def dot (coefficients : List UInt32) (params : Tuple) : UInt64 :=
  (coefficients.zip params).foldl (fun acc (h, p) => acc + h.toUInt64 * p) 0

structure Index where
  h1 : List UInt32
  h2 : List UInt32
  h3 : List UInt32
  slots : Array Slot
  deriving DecidableEq, Repr

namespace Index

/-- The number of axes the index serves. -/
def arity (index : Index) : Nat := index.h1.length

def occupied (index : Index) : Nat := (index.slots.filter fun s => !s.isVacant).size

def fingerprint (index : Index) (params : Tuple) : UInt64 := dot index.h3 params

/-- The slot a coefficient vector assigns among `size` slots. -/
def slotOf (h : List UInt32) (params : Tuple) (size : Nat) : Nat := (dot h params).toNat % size

/-- The two slots a tuple may sit in; a table without slots has none. -/
def candidates (index : Index) (params : Tuple) : Except Fault (Nat × Nat) :=
  if index.slots.size = 0 then .error .zeroDivisor
  else .ok (slotOf index.h1 params index.slots.size, slotOf index.h2 params index.slots.size)

/-- The ordinal in a slot, if the slot carries the fingerprint. -/
def match? (index : Index) (fingerprint : UInt64) (position : Nat) : Option UInt32 :=
  match index.slots[position]? with
  | some slot => if slot.fingerprint = fingerprint then some slot.ordinal else none
  | none => none

/-- The ordinal registered for a tuple. A tuple of another length has none, nor has one whose
fingerprint is the vacant mark. -/
def lookup (index : Index) (params : Tuple) : Option UInt32 :=
  if params.length ≠ index.arity then none
  else if index.fingerprint params = Slot.vacantMark then none
  else match index.candidates params with
    | .error _ => none
    | .ok (a, b) =>
      (index.match? (index.fingerprint params) a).or (index.match? (index.fingerprint params) b)

end Index

end CopyPatch
