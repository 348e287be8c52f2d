import CopyPatch.Blueprint.Patch

/-! A code buffer: pieces are specialized one after another into whole pages of memory, each at
the end of those before it, so that the address of one can be a value of the next. -/
namespace CopyPatch

def pageSize : Nat := 4096

inductive MappingError where
  | refused
  /-- The pages cannot be made callable. -/
  | notSealed
  deriving DecidableEq, Repr

structure CodeBuffer where
  base : UInt64
  capacity : Nat
  /-- The memory up to the highest byte ever written; the rest is zero. -/
  memory : Bytes
  used : Nat
  deriving DecidableEq, Repr

/-- A buffer whose code can be called and no longer changes. -/
structure SealedBuffer where
  base : UInt64
  capacity : Nat
  memory : Bytes
  deriving DecidableEq, Repr

/-- All bytes of a sealed buffer, those that were never written included. -/
def SealedBuffer.bytes (buffer : SealedBuffer) : Bytes :=
  buffer.memory ++ List.replicate (buffer.capacity - buffer.memory.length) 0

/-- Where a piece landed. -/
structure Piece where
  offset : Nat
  address : UInt64
  length : Nat
  deriving DecidableEq, Repr

namespace CodeBuffer

/-- Whole pages for a number of bytes, at least one page. -/
def capacityFor (bytes : Nat) : Except Fault Nat :=
  Checked.mul 64 ((max bytes 1 + (pageSize - 1)) / pageSize) pageSize

/-- The largest mapping the address space can take is below this. -/
def mappingLimit : Nat := 2 ^ 62

def withCapacity (base : UInt64) (bytes : Nat) : Outcome MappingError CodeBuffer := do
  let capacity ← Outcome.ofFaulting (capacityFor bytes)
  if capacity < mappingLimit then return ⟨base, capacity, [], 0⟩
  else Outcome.fail .refused

def remaining (buffer : CodeBuffer) : Nat := buffer.capacity - buffer.used

/-- The bytes of all pieces. -/
def code (buffer : CodeBuffer) : Bytes := buffer.memory.take buffer.used

/-- Specialize a blueprint at the end of the buffer with values in packed order. After a failure
the pieces are those before it. -/
def emitPacked (buffer : CodeBuffer) (threadLocalBase : Option Int32) (b : Blueprint)
    (values : List UInt64) : CodeBuffer × Outcome PatchError Piece :=
  let address := buffer.base + UInt64.ofNat buffer.used
  let (written, outcome) := b.patch ⟨values, address, threadLocalBase⟩ buffer.remaining
  let memory := buffer.memory.splice buffer.used written
  match outcome with
  | .ok length =>
    ({ buffer with memory, used := buffer.used + length }, .ok ⟨buffer.used, address, length⟩)
  | .error cause => ({ buffer with memory }, .error cause)

/-- Specialize a blueprint at the end of the buffer with values by class. -/
def emit (buffer : CodeBuffer) (threadLocalBase : Option Int32) (b : Blueprint)
    (values : FixupValues) : CodeBuffer × Outcome PatchError Piece :=
  match values.pack b with
  | .ok packed => buffer.emitPacked threadLocalBase b packed
  | .error cause => (buffer, .error cause)

/-- Make the code callable, if the system grants it. The pages stay where they are. -/
def finish (buffer : CodeBuffer) (granted : Bool) : Except MappingError SealedBuffer :=
  if granted then .ok ⟨buffer.base, buffer.capacity, buffer.memory⟩ else .error .notSealed

/-- An entry point must lie inside the buffer. -/
def entry (buffer : CodeBuffer) (offset : Nat) : Except Fault Nat :=
  if offset < buffer.capacity then .ok offset else .error (.entryOutOfBounds offset)

end CodeBuffer

end CopyPatch
