import CopyPatch.Text.Numeral

/-! The thread-local base: an offset from the thread pointer that is installed once and then
fixed. -/
namespace CopyPatch

structure ThreadLocal where
  base : Option Int32
  deriving DecidableEq, Repr

namespace ThreadLocal

def fresh : ThreadLocal := ⟨none⟩

/-- The first installation decides; the answer says whether the given offset is the installed
one. -/
def install (state : ThreadLocal) (offset : Int32) : ThreadLocal × Bool :=
  match state.base with
  | none => (⟨some offset⟩, true)
  | some base => (state, base == offset)

/-- The signed distance of an address from the thread pointer, if 32 bits hold it. -/
def offsetOf? (threadPointer address : UInt64) : Option Int32 :=
  let distance := (address - threadPointer).toInt64.toInt
  if -2 ^ 31 ≤ distance ∧ distance < 2 ^ 31 then some (Int32.ofInt distance) else none

/-- Install the offset of an address; one out of reach installs nothing. -/
def installAddress (state : ThreadLocal) (threadPointer address : UInt64) : ThreadLocal × Bool :=
  match offsetOf? threadPointer address with
  | some offset => state.install offset
  | none => (state, false)

end ThreadLocal

end CopyPatch
