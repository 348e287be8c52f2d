import CopyPatch.Text.Numeral

/-! Faults end an operation without an answer: arithmetic that leaves its word, an access out of
range, or a broken promise of the caller. They are kept apart from the errors an operation
reports: a `Failure` is either. Checked arithmetic on words of a given width lives here too. -/
namespace CopyPatch

inductive Fault where
  | sumOverflow
  | differenceOverflow
  | productOverflow
  | zeroDivisor
  | outOfBounds
  | noVariant (family : String) (params : List UInt64)
  | slotHandedOutTwice (offset : Nat)
  | freeWithoutTemps (offset : Nat)
  | freeOfIdleSlot (offset : Nat)
  | localAmidTemps (live : Nat)
  | alignmentNotPowerOfTwo (alignment : Nat)
  | localPopAmidTemps (live : Nat)
  | noOpenLocal
  | entryOutOfBounds (offset : Nat)
  | workerStopped
  deriving DecidableEq, Repr

namespace Fault

/-- The text of a fault. An access out of range and a stopped worker have none of their own. -/
def message : Fault → Option String
  | sumOverflow => some "attempt to add with overflow"
  | differenceOverflow => some "attempt to subtract with overflow"
  | productOverflow => some "attempt to multiply with overflow"
  | zeroDivisor => some "attempt to calculate the remainder with a divisor of zero"
  | outOfBounds => none
  | noVariant family params =>
    some (s!"boilerplate family {Text.quoted family} has no variant " ++
      s!"for parameters {Text.tuple params}")
  | slotHandedOutTwice offset => some s!"temp slot {offset} handed out twice"
  | freeWithoutTemps offset => some s!"free_temp({offset}) with no live temps"
  | freeOfIdleSlot offset => some s!"temp slot {offset} freed but not live"
  | localAmidTemps live => some s!"local variable requested while {live} temp(s) are live"
  | alignmentNotPowerOfTwo alignment => some s!"alignment {alignment} is not a power of two"
  | localPopAmidTemps live => some s!"local variable popped while {live} temp(s) are live"
  | noOpenLocal => some "pop_local_var with no open local variable"
  | entryOutOfBounds offset => some s!"entry offset {offset} out of bounds"
  | workerStopped => none

end Fault

/-- Why an operation gave no answer: an error it reports, or a fault. -/
inductive Failure (ε : Type) where
  | error (cause : ε)
  | fault (cause : Fault)
  deriving DecidableEq, Repr

abbrev Outcome (ε α : Type) := Except (Failure ε) α

namespace Outcome

/-- Report an error. -/
def fail {ε α : Type} (cause : ε) : Outcome ε α := .error (.error cause)

/-- A computation that can only fault. -/
def ofFaulting {ε α : Type} (run : Except Fault α) : Outcome ε α := run.mapError .fault

/-- A computation that can only report an error. -/
def ofReporting {ε α : Type} (run : Except ε α) : Outcome ε α := run.mapError .error

/-- Keep the faults and change the errors. -/
def mapError {ε δ α : Type} (f : ε → δ) (run : Outcome ε α) : Outcome δ α :=
  match run with
  | .ok a => .ok a
  | .error (.error e) => .error (.error (f e))
  | .error (.fault e) => .error (.fault e)

end Outcome

namespace Checked

def add (bits a b : Nat) : Except Fault Nat :=
  if a + b < 2 ^ bits then .ok (a + b) else .error .sumOverflow

def sub (a b : Nat) : Except Fault Nat :=
  if b ≤ a then .ok (a - b) else .error .differenceOverflow

def mul (bits a b : Nat) : Except Fault Nat :=
  if a * b < 2 ^ bits then .ok (a * b) else .error .productOverflow

def add32 (a b : UInt32) : Except Fault UInt32 :=
  if a.toNat + b.toNat < 2 ^ 32 then .ok (a + b) else .error .sumOverflow

end Checked

end CopyPatch
