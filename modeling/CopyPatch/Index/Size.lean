import CopyPatch.Fault

/-! The number of slots of a table: the smallest prime that is at least five and keeps the table
at most two fifths full. -/
namespace CopyPatch

/-- No number from `d` on up to the square root divides `n`. -/
def noDivisorFrom (n d : Nat) : Bool :=
  if d * d ≤ n then if n % d = 0 then false else noDivisorFrom n (d + 1) else true
termination_by n + 1 - d
decreasing_by
  rename_i fits _
  have : d ≤ d * d := Nat.le_mul_self d
  omega

/-- Primality by trial division. -/
def isPrime (n : Nat) : Bool := 2 ≤ n && noDivisorFrom n 2

/-- The first prime among `n`, `n + 1`, … `n + fuel - 1`, and `n + fuel` if there is none. -/
def nextPrimeWithin : Nat → Nat → Nat
  | 0, n => n
  | fuel + 1, n => if isPrime n then n else nextPrimeWithin fuel (n + 1)

/-- The smallest prime that is at least `n`; one lies between `n` and its double. -/
def nextPrime (n : Nat) : Nat := nextPrimeWithin (n + 1) n

def minTableSize : Nat := 5

/-- The number of slots for `n` tuples. -/
def slotCount (n : Nat) : Nat := nextPrime (max ((5 * n + 1) / 2) minTableSize)

namespace Checked

/-- The same search in 64-bit words: every square and every step may leave its word. -/
def noDivisorFrom (n d : Nat) : Except Fault Bool :=
  match _squared : mul 64 d d with
  | .error fault => .error fault
  | .ok square =>
    if square ≤ n then
      if n % d = 0 then .ok false
      else match _stepped : add 64 d 1 with
        | .error fault => .error fault
        | .ok next => noDivisorFrom n next
    else .ok true
termination_by n + 1 - d
decreasing_by
  have : d ≤ d * d := Nat.le_mul_self d
  grind [mul, add]

def isPrime (n : Nat) : Except Fault Bool := if n < 2 then .ok false else noDivisorFrom n 2

/-- The search ends with the word if not before. -/
def nextPrime (n : Nat) : Except Fault Nat :=
  match isPrime n with
  | .error fault => .error fault
  | .ok true => .ok n
  | .ok false => match _stepped : add 64 n 1 with
    | .error fault => .error fault
    | .ok next => nextPrime next
termination_by 2 ^ 64 - n
decreasing_by grind [add]

end Checked

/-- The number of slots for `n` tuples, computed in 64-bit words. -/
def tableSize (n : Nat) : Except Fault Nat := do
  let fivefold ← Checked.mul 64 5 n
  Checked.nextPrime (max ((fivefold + 1) / 2) minTableSize)

theorem le_nextPrimeWithin (fuel n : Nat) : n ≤ nextPrimeWithin fuel n := by
  induction fuel generalizing n with
  | zero => exact Nat.le_refl n
  | succ fuel ih =>
    simp only [nextPrimeWithin]
    split
    · exact Nat.le_refl n
    · exact Nat.le_trans (Nat.le_succ n) (ih (n + 1))

theorem slotCount_pos (n : Nat) : 0 < slotCount n := by
  have := le_nextPrimeWithin (max ((5 * n + 1) / 2) minTableSize + 1)
    (max ((5 * n + 1) / 2) minTableSize)
  simp only [slotCount, nextPrime, minTableSize] at *
  omega

end CopyPatch
