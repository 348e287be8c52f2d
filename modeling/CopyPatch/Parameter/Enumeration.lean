import CopyPatch.Parameter.Axis

/-! Enumeration of the legal tuples of a list of axes. Values are chosen axis by axis; a predicate
sees every prefix once and a rejected prefix is not extended. A provider supplies a value for each
full tuple and its first refusal ends the walk. The walk keeps the prefixes it tested and the
tuples it asked for, so both are part of the answer. -/
namespace CopyPatch

/-- How far a walk has come. -/
structure Enumeration (ε α : Type) where
  tested : Array Tuple
  asked : Array Tuple
  found : Array (Tuple × α)
  refusal : Option ε

namespace Enumeration

variable {ε α : Type}

def start : Enumeration ε α := ⟨#[], #[], #[], none⟩

/-- Record one test of the predicate. -/
def test (tuple : Tuple) (walk : Enumeration ε α) : Enumeration ε α :=
  { walk with tested := walk.tested.push tuple }

/-- Ask the provider for the value of a full tuple. -/
def ask (provide : Tuple → Except ε α) (tuple : Tuple) (walk : Enumeration ε α) :
    Enumeration ε α :=
  match provide tuple with
  | .ok value =>
    { walk with asked := walk.asked.push tuple, found := walk.found.push (tuple, value) }
  | .error cause => { walk with asked := walk.asked.push tuple, refusal := some cause }

/-- The middle of an interval of words is exact. -/
theorem toNat_mid {lo hi : UInt64} (below : lo.toNat ≤ hi.toNat) :
    (lo + (hi - lo) / 2).toNat = lo.toNat + (hi.toNat - lo.toNat) / 2 := by
  have bound := hi.toNat_lt
  have half : ((hi - lo) / 2).toNat = (hi.toNat - lo.toNat) / 2 := by
    rw [UInt64.toNat_div, UInt64.toNat_sub_of_le _ _ (UInt64.le_iff_toNat_le.mpr below)]
    rfl
  rw [UInt64.toNat_add, half]
  omega

theorem mid_lt {lo hi : UInt64} (wide : 1 < hi.toNat - lo.toNat) :
    lo.toNat < (lo + (hi - lo) / 2).toNat ∧ (lo + (hi - lo) / 2).toNat < hi.toNat := by
  rw [toNat_mid (by omega)]
  omega

/-- Visit the numbers from `lo` up to but not including `hi`, in order, by halving the interval.
A refusal ends the visits. -/
def overInterval (visit : UInt64 → Enumeration ε α → Enumeration ε α) (lo hi : UInt64)
    (walk : Enumeration ε α) : Enumeration ε α :=
  if walk.refusal.isSome then walk
  else if _wide : 1 < hi.toNat - lo.toNat then
    overInterval visit (lo + (hi - lo) / 2) hi (overInterval visit lo (lo + (hi - lo) / 2) walk)
  else if lo < hi then visit lo walk
  else walk
termination_by hi.toNat - lo.toNat
decreasing_by
  · have := mid_lt _wide; omega
  · have := mid_lt _wide; omega

/-- Visit the values of a list in order. A refusal ends the visits. -/
def overList (visit : UInt64 → Enumeration ε α → Enumeration ε α) :
    List UInt64 → Enumeration ε α → Enumeration ε α
  | [], walk => walk
  | v :: rest, walk =>
    if walk.refusal.isSome then walk else overList visit rest (visit v walk)

/-- Visit the values of an axis in its order. -/
def overAxis (visit : UInt64 → Enumeration ε α → Enumeration ε α) :
    Axis → Enumeration ε α → Enumeration ε α
  | .enum count, walk => overInterval visit 0 count walk
  | axis, walk => overList visit axis.values walk

/-- Extend the prefix `chosen` through the remaining axes. -/
def extend (accepts : Tuple → Bool) (provide : Tuple → Except ε α) :
    List Axis → Tuple → Enumeration ε α → Enumeration ε α
  | [], chosen, walk => walk.ask provide chosen
  | axis :: rest, chosen, walk =>
    overAxis (fun v walk =>
      let next := chosen ++ [v]
      if accepts next then extend accepts provide rest next (walk.test next)
      else walk.test next) axis walk

/-- What the walk answers: the tuples with their values, or the refusal that ended it. -/
def outcome (walk : Enumeration ε α) : Except ε (List (Tuple × α)) :=
  match walk.refusal with
  | some cause => .error cause
  | none => .ok walk.found.toList

end Enumeration

/-- Walk all tuples of the axes. Malformed axes are reported before any test. -/
def enumerate {ε α : Type} (axes : List Axis) (accepts : Tuple → Bool)
    (provide : Tuple → Except ε α) : Except ModelError (Enumeration ε α) :=
  (Axis.validate axes).map fun _ => Enumeration.extend accepts provide axes [] .start

end CopyPatch
