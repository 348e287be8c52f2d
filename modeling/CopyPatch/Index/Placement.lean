import CopyPatch.Index

/-! Two-choice placement. Every ordinal has two candidate slots and is put into one of them; where
both are taken, the occupant of the first moves to its own other slot, and so on along a chain of
bounded length. -/
namespace CopyPatch

namespace Placement

/-- The longest chain of evictions that is followed. -/
def maxChain : Nat := 1000

/-- Which ordinal sits in each slot. -/
abbrev Board (n m : Nat) := Vector (Option (Fin n)) m

/-- The candidate slots of each ordinal. -/
abbrev Choices (n m : Nat) := Vector (Fin m × Fin m) n

variable {n m : Nat}

/-- The other candidate slot of an ordinal that sits in `slot`. -/
def otherSlot (choices : Choices n m) (ordinal : Fin n) (slot : Fin m) : Fin m :=
  if (choices.get ordinal).1 = slot then (choices.get ordinal).2 else (choices.get ordinal).1

def put (board : Board n m) (slot : Fin m) (ordinal : Fin n) : Board n m :=
  board.set slot.val (some ordinal) slot.isLt

/-- Put an ordinal into a slot and carry its occupant on. The chain fails when it grows too long
or an occupant has no other slot. -/
def evict (choices : Choices n m) : Nat → Fin n → Fin m → Board n m → Option (Board n m)
  | 0, carried, slot, board => match board.get slot with
    | none => some (put board slot carried)
    | some _ => none
  | fuel + 1, carried, slot, board => match board.get slot with
    | none => some (put board slot carried)
    | some evicted =>
      let other := otherSlot choices evicted slot
      if other = slot then none
      else evict choices fuel evicted other (put board slot carried)

/-- Put one more ordinal on the board: into its first slot, else its second, else by a chain. -/
def insert (choices : Choices n m) (board : Board n m) (ordinal : Fin n) : Option (Board n m) :=
  let (a, b) := choices.get ordinal
  if (board.get a).isNone then some (put board a ordinal)
  else if (board.get b).isNone then some (put board b ordinal)
  else evict choices maxChain ordinal a board

/-- Put all ordinals on an empty board, in order. They are counted in a 32-bit word. -/
def place (choices : Choices n m) : Option (Board n m) :=
  ((List.finRange n).take (n % 2 ^ 32)).foldlM (insert choices) (Vector.replicate m none)

/-- The candidate slots two coefficient vectors give to each tuple. -/
def choicesOf (tuples : Array Tuple) (h1 h2 : List UInt32) (size : Nat) (pos : 0 < size) :
    Choices tuples.size size :=
  Vector.ofFn fun i =>
    (⟨Index.slotOf h1 tuples[i] size, Nat.mod_lt _ pos⟩,
      ⟨Index.slotOf h2 tuples[i] size, Nat.mod_lt _ pos⟩)

end Placement

end CopyPatch
