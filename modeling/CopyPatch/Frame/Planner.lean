import CopyPatch.Fault

/-! One stack frame shared by all code of a function. Temps are slots of eight bytes, reused
through a free list; local variables are aligned regions that open and close in nested order while
no temp is live. Offsets are 32-bit. The frame must hold the highest byte ever handed out. -/
namespace CopyPatch

namespace Frame

def tempSize : Nat := 8

/-- The next multiple of a power of two, computed in 32-bit words. -/
def alignUp (value alignment : Nat) : Except Fault Nat := do
  let raised ← Checked.add 32 value alignment
  return (raised - 1) / alignment * alignment

def isPowerOfTwo (n : Nat) : Bool := n ≠ 0 && n = 2 ^ n.log2

end Frame

/-- The state of a frame under construction. -/
structure Planner where
  /-- The first byte above every open local variable and every temp grown since. -/
  top : Nat
  /-- The highest `top` so far. -/
  peak : Nat
  /-- Idle temps; the last one freed is the first one reused. -/
  idle : List Nat
  /-- Temps in use. -/
  live : List Nat
  /-- What `top` was before each open local variable, innermost first. -/
  bases : List Nat
  deriving DecidableEq, Repr

namespace Planner

open CopyPatch.Frame

def empty : Planner := ⟨0, 0, [], [], []⟩

/-- A slot above everything else. -/
def grow (p : Planner) : Except Fault (Nat × Planner) := do
  let offset ← alignUp p.top tempSize
  let top ← Checked.add 32 offset tempSize
  return (offset, { p with top, peak := max p.peak top })

/-- Hand a slot out. -/
def occupy (p : Planner) (offset : Nat) : Except Fault Nat × Planner :=
  if offset ∈ p.live then (.error (.slotHandedOutTwice offset), p)
  else (.ok offset, { p with live := offset :: p.live })

/-- Take a temp: an idle one if there is any. -/
def takeTemp (p : Planner) : Except Fault Nat × Planner :=
  match p.idle with
  | offset :: rest => occupy { p with idle := rest } offset
  | [] => match p.grow with
    | .ok (offset, grown) => grown.occupy offset
    | .error fault => (.error fault, p)

/-- Give a live temp back. -/
def freeTemp (p : Planner) (offset : Nat) : Except Fault Unit × Planner :=
  if p.live = [] then (.error (.freeWithoutTemps offset), p)
  else if offset ∈ p.live then
    (.ok (), { p with live := p.live.erase offset, idle := offset :: p.idle })
  else (.error (.freeOfIdleSlot offset), p)

/-- Open a local variable of a size and an alignment. -/
def openLocal (p : Planner) (size alignment : Nat) : Except Fault Nat × Planner :=
  if p.live ≠ [] then (.error (.localAmidTemps p.live.length), p)
  else if !isPowerOfTwo alignment then (.error (.alignmentNotPowerOfTwo alignment), p)
  else
    let opened := { p with bases := p.top :: p.bases }
    match (do
      let offset ← alignUp p.top alignment
      let top ← Checked.add 32 offset size
      return (offset, top) : Except Fault (Nat × Nat)) with
    | .ok (offset, top) => (.ok offset, { opened with top, peak := max p.peak top })
    | .error fault => (.error fault, opened)

/-- Close the innermost local variable. Idle temps above it are forgotten. -/
def closeLocal (p : Planner) : Except Fault Unit × Planner :=
  if p.live ≠ [] then (.error (.localPopAmidTemps p.live.length), p)
  else match p.bases with
    | [] => (.error .noOpenLocal, p)
    | base :: rest =>
      (.ok (), { p with top := base, bases := rest,
                        idle := p.idle.filter fun offset => offset + tempSize ≤ base })

/-- The bytes the frame needs, in whole temps. -/
def frameSize (p : Planner) : Except Fault Nat := alignUp p.peak tempSize

end Planner

end CopyPatch
