import CopyPatch.Frame.Planner

/-! The operand stack of a function. A few operands of each class travel in registers; past that,
the oldest of the class moves to a temp of the frame. -/
namespace CopyPatch

inductive OperandClass where
  | integral
  | floating
  deriving DecidableEq, Repr

/-- How many operands of a class travel in registers. -/
def OperandClass.registers : OperandClass → Nat
  | integral => 3
  | floating => 3

/-- An operand in a register, or in the temp at an offset. -/
structure Operand where
  operandClass : OperandClass
  spill : Option Nat
  deriving DecidableEq, Repr

def Operand.isSpilled (operand : Operand) : Bool := operand.spill.isSome

/-- Operands from the oldest to the top of the stack. -/
abbrev Operands := List Operand

namespace Operands

def inRegisters (stack : Operands) : Nat := (stack.filter fun o => !o.isSpilled).length

def inRegistersOf (stack : Operands) (c : OperandClass) : Nat :=
  (stack.filter fun o => o.operandClass = c && !o.isSpilled).length

/-- Move the oldest register operand of a class to a temp. -/
def spillOldest (c : OperandClass) : Operands → Planner → Except Fault Operands × Planner
  | [], p => (.ok [], p)
  | o :: rest, p =>
    if o.operandClass = c && !o.isSpilled then
      match p.takeTemp with
      | (.ok offset, p) => (.ok ({ o with spill := some offset } :: rest), p)
      | (.error fault, p) => (.error fault, p)
    else match spillOldest c rest p with
      | (.ok spilled, p) => (.ok (o :: spilled), p)
      | (.error fault, p) => (.error fault, p)

/-- Push an operand; the answer is its position. Where no temp can be had, all operands stay in
registers. -/
def push (stack : Operands) (p : Planner) (c : OperandClass) :
    Except Fault Nat × Operands × Planner :=
  let pushed := stack ++ [⟨c, none⟩]
  if inRegistersOf pushed c > c.registers then
    match spillOldest c pushed p with
    | (.ok spilled, p) => (.ok stack.length, spilled, p)
    | (.error fault, p) => (.error fault, pushed, p)
  else (.ok stack.length, pushed, p)

/-- Pop the top operand and free its temp. -/
def pop (stack : Operands) (p : Planner) : Except Fault (Option Operand) × Operands × Planner :=
  match stack.getLast? with
  | none => (.ok none, stack, p)
  | some top => match top.spill with
    | none => (.ok (some top), stack.dropLast, p)
    | some offset =>
      let (freed, p) := p.freeTemp offset
      (freed.map fun _ => some top, stack.dropLast, p)

/-- Move every register operand to a temp, oldest first, as far as temps can be had. -/
def spillAll : Operands → Planner → Except Fault Unit × Operands × Planner
  | [], p => (.ok (), [], p)
  | o :: rest, p =>
    if o.isSpilled then
      let (outcome, spilled, p) := spillAll rest p
      (outcome, o :: spilled, p)
    else match p.takeTemp with
      | (.ok offset, p) =>
        let (outcome, spilled, p) := spillAll rest p
        (outcome, { o with spill := some offset } :: spilled, p)
      | (.error fault, p) => (.error fault, o :: rest, p)

end Operands

end CopyPatch
