import CopyPatch.Bytes

/-! A machine with two registers that runs the instructions of the arithmetic sample: loads of
constants, additions of full words and of low bytes, and the return. -/
namespace CopyPatch.Sample

/-- The result register and the second operand. -/
structure Registers where
  result : UInt64 := 0
  operand : UInt64 := 0
  deriving DecidableEq, Repr

inductive Instruction where
  | loadResult (value : UInt64)
  | loadOperand (value : UInt64)
  | addBytes
  | clearHighBytes
  | addWords
  | ret
  deriving DecidableEq, Repr

/-- A word from its eight bytes. -/
def word (bytes : Bytes) : UInt64 := UInt64.ofNat (Bytes.value bytes)

/-- The first instruction of code, and the code after it. -/
def decode? : Bytes → Option (Instruction × Bytes)
  | 0x48 :: 0xb8 :: a :: b :: c :: d :: e :: f :: g :: h :: rest =>
    some (.loadResult (word [a, b, c, d, e, f, g, h]), rest)
  | 0x48 :: 0xb9 :: a :: b :: c :: d :: e :: f :: g :: h :: rest =>
    some (.loadOperand (word [a, b, c, d, e, f, g, h]), rest)
  | 0x00 :: 0xc8 :: rest => some (.addBytes, rest)
  | 0x0f :: 0xb6 :: 0xc0 :: rest => some (.clearHighBytes, rest)
  | 0x48 :: 0x01 :: 0xc8 :: rest => some (.addWords, rest)
  | 0xc3 :: rest => some (.ret, rest)
  | _ => none

def Registers.step (r : Registers) : Instruction → Registers
  | .loadResult value => { r with result := value }
  | .loadOperand value => { r with operand := value }
  | .addBytes => { r with result := (r.result &&& ~~~0xff) ||| ((r.result + r.operand) &&& 0xff) }
  | .clearHighBytes => { r with result := r.result &&& 0xff }
  | .addWords => { r with result := r.result + r.operand }
  | .ret => r

/-- Run code to its return; nothing if it has none or holds another instruction. -/
def runFor : Nat → Registers → Bytes → Option UInt64
  | 0, _, _ => none
  | fuel + 1, r, code => do
    match ← decode? code with
    | (.ret, _) => return r.result
    | (instruction, rest) => runFor fuel (r.step instruction) rest

def run (code : Bytes) : Option UInt64 := runFor (code.length + 1) {} code

end CopyPatch.Sample
