/-! Numbers and number lists as they stand in messages and generated text: decimal digits,
lower-case hexadecimal digits with or without the `0x` mark, and bracketed lists. -/
namespace CopyPatch.Text

/-- Powers are the core library's, also where an algebraic hierarchy with its own is in scope. -/
@[default_instance high + 1]
instance (priority := high) corePow {α : Type} [NatPow α] : Pow α Nat := instPowNat

def hexDigit (n : Nat) : Char :=
  if n < 10 then Char.ofNat (48 + n) else Char.ofNat (87 + n)

/-- Lower-case hexadecimal without a mark; zero is a single digit. -/
def hex (n : Nat) : String := String.ofList (Nat.toDigits 16 n)

/-- Hexadecimal with the mark `0x`. -/
def hexMarked (n : Nat) : String := "0x" ++ hex n

/-- One byte as exactly two hexadecimal digits. -/
def hexByte (b : UInt8) : String :=
  String.ofList [hexDigit (b.toNat / 16), hexDigit (b.toNat % 16)]

/-- Items between square brackets, divided by a comma and a blank. -/
def bracketed (items : List String) : String := "[" ++ ", ".intercalate items ++ "]"

/-- A parameter tuple as messages show it. -/
def tuple (values : List UInt64) : String := bracketed (values.map toString)

/-- A name between back quotes. -/
def quoted (name : String) : String := "`" ++ name ++ "`"

/-- The value of a nonempty run of ASCII digits. -/
def digitsValue (digits : List Char) : Nat :=
  digits.foldl (fun acc c => acc * 10 + (c.toNat - 48)) 0

theorem digitsValue_eq (digits : List Char) :
    digitsValue digits = Nat.ofDigitChars 10 digits 0 := by
  have same : (fun (sofar : Nat) (c : Char) => 10 * sofar + (c.toNat - '0'.toNat)) =
      fun acc c => acc * 10 + (c.toNat - 48) := by
    funext acc c
    rw [Nat.mul_comm]
    rfl
  rw [Nat.ofDigitChars, same, digitsValue]

theorem isDigit_toDigits {n : Nat} {c : Char} (member : c ∈ Nat.toDigits 10 n) :
    c.isDigit = true :=
  Nat.isDigit_of_mem_toDigits (by decide) (by decide) member

/-- A decimal number: ASCII digits only, at least one. -/
def decimal? (text : List Char) : Option Nat :=
  if text ≠ [] ∧ text.all Char.isDigit then some (digitsValue text) else none

end CopyPatch.Text
