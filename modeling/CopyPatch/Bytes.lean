import CopyPatch.Text.Numeral

/-! Byte strings: little-endian fields, slices that must fit, overwriting, and hexadecimal text. -/
namespace CopyPatch

abbrev Bytes := List UInt8

namespace Bytes

/-- The little-endian value of a byte string. -/
def value : Bytes → Nat
  | [] => 0
  | b :: rest => b.toNat + 256 * value rest

/-- The lowest `width` bytes of a number, least significant first. -/
def ofNat : Nat → Nat → Bytes
  | 0, _ => []
  | width + 1, n => UInt8.ofNat n :: ofNat width (n / 256)

/-- A number read as two's complement of `width` bytes. -/
def signed (width n : Nat) : Int :=
  if n < 2 ^ (8 * width - 1) then n else (n : Int) - 2 ^ (8 * width)

/-- The residue of an integer in a field of `width` bytes. -/
def residue (width : Nat) (n : Int) : Nat := (n % (2 ^ (8 * width) : Nat)).toNat

/-- The `len` bytes from `start` on, if all of them are there. -/
def slice? (bytes : Bytes) (start len : Nat) : Option Bytes :=
  if start + len ≤ bytes.length then some ((bytes.drop start).take len) else none

/-- Overwrite the bytes from `start` on. -/
def splice (bytes : Bytes) (start : Nat) (field : Bytes) : Bytes :=
  bytes.take start ++ field ++ bytes.drop (start + field.length)

@[simp] theorem length_ofNat (width n : Nat) : (ofNat width n).length = width := by
  induction width generalizing n with
  | zero => rfl
  | succ width ih => simp [ofNat, ih]

theorem value_lt (bytes : Bytes) : value bytes < 256 ^ bytes.length := by
  induction bytes with
  | nil => simp [value]
  | cons b rest ih =>
    have hb := b.toNat_lt
    simp only [value, List.length_cons, Nat.pow_succ]
    omega

theorem value_ofNat (width n : Nat) : value (ofNat width n) = n % 256 ^ width := by
  induction width generalizing n with
  | zero => simp [ofNat, value, Nat.mod_one]
  | succ width ih =>
    simp only [ofNat, value, ih, UInt8.toNat_ofNat']
    rw [show 256 ^ (width + 1) = 256 * 256 ^ width by rw [Nat.pow_succ, Nat.mul_comm],
      Nat.mod_mul]

/-- Two lower-case digits for each byte. -/
def hex (bytes : Bytes) : String := String.join (bytes.map Text.hexByte)

def hexDigitValue? (c : Char) : Option Nat :=
  if c.isDigit then some (c.toNat - 48)
  else if 'a' ≤ c ∧ c ≤ 'f' then some (c.toNat - 87)
  else if 'A' ≤ c ∧ c ≤ 'F' then some (c.toNat - 55)
  else none

/-- Read pairs of hexadecimal digits. -/
def ofHex? : List Char → Option Bytes
  | [] => some []
  | hi :: lo :: rest => do
    let h ← hexDigitValue? hi
    let l ← hexDigitValue? lo
    let tail ← ofHex? rest
    return UInt8.ofNat (16 * h + l) :: tail
  | [_] => none

/-- Cut into pieces of `size` bytes; the last may be shorter. -/
def chunks (size : Nat) (bytes : Bytes) : List Bytes :=
  if bytes = [] ∨ size = 0 then [] else bytes.take size :: chunks size (bytes.drop size)
termination_by bytes.length
decreasing_by
  rename_i h
  have : bytes ≠ [] := fun e => h (Or.inl e)
  have : size ≠ 0 := fun e => h (Or.inr e)
  have : 0 < bytes.length := List.length_pos_iff.mpr (by assumption)
  simp only [List.length_drop]
  omega

/-- The UTF-8 form of a text. -/
def ofText (text : String) : Bytes := text.toUTF8.data.toList

/-- The text with this UTF-8 form, if the bytes are one. -/
def toText? (bytes : Bytes) : Option String := String.fromUTF8? ⟨bytes.toArray⟩

end Bytes

end CopyPatch
