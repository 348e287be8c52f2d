import CopyPatch.Bytes
import Mathlib.Data.List.Basic

/-! Fields of a byte string. A field is read as a little-endian number; overwriting the bytes of one
field changes what it reads and nothing outside it. Signed numbers and residues are two readings
of the same bits. -/
namespace CopyPatch

namespace Bytes

theorem pow_256 (width : Nat) : 256 ^ width = 2 ^ (8 * width) := by
  rw [Nat.pow_mul]

theorem length_splice {bytes field : Bytes} {start : Nat}
    (inside : start + field.length ≤ bytes.length) :
    (bytes.splice start field).length = bytes.length := by
  simp only [splice, List.length_append, List.length_take, List.length_drop]
  omega

theorem getElem?_splice {bytes field : Bytes} {start : Nat}
    (inside : start + field.length ≤ bytes.length) (i : Nat) :
    (bytes.splice start field)[i]? =
      if start ≤ i ∧ i < start + field.length then field[i - start]? else bytes[i]? := by
  have before : (bytes.take start).length = start := by rw [List.length_take]; omega
  rw [splice, List.append_assoc]
  rcases Nat.lt_or_ge i start with low | high
  · rw [List.getElem?_append_left (by omega), List.getElem?_take_of_lt low, if_neg (by omega)]
  · rw [List.getElem?_append_right (by omega), before]
    rcases Nat.lt_or_ge i (start + field.length) with within | past
    · rw [List.getElem?_append_left (by omega), if_pos ⟨high, within⟩]
    · rw [List.getElem?_append_right (by omega), List.getElem?_drop, if_neg (by omega)]
      congr 1
      omega

/-- Overwriting may run past the end, as long as it begins inside or at the end. -/
theorem length_splice_max {bytes : Bytes} {start : Nat} (inside : start ≤ bytes.length)
    (field : Bytes) :
    (bytes.splice start field).length = max bytes.length (start + field.length) := by
  simp only [splice, List.length_append, List.length_take, List.length_drop]
  omega

theorem take_splice {bytes : Bytes} {start : Nat} (inside : start ≤ bytes.length)
    (field : Bytes) : (bytes.splice start field).take start = bytes.take start := by
  have before : (bytes.take start).length = start := List.length_take_of_le inside
  rw [splice, List.append_assoc, List.take_left' before]

theorem take_splice_add {bytes : Bytes} {start : Nat} (inside : start ≤ bytes.length)
    (field : Bytes) :
    (bytes.splice start field).take (start + field.length) = bytes.take start ++ field := by
  have before : (bytes.take start ++ field).length = start + field.length := by
    rw [List.length_append, List.length_take_of_le inside]
  rw [splice, List.take_left' before]

theorem splice_zero (bytes field : Bytes) :
    bytes.splice 0 field = field ++ bytes.drop field.length := by
  simp [splice]

/-- A stretch of a byte string that holds a number. -/
structure Field where
  offset : Nat
  width : Nat
  deriving DecidableEq, Repr

namespace Field

def Covers (f : Field) (i : Nat) : Prop := f.offset ≤ i ∧ i < f.offset + f.width

/-- Two fields without a byte in common. -/
def Apart (f g : Field) : Prop :=
  f.offset + f.width ≤ g.offset ∨ g.offset + g.width ≤ f.offset

instance (f : Field) (i : Nat) : Decidable (f.Covers i) := inferInstanceAs (Decidable (_ ∧ _))

instance (f g : Field) : Decidable (f.Apart g) := inferInstanceAs (Decidable (_ ∨ _))

theorem Apart.symm {f g : Field} (h : f.Apart g) : g.Apart f := Or.symm h

instance : Std.Symm Apart := ⟨fun _ _ => Apart.symm⟩

theorem Apart.not_covers {f g : Field} (h : f.Apart g) {i : Nat} (inside : g.Covers i) :
    ¬ f.Covers i := by
  unfold Apart Covers at *
  omega

theorem Apart.ne {f g : Field} (h : f.Apart g) (wide : 0 < g.width) : f ≠ g := by
  rintro rfl
  rcases h with h | h <;> omega

/-- The number that stands in a field. -/
def read (f : Field) (bytes : Bytes) : Nat := value ((bytes.drop f.offset).take f.width)

theorem read_lt (f : Field) (bytes : Bytes) : f.read bytes < 256 ^ f.width :=
  Nat.lt_of_lt_of_le (value_lt _)
    (Nat.pow_le_pow_right (by decide) (List.length_take_le f.width (bytes.drop f.offset)))

theorem read_congr {f : Field} {a b : Bytes} (same : ∀ i, f.Covers i → a[i]? = b[i]?) :
    f.read a = f.read b := by
  refine congrArg value (List.ext_getElem? fun i => ?_)
  by_cases within : i < f.width
  · rw [List.getElem?_take_of_lt within, List.getElem?_take_of_lt within, List.getElem?_drop,
      List.getElem?_drop]
    exact same _ ⟨Nat.le_add_right _ _, Nat.add_lt_add_left within _⟩
  · rw [List.getElem?_take_eq_none (Nat.le_of_not_lt within),
      List.getElem?_take_eq_none (Nat.le_of_not_lt within)]

theorem slice?_eq_some {f : Field} {bytes field : Bytes}
    (h : bytes.slice? f.offset f.width = some field) :
    f.offset + f.width ≤ bytes.length ∧ value field = f.read bytes := by
  unfold slice? at h
  split at h
  · rename_i inside
    cases h
    exact ⟨inside, rfl⟩
  · cases h

theorem slice?_of_le {f : Field} {bytes : Bytes} (inside : f.offset + f.width ≤ bytes.length) :
    ∃ field, bytes.slice? f.offset f.width = some field ∧ value field = f.read bytes :=
  ⟨_, if_pos inside, rfl⟩

theorem read_splice_self {f : Field} {bytes field : Bytes}
    (inside : f.offset + f.width ≤ bytes.length) (whole : field.length = f.width) :
    f.read (bytes.splice f.offset field) = value field := by
  refine congrArg value (List.ext_getElem? fun i => ?_)
  by_cases within : i < f.width
  · rw [List.getElem?_take_of_lt within, List.getElem?_drop,
      getElem?_splice (by omega), if_pos (by omega), Nat.add_sub_cancel_left]
  · rw [List.getElem?_take_eq_none (by omega), List.getElem?_eq_none (by omega)]

theorem getElem?_splice_outside {f : Field} {bytes field : Bytes}
    (inside : f.offset + f.width ≤ bytes.length) (whole : field.length = f.width) {i : Nat}
    (outside : ¬ f.Covers i) : (bytes.splice f.offset field)[i]? = bytes[i]? := by
  rw [getElem?_splice (by omega), if_neg (by rw [whole]; exact outside)]

theorem read_splice_apart {f g : Field} {bytes field : Bytes}
    (inside : f.offset + f.width ≤ bytes.length) (whole : field.length = f.width)
    (apart : f.Apart g) : g.read (bytes.splice f.offset field) = g.read bytes :=
  read_congr fun _ covered => getElem?_splice_outside inside whole (apart.not_covers covered)

theorem read_slice {f : Field} {bytes : Bytes} {start len : Nat}
    (inside : f.offset + f.width ≤ len) :
    f.read ((bytes.drop start).take len) = Field.read ⟨start + f.offset, f.width⟩ bytes := by
  rw [read, read, List.drop_take, List.take_take, List.drop_drop, Nat.min_eq_left (by omega)]

theorem read_append {f : Field} {bytes : Bytes} (rest : Bytes)
    (inside : f.offset + f.width ≤ bytes.length) : f.read (bytes ++ rest) = f.read bytes :=
  read_congr fun i covered => List.getElem?_append_left (by unfold Covers at covered; omega)

end Field

theorem residue_lt (width : Nat) (n : Int) : residue width n < 256 ^ width := by
  have positive : 0 < 2 ^ (8 * width) := Nat.two_pow_pos _
  rw [pow_256, residue]
  omega

theorem cast_residue (width : Nat) (n : Int) :
    (residue width n : Int) = n % (2 ^ (8 * width) : Nat) := by
  have positive : 0 < 2 ^ (8 * width) := Nat.two_pow_pos _
  rw [residue]
  omega

/-- A number in the signed range is the signed reading of its residue. -/
theorem signed_eq {width n : Nat} {m : Int} (wide : 0 < width)
    (low : -2 ^ (8 * width - 1) ≤ m) (high : m < 2 ^ (8 * width - 1))
    (same : (n : Int) = m % (2 ^ (8 * width) : Nat)) : signed width n = m := by
  have double : 2 ^ (8 * width) = 2 * 2 ^ (8 * width - 1) := by
    rw [← Nat.pow_succ']
    congr 1
    omega
  have half : ((2 ^ (8 * width - 1) : Nat) : Int) = 2 ^ (8 * width - 1) := by push_cast; rfl
  unfold signed
  have whole : (2 : Int) ^ (8 * width) = ((2 ^ (8 * width) : Nat) : Int) := by push_cast; rfl
  rw [whole]
  rw [← half] at low high
  rw [double] at same ⊢
  generalize 2 ^ (8 * width - 1) = h at *
  rcases Int.lt_or_le m 0 with negative | positive
  · have wrapped : m % ((2 * h : Nat) : Int) = m + (2 * h : Nat) := by
      rw [← Int.add_emod_right, Int.emod_eq_of_lt (by omega) (by omega)]
    rw [if_neg (by omega)]
    omega
  · rw [Int.emod_eq_of_lt positive (by omega)] at same
    rw [if_pos (by omega), same]

end Bytes

end CopyPatch
