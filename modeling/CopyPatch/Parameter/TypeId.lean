import CopyPatch.Text.Blank

/-! The closed type domain of parameter axes: twelve primitives, a pointer to each, and one
catch-all double pointer. A type has a code, three spellings, and a reader for its names. -/
namespace CopyPatch

inductive Primitive where
  | void | bool | i8 | i16 | i32 | i64 | u8 | u16 | u32 | u64 | f32 | f64
  deriving DecidableEq, Repr

namespace Primitive

/-- Every primitive, in the order of its codes. -/
def all : List Primitive := [void, bool, i8, i16, i32, i64, u8, u16, u32, u64, f32, f64]

def index : Primitive → Nat
  | void => 0 | bool => 1 | i8 => 2 | i16 => 3 | i32 => 4 | i64 => 5
  | u8 => 6 | u16 => 7 | u32 => 8 | u64 => 9 | f32 => 10 | f64 => 11

def name : Primitive → String
  | void => "void" | bool => "bool" | i8 => "i8" | i16 => "i16" | i32 => "i32" | i64 => "i64"
  | u8 => "u8" | u16 => "u16" | u32 => "u32" | u64 => "u64" | f32 => "f32" | f64 => "f64"

/-- The name with a capital, as generated source spells it. -/
def variantName : Primitive → String
  | void => "Void" | bool => "Bool" | i8 => "I8" | i16 => "I16" | i32 => "I32" | i64 => "I64"
  | u8 => "U8" | u16 => "U16" | u32 => "U32" | u64 => "U64" | f32 => "F32" | f64 => "F64"

/-- Size in bytes. -/
def size : Primitive → Nat
  | void => 0 | bool => 1 | i8 => 1 | i16 => 2 | i32 => 4 | i64 => 8
  | u8 => 1 | u16 => 2 | u32 => 4 | u64 => 8 | f32 => 4 | f64 => 8

def isFloat : Primitive → Bool
  | f32 | f64 => true
  | _ => false

def isSigned : Primitive → Bool
  | i8 | i16 | i32 | i64 => true
  | _ => false

def ofName? (text : List Char) : Option Primitive :=
  all.find? fun p => p.name.toList == text

end Primitive

inductive TypeId where
  | value (base : Primitive)
  | pointer (base : Primitive)
  | doublePointer
  deriving DecidableEq, Repr

namespace TypeId

/-- Twice the index of the base, plus one for a pointer; the double pointer comes last. -/
def encode : TypeId → UInt64
  | value p => UInt64.ofNat (2 * p.index)
  | pointer p => UInt64.ofNat (2 * p.index + 1)
  | doublePointer => 24

def decode (code : UInt64) : Option TypeId :=
  if code = 24 then some doublePointer
  else (Primitive.all[code.toNat / 2]?).map (if code.toNat % 2 = 0 then value else pointer)

/-- Every type, in the order of its codes. -/
def all : List TypeId :=
  (Primitive.all.flatMap fun p => [value p, pointer p]) ++ [doublePointer]

def base? : TypeId → Option Primitive
  | value p => some p
  | pointer p => some p
  | doublePointer => none

def isPointer : TypeId → Bool
  | value _ => false
  | _ => true

def isFloat : TypeId → Bool
  | value p => p.isFloat
  | _ => false

/-- Integers and truth values; neither `void` nor a float nor a pointer. -/
def isIntegral : TypeId → Bool
  | value p => !p.isFloat && p != .void
  | _ => false

def size : TypeId → Nat
  | value p => p.size
  | _ => 8

/-- The spelling of declarations: `u8`, `u8*`, `void**`. -/
def display : TypeId → String
  | value p => p.name
  | pointer p => p.name ++ "*"
  | doublePointer => "void**"

/-- The spelling that can stand inside a symbol: `u8`, `u8_ptr`, `void_ptr_ptr`. -/
def symbolName : TypeId → String
  | value p => p.name
  | pointer p => p.name ++ "_ptr"
  | doublePointer => "void_ptr_ptr"

/-- The expression that denotes the type in generated source. -/
def expression : TypeId → String
  | value p => "TypeId::Value(PrimitiveType::" ++ p.variantName ++ ")"
  | pointer p => "TypeId::Pointer(PrimitiveType::" ++ p.variantName ++ ")"
  | doublePointer => "TypeId::OpaquePointerPointer"

/-- Read a name without blanks around it. -/
def ofTrimmed? (text : List Char) : Option TypeId :=
  if text = "void**".toList ∨ text = "void_ptr_ptr".toList then some doublePointer
  else match Text.dropEnding? ['*'] text with
    | some base => (Primitive.ofName? (Text.trimRight base)).map pointer
    | none => match Text.dropEnding? "_ptr".toList text with
      | some base => (Primitive.ofName? base).map pointer
      | none => (Primitive.ofName? text).map value

/-- Read a type name in either spelling, blanks around it and before the star allowed. -/
def ofName? (text : String) : Option TypeId := ofTrimmed? (Text.trim text.toList)

theorem decode_encode (t : TypeId) : decode t.encode = some t := by
  rcases t with p | p | _
  · cases p <;> rfl
  · cases p <;> rfl
  · rfl

end TypeId

end CopyPatch
