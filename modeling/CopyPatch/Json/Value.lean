import CopyPatch.Text.Numeral

/-! JSON values. Object entries keep their order, and an object may name a key twice; what that
means is up to its reader. -/
namespace CopyPatch

inductive JsonValue where
  | null
  | bool (b : Bool)
  | integer (n : Int)
  /-- A number with a fraction or an exponent, or a negative zero. -/
  | fraction (text : String)
  | string (text : String)
  /-- A string whose bytes and escapes do not make text, or an object with such a key. It can stand
  only where nothing reads it. -/
  | garbled
  | array (items : List JsonValue)
  | object (entries : List (String × JsonValue))
  deriving Repr, Inhabited

namespace JsonValue

/-- A number below `2 ^ bits`. -/
def natural? (bits : Nat) : JsonValue → Option Nat
  | integer n => if 0 ≤ n ∧ n.toNat < 2 ^ bits then some n.toNat else none
  | _ => none

def string? : JsonValue → Option String
  | string text => some text
  | _ => none

/-- A list, each item read in the same way. -/
def listOf? {α : Type} (item : JsonValue → Option α) : JsonValue → Option (List α)
  | array items => items.mapM item
  | _ => none

/-- A value that may be null. -/
def nullable? {α : Type} (read : JsonValue → Option α) : JsonValue → Option (Option α)
  | null => some none
  | value => (read value).map some

/-- The value of a key that an object may name once. -/
def single? (entries : List (String × JsonValue)) (name : String) : Option (Option JsonValue) :=
  match entries.filter (·.1 = name) with
  | [] => some none
  | [(_, value)] => some (some value)
  | _ => none

/-- The fields of a structure, absent ones as `none`: by name from an object, by position from a
list. Other keys of the object have no meaning; a list has no other items. -/
def fields? (names : List String) : JsonValue → Option (List (Option JsonValue))
  | object entries => names.mapM (single? entries)
  | array items =>
    if items.length ≤ names.length then some ((List.range names.length).map fun i => items[i]?)
    else none
  | _ => none

/-- The word of a choice without data: alone, or as the key of a null. -/
def word? : JsonValue → Option String
  | string text => some text
  | object [(text, null)] => some text
  | _ => none

def naturals (ns : List Nat) : JsonValue := array (ns.map fun (n : Nat) => integer n)

end JsonValue

end CopyPatch
