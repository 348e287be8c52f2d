/-! Values of a TOML document. Floats and dates are kept as they are written: no reader of this
library uses them. -/
namespace CopyPatch.Toml

inductive Value where
  | string (text : String)
  | integer (n : Int)
  | float (text : String)
  | boolean (b : Bool)
  | dateTime (text : String)
  | array (items : List Value)
  | table (entries : List (String × Value))
  deriving Repr

namespace Value

def string? : Value → Option String
  | string text => some text
  | _ => none

def integer? : Value → Option Int
  | integer n => some n
  | _ => none

def array? : Value → Option (List Value)
  | array items => some items
  | _ => none

def table? : Value → Option (List (String × Value))
  | table entries => some entries
  | _ => none

end Value

end CopyPatch.Toml
