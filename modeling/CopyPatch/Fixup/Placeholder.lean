import CopyPatch.Fixup
import CopyPatch.Parameter.Axis

/-! Placeholder symbols: the undefined names that a body's relocations point to. Three classes are
a fixed beginning and one to eight digits; the thread-local base is a single name. -/
namespace CopyPatch

namespace SymbolClass

/-- What the placeholder names of a class begin with. -/
def beginning : SymbolClass → String
  | boilerplate => "__patchwork_boilerplate_fn_"
  | host => "__patchwork_host_fn_"
  | constant => "__patchwork_const_"
  | threadLocalBase => "__patchwork_thread_local_base"

end SymbolClass

namespace Placeholder

def maxDigits : Nat := 8

/-- The placeholder for a class and a position in it. -/
def name (c : SymbolClass) (ordinal : UInt32) : String :=
  match c with
  | .threadLocalBase => c.beginning
  | _ => c.beginning ++ toString ordinal

/-- Read the digits after a class's beginning. -/
def ordinal? (digits : List Char) : Option UInt32 :=
  if digits.length ≤ maxDigits then (Text.decimal? digits).map UInt32.ofNat else none

/-- Read a name as one of the given classes; the first whose beginning fits decides. -/
def parseAs (text : String) : List SymbolClass → Except ModelError (Option (SymbolClass × UInt32))
  | [] => .ok none
  | c :: rest =>
    if c.beginning.toList.isPrefixOf text.toList then
      match ordinal? (text.toList.drop c.beginning.length) with
      | some n => .ok (some (c, n))
      | none => .error (.badPlaceholderOrdinal text)
    else parseAs text rest

/-- Read a symbol name: none for a name outside the convention, an error for a placeholder
beginning that is not followed by one to eight digits. -/
def parse (text : String) : Except ModelError (Option (SymbolClass × UInt32)) :=
  if text = SymbolClass.threadLocalBase.beginning then .ok (some (.threadLocalBase, 0))
  else parseAs text SymbolClass.supplied

end Placeholder

end CopyPatch
