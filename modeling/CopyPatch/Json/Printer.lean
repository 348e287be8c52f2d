import CopyPatch.Json.Value
import CopyPatch.Text.Numeral

/-! Writing JSON text: compact, or indented by two blanks a level. -/
namespace CopyPatch.JsonValue

/-- Quotes, backslashes and control characters are escaped and nothing else. -/
def escapeChar (c : Char) : String :=
  if c = '"' then "\\\""
  else if c = '\\' then "\\\\"
  else if c.toNat = 8 then "\\b"
  else if c.toNat = 12 then "\\f"
  else if c = '\n' then "\\n"
  else if c = '\r' then "\\r"
  else if c = '\t' then "\\t"
  else if c.toNat < 0x20 then
    "\\u00" ++ String.ofList [Text.hexDigit (c.toNat / 16), Text.hexDigit (c.toNat % 16)]
  else c.toString

def quote (text : String) : String := "\"" ++ String.join (text.toList.map escapeChar) ++ "\""

/-- A value that is not a list or an object. -/
def scalarText : JsonValue → String
  | null => "null"
  | bool b => if b then "true" else "false"
  | integer n => toString n
  | fraction text => text
  | string text => quote text
  | _ => "\"\""

mutual

def compact : JsonValue → String
  | array items => "[" ++ ",".intercalate (compactItems items) ++ "]"
  | object entries => "\x7b" ++ ",".intercalate (compactEntries entries) ++ "\x7d"
  | value => value.scalarText

def compactItems : List JsonValue → List String
  | [] => []
  | v :: rest => v.compact :: compactItems rest

def compactEntries : List (String × JsonValue) → List String
  | [] => []
  | (key, v) :: rest => (quote key ++ ":" ++ v.compact) :: compactEntries rest

end

def indentation (level : Nat) : String := "".pushn ' ' (2 * level)

/-- Parts on lines of their own between two marks; the marks alone if there are none. -/
def block (first last : String) (level : Nat) (parts : List String) : String :=
  if parts.isEmpty then first ++ last
  else first ++ "\n" ++
    ",\n".intercalate (parts.map fun p => indentation (level + 1) ++ p) ++
    "\n" ++ indentation level ++ last

mutual

def pretty (level : Nat) : JsonValue → String
  | array items => block "[" "]" level (prettyItems (level + 1) items)
  | object entries => block "\x7b" "\x7d" level (prettyEntries (level + 1) entries)
  | value => value.scalarText

def prettyItems (level : Nat) : List JsonValue → List String
  | [] => []
  | v :: rest => v.pretty level :: prettyItems level rest

def prettyEntries (level : Nat) : List (String × JsonValue) → List String
  | [] => []
  | (key, v) :: rest => (quote key ++ ": " ++ v.pretty level) :: prettyEntries level rest

end

end CopyPatch.JsonValue
