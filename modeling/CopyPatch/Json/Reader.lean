import CopyPatch.Bytes
import CopyPatch.Json.Value

/-! Reading JSON. The bytes are read one by one, each as the character of its number: all marks of
the format are single bytes, and whether the bytes of a string make text is asked of it only as a
whole. A string that does not may stand where nothing reads it. -/
namespace CopyPatch.JsonValue

abbrev Reader (α : Type) := List Char → Option (α × List Char)

def skipWhite (cs : List Char) : List Char :=
  cs.dropWhile fun c => c = ' ' || c = '\t' || c = '\n' || c = '\r'

/-- Four hexadecimal digits. -/
def hexQuad : Reader Nat
  | a :: b :: c :: d :: rest => do
    let digits ← [a, b, c, d].mapM Bytes.hexDigitValue?
    return (digits.foldl (fun n x => 16 * n + x) 0, rest)
  | _ => none

/-- The second half of a character that is escaped in two, after its backslash and letter. -/
def lowHalf? : Reader Nat
  | '\\' :: 'u' :: rest => do
    let (n, rest) ← hexQuad rest
    if 0xdc00 ≤ n ∧ n < 0xe000 then some (n, rest) else none
  | _ => none

/-- A character from its code after the escape letter; no character for half of one. -/
def unicode : Reader (Option Char) := fun cs => do
  let (n, rest) ← hexQuad cs
  if 0xd800 ≤ n ∧ n < 0xdc00 then
    match lowHalf? rest with
    | some (low, rest) =>
      some (some (Char.ofNat (0x10000 + (n - 0xd800) * 0x400 + (low - 0xdc00))), rest)
    | none => some (none, rest)
  else if 0xdc00 ≤ n ∧ n < 0xe000 then some (none, rest)
  else some (some (Char.ofNat n), rest)

/-- The character of an escape after its backslash. -/
def escaped : Reader (Option Char)
  | '"' :: rest => some (some '"', rest)
  | '\\' :: rest => some (some '\\', rest)
  | '/' :: rest => some (some '/', rest)
  | 'b' :: rest => some (some (Char.ofNat 8), rest)
  | 'f' :: rest => some (some (Char.ofNat 12), rest)
  | 'n' :: rest => some (some '\n', rest)
  | 'r' :: rest => some (some '\r', rest)
  | 't' :: rest => some (some '\t', rest)
  | 'u' :: rest => unicode rest
  | _ => none

/-- The pieces of a string up to its closing mark: a byte as it stands, or the bytes of an escaped
character; none in place of half a character. -/
def stringBody : Nat → Reader (List (Option Bytes))
  | 0, _ => none
  | _ + 1, [] => none
  | _ + 1, '"' :: rest => some ([], rest)
  | fuel + 1, '\\' :: rest => do
    let (c, rest) ← escaped rest
    let (tail, rest) ← stringBody fuel rest
    return (c.map (fun c => Bytes.ofText c.toString) :: tail, rest)
  | fuel + 1, c :: rest =>
    if c.toNat < 0x20 then none
    else do
      let (tail, rest) ← stringBody fuel rest
      return (some [UInt8.ofNat c.toNat] :: tail, rest)

/-- A string after its opening mark; no text if its pieces make none. -/
def stringRest : Reader (Option String) := fun cs => do
  let (pieces, rest) ← stringBody (cs.length + 1) cs
  return ((pieces.mapM id).bind fun found => Bytes.toText? found.flatten, rest)

/-- The value of a string that was read. -/
def ofString : Option String → JsonValue
  | some text => string text
  | none => garbled

/-- The object of entries that were read. -/
def ofEntries (found : List (Option String × JsonValue)) : JsonValue :=
  match found.mapM fun (key, value) => key.map (·, value) with
  | some entries => object entries
  | none => garbled

/-- Digits, at least one. -/
def digits (cs : List Char) : Option (List Char × List Char) :=
  match cs.span Char.isDigit with
  | ([], _) => none
  | found => some found

/-- The whole part of a number: a lone zero, or no zero in front. -/
def whole (cs : List Char) : Option (List Char × List Char) := do
  let (found, rest) ← digits cs
  if found.head? = some '0' ∧ found.length ≠ 1 then none else some (found, rest)

/-- What follows a point, if there is one. -/
def afterPoint (cs : List Char) : Option (Bool × List Char) :=
  match cs with
  | '.' :: rest => (digits rest).map fun (_, rest) => (true, rest)
  | _ => some (false, cs)

/-- What follows an exponent mark, if there is one. -/
def afterExponent (cs : List Char) : Option (Bool × List Char) :=
  match cs with
  | c :: rest =>
    if c = 'e' || c = 'E' then
      let rest := match rest with
        | '+' :: more | '-' :: more => more
        | _ => rest
      (digits rest).map fun (_, rest) => (true, rest)
    else some (false, cs)
  | [] => some (false, [])

def number (cs : List Char) : Option (JsonValue × List Char) := do
  let (minus, rest) := match cs with
    | '-' :: rest => (true, rest)
    | _ => (false, cs)
  let (found, rest) ← whole rest
  let (point, rest) ← afterPoint rest
  let (exponent, rest) ← afterExponent rest
  let n := Text.digitsValue found
  if point || exponent || (minus && n = 0) then
    return (fraction (String.ofList (cs.take (cs.length - rest.length))), rest)
  else return (integer (if minus then -(n : Int) else n), rest)

mutual

def value : Nat → Reader JsonValue
  | 0, _ => none
  | fuel + 1, cs =>
    match skipWhite cs with
    | 'n' :: 'u' :: 'l' :: 'l' :: rest => some (null, rest)
    | 't' :: 'r' :: 'u' :: 'e' :: rest => some (bool true, rest)
    | 'f' :: 'a' :: 'l' :: 's' :: 'e' :: rest => some (bool false, rest)
    | '"' :: rest => (stringRest rest).map fun (text, rest) => (ofString text, rest)
    | '[' :: rest => match skipWhite rest with
      | ']' :: rest => some (array [], rest)
      | rest => (items fuel rest).map fun (found, rest) => (array found, rest)
    | '\x7b' :: rest => match skipWhite rest with
      | '\x7d' :: rest => some (object [], rest)
      | rest => (entries fuel rest).map fun (found, rest) => (ofEntries found, rest)
    | cs => number cs

/-- The items of a list, at least one, up to its closing bracket. -/
def items : Nat → Reader (List JsonValue)
  | 0, _ => none
  | fuel + 1, cs => do
    let (first, rest) ← value fuel cs
    match skipWhite rest with
    | ']' :: rest => return ([first], rest)
    | ',' :: rest => do
      let (others, rest) ← items fuel rest
      return (first :: others, rest)
    | _ => none

/-- The entries of an object, at least one, up to its closing brace. -/
def entries : Nat → Reader (List (Option String × JsonValue))
  | 0, _ => none
  | fuel + 1, cs =>
    match skipWhite cs with
    | '"' :: rest => do
      let (key, rest) ← stringRest rest
      match skipWhite rest with
      | ':' :: rest => do
        let (first, rest) ← value fuel rest
        match skipWhite rest with
        | '\x7d' :: rest => return ([(key, first)], rest)
        | ',' :: rest => do
          let (others, rest) ← entries fuel rest
          return ((key, first) :: others, rest)
        | _ => none
      | _ => none
    | _ => none

end

/-- The value that bytes hold, blanks around it allowed. -/
def ofBytes? (bytes : Bytes) : Option JsonValue := do
  let cs := bytes.map fun b => Char.ofNat b.toNat
  let (found, rest) ← value (2 * cs.length + 2) cs
  if (skipWhite rest).isEmpty then some found else none

end CopyPatch.JsonValue
