import CopyPatch.Bytes
import CopyPatch.Toml.Value

/-! The lexical grammar of TOML: blanks and comments, quoted strings, keys, numbers and dates. A
reader takes characters from the front of the text and gives back what is left. Line ends are a
single line feed here; a carriage return has no place in the grammar. -/
namespace CopyPatch.Toml

abbrev Reader (α : Type) := List Char → Option (α × List Char)

def isSpace (c : Char) : Bool := c = ' ' || c = '\t'

def skipSpace (cs : List Char) : List Char := cs.dropWhile isSpace

/-- Characters that may stand in text: a tab, and all but the control characters. -/
def isPrintable (c : Char) : Bool := c = '\t' || (0x20 ≤ c.toNat && c.toNat ≠ 0x7f)

/-- The text after a comment, if there is one and its characters are allowed. -/
def skipComment (cs : List Char) : List Char :=
  match cs with
  | '#' :: rest => rest.dropWhile isPrintable
  | _ => cs

/-- Blanks, comments and line ends between the items of an array. -/
def skipFiller : Nat → List Char → List Char
  | 0, cs => cs
  | fuel + 1, cs =>
    match skipComment (skipSpace cs) with
    | '\n' :: rest => skipFiller fuel rest
    | rest => rest

/-- The rest of a line that holds nothing more. -/
def endLine (cs : List Char) : Option (List Char) :=
  match skipComment (skipSpace cs) with
  | [] => some []
  | '\n' :: rest => some rest
  | _ => none

def apostrophe : Char := Char.ofNat 39

/-- The value of a run of hexadecimal digits of a given length. -/
def hexRun : Nat → Nat → Reader Nat
  | 0, acc, cs => some (acc, cs)
  | _ + 1, _, [] => none
  | n + 1, acc, c :: rest => do hexRun n (16 * acc + (← Bytes.hexDigitValue? c)) rest

/-- The character with a code, if the code is a Unicode scalar value. -/
def scalar? (n : Nat) : Option Char := if n.isValidChar then some (Char.ofNat n) else none

/-- The character an escape stands for, after its backslash. -/
def escape : Reader Char
  | 'b' :: rest => some (Char.ofNat 8, rest)
  | 't' :: rest => some ('\t', rest)
  | 'n' :: rest => some ('\n', rest)
  | 'f' :: rest => some (Char.ofNat 12, rest)
  | 'r' :: rest => some ('\r', rest)
  | '"' :: rest => some ('"', rest)
  | '\\' :: rest => some ('\\', rest)
  | 'u' :: rest => do
    let (n, rest) ← hexRun 4 0 rest
    return (← scalar? n, rest)
  | 'U' :: rest => do
    let (n, rest) ← hexRun 8 0 rest
    return (← scalar? n, rest)
  | _ => none

/-- The characters of a basic string up to its closing mark. -/
def basicBody : Nat → Reader (List Char)
  | 0, _ => none
  | _ + 1, '"' :: rest => some ([], rest)
  | fuel + 1, '\\' :: rest => do
    let (c, rest) ← escape rest
    let (tail, rest) ← basicBody fuel rest
    return (c :: tail, rest)
  | fuel + 1, c :: rest =>
    if isPrintable c then do
      let (tail, rest) ← basicBody fuel rest
      return (c :: tail, rest)
    else none
  | _ + 1, [] => none

/-- The characters of a literal string up to its closing mark. -/
def literalBody : Reader (List Char)
  | [] => none
  | c :: rest =>
    if c = apostrophe then some ([], rest)
    else if isPrintable c then do
      let (tail, rest) ← literalBody rest
      return (c :: tail, rest)
    else none

/-- All blanks and line ends. -/
def skipWhite (cs : List Char) : List Char := cs.dropWhile fun c => isSpace c || c = '\n'

/-- The characters of a basic string over several lines. Its mark is three quotes, before which
one or two more may stand; a backslash at the end of a line swallows the white space after it. -/
def longBasicBody : Nat → Reader (List Char)
  | 0, _ => none
  | _ + 1, '"' :: '"' :: '"' :: '"' :: '"' :: rest => some (['"', '"'], rest)
  | _ + 1, '"' :: '"' :: '"' :: '"' :: rest => some (['"'], rest)
  | _ + 1, '"' :: '"' :: '"' :: rest => some ([], rest)
  | fuel + 1, '\\' :: rest =>
    match skipSpace rest with
    | '\n' :: after => longBasicBody fuel (skipWhite after)
    | _ => do
      let (c, rest) ← escape rest
      let (tail, rest) ← longBasicBody fuel rest
      return (c :: tail, rest)
  | fuel + 1, c :: rest =>
    if isPrintable c || c = '\n' then do
      let (tail, rest) ← longBasicBody fuel rest
      return (c :: tail, rest)
    else none
  | _ + 1, [] => none

/-- How many apostrophes stand in front. -/
def apostrophes (cs : List Char) : Nat := (cs.takeWhile (· = apostrophe)).length

/-- The characters of a literal string over several lines. -/
def longLiteralBody : Nat → Reader (List Char)
  | 0, _ => none
  | fuel + 1, cs =>
    let run := min (apostrophes cs) 5
    if 3 ≤ run then some (List.replicate (run - 3) apostrophe, cs.drop run)
    else match cs with
      | [] => none
      | c :: rest =>
        if isPrintable c || c = '\n' then do
          let (tail, rest) ← longLiteralBody fuel rest
          return (c :: tail, rest)
        else none

/-- A line end right after an opening mark is not part of the string. -/
def dropFirstLineEnd : List Char → List Char
  | '\n' :: rest => rest
  | cs => cs

def text (body : Reader (List Char)) : Reader String := fun cs =>
  (body cs).map fun (chars, rest) => (String.ofList chars, rest)

/-- A quoted string on one line. -/
def shortString (cs : List Char) : Option (String × List Char) :=
  match cs with
  | '"' :: rest => text (basicBody (rest.length + 1)) rest
  | c :: rest => if c = apostrophe then text literalBody rest else none
  | [] => none

/-- A quoted string of any form. -/
def string (cs : List Char) : Option (String × List Char) :=
  match cs with
  | '"' :: '"' :: '"' :: rest =>
    text (longBasicBody (rest.length + 1)) (dropFirstLineEnd rest)
  | _ =>
    if 3 ≤ apostrophes cs then
      text (longLiteralBody (cs.length + 1)) (dropFirstLineEnd (cs.drop 3))
    else shortString cs

def isBareKey (c : Char) : Bool := c.isAlphanum || c = '_' || c = '-'

def simpleKey (cs : List Char) : Option (String × List Char) :=
  match cs.span isBareKey with
  | ([], _) => shortString cs
  | (bare, rest) => some (String.ofList bare, rest)

/-- Keys divided by points, blanks around each allowed. -/
def dottedKey : Nat → Reader (List String)
  | 0, _ => none
  | fuel + 1, cs => do
    let (key, rest) ← simpleKey (skipSpace cs)
    match skipSpace rest with
    | '.' :: rest => do
      let (keys, rest) ← dottedKey fuel rest
      return (key :: keys, rest)
    | rest => return ([key], rest)

/-- The deepest nesting of values, and the most parts of a key, that are read. -/
def nestingLimit : Nat := 80

def key (cs : List Char) : Option (List String × List Char) :=
  dottedKey (nestingLimit - 1) cs

/-- Digits of a class, single underscores between them allowed and dropped. After an underscore,
and at the start, a digit is required. -/
def digitTail (isDigit : Char → Bool) : Bool → Reader (List Char)
  | required, [] => if required then none else some ([], [])
  | required, c :: rest =>
    if isDigit c then do
      let (digits, rest) ← digitTail isDigit false rest
      return (c :: digits, rest)
    else if required then none
    else if c = '_' then digitTail isDigit true rest
    else some ([], c :: rest)

def digitRun (isDigit : Char → Bool) : Reader (List Char) := digitTail isDigit true

def valueIn (radix : Nat) (digits : List Char) : Option Nat :=
  digits.foldlM (fun acc c => do
    let d ← Bytes.hexDigitValue? c
    if d < radix then some (radix * acc + d) else none) 0

/-- Integers are 64-bit. -/
def integerInRange (n : Int) : Option Int := if -2 ^ 63 ≤ n ∧ n < 2 ^ 63 then some n else none

/-- An integer with a radix mark, which takes no sign. -/
def radixInteger (radix : Nat) (cs : List Char) : Option (Value × List Char) := do
  let (digits, rest) ← digitRun (fun c => (Bytes.hexDigitValue? c).any (· < radix)) cs
  return (.integer (← integerInRange (← valueIn radix digits)), rest)

/-- An optional sign: whether it is a minus. -/
def sign : List Char → Bool × List Char
  | '+' :: rest => (false, rest)
  | '-' :: rest => (true, rest)
  | cs => (false, cs)

/-- The digits of a decimal whole part: a lone zero, or no zero in front. -/
def wholeDigits (cs : List Char) : Option (List Char × List Char) :=
  match cs with
  | '0' :: rest => some (['0'], rest)
  | _ => digitRun Char.isDigit cs

/-- Fraction digits after a point, if there is one. -/
def fraction (cs : List Char) : Option (Option (List Char) × List Char) :=
  match cs with
  | '.' :: rest => (digitRun Char.isDigit rest).map fun (d, rest) => (some d, rest)
  | _ => some (none, cs)

/-- An exponent, if there is one. -/
def exponent (cs : List Char) : Option (Option Int × List Char) :=
  match cs with
  | c :: rest =>
    if c = 'e' || c = 'E' then do
      let (minus, rest) := sign rest
      let (digits, rest) ← digitRun Char.isDigit rest
      let n : Int := Text.digitsValue digits
      return (some (if minus then -n else n), rest)
    else some (none, cs)
  | [] => some (none, cs)

/-- Whether `digits · 10 ^ power` rounds to a finite double. -/
def isFinite (digits : List Char) (power : Int) : Bool :=
  let significant := digits.dropWhile (· = '0')
  let magnitude : Int := significant.length + power
  if significant.isEmpty || magnitude < 300 then true
  else if 310 < magnitude then false
  else
    let n := Text.digitsValue significant
    let limit := 2 ^ 1024 - 2 ^ 970
    if 0 ≤ power then n * 10 ^ power.toNat < limit else n < limit * 10 ^ (-power).toNat

/-- A decimal number: an integer unless it has a fraction or an exponent. A float above the
largest double is refused. -/
def decimal (cs : List Char) : Option (Value × List Char) := do
  let (minus, rest) := sign cs
  let (whole, rest) ← wholeDigits rest
  let (frac, rest) ← fraction rest
  let (exp, rest) ← exponent rest
  if frac.isNone && exp.isNone then
    let n : Int := Text.digitsValue whole
    return (.integer (← integerInRange (if minus then -n else n)), rest)
  else
    let places := frac.getD []
    if minus || isFinite (whole ++ places) (exp.getD 0 - places.length) then
      return (.float (String.ofList (cs.take (cs.length - rest.length))), rest)
    else none

/-- The named floats. -/
def namedFloat (cs : List Char) : Option (Value × List Char) :=
  match (sign cs).2 with
  | 'i' :: 'n' :: 'f' :: rest => some (.float "inf", rest)
  | 'n' :: 'a' :: 'n' :: rest => some (.float "nan", rest)
  | _ => none

/-- Exactly `n` digits. -/
def fixedDigits (n : Nat) (cs : List Char) : Option (Nat × List Char) :=
  let digits := cs.take n
  if digits.length = n && digits.all Char.isDigit then some (Text.digitsValue digits, cs.drop n)
  else none

def mark (c : Char) : List Char → Option (List Char)
  | d :: rest => if d = c then some rest else none
  | [] => none

def isLeapYear (year : Nat) : Bool := year % 4 = 0 && (year % 100 ≠ 0 || year % 400 = 0)

def daysIn (year month : Nat) : Nat :=
  if month = 2 then (if isLeapYear year then 29 else 28)
  else if month = 4 || month = 6 || month = 9 || month = 11 then 30 else 31

def date (cs : List Char) : Option (List Char) := do
  let (year, rest) ← fixedDigits 4 cs
  let (month, rest) ← fixedDigits 2 (← mark '-' rest)
  let (day, rest) ← fixedDigits 2 (← mark '-' rest)
  if 1 ≤ month && month ≤ 12 && 1 ≤ day && day ≤ daysIn year month then some rest else none

def time (cs : List Char) : Option (List Char) := do
  let (hour, rest) ← fixedDigits 2 cs
  let (minute, rest) ← fixedDigits 2 (← mark ':' rest)
  let (second, rest) ← fixedDigits 2 (← mark ':' rest)
  if 24 ≤ hour || 60 ≤ minute || 61 ≤ second then none
  else match rest with
    | '.' :: more => match more.span Char.isDigit with
      | ([], _) => none
      | (_, after) => some after
    | _ => some rest

/-- A zone after a time, if there is one. -/
def zone (cs : List Char) : Option (List Char) :=
  match cs with
  | 'Z' :: rest | 'z' :: rest => some rest
  | '+' :: rest | '-' :: rest => do
    let (hour, rest) ← fixedDigits 2 rest
    let (minute, rest) ← fixedDigits 2 (← mark ':' rest)
    if hour < 24 && minute < 60 then some rest else none
  | _ => some cs

/-- A time with a zone after a date. -/
def timeOfDay (cs : List Char) : Option (List Char) := do zone (← time cs)

/-- A date, a date with a time, or a time. -/
def dateTime (cs : List Char) : Option (Value × List Char) :=
  let wrap := fun (rest : List Char) =>
    (Value.dateTime (String.ofList (cs.take (cs.length - rest.length))), rest)
  match date cs with
  | none => (time cs).map wrap
  | some rest => match rest with
    | 'T' :: more | 't' :: more | ' ' :: more => some (wrap ((timeOfDay more).getD rest))
    | _ => some (wrap rest)

/-- A number or a date. -/
def numeric (cs : List Char) : Option (Value × List Char) :=
  match dateTime cs with
  | some found => some found
  | none => match cs with
    | '0' :: 'x' :: rest => radixInteger 16 rest
    | '0' :: 'o' :: rest => radixInteger 8 rest
    | '0' :: 'b' :: rest => radixInteger 2 rest
    | _ => match namedFloat cs with
      | some found => some found
      | none => decimal cs

end CopyPatch.Toml
