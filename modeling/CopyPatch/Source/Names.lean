import CopyPatch.Manifest.Basic

/-! Names in the generated source: types and variants in words with capitals, and items whose name
would be a reserved word. -/
namespace CopyPatch.Source

/-- Drop underscores and write the letter after each, and the first one, as a capital. -/
def joinWords : Bool → List Char → List Char
  | _, [] => []
  | first, c :: rest =>
    if c = '_' then joinWords true rest
    else (if first then c.toUpper else c) :: joinWords false rest

/-- A name as one word with capitals: `add_wide` becomes `AddWide`. -/
def pascalCase (name : String) : String := String.ofList (joinWords true name.toList)

/-- The type of a named enumeration axis; other axes have a type of the language. -/
def enumTypeName? (family : String) (axis : AxisSignature) : Option String :=
  match axis.kind with
  | .enum _ =>
    if axis.variants.isEmpty then none else some (pascalCase family ++ pascalCase axis.name)
  | _ => none

/-- The name of a variant, before it is told apart from others: it begins with a letter. -/
def variantBase (variant : String) : String :=
  let name := pascalCase variant
  if name.toList.head?.any Char.isAlpha then name else "V" ++ name

/-- Names of variants from position `i` on; `earlier` are those already given. A name that is
taken or reserved has its position added. -/
def variantNamesFrom (i : Nat) (earlier : List String) : List String → List String
  | [] => []
  | variant :: rest =>
    let base := variantBase variant
    let name := if base ∈ earlier ∨ base = "Self" then base ++ toString i else base
    name :: variantNamesFrom (i + 1) (earlier ++ [name]) rest

def variantNames (variants : List String) : List String := variantNamesFrom 0 [] variants

/-- Words that need a mark to be used as a name. -/
def reserved : List String :=
  ["as", "async", "await", "break", "const", "continue", "dyn", "else", "enum", "extern",
    "false", "fn", "for", "if", "impl", "in", "let", "loop", "match", "mod", "move", "mut",
    "pub", "ref", "return", "static", "struct", "trait", "true", "type", "unsafe", "use",
    "where", "while", "abstract", "become", "box", "do", "final", "gen", "macro",
    "override", "priv", "try", "typeof", "unsized", "virtual", "yield"]

/-- Words that cannot be names even with the mark. -/
def pathWords : List String := ["self", "super", "crate"]

/-- A name as an item of the generated source. -/
def itemName (name : String) : String :=
  if name ∈ pathWords then name ++ "_"
  else if name ∈ reserved then "r#" ++ name
  else name

end CopyPatch.Source
