/-! Cutting text at a mark. -/
namespace CopyPatch.Text

/-- The pieces between the marks of a text, empty ones included. -/
def split (mark : Char) : List Char → List (List Char)
  | [] => [[]]
  | c :: rest =>
    if c = mark then [] :: split mark rest
    else match split mark rest with
      | [] => [[c]]
      | first :: others => (c :: first) :: others

/-- The pieces of a string. -/
def splitText (mark : Char) (text : String) : List String :=
  (split mark text.toList).map String.ofList

end CopyPatch.Text
