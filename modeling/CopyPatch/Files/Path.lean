import CopyPatch.Text.Split

/-! Paths as text. They are relative to the working directory. -/
namespace CopyPatch.Files

/-- A name below a directory. A name that is itself absolute stands alone. -/
def join (directory name : String) : String :=
  if name.toList.head? = some '/' then name
  else if directory = "" then name
  else if directory.toList.getLast? = some '/' then directory ++ name
  else directory ++ "/" ++ name

/-- The names in a path in order, points among them. -/
def names (path : String) : List String := (Text.splitText '/' path).filter (· ≠ "")

/-- Whether a path ends with a stroke, so that it can only name a directory. -/
def endsWithStroke (path : String) : Bool := path.toList.getLast? = some '/'

/-- Whether a name stands for a directory that is there already: the one it is looked up in, or
the one above. -/
def isPoints (name : String) : Bool := name = "." || name = ".."

/-- The path of the directory a path lies in, empty for a lone name. -/
def parent (path : String) : String := "/".intercalate (Text.splitText '/' path).dropLast

/-- A path and the paths of the directories above it, the longest first. A path above is written
without the single points in it, except for one at the very start; so the path above `a/b/.` is
`a`. -/
def ancestry (path : String) : List String :=
  let root := if path.toList.head? = some '/' then "/" else ""
  let steps := match names path with
    | [] => []
    | first :: rest => first :: rest.filter (· ≠ ".")
  let above := (List.range steps.length).reverse.map fun i => root ++ "/".intercalate (steps.take i)
  (path :: above).filter (· ≠ "")

/-- The place where the contents of a file are put together before they replace it. -/
def temporary (path : String) : String := path ++ ".tmp"

end CopyPatch.Files
