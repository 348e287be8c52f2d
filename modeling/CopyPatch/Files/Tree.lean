import CopyPatch.Bytes
import CopyPatch.Files.Cause
import CopyPatch.Files.Path

/-! A tree of files around the working directory. A place is the list of names that lead to it from
there; a place outside begins with the pairs of points that lead up. -/
namespace CopyPatch.Files

abbrev Place := List String

inductive Entry where
  | file (contents : Bytes)
  | directory
  deriving DecidableEq, Repr

/-- What stands at each place. The working directory and those above it always exist. -/
structure Tree where
  entries : List (Place × Entry) := []
  deriving DecidableEq, Repr

namespace Tree

/-- Whether a place is the working directory or above it. -/
def isUpward (place : Place) : Bool := place.all (· = "..")

def get? (tree : Tree) (place : Place) : Option Entry :=
  if isUpward place then some .directory else tree.entries.lookup place

def put (tree : Tree) (place : Place) (entry : Entry) : Tree :=
  ⟨(place, entry) :: tree.entries.filter (·.1 ≠ place)⟩

def erase (tree : Tree) (place : Place) : Tree := ⟨tree.entries.filter (·.1 ≠ place)⟩

/-- The most bytes a name may have, and a path. -/
def nameLimit : Nat := 255
def pathLimit : Nat := 4095

/-- Where a name leads from a place, which must be a directory. -/
def enter (tree : Tree) (place : Place) (name : String) : Except Cause Place :=
  match tree.get? place with
  | none => .error .notFound
  | some (.file _) => .error .notDirectory
  | some .directory =>
    if name = "." then .ok place
    else if name = ".." then .ok (if isUpward place then place ++ [".."] else place.dropLast)
    else if name.utf8ByteSize ≤ nameLimit then .ok (place ++ [name])
    else .error .nameTooLong

/-- The names of a path that can be looked up at all. -/
def namesOf (path : String) : Except Cause (List String) :=
  if path.toList.contains (Char.ofNat 0) then .error .zeroInName
  else if path = "" then .error .notFound
  else if path.utf8ByteSize ≤ pathLimit then .ok (names path)
  else .error .nameTooLong

/-- The place a path leads to. All but the last of its names must lead to directories, and the last
too if a stroke follows it. -/
def locate (tree : Tree) (path : String) : Except Cause Place := do
  let found ← (← namesOf path).foldlM tree.enter []
  if endsWithStroke path then tree.enter found "." else return found

/-- The place that the last name of a path stands for in the directory the others lead to. A name
of points stands for none. -/
def slot (tree : Tree) (path : String) : Except Cause (Option Place) := do
  let steps ← namesOf path
  let place ← steps.foldlM tree.enter []
  return if steps.getLast?.all isPoints then none else some place

def isDirectory (tree : Tree) (path : String) : Bool :=
  match tree.locate path with
  | .ok place => tree.get? place = some .directory
  | .error _ => false

/-- The contents of a file. -/
def read (tree : Tree) (path : String) : Except Cause Bytes := do
  match tree.get? (← tree.locate path) with
  | none => .error .notFound
  | some .directory => .error .isDirectory
  | some (.file contents) => return contents

/-- Make a file or replace its contents. -/
def write (tree : Tree) (path : String) (contents : Bytes) : Except Cause Tree := do
  let place ← tree.locate path
  if tree.get? place = some .directory then .error .isDirectory
  else return tree.put place (.file contents)

/-- Move a file to a place, where it replaces another file. -/
def rename (tree : Tree) (source target : String) : Except Cause Tree := do
  match ← tree.slot source, ← tree.slot target with
  | some old, some new =>
    match tree.get? old with
    | none => .error .notFound
    | some .directory => .error .isDirectory
    | some entry =>
      if endsWithStroke target then .error .notDirectory
      else if tree.get? new = some .directory then .error .isDirectory
      else return (tree.erase old).put new entry
  | _, _ => .error .busy

/-- Make one directory in another that exists. -/
def createDir (tree : Tree) (path : String) : Except Cause Tree := do
  match ← tree.slot path with
  | none => .error .alreadyExists
  | some place =>
    if (tree.get? place).isSome then .error .alreadyExists else return tree.put place .directory

/-- The outcome of a change and the tree after it; a change that fails leaves the tree as it is. -/
def after (tree : Tree) : Except Cause Tree → Except Cause Unit × Tree
  | .ok next => (.ok (), next)
  | .error cause => (.error cause, tree)

/-- Make a directory, which may also be there already. -/
def ensureDir (tree : Tree) (path : String) : Except Cause Tree :=
  match tree.createDir path with
  | .error cause => if tree.isDirectory path then .ok tree else .error cause
  | made => made

/-- Make the first of some directories, each of which lies in the next. What was made before a
failure stays. -/
def createEach : List String → Tree → Except Cause Unit × Tree
  | [], tree => (.ok (), tree)
  | path :: above, tree =>
    match tree.ensureDir path with
    | .error .notFound =>
      match createEach above tree with
      | (.ok _, next) => next.after (next.ensureDir path)
      | failed => failed
    | made => tree.after made

/-- Make a directory and those it lies in. -/
def createDirs (tree : Tree) (path : String) : Except Cause Unit × Tree :=
  createEach (ancestry path) tree

/-- Make a file together with the directories it lies in. -/
def install (tree : Tree) (path : String) (contents : Bytes) : Except Cause Unit × Tree :=
  match tree.createDirs (parent path) with
  | (.ok _, next) => next.after (next.write path contents)
  | failed => failed

/-- Remove a file, or a directory with all that is in it. -/
def remove (tree : Tree) (path : String) : Except Cause Tree := do
  let place ← tree.locate path
  return ⟨tree.entries.filter fun e => !place.isPrefixOf e.1⟩

/-- The paths of all files below the working directory, sorted. -/
def files (tree : Tree) : List String :=
  (tree.entries.filterMap fun (place, entry) => match entry with
    | .file _ => if place.head? = some ".." then none else some ("/".intercalate place)
    | .directory => none).mergeSort fun a b => !(b < a)

end Tree

end CopyPatch.Files
