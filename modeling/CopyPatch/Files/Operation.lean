import CopyPatch.Build.Error
import CopyPatch.Files.Tree

/-! Changes to files as data, so that a build can say what it will do before it does any of it. -/
namespace CopyPatch.Files

inductive Operation where
  | createDirs (path : String)
  | write (path : String) (contents : Bytes)
  | rename (source target : String)
  deriving DecidableEq, Repr

namespace Operation

/-- The path an error of the operation is about. -/
def subject : Operation → String
  | createDirs path => path
  | write path _ => path
  | rename _ target => target

/-- The outcome of an operation and the tree after it. -/
def apply : Operation → Tree → Except Cause Unit × Tree
  | createDirs path, tree => tree.createDirs path
  | write path contents, tree => tree.after (tree.write path contents)
  | rename source target, tree => tree.after (tree.rename source target)

/-- Replace the contents of a file at once: they are written beside it and moved over it, so that
no reader sees half of them. -/
def replace (path : String) (contents : Bytes) : List Operation :=
  [write (temporary path) contents, rename (temporary path) path]

end Operation

/-- Perform operations in order up to the first that fails. -/
def perform : List Operation → Tree → Except BuildError Unit × Tree
  | [], tree => (.ok (), tree)
  | op :: rest, tree =>
    match op.apply tree with
    | (.ok _, next) => perform rest next
    | (.error cause, next) => (.error (.io op.subject cause), next)

end CopyPatch.Files
