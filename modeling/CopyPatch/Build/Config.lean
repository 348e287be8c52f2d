import CopyPatch.Build.Error
import CopyPatch.Text.Blank
import CopyPatch.Text.Split

/-! What a build is asked to do. -/
namespace CopyPatch

/-- A module to build: the path of its manifest and of the object compiled from it. -/
structure BuildInput where
  manifest : String
  object : String
  deriving DecidableEq, Repr

structure BuildConfig where
  inputs : List BuildInput
  outDir : String
  jobs : Option Nat := none
  seed : Option UInt64 := none
  /-- Compile every module anew. -/
  force : Bool := false
  deriving DecidableEq, Repr

namespace BuildConfig

/-- The entries of a list divided by semicolons, without blanks around them; empty ones do not
count. -/
def entries (list : String) : List String :=
  ((Text.split ';' list.toList).map Text.trim).filterMap fun entry =>
    if entry.isEmpty then none else some (String.ofList entry)

/-- Pair a list of manifests with a list of objects. -/
def ofLists (manifests objects outDir : String) : Except BuildError BuildConfig :=
  let manifests := entries manifests
  let objects := entries objects
  if manifests.length ≠ objects.length then
    .error (.inputCountMismatch manifests.length objects.length)
  else .ok { inputs := manifests.zipWith BuildInput.mk objects, outDir }

end BuildConfig

/-- The workers for a number of tasks: at least one, and no more than tasks. -/
def workerCount (requested tasks : Nat) : Nat := min (max requested 1) (max tasks 1)

/-- The workers asked for when nothing is said: two processors are left free. -/
def defaultWorkers (processors : Option Nat) : Nat :=
  match processors with
  | some n => n - 2
  | none => 4

/-- The workers of a build. -/
def BuildConfig.workers (config : BuildConfig) (processors : Option Nat) (tasks : Nat) : Nat :=
  workerCount (config.jobs.getD (defaultWorkers processors)) tasks

end CopyPatch
