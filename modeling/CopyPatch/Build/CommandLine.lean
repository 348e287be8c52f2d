import CopyPatch.Build.Arguments
import CopyPatch.Build.Session

/-! The build tool as a command: its exit code and what it reports. -/
namespace CopyPatch.CommandLine

/-- The report of an error, with the cause of a failed file operation on a line of its own. -/
def errorText (e : BuildError) : String :=
  s!"error: {e.message}\n" ++ match e with
    | .io _ cause => s!"  caused by: {cause.message}\n"
    | _ => ""

/-- The exit code and the report, which only an error has. -/
structure Exit where
  code : Nat
  report : Option String := none
  deriving DecidableEq, Repr

def Exit.ofDismissal : Dismissal → Exit
  | .usage => ⟨2, none⟩
  | .help => ⟨0, none⟩
  | .version => ⟨0, none⟩

def Exit.ofOutcome {α : Type} : Outcome BuildError α → Exit
  | .ok _ => ⟨0, none⟩
  | .error (.error e) => ⟨1, some (errorText e)⟩
  | .error (.fault _) => ⟨101, none⟩

/-- Run the tool on a tree of files. -/
def run (texts : List String) (tool : Option String) (process : String → Option Nat)
    (tree : Files.Tree) : Exit × Files.Tree :=
  match Arguments.read texts with
  | .error dismissal => (Exit.ofDismissal dismissal, tree)
  | .ok arguments => match arguments.config with
    | .error e => (⟨1, some (errorText e)⟩, tree)
    | .ok config =>
      let (outcome, tree) := Session.run config tool process tree
      (Exit.ofOutcome outcome, tree)

end CopyPatch.CommandLine
