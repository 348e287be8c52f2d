import CopyPatch.Build.CommandLine

/-! The build tool on real files. Everything that a build may read is read first, the pure plan
decides what is written, and its operations are then performed in order. -/
namespace CopyPatch.Main

def usage : String :=
  "Usage: patchwork-build [OPTIONS] <MANIFESTS> <OBJECTS> <OUT_DIR>\n"

def help : String := usage ++ "
Arguments:
  <MANIFESTS>  Semicolon-separated module manifests (.toml)
  <OBJECTS>    Semicolon-separated object files, paired with the manifests by index
  <OUT_DIR>    Directory receiving the generated sources

Options:
  -j, --jobs <JOBS>  Prepare workers
      --seed <SEED>  Base seed of the variant indexes
      --force        Compile every module anew, ignoring the cache
  -h, --help         Print help
  -V, --version      Print version
"

def version : String := "patchwork-build 0.1.0\n"

/-- The cause of a failed operation by the number the system gives it. -/
def causeOf : IO.Error → Files.Cause
  | .noFileOrDirectory .. => .notFound
  | .resourceBusy .. => .busy
  | .alreadyExists .. => .alreadyExists
  | .inappropriateType _ 20 _ => .notDirectory
  | .inappropriateType _ 21 _ => .isDirectory
  | .invalidArgument _ 36 _ => .nameTooLong
  | e => .other (toString e)

/-- Read a file; a failure is part of the answer. -/
def readFile (path : String) : IO (Except Files.Cause Bytes) := do
  match ← (IO.FS.readBinFile path).toBaseIO with
  | .ok contents => return .ok contents.toList
  | .error e => return .error (causeOf e)

/-- Files as they were found. -/
abbrev Snapshot := List (String × Except Files.Cause Bytes)

def Snapshot.read (snapshot : Snapshot) (path : String) : Except Files.Cause Bytes :=
  (snapshot.lookup path).getD (.error .notFound)

def snapshotOf (paths : List String) : IO Snapshot :=
  paths.mapM fun path => return (path, ← readFile path)

/-- The files a build may read: the inputs, the index of the cache and the records it names. -/
def takeSnapshot (config : BuildConfig) : IO Snapshot := do
  let index := Cache.indexPath (Cache.directoryIn config.outDir)
  let first ← snapshotOf (index :: Session.inputPaths config)
  let cache := Cache.openIn first.read config.outDir none none
  return first ++ (← snapshotOf cache.recordPaths)

/-- A name for this very program, or none if it cannot be read. -/
def toolIdentity : IO (Option String) := do
  match ← (do IO.FS.readBinFile (← IO.appPath) : IO ByteArray).toBaseIO with
  | .ok contents =>
    let parts := Bytes.ofNat 8 contents.size ++ Bytes.ofNat 8 (hash contents).toNat
    return some (sha256 parts).hex
  | .error _ => return none

/-- Make the first of some directories, each of which lies in the next. -/
def makeDirs : List String → IO Unit
  | [] => pure ()
  | path :: above => do
    let made ← (IO.FS.createDir path).toBaseIO
    let made ← match made.mapError causeOf with
      | .error .notFound => do
        makeDirs above
        (IO.FS.createDir path).toBaseIO
      | _ => pure made
    match made, ← readFile path with
    | .error _, .error .isDirectory => pure ()
    | .error e, _ => throw e
    | .ok _, _ => pure ()

def performOne : Files.Operation → IO Unit
  | .createDirs path => makeDirs (Files.ancestry path)
  | .write path contents => IO.FS.writeBinFile path ⟨contents.toArray⟩
  | .rename source target => IO.FS.rename source target

/-- Perform operations in order up to the first that fails. -/
def perform : List Files.Operation → IO (Except BuildError Unit)
  | [] => return .ok ()
  | op :: rest => do
    match ← (performOne op).toBaseIO with
    | .ok _ => perform rest
    | .error e => return .error (.io op.subject (causeOf e))

def build (config : BuildConfig) : IO (Outcome BuildError BuildSummary) := do
  let snapshot ← takeSnapshot config
  match Session.plan config (← toolIdentity) (fun _ => none) snapshot.read with
  | .error failure => return .error failure
  | .ok plan =>
    let result ← perform plan.operations
    return Outcome.ofReporting (result.map fun _ => plan.summary)

/-- What is said when no build is run. -/
def dismiss : Dismissal → IO Unit
  | .usage => IO.eprint usage
  | .help => IO.print help
  | .version => IO.print version

/-- Print the report and give the code. -/
def finish (exit : CommandLine.Exit) : IO UInt32 := do
  IO.eprint (exit.report.getD "")
  return UInt32.ofNat exit.code

def run (texts : List String) : IO UInt32 := do
  match Arguments.read texts with
  | .error dismissal =>
    dismiss dismissal
    finish (.ofDismissal dismissal)
  | .ok arguments => match arguments.config with
    | .error e => finish ⟨1, some (CommandLine.errorText e)⟩
    | .ok config => finish (.ofOutcome (← build config))

end CopyPatch.Main

def main (texts : List String) : IO UInt32 := CopyPatch.Main.run texts
