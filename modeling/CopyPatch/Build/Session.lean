import CopyPatch.Build.Cache
import CopyPatch.Build.Workers
import CopyPatch.Compile
import CopyPatch.Source.Library

/-! A build. All inputs are read and compiled, or taken from the cache, before anything is written;
what is then written is a list of file operations: the two sources, the records, the index. -/
namespace CopyPatch

/-- What a build did. -/
structure BuildSummary where
  modules : Nat
  reused : Nat
  families : Nat
  variants : Nat
  deriving DecidableEq, Repr

/-- The operations a build comes down to. -/
structure BuildPlan where
  operations : List Files.Operation
  summary : BuildSummary
  deriving DecidableEq, Repr

namespace Session

/-- How the contents of files are found. -/
abbrev Reading := String → Except Files.Cause Bytes

def readFile (read : Reading) (path : String) : Except BuildError Bytes :=
  (read path).mapError (BuildError.io path)

def readText (read : Reading) (path : String) : Except BuildError String := do
  match (← readFile read path).toText? with
  | some text => return text
  | none => throw (.io path .notText)

/-- The files of the inputs. -/
def inputPaths (config : BuildConfig) : List String :=
  config.inputs.flatMap fun input => [input.manifest, input.object]

/-- An input with its key in the cache, and its record if that is still good. -/
structure LoadedInput where
  source : ModuleSource
  entry : CacheEntry
  cached : Option CompiledModule
  deriving DecidableEq, Repr

def loadInput (config : BuildConfig) (cache : Cache) (read : Reading) (input : BuildInput) :
    Except BuildError LoadedInput := do
  let manifest ← readText read input.manifest
  let object ← readFile read input.object
  let entry : CacheEntry := ⟨input.manifest, inputChecksum (Bytes.ofText manifest) object⟩
  return {
    source := ⟨input.manifest, manifest, object⟩
    entry
    cached := if config.force then none else cache.lookup read entry }

/-- The inputs that have to be prepared, numbered by their position. -/
def tasks (inputs : List LoadedInput) : List (Nat × ModuleSource) :=
  inputs.zipIdx.filterMap fun (input, i) =>
    if input.cached.isSome then none else some (i, input.source)

/-- The modules in the order of the inputs: a record that is still good, or else the next of the
prepared modules, finished. -/
def complete (seed : Option UInt64) :
    List LoadedInput → List PreparedModule → Outcome BuildError (List CompiledModule)
  | [], _ => .ok []
  | input :: rest, prepared => match input.cached, prepared with
    | some record, _ => do return record :: (← complete seed rest prepared)
    | none, first :: others => do
      let compiled ← first.finish seed
      return compiled :: (← complete seed rest others)
    | none, [] => complete seed rest []

/-- No two modules have one name; `earlier` are the names so far with their origins. -/
def checkNames (earlier : List (String × String)) :
    List (CompiledModule × CacheEntry) → Except BuildError Unit
  | [] => .ok ()
  | (compiled, entry) :: rest =>
    match earlier.lookup compiled.name with
    | some first => .error (.malformedModule compiled.name (.nameUsedTwice first entry.input))
    | none => checkNames ((compiled.name, entry.input) :: earlier) rest

/-- The operations that write both sources. -/
def writeSources (outDir : String) (sources : GeneratedSources) : List Files.Operation :=
  .createDirs outDir ::
    (Files.Operation.replace (Files.join outDir "patchwork_decls.rs")
        (Bytes.ofText sources.decls) ++
      Files.Operation.replace (Files.join outDir "patchwork_library.rs")
        (Bytes.ofText sources.library))

/-- The operations that bring the cache up to date. -/
def writeCache (cache : Cache) (modules : List (CompiledModule × CacheEntry)) :
    List Files.Operation :=
  modules.flatMap (fun (compiled, _) => cache.store compiled) ++
    (modules.foldl (fun cache (compiled, entry) => cache.keep compiled.name entry) cache).save

/-- Read, compile and generate everything, and say what is to be written. -/
def plan (config : BuildConfig) (tool : Option String) (process : String → Option Nat)
    (read : Reading) : Outcome BuildError BuildPlan := do
  let cache := Cache.openIn read config.outDir tool config.seed
  let inputs ← Outcome.ofReporting (config.inputs.mapM (loadInput config cache read))
  let waiting := tasks inputs
  let prepared ← Pool.runAll (·.prepare process) (config.workers none waiting.length) waiting
  let modules ← complete config.seed inputs prepared
  let entered := modules.zip (inputs.map (·.entry))
  Outcome.ofReporting (checkNames [] entered)
  let sources ← Outcome.ofReporting (generate modules)
  return {
    operations := writeSources config.outDir sources ++ writeCache cache entered
    summary := {
      modules := modules.length
      reused := inputs.countP (·.cached.isSome)
      families := modules.foldl (fun n m => n + m.families.length) 0
      variants := modules.foldl (fun n m => n + m.variantCount) 0 } }

/-- Run a build on a tree of files. A failure before the first operation leaves the tree as it
was. -/
def run (config : BuildConfig) (tool : Option String) (process : String → Option Nat)
    (tree : Files.Tree) : Outcome BuildError BuildSummary × Files.Tree :=
  match plan config tool process tree.read with
  | .error failure => (.error failure, tree)
  | .ok plan =>
    let (result, tree) := Files.perform plan.operations tree
    (Outcome.ofReporting (result.map fun _ => plan.summary), tree)

end Session

end CopyPatch
