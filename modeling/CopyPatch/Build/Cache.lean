import CopyPatch.Build.Config
import CopyPatch.Digest.Sha256
import CopyPatch.Files.Operation
import CopyPatch.Json.Printer
import CopyPatch.Json.Reader
import CopyPatch.Record.Codec

/-! The cache of compiled modules. An index says which tool and seed it was made with and, for each
module, which input it was compiled from; beside it lies the record of every module. A module is
reused when its input, the tool and the seed are unchanged. -/
namespace CopyPatch

/-- Digest of a manifest and an object, each preceded by its length. -/
def inputChecksum (manifest object : Bytes) : String :=
  (sha256 (Bytes.ofNat 8 manifest.length ++ manifest ++
    (Bytes.ofNat 8 object.length ++ object))).hex

/-- The input a module was compiled from: the path of its manifest and the checksum. -/
structure CacheEntry where
  input : String
  checksum : String
  deriving DecidableEq, Repr

/-- Modules are in the order of their names. -/
structure CacheIndex where
  tool : Option String := none
  seed : Option UInt64 := none
  modules : List (String × CacheEntry) := []
  deriving DecidableEq, Repr

namespace CacheEntry

def toJson (entry : CacheEntry) : JsonValue :=
  .object [("input", .string entry.input), ("checksum", .string entry.checksum)]

def ofJson? (json : JsonValue) : Option CacheEntry := do
  match ← json.fields? ["input", "checksum"] with
  | [some input, some checksum] => return ⟨← input.string?, ← checksum.string?⟩
  | _ => none

end CacheEntry

namespace CacheIndex

/-- Enter a module into a list sorted by name; a later entry replaces an earlier one. -/
def insert (name : String) (entry : CacheEntry) :
    List (String × CacheEntry) → List (String × CacheEntry)
  | [] => [(name, entry)]
  | (other, found) :: rest =>
    if name < other then (name, entry) :: (other, found) :: rest
    else if name = other then (name, entry) :: rest
    else (other, found) :: insert name entry rest

def keep (index : CacheIndex) (name : String) (entry : CacheEntry) : CacheIndex :=
  { index with modules := insert name entry index.modules }

def toJson (index : CacheIndex) : JsonValue :=
  .object [
    ("tool", (index.tool.map JsonValue.string).getD .null),
    ("seed", (index.seed.map fun (n : UInt64) => JsonValue.integer n.toNat).getD .null),
    ("modules", .object (index.modules.map fun (name, entry) => (name, entry.toJson)))]

def modulesOfJson? : JsonValue → Option (List (String × CacheEntry))
  | .object entries =>
    entries.foldlM (fun modules (name, entry) => do
      return insert name (← CacheEntry.ofJson? entry) modules) []
  | _ => none

/-- Every field may be missing. -/
def ofJson? (json : JsonValue) : Option CacheIndex := do
  match ← json.fields? ["tool", "seed", "modules"] with
  | [tool, seed, modules] => return {
      tool := ← (tool.getD .null).nullable? JsonValue.string?
      seed := ← (seed.getD .null).nullable? word64?
      modules := ← modulesOfJson? (modules.getD (.object [])) }
  | _ => none

def contents (index : CacheIndex) : Bytes := Bytes.ofText (index.toJson.pretty 0)

end CacheIndex

/-- A cache in use: the index it was left with, and the one that is being made. -/
structure Cache where
  directory : String
  previous : CacheIndex
  current : CacheIndex
  deriving DecidableEq, Repr

namespace Cache

def directoryIn (outDir : String) : String := Files.join outDir ".patchwork-cache"

def indexPath (directory : String) : String := Files.join directory "checksums.json"

def recordPath (directory name : String) : String := Files.join directory (name ++ ".json")

/-- The index in a file; an index that cannot be read is empty. -/
def indexOf (contents : Except Files.Cause Bytes) : CacheIndex :=
  match contents with
  | .ok bytes => ((JsonValue.ofBytes? bytes).bind CacheIndex.ofJson?).getD {}
  | .error _ => {}

/-- Take up the cache of an output directory. -/
def openIn (read : String → Except Files.Cause Bytes) (outDir : String) (tool : Option String)
    (seed : Option UInt64) : Cache :=
  let directory := directoryIn outDir
  { directory
    previous := indexOf (read (indexPath directory))
    current := { tool, seed } }

/-- The records that the index names. -/
def recordPaths (cache : Cache) : List String :=
  cache.previous.modules.map fun (name, _) => recordPath cache.directory name

/-- The record of an unchanged input. -/
def lookup (cache : Cache) (read : String → Except Files.Cause Bytes) (entry : CacheEntry) :
    Option CompiledModule :=
  if cache.current.tool.isNone || cache.previous.tool ≠ cache.current.tool then none
  else if cache.previous.seed ≠ cache.current.seed then none
  else do
    let (name, _) ← cache.previous.modules.find? (·.2 = entry)
    let bytes ← (read (recordPath cache.directory name)).toOption
    let record ← (JsonValue.ofBytes? bytes).bind CompiledModule.ofJson?
    if record.name = name then some record else none

/-- Write the record of a module. -/
def store (cache : Cache) (compiled : CompiledModule) : List Files.Operation :=
  .createDirs cache.directory ::
    Files.Operation.replace (recordPath cache.directory compiled.name)
      (Bytes.ofText compiled.toJson.compact)

/-- Enter a module into the new index. -/
def keep (cache : Cache) (name : String) (entry : CacheEntry) : Cache :=
  { cache with current := cache.current.keep name entry }

/-- Write the new index. -/
def save (cache : Cache) : List Files.Operation :=
  .createDirs cache.directory ::
    Files.Operation.replace (indexPath cache.directory) cache.current.contents

end Cache

end CopyPatch
