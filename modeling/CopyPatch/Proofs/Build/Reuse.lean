import CopyPatch.Proofs.Build.CacheHistory
import CopyPatch.Proofs.Build.Reload

/-! Building again. A build that went through leaves the cache it would have used: with the same
inputs and the same tool nothing has to be prepared, and what is written goes through as before.
This fails only where two files of the cache share a place, as the index and the record of a module
called `checksums` do. -/
namespace CopyPatch

open Files

/-- What is written to a cache does not depend on what was in it. -/
theorem Cache.writeCache_openIn (read later : Session.Reading) (outDir : String)
    (tool : Option String) (seed : Option UInt64) (entered : List (CompiledModule × CacheEntry)) :
    Session.writeCache (openIn later outDir tool seed) entered =
      Session.writeCache (openIn read outDir tool seed) entered := by
  rw [writeCache_eq_publish, writeCache_eq_publish, cacheFiles, cacheFiles, keepAll_current,
    keepAll_current]
  rfl

namespace Session

open Cache (Apart Named indexIn openIn directoryIn cacheFiles reloaded)

variable {config : BuildConfig} {cache other : Cache} {process : String → Option Nat}
  {read later : Reading} {inputs : List LoadedInput} {modules : List CompiledModule}
  {sources : GeneratedSources} {tree next : Tree}

theorem sourceOf_eq_ok {input : BuildInput} {source : ModuleSource} :
    sourceOf read input = .ok source ↔ readText read input.manifest = .ok source.manifest ∧
      readFile read input.object = .ok source.object ∧ source.origin = input.manifest := by
  simp only [sourceOf, Outcome.bind_eq_ok]
  constructor
  · rintro ⟨manifest, readManifest, object, readObject, made⟩
    cases made
    exact ⟨readManifest, readObject, rfl⟩
  · rintro ⟨readManifest, readObject, origin⟩
    refine ⟨_, readManifest, _, readObject, ?_⟩
    rw [← origin]
    rfl

/-- Modules that are entered with one entry bear one name: both are one record, or both were
compiled from one manifest. -/
theorem Drafted.name_of_entry
    (drafted : Drafted config cache process read inputs modules sources)
    {x y : CompiledModule × CacheEntry} (memberX : x ∈ modules.zip (inputs.map (·.entry)))
    (memberY : y ∈ modules.zip (inputs.map (·.entry))) (same : x.2 = y.2) :
    x.1.name = y.1.name := by
  obtain ⟨a, insideA, keyA, givesA⟩ := exists_of_mem_zip drafted.given memberX
  obtain ⟨b, insideB, keyB, givesB⟩ := exists_of_mem_zip drafted.given memberY
  obtain ⟨inputA, _, loadA⟩ := exists_left drafted.loaded insideA
  obtain ⟨inputB, _, loadB⟩ := exists_left drafted.loaded insideB
  obtain ⟨foundA, entryA, cachedA⟩ := loadInput_eq_ok.1 loadA
  obtain ⟨foundB, entryB, cachedB⟩ := loadInput_eq_ok.1 loadB
  have alike : a.entry = b.entry := keyA.trans (same.trans keyB.symm)
  rw [LoadedInput.Gives] at givesA givesB
  rw [alike, ← cachedB] at cachedA
  cases hit : b.cached with
  | some record =>
    simp only [cachedA, hit] at givesA givesB
    rw [← givesA, ← givesB]
  | none =>
    simp only [cachedA, hit] at givesA givesB
    -- the origin is a part of the entry, so both manifests are one file
    obtain ⟨manifestA, _, originA⟩ := sourceOf_eq_ok.1 foundA
    obtain ⟨manifestB, _, originB⟩ := sourceOf_eq_ok.1 foundB
    have origins : a.source.origin = b.source.origin := by
      rw [entryA, entryB] at alike
      exact congrArg CacheEntry.input alike
    have manifests : a.source.manifest = b.source.manifest := by
      rw [← originA, origins, originB, manifestB] at manifestA
      exact (Except.ok.inj manifestA).symm
    obtain ⟨first, parsedA, nameA⟩ := ModuleSource.name_of_compile givesA
    obtain ⟨second, parsedB, nameB⟩ := ModuleSource.name_of_compile givesB
    rw [origins, manifests, parsedB] at parsedA
    cases parsedA
    rw [nameA, nameB]

theorem Drafted.entries_nodup
    (drafted : Drafted config cache process read inputs modules sources) :
    ((modules.zip (inputs.map (·.entry))).map (·.2)).Nodup := by
  have names := (checkNames_nodup drafted.named).1
  refine List.Nodup.map_on (fun x memberX y memberY same => ?_) (List.Nodup.of_map _ names)
  exact List.inj_on_of_nodup_map names memberX memberY
    (drafted.name_of_entry memberX memberY same)

/-- An input with what is found for its entry. -/
def LoadedInput.refreshed (found : CacheEntry → Option CompiledModule) (input : LoadedInput) :
    LoadedInput :=
  { input with cached := found input.entry }

theorem entries_refreshed (found : CacheEntry → Option CompiledModule)
    (inputs : List LoadedInput) :
    (inputs.map (LoadedInput.refreshed found)).map (·.entry) = inputs.map (·.entry) := by
  rw [List.map_map]
  rfl

theorem Drafted.loaded_again (drafted : Drafted config cache process read inputs modules sources)
    (unforced : config.force = false) (kept : ∀ path ∈ inputPaths config, later path = read path)
    (other : Cache) :
    config.inputs.mapM (loadInput config other later) =
      .ok (inputs.map (LoadedInput.refreshed (other.lookup later))) := by
  rw [Outcome.mapM_eq_ok, List.forall₂_map_right_iff]
  have same : ∀ input ∈ config.inputs, sourceOf later input = sourceOf read input := by
    intro input member
    have paths {path : String} (named : path ∈ [input.manifest, input.object]) :
        later path = read path := kept path (List.mem_flatMap.2 ⟨input, member, named⟩)
    rw [sourceOf, sourceOf, readText, readText, readFile, readFile, readFile, readFile,
      paths (by simp), paths (by simp)]
  refine ((List.forall₂_and_left ..).2 ⟨same, drafted.loaded⟩).imp ?_
  rintro input loaded ⟨unchanged, load⟩
  rw [loadInput_eq_ok] at load ⊢
  refine ⟨unchanged.trans load.1, load.2.1, ?_⟩
  rw [unforced]
  rfl

/-- The sources that a build has to prepare. -/
def prepares (config : BuildConfig) (tool : Option String) (read : Reading) :
    Except BuildError (List ModuleSource) :=
  (config.inputs.mapM (loadInput config (openIn read config.outDir tool config.seed) read)).map
    waiting

theorem waiting_eq_nil : waiting inputs = [] ↔ ∀ input ∈ inputs, input.cached.isSome := by
  simp [waiting, Option.isSome_iff_ne_none]

/-- Every input has a record exactly if every module is found by its entry. -/
theorem Drafted.all_cached_iff (drafted : Drafted config cache process read inputs modules sources)
    (found : CacheEntry → Option CompiledModule) :
    (∀ input ∈ inputs.map (LoadedInput.refreshed found), input.cached.isSome) ↔
      ∀ e ∈ modules.zip (inputs.map (·.entry)), (found e.2).isSome := by
  have entries : (modules.zip (inputs.map (·.entry))).map (·.2) = inputs.map (·.entry) := by
    refine List.map_snd_zip ?_
    rw [List.length_map, drafted.given.length_eq]
  have given : (∀ e ∈ modules.zip (inputs.map (·.entry)), (found e.2).isSome) ↔
      ∀ entry ∈ (modules.zip (inputs.map (·.entry))).map (·.2), (found entry).isSome := by
    rw [List.forall_mem_map]
  rw [given, entries, List.forall_mem_map, List.forall_mem_map]
  rfl

/-- With a record of each module in its place the plan is the same. -/
theorem Drafted.again (drafted : Drafted config cache process read inputs modules sources)
    (loaded : config.inputs.mapM (loadInput config other later) =
      .ok (inputs.map (LoadedInput.refreshed (other.lookup later))))
    (hits : ∀ e ∈ modules.zip (inputs.map (·.entry)), other.lookup later e.2 = some e.1)
    (processAgain : String → Option Nat) :
    Drafted config other processAgain later
      (inputs.map (LoadedInput.refreshed (other.lookup later))) modules sources := by
  refine ⟨Outcome.mapM_eq_ok.1 loaded, ?_, ?_, drafted.generated⟩
  · have records : List.Forall₂ (fun compiled entry => other.lookup later entry = some compiled)
        modules (inputs.map (·.entry)) := by
      refine List.forall₂_iff_zip.2 ⟨?_, fun member => hits _ member⟩
      rw [List.length_map, drafted.given.length_eq]
    rw [List.forall₂_map_left_iff]
    refine (List.forall₂_map_right_iff.1 records).flip.imp fun input compiled hit => ?_
    rw [LoadedInput.Gives, LoadedInput.refreshed, hit]
  · rw [entries_refreshed]
    exact drafted.named

/-- Both sources with their contents. -/
def sourceFiles (outDir : String) (sources : GeneratedSources) : List (String × Bytes) :=
  [(declsPath outDir, Bytes.ofText sources.decls),
    (libraryPath outDir, Bytes.ofText sources.library)]

/-- The cache lies where neither source is put together. -/
theorem sourceFiles_apart {outDir : String} {sources : GeneratedSources} {file : String × Bytes}
    (member : file ∈ sourceFiles outDir sources) :
    placeOf file.1 ≠ placeOf (directoryIn outDir) ∧
      placeOf (temporary file.1) ≠ placeOf (directoryIn outDir) := by
  have inside : placeOf (directoryIn outDir) = placeOf outDir ++ [".patchwork-cache"] :=
    placeOf_join (by decide) outDir
  have apart {name : String} (named : IsFileName name) (differs : name ≠ ".patchwork-cache")
      (differsAside : name ++ ".tmp" ≠ ".patchwork-cache") :
      placeOf (Files.join outDir name) ≠ placeOf (directoryIn outDir) ∧
        placeOf (temporary (Files.join outDir name)) ≠ placeOf (directoryIn outDir) := by
    rw [inside, placeOf_join named, placeOf_temporary named]
    exact ⟨fun same => differs (List.cons.inj (List.append_cancel_left same)).1,
      fun same => differsAside (List.cons.inj (List.append_cancel_left same)).1⟩
  simp only [sourceFiles, List.mem_cons, List.not_mem_nil, or_false] at member
  rcases member with rfl | rfl
  · exact apart (by decide) (by decide) (by decide)
  · exact apart (by decide) (by decide) (by decide)

theorem perform_operations_again {outDir : String}
    (directory : cache.directory = directoryIn outDir)
    {entered : List (CompiledModule × CacheEntry)}
    (done : perform (writeSources outDir sources ++ writeCache cache entered) tree =
      (.ok (), next)) :
    ∃ final, perform (writeSources outDir sources ++ writeCache cache entered) next =
      (.ok (), final) := by
  have planned : writeSources outDir sources ++ writeCache cache entered =
      .createDirs outDir :: (replaceAll (sourceFiles outDir sources) ++
        publish (Files.join outDir ".patchwork-cache") (cacheFiles cache entered)) := by
    rw [Cache.writeCache_eq_publish, directory, directoryIn]
    rfl
  have filled : cacheFiles cache entered ≠ [] := by simp [cacheFiles]
  exact perform_again (by decide) filled planned (fun _ => sourceFiles_apart) done

/-- The names that the index of an output directory lists. -/
def listedNames (outDir : String) (tree : Tree) : List String :=
  (indexIn outDir tree.fileAt).modules.map (·.1)

/-- A build that went through, with what it was made from. -/
structure Completed (config : BuildConfig) (tool : Option String) (process : String → Option Nat)
    (tree next : Tree) (inputs : List LoadedInput) (modules : List CompiledModule)
    (sources : GeneratedSources) : Prop where
  drafted : Drafted config (openIn tree.read config.outDir tool config.seed) process tree.read
    inputs modules sources
  done : perform (writeSources config.outDir sources ++
    writeCache (openIn tree.read config.outDir tool config.seed)
      (modules.zip (inputs.map (·.entry)))) tree = (.ok (), next)

theorem completed_of_run {tool : Option String} {summary : BuildSummary} :
    run config tool process tree = (.ok summary, next) ↔ ∃ inputs modules sources,
      Completed config tool process tree next inputs modules sources ∧
      summary = (planOf config (openIn tree.read config.outDir tool config.seed) inputs modules
        sources).summary := by
  rw [run_eq_ok]
  constructor
  · rintro ⟨plan, planned, done, rfl⟩
    obtain ⟨inputs, modules, sources, drafted, rfl⟩ := plan_eq_ok.1 planned
    exact ⟨inputs, modules, sources, ⟨drafted, done⟩, rfl⟩
  · rintro ⟨inputs, modules, sources, completed, rfl⟩
    exact ⟨_, plan_eq_ok.2 ⟨inputs, modules, sources, completed.drafted, rfl⟩, completed.done, rfl⟩

namespace Completed

variable {tool : String}

theorem names_nodup
    (completed : Completed config (some tool) process tree next inputs modules sources) :
    ((modules.zip (inputs.map (·.entry))).map (·.1.name)).Nodup :=
  (checkNames_nodup completed.drafted.named).1

/-- The index that a build leaves lists its modules. -/
theorem listedNames_perm
    (completed : Completed config (some tool) process tree next inputs modules sources) :
    (listedNames config.outDir next).Perm
      ((modules.zip (inputs.map (·.entry))).map (·.1.name)) := by
  have directory : (openIn tree.read config.outDir (some tool) config.seed).directory =
      directoryIn config.outDir := rfl
  obtain ⟨listed, index, same⟩ := Cache.indexIn_after_all directory rfl completed.names_nodup
    (writeSources config.outDir sources) tree.fileAt
  rw [listedNames, fileAt_of_perform completed.done, index]
  have names := same.map (·.1)
  rwa [List.map_map] at names

/-- Every module is found again exactly if the files of the cache have places of their own. -/
theorem hits_iff_apart
    (completed : Completed config (some tool) process tree next inputs modules sources) :
    (∀ e ∈ modules.zip (inputs.map (·.entry)),
      (reloaded next config.outDir tool config.seed e.2).isSome) ↔
      Apart config.outDir (listedNames config.outDir next) := by
  rw [Cache.apart_congr completed.listedNames_perm]
  exact Cache.reloaded_iff_apart rfl rfl completed.names_nodup completed.drafted.entries_nodup
    completed.done

theorem eq_of_hit
    (completed : Completed config (some tool) process tree next inputs modules sources)
    {e : CompiledModule × CacheEntry} (member : e ∈ modules.zip (inputs.map (·.entry)))
    (hit : (reloaded next config.outDir tool config.seed e.2).isSome) :
    reloaded next config.outDir tool config.seed e.2 = some e.1 := by
  obtain ⟨record, found⟩ := Option.isSome_iff_exists.1 hit
  rw [found, (Cache.eq_of_reloaded rfl rfl completed.names_nodup completed.drafted.entries_nodup
    completed.done member found).1]

theorem loaded_again
    (completed : Completed config (some tool) process tree next inputs modules sources)
    (unforced : config.force = false)
    (kept : ∀ path ∈ inputPaths config, next.read path = tree.read path) :
    config.inputs.mapM (loadInput config (openIn next.read config.outDir (some tool) config.seed)
      next.read) = .ok (inputs.map (LoadedInput.refreshed
        (reloaded next config.outDir tool config.seed))) :=
  completed.drafted.loaded_again unforced kept _

theorem prepares_nothing_iff
    (completed : Completed config (some tool) process tree next inputs modules sources)
    (unforced : config.force = false)
    (kept : ∀ path ∈ inputPaths config, next.read path = tree.read path) :
    prepares config (some tool) next.read = .ok [] ↔
      Apart config.outDir (listedNames config.outDir next) := by
  rw [← completed.hits_iff_apart, ← completed.drafted.all_cached_iff, ← waiting_eq_nil, prepares,
    completed.loaded_again unforced kept, Except.map]
  exact ⟨fun same => Except.ok.inj same, fun same => congrArg Except.ok same⟩

/-- A repeated build that reports every module as reused has found each of them. -/
theorem hits_of_run
    (completed : Completed config (some tool) process tree next inputs modules sources)
    (unforced : config.force = false)
    (kept : ∀ path ∈ inputPaths config, next.read path = tree.read path)
    {later : String → Option Nat} {final : Tree} {summary : BuildSummary}
    (rebuilt : run config (some tool) later next = (.ok summary, final))
    (reused : summary.reused = modules.length) :
    ∀ e ∈ modules.zip (inputs.map (·.entry)),
      (reloaded next config.outDir tool config.seed e.2).isSome := by
  obtain ⟨loaded, _, _, again, rfl⟩ := completed_of_run.1 rebuilt
  -- the second build has loaded the inputs of the first, with what its own cache has for them
  have same := Outcome.mapM_eq_ok.2 again.drafted.loaded
  rw [completed.loaded_again unforced kept] at same
  obtain rfl := Except.ok.inj same
  rw [← completed.drafted.all_cached_iff]
  refine List.countP_eq_length.1 (reused.trans ?_)
  rw [List.length_map, completed.drafted.given.length_eq]

/-- A repeated build that finds every module goes through and reports them all as reused. -/
theorem run_again
    (completed : Completed config (some tool) process tree next inputs modules sources)
    (unforced : config.force = false)
    (kept : ∀ path ∈ inputPaths config, next.read path = tree.read path)
    (hits : ∀ e ∈ modules.zip (inputs.map (·.entry)),
      (reloaded next config.outDir tool config.seed e.2).isSome) (later : String → Option Nat) :
    ∃ final, run config (some tool) later next = (.ok { (planOf config
      (openIn tree.read config.outDir (some tool) config.seed) inputs modules sources).summary with
        reused := modules.length }, final) := by
  have drafted := completed.drafted.again (completed.loaded_again unforced kept)
    (fun e member => completed.eq_of_hit member (hits e member)) later
  have reused : (inputs.map (LoadedInput.refreshed
      (reloaded next config.outDir tool config.seed))).countP (·.cached.isSome) =
      modules.length := by
    rw [List.countP_eq_length.2 ((completed.drafted.all_cached_iff _).2 hits), List.length_map,
      completed.drafted.given.length_eq]
  obtain ⟨final, done⟩ := perform_operations_again rfl completed.done
  rw [Cache.writeCache_openIn next.read tree.read, ← entries_refreshed
    (reloaded next config.outDir tool config.seed)] at done
  refine ⟨final, completed_of_run.2 ⟨_, modules, sources, ⟨drafted, done⟩, ?_⟩⟩
  rw [planOf, planOf, ← reused]
  rfl

/-- No record that was reused bears a name that leads out of the cache. -/
theorem identifiers
    (completed : Completed config (some tool) process tree next inputs modules sources)
    (named : Named config.outDir tree.fileAt) :
    ∀ name ∈ listedNames config.outDir next, Manifest.isIdentifier name = true := by
  intro name listed
  obtain ⟨e, member, rfl⟩ := List.mem_map.1 (completed.listedNames_perm.mem_iff.1 listed)
  obtain ⟨input, inside, _, gives⟩ := exists_of_mem_zip completed.drafted.given member
  obtain ⟨_, _, load⟩ := exists_left completed.drafted.loaded inside
  obtain ⟨_, _, cached⟩ := loadInput_eq_ok.1 load
  rw [LoadedInput.Gives] at gives
  cases hit : input.cached with
  | none =>
    simp only [hit] at gives
    exact ModuleSource.isIdentifier_of_compile gives
  | some record =>
    simp only [hit] at gives
    rw [hit] at cached
    split at cached
    · cases cached
    · obtain ⟨name, found, _, _, same⟩ := Cache.lookup_eq_some cached.symm
      rw [← gives, same]
      exact named _ found

end Completed

/-- A build that is repeated without a change to its inputs has nothing to prepare, and it goes
through and reports every module as reused, exactly if each file of the cache has a place of its
own. As long as no name in the cache led out of it before, this fails only for a module called
`checksums`. -/
theorem repeated_build_reuses_iff (config : BuildConfig) (unforced : config.force = false)
    (tool : String) (process later : String → Option Nat) (tree next : Tree)
    (summary : BuildSummary)
    (built : run config (some tool) process tree = (.ok summary, next))
    (kept : ∀ path ∈ inputPaths config, next.read path = tree.read path) :
    (prepares config (some tool) next.read = .ok [] ↔
      Apart config.outDir (listedNames config.outDir next)) ∧
    ((∃ final, run config (some tool) later next =
        (.ok { summary with reused := summary.modules }, final)) ↔
      Apart config.outDir (listedNames config.outDir next)) ∧
    (Named config.outDir tree.fileAt →
      (Apart config.outDir (listedNames config.outDir next) ↔
        "checksums" ∉ listedNames config.outDir next)) := by
  obtain ⟨inputs, modules, sources, completed, rfl⟩ := completed_of_run.1 built
  refine ⟨completed.prepares_nothing_iff unforced kept, ?_, fun named =>
    Cache.apart_iff_of_identifiers (completed.identifiers named)⟩
  rw [← completed.hits_iff_apart]
  constructor
  · rintro ⟨final, rebuilt⟩
    exact completed.hits_of_run unforced kept rebuilt rfl
  · intro hits
    exact completed.run_again unforced kept hits later

/-- A module of a given name without families, and its object file. -/
def plainTree (name : String) : Tree :=
  ⟨[(["a"], .file (Bytes.ofText ("module='" ++ name ++ "'"))), (["b"], .file bareObject)]⟩

/-- The files after a build of the module. -/
def plainBuilt (name : String) : Tree :=
  (run bareBuild (some "t") (fun _ => none) (plainTree name)).2

theorem plain_built : (run bareBuild (some "t") (fun _ => none) (plainTree "m")).1 =
      .ok ⟨1, 0, 0, 0⟩ ∧
    (∀ path ∈ inputPaths bareBuild, (plainBuilt "m").read path = (plainTree "m").read path) ∧
    listedNames bareBuild.outDir (plainBuilt "m") = ["m"] ∧
    (indexIn bareBuild.outDir (plainTree "m").fileAt).modules = [] := by
  decide +kernel

theorem plain_build_reuses_all :
    prepares bareBuild (some "t") (plainBuilt "m").read = .ok [] ∧
    ∃ final, run bareBuild (some "t") (fun _ => none) (plainBuilt "m") =
      (.ok ⟨1, 1, 0, 0⟩, final) := by
  obtain ⟨succeeds, kept, listed, empty⟩ := plain_built
  have built : run bareBuild (some "t") (fun _ => none) (plainTree "m") =
      (.ok ⟨1, 0, 0, 0⟩, plainBuilt "m") := by
    rw [plainBuilt]
    exact Prod.fst_eq_iff.1 succeeds
  have named : Named bareBuild.outDir (plainTree "m").fileAt := by
    intro e member
    rw [empty] at member
    cases member
  obtain ⟨nothing, reused, exactly⟩ := repeated_build_reuses_iff bareBuild rfl "t" (fun _ => none)
    (fun _ => none) (plainTree "m") (plainBuilt "m") ⟨1, 0, 0, 0⟩ built kept
  have apart := (exactly named).2 (by rw [listed]; decide)
  exact ⟨nothing.2 apart, reused.2 apart⟩

/-- A module called `checksums` is prepared again by every build: its record and the index are one
file. -/
theorem checksums_module_is_prepared_again :
    (run bareBuild (some "t") (fun _ => none) (plainTree "checksums")).1 = .ok ⟨1, 0, 0, 0⟩ ∧
    (∀ path ∈ inputPaths bareBuild,
      (plainBuilt "checksums").read path = (plainTree "checksums").read path) ∧
    (run bareBuild (some "t") (fun _ => none) (plainBuilt "checksums")).1 = .ok ⟨1, 0, 0, 0⟩ := by
  decide +kernel

end Session

end CopyPatch
