import CopyPatch.Build.Session
import CopyPatch.Proofs.Workers.Answer

/-! What a build plans. The modules of a plan are given by its inputs one by one: by the record of
an input that the cache still has, or by compiling its source; the workers do not show. So compiling
everything anew gives the same plan if each record is what its source compiles to. -/
namespace CopyPatch

/-- The key of a source in the cache. -/
def ModuleSource.entry (source : ModuleSource) : CacheEntry :=
  ⟨source.origin, inputChecksum (Bytes.ofText source.manifest) source.object⟩

theorem ModuleSource.compile_eq_ok {source : ModuleSource} {process : String → Option Nat}
    {seed : Option UInt64} {compiled : CompiledModule} :
    source.compile process seed = .ok compiled ↔
      ∃ prepared, source.prepare process = .ok prepared ∧ prepared.finish seed = .ok compiled :=
  Outcome.bind_eq_ok

/-- Enter modules into the new index one after another. -/
def Cache.keepAll (cache : Cache) (entered : List (CompiledModule × CacheEntry)) : Cache :=
  entered.foldl (fun cache (compiled, entry) => cache.keep compiled.name entry) cache

theorem Cache.keepAll_directory (cache : Cache) (entered : List (CompiledModule × CacheEntry)) :
    (cache.keepAll entered).directory = cache.directory := by
  induction entered generalizing cache with
  | nil => rfl
  | cons e rest ih => exact ih _

namespace Session

variable {config : BuildConfig} {cache : Cache} {tool : Option String}
  {process : String → Option Nat} {read : Reading} {seed : Option UInt64}

/-- The source that an input names. -/
def sourceOf (read : Reading) (input : BuildInput) : Except BuildError ModuleSource := do
  let manifest ← readText read input.manifest
  let object ← readFile read input.object
  return ⟨input.manifest, manifest, object⟩

theorem loadInput_eq_ok {input : BuildInput} {loaded : LoadedInput} :
    loadInput config cache read input = .ok loaded ↔
      sourceOf read input = .ok loaded.source ∧ loaded.entry = loaded.source.entry ∧
        loaded.cached = if config.force then none else cache.lookup read loaded.entry := by
  simp only [loadInput, sourceOf, Outcome.bind_eq_ok]
  constructor
  · rintro ⟨manifest, readManifest, object, readObject, made⟩
    cases made
    exact ⟨⟨manifest, readManifest, object, readObject, rfl⟩, rfl, rfl⟩
  · obtain ⟨source, entry, cached⟩ := loaded
    rintro ⟨⟨manifest, readManifest, object, readObject, made⟩, keyed, found⟩
    cases made
    simp only [ModuleSource.entry] at keyed found
    subst keyed found
    exact ⟨manifest, readManifest, object, readObject, rfl⟩

/-- An input whose record is not used. -/
def LoadedInput.anew (input : LoadedInput) : LoadedInput := { input with cached := none }

/-- What an input comes to: its record if that is still good, or else what it compiles to. -/
def LoadedInput.Gives (process : String → Option Nat) (seed : Option UInt64)
    (input : LoadedInput) (compiled : CompiledModule) : Prop :=
  match input.cached with
  | some record => record = compiled
  | none => input.source.compile process seed = .ok compiled

/-- The sources that have to be prepared. -/
def waiting (inputs : List LoadedInput) : List ModuleSource :=
  (inputs.filter (·.cached.isNone)).map (·.source)

theorem tasks_sources (inputs : List LoadedInput) :
    (tasks inputs).map (·.2) = waiting inputs := by
  have numbered (start : Nat) : ((inputs.zipIdx start).filterMap fun p =>
      if p.1.cached.isSome then none else some (p.2, p.1.source)).map (·.2) = waiting inputs := by
    induction inputs generalizing start with
    | nil => rfl
    | cons input rest ih =>
      rw [List.zipIdx_cons, List.filterMap_cons]
      cases found : input.cached with
      | some record => simpa [waiting, found] using ih (start + 1)
      | none => simpa [waiting, found] using ih (start + 1)
  exact numbered 0

theorem tasks_increasing (inputs : List LoadedInput) :
    (tasks inputs).Pairwise fun a b => a.1 < b.1 := by
  have inOrder (start : Nat) : (inputs.zipIdx start).Pairwise fun a b => a.2 < b.2 := by
    induction inputs generalizing start with
    | nil => exact .nil
    | cons input rest ih =>
      rw [List.zipIdx_cons, List.pairwise_cons]
      refine ⟨fun later member => ?_, ih (start + 1)⟩
      have := List.le_snd_of_mem_zipIdx member
      omega
  refine (inOrder 0).filterMap _ fun a b less => ?_
  simp only [Option.ite_none_left_eq_some, Option.some.injEq]
  rintro _ ⟨_, rfl⟩ _ ⟨_, rfl⟩
  exact less

/-- The workers prepare what preparing one source after another does. -/
theorem runAll_prepare {inputs : List LoadedInput} {count : Nat} {prepared : List PreparedModule} :
    Pool.runAll (·.prepare process) count (tasks inputs) = .ok prepared ↔
      List.Forall₂ (fun source p => source.prepare process = .ok p) (waiting inputs) prepared := by
  rw [← tasks_sources, List.forall₂_map_left_iff]
  constructor
  · intro ran
    exact Outcome.mapM_eq_ok.1 (Pool.runAll_eq_ok (tasks_increasing inputs) ran)
  · intro prepares
    rw [Pool.runAll_eq (tasks_increasing inputs) ?_, Outcome.mapM_eq_ok.2 prepares]
    intro task member fault faulty
    obtain ⟨answer, _, answered⟩ := exists_right prepares member
    cases faulty.symm.trans answered

theorem complete_cached {input : LoadedInput} {record : CompiledModule}
    (found : input.cached = some record) {rest : List LoadedInput}
    {prepared : List PreparedModule} {modules : List CompiledModule} :
    complete seed (input :: rest) prepared = .ok modules ↔
      ∃ others, complete seed rest prepared = .ok others ∧ modules = record :: others := by
  simp only [complete, found, Outcome.bind_eq_ok]
  constructor
  · rintro ⟨others, completed, made⟩
    cases made
    exact ⟨others, completed, rfl⟩
  · rintro ⟨others, completed, rfl⟩
    exact ⟨others, completed, rfl⟩

theorem complete_waiting {input : LoadedInput} (found : input.cached = none)
    {rest : List LoadedInput} {first : PreparedModule} {prepared : List PreparedModule}
    {modules : List CompiledModule} :
    complete seed (input :: rest) (first :: prepared) = .ok modules ↔
      ∃ compiled others, first.finish seed = .ok compiled ∧
        complete seed rest prepared = .ok others ∧ modules = compiled :: others := by
  simp only [complete, found, Outcome.bind_eq_ok]
  constructor
  · rintro ⟨compiled, finished, others, completed, made⟩
    cases made
    exact ⟨compiled, others, finished, completed, rfl⟩
  · rintro ⟨compiled, others, finished, completed, rfl⟩
    exact ⟨compiled, finished, others, completed, rfl⟩

/-- Preparing what waits and completing it gives each input its module. -/
theorem complete_eq_ok {inputs : List LoadedInput} {modules : List CompiledModule} :
    (∃ prepared, List.Forall₂ (fun source p => source.prepare process = .ok p) (waiting inputs)
      prepared ∧ complete seed inputs prepared = .ok modules) ↔
      List.Forall₂ (LoadedInput.Gives process seed) inputs modules := by
  induction inputs generalizing modules with
  | nil =>
    constructor
    · rintro ⟨prepared, _, completed⟩
      cases completed
      exact .nil
    · intro given
      cases given
      exact ⟨[], .nil, rfl⟩
  | cons input rest ih =>
    rw [List.forall₂_cons_left_iff]
    cases found : input.cached with
    | some record =>
      -- a record takes nothing from the prepared modules
      have same : waiting (input :: rest) = waiting rest := by simp [waiting, found]
      simp only [same, complete_cached found, LoadedInput.Gives, found]
      constructor
      · rintro ⟨prepared, prepares, others, completed, rfl⟩
        exact ⟨record, others, rfl, ih.1 ⟨prepared, prepares, completed⟩, rfl⟩
      · rintro ⟨_, others, rfl, given, rfl⟩
        obtain ⟨prepared, prepares, completed⟩ := ih.2 given
        exact ⟨prepared, prepares, others, completed, rfl⟩
    | none =>
      have more : waiting (input :: rest) = input.source :: waiting rest := by simp [waiting, found]
      simp only [more, LoadedInput.Gives, found, ModuleSource.compile_eq_ok]
      constructor
      · rintro ⟨_, _ | ⟨prepare, prepares⟩, all⟩
        obtain ⟨compiled, others, finished, completed, rfl⟩ := (complete_waiting found).1 all
        exact ⟨compiled, others, ⟨_, prepare, finished⟩, ih.1 ⟨_, prepares, completed⟩, rfl⟩
      · rintro ⟨compiled, others, ⟨first, prepare, finished⟩, given, rfl⟩
        obtain ⟨prepared, prepares, completed⟩ := ih.2 given
        exact ⟨first :: prepared, .cons prepare prepares,
          (complete_waiting found).2 ⟨compiled, others, finished, completed, rfl⟩⟩

/-- What a plan is made from. -/
structure Drafted (config : BuildConfig) (cache : Cache) (process : String → Option Nat)
    (read : Reading) (inputs : List LoadedInput) (modules : List CompiledModule)
    (sources : GeneratedSources) : Prop where
  loaded : List.Forall₂ (fun input loaded => loadInput config cache read input = .ok loaded)
    config.inputs inputs
  given : List.Forall₂ (LoadedInput.Gives process config.seed) inputs modules
  named : checkNames [] (modules.zip (inputs.map (·.entry))) = .ok ()
  generated : generate modules = .ok sources

/-- The plan for what was found. -/
def planOf (config : BuildConfig) (cache : Cache) (inputs : List LoadedInput)
    (modules : List CompiledModule) (sources : GeneratedSources) : BuildPlan where
  operations := writeSources config.outDir sources ++
    writeCache cache (modules.zip (inputs.map (·.entry)))
  summary := {
    modules := modules.length
    reused := inputs.countP (·.cached.isSome)
    families := modules.foldl (fun n m => n + m.families.length) 0
    variants := modules.foldl (fun n m => n + m.variantCount) 0 }

theorem plan_eq_ok {plan : BuildPlan} :
    Session.plan config tool process read = .ok plan ↔ ∃ inputs modules sources,
      Drafted config (Cache.openIn read config.outDir tool config.seed) process read inputs modules
        sources ∧
      plan = planOf config (Cache.openIn read config.outDir tool config.seed) inputs modules
        sources := by
  simp only [Session.plan, Outcome.bind_eq_ok, Outcome.ofReporting_eq_ok, Outcome.mapM_eq_ok,
    runAll_prepare]
  constructor
  · rintro ⟨inputs, loaded, prepared, prepares, modules, completed, _, named, sources, generated,
      made⟩
    cases made
    exact ⟨inputs, modules, sources,
      ⟨loaded, complete_eq_ok.1 ⟨prepared, prepares, completed⟩, named, generated⟩, rfl⟩
  · rintro ⟨inputs, modules, sources, ⟨loaded, given, named, generated⟩, rfl⟩
    obtain ⟨prepared, prepares, completed⟩ := complete_eq_ok.2 given
    exact ⟨inputs, loaded, prepared, prepares, modules, completed, (), named, sources, generated,
      rfl⟩

theorem writeCache_eq (cache : Cache) (entered : List (CompiledModule × CacheEntry)) :
    writeCache cache entered =
      entered.flatMap (fun e => cache.store e.1) ++ (cache.keepAll entered).save := rfl

/-- Compiling everything anew plans the same operations if every module is what its source
compiles to. -/
theorem plan_forced {inputs : List LoadedInput} {modules : List CompiledModule}
    {sources : GeneratedSources} {plan : BuildPlan}
    (drafted : Drafted config (Cache.openIn read config.outDir tool config.seed) process read inputs
      modules sources)
    (made : plan = planOf config (Cache.openIn read config.outDir tool config.seed) inputs modules
      sources)
    (compiles : List.Forall₂ (fun input compiled =>
      input.source.compile process config.seed = .ok compiled) inputs modules) :
    Session.plan { config with force := true } tool process read =
      .ok { plan with summary := { plan.summary with reused := 0 } } := by
  have entries : (inputs.map LoadedInput.anew).map (·.entry) = inputs.map (·.entry) := by
    rw [List.map_map]
    rfl
  rw [plan_eq_ok]
  refine ⟨inputs.map LoadedInput.anew, modules, sources, ⟨?_, ?_, ?_, drafted.generated⟩, ?_⟩
  · rw [List.forall₂_map_right_iff]
    refine drafted.loaded.imp fun input loaded load => ?_
    rw [loadInput_eq_ok] at load ⊢
    exact ⟨load.1, load.2.1, rfl⟩
  · rw [List.forall₂_map_left_iff]
    exact compiles
  · rw [entries]
    exact drafted.named
  · have none_reused : (inputs.map LoadedInput.anew).countP (·.cached.isSome) = 0 := by
      simp [LoadedInput.anew]
    rw [made, planOf, planOf, entries, none_reused]

/-- No two modules of a plan share a name. -/
theorem checkNames_nodup {earlier : List (String × String)}
    {entered : List (CompiledModule × CacheEntry)} (checked : checkNames earlier entered = .ok ()) :
    (entered.map (·.1.name)).Nodup ∧ ∀ e ∈ entered, e.1.name ∉ earlier.map (·.1) := by
  induction entered generalizing earlier with
  | nil => exact ⟨.nil, by simp⟩
  | cons e rest ih =>
    rw [checkNames] at checked
    split at checked
    · cases checked
    · rename_i fresh
      obtain ⟨distinct, apart⟩ := ih checked
      have new : e.1.name ∉ earlier.map (·.1) := by
        intro member
        obtain ⟨other, inside, same⟩ := List.mem_map.1 member
        have differs := List.lookup_eq_none_iff.1 fresh other inside
        simp [same] at differs
      refine ⟨?_, ?_⟩
      · rw [List.map_cons, List.nodup_cons]
        refine ⟨?_, distinct⟩
        intro member
        obtain ⟨other, inside, same⟩ := List.mem_map.1 member
        exact apart other inside (by simp [same])
      · intro other inside
        rcases List.mem_cons.1 inside with rfl | inside
        · exact new
        · intro member
          exact apart other inside (List.mem_cons_of_mem _ member)

end Session

end CopyPatch
