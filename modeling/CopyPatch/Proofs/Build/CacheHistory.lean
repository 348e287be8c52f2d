import CopyPatch.Proofs.Build.CacheConsistency
import CopyPatch.Proofs.Build.Reproducibility

/-! Builds one after another in one output directory, each in a process of its own, with changes to
anything but the cache between them. While each build goes through, or fails before its first record
is in place, records are as good as compiling anew. A build that is broken off later may leave a
record under an entry of other inputs. -/
namespace CopyPatch.Session

open Files
open Cache (Consistent Named Harmless indexIn openIn directoryIn)

variable {config : BuildConfig} {tool : Option String} {process : String → Option Nat}
  {seen : List ModuleSource} {tree next : Tree}

/-- What may become of an output directory: it has no cache at first, or one without entries;
anything but the files of the cache may be changed; and builds are run. -/
inductive History (outDir : String) (Build : Tree → Tree → Prop) : Tree → Prop
  | fresh {tree : Tree} (empty : (indexIn outDir tree.fileAt).modules = []) :
    History outDir Build tree
  | changed {tree next : Tree} (earlier : History outDir Build tree)
    (kept : ∀ place, placeOf (directoryIn outDir) <+: place →
      next.fileAt place = tree.fileAt place) : History outDir Build next
  | built {tree next : Tree} (earlier : History outDir Build tree) (build : Build tree next) :
    History outDir Build next

theorem History.consistent {outDir : String} {Build : Tree → Tree → Prop}
    (step : ∀ tree next, Build tree next → Consistent process seen outDir tree.fileAt →
      Named outDir tree.fileAt →
      Consistent process seen outDir next.fileAt ∧ Named outDir next.fileAt)
    (history : History outDir Build tree) :
    Consistent process seen outDir tree.fileAt ∧ Named outDir tree.fileAt := by
  induction history with
  | fresh empty =>
    constructor
    · intro e listed
      rw [empty] at listed
      cases listed
    · intro e listed
      rw [empty] at listed
      cases listed
  | changed _ kept ih => exact Cache.consistent_congr kept ih.1 ih.2
  | built _ build ih => exact step _ _ build ih.1 ih.2

/-- What is drafted in one process is drafted in every other. -/
theorem Drafted.inProcess {p : String → Option Nat} {cache : Cache} {read : Reading}
    {inputs : List LoadedInput} {modules : List CompiledModule} {sources : GeneratedSources}
    (drafted : Drafted config cache p read inputs modules sources) (q : String → Option Nat) :
    Drafted config cache q read inputs modules sources := by
  refine ⟨drafted.loaded, drafted.given.imp fun input compiled gives => ?_, drafted.named,
    drafted.generated⟩
  rw [LoadedInput.Gives] at gives ⊢
  cases found : input.cached with
  | some record => simpa only [found] using gives
  | none => simpa only [found, input.source.compile_process p q] using gives

/-- A build that is broken off after a number of operations, or at the first that fails, and has
done no harm by then. It may ask a process of its own. -/
inductive BreaksOff (process : String → Option Nat) (seen : List ModuleSource) (outDir : String)
    (tree : Tree) : Tree → Prop
  | intro {config : BuildConfig} {tool : Option String} {asked : String → Option Nat}
    {inputs : List LoadedInput} {modules : List CompiledModule} {sources : GeneratedSources}
    {plan : BuildPlan} (count : Nat) (here : config.outDir = outDir)
    (reads : Reads config tree.read seen)
    (drafted : Drafted config (openIn tree.read config.outDir tool config.seed) asked tree.read
      inputs modules sources)
    (made : plan = planOf config (openIn tree.read config.outDir tool config.seed) inputs modules
      sources)
    (harmless : Harmless process seen (indexIn outDir tree.fileAt)
      (modules.zip (inputs.map (·.entry))) (performed (plan.operations.take count) tree)) :
    BreaksOff process seen outDir tree (perform (plan.operations.take count) tree).2

/-- A build that is broken off only by a failure, if at all. -/
theorem BreaksOff.perform {asked : String → Option Nat} {inputs : List LoadedInput}
    {modules : List CompiledModule} {sources : GeneratedSources} {plan : BuildPlan}
    (reads : Reads config tree.read seen)
    (drafted : Drafted config (openIn tree.read config.outDir tool config.seed) asked tree.read
      inputs modules sources)
    (made : plan = planOf config (openIn tree.read config.outDir tool config.seed) inputs modules
      sources)
    (harmless : Harmless process seen (indexIn config.outDir tree.fileAt)
      (modules.zip (inputs.map (·.entry))) (performed plan.operations tree)) :
    BreaksOff process seen config.outDir tree (Files.perform plan.operations tree).2 := by
  have whole := BreaksOff.intro plan.operations.length rfl reads drafted made
    (by rwa [List.take_length])
  rwa [List.take_length] at whole

theorem BreaksOff.consistent {outDir : String} (noCollision : ModuleSource.NoCollision seen)
    (build : BreaksOff process seen outDir tree next)
    (consistent : Consistent process seen outDir tree.fileAt) (named : Named outDir tree.fileAt) :
    Consistent process seen outDir next.fileAt ∧ Named outDir next.fileAt := by
  cases build with
  | intro count here reads drafted made harmless =>
    subst here
    obtain ⟨exactly, after⟩ := (drafted.inProcess process).consistent_iff consistent named
      noCollision reads count (congrArg BuildPlan.operations made)
    exact ⟨exactly.2 harmless, after⟩

theorem run_eq_ok {summary : BuildSummary} :
    run config tool process tree = (.ok summary, next) ↔
      ∃ plan, Session.plan config tool process tree.read = .ok plan ∧
        perform plan.operations tree = (.ok (), next) ∧ plan.summary = summary := by
  rw [run]
  cases planned : Session.plan config tool process tree.read with
  | error failure =>
    constructor
    · intro failed
      cases failed
    · rintro ⟨plan, found, _⟩
      cases found
  | ok plan =>
    simp only [Prod.mk.injEq, Outcome.ofReporting_eq_ok, Outcome.map_eq_ok]
    constructor
    · rintro ⟨⟨_, performed, same⟩, rfl⟩
      exact ⟨plan, rfl, Prod.ext performed rfl, same⟩
    · rintro ⟨_, found, performed, same⟩
      cases found
      rw [performed]
      exact ⟨⟨(), rfl, same⟩, rfl⟩

/-- A build that goes through has done no harm. -/
theorem breaksOff_of_run {asked : String → Option Nat} {summary : BuildSummary}
    (reads : Reads config tree.read seen)
    (built : run config tool asked tree = (.ok summary, next)) :
    BreaksOff process seen config.outDir tree next := by
  obtain ⟨plan, planned, done, _⟩ := run_eq_ok.1 built
  obtain ⟨inputs, modules, sources, drafted, made⟩ := plan_eq_ok.1 planned
  have all : performed plan.operations tree = plan.operations.length :=
    (perform_eq_ok plan.operations tree).1 (congrArg Prod.fst done)
  have length : plan.operations.length = 3 * (modules.zip (inputs.map (·.entry))).length + 8 := by
    rw [made]
    exact Cache.length_operations ..
  have harmless : Harmless process seen (indexIn config.outDir tree.fileAt)
      (modules.zip (inputs.map (·.entry))) (performed plan.operations tree) :=
    Or.inl (all.trans length)
  have whole := BreaksOff.perform reads drafted made harmless
  rwa [done] at whole

/-- A build in some process that goes through, or fails before its first record is in place: that is
the eighth operation. -/
def Settles (seen : List ModuleSource) (outDir : String) (tree next : Tree) : Prop :=
  ∃ config tool process, config.outDir = outDir ∧ Reads config tree.read seen ∧
    ((∃ summary, run config tool process tree = (.ok summary, next)) ∨
      ∃ failure, run config tool process tree = (.error failure, next) ∧
        ∀ plan, Session.plan config tool process tree.read = .ok plan →
          performed plan.operations tree < 8)

theorem Settles.breaksOff {outDir : String} (settles : Settles seen outDir tree next)
    (process : String → Option Nat) : next = tree ∨ BreaksOff process seen outDir tree next := by
  obtain ⟨config, tool, _, rfl, reads, ⟨summary, built⟩ | ⟨failure, failed, early⟩⟩ := settles
  · exact Or.inr (breaksOff_of_run reads built)
  · rcases run_eq_error failed with ⟨_, rfl⟩ | ⟨plan, planned, rfl⟩
    · exact Or.inl rfl
    · obtain ⟨inputs, modules, sources, drafted, made⟩ := plan_eq_ok.1 planned
      exact Or.inr (.perform reads drafted made (Cache.harmless_of_lt (early plan planned)))

/-- An object file without sections. -/
def bareObject : Bytes :=
  [0x7f, 0x45, 0x4c, 0x46, 2, 1, 1] ++ List.replicate 9 0 ++ [1, 0, 62, 0, 1, 0, 0, 0] ++
    List.replicate 40 0

/-- A module with one family, all of whose tuples are excluded. -/
def bareSource (family : String) : ModuleSource where
  origin := "a"
  manifest := "module='m'\n[[family]]\nname='" ++ family ++
    "'\nbody='x'\naxes=[['bool','a']]\nexclude=[\x7ba=[true,false]\x7d]"
  object := bareObject

def bareBuild : BuildConfig := { inputs := [⟨"a", "b"⟩], outDir := "o" }

/-- The inputs alone. -/
def bareTree : Tree := ⟨[(["a"], .file (Bytes.ofText (bareSource "f").manifest)),
  (["b"], .file bareObject)]⟩

/-- The inputs after a build. -/
def builtTree : Tree := (run bareBuild (some "t") (fun _ => none) bareTree).2

/-- The manifest changed after a build. -/
def changedTree : Tree := builtTree.put ["a"] (.file (Bytes.ofText (bareSource "g").manifest))

theorem bare_builds : (run bareBuild (some "t") (fun _ => none) bareTree).1 = .ok ⟨1, 0, 1, 0⟩ ∧
    sourceOf bareTree.read ⟨"a", "b"⟩ = .ok (bareSource "f") ∧
    sourceOf builtTree.read ⟨"a", "b"⟩ = .ok (bareSource "f") ∧
    (run bareBuild (some "t") (fun _ => none) builtTree).1 = .ok ⟨1, 1, 1, 0⟩ ∧
    sourceOf changedTree.read ⟨"a", "b"⟩ = .ok (bareSource "g") ∧
    (Session.plan bareBuild (some "t") (fun _ => none) changedTree.read).isOk = true := by
  decide +kernel

theorem bare_built :
    run bareBuild (some "t") (fun _ => none) bareTree = (.ok ⟨1, 0, 1, 0⟩, builtTree) := by
  rw [builtTree]
  exact Prod.fst_eq_iff.1 bare_builds.1

theorem bare_empty : (indexIn "o" bareTree.fileAt).modules = [] := by
  decide +kernel

theorem bare_noCollision : ModuleSource.NoCollision [bareSource "f", bareSource "g"] := by
  refine ⟨by decide +kernel, ?_⟩
  have apart : sha256 (bareSource "f").hashed ≠ sha256 (bareSource "g").hashed := by decide +kernel
  intro s memberS t memberT same
  simp only [List.mem_cons, List.not_mem_nil, or_false] at memberS memberT
  rcases memberS with rfl | rfl <;> rcases memberT with rfl | rfl
  · rfl
  · exact absurd same apart
  · exact absurd same.symm apart
  · rfl

theorem bare_reads {tree : Tree} {source : ModuleSource} {seen : List ModuleSource}
    (found : sourceOf tree.read ⟨"a", "b"⟩ = .ok source) (member : source ∈ seen) :
    Reads bareBuild tree.read seen := by
  intro input named other read
  cases List.mem_singleton.1 named
  cases found.symm.trans read
  exact member

theorem changed_kept (place : Place) (below : placeOf (directoryIn "o") <+: place) :
    changedTree.fileAt place = builtTree.fileAt place := by
  have first : placeOf (directoryIn "o") = ["o", ".patchwork-cache"] := by decide +kernel
  have elsewhere : place ≠ ["a"] := by
    rintro rfl
    rw [first] at below
    exact absurd below (by decide)
  rw [changedTree, Tree.fileAt_of_get? (Tree.get?_put (by decide) _),
    Function.update_of_ne elsewhere]

/-- Reusing records does not show: a build that goes through leaves the files that compiling
everything anew, in any process, would leave. -/
theorem cached_build_is_forced_build (process other : String → Option Nat)
    (seen : List ModuleSource) (noCollision : ModuleSource.NoCollision seen) (config : BuildConfig)
    (tool : Option String) (tree next : Tree)
    (history : History config.outDir (Settles seen config.outDir) tree)
    (reads : Reads config tree.read seen) (summary : BuildSummary)
    (built : run config tool process tree = (.ok summary, next)) :
    run { config with force := true } tool other tree =
      (.ok { summary with reused := 0 }, next) := by
  have consistent : Consistent process seen config.outDir tree.fileAt := by
    -- a build that settles is broken off where it has done no harm, or has changed nothing
    refine (history.consistent fun before after settles consistent named => ?_).1
    rcases settles.breaksOff process with rfl | build
    · exact ⟨consistent, named⟩
    · exact build.consistent noCollision consistent named
  obtain ⟨plan, planned, done, rfl⟩ := run_eq_ok.1 built
  obtain ⟨inputs, modules, sources, drafted, made⟩ := plan_eq_ok.1 planned
  have compiles := drafted.compiles consistent noCollision reads
  rw [run_process _ tool other process]
  exact run_eq_ok.2 ⟨_, plan_forced drafted made (compiles.imp fun _ _ found => found.2), done, rfl⟩

/-- The first build has asked a process that knows every name. -/
theorem repeated_build_is_forced_build :
    (run bareBuild (some "t") (fun _ => none) builtTree).1 = .ok ⟨1, 1, 1, 0⟩ ∧
    run { bareBuild with force := true } (some "t") (fun _ => none) builtTree =
      (.ok ⟨1, 0, 1, 0⟩, (run bareBuild (some "t") (fun _ => none) builtTree).2) := by
  obtain ⟨_, first, second, rebuilt, _⟩ := bare_builds
  have seenF : bareSource "f" ∈ [bareSource "f", bareSource "g"] := List.mem_cons_self
  have settled : Settles [bareSource "f", bareSource "g"] "o" bareTree builtTree :=
    ⟨bareBuild, some "t", fun _ => some 0, rfl, bare_reads first seenF,
      Or.inl ⟨_, (run_process _ _ _ _ _).trans bare_built⟩⟩
  refine ⟨rebuilt, ?_⟩
  exact cached_build_is_forced_build (fun _ => none) (fun _ => none) _ bare_noCollision bareBuild
    (some "t") builtTree _ (.built (.fresh bare_empty) settled) (bare_reads second seenF)
    ⟨1, 1, 1, 0⟩ (Prod.fst_eq_iff.1 rebuilt)

/-- As long as no build has done harm, the cache is consistent and a hit is what compiling the input
gives. A build that is then broken off keeps the cache consistent exactly if it has done no harm
either. -/
theorem broken_off_build_consistent_iff (process : String → Option Nat) (seen : List ModuleSource)
    (noCollision : ModuleSource.NoCollision seen) (config : BuildConfig) (tool : Option String)
    (tree : Tree) (history : History config.outDir (BreaksOff process seen config.outDir) tree)
    (reads : Reads config tree.read seen) (plan : BuildPlan)
    (planned : Session.plan config tool process tree.read = .ok plan) (count : Nat) :
    Consistent process seen config.outDir tree.fileAt ∧
    (∀ source ∈ seen, ∀ tool seed record,
      (openIn tree.read config.outDir tool seed).lookup tree.read source.entry = some record →
        source.compile process seed = .ok record) ∧
    ∃ inputs modules sources,
      Drafted config (openIn tree.read config.outDir tool config.seed) process tree.read inputs
        modules sources ∧
      plan = planOf config (openIn tree.read config.outDir tool config.seed) inputs modules
        sources ∧
      (Consistent process seen config.outDir (perform (plan.operations.take count) tree).2.fileAt ↔
        Harmless process seen (indexIn config.outDir tree.fileAt)
          (modules.zip (inputs.map (·.entry))) (performed (plan.operations.take count) tree)) := by
  obtain ⟨consistent, named⟩ := history.consistent fun _ _ build => build.consistent noCollision
  obtain ⟨inputs, modules, sources, drafted, made⟩ := plan_eq_ok.1 planned
  refine ⟨consistent, ?_, inputs, modules, sources, drafted, made, ?_⟩
  · intro source member tool seed record hit
    exact consistent.lookup noCollision member hit
  · exact (drafted.consistent_iff consistent named noCollision reads count
      (congrArg BuildPlan.operations made)).1

/-- What a build leaves that is broken off after a number of operations. -/
def leftBy (planned : Outcome BuildError BuildPlan) (count : Nat) (tree : Tree) : Tree :=
  match planned with
  | .ok plan => (perform (plan.operations.take count) tree).2
  | .error _ => tree

/-- A build that is broken off when its first record is in place. -/
def brokenTree : Tree :=
  leftBy (Session.plan bareBuild (some "t") (fun _ => none) changedTree.read) 8 changedTree

theorem brokenTree_eq {plan : BuildPlan}
    (planned : Session.plan bareBuild (some "t") (fun _ => none) changedTree.read = .ok plan) :
    brokenTree = (perform (plan.operations.take 8) changedTree).2 := by
  rw [brokenTree, planned, leftBy]

/-- The manifest changed back. -/
def restoredTree : Tree := brokenTree.put ["a"] (.file (Bytes.ofText (bareSource "f").manifest))

theorem broken_hits :
    (openIn brokenTree.read "o" (some "t") none).lookup brokenTree.read (bareSource "f").entry =
      ((bareSource "g").compile (fun _ => none) none).toOption ∧
    (openIn restoredTree.read "o" (some "t") none).lookup restoredTree.read (bareSource "f").entry =
      ((bareSource "g").compile (fun _ => none) none).toOption ∧
    ((bareSource "g").compile (fun _ => none) none).isOk = true ∧
    (bareSource "g").compile (fun _ => none) none ≠
      (bareSource "f").compile (fun _ => none) none := by
  decide +kernel

/-- The hit is not what compiling its input gives. -/
theorem not_consistent_brokenTree :
    ¬ Consistent (fun _ => none) [bareSource "f", bareSource "g"] "o" brokenTree.fileAt := by
  intro consistent
  obtain ⟨hit, _, compiles, different⟩ := broken_hits
  cases compiled : (bareSource "g").compile (fun _ => none) none with
  | error failure =>
    rw [compiled] at compiles
    cases compiles
  | ok record =>
    rw [compiled] at hit different
    exact different (consistent.lookup bare_noCollision List.mem_cons_self hit).symm

theorem changed_build_consistent_iff : ∃ plan inputs modules sources,
    Session.plan bareBuild (some "t") (fun _ => none) changedTree.read = .ok plan ∧
    plan = planOf bareBuild (openIn changedTree.read "o" (some "t") none) inputs modules sources ∧
    (Consistent (fun _ => none) [bareSource "f", bareSource "g"] "o"
        (perform (plan.operations.take 8) changedTree).2.fileAt ↔
      Harmless (fun _ => none) [bareSource "f", bareSource "g"] (indexIn "o" changedTree.fileAt)
        (modules.zip (inputs.map (·.entry))) (performed (plan.operations.take 8) changedTree)) ∧
    ¬ Consistent (fun _ => none) [bareSource "f", bareSource "g"] "o"
        (perform (plan.operations.take 8) changedTree).2.fileAt ∧
    ¬ Harmless (fun _ => none) [bareSource "f", bareSource "g"] (indexIn "o" changedTree.fileAt)
        (modules.zip (inputs.map (·.entry))) (performed (plan.operations.take 8) changedTree) := by
  obtain ⟨_, first, _, _, changed, planned⟩ := bare_builds
  cases found : Session.plan bareBuild (some "t") (fun _ => none) changedTree.read with
  | error failure =>
    rw [found] at planned
    cases planned
  | ok plan =>
    have seenF : bareSource "f" ∈ [bareSource "f", bareSource "g"] := List.mem_cons_self
    have seenG : bareSource "g" ∈ [bareSource "f", bareSource "g"] :=
      List.mem_cons_of_mem _ List.mem_cons_self
    have broken := not_consistent_brokenTree
    rw [brokenTree_eq found] at broken
    obtain ⟨_, _, inputs, modules, sources, _, made, exactly⟩ :=
      broken_off_build_consistent_iff (fun _ => none) _ bare_noCollision bareBuild (some "t")
        changedTree (.changed (.built (.fresh bare_empty)
          (breaksOff_of_run (bare_reads first seenF) bare_built)) changed_kept)
        (bare_reads changed seenG) plan found 8
    exact ⟨plan, inputs, modules, sources, rfl, made, exactly, broken,
      fun harmless => broken (exactly.2 harmless)⟩

/-- A hit with the record of another input. -/
theorem broken_off_build_misleads :
    (openIn restoredTree.read "o" (some "t") none).lookup restoredTree.read (bareSource "f").entry =
      ((bareSource "g").compile (fun _ => none) none).toOption ∧
    ((bareSource "g").compile (fun _ => none) none).isOk = true ∧
    (bareSource "g").compile (fun _ => none) none ≠
      (bareSource "f").compile (fun _ => none) none :=
  broken_hits.2

end CopyPatch.Session
