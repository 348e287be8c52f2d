import CopyPatch.Proofs.Build.Plan
import CopyPatch.Proofs.Files.Places

/-! What a build that fails leaves of the two sources. Nothing is written before everything is
planned, and each source is replaced at once; but the first source is replaced before the second is
written, and both before the cache, where a build may still fail. -/
namespace CopyPatch.Session

open Files
open Files.Operation (replace touched effects effects_take_replace touched_of_mem_replace
  replace_apart)

variable {config : BuildConfig} {tool : Option String} {process : String → Option Nat}
  {tree next : Tree}

def declsPath (outDir : String) : String := Files.join outDir "patchwork_decls.rs"

def libraryPath (outDir : String) : String := Files.join outDir "patchwork_library.rs"

theorem placeOf_declsPath (outDir : String) :
    placeOf (declsPath outDir) = placeOf outDir ++ ["patchwork_decls.rs"] :=
  placeOf_join (by decide) outDir

theorem placeOf_libraryPath (outDir : String) :
    placeOf (libraryPath outDir) = placeOf outDir ++ ["patchwork_library.rs"] :=
  placeOf_join (by decide) outDir

/-- The files of the cache have other names than the sources, whatever a record in it claims its
module to be. -/
theorem writeCache_apart {cache : Cache} {entered : List (CompiledModule × CacheEntry)}
    {op : Operation} (member : op ∈ writeCache cache entered) {name : String}
    (ends : name.toList.getLast? = some 's') (place : Place) : place ++ [name] ∉ op.touched := by
  have apart (directory file : String) {contents : Bytes} {op : Operation}
      (member : op ∈ .createDirs cache.directory ::
        replace (Files.join directory (file ++ ".json")) contents) :
      place ++ [name] ∉ op.touched := by
    intro touches
    obtain ⟨start, joined⟩ := join_ends directory file ".json"
    rw [joined] at member
    rcases touched_of_mem_replace member touches with same | same
    · exact placeOf_append_ne (by decide) rfl (by decide) ends (by decide) start place same.symm
    · exact placeOf_append_ne (by decide) rfl (by decide) ends (by decide) (start ++ ".json") place
        same.symm
  rw [writeCache_eq, List.mem_append, List.mem_flatMap] at member
  rcases member with ⟨⟨compiled, entry⟩, _, stored⟩ | saved
  · exact apart cache.directory compiled.name stored
  · rw [Cache.save, Cache.keepAll_directory] at saved
    exact apart cache.directory "checksums" saved

section Replaced

variable {outDir : String} {rest : List Operation}

theorem decls_after (apart : ∀ op ∈ rest, placeOf (declsPath outDir) ∉ op.touched)
    (sources : GeneratedSources) (count : Nat) (files : Place → Option Bytes) :
    effects ((writeSources outDir sources ++ rest).take count) files
        (placeOf (declsPath outDir)) =
      if count ≤ 2 then files (placeOf (declsPath outDir))
      else some (Bytes.ofText sources.decls) := by
  have layout : writeSources outDir sources ++ rest =
      [.createDirs outDir] ++ replace (declsPath outDir) (Bytes.ofText sources.decls) ++
        (replace (libraryPath outDir) (Bytes.ofText sources.library) ++ rest) := by
    simp [writeSources, declsPath, libraryPath]
  have first : ∀ op ∈ [Operation.createDirs outDir],
      placeOf (declsPath outDir) ∉ op.touched := by
    simp [touched]
  have last : ∀ op ∈ replace (libraryPath outDir) (Bytes.ofText sources.library) ++ rest,
      placeOf (declsPath outDir) ∉ op.touched := by
    intro op member
    rcases List.mem_append.1 member with member | member
    · exact replace_apart (by decide) (by decide) (by decide) (by decide) outDir
        (List.mem_cons_of_mem (.createDirs outDir) member)
    · exact apart op member
  rw [layout, effects_take_replace first last (placeOf_ne_temporary (by decide) outDir)]
  rfl

theorem library_after (apart : ∀ op ∈ rest, placeOf (libraryPath outDir) ∉ op.touched)
    (sources : GeneratedSources) (count : Nat) (files : Place → Option Bytes) :
    effects ((writeSources outDir sources ++ rest).take count) files
        (placeOf (libraryPath outDir)) =
      if count ≤ 4 then files (placeOf (libraryPath outDir))
      else some (Bytes.ofText sources.library) := by
  have layout : writeSources outDir sources ++ rest =
      (.createDirs outDir :: replace (declsPath outDir) (Bytes.ofText sources.decls)) ++
        replace (libraryPath outDir) (Bytes.ofText sources.library) ++ rest := by
    simp [writeSources, declsPath, libraryPath]
  have first : ∀ op ∈ .createDirs outDir ::
      replace (declsPath outDir) (Bytes.ofText sources.decls),
      placeOf (libraryPath outDir) ∉ op.touched := by
    intro op member
    exact replace_apart (by decide) (by decide) (by decide) (by decide) outDir member
  rw [layout, effects_take_replace first apart (placeOf_ne_temporary (by decide) outDir)]
  rfl

end Replaced

theorem run_eq_error {failure : Failure BuildError}
    (failed : run config tool process tree = (.error failure, next)) :
    (Session.plan config tool process tree.read = .error failure ∧ next = tree) ∨
      ∃ plan, Session.plan config tool process tree.read = .ok plan ∧
        next = (perform plan.operations tree).2 := by
  rw [run] at failed
  split at failed
  · rename_i planned
    cases failed
    exact Or.inl ⟨planned, rfl⟩
  · rename_i plan planned
    exact Or.inr ⟨plan, planned, (Prod.mk.inj failed).2.symm⟩

/-- Where the operations of a plan leave the sources, as far as they succeed. -/
theorem sources_after_perform {plan : BuildPlan} {sources : GeneratedSources}
    {rest : List Operation} (planned : Session.plan config tool process tree.read = .ok plan)
    (layout : plan.operations = writeSources config.outDir sources ++ rest) :
    (perform plan.operations tree).2.fileAt (placeOf (declsPath config.outDir)) =
        (if performed plan.operations tree ≤ 2 then
          tree.fileAt (placeOf (declsPath config.outDir))
        else some (Bytes.ofText sources.decls)) ∧
      (perform plan.operations tree).2.fileAt (placeOf (libraryPath config.outDir)) =
        if performed plan.operations tree ≤ 4 then
          tree.fileAt (placeOf (libraryPath config.outDir))
        else some (Bytes.ofText sources.library) := by
  obtain ⟨inputs, modules, drafted, _, made⟩ := plan_eq_ok.1 planned
  have caching : rest = writeCache (Cache.openIn tree.read config.outDir tool config.seed)
      (modules.zip (inputs.map (·.entry))) := by
    have same :
        writeSources config.outDir drafted ++ _ = writeSources config.outDir sources ++ rest :=
      (congrArg BuildPlan.operations made).symm.trans layout
    exact (List.append_inj same rfl).2.symm
  rw [fileAt_perform]
  constructor
  · rw [layout, decls_after]
    intro op member
    rw [placeOf_declsPath]
    exact writeCache_apart (caching ▸ member) rfl _
  · rw [layout, library_after]
    intro op member
    rw [placeOf_libraryPath]
    exact writeCache_apart (caching ▸ member) rfl _

theorem kept_iff {new old : Option Bytes} {count limit : Nat} {contents : Bytes}
    (after : new = if count ≤ limit then old else some contents) :
    new = old ↔ (limit < count → old = some contents) := by
  by_cases early : count ≤ limit
  · rw [after, if_pos early]
    exact ⟨fun _ late => absurd early (by omega), fun _ => rfl⟩
  · rw [after, if_neg early]
    exact ⟨fun same _ => same.symm, fun same => (same (by omega)).symm⟩

/-- A build that fails leaves both sources as they were exactly if each one that it had replaced by
then already had the new contents. The first source is replaced by the third operation and the
second by the fifth. -/
theorem failed_build_keeps_sources_iff (config : BuildConfig) (tool : Option String)
    (process : String → Option Nat) (tree next : Tree) (failure : Failure BuildError)
    (failed : run config tool process tree = (.error failure, next)) :
    (next.fileAt (placeOf (declsPath config.outDir)) =
        tree.fileAt (placeOf (declsPath config.outDir)) ∧
      next.fileAt (placeOf (libraryPath config.outDir)) =
        tree.fileAt (placeOf (libraryPath config.outDir))) ↔
    ∀ plan sources rest, Session.plan config tool process tree.read = .ok plan →
      plan.operations = writeSources config.outDir sources ++ rest →
      (3 ≤ performed plan.operations tree →
        tree.fileAt (placeOf (declsPath config.outDir)) = some (Bytes.ofText sources.decls)) ∧
      (5 ≤ performed plan.operations tree →
        tree.fileAt (placeOf (libraryPath config.outDir)) =
          some (Bytes.ofText sources.library)) := by
  rcases run_eq_error failed with ⟨unplanned, rfl⟩ | ⟨plan, planned, rfl⟩
  -- without a plan nothing is written
  · refine ⟨fun _ plan _ _ planned => ?_, fun _ => ⟨rfl, rfl⟩⟩
    cases unplanned.symm.trans planned
  · constructor
    · intro kept other sources rest plannedOther layout
      cases planned.symm.trans plannedOther
      obtain ⟨decls, library⟩ := sources_after_perform planned layout
      exact ⟨(kept_iff decls).1 kept.1, (kept_iff library).1 kept.2⟩
    · intro same
      obtain ⟨inputs, modules, sources, _, made⟩ := plan_eq_ok.1 planned
      have layout : plan.operations = writeSources config.outDir sources ++ _ :=
        congrArg BuildPlan.operations made
      obtain ⟨decls, library⟩ := sources_after_perform planned layout
      obtain ⟨first, second⟩ := same plan sources _ planned layout
      exact ⟨(kept_iff decls).2 first, (kept_iff library).2 second⟩

/-- A build of nothing. -/
def blockedBuild : BuildConfig := { inputs := [], outDir := "out" }

/-- The first source from an earlier build, and a directory in the place of the second. -/
def blockedTree : Tree := ⟨[(["out"], .directory),
  (["out", "patchwork_decls.rs"], .file (Bytes.ofText "old\n")),
  (["out", "patchwork_library.rs"], .directory)]⟩

theorem blocked_build_fails : (run blockedBuild none (fun _ => none) blockedTree).1 =
    .error (.error (.io "out/patchwork_library.rs" .isDirectory)) := by
  decide +kernel

/-- A build may fail after it has replaced the first source. -/
theorem blocked_build_loses_decls :
    (run blockedBuild none (fun _ => none) blockedTree).1 =
        .error (.error (.io "out/patchwork_library.rs" .isDirectory)) ∧
      (run blockedBuild none (fun _ => none) blockedTree).2.fileAt (placeOf (declsPath "out")) ≠
        blockedTree.fileAt (placeOf (declsPath "out")) :=
  ⟨blocked_build_fails, by decide +kernel⟩

theorem blocked_build_keeps_not_both :
    (run blockedBuild none (fun _ => none) blockedTree).1 =
        .error (.error (.io "out/patchwork_library.rs" .isDirectory)) ∧
      ¬ ((run blockedBuild none (fun _ => none) blockedTree).2.fileAt (placeOf (declsPath "out")) =
          blockedTree.fileAt (placeOf (declsPath "out")) ∧
        (run blockedBuild none (fun _ => none) blockedTree).2.fileAt
            (placeOf (libraryPath "out")) =
          blockedTree.fileAt (placeOf (libraryPath "out"))) := by
  refine ⟨blocked_build_fails, fun kept => ?_⟩
  have exactly := (failed_build_keeps_sources_iff blockedBuild none (fun _ => none) blockedTree _ _
    (Prod.ext blocked_build_fails rfl)).1 kept
  have planned : Session.plan blockedBuild none (fun _ => none) blockedTree.read =
      .ok (planOf blockedBuild (Cache.openIn blockedTree.read "out" none none) [] []
        ⟨Source.declsText [] [], Source.libraryText [] []⟩) := by decide +kernel
  have same := (exactly _ _ _ planned rfl).1 (by decide +kernel)
  exact absurd same (by decide +kernel)

end CopyPatch.Session
