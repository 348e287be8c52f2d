import CopyPatch.Proofs.Build.CacheConsistency

/-! Taking up a cache that was written. The index lists the modules that were entered, and the
records stand where they were put unless two of them, or one and the index, share a place. What the
cache then gives for an entry is the module that was entered with it. -/
namespace CopyPatch.Cache

open Files
open Files.Operation (effects)
open Session (writeCache)

variable {outDir tool : String} {seed : Option UInt64} {cache : Cache}
  {entered : List (CompiledModule × CacheEntry)} {tree next : Tree} {front : List Operation}

/-- Each record has a place of its own, which is not that of the index. -/
structure Apart (outDir : String) (names : List String) : Prop where
  index : ∀ name ∈ names, recordPlace outDir name ≠ recordPlace outDir "checksums"
  records : ∀ name ∈ names, ∀ other ∈ names,
    recordPlace outDir name = recordPlace outDir other → name = other

theorem Apart.of_subset {names others : List String} (apart : Apart outDir names)
    (within : others ⊆ names) : Apart outDir others where
  index name member := apart.index name (within member)
  records name member other memberOther :=
    apart.records name (within member) other (within memberOther)

theorem apart_congr {names others : List String} (same : names.Perm others) :
    Apart outDir names ↔ Apart outDir others :=
  ⟨fun apart => apart.of_subset same.symm.subset, fun apart => apart.of_subset same.subset⟩

theorem recordPlace_inj {name other : String} (identifier : Manifest.isIdentifier name = true)
    (identifierOther : Manifest.isIdentifier other = true)
    (same : recordPlace outDir name = recordPlace outDir other) : name = other := by
  rw [recordPlace_eq identifier, recordPlace_eq identifierOther] at same
  exact (String.append_left_inj _).1 (List.cons.inj (List.append_cancel_left same)).1

/-- Among identifiers only one name takes the place of the index. -/
theorem apart_iff_of_identifiers {names : List String}
    (identifiers : ∀ name ∈ names, Manifest.isIdentifier name = true) :
    Apart outDir names ↔ "checksums" ∉ names := by
  constructor
  · intro apart present
    exact apart.index _ present rfl
  · intro absent
    constructor
    · intro name member same
      exact absent (recordPlace_inj (identifiers name member) (by decide) same ▸ member)
    · intro name member other memberOther same
      exact recordPlace_inj (identifiers name member) (identifiers other memberOther) same

/-- A record that shares its place with no other file of the cache is there at the end. -/
theorem record_written (directory : cache.directory = directoryIn outDir)
    (names : (entered.map (·.1.name)).Nodup) (apart : Apart outDir (entered.map (·.1.name)))
    {e : CompiledModule × CacheEntry} (member : e ∈ entered) (front : List Operation)
    (files : Place → Option Bytes) :
    effects (front ++ writeCache cache entered) files (recordPlace outDir e.1.name) =
      some (recordText e.1) := by
  have listed {x : CompiledModule × CacheEntry} (inside : x ∈ entered) :
      x.1.name ∈ entered.map (·.1.name) := List.mem_map_of_mem inside
  rcases record_at directory member front files with ⟨same, _⟩ | ⟨x, inside, same, text⟩
  · exact absurd same (apart.index _ (listed member))
  · have alike := apart.records _ (listed inside) _ (listed member) same
    rwa [List.inj_on_of_nodup_map names inside member alike] at text

/-- The module that the cache in a tree gives for an entry. -/
def reloaded (tree : Tree) (outDir tool : String) (seed : Option UInt64) (entry : CacheEntry) :
    Option CompiledModule :=
  (openIn tree.read outDir (some tool) seed).lookup tree.read entry

theorem ready_after (done : perform (front ++ writeCache cache entered) tree = (.ok (), next))
    {file : String × Bytes} (member : file ∈ cacheFiles cache entered) :
    next.Replaceable file.1 := by
  obtain ⟨between, _, written⟩ := perform_append_eq_ok.1 done
  rw [writeCache_eq_publish] at written
  obtain ⟨inside, _, same, _, ready⟩ := perform_publish_cases (List.ne_nil_of_mem member) written
  exact (ready file member).congr same

theorem read_index_after (directory : cache.directory = directoryIn outDir)
    (done : perform (front ++ writeCache cache entered) tree = (.ok (), next))
    (tool : Option String) (seed : Option UInt64) :
    (openIn next.read outDir tool seed).previous = indexIn outDir next.fileAt := by
  have file : next.fileAt (placeOf (indexPath (directoryIn outDir))) =
      some (cache.keepAll entered).current.contents := by
    rw [fileAt_of_perform done, index_place, index_after_all directory]
  have ready : next.Replaceable (indexPath (directoryIn outDir)) := by
    rw [← directory]
    exact ready_after done (List.mem_append_right _ (List.mem_singleton.2 rfl))
  have previous : (openIn next.read outDir tool seed).previous =
      indexOf (next.read (indexPath (directoryIn outDir))) := rfl
  rw [previous, ready.read file, indexOf, indexIn, file, Option.bind_some]

theorem name_of_listed {modules : List (String × CacheEntry)}
    (listed : modules.Perm (entered.map fun e => (e.1.name, e.2)))
    (entries : (entered.map (·.2)).Nodup) {e : CompiledModule × CacheEntry} (member : e ∈ entered)
    {name : String} (inside : (name, e.2) ∈ modules) : name = e.1.name := by
  obtain ⟨x, other, same⟩ := List.mem_map.1 (listed.mem_iff.1 inside)
  obtain ⟨rfl, keyed⟩ := Prod.mk.inj same
  rw [List.inj_on_of_nodup_map entries other member keyed]

/-- A module that is found again is the one that was entered. -/
theorem eq_of_reloaded (directory : cache.directory = directoryIn outDir)
    (empty : cache.current.modules = []) (names : (entered.map (·.1.name)).Nodup)
    (entries : (entered.map (·.2)).Nodup)
    (done : perform (front ++ writeCache cache entered) tree = (.ok (), next))
    {e : CompiledModule × CacheEntry} (member : e ∈ entered) {record : CompiledModule}
    (hit : reloaded next outDir tool seed e.2 = some record) :
    record = e.1 ∧ recordIn outDir next.fileAt e.1.name = some e.1 := by
  rw [reloaded] at hit
  obtain ⟨name, inside, _, held, named⟩ := lookup_eq_some hit
  obtain ⟨modules, index, listed⟩ := indexIn_after_all directory empty names front tree.fileAt
  rw [fileAt_of_perform done] at inside held ⊢
  rw [index] at inside
  obtain rfl := name_of_listed listed entries member inside
  obtain rfl := recordIn_named directory names member held named
  exact ⟨rfl, held⟩

/-- What was entered is found again if its record has a place of its own. -/
theorem reloaded_written (directory : cache.directory = directoryIn outDir)
    (fresh : cache.current = { tool := some tool, seed := seed })
    (names : (entered.map (·.1.name)).Nodup) (entries : (entered.map (·.2)).Nodup)
    (apart : Apart outDir (entered.map (·.1.name)))
    (done : perform (front ++ writeCache cache entered) tree = (.ok (), next))
    {e : CompiledModule × CacheEntry} (member : e ∈ entered) :
    reloaded next outDir tool seed e.2 = some e.1 := by
  obtain ⟨modules, index, listed⟩ :=
    indexIn_after_all directory (by rw [fresh]) names front tree.fileAt
  have previous := read_index_after directory done (some tool) seed
  rw [fileAt_of_perform done, index, fresh] at previous
  -- the first module listed with the entry is the one that was entered with it
  have found : modules.find? (·.2 = e.2) = some (e.1.name, e.2) := by
    have inside : (e.1.name, e.2) ∈ modules := listed.mem_iff.2 (List.mem_map_of_mem member)
    cases search : modules.find? (·.2 = e.2) with
    | none => simpa using List.find?_eq_none.1 search _ inside
    | some first =>
      have keyed : first.2 = e.2 := by simpa using List.find?_some search
      have there : (first.1, e.2) ∈ modules := keyed ▸ List.mem_of_find?_eq_some search
      rw [← name_of_listed listed entries member there, ← keyed]
  have record : next.read (recordPath (directoryIn outDir) e.1.name) = .ok (recordText e.1) := by
    have file : next.fileAt (placeOf (recordPath (directoryIn outDir) e.1.name)) =
        some (recordText e.1) := by
      rw [fileAt_of_perform done]
      exact record_written directory names apart member front tree.fileAt
    have ready : next.Replaceable (recordPath (directoryIn outDir) e.1.name) := by
      rw [← directory]
      exact ready_after done (List.mem_append_left _ (List.mem_map_of_mem member))
    exact ready.read file
  have parsed : (JsonValue.ofBytes? (recordText e.1)).bind CompiledModule.ofJson? = some e.1 :=
    e.1.read_written
  have current : (openIn next.read outDir (some tool) seed).current =
      { tool := some tool, seed := seed } := rfl
  have here : (openIn next.read outDir (some tool) seed).directory = directoryIn outDir := rfl
  rw [reloaded, lookup, previous, current, here, if_neg (by simp), if_neg (by simp)]
  simp [found, record, Except.toOption, parsed]

/-- Everything that was entered is found again exactly if no two files of the cache share a
place. -/
theorem reloaded_iff_apart (directory : cache.directory = directoryIn outDir)
    (fresh : cache.current = { tool := some tool, seed := seed })
    (names : (entered.map (·.1.name)).Nodup) (entries : (entered.map (·.2)).Nodup)
    (done : perform (front ++ writeCache cache entered) tree = (.ok (), next)) :
    (∀ e ∈ entered, (reloaded next outDir tool seed e.2).isSome) ↔
      Apart outDir (entered.map (·.1.name)) := by
  constructor
  · intro all
    have held : ∀ name ∈ entered.map (·.1.name), ∃ record,
        recordIn outDir next.fileAt name = some record ∧ record.name = name := by
      intro name listed
      obtain ⟨e, member, rfl⟩ := List.mem_map.1 listed
      obtain ⟨record, hit⟩ := Option.isSome_iff_exists.1 (all e member)
      exact ⟨e.1, (eq_of_reloaded directory (by rw [fresh]) names entries done member hit).2, rfl⟩
    constructor
    · intro name listed same
      obtain ⟨record, found, _⟩ := held name listed
      have nothing : recordIn outDir next.fileAt "checksums" = none := by
        rw [fileAt_of_perform done, recordIn_index directory]
      rw [recordIn, same] at found
      cases nothing.symm.trans found
    · intro name listed other listedOther same
      obtain ⟨record, found, named⟩ := held name listed
      obtain ⟨second, foundSecond, namedSecond⟩ := held other listedOther
      rw [recordIn, same] at found
      cases foundSecond.symm.trans found
      exact named.symm.trans namedSecond
  · intro apart e member
    rw [reloaded_written directory fresh names entries apart done member]
    rfl

/-- The record of a module is read back as the module, from the value it is written as and from its
bytes. After the records of some modules and their index have been written, whatever the cache gives
for an entry is its module. If no two of those files share a place, it does give it: families and
blueprints are found in it as before, and the modules from the cache generate the sources that they
generated at first. -/
theorem record_read_back_serves_alike (compiled : CompiledModule) :
    CompiledModule.ofJson? compiled.toJson = some compiled ∧
    (JsonValue.ofBytes? (recordText compiled)).bind CompiledModule.ofJson? = some compiled ∧
    ∀ (outDir tool : String) (seed : Option UInt64) (front : List Operation)
      (entered : List (CompiledModule × CacheEntry)) (entry : CacheEntry) (tree next : Tree),
      (entered.map (·.1.name)).Nodup → (entered.map (·.2)).Nodup →
      perform (front ++ writeCache (openIn tree.read outDir (some tool) seed) entered) tree =
        (.ok (), next) →
      (compiled, entry) ∈ entered →
      (∀ record, reloaded next outDir tool seed entry = some record → record = compiled) ∧
      (Apart outDir (entered.map (·.1.name)) →
        reloaded next outDir tool seed entry = some compiled ∧
        (∀ family params,
          ((reloaded next outDir tool seed entry).bind (·.family? family)).bind
              (·.toFamily.find? params) =
            (compiled.family? family).bind (·.toFamily.find? params)) ∧
        (entered.mapM fun e => reloaded next outDir tool seed e.2).map generate =
          some (generate (entered.map (·.1)))) := by
  refine ⟨compiled.ofJson?_toJson, compiled.read_written, ?_⟩
  intro outDir tool seed front entered entry tree next names entries done member
  have directory : (openIn tree.read outDir (some tool) seed).directory = directoryIn outDir := rfl
  have fresh : (openIn tree.read outDir (some tool) seed).current =
      { tool := some tool, seed := seed } := rfl
  refine ⟨fun record hit =>
    (eq_of_reloaded directory (by rw [fresh]) names entries done member hit).1, fun apart => ?_⟩
  have again : ∀ e ∈ entered, reloaded next outDir tool seed e.2 = some e.1 :=
    fun e inside => reloaded_written directory fresh names entries apart done inside
  have all : entered.mapM (fun e => reloaded next outDir tool seed e.2) =
      some (entered.map (·.1)) := by
    rw [Outcome.mapM_eq_some, List.forall₂_map_right_iff, List.forall₂_same]
    exact again
  have here : reloaded next outDir tool seed entry = some compiled := again (compiled, entry) member
  refine ⟨here, fun family params => ?_, ?_⟩
  · rw [here, Option.bind_some]
  · rw [all, Option.map_some]

/-- A blueprint with fixups of every kind. -/
def edgeBlueprint : Blueprint where
  symbol := "f_x"
  code := [0xe8, 0, 0, 0, 0]
  unpaddedLen := 5
  selfRelative32 := [1]
  symbol32 := [⟨1, 0⟩]
  symbol64 := [⟨0, 1⟩]
  threadLocal32 := [1]
  counts := ⟨1, 1, 0⟩

/-- A module with axes of every kind and one variant, on the largest value. The first of the two
slots of its index is vacant. -/
def edgeModule : CompiledModule where
  name := "m"
  families := [{
    name := "f"
    signature := [⟨"t", .type, []⟩, ⟨"b", .bool, []⟩, ⟨"e", .enum 2, ["x", "y"]⟩]
    variants := [{
      tuple := [0xffffffffffffffff, 1, 1]
      code := { edgeBlueprint with fixups := [⟨1, .selfRelative32, .boilerplate, 0⟩,
        ⟨0, .absolute64, .host, 0⟩, ⟨1, .threadLocalOffset32, .threadLocalBase, 0⟩] } }]
    index := ⟨[0, 0, 1], [0, 0, 1], [0, 0, 1], #[Slot.vacant, ⟨0, 1⟩]⟩ }]

/-- The module beside an empty one, and the entries of both. -/
def edgeEntries : List (CompiledModule × CacheEntry) :=
  [(edgeModule, ⟨"m.toml", "1"⟩), (⟨"n", []⟩, ⟨"n.toml", "2"⟩)]

/-- The empty tree after both have been written. -/
def edgeTree : Tree :=
  (perform (writeCache (openIn ({} : Tree).read "o" (some "t") none) edgeEntries) {}).2

theorem edgeTree_written :
    perform ([] ++ writeCache (openIn ({} : Tree).read "o" (some "t") none) edgeEntries) {} =
      (.ok (), edgeTree) := by
  have done : (perform (writeCache (openIn ({} : Tree).read "o" (some "t") none) edgeEntries)
      {}).1 = .ok () := by decide +kernel
  rw [edgeTree, List.nil_append]
  exact Prod.fst_eq_iff.1 done

theorem edge_module_serves_alike :
    reloaded edgeTree "o" "t" none ⟨"m.toml", "1"⟩ = some edgeModule ∧
    ((reloaded edgeTree "o" "t" none ⟨"m.toml", "1"⟩).bind (·.family? "f")).bind
      (·.toFamily.find? [0xffffffffffffffff, 1, 1]) = some edgeBlueprint := by
  obtain ⟨_, _, written⟩ := record_read_back_serves_alike edgeModule
  have apart : Apart "o" (edgeEntries.map (·.1.name)) := ⟨by decide +kernel, by decide +kernel⟩
  obtain ⟨again, found, _⟩ := (written "o" "t" none [] edgeEntries ⟨"m.toml", "1"⟩ {} edgeTree
    (by decide) (by decide) edgeTree_written List.mem_cons_self).2 apart
  have registered : (edgeModule.family? "f").bind
      (·.toFamily.find? [0xffffffffffffffff, 1, 1]) = some edgeBlueprint := by decide +kernel
  exact ⟨again, (found "f" _).trans registered⟩

end CopyPatch.Cache
