import CopyPatch.Proofs.Build.Outputs
import CopyPatch.Proofs.Files.Directories
import CopyPatch.Proofs.Manifest.Check
import CopyPatch.Proofs.Record.RoundTrip

/-! The files of the cache: how the index and the records are read back, and which of them are in
place after a number of the operations of a build. The index lies where the record of a module
called `checksums` would; a record read as an index is empty, and an index is no record. -/
namespace CopyPatch

open JsonValue

theorem CacheEntry.ofJson?_toJson (entry : CacheEntry) :
    CacheEntry.ofJson? entry.toJson = some entry := by
  rw [CacheEntry.ofJson?, CacheEntry.toJson, fields?_object]
  · simp [string?]
  · rfl
  · decide

namespace CacheIndex

theorem plainEntries_modules (modules : List (String × CacheEntry)) :
    PlainEntries (modules.map fun e => (e.1, e.2.toJson)) := by
  induction modules with
  | nil => trivial
  | cons e rest ih => exact ⟨⟨trivial, trivial, trivial⟩, ih⟩

theorem plain_toJson (index : CacheIndex) : index.toJson.Plain := by
  refine ⟨?_, ?_, plainEntries_modules index.modules, trivial⟩
  · cases index.tool <;> trivial
  · cases index.seed <;> trivial

theorem insert_perm {name : String} {modules : List (String × CacheEntry)}
    (fresh : name ∉ modules.map (·.1)) (entry : CacheEntry) :
    (insert name entry modules).Perm ((name, entry) :: modules) := by
  induction modules with
  | nil => exact .refl _
  | cons first rest ih =>
    rw [List.map_cons, List.mem_cons, not_or] at fresh
    rw [insert]
    split
    · exact .refl _
    · rw [if_neg fresh.1]
      exact ((ih fresh.2).cons first).trans (.swap _ _ _)

/-- Enter modules into a sorted list one after another. -/
def insertAll (entries modules : List (String × CacheEntry)) : List (String × CacheEntry) :=
  entries.foldl (fun modules e => insert e.1 e.2 modules) modules

theorem insertAll_perm {entries modules : List (String × CacheEntry)}
    (distinct : ((entries ++ modules).map (·.1)).Nodup) :
    (insertAll entries modules).Perm (entries ++ modules) := by
  induction entries generalizing modules with
  | nil => exact .refl _
  | cons first rest ih =>
    rw [List.cons_append, List.map_cons, List.nodup_cons, List.map_append, List.mem_append,
      not_or] at distinct
    have entered := insert_perm distinct.1.2 first.2
    have moved : (rest ++ insert first.1 first.2 modules).Perm (first :: (rest ++ modules)) :=
      (entered.append_left rest).trans List.perm_middle
    refine (ih ?_).trans moved
    rw [(moved.map _).nodup_iff, List.map_cons, List.nodup_cons, List.map_append, List.mem_append,
      not_or]
    exact distinct

theorem insertAll_nil_perm {entries : List (String × CacheEntry)}
    (distinct : (entries.map (·.1)).Nodup) : (insertAll entries []).Perm entries := by
  rw [← List.append_nil entries] at distinct
  have entered := insertAll_perm distinct
  rwa [List.append_nil] at entered

theorem modulesOfJson?_modules (modules : List (String × CacheEntry)) :
    modulesOfJson? (.object (modules.map fun e => (e.1, e.2.toJson))) =
      some (insertAll modules []) := by
  have collected (start : List (String × CacheEntry)) :
      (modules.map fun e => (e.1, e.2.toJson)).foldlM (fun modules e => do
        return insert e.1 (← CacheEntry.ofJson? e.2) modules) start =
      some (insertAll modules start) := by
    induction modules generalizing start with
    | nil => rfl
    | cons first rest ih =>
      simpa [CacheEntry.ofJson?_toJson, insertAll] using ih (insert first.1 first.2 start)
  exact collected []

/-- An index that was written is read back with its tool, its seed and its entries. -/
theorem read_written (index : CacheIndex) :
    (ofBytes? index.contents).bind CacheIndex.ofJson? =
      some { index with modules := insertAll index.modules [] } := by
  rw [contents, ofBytes?_pretty index.plain_toJson, Option.bind_some, CacheIndex.ofJson?, toJson,
    fields?_object]
  · have tool : nullable? string? ((index.tool.map JsonValue.string).getD .null) =
        some index.tool := by
      cases index.tool <;> rfl
    have seed : nullable? word64? ((index.seed.map fun (n : UInt64) =>
        JsonValue.integer n.toNat).getD .null) = some index.seed := by
      cases index.seed with
      | none => rfl
      | some seed => simp [nullable?, word64?_toNat]
    simp [tool, seed, modulesOfJson?_modules]
  · rfl
  · decide

theorem ofJson?_record (compiled : CompiledModule) :
    CacheIndex.ofJson? compiled.toJson = some {} := by
  rfl

end CacheIndex

theorem CompiledModule.ofJson?_index (index : CacheIndex) :
    CompiledModule.ofJson? index.toJson = none := by
  rfl

/-- The new index keeps its tool and its seed and gains the modules that are entered. -/
theorem Cache.keepAll_current (cache : Cache) (entered : List (CompiledModule × CacheEntry)) :
    (cache.keepAll entered).current = { cache.current with
      modules := CacheIndex.insertAll (entered.map fun e => (e.1.name, e.2))
        cache.current.modules } := by
  induction entered generalizing cache with
  | nil => rfl
  | cons first rest ih => exact ih (cache.keep first.1.name first.2)

namespace Cache

open Files
open Files.Operation (replace touched effects effects_append effects_take_replace effects_replace
  replace_apart effects_of_not_touched)
open Session (writeSources writeCache)

/-- The place of the record of a module in the cache of an output directory. -/
def recordPlace (outDir name : String) : Place := placeOf (recordPath (directoryIn outDir) name)

def recordText (compiled : CompiledModule) : Bytes := Bytes.ofText compiled.toJson.compact

theorem isFileName_identifier {name : String} (identifier : Manifest.isIdentifier name = true) :
    IsFileName name := by
  have allowed := Manifest.letters_of_isIdentifier identifier
  refine ⟨?_, fun member => absurd (allowed _ member) (by decide), ?_⟩
  · rintro rfl
    exact absurd identifier (by decide)
  · rw [isPoints, Bool.or_eq_false_iff, decide_eq_false_iff_not, decide_eq_false_iff_not]
    constructor
    · rintro rfl
      exact absurd (allowed '.' (by decide)) (by decide)
    · rintro rfl
      exact absurd (allowed '.' (by decide)) (by decide)

theorem isFileName_record {name : String} (identifier : Manifest.isIdentifier name = true) :
    IsFileName (name ++ ".json") :=
  (isFileName_identifier identifier).append (by decide) rfl (by decide)

theorem recordPlace_eq {name : String} (identifier : Manifest.isIdentifier name = true)
    (outDir : String) :
    recordPlace outDir name = placeOf (directoryIn outDir) ++ [name ++ ".json"] :=
  placeOf_join (isFileName_record identifier) _

theorem json_ne_temporary (name other : String) : name ++ ".json" ≠ other ++ ".json" ++ ".tmp" := by
  intro same
  have ends := congrArg (·.toList.getLast?) same
  have first : (name ++ ".json").toList.getLast? = some 'n' := getLast?_append rfl name
  have second : (other ++ ".json" ++ ".tmp").toList.getLast? = some 'p' := getLast?_append rfl _
  simp only [first, second] at ends
  exact absurd ends (by decide)

/-- What is put together beside a file is not taken for a record. -/
theorem recordPlace_ne_temporary (outDir name path : String) :
    recordPlace outDir name ≠ placeOf (temporary path) := by
  obtain ⟨start, joined⟩ := join_ends (directoryIn outDir) name ".json"
  obtain ⟨front, last, named⟩ := names_append (show ".json" ≠ "" by decide) (by decide) start
  have ends : (last ++ ".json").toList.getLast? = some 'n' := getLast?_append rfl last
  have place : recordPlace outDir name = front.foldl lead [] ++ [last ++ ".json"] := by
    rw [recordPlace, recordPath, joined]
    exact placeOf_of_names named (isPoints_of_getLast? ends (by decide))
  rw [place]
  exact (placeOf_append_ne (by decide) rfl (by decide) ends (by decide) path _).symm

section Layout

variable {outDir : String} {sources : GeneratedSources} {cache : Cache}
  {entered : List (CompiledModule × CacheEntry)} {name : String}

theorem writeSources_apart (identifier : Manifest.isIdentifier name = true) {op : Operation}
    (member : op ∈ writeSources outDir sources) : recordPlace outDir name ∉ op.touched := by
  intro touches
  have deeper (file : String) (named : IsFileName file) {contents : Bytes}
      (member : op ∈ .createDirs outDir :: replace (Files.join outDir file) contents) : False := by
    have place : placeOf (directoryIn outDir) = placeOf outDir ++ [".patchwork-cache"] :=
      placeOf_join (by decide) outDir
    rw [recordPlace_eq identifier, place] at touches
    rcases Operation.touched_of_mem_replace member touches with same | same
    · rw [placeOf_join named] at same
      simpa using congrArg List.length same
    · rw [placeOf_temporary named] at same
      simpa using congrArg List.length same
  rw [writeSources, List.mem_cons, List.mem_append] at member
  rcases member with rfl | member | member
  · cases touches
  · exact deeper _ (by decide) (List.mem_cons_of_mem _ member)
  · exact deeper _ (by decide) (List.mem_cons_of_mem _ member)

theorem store_apart (directory : cache.directory = directoryIn outDir) {compiled : CompiledModule}
    (identifier : Manifest.isIdentifier name = true)
    (named : Manifest.isIdentifier compiled.name = true) (differs : compiled.name ≠ name)
    {op : Operation} (member : op ∈ cache.store compiled) :
    recordPlace outDir name ∉ op.touched := by
  rw [store, recordPath, directory] at member
  refine replace_apart (isFileName_record named) (isFileName_record identifier) ?_
    (json_ne_temporary name compiled.name) (directoryIn outDir) member
  intro same
  exact differs ((String.append_left_inj _).1 same).symm

/-- The modules whose records are in place after a number of operations of a build. -/
def stored (entered : List (CompiledModule × CacheEntry)) (count : Nat) :
    List (CompiledModule × CacheEntry) :=
  entered.take ((count - 5) / 3)

theorem length_stores (cache : Cache) (entered : List (CompiledModule × CacheEntry)) :
    (entered.flatMap fun e => cache.store e.1).length = 3 * entered.length := by
  induction entered with
  | nil => rfl
  | cons e rest ih =>
    rw [List.flatMap_cons, List.length_append, ih, List.length_cons]
    have : (cache.store e.1).length = 3 := rfl
    omega

theorem find?_take {before : List (CompiledModule × CacheEntry)}
    {e : CompiledModule × CacheEntry} (fresh : ∀ other ∈ before, other.1.name ≠ e.1.name)
    (after : List (CompiledModule × CacheEntry)) (count : Nat) :
    ((before ++ e :: after).take count).find? (·.1.name = e.1.name) =
      if before.length < count then some e else none := by
  have absent (others : List (CompiledModule × CacheEntry)) (inside : ∀ o ∈ others, o ∈ before) :
      others.find? (·.1.name = e.1.name) = none := by
    rw [List.find?_eq_none]
    intro other member
    simpa using fresh other (inside other member)
  split
  · rename_i late
    obtain ⟨more, rfl⟩ : ∃ more, count = before.length + (more + 1) :=
      ⟨count - before.length - 1, by omega⟩
    rw [List.take_length_add_append, List.take_succ_cons, List.find?_append,
      absent before fun _ member => member]
    simp
  · rename_i early
    rw [List.take_append_of_le_length (by omega)]
    exact absent _ fun _ member => List.mem_of_mem_take member

theorem find?_of_mem (distinct : (entered.map (·.1.name)).Nodup)
    {e : CompiledModule × CacheEntry} (member : e ∈ entered) :
    entered.find? (·.1.name = e.1.name) = some e := by
  obtain ⟨before, after, rfl⟩ := List.append_of_mem member
  rw [List.map_append, List.map_cons, List.nodup_middle, List.nodup_cons, List.mem_append,
    not_or] at distinct
  have fresh : ∀ other ∈ before, other.1.name ≠ e.1.name := by
    intro other inside same
    exact distinct.1.1 (List.mem_map.2 ⟨other, inside, same⟩)
  have whole := find?_take fresh after (before ++ e :: after).length
  rw [List.take_length, if_pos (by simp)] at whole
  exact whole

/-- The operations of a build up to the last one, which moves the new index into its place. -/
def opening (outDir : String) (sources : GeneratedSources) (cache : Cache)
    (entered : List (CompiledModule × CacheEntry)) : List Operation :=
  writeSources outDir sources ++ entered.flatMap (fun e => cache.store e.1) ++
    [.createDirs cache.directory,
      .write (temporary (indexPath cache.directory)) (cache.keepAll entered).current.contents]

theorem operations_eq (outDir : String) (sources : GeneratedSources) (cache : Cache)
    (entered : List (CompiledModule × CacheEntry)) :
    writeSources outDir sources ++ writeCache cache entered =
      opening outDir sources cache entered ++
        [.rename (temporary (indexPath cache.directory)) (indexPath cache.directory)] := by
  rw [Session.writeCache_eq, save, keepAll_directory, replace, opening]
  simp

theorem length_opening (outDir : String) (sources : GeneratedSources) (cache : Cache)
    (entered : List (CompiledModule × CacheEntry)) :
    (opening outDir sources cache entered).length = 3 * entered.length + 7 := by
  have five : (writeSources outDir sources).length = 5 := rfl
  simp only [opening, List.length_append, five, length_stores, List.length_cons, List.length_nil]
  omega

theorem length_operations (outDir : String) (sources : GeneratedSources) (cache : Cache)
    (entered : List (CompiledModule × CacheEntry)) :
    (writeSources outDir sources ++ writeCache cache entered).length = 3 * entered.length + 8 := by
  rw [operations_eq, List.length_append, length_opening, List.length_singleton]

theorem stores_apart (directory : cache.directory = directoryIn outDir)
    (identifier : Manifest.isIdentifier name = true)
    (named : ∀ e ∈ entered, Manifest.isIdentifier e.1.name = true)
    (fresh : ∀ e ∈ entered, e.1.name ≠ name) {op : Operation}
    (member : op ∈ entered.flatMap fun e => cache.store e.1) :
    recordPlace outDir name ∉ op.touched := by
  obtain ⟨e, inside, member⟩ := List.mem_flatMap.1 member
  exact store_apart directory identifier (named e inside) (fresh e inside) member

/-- The new index is put together beside the records. -/
theorem saving_apart (directory : cache.directory = directoryIn outDir)
    (identifier : Manifest.isIdentifier name = true) {contents : Bytes} {op : Operation}
    (member : op ∈ [Operation.createDirs cache.directory,
      .write (temporary (indexPath cache.directory)) contents]) :
    recordPlace outDir name ∉ op.touched := by
  intro touches
  simp only [List.mem_cons, List.not_mem_nil, or_false] at member
  rcases member with rfl | rfl
  · cases touches
  · rw [touched, List.mem_singleton, indexPath, placeOf_temporary (by decide), directory,
      recordPlace_eq identifier] at touches
    exact json_ne_temporary name "checksums" (List.cons.inj (List.append_cancel_left touches)).1

/-- No operation before the last one touches the record of a module that is not entered. -/
theorem opening_apart (directory : cache.directory = directoryIn outDir)
    (identifier : Manifest.isIdentifier name = true)
    (named : ∀ e ∈ entered, Manifest.isIdentifier e.1.name = true)
    (fresh : ∀ e ∈ entered, e.1.name ≠ name) {contents : Bytes} {op : Operation}
    (member : op ∈ writeSources outDir sources ++ entered.flatMap (fun e => cache.store e.1) ++
      [.createDirs cache.directory, .write (temporary (indexPath cache.directory)) contents]) :
    recordPlace outDir name ∉ op.touched := by
  rw [List.mem_append, List.mem_append] at member
  rcases member with (written | stored) | saving
  · exact writeSources_apart identifier written
  · exact stores_apart directory identifier named fresh stored
  · exact saving_apart directory identifier saving

theorem record_after_entered (directory : cache.directory = directoryIn outDir)
    {before after : List (CompiledModule × CacheEntry)} {e : CompiledModule × CacheEntry}
    (named : ∀ other ∈ before ++ e :: after, Manifest.isIdentifier other.1.name = true)
    (earlier : ∀ other ∈ before, other.1.name ≠ e.1.name)
    (later : ∀ other ∈ after, other.1.name ≠ e.1.name) (count : Nat)
    (files : Place → Option Bytes) :
    effects ((opening outDir sources cache (before ++ e :: after)).take count) files
        (recordPlace outDir e.1.name) =
      if before.length < (count - 5) / 3 then some (recordText e.1)
      else files (recordPlace outDir e.1.name) := by
  have identifier := named e (List.mem_append_right _ List.mem_cons_self)
  have layout : opening outDir sources cache (before ++ e :: after) =
      (writeSources outDir sources ++ before.flatMap (fun e => cache.store e.1) ++
        [.createDirs cache.directory]) ++
      replace (recordPath cache.directory e.1.name) (recordText e.1) ++
      (after.flatMap (fun e => cache.store e.1) ++ [.createDirs cache.directory,
        .write (temporary (indexPath cache.directory))
          (cache.keepAll (before ++ e :: after)).current.contents]) := by
    simp [opening, store, recordText]
  have here : recordPlace outDir e.1.name = placeOf (recordPath cache.directory e.1.name) := by
    rw [directory, recordPlace]
  have first : ∀ op ∈ writeSources outDir sources ++ before.flatMap (fun e => cache.store e.1) ++
      [.createDirs cache.directory], recordPlace outDir e.1.name ∉ op.touched := by
    intro op member
    have within : op ∈ writeSources outDir sources ++ before.flatMap (fun e => cache.store e.1) ++
        [.createDirs cache.directory, .write (temporary (indexPath cache.directory)) []] := by
      rcases List.mem_append.1 member with written | made
      · exact List.mem_append_left _ written
      · exact List.mem_append_right _ (List.mem_singleton.1 made ▸ List.mem_cons_self)
    exact opening_apart directory identifier
      (fun other inside => named other (List.mem_append_left _ inside)) earlier within
  have last : ∀ op ∈ after.flatMap (fun e => cache.store e.1) ++ [.createDirs cache.directory,
      .write (temporary (indexPath cache.directory))
        (cache.keepAll (before ++ e :: after)).current.contents],
      recordPlace outDir e.1.name ∉ op.touched := by
    intro op member
    have within := List.mem_append_right (writeSources outDir sources) member
    rw [← List.append_assoc] at within
    exact opening_apart directory identifier (fun other inside =>
      named other (List.mem_append_right _ (List.mem_cons_of_mem _ inside))) later within
  -- the record stands after five operations for the sources and three for each module up to it
  have five : (writeSources outDir sources).length = 5 := rfl
  rw [here] at first last ⊢
  rw [layout, effects_take_replace first last
    (placeOf_ne_temporary (isFileName_record identifier) _)]
  simp only [List.length_append, List.length_singleton, five, length_stores]
  by_cases early : before.length < (count - 5) / 3
  · rw [if_pos early, if_neg (by omega)]
  · rw [if_neg early, if_pos (by omega)]

/-- Until the new index is in its place, a build changes the records of those modules only that it
has stored. -/
theorem record_after (directory : cache.directory = directoryIn outDir)
    (named : ∀ e ∈ entered, Manifest.isIdentifier e.1.name = true)
    (distinct : (entered.map (·.1.name)).Nodup) (identifier : Manifest.isIdentifier name = true)
    (count : Nat) (files : Place → Option Bytes) :
    effects ((opening outDir sources cache entered).take count) files (recordPlace outDir name) =
      (((stored entered count).find? (·.1.name = name)).map fun e => recordText e.1).or
        (files (recordPlace outDir name)) := by
  by_cases present : name ∈ entered.map (·.1.name)
  · obtain ⟨e, member, rfl⟩ := List.mem_map.1 present
    obtain ⟨before, after, rfl⟩ := List.append_of_mem member
    rw [List.map_append, List.map_cons, List.nodup_middle, List.nodup_cons, ← List.map_append]
      at distinct
    have alone : ∀ other ∈ before ++ after, other.1.name ≠ e.1.name := by
      intro other member same
      exact distinct.1 (List.mem_map.2 ⟨other, member, same⟩)
    have earlier : ∀ other ∈ before, other.1.name ≠ e.1.name :=
      fun other member => alone other (List.mem_append_left _ member)
    have later : ∀ other ∈ after, other.1.name ≠ e.1.name :=
      fun other member => alone other (List.mem_append_right _ member)
    rw [record_after_entered directory named earlier later, stored, find?_take earlier]
    split
    · rfl
    · rfl
  · have fresh : ∀ e ∈ entered, e.1.name ≠ name := by
      intro e member same
      exact present (List.mem_map.2 ⟨e, member, same⟩)
    have absent : (stored entered count).find? (·.1.name = name) = none := by
      rw [List.find?_eq_none]
      intro e member
      simpa using fresh e (List.mem_of_mem_take member)
    rw [absent, effects_of_not_touched]
    · rfl
    · intro op member
      exact opening_apart directory identifier named fresh (List.mem_of_mem_take member)

theorem index_place (outDir : String) :
    placeOf (indexPath (directoryIn outDir)) = recordPlace outDir "checksums" := rfl

/-- The files of a cache with their contents. -/
def cacheFiles (cache : Cache) (entered : List (CompiledModule × CacheEntry)) :
    List (String × Bytes) :=
  entered.map (fun e => (recordPath cache.directory e.1.name, recordText e.1)) ++
    [(indexPath cache.directory, (cache.keepAll entered).current.contents)]

theorem writeCache_eq_publish (cache : Cache) (entered : List (CompiledModule × CacheEntry)) :
    writeCache cache entered = publish cache.directory (cacheFiles cache entered) := by
  rw [Session.writeCache_eq, publish, cacheFiles, List.flatMap_append, List.flatMap_map, save,
    keepAll_directory, List.flatMap_singleton]
  rfl

theorem index_after_all (directory : cache.directory = directoryIn outDir)
    (front : List Operation) (files : Place → Option Bytes) :
    effects (front ++ writeCache cache entered) files (recordPlace outDir "checksums") =
      some (cache.keepAll entered).current.contents := by
  have layout : front ++ writeCache cache entered =
      (front ++ entered.flatMap (fun e => cache.store e.1) ++ [.createDirs cache.directory]) ++
        replace (indexPath cache.directory) (cache.keepAll entered).current.contents ++ [] := by
    simp [Session.writeCache_eq, save, keepAll_directory]
  rw [layout, ← index_place, ← directory]
  exact effects_replace (by simp) _ _ files

/-- The index in the cache of an output directory; one that cannot be read is empty. -/
def indexIn (outDir : String) (files : Place → Option Bytes) : CacheIndex :=
  ((files (placeOf (indexPath (directoryIn outDir)))).bind fun bytes =>
    (ofBytes? bytes).bind CacheIndex.ofJson?).getD {}

/-- The record under the name of a module, if the file there holds one. -/
def recordIn (outDir : String) (files : Place → Option Bytes) (name : String) :
    Option CompiledModule :=
  (files (recordPlace outDir name)).bind fun bytes => (ofBytes? bytes).bind CompiledModule.ofJson?

theorem recordIn_after (sources : GeneratedSources)
    (directory : cache.directory = directoryIn outDir)
    (named : ∀ e ∈ entered, Manifest.isIdentifier e.1.name = true)
    (distinct : (entered.map (·.1.name)).Nodup) (identifier : Manifest.isIdentifier name = true)
    (count : Nat) (files : Place → Option Bytes) :
    recordIn outDir (effects ((opening outDir sources cache entered).take count) files) name =
      (((stored entered count).find? (·.1.name = name)).map (·.1)).or
        (recordIn outDir files name) := by
  rw [recordIn, record_after directory named distinct identifier]
  cases (stored entered count).find? (·.1.name = name) with
  | none => rfl
  | some e =>
    simp only [Option.map_some, Option.some_or, Option.bind_some]
    exact e.1.read_written

theorem indexIn_after (sources : GeneratedSources)
    (directory : cache.directory = directoryIn outDir)
    (named : ∀ e ∈ entered, Manifest.isIdentifier e.1.name = true)
    (distinct : (entered.map (·.1.name)).Nodup) (count : Nat) (files : Place → Option Bytes) :
    indexIn outDir (effects ((opening outDir sources cache entered).take count) files) =
      if "checksums" ∈ (stored entered count).map (·.1.name) then {} else indexIn outDir files := by
  rw [indexIn, index_place, record_after directory named distinct (by decide)]
  cases found : (stored entered count).find? (·.1.name = "checksums") with
  | none =>
    have absent : "checksums" ∉ (stored entered count).map (·.1.name) := by
      intro member
      obtain ⟨e, inside, same⟩ := List.mem_map.1 member
      simpa [same] using List.find?_eq_none.1 found e inside
    rw [if_neg absent, indexIn, index_place]
    rfl
  | some e =>
    have same : e.1.name = "checksums" := by simpa using List.find?_some found
    have present : "checksums" ∈ (stored entered count).map (·.1.name) :=
      List.mem_map.2 ⟨e, List.mem_of_find?_eq_some found, same⟩
    rw [if_pos present]
    simp only [Option.map_some, Option.some_or, Option.bind_some]
    rw [recordText, ofBytes?_compact e.1.plain_toJson, Option.bind_some, CacheIndex.ofJson?_record,
      Option.getD_some]

/-- Where the index stands there is no record. -/
theorem recordIn_index (directory : cache.directory = directoryIn outDir) (front : List Operation)
    (files : Place → Option Bytes) :
    recordIn outDir (effects (front ++ writeCache cache entered) files) "checksums" = none := by
  rw [recordIn, index_after_all directory, Option.bind_some, CacheIndex.contents,
    ofBytes?_pretty (CacheIndex.plain_toJson _), Option.bind_some, CompiledModule.ofJson?_index]

/-- The text of some record, or of the index, stands where a record was put. -/
theorem record_at (directory : cache.directory = directoryIn outDir)
    {e : CompiledModule × CacheEntry} (member : e ∈ entered) (front : List Operation)
    (files : Place → Option Bytes) :
    (recordPlace outDir e.1.name = recordPlace outDir "checksums" ∧
      recordIn outDir (effects (front ++ writeCache cache entered) files) e.1.name = none) ∨
    ∃ x ∈ entered, recordPlace outDir x.1.name = recordPlace outDir e.1.name ∧
      effects (front ++ writeCache cache entered) files (recordPlace outDir e.1.name) =
        some (recordText x.1) := by
  have here : recordPlace outDir e.1.name ∈
      (cacheFiles cache entered).map fun f => placeOf f.1 := by
    rw [cacheFiles, List.map_append, List.map_map, recordPlace, ← directory]
    exact List.mem_append_left _ (List.mem_map_of_mem member)
  have written : effects (front ++ writeCache cache entered) files =
      effects (publish cache.directory (cacheFiles cache entered)) (effects front files) := by
    rw [effects_append, writeCache_eq_publish]
  obtain ⟨file, inside, same, holds⟩ := effects_publish
    (fun f _ => recordPlace_ne_temporary outDir e.1.name f.1) here (effects front files)
  rcases List.mem_append.1 inside with inside | inside
  · obtain ⟨x, entered, rfl⟩ := List.mem_map.1 inside
    rw [directory] at same
    exact Or.inr ⟨x, entered, same, written ▸ holds⟩
  · cases List.mem_singleton.1 inside
    rw [directory] at same
    refine Or.inl ⟨same.symm, ?_⟩
    have nothing : recordIn outDir (effects (front ++ writeCache cache entered) files)
        "checksums" = none := recordIn_index directory front files
    rw [recordIn, ← index_place, same] at nothing
    exact nothing

/-- The record under a name is that of the module, if it bears the name. -/
theorem recordIn_named (directory : cache.directory = directoryIn outDir)
    (names : (entered.map (·.1.name)).Nodup) {e : CompiledModule × CacheEntry}
    (member : e ∈ entered) {front : List Operation} {files : Place → Option Bytes}
    {record : CompiledModule}
    (held : recordIn outDir (effects (front ++ writeCache cache entered) files) e.1.name =
      some record) (named : record.name = e.1.name) : record = e.1 := by
  rcases record_at directory member front files with ⟨_, nothing⟩ | ⟨x, inside, _, text⟩
  · rw [nothing] at held
    cases held
  · rw [recordIn, text, Option.bind_some, recordText, x.1.read_written] at held
    cases held
    rw [List.inj_on_of_nodup_map names inside member named]

/-- The index that is read back lists the modules that were entered. -/
theorem indexIn_after_all (directory : cache.directory = directoryIn outDir)
    (empty : cache.current.modules = []) (distinct : (entered.map (·.1.name)).Nodup)
    (front : List Operation) (files : Place → Option Bytes) :
    ∃ modules, indexIn outDir (effects (front ++ writeCache cache entered) files) =
        ⟨cache.current.tool, cache.current.seed, modules⟩ ∧
      modules.Perm (entered.map fun e => (e.1.name, e.2)) := by
  have names : ((entered.map fun e => (e.1.name, e.2)).map (·.1)).Nodup := by
    rw [List.map_map]
    exact distinct
  have kept := CacheIndex.insertAll_nil_perm names
  have listed := CacheIndex.insertAll_nil_perm ((kept.map _).nodup_iff.2 names)
  refine ⟨_, ?_, listed.trans kept⟩
  rw [indexIn, index_place, index_after_all directory, Option.bind_some, CacheIndex.read_written,
    keepAll_current, empty]
  rfl

end Layout

end Cache

end CopyPatch
