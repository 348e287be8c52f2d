import CopyPatch.Proofs.Build.CacheFiles
import CopyPatch.Proofs.Compile.Selection

/-! Consistent caches. A cache is consistent if every record that its index leads to was compiled
from the input of its entry. A hit in a consistent cache is as good as compiling; and a build leaves
a consistent cache consistent unless it is broken off between its first record and its index. -/
namespace CopyPatch

open Files
open Files.Operation (effects)

theorem Bytes.ofHex?_hex (bytes : Bytes) : Bytes.ofHex? bytes.hex.toList = some bytes := by
  have digit : ∀ d < 16, Bytes.hexDigitValue? (Text.hexDigit d) = some d := by decide
  induction bytes with
  | nil => rfl
  | cons b rest ih =>
    have high : b.toNat / 16 < 16 := by
      have := b.toNat_lt
      omega
    have low : b.toNat % 16 < 16 := Nat.mod_lt _ (by decide)
    have letters : (Bytes.hex (b :: rest)).toList =
        Text.hexDigit (b.toNat / 16) :: Text.hexDigit (b.toNat % 16) ::
          (Bytes.hex rest).toList := by
      rw [Bytes.hex, List.map_cons, String.join_cons, String.toList_append, Text.hexByte,
        String.toList_ofList]
      rfl
    have whole : UInt8.ofNat (16 * (b.toNat / 16) + b.toNat % 16) = b := by
      rw [Nat.div_add_mod, UInt8.ofNat_toNat]
    rw [letters, Bytes.ofHex?, digit _ high, digit _ low, ih]
    simp only [Option.bind_eq_bind, Option.bind_some, whole]
    rfl

namespace ModuleSource

/-- What the checksum of a source is the digest of. -/
def hashed (source : ModuleSource) : Bytes :=
  Bytes.ofNat 8 (Bytes.ofText source.manifest).length ++ Bytes.ofText source.manifest ++
    (Bytes.ofNat 8 source.object.length ++ source.object)

/-- Inputs whose lengths are words of 64 bits and on which the digest does not collide. -/
structure NoCollision (seen : List ModuleSource) : Prop where
  short : ∀ s ∈ seen, (Bytes.ofText s.manifest).length < 2 ^ 64 ∧ s.object.length < 2 ^ 64
  apart : ∀ s ∈ seen, ∀ t ∈ seen, sha256 s.hashed = sha256 t.hashed → s.hashed = t.hashed

theorem ofNat_inj {m n : Nat} (fitsM : m < 2 ^ 64) (fitsN : n < 2 ^ 64)
    (same : Bytes.ofNat 8 m = Bytes.ofNat 8 n) : m = n := by
  have values := congrArg Bytes.value same
  have word : 256 ^ 8 = 2 ^ 64 := by decide
  rwa [Bytes.value_ofNat, Bytes.value_ofNat, word, Nat.mod_eq_of_lt fitsM, Nat.mod_eq_of_lt fitsN]
    at values

/-- A source is known by its entry. -/
theorem eq_of_entry {seen : List ModuleSource} (noCollision : NoCollision seen)
    {s t : ModuleSource} (memberS : s ∈ seen) (memberT : t ∈ seen) (same : s.entry = t.entry) :
    s = t := by
  have checksum (u : ModuleSource) : Bytes.ofHex? u.entry.checksum.toList =
      some (sha256 u.hashed) := by
    rw [entry, inputChecksum, Bytes.ofHex?_hex, hashed]
  have digests : some (sha256 s.hashed) = some (sha256 t.hashed) := by
    rw [← checksum, ← checksum, same]
  have hashes := noCollision.apart s memberS t memberT (Option.some.inj digests)
  -- the lengths in front of the two parts tell where each of them ends
  rw [hashed, hashed, List.append_assoc, List.append_assoc] at hashes
  obtain ⟨lengths, rest⟩ := List.append_inj hashes (by simp)
  obtain ⟨manifests, rest⟩ := List.append_inj rest
    (ofNat_inj (noCollision.short s memberS).1 (noCollision.short t memberT).1 lengths)
  obtain ⟨_, objects⟩ := List.append_inj rest (by simp)
  have texts := congrArg Bytes.toText? manifests
  rw [Bytes.toText?_ofText, Bytes.toText?_ofText, Option.some.injEq] at texts
  have origins : s.origin = t.origin := congrArg CacheEntry.input same
  cases s
  cases t
  simp only at origins texts objects
  rw [origins, texts, objects]

/-- A module is called what its manifest says. -/
theorem name_of_compile {source : ModuleSource} {process : String → Option Nat}
    {seed : Option UInt64} {compiled : CompiledModule}
    (compiles : source.compile process seed = .ok compiled) : ∃ manifest,
      Manifest.parse source.origin source.manifest = .ok manifest ∧
        compiled.name = manifest.moduleName := by
  obtain ⟨prepared, prepares, finished⟩ := compile_eq_ok.1 compiles
  obtain ⟨parsed, _, _⟩ := prepare_eq_ok prepares
  obtain ⟨_, _, finished⟩ := Outcome.bind_eq_ok.1 finished
  obtain ⟨_, _, finished⟩ := Outcome.bind_eq_ok.1 finished
  cases finished
  exact ⟨prepared.manifest, parsed, rfl⟩

theorem isIdentifier_of_compile {source : ModuleSource} {process : String → Option Nat}
    {seed : Option UInt64} {compiled : CompiledModule}
    (compiles : source.compile process seed = .ok compiled) :
    Manifest.isIdentifier compiled.name = true := by
  obtain ⟨manifest, parsed, named⟩ := name_of_compile compiles
  rw [named]
  exact (Manifest.parse_eq_ok parsed).1

end ModuleSource

namespace Cache

variable {process : String → Option Nat} {seen : List ModuleSource} {outDir : String}
  {tree next : Tree}

/-- A record that an entry of the index leads to was compiled, under the seed of the index, from a
source that has been seen and has this entry. -/
def Consistent (process : String → Option Nat) (seen : List ModuleSource) (outDir : String)
    (files : Place → Option Bytes) : Prop :=
  ∀ e ∈ (indexIn outDir files).modules, ∀ record, recordIn outDir files e.1 = some record →
    record.name = e.1 → ∃ source ∈ seen, source.entry = e.2 ∧
      source.compile process (indexIn outDir files).seed = .ok record

theorem previous_eq {tool : Option String} {seed : Option UInt64} {e : String × CacheEntry}
    (listed : e ∈ (openIn tree.read outDir tool seed).previous.modules) :
    (openIn tree.read outDir tool seed).previous = indexIn outDir tree.fileAt := by
  simp only [openIn] at listed ⊢
  cases read : tree.read (indexPath (directoryIn outDir)) with
  | error cause =>
    rw [read] at listed
    cases listed
  | ok bytes =>
    rw [indexIn, Tree.read_eq_ok read]
    rfl

theorem lookup_eq_some {tool : Option String} {seed : Option UInt64} {entry : CacheEntry}
    {record : CompiledModule}
    (hit : (openIn tree.read outDir tool seed).lookup tree.read entry = some record) :
    ∃ name, (name, entry) ∈ (indexIn outDir tree.fileAt).modules ∧
      (indexIn outDir tree.fileAt).seed = seed ∧
      recordIn outDir tree.fileAt name = some record ∧ record.name = name := by
  rw [lookup] at hit
  split at hit
  · cases hit
  · split at hit
    · cases hit
    · rename_i seeds
      obtain ⟨listed, found, hit⟩ := Option.bind_eq_some_iff.1 hit
      obtain ⟨bytes, readRecord, hit⟩ := Option.bind_eq_some_iff.1 hit
      obtain ⟨held, parsed, hit⟩ := Option.bind_eq_some_iff.1 hit
      have same := previous_eq (List.mem_of_find?_eq_some found)
      have keyed : listed.2 = entry := by simpa using List.find?_some found
      rw [Outcome.toOption_eq_some] at readRecord
      have file : tree.fileAt (placeOf (recordPath (directoryIn outDir) listed.1)) = some bytes :=
        Tree.read_eq_ok readRecord
      split at hit
      · rename_i named
        cases hit
        refine ⟨listed.1, ?_, ?_, ?_, named⟩
        · rw [← same, ← keyed]
          exact List.mem_of_find?_eq_some found
        · rw [← same]
          exact not_not.1 seeds
        · rw [recordIn, recordPlace, file, Option.bind_some, parsed]
      · cases hit

/-- A hit in a consistent cache is what compiling gives. -/
theorem Consistent.lookup (consistent : Consistent process seen outDir tree.fileAt)
    (noCollision : ModuleSource.NoCollision seen) {source : ModuleSource} (member : source ∈ seen)
    {tool : Option String} {seed : Option UInt64} {record : CompiledModule}
    (hit : (openIn tree.read outDir tool seed).lookup tree.read source.entry = some record) :
    source.compile process seed = .ok record := by
  obtain ⟨name, listed, rfl, read, named⟩ := lookup_eq_some hit
  obtain ⟨other, seenOther, same, compiles⟩ := consistent _ listed record read named
  rwa [ModuleSource.eq_of_entry noCollision seenOther member same] at compiles

/-- No name in the index leads out of the cache. -/
def Named (outDir : String) (files : Place → Option Bytes) : Prop :=
  ∀ e ∈ (indexIn outDir files).modules, Manifest.isIdentifier e.1 = true

/-- Nothing but the files of the cache matters. -/
theorem consistent_congr {files changed : Place → Option Bytes}
    (kept : ∀ place, placeOf (directoryIn outDir) <+: place → changed place = files place)
    (consistent : Consistent process seen outDir files) (named : Named outDir files) :
    Consistent process seen outDir changed ∧ Named outDir changed := by
  have below {name : String} (identifier : Manifest.isIdentifier name = true) :
      changed (recordPlace outDir name) = files (recordPlace outDir name) := by
    refine kept _ ?_
    rw [recordPlace_eq identifier]
    exact List.prefix_append _ _
  have index : indexIn outDir changed = indexIn outDir files := by
    rw [indexIn, indexIn, index_place, below (by decide)]
  constructor
  · intro e listed record read same
    rw [index] at listed ⊢
    rw [recordIn, below (named e listed)] at read
    exact consistent e listed record read same
  · intro e listed
    rw [index] at listed
    exact named e listed

/-- Each module was compiled from a seen source with its entry. -/
def Traced (process : String → Option Nat) (seen : List ModuleSource) (seed : Option UInt64)
    (entered : List (CompiledModule × CacheEntry)) : Prop :=
  ∀ e ∈ entered, ∃ source ∈ seen, source.entry = e.2 ∧ source.compile process seed = .ok e.1

/-- What a build that has put records in place needs for the old index to stay right: each of them
that the index lists was compiled from the input it lists. -/
def Fits (process : String → Option Nat) (seen : List ModuleSource) (index : CacheIndex)
    (records : List CompiledModule) : Prop :=
  ∀ record ∈ records, ∀ entry, (record.name, entry) ∈ index.modules →
    ∃ source ∈ seen, source.entry = entry ∧ source.compile process index.seed = .ok record

/-- When a build that has performed some of its operations has done no harm: all of them are done;
or a record has taken the place of the index; or the records in place fit the index. The sources
take five operations, each record three, and the index three. -/
def Harmless (process : String → Option Nat) (seen : List ModuleSource) (index : CacheIndex)
    (entered : List (CompiledModule × CacheEntry)) (done : Nat) : Prop :=
  done = 3 * entered.length + 8 ∨ "checksums" ∈ (stored entered done).map (·.1.name) ∨
    Fits process seen index ((stored entered done).map (·.1))

theorem harmless_of_lt {process : String → Option Nat} {seen : List ModuleSource}
    {index : CacheIndex} {entered : List (CompiledModule × CacheEntry)} {done : Nat}
    (early : done < 8) : Harmless process seen index entered done := by
  have none_stored : stored entered done = [] := by
    rw [stored, show (done - 5) / 3 = 0 by omega, List.take_zero]
  refine Or.inr (Or.inr ?_)
  rw [none_stored]
  intro record member
  cases member

section Step

variable {sources : GeneratedSources} {cache : Cache} {seed : Option UInt64}
  {entered : List (CompiledModule × CacheEntry)} {files : Place → Option Bytes}

theorem Traced.named (traced : Traced process seen seed entered) :
    ∀ e ∈ entered, Manifest.isIdentifier e.1.name = true := by
  intro e member
  obtain ⟨source, _, _, compiles⟩ := traced e member
  exact ModuleSource.isIdentifier_of_compile compiles

/-- A build that goes through leaves a consistent cache, whatever was there before. -/
theorem consistent_after_all (directory : cache.directory = directoryIn outDir)
    (empty : cache.current.modules = []) (traced : Traced process seen cache.current.seed entered)
    (distinct : (entered.map (·.1.name)).Nodup) :
    Consistent process seen outDir
      (effects (Session.writeSources outDir sources ++ Session.writeCache cache entered) files) ∧
    Named outDir
      (effects (Session.writeSources outDir sources ++ Session.writeCache cache entered)
        files) := by
  obtain ⟨modules, index, inside⟩ := indexIn_after_all directory empty distinct
    (Session.writeSources outDir sources) files
  constructor
  · intro e listed record read same
    rw [index] at listed ⊢
    obtain ⟨x, member, rfl⟩ := List.mem_map.1 (inside.mem_iff.1 listed)
    rw [recordIn_named directory distinct member read same]
    exact traced x member
  · intro e listed
    rw [index] at listed
    obtain ⟨x, member, rfl⟩ := List.mem_map.1 (inside.mem_iff.1 listed)
    exact traced.named x member

/-- Before the index is replaced, the cache is consistent exactly if the records that were put in
place fit the old index, or one of them has taken the place of the index. -/
theorem consistent_after_iff (directory : cache.directory = directoryIn outDir)
    (traced : Traced process seen seed entered) (distinct : (entered.map (·.1.name)).Nodup)
    (consistent : Consistent process seen outDir files) (named : Named outDir files) (count : Nat) :
    Consistent process seen outDir
        (effects ((opening outDir sources cache entered).take count) files) ↔
      "checksums" ∈ (stored entered count).map (·.1.name) ∨
        Fits process seen (indexIn outDir files) ((stored entered count).map (·.1)) := by
  have index := indexIn_after sources directory traced.named distinct count files
  by_cases taken : "checksums" ∈ (stored entered count).map (·.1.name)
  · refine ⟨fun _ => Or.inl taken, fun _ e listed => ?_⟩
    rw [index, if_pos taken] at listed
    cases listed
  · rw [if_neg taken] at index
    have distinctStored : ((stored entered count).map (·.1.name)).Nodup :=
      distinct.sublist ((List.take_sublist _ _).map _)
    constructor
    -- a stored record is found under its name, so it has to be what the old entry asks for
    · intro after
      refine Or.inr fun record member entry listed => ?_
      obtain ⟨x, inside, rfl⟩ := List.mem_map.1 member
      have found := recordIn_after sources directory traced.named distinct (named _ listed) count
        files
      rw [find?_of_mem distinctStored inside] at found
      rw [← index] at listed ⊢
      exact after _ listed x.1 found rfl
    · rintro (present | fits) e listed record read same
      · exact absurd present taken
      · rw [index] at listed ⊢
        rw [recordIn_after sources directory traced.named distinct (named e listed)] at read
        cases found : (stored entered count).find? (·.1.name = e.1) with
        | none =>
          rw [found] at read
          exact consistent e listed record read same
        | some x =>
          rw [found] at read
          cases read
          have member := List.mem_map_of_mem (f := (·.1)) (List.mem_of_find?_eq_some found)
          refine fits x.1 member e.2 ?_
          rw [same]
          exact listed

theorem named_after (directory : cache.directory = directoryIn outDir)
    (traced : Traced process seen seed entered) (distinct : (entered.map (·.1.name)).Nodup)
    (named : Named outDir files) (count : Nat) :
    Named outDir (effects ((opening outDir sources cache entered).take count) files) := by
  rw [Named, indexIn_after sources directory traced.named distinct]
  split
  · intro e member
    cases member
  · exact named

/-- A build that is broken off leaves a consistent cache consistent exactly if it has done no
harm. -/
theorem consistent_iff_harmless (directory : cache.directory = directoryIn outDir)
    (empty : cache.current.modules = []) (traced : Traced process seen cache.current.seed entered)
    (distinct : (entered.map (·.1.name)).Nodup)
    (consistent : Consistent process seen outDir files) (named : Named outDir files)
    {operations : List Operation}
    (planned : operations = Session.writeSources outDir sources ++ Session.writeCache cache entered)
    {done : Nat} (within : done ≤ operations.length) :
    (Consistent process seen outDir (effects (operations.take done) files) ↔
      Harmless process seen (indexIn outDir files) entered done) ∧
    Named outDir (effects (operations.take done) files) := by
  have total : operations.length = 3 * entered.length + 8 := by rw [planned, length_operations]
  by_cases all : done = operations.length
  · rw [all, List.take_length, planned]
    obtain ⟨after, namedAfter⟩ := consistent_after_all directory empty traced distinct
    exact ⟨⟨fun _ => Or.inl (planned ▸ total), fun _ => after⟩, namedAfter⟩
  · have front : operations.take done = (opening outDir sources cache entered).take done := by
      rw [planned, operations_eq, List.take_append_of_le_length]
      rw [length_opening]
      omega
    rw [front]
    refine ⟨(consistent_after_iff directory traced distinct consistent named done).trans ?_,
      named_after directory traced distinct named done⟩
    rw [Harmless, ← total]
    exact ⟨Or.inr, fun harmless => harmless.resolve_left all⟩

end Step

end Cache

namespace Session

open Cache (Consistent Named Traced Harmless indexIn openIn directoryIn)

variable {config : BuildConfig} {tool : Option String} {process : String → Option Nat}
  {seen : List ModuleSource} {tree next : Tree} {inputs : List LoadedInput}
  {modules : List CompiledModule} {sources : GeneratedSources}

/-- Every source that a build reads has been seen. -/
def Reads (config : BuildConfig) (read : Reading) (seen : List ModuleSource) : Prop :=
  ∀ input ∈ config.inputs, ∀ source, sourceOf read input = .ok source → source ∈ seen

/-- With a consistent cache every module is what its source compiles to. -/
theorem Drafted.compiles
    (drafted : Drafted config (openIn tree.read config.outDir tool config.seed) process tree.read
      inputs modules sources)
    (consistent : Consistent process seen config.outDir tree.fileAt)
    (noCollision : ModuleSource.NoCollision seen) (reads : Reads config tree.read seen) :
    List.Forall₂ (fun input compiled => (input.source ∈ seen ∧ input.entry = input.source.entry) ∧
      input.source.compile process config.seed = .ok compiled) inputs modules := by
  have loaded : ∀ input ∈ inputs, input.source ∈ seen ∧ input.entry = input.source.entry ∧
      input.cached = if config.force then none
        else (openIn tree.read config.outDir tool config.seed).lookup tree.read input.entry := by
    intro loaded member
    obtain ⟨input, named, load⟩ := exists_left drafted.loaded member
    obtain ⟨read, keyed, found⟩ := loadInput_eq_ok.1 load
    exact ⟨reads input named _ read, keyed, found⟩
  refine ((List.forall₂_and_left ..).2 ⟨loaded, drafted.given⟩).imp ?_
  rintro input compiled ⟨⟨member, keyed, found⟩, gives⟩
  refine ⟨⟨member, keyed⟩, ?_⟩
  rw [LoadedInput.Gives] at gives
  cases hit : input.cached with
  | none => simpa only [hit] using gives
  | some record =>
    simp only [hit] at gives
    subst gives
    rw [hit] at found
    split at found
    · cases found
    · rw [keyed] at found
      exact consistent.lookup noCollision member found.symm

theorem Drafted.traced
    (drafted : Drafted config (openIn tree.read config.outDir tool config.seed) process tree.read
      inputs modules sources)
    (consistent : Consistent process seen config.outDir tree.fileAt)
    (noCollision : ModuleSource.NoCollision seen) (reads : Reads config tree.read seen) :
    Traced process seen config.seed (modules.zip (inputs.map (·.entry))) := by
  intro e entered
  obtain ⟨input, _, here, ⟨member, keyed⟩, compiles⟩ :=
    exists_of_mem_zip (drafted.compiles consistent noCollision reads) entered
  exact ⟨input.source, member, keyed.symm.trans here, compiles⟩

/-- A build that is broken off leaves a consistent cache consistent exactly if it has done no
harm. -/
theorem Drafted.consistent_iff
    (drafted : Drafted config (openIn tree.read config.outDir tool config.seed) process tree.read
      inputs modules sources)
    (consistent : Consistent process seen config.outDir tree.fileAt)
    (named : Named config.outDir tree.fileAt)
    (noCollision : ModuleSource.NoCollision seen) (reads : Reads config tree.read seen)
    (count : Nat) {operations : List Operation}
    (planned : operations = (planOf config (openIn tree.read config.outDir tool config.seed) inputs
      modules sources).operations) :
    (Consistent process seen config.outDir (perform (operations.take count) tree).2.fileAt ↔
      Harmless process seen (indexIn config.outDir tree.fileAt)
        (modules.zip (inputs.map (·.entry))) (performed (operations.take count) tree)) ∧
    Named config.outDir (perform (operations.take count) tree).2.fileAt := by
  have within : performed (operations.take count) tree ≤ operations.length :=
    Nat.le_trans (performed_le _ tree) (List.length_take_le' count operations)
  have layout : operations = writeSources config.outDir sources ++
      writeCache (openIn tree.read config.outDir tool config.seed)
        (modules.zip (inputs.map (·.entry))) := by rw [planned, planOf]
  have directory : (openIn tree.read config.outDir tool config.seed).directory =
      directoryIn config.outDir := rfl
  have empty : (openIn tree.read config.outDir tool config.seed).current.modules = [] := rfl
  rw [fileAt_perform_take]
  exact Cache.consistent_iff_harmless directory empty
    (drafted.traced consistent noCollision reads) (checkNames_nodup drafted.named).1 consistent
    named layout within

end Session

end CopyPatch
