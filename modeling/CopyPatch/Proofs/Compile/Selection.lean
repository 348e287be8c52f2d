import CopyPatch.Proofs.Compile.Failures
import CopyPatch.Proofs.Extraction.Basic
import CopyPatch.Proofs.Extraction.Sections
import CopyPatch.Proofs.Index.Construction
import CopyPatch.Proofs.Manifest.Check

/-! Selection from end to end. A compiled family leads every tuple of its enumeration to the variant
that was extracted from the body symbol of this very tuple, and the errors that guard the way
there are never reported. -/
namespace CopyPatch

open Outcome (FailsWith)

namespace Manifest

theorem prepare_eq_ok {manifest : Manifest} {file : ObjectFile} {process : String → Option Nat}
    {prepared : PreparedModule} (h : manifest.prepare file process = .ok prepared) :
    prepared.manifest = manifest ∧ prepared.file = file ∧
      List.Forall₂ (fun decl r => decl.register manifest.moduleName prepared.map = .ok r)
        manifest.families prepared.registrations := by
  obtain ⟨_, _, h⟩ := Outcome.bind_eq_ok.mp h
  obtain ⟨registrations, registered, h⟩ := Outcome.bind_eq_ok.mp h
  cases h
  exact ⟨rfl, rfl, Outcome.mapM_eq_ok.mp registered⟩

theorem prepare_failsWith {crowded : Prop} (manifest : Manifest) (file : ObjectFile)
    (process : String → Option Nat) :
    FailsWith (Expected crowded) (manifest.prepare file process) :=
  .bind (LoadMap.load_failsWith _ _ _ _) fun _ _ =>
    .bind (.mapM fun decl _ => decl.register_failsWith _ _) fun _ _ => .ok _

end Manifest

/-- A compiled family serves a declaration: its variants stand in the order of enumeration, and
every tuple leads to the variant extracted from its own body. -/
structure CompiledFamily.Serves (family : CompiledFamily) (decl : FamilyDecl)
    (extractor : Extractor) (tuples : List Tuple) : Prop where
  name : family.name = decl.name
  enumerated : decl.enumerated = .ok tuples
  order : family.variants.map (·.tuple) = tuples
  selects : ∀ t ∈ tuples, ∃ symbol variant, decl.bodySymbol t = .ok symbol ∧
    family.find? t = some variant ∧ variant.tuple = t ∧
    extractor.extract symbol = .ok variant.code ∧ variant.code.symbol = symbol

namespace PreparedModule

variable {prepared : PreparedModule} {extractor : Extractor} {seed : Option UInt64}
  {decl : FamilyDecl} {r : Registration}

/-- The variant for an entry is the one of the symbol whose address was registered, unless this
address is shared. -/
theorem variant_cases {entry : Tuple × Nat} {symbol : String}
    (h : prepared.map.addressOf symbol = some entry.2) :
    prepared.variant extractor entry = (extractor.extract symbol).map (⟨entry.1, ·⟩) ∨
      ∃ names, prepared.variant extractor entry =
        Outcome.fail (.ambiguousAddress prepared.manifest.moduleName entry.2 names) := by
  unfold variant
  rcases LoadMap.resolve_addressOf prepared.manifest.moduleName h with own | ⟨names, _, shared⟩
  · rw [own]
    exact Or.inl rfl
  · rw [shared]
    exact Or.inr ⟨names, rfl⟩

theorem variant_eq_ok {entry : Tuple × Nat} {symbol : String} {variant : CompiledVariant}
    (address : prepared.map.addressOf symbol = some entry.2)
    (h : prepared.variant extractor entry = .ok variant) :
    variant.tuple = entry.1 ∧ extractor.extract symbol = .ok variant.code := by
  rcases variant_cases address with own | ⟨_, shared⟩
  · rw [own] at h
    obtain ⟨code, extracted, rfl⟩ := Outcome.map_eq_ok.mp h
    exact ⟨rfl, extracted⟩
  · rw [shared] at h
    cases h

theorem variant_failsWith {crowded : Prop} {entry : Tuple × Nat} {symbol : String}
    (address : prepared.map.addressOf symbol = some entry.2) :
    FailsWith (Expected crowded) (prepared.variant extractor entry) := by
  rcases variant_cases address with own | ⟨_, shared⟩
  · rw [own]
    exact .map (extractor.extract_failsWith symbol)
  · rw [shared]
    exact .error trivial

theorem variant_tuple {entry : Tuple × Nat} {variant : CompiledVariant}
    (h : prepared.variant extractor entry = .ok variant) : entry.1 = variant.tuple := by
  obtain ⟨_, _, h⟩ := Outcome.bind_eq_ok.mp h
  obtain ⟨_, _, h⟩ := Outcome.bind_eq_ok.mp h
  cases h
  rfl

theorem variants_tuples {variants : List CompiledVariant}
    (h : r.entries.mapM (prepared.variant extractor) = .ok variants) :
    variants.map (·.tuple) = r.entries.map (·.1) := by
  refine (map_eq_of_forall₂ ?_).symm
  exact (Outcome.mapM_eq_ok.mp h).imp fun _ _ => variant_tuple

theorem family_serves {family : CompiledFamily}
    (registered : decl.register prepared.manifest.moduleName prepared.map = .ok r)
    (h : prepared.family extractor seed decl r = .ok family) :
    family.Serves decl extractor (r.entries.map (·.1)) := by
  obtain ⟨enumerated, addresses⟩ := FamilyDecl.register_eq_ok registered
  obtain ⟨variants, hvariants, h⟩ := Outcome.bind_eq_ok.mp h
  obtain ⟨index, built, h⟩ := Outcome.bind_eq_ok.mp h
  rw [Outcome.mapCause_eq_ok] at built
  cases h
  have order := variants_tuples hvariants
  refine ⟨rfl, enumerated, order, fun t member => ?_⟩
  -- the position of the tuple is the position of its entry, of its variant, and its ordinal
  obtain ⟨i, hi⟩ := List.mem_iff_getElem?.mp (order ▸ member)
  have ordinal := Index.lookup_of_build built
    (order ▸ FamilyDecl.length_of_enumerated enumerated) hi
  rw [List.getElem?_map] at hi
  obtain ⟨variant, hvariant, rfl⟩ := Option.map_eq_some_iff.mp hi
  obtain ⟨entry, hentry, made⟩ := Outcome.getElem?_of_mapM_eq_ok hvariants hvariant
  obtain ⟨symbol, body, address⟩ := addresses entry (List.mem_of_getElem? hentry)
  obtain ⟨tuple, extracted⟩ := variant_eq_ok address made
  refine ⟨symbol, variant, tuple ▸ body, ?_, rfl, extracted,
    Extractor.symbol_of_extract extracted⟩
  obtain ⟨found, hfound, rfl⟩ := Option.map_eq_some_iff.mp ordinal
  simp [CompiledFamily.find?, hfound, hvariant]

theorem family_failsWith {crowded : Prop}
    (registered : decl.register prepared.manifest.moduleName prepared.map = .ok r)
    (crowd : 2 ^ 32 ≤ r.entries.length → crowded) :
    FailsWith (Expected crowded) (prepared.family extractor seed decl r) := by
  obtain ⟨_, addresses⟩ := FamilyDecl.register_eq_ok registered
  refine .bind (.mapM fun entry member => ?_) fun variants made => .bind ?_ fun _ _ => .ok _
  · obtain ⟨symbol, _, address⟩ := addresses entry member
    exact variant_failsWith address
  · have count : (variants.map (·.tuple)).length = r.entries.length := by
      rw [variants_tuples made, List.length_map]
    by_cases few : r.entries.length < 2 ^ 32
    · rcases Index.build_laid decl.name decl.axes.length (variants.map (·.tuple)) Keystream.next
        (Keystream.ofSeed (familySeed decl.name seed)) (count ▸ few) with exhausted | ⟨_, built, _⟩
      · rw [exhausted]
        exact .error trivial
      · rw [built]
        exact .ok _
    · intro failure failed
      have crowded := crowd (Nat.le_of_not_lt few)
      unfold Outcome.mapError at failed
      split at failed
      · cases failed
      · rename_i cause _
        cases failed
        cases cause
        · trivial
        · exact crowded
      · cases failed
        trivial

/-- Every family of the manifest is registered with the addresses of the map. -/
def Registered (prepared : PreparedModule) : Prop :=
  List.Forall₂ (fun decl r => decl.register prepared.manifest.moduleName prepared.map = .ok r)
    prepared.manifest.families prepared.registrations

theorem finish_serves {m : CompiledModule} (registered : prepared.Registered)
    (h : prepared.finish seed = .ok m) :
    ∃ extractor, Extractor.ofFile prepared.manifest.moduleName prepared.file = .ok extractor ∧
      List.Forall₂ (fun decl family => ∃ tuples, CompiledFamily.Serves family decl extractor tuples)
        prepared.manifest.families m.families := by
  obtain ⟨extractor, opened, h⟩ := Outcome.bind_eq_ok.mp h
  obtain ⟨families, made, h⟩ := Outcome.bind_eq_ok.mp h
  cases h
  refine ⟨extractor, opened, ?_⟩
  refine (forall₂_of_zip registered (Outcome.mapM_eq_ok.mp made)).imp ?_
  rintro decl family ⟨r, known, compiled⟩
  exact ⟨_, family_serves known compiled⟩

theorem finish_failsWith {crowded : Prop} (registered : prepared.Registered)
    (crowd : ∀ decl ∈ prepared.manifest.families, ∀ tuples, decl.enumerated = .ok tuples →
      2 ^ 32 ≤ tuples.length → crowded) :
    FailsWith (Expected crowded) (prepared.finish seed) := by
  refine .bind (Extractor.ofFile_failsWith _ _) fun extractor _ =>
    .bind (.mapM ?_) fun _ _ => .ok _
  rintro ⟨decl, r⟩ member
  have known := List.forall₂_zip registered member
  refine family_failsWith known fun many => ?_
  refine crowd decl (List.of_mem_zip member).1 _ (FamilyDecl.register_eq_ok known).1 ?_
  rwa [List.length_map]

end PreparedModule

theorem CompiledModule.family?_serves {m : CompiledModule} {decls : List FamilyDecl}
    {extractor : Extractor}
    (paired : List.Forall₂
      (fun decl family => ∃ tuples, CompiledFamily.Serves family decl extractor tuples)
      decls m.families)
    (distinct : (decls.map (·.name)).Nodup) {decl : FamilyDecl} (member : decl ∈ decls) :
    ∃ family tuples, m.family? decl.name = some family ∧
      CompiledFamily.Serves family decl extractor tuples := by
  unfold family?
  generalize m.families = families at paired
  induction paired with
  | nil => cases member
  | @cons first family decls families serves _ ih =>
    obtain ⟨tuples, serves⟩ := serves
    obtain ⟨new, distinct⟩ := List.nodup_cons.mp distinct
    rcases List.mem_cons.mp member with rfl | later
    · exact ⟨family, tuples, by simp [serves.name], serves⟩
    · have other : family.name ≠ decl.name := by
        rw [serves.name]
        exact fun same => new (List.mem_map.mpr ⟨decl, later, same.symm⟩)
      simpa [other] using ih distinct later

namespace ModuleSource

theorem prepare_eq_ok {source : ModuleSource} {process : String → Option Nat}
    {prepared : PreparedModule} (h : source.prepare process = .ok prepared) :
    Manifest.parse source.origin source.manifest = .ok prepared.manifest ∧
      Object.accept source.object = .ok prepared.file ∧ prepared.Registered := by
  obtain ⟨manifest, parsed, h⟩ := Outcome.bind_eq_ok.mp h
  obtain ⟨file, accepted, h⟩ := Outcome.bind_eq_ok.mp h
  obtain ⟨rfl, rfl, registered⟩ := Manifest.prepare_eq_ok h
  rw [Outcome.ofReporting_eq_ok, Outcome.mapError_eq_ok] at parsed
  rw [Outcome.ofReporting_eq_ok, Object.acceptFor, Outcome.mapError_eq_ok] at accepted
  exact ⟨parsed, accepted, registered⟩

theorem compile_failsWith (crowded : Prop) (source : ModuleSource)
    (process : String → Option Nat) (seed : Option UInt64)
    (crowd : ∀ manifest decl tuples,
      Manifest.parse source.origin source.manifest = .ok manifest → decl ∈ manifest.families →
      decl.enumerated = .ok tuples → 2 ^ 32 ≤ tuples.length → crowded) :
    FailsWith (Expected crowded) (source.compile process seed) := by
  refine .bind (.bind ?_ fun manifest _ => .bind ?_ fun file _ => ?_) fun prepared done => ?_
  · exact .ofReporting (.mapError fun _ _ => trivial)
  · refine .ofReporting (.mapError fun rejection _ => ?_)
    cases rejection <;> trivial
  · exact manifest.prepare_failsWith file process
  · obtain ⟨parsed, _, registered⟩ := prepare_eq_ok done
    exact PreparedModule.finish_failsWith registered fun decl member tuples =>
      crowd _ decl tuples parsed member

/-- A compiled module serves every family that its manifest declares: the tuple leads to the code
of its own body. No compilation ends with an address without a symbol, with a tuple registered
twice or of the wrong length, or, as long as ordinals suffice to count the tuples, with an index
that fails its verification; an address leads back to the symbol it was looked up for, or the
symbols that share it are reported. -/
theorem compile_selects_own_body (source : ModuleSource) (process : String → Option Nat)
    (seed : Option UInt64) :
    (∀ m, source.compile process seed = .ok m → ∃ manifest file extractor,
      Manifest.parse source.origin source.manifest = .ok manifest ∧
      Object.accept source.object = .ok file ∧
      Extractor.ofFile manifest.moduleName file = .ok extractor ∧
      ∀ decl ∈ manifest.families, ∃ family tuples, m.family? decl.name = some family ∧
        CompiledFamily.Serves family decl extractor tuples) ∧
    (∀ moduleName address,
      source.compile process seed ≠ Outcome.fail (.unresolvedAddress moduleName address)) ∧
    (∀ family tuple,
      source.compile process seed ≠ Outcome.fail (.model (.duplicateTuple family tuple))) ∧
    (∀ family expected found, source.compile process seed ≠
      Outcome.fail (.model (.parameterCountMismatch family expected found))) ∧
    ((∀ manifest decl tuples,
      Manifest.parse source.origin source.manifest = .ok manifest → decl ∈ manifest.families →
      decl.enumerated = .ok tuples → tuples.length < 2 ^ 32) →
      ∀ family flaw,
        source.compile process seed ≠ Outcome.fail (.index (.unverified family flaw))) ∧
    ∀ (map : LoadMap) moduleName symbol address, map.addressOf symbol = some address →
      map.resolve moduleName address = .ok symbol ∨
      ∃ symbols, symbol ∈ symbols ∧ map.resolve moduleName address =
        .error (.ambiguousAddress moduleName address symbols) := by
  have anyCrowd := compile_failsWith True source process seed
    fun _ _ _ _ _ _ _ => trivial
  refine ⟨?_, ?_, ?_, ?_, ?_, ?_⟩
  · intro m compiled
    obtain ⟨prepared, done, finished⟩ := Outcome.bind_eq_ok.mp compiled
    obtain ⟨parsed, accepted, registered⟩ := prepare_eq_ok done
    obtain ⟨extractor, opened, paired⟩ := PreparedModule.finish_serves registered finished
    exact ⟨prepared.manifest, prepared.file, extractor, parsed, accepted, opened,
      fun decl member => CompiledModule.family?_serves paired (Manifest.parse_names parsed) member⟩
  · exact fun _ _ failed => anyCrowd _ failed
  · exact fun _ _ failed => anyCrowd _ failed
  · exact fun _ _ _ failed => anyCrowd _ failed
  · intro few family flaw failed
    refine compile_failsWith False source process seed ?_ _ failed
    intro manifest decl tuples parsed member enumerated many
    exact absurd (few manifest decl tuples parsed member enumerated) (Nat.not_lt.mpr many)
  · exact fun map moduleName symbol address => LoadMap.resolve_addressOf moduleName

/-- The small object with a family of one yes-or-no axis. -/
def small : ModuleSource where
  origin := "m.toml"
  manifest := "module = \"m\"\n[[family]]\nname = \"f\"\nbody = \"f_\x7bb\x7d\"\n" ++
    "axes = [[\"bool\", \"b\"]]\n"
  object := SmallObject.bytes

theorem small_selects_own_body :
    ∃ m family variant, small.compile (fun _ => none) none = .ok m ∧
      m.family? "f" = some family ∧ family.variants.map (·.tuple) = [[0], [1]] ∧
      family.find? [1] = some variant ∧ variant.tuple = [1] ∧ variant.code.symbol = "f_true" ∧
      ∀ name flaw, small.compile (fun _ => none) none ≠
        Outcome.fail (.index (.unverified name flaw)) := by
  have evaluated : (do
      let _ ← (small.compile (fun _ => none) none).toOption
      let manifest ← (Manifest.parse small.origin small.manifest).toOption
      let decl ← manifest.families.head?
      return decide (manifest.families = [decl] ∧ decl.name = "f" ∧
        decl.enumerated.toOption = some [[0], [1]] ∧
        (decl.bodySymbol [1]).toOption = some "f_true")) = some true := by decide +kernel
  simp only [Option.bind_eq_bind, Option.bind_eq_some_iff, Outcome.toOption_eq_some] at evaluated
  obtain ⟨m, compiled, manifest, parsed, decl, _, facts⟩ := evaluated
  obtain ⟨families, name, enumerated, body⟩ := of_decide_eq_true (Option.some.inj facts)
  obtain ⟨selection, _, _, _, verified, _⟩ := compile_selects_own_body small (fun _ => none) none
  obtain ⟨_, _, _, parsed', _, _, serves⟩ := selection m compiled
  obtain rfl := Except.ok.inj (parsed.symm.trans parsed')
  obtain ⟨family, tuples, found, served⟩ :=
    serves decl (by rw [families]; exact List.mem_singleton_self decl)
  obtain rfl := Except.ok.inj (enumerated.symm.trans served.enumerated)
  obtain ⟨symbol, variant, own, selected, tuple, _, code⟩ := served.selects [1] (by decide)
  obtain rfl := Except.ok.inj (body.symm.trans own)
  refine ⟨m, family, variant, compiled, name ▸ found, served.order, selected, tuple, code,
    verified ?_⟩
  intro other decl' tuples parsed'' member enumerated'
  obtain rfl := Except.ok.inj (parsed.symm.trans parsed'')
  rw [families, List.mem_singleton] at member
  subst member
  obtain rfl := Except.ok.inj (enumerated.symm.trans enumerated')
  decide

end ModuleSource

end CopyPatch
