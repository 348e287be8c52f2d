import CopyPatch.Proofs.Extraction.Packing
import CopyPatch.Proofs.Extraction.Sections
import CopyPatch.Proofs.Extraction.Tables

/-! An extracted variant against the stretch of the object it was cut from. Every relocation of the
stretch has its fixup and every fixup its relocation; the field of the fixup holds the constant
part, its packed position leads to the value that the placeholder names, and all other bytes are
those of the section, followed by padding. -/
namespace CopyPatch

open Bytes (Field)

namespace Object

/-- The relocations that apply to a stretch of a section. -/
def Section.relocationsIn (s : Section) (start stop : Nat) : List Relocation :=
  s.applied.filter fun r => Extraction.inRange start stop r.offset

theorem Section.le_of_mem_relocationsIn {s : Section} {start stop : Nat} {r : Relocation}
    (member : r ∈ s.relocationsIn start stop) : start ≤ r.offset := by
  have within := (List.mem_filter.mp member).2
  rw [Extraction.inRange, Bool.and_eq_true, decide_eq_true_eq] at within
  exact within.1

/-- The fields that those relocations patch, counted from the beginning of the stretch. -/
def Section.fieldsIn (s : Section) (start stop : Nat) : List Field :=
  (s.relocationsIn start stop).filterMap fun r => Extraction.fieldOf? start r.offset r.type

/-- The addend of a relocation: its own, or the signed number that stands in its field. -/
def Relocation.addendIn (r : Relocation) (data : Bytes) (width : Nat) : Int :=
  r.addend.getD (Bytes.signed width (Field.read ⟨r.offset, width⟩ data))

end Object

/-- A relocation points to the open name of a placeholder. -/
def ObjectFile.Names (file : ObjectFile) (r : Object.Relocation) (c : SymbolClass) (k : UInt32) :
    Prop :=
  r.symbol ≠ 0 ∧ ∃ symbol name, file.symbols[r.symbol]? = some symbol ∧ symbol.name = some name ∧
    symbol.place = .undefined ∧ Placeholder.parse name = .ok (some (c, k))

theorem ObjectFile.Names.unique {file : ObjectFile} {r : Object.Relocation} {c d : SymbolClass}
    {k l : UInt32} (first : file.Names r c k) (second : file.Names r d l) : c = d ∧ k = l := by
  obtain ⟨_, symbol, name, found, named, _, parsed⟩ := first
  obtain ⟨_, other, otherName, otherFound, otherNamed, _, otherParsed⟩ := second
  obtain rfl : symbol = other := Option.some.inj (found.symm.trans otherFound)
  obtain rfl : name = otherName := Option.some.inj (named.symm.trans otherNamed)
  have same := Option.some.inj (Except.ok.inj (parsed.symm.trans otherParsed))
  exact Prod.mk.inj same

/-- The value that a call site supplies for the placeholder of a relocation. -/
def ObjectFile.Supplies (file : ObjectFile) (values : FixupValues) (r : Object.Relocation)
    (v : UInt64) : Prop :=
  ∃ c k, file.Names r c k ∧ (values.ofClass c)[k.toNat]? = some v

namespace Padding

/-- Padding consists of whole instructions without effect. -/
theorem fill_eq_flatten (missing : Nat) :
    ∃ pieces : List Bytes, (∀ piece ∈ pieces, piece ∈ nops) ∧ fill missing = pieces.flatten := by
  fun_induction fill missing with
  | case1 => exact ⟨[], fun _ member => (nomatch member), rfl⟩
  | case2 missing positive n ih =>
    obtain ⟨pieces, allowed, rest⟩ := ih
    have inside : n - 1 < nops.length := by
      have : nops.length = 9 := rfl
      omega
    refine ⟨nops[n - 1] :: pieces, List.forall_mem_cons.mpr ⟨List.getElem_mem inside, allowed⟩, ?_⟩
    rw [List.getElem?_eq_getElem inside, rest]
    rfl

end Padding

namespace Extraction

theorem targeted_eq_some {file : ObjectFile} {r : Object.Relocation} {t : TargetedRelocation}
    (h : targeted file r = some t) :
    t.offset = r.offset ∧ t.type = r.type ∧ t.addend = r.addend ∧
      targetOf file r = some t.target := by
  obtain ⟨target, found, rfl⟩ := Option.map_eq_some_iff.mp h
  exact ⟨rfl, rfl, rfl, found⟩

theorem names_of_targetOf {file : ObjectFile} {r : Object.Relocation} {name : String}
    {c : SymbolClass} {k : UInt32} (h : targetOf file r = some (.name name))
    (parsed : Placeholder.parse name = .ok (some (c, k))) : file.Names r c k := by
  unfold targetOf at h
  split at h
  · cases h
  · rename_i named
    obtain ⟨symbol, found, h⟩ := Option.bind_eq_some_iff.mp h
    obtain ⟨text, hname, h⟩ := Option.bind_eq_some_iff.mp h
    split at h
    · cases h
    · rename_i opened
      cases h
      have facts : name ≠ "" ∧ symbol.place = .undefined := by simpa using opened
      exact ⟨named, symbol, name, found, hname, facts.2, parsed⟩

/-- The relocations of a stretch, as the file has them and with their targets, agree. -/
theorem forall₂_inRange {file : ObjectFile} (start stop : Nat)
    {relocations : List Object.Relocation} {targets : List TargetedRelocation}
    (h : List.Forall₂ (fun r t => targeted file r = some t) relocations targets) :
    List.Forall₂ (fun r t => targeted file r = some t)
      (relocations.filter fun r => inRange start stop r.offset)
      (targets.filter fun t => inRange start stop t.offset) := by
  induction h with
  | nil => exact .nil
  | @cons r t _ _ found _ ih =>
    have offset := (targeted_eq_some found).1
    by_cases within : inRange start stop r.offset = true
    · rw [List.filter_cons, List.filter_cons, offset, if_pos within, if_pos within]
      exact .cons found ih
    · rw [List.filter_cons, List.filter_cons, offset, if_neg within, if_neg within]
      exact ih

theorem filterMap_targeted {file : ObjectFile} {start : Nat}
    {relocations : List Object.Relocation} {targets : List TargetedRelocation}
    (h : List.Forall₂ (fun r t => targeted file r = some t) relocations targets) :
    targets.filterMap (fun t => fieldOf? start t.offset t.type) =
      relocations.filterMap fun r => fieldOf? start r.offset r.type := by
  induction h with
  | nil => rfl
  | cons found _ ih =>
    obtain ⟨offset, type, _, _⟩ := targeted_eq_some found
    simp only [List.filterMap_cons, offset, type, ih]

/-- How a fixup of an extracted variant stands for a relocation of its section. -/
structure StandsFor (file : ObjectFile) (data : Bytes) (start : Nat) (extracted : ExtractedCode)
    (r : Object.Relocation) (g : FixupRecord) : Prop where
  kind : Extractor.kindOf? r.type = some g.kind
  offset : g.offset.toNat = r.offset - start
  held : g.field.read extracted.code =
    Bytes.residue g.kind.width (g.constant (r.addendIn data g.kind.width))
  fits : g.kind ≠ .absolute64 → -2 ^ 31 ≤ g.constant (r.addendIn data g.kind.width) ∧
    g.constant (r.addendIn data g.kind.width) < 2 ^ 31
  value : g.kind ≠ .threadLocalOffset32 → ∀ values packed,
    FixupValues.pack values extracted.toBlueprint = .ok packed →
    ∃ v, file.Supplies values r v ∧ packed[g.ordinal.toNat]? = some v

theorem PackedFrom.field {counts : FixupCounts} {f g : FixupRecord} (h : PackedFrom counts f g) :
    g.field = f.field := by
  rw [FixupRecord.field, h.offset, h.kind]
  rfl

theorem BakedFrom.inside_stretch {start stop : Nat} {data baked : Bytes} {t : TargetedRelocation}
    {f : FixupRecord} (h : BakedFrom start ((data.drop start).take (stop - start)) baked t f) :
    f.field.offset + f.field.width ≤ stop - start := by
  have within := h.inside
  rw [List.length_take, List.length_drop] at within
  omega

theorem standsFor {file : ObjectFile} {data baked : Bytes} {start stop : Nat} {symbol : String}
    {counts : FixupCounts} {fixups sorted : List FixupRecord} {unpaddedLen : UInt32}
    (counted : countsOf fixups = .ok counts)
    (length : baked.length = stop - start)
    {r : Object.Relocation} {t : TargetedRelocation} {f g : FixupRecord} (low : start ≤ r.offset)
    (target : targeted file r = some t) (member : f ∈ fixups)
    (made : BakedFrom start ((data.drop start).take (stop - start)) baked t f)
    (packed : PackedFrom counts f g) :
    StandsFor file data start
      (assemble symbol (Padding.pad baked) unpaddedLen counts sorted) r g := by
  obtain ⟨hoffset, htype, haddend, htarget⟩ := targeted_eq_some target
  have constant : g.constant = f.constant := by
    funext addend
    rw [FixupRecord.constant, FixupRecord.constant, packed.offset, packed.kind]
  have inside := made.inside_stretch
  have addend : addendIn ((data.drop start).take (stop - start)) t.addend f =
      r.addendIn data f.kind.width := by
    have position : start + f.field.offset = r.offset := by
      show start + f.offset.toNat = r.offset
      rw [made.offset, hoffset]
      omega
    rw [addendIn, Object.Relocation.addendIn, haddend, Field.read_slice inside, position]
    rfl
  refine ⟨?_, ?_, ?_, ?_, ?_⟩
  · rw [packed.kind, ← htype]
    exact made.kind
  · rw [packed.offset, made.offset, hoffset]
  · show g.field.read (baked ++ _) = _
    rw [packed.field, constant, packed.kind, Field.read_append _ (length ▸ inside), made.held,
      addend]
  · rw [packed.kind, constant, ← addend]
    exact made.fits
  · intro supplied values laid pack
    have notBase : f.symbolClass ≠ .threadLocalBase :=
      fun no => supplied (packed.kind.trans (made.threadLocal.mpr no))
    obtain ⟨name, named, parsed⟩ := made.placeholder
    obtain ⟨base, hbase, ordinal⟩ := packed.ordinal notBase
    obtain ⟨v, own, there⟩ := FixupValues.pack_getElem? pack hbase
      (ordinal_lt_count counted member notBase)
    refine ⟨v, ⟨_, _, names_of_targetOf (named ▸ htarget) parsed, own⟩, ?_⟩
    rw [ordinal, there]

/-- An extracted variant against the stretch of the section it was cut from. -/
structure Faithful (file : ObjectFile) (home : Object.Section) (data : Bytes) (start stop : Nat)
    (extracted : ExtractedCode) : Prop where
  tables : extracted = assemble extracted.symbol extracted.code extracted.unpaddedLen
    extracted.counts extracted.fixups
  unpadded : extracted.unpaddedLen.toNat = stop - start
  length : stop - start ≤ extracted.code.length
  fields : (extracted.fixups.map FixupRecord.field).Perm (home.fieldsIn start stop)
  inside : ∀ g ∈ extracted.fixups, g.field.offset + g.field.width ≤ stop - start
  fixup : ∀ r ∈ home.relocationsIn start stop, ∃ g ∈ extracted.fixups,
    StandsFor file data start extracted r g
  relocation : ∀ g ∈ extracted.fixups, ∃ r ∈ home.relocationsIn start stop,
    StandsFor file data start extracted r g
  own : ∀ i < stop - start, (∀ f ∈ home.fieldsIn start stop, ¬ f.Covers i) →
    extracted.code[i]? = data[start + i]?
  padding : ∃ pieces : List Bytes, (∀ piece ∈ pieces, piece ∈ Padding.nops) ∧
    extracted.code.drop (stop - start) = pieces.flatten

theorem faithful_of_finish {file : ObjectFile} {home : Object.Section} {data baked : Bytes}
    {start stop : Nat} {targets : List TargetedRelocation} {fixups : List FixupRecord}
    {symbol : String} {extracted : ExtractedCode}
    (short : stop - start < 2 ^ 32)
    (found : List.Forall₂ (fun r t => targeted file r = some t)
      (home.relocationsIn start stop) targets)
    (made : List.Forall₂ (BakedFrom start ((data.drop start).take (stop - start)) baked)
      targets fixups)
    (length : baked.length = stop - start)
    (outside : ∀ i, (∀ f ∈ fixups, ¬ f.field.Covers i) →
      baked[i]? = ((data.drop start).take (stop - start))[i]?)
    (finished : finish symbol baked fixups = .ok extracted) :
    Faithful file home data start stop extracted := by
  obtain ⟨counts, packed, counted, hpacked, rfl⟩ := finish_eq_ok finished
  have packings := (Outcome.mapM_eq_ok.mp hpacked).imp fun _ _ => packOrdinal_eq_ok
  have sorted := List.mergeSort_perm packed fun a b => a.offset ≤ b.offset
  have fields : fixups.map FixupRecord.field = home.fieldsIn start stop := by
    rw [← fields_eq (made.imp fun _ _ h => h.toMadeFrom), filterMap_targeted found]
    rfl
  have low : ∀ r ∈ home.relocationsIn start stop, start ≤ r.offset :=
    fun r member => Object.Section.le_of_mem_relocationsIn member
  refine ⟨rfl, ?_, ?_, ?_, ?_, ?_, ?_, ?_, ?_⟩
  · show (UInt32.ofNat baked.length).toNat = stop - start
    rw [length, UInt32.toNat_ofNat_of_lt' short]
  · show stop - start ≤ (baked ++ _).length
    rw [List.length_append, length]
    exact Nat.le_add_right _ _
  · rw [← fields, map_eq_of_forall₂ (packings.imp fun _ _ h => h.field.symm)]
    exact sorted.map FixupRecord.field
  · intro g member
    obtain ⟨f, hf, packing⟩ := exists_left packings (sorted.mem_iff.mp member)
    obtain ⟨_, _, baking⟩ := exists_left made hf
    rw [packing.field]
    exact baking.inside_stretch
  · intro r member
    obtain ⟨t, ht, target⟩ := exists_right found member
    obtain ⟨f, hf, baking⟩ := exists_right made ht
    obtain ⟨g, hg, packing⟩ := exists_right packings hf
    exact ⟨g, sorted.mem_iff.mpr hg,
      standsFor counted length (low r member) target hf baking packing⟩
  · intro g member
    obtain ⟨f, hf, packing⟩ := exists_left packings (sorted.mem_iff.mp member)
    obtain ⟨t, ht, baking⟩ := exists_left made hf
    obtain ⟨r, hr, target⟩ := exists_left found ht
    exact ⟨r, hr, standsFor counted length (low r hr) target hf baking packing⟩
  · intro i small free
    show (baked ++ _)[i]? = data[start + i]?
    rw [List.getElem?_append_left (length ▸ small), outside i, List.getElem?_take_of_lt small,
      List.getElem?_drop]
    exact fun f member => free _ (fields ▸ List.mem_map_of_mem member)
  · obtain ⟨pieces, allowed, filled⟩ := Padding.fill_eq_flatten (Padding.missing baked.length)
    refine ⟨pieces, allowed, ?_⟩
    show (baked ++ Padding.fill (Padding.missing baked.length)).drop (stop - start) = _
    rw [List.drop_left' length, filled]

end Extraction

/-- What extraction gives is faithful to the object, as long as the stretch is short enough for
its offsets and no two fields overlap. -/
theorem Extractor.extract_faithful {moduleName : String} {file : ObjectFile} {e : Extractor}
    (numbered : file.Numbered) (opened : ofFile moduleName file = .ok e) {symbol : String}
    {extracted : ExtractedCode} (h : e.extract symbol = .ok extracted) :
    ∃ home data start stop,
      file.sectionNamed? (".text." ++ symbol) = some home ∧ home.data = some data ∧
      e.range symbol home data.length = .ok (start, stop) ∧ start ≤ stop ∧ stop ≤ data.length ∧
      (stop - start < 2 ^ 32 → (home.fieldsIn start stop).Pairwise Field.Apart →
        Extraction.Faithful file home data start stop extracted) := by
  obtain ⟨home, data, start, stop, baked, fixups, located, hdata, hrange, order, bound, hbake,
    finished⟩ := extract_eq_ok h
  rw [(ofFile_eq_ok opened).1] at located
  refine ⟨home, data, start, stop, located, hdata, hrange, order, bound, fun short apart => ?_⟩
  have found := Extraction.forall₂_inRange start stop
    (relocationsOf_section numbered opened (List.mem_of_find?_eq_some located))
  have cut : ((data.drop start).take (stop - start)).length = stop - start := by
    rw [List.length_take, List.length_drop]
    omega
  obtain ⟨made, length, outside⟩ := bakeAll_eq_ok short
    (by rw [Extraction.filterMap_targeted found]; exact apart) hbake
  exact Extraction.faithful_of_finish short found made (length.trans cut) outside finished

end CopyPatch
