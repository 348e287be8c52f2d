import CopyPatch.Proofs.Extraction.Fidelity
import Mathlib.Data.List.Pairwise

/-! Linking. Extraction at build time and patching at run time together compute what a linker would:
every field of a copy holds the value its relocation asks for at the address of the copy, and all
other bytes are those of the object. A copy is refused exactly when a self-relative target is out
of reach. -/
namespace CopyPatch

open Bytes (Field)

/-- What a self-relative field holds, on the residues that baking and patching leave. -/
theorem signed_selfRelative {constant : Int} {value address : Nat}
    (low : -2 ^ 31 ≤ constant + value - address) (high : constant + value - address < 2 ^ 31) :
    Bytes.signed 4 ((Bytes.residue 4 constant +
      (value + Bytes.residue 4 (-(address : Int)))) % 256 ^ 4) = constant + value - address := by
  refine Bytes.signed_eq (by decide) low high ?_
  have first := Bytes.cast_residue 4 constant
  have second := Bytes.cast_residue 4 (-(address : Int))
  omega

theorem cast_absolute (addend : Int) (value : Nat) :
    (((Bytes.residue 8 addend + value) % 256 ^ 8 : Nat) : Int) = (value + addend) % 2 ^ 64 := by
  have first := Bytes.cast_residue 8 addend
  omega

theorem cast_threadLocal (addend base : Int) :
    (((Bytes.residue 4 addend + Bytes.residue 4 base) % 256 ^ 4 : Nat) : Int) =
      (addend + base) % 2 ^ 32 := by
  have first := Bytes.cast_residue 4 addend
  have second := Bytes.cast_residue 4 base
  omega

theorem ObjectFile.Supplies.unique {file : ObjectFile} {values : FixupValues}
    {r : Object.Relocation} {v w : UInt64} (first : file.Supplies values r v)
    (second : file.Supplies values r w) : v = w := by
  obtain ⟨c, k, named, given⟩ := first
  obtain ⟨d, l, otherNamed, otherGiven⟩ := second
  obtain ⟨rfl, rfl⟩ := named.unique otherNamed
  exact Option.some.inj (given.symm.trans otherGiven)

/-- The displacement that a self-relative relocation asks for in a copy at `address`: from the field
to the target, with the addend. -/
def Object.Relocation.displacement (r : Object.Relocation) (data : Bytes) (start : Nat)
    (v address : UInt64) : Int :=
  v.toNat + r.addendIn data 4 - (address.toNat + (r.offset - start : Nat))

/-- A self-relative relocation whose displacement fits in its field. -/
def ObjectFile.WithinReach (file : ObjectFile) (data : Bytes) (start : Nat) (values : FixupValues)
    (address : UInt64) (r : Object.Relocation) : Prop :=
  ∃ v, file.Supplies values r v ∧ -2 ^ 31 ≤ r.displacement data start v address ∧
    r.displacement data start v address < 2 ^ 31

/-- The code of a stretch of a section as a linker leaves it at `address`, padded. -/
structure Linked (file : ObjectFile) (home : Object.Section) (data : Bytes) (start stop : Nat)
    (values : FixupValues) (address : UInt64) (base : Option Int32) (code : Bytes) : Prop where
  selfRelative : ∀ r ∈ home.relocationsIn start stop, r.type = 4 →
    ∃ v, file.Supplies values r v ∧
      Bytes.signed 4 (Field.read ⟨r.offset - start, 4⟩ code) = r.displacement data start v address
  absolute : ∀ r ∈ home.relocationsIn start stop, r.type = 1 →
    ∃ v, file.Supplies values r v ∧
      (Field.read ⟨r.offset - start, 8⟩ code : Int) = (v.toNat + r.addendIn data 8) % 2 ^ 64
  threadLocal : ∀ r ∈ home.relocationsIn start stop, r.type = 23 →
    ∃ offset, base = some offset ∧
      (Field.read ⟨r.offset - start, 4⟩ code : Int) = (r.addendIn data 4 + offset.toInt) % 2 ^ 32
  supported : ∀ r ∈ home.relocationsIn start stop, r.type = 4 ∨ r.type = 1 ∨ r.type = 23
  own : ∀ i < stop - start, (∀ f ∈ home.fieldsIn start stop, ¬ f.Covers i) →
    code[i]? = data[start + i]?
  padding : ∃ pieces : List Bytes, (∀ piece ∈ pieces, piece ∈ Padding.nops) ∧
    code.drop (stop - start) = pieces.flatten

theorem Extractor.type_of_kindOf? {type : Nat} {kind : RelocationKind}
    (h : kindOf? type = some kind) :
    type = 4 ∧ kind = .selfRelative32 ∨ type = 1 ∧ kind = .absolute64 ∨
      type = 23 ∧ kind = .threadLocalOffset32 := by
  unfold kindOf? at h
  split at h
  · cases h; exact Or.inr (Or.inl ⟨rfl, rfl⟩)
  · cases h; exact Or.inl ⟨rfl, rfl⟩
  · cases h; exact Or.inr (Or.inr ⟨rfl, rfl⟩)
  · cases h

namespace Blueprint

theorem precheck_eq_ok {b : Blueprint} {site : Site}
    (counted : b.valueCount = .ok site.values.length) (available : Nat) :
    precheck b site available = .ok () ↔ b.code.length ≤ available ∧
      (b.needsThreadLocalBase = true → site.threadLocalBase.isSome = true) := by
  rw [precheck_eq counted]
  split
  · rename_i small
    constructor
    · intro h; cases h
    · exact fun h => absurd h.1 (Nat.not_le.mpr small)
  · rename_i large
    rw [if_neg (not_not.mpr rfl)]
    split
    · rename_i missing
      constructor
      · intro h; cases h
      · intro h
        have installed := h.2 missing.1
        rw [Option.isNone_iff_eq_none.mp missing.2] at installed
        cases installed
    · rename_i present
      refine ⟨fun _ => ⟨Nat.le_of_not_lt large, fun needs => ?_⟩, fun _ => rfl⟩
      rw [Option.isSome_iff_ne_none]
      exact fun none => present ⟨needs, Option.isNone_iff_eq_none.mpr none⟩

theorem specialize_of_refused {b : Blueprint} {site : Site} {destination : Bytes}
    {cause : Failure PatchError} (refused : precheck b site destination.length = .error cause) :
    (specialize b site destination).2 = .error cause := by
  rw [specialize, patch, refused]

/-- A copy that fits writes what its patches make of the code. -/
theorem specialize_of_precheck {b : Blueprint} {site : Site} {destination : Bytes}
    (checked : precheck b site destination.length = .ok ()) :
    specialize b site destination = (destination.splice 0 (applySteps (steps b site) b.code).1,
      (applySteps (steps b site) b.code).2.map fun _ => b.code.length) := by
  rw [specialize, patch, checked]

end Blueprint

namespace Extraction

section Copies

variable {file : ObjectFile} {home : Object.Section} {data : Bytes} {start stop : Nat}
  {extracted : ExtractedCode} {values : FixupValues} {site : Site}

namespace StandsFor

variable {r : Object.Relocation} {g : FixupRecord}
  (stands : StandsFor file data start extracted r g)

include stands

theorem field : g.field = ⟨r.offset - start, g.kind.width⟩ := by
  rw [FixupRecord.field, stands.offset]

theorem kind_eq {kind : RelocationKind} (known : Extractor.kindOf? r.type = some kind) :
    g.kind = kind :=
  Option.some.inj (stands.kind.symm.trans known)

/-- The packed position of a fixup is among the values of the call site. -/
theorem ordinal_lt (pack : values.pack extracted.toBlueprint = .ok site.values)
    (supplied : g.kind ≠ .threadLocalOffset32) : g.ordinal.toNat < site.values.length := by
  obtain ⟨_, _, there⟩ := stands.value supplied values site.values pack
  exact (List.getElem?_eq_some_iff.mp there).1

theorem amountAt_eq (pack : values.pack extracted.toBlueprint = .ok site.values)
    (supplied : g.kind ≠ .threadLocalOffset32) :
    ∃ v, file.Supplies values r v ∧ Blueprint.amountAt site g.ordinal = v.toNat := by
  obtain ⟨v, own, there⟩ := stands.value supplied values site.values pack
  refine ⟨v, own, ?_⟩
  rw [Blueprint.amountAt, there]
  rfl

theorem constant_selfRelative (kind : g.kind = .selfRelative32) :
    g.constant (r.addendIn data g.kind.width) = r.addendIn data 4 - (r.offset - start : Nat) := by
  rw [FixupRecord.constant, kind, stands.offset]
  rfl

theorem displacement_eq (kind : g.kind = .selfRelative32) {v : UInt64}
    (amount : Blueprint.amountAt site g.ordinal = v.toNat) :
    g.displacement site extracted.code = r.displacement data start v site.address := by
  have fits := stands.fits (by rw [kind]; decide)
  have held : Bytes.signed 4 (g.field.read extracted.code) =
      g.constant (r.addendIn data g.kind.width) := by
    refine Bytes.signed_eq (by decide) fits.1 fits.2 ?_
    rw [stands.held, Bytes.cast_residue, kind]
    rfl
  rw [FixupRecord.displacement, held, stands.constant_selfRelative kind, amount,
    Object.Relocation.displacement]
  omega

/-- A fixup reaches its target exactly when its relocation does. -/
theorem reaches_iff (kind : g.kind = .selfRelative32)
    (pack : values.pack extracted.toBlueprint = .ok site.values) :
    g.Reaches site extracted.code ↔ file.WithinReach data start values site.address r := by
  obtain ⟨v, own, amount⟩ := stands.amountAt_eq pack (by rw [kind]; decide)
  rw [FixupRecord.Reaches, stands.displacement_eq kind amount, ObjectFile.WithinReach]
  constructor
  · exact fun fits => ⟨v, own, fits⟩
  · rintro ⟨w, other, fits⟩
    rwa [own.unique other]

end StandsFor

/-- The bytes of a copy when every guard has passed. -/
def copyOf (extracted : ExtractedCode) (site : Site) : Bytes :=
  Patch.applyAll ((extracted.actions site).map (·.patch)) extracted.code

namespace Faithful

variable (faithful : Faithful file home data start stop extracted)

include faithful

theorem field_of_patch {p : Patch}
    (member : p ∈ (extracted.actions site).map (·.patch)) :
    ∃ g ∈ extracted.fixups, p.field = g.field := by
  rw [faithful.tables] at member
  exact mem_patches_assemble member

theorem patches_inside :
    ∀ p ∈ (extracted.actions site).map (·.patch), p.Inside extracted.code := by
  intro p member
  obtain ⟨g, hg, field⟩ := faithful.field_of_patch member
  rw [Patch.Inside, field]
  exact Nat.le_trans (faithful.inside g hg) faithful.length

/-- The field of a fixup in a copy. -/
theorem read_copyOf (apart : (home.fieldsIn start stop).Pairwise Field.Apart)
    {g : FixupRecord} (member : g ∈ extracted.fixups) :
    g.field.read (copyOf extracted site) =
      (g.field.read extracted.code + g.added site) % 256 ^ g.kind.width := by
  have fixupsApart : (extracted.fixups.map FixupRecord.field).Pairwise Field.Apart :=
    (faithful.fields.pairwise_iff fun h => h.symm).mpr apart
  have total : Patch.addedTo g.field ((extracted.actions site).map (·.patch)) = g.added site := by
    rw [faithful.tables]
    exact addedTo_assemble fixupsApart member
  rw [copyOf, Patch.read_applyAll faithful.patches_inside, total]
  · rfl
  · intro p hp other
    obtain ⟨f, hf, field⟩ := faithful.field_of_patch hp
    rw [field] at other ⊢
    exact fixupsApart.forall (List.mem_map_of_mem hf) (List.mem_map_of_mem member) other

theorem getElem?_copyOf {i : Nat}
    (free : ∀ f ∈ home.fieldsIn start stop, ¬ f.Covers i) :
    (copyOf extracted site)[i]? = extracted.code[i]? := by
  refine Patch.getElem?_applyAll faithful.patches_inside fun p hp => ?_
  obtain ⟨g, hg, field⟩ := faithful.field_of_patch hp
  rw [field]
  exact free _ (faithful.fields.mem_iff.mp (List.mem_map_of_mem hg))

theorem drop_copyOf :
    (copyOf extracted site).drop (stop - start) = extracted.code.drop (stop - start) := by
  refine List.ext_getElem? fun i => ?_
  rw [List.getElem?_drop, List.getElem?_drop]
  refine faithful.getElem?_copyOf fun f member covered => ?_
  obtain ⟨g, hg, rfl⟩ := List.mem_map.mp (faithful.fields.mem_iff.mpr member)
  have inside := faithful.inside g hg
  unfold Field.Covers at covered
  omega

theorem read_relocation (apart : (home.fieldsIn start stop).Pairwise Field.Apart)
    {r : Object.Relocation} {g : FixupRecord} (member : g ∈ extracted.fixups)
    (stands : StandsFor file data start extracted r g) {kind : RelocationKind}
    (known : g.kind = kind) :
    Field.read ⟨r.offset - start, kind.width⟩ (copyOf extracted site) =
      (Bytes.residue kind.width (g.constant (r.addendIn data kind.width)) + g.added site) %
        256 ^ kind.width := by
  subst known
  rw [← stands.field, faithful.read_copyOf apart member, stands.held]

theorem read_selfRelative (apart : (home.fieldsIn start stop).Pairwise Field.Apart)
    (pack : values.pack extracted.toBlueprint = .ok site.values) {r : Object.Relocation}
    {g : FixupRecord} (member : g ∈ extracted.fixups)
    (stands : StandsFor file data start extracted r g) (kind : g.kind = .selfRelative32)
    (reach : g.Reaches site extracted.code) :
    ∃ v, file.Supplies values r v ∧
      Bytes.signed 4 (Field.read ⟨r.offset - start, 4⟩ (copyOf extracted site)) =
        r.displacement data start v site.address := by
  obtain ⟨v, own, amount⟩ := stands.amountAt_eq pack (by rw [kind]; decide)
  have read : Field.read ⟨r.offset - start, 4⟩ (copyOf extracted site) = _ :=
    faithful.read_relocation apart member stands kind
  have constant := stands.constant_selfRelative kind
  rw [kind] at constant
  have sum : (r.addendIn data 4 - (r.offset - start : Nat)) + v.toNat - site.address.toNat =
      r.displacement data start v site.address := by
    rw [Object.Relocation.displacement]
    omega
  rw [FixupRecord.Reaches, stands.displacement_eq kind amount, ← sum] at reach
  refine ⟨v, own, ?_⟩
  rw [read, constant, FixupRecord.added, kind, amount, ← sum]
  exact signed_selfRelative reach.1 reach.2

theorem read_absolute (apart : (home.fieldsIn start stop).Pairwise Field.Apart)
    (pack : values.pack extracted.toBlueprint = .ok site.values) {r : Object.Relocation}
    {g : FixupRecord} (member : g ∈ extracted.fixups)
    (stands : StandsFor file data start extracted r g) (kind : g.kind = .absolute64) :
    ∃ v, file.Supplies values r v ∧
      (Field.read ⟨r.offset - start, 8⟩ (copyOf extracted site) : Int) =
        (v.toNat + r.addendIn data 8) % 2 ^ 64 := by
  obtain ⟨v, own, amount⟩ := stands.amountAt_eq pack (by rw [kind]; decide)
  have read : Field.read ⟨r.offset - start, 8⟩ (copyOf extracted site) = _ :=
    faithful.read_relocation apart member stands kind
  refine ⟨v, own, ?_⟩
  rw [read, FixupRecord.constant, FixupRecord.added, kind, amount]
  exact cast_absolute _ _

theorem read_threadLocal (apart : (home.fieldsIn start stop).Pairwise Field.Apart)
    (installed : extracted.needsThreadLocalBase = true → site.threadLocalBase.isSome = true)
    {r : Object.Relocation} {g : FixupRecord} (member : g ∈ extracted.fixups)
    (stands : StandsFor file data start extracted r g) (kind : g.kind = .threadLocalOffset32) :
    ∃ offset, site.threadLocalBase = some offset ∧
      (Field.read ⟨r.offset - start, 4⟩ (copyOf extracted site) : Int) =
        (r.addendIn data 4 + offset.toInt) % 2 ^ 32 := by
  have listed : g.offset ∈ extracted.threadLocal32 := by
    rw [faithful.tables]
    exact List.mem_map.mpr ⟨g, List.mem_filter.mpr ⟨member, decide_eq_true kind⟩, rfl⟩
  have needs : extracted.needsThreadLocalBase = true := by
    rw [Blueprint.needsThreadLocalBase, Bool.not_eq_true', List.isEmpty_eq_false_iff]
    exact List.ne_nil_of_mem listed
  obtain ⟨offset, given⟩ := Option.isSome_iff_exists.mp (installed needs)
  have read : Field.read ⟨r.offset - start, 4⟩ (copyOf extracted site) = _ :=
    faithful.read_relocation apart member stands kind
  refine ⟨offset, given, ?_⟩
  rw [read, FixupRecord.constant, FixupRecord.added, kind, given]
  exact cast_threadLocal _ _

/-- A copy whose self-relative targets are all within reach is linked. -/
theorem linked_copyOf (apart : (home.fieldsIn start stop).Pairwise Field.Apart)
    (pack : values.pack extracted.toBlueprint = .ok site.values)
    (installed : extracted.needsThreadLocalBase = true → site.threadLocalBase.isSome = true)
    (reach : ∀ g ∈ extracted.fixups, g.kind = .selfRelative32 →
      g.Reaches site extracted.code) :
    Linked file home data start stop values site.address site.threadLocalBase
      (copyOf extracted site) := by
  refine ⟨?_, ?_, ?_, ?_, ?_, ?_⟩
  · intro r hr type
    obtain ⟨g, hg, stands⟩ := faithful.fixup r hr
    have kind : g.kind = .selfRelative32 := stands.kind_eq (by rw [type]; rfl)
    exact faithful.read_selfRelative apart pack hg stands kind (reach g hg kind)
  · intro r hr type
    obtain ⟨g, hg, stands⟩ := faithful.fixup r hr
    exact faithful.read_absolute apart pack hg stands (stands.kind_eq (by rw [type]; rfl))
  · intro r hr type
    obtain ⟨g, hg, stands⟩ := faithful.fixup r hr
    exact faithful.read_threadLocal apart installed hg stands (stands.kind_eq (by rw [type]; rfl))
  · intro r hr
    obtain ⟨g, _, stands⟩ := faithful.fixup r hr
    rcases Extractor.type_of_kindOf? stands.kind with ⟨type, _⟩ | ⟨type, _⟩ | ⟨type, _⟩
    · exact Or.inl type
    · exact Or.inr (Or.inl type)
    · exact Or.inr (Or.inr type)
  · intro i small free
    rw [faithful.getElem?_copyOf free, faithful.own i small free]
  · rw [faithful.drop_copyOf]
    exact faithful.padding

/-- Patching succeeds if every self-relative relocation is within reach, and otherwise reports one
that is not. -/
theorem applySteps_cases (pack : values.pack extracted.toBlueprint = .ok site.values) :
    ((∀ r ∈ home.relocationsIn start stop, r.type = 4 →
        file.WithinReach data start values site.address r) ∧
      (∀ g ∈ extracted.fixups, g.kind = .selfRelative32 → g.Reaches site extracted.code) ∧
      Blueprint.applySteps (extracted.steps site) extracted.code =
        (copyOf extracted site, .ok ())) ∨
    ∃ r ∈ home.relocationsIn start stop, r.type = 4 ∧
      ¬ file.WithinReach data start values site.address r ∧
      (Blueprint.applySteps (extracted.steps site) extracted.code).2 =
        Outcome.fail (.displacementOutOfRange extracted.symbol
          (UInt32.ofNat (r.offset - start))) := by
  have inside : ∀ g ∈ extracted.fixups,
      g.field.offset + g.field.width ≤ extracted.code.length :=
    fun g member => Nat.le_trans (faithful.inside g member) faithful.length
  have given : ∀ g ∈ extracted.fixups, g.kind ≠ .threadLocalOffset32 →
      g.ordinal.toNat < site.values.length := by
    intro g member supplied
    obtain ⟨r, _, stands⟩ := faithful.relocation g member
    exact stands.ordinal_lt pack supplied
  have cases := @applySteps_assemble extracted.symbol extracted.code extracted.unpaddedLen
    extracted.counts extracted.fixups site inside given
  rw [← faithful.tables] at cases
  rcases cases with ⟨reach, done⟩ | ⟨g, member, kind, out, outcome⟩
  · refine Or.inl ⟨fun r hr type => ?_, reach, done⟩
    obtain ⟨g, member, stands⟩ := faithful.fixup r hr
    have kind : g.kind = .selfRelative32 := stands.kind_eq (by rw [type]; rfl)
    exact (stands.reaches_iff kind pack).mp (reach g member kind)
  · obtain ⟨r, hr, stands⟩ := faithful.relocation g member
    refine Or.inr ⟨r, hr, ?_, fun reach => out ((stands.reaches_iff kind pack).mpr reach), ?_⟩
    · rcases Extractor.type_of_kindOf? stands.kind with ⟨type, _⟩ | ⟨_, other⟩ | ⟨_, other⟩
      · exact type
      · cases kind.symm.trans other
      · cases kind.symm.trans other
    · rw [outcome, ← stands.offset, UInt32.ofNat_toNat]

theorem length_copyOf : (copyOf extracted site).length = extracted.code.length :=
  Patch.length_applyAll faithful.patches_inside

/-- The three ways a copy can end: refused before anything is written, linked, or stopped at a
relocation out of reach. -/
theorem specialize_cases (apart : (home.fieldsIn start stop).Pairwise Field.Apart)
    (pack : values.pack extracted.toBlueprint = .ok site.values) (destination : Bytes) :
    (¬ (extracted.code.length ≤ destination.length ∧
        (extracted.needsThreadLocalBase = true → site.threadLocalBase.isSome = true)) ∧
      ∃ cause, (extracted.specialize site destination).2 = .error cause) ∨
    ((∀ r ∈ home.relocationsIn start stop, r.type = 4 →
        file.WithinReach data start values site.address r) ∧
      Linked file home data start stop values site.address site.threadLocalBase
        (copyOf extracted site) ∧
      extracted.specialize site destination =
        (copyOf extracted site ++ destination.drop extracted.code.length,
          .ok extracted.code.length)) ∨
    ∃ r ∈ home.relocationsIn start stop, r.type = 4 ∧
      ¬ file.WithinReach data start values site.address r ∧
      (extracted.specialize site destination).2 =
        Outcome.fail (.displacementOutOfRange extracted.symbol
          (UInt32.ofNat (r.offset - start))) := by
  obtain ⟨_, _, _, _, counted⟩ := FixupValues.pack_eq_ok pack
  have precheck := Blueprint.precheck_eq_ok counted destination.length
  cases checked : extracted.precheck site destination.length with
  | error cause =>
    refine Or.inl ⟨fun fits => ?_, cause, Blueprint.specialize_of_refused checked⟩
    rw [precheck.mpr fits] at checked
    cases checked
  | ok _ =>
    refine Or.inr ?_
    rw [Blueprint.specialize_of_precheck checked]
    rcases faithful.applySteps_cases pack with ⟨within, reach, done⟩ | ⟨r, hr, type, out, failed⟩
    · have linked := faithful.linked_copyOf apart pack (precheck.mp checked).2 reach
      refine Or.inl ⟨within, linked, ?_⟩
      rw [done, Bytes.splice_zero, faithful.length_copyOf]
      rfl
    · refine Or.inr ⟨r, hr, type, out, ?_⟩
      rw [failed]
      rfl

end Faithful

end Copies

end Extraction

end CopyPatch
