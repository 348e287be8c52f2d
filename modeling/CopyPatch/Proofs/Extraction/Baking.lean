import CopyPatch.Proofs.Bytes.Field
import CopyPatch.Proofs.Extraction.Basic

/-! Baking. Each relocation of a range becomes a fixup and leaves its constant part in its field.
When the fields are apart, an addend that stands in a field is read before anything is written
there, and what is written stays. -/
namespace CopyPatch

open Bytes (Field)

def FixupRecord.field (f : FixupRecord) : Field := ⟨f.offset.toNat, f.kind.width⟩

/-- What the field of a fixup holds before patching, as an integer. -/
def FixupRecord.constant (f : FixupRecord) (addend : Int) : Int :=
  match f.kind with
  | .selfRelative32 => addend - f.offset.toNat
  | _ => addend

namespace Extraction

def inRange (start stop offset : Nat) : Bool := start ≤ offset && offset < stop

/-- The field a relocation of a supported type patches, in code that begins at `start`. -/
def fieldOf? (start offset type : Nat) : Option Field :=
  (Extractor.kindOf? type).map fun kind => ⟨offset - start, kind.width⟩

/-- The addend of a relocation: its own, or the one that stands in the field. -/
def addendIn (code : Bytes) (addend : Option Int) (f : FixupRecord) : Int :=
  addend.getD (Bytes.signed f.kind.width (f.field.read code))

/-- A fixup speaks of the field and of the placeholder of a relocation. -/
structure MadeFrom (start : Nat) (r : TargetedRelocation) (f : FixupRecord) : Prop where
  offset : f.offset.toNat = r.offset - start
  kind : Extractor.kindOf? r.type = some f.kind
  placeholder : ∃ name, r.target = .name name ∧
    Placeholder.parse name = .ok (some (f.symbolClass, f.ordinal))
  threadLocal : f.kind = .threadLocalOffset32 ↔ f.symbolClass = .threadLocalBase

theorem MadeFrom.field {start : Nat} {r : TargetedRelocation} {f : FixupRecord}
    (h : MadeFrom start r f) : fieldOf? start r.offset r.type = some f.field := by
  rw [fieldOf?, h.kind, FixupRecord.field, h.offset]
  rfl

/-- The constant part of a relocation of `code` stands in its field in `baked`. -/
structure BakedFrom (start : Nat) (code baked : Bytes) (r : TargetedRelocation)
    (f : FixupRecord) : Prop extends MadeFrom start r f where
  inside : f.field.offset + f.field.width ≤ code.length
  held : f.field.read baked =
    Bytes.residue f.kind.width (f.constant (addendIn code r.addend f))
  fits : f.kind ≠ .absolute64 → -2 ^ 31 ≤ f.constant (addendIn code r.addend f) ∧
    f.constant (addendIn code r.addend f) < 2 ^ 31

/-- The fields of the fixups are those of their relocations. -/
theorem fields_eq {start : Nat} {relocations : List TargetedRelocation}
    {fixups : List FixupRecord} (h : List.Forall₂ (MadeFrom start) relocations fixups) :
    relocations.filterMap (fun r => fieldOf? start r.offset r.type) =
      fixups.map FixupRecord.field := by
  induction h with
  | nil => rfl
  | cons made _ ih => simp only [List.filterMap_cons, made.field, ih, List.map_cons]

end Extraction

namespace Extractor

open Extraction

theorem classify_eq_ok {symbol : String} {offset : UInt32} {relocation : TargetedRelocation}
    {kind : RelocationKind} {symbolClass : SymbolClass} {ordinal : UInt32}
    (h : classify symbol offset relocation = .ok (kind, symbolClass, ordinal)) :
    kindOf? relocation.type = some kind ∧
      (∃ name, relocation.target = .name name ∧
        Placeholder.parse name = .ok (some (symbolClass, ordinal))) ∧
      (kind = .threadLocalOffset32 ↔ symbolClass = .threadLocalBase) := by
  unfold classify at h
  cases hkind : kindOf? relocation.type with
  | none => rw [hkind] at h; cases h
  | some found =>
    rw [hkind] at h
    cases htarget : relocation.target with
    | other description => rw [htarget] at h; cases h
    | name name =>
      rw [htarget] at h
      obtain ⟨_, given, h⟩ := Outcome.bind_eq_ok.mp h
      cases given
      obtain ⟨parsed, hparsed, h⟩ := Outcome.bind_eq_ok.mp h
      rw [Outcome.mapError_eq_ok] at hparsed
      rcases parsed with _ | ⟨foundClass, foundOrdinal⟩
      · cases h
      · simp only at h
        split at h
        · cases h
        · rename_i agree
          cases h
          refine ⟨rfl, ⟨name, rfl, hparsed⟩, ?_⟩
          cases kind <;> cases symbolClass <;> simp_all

theorem constantPart_eq (f : FixupRecord) (addend : Int) :
    constantPart f.kind f.offset addend =
      if f.kind = .absolute64 ∨ fitsSigned32 (f.constant addend) then
        some (Bytes.ofNat f.kind.width (Bytes.residue f.kind.width (f.constant addend)))
      else none := by
  unfold constantPart FixupRecord.constant
  cases f.kind <;> simp [RelocationKind.width]

theorem constantPart_eq_some {f : FixupRecord} {addend : Int} {field : Bytes}
    (h : constantPart f.kind f.offset addend = some field) :
    field.length = f.kind.width ∧
      Bytes.value field = Bytes.residue f.kind.width (f.constant addend) ∧
      (f.kind ≠ .absolute64 → -2 ^ 31 ≤ f.constant addend ∧ f.constant addend < 2 ^ 31) := by
  rw [constantPart_eq] at h
  split at h
  · rename_i allowed
    cases h
    refine ⟨Bytes.length_ofNat _ _, ?_, fun narrow => ?_⟩
    · rw [Bytes.value_ofNat, Nat.mod_eq_of_lt (Bytes.residue_lt _ _)]
    · simpa [fitsSigned32] using allowed.resolve_left narrow
  · cases h

/-- One relocation: the code changes in the field of the fixup and nowhere else. -/
theorem bake_eq_ok {e : Extractor} {symbol : String} {code baked : Bytes} {start : Nat}
    {relocation : TargetedRelocation} {f : FixupRecord}
    (short : relocation.offset - start < 2 ^ 32)
    (h : e.bake symbol code (UInt32.ofNat (relocation.offset - start)) relocation =
      .ok (baked, f)) :
    BakedFrom start code baked relocation f ∧ baked.length = code.length ∧
      ∀ i, ¬ f.field.Covers i → baked[i]? = code[i]? := by
  obtain ⟨⟨kind, symbolClass, ordinal⟩, classified, h⟩ := Outcome.bind_eq_ok.mp h
  obtain ⟨hkind, placeholder, threadLocal⟩ := classify_eq_ok classified
  simp only at h
  split at h
  · cases h
  · rename_i field sliced
    split at h
    · cases h
    · rename_i bytes part
      obtain ⟨rfl, rfl⟩ := Prod.mk.inj (Except.ok.inj h)
      obtain ⟨inside, value⟩ := Field.slice?_eq_some (f := FixupRecord.field
        ⟨UInt32.ofNat (relocation.offset - start), kind, symbolClass, ordinal⟩) sliced
      rw [value] at part
      obtain ⟨whole, held, fits⟩ := constantPart_eq_some (f :=
        ⟨UInt32.ofNat (relocation.offset - start), kind, symbolClass, ordinal⟩) part
      refine ⟨⟨⟨UInt32.toNat_ofNat_of_lt' short, hkind, placeholder, threadLocal⟩, inside, ?_,
        fits⟩, ?_, ?_⟩
      · exact (Field.read_splice_self inside whole).trans held
      · exact Bytes.length_splice (by rw [whole]; exact inside)
      · exact fun i => Field.getElem?_splice_outside inside whole

/-- Whether or not fields overlap, each relocation of a range becomes a fixup, and its field lies in
the code. -/
theorem bakeAll_made {e : Extractor} {symbol : String} {start stop : Nat}
    {relocations : List TargetedRelocation} {code baked : Bytes} {fixups : List FixupRecord}
    (short : stop - start < 2 ^ 32)
    (h : e.bakeAll symbol start stop relocations code = .ok (baked, fixups)) :
    List.Forall₂ (MadeFrom start)
        (relocations.filter fun r => inRange start stop r.offset) fixups ∧
      baked.length = code.length ∧
      ∀ f ∈ fixups, f.field.offset + f.field.width ≤ code.length := by
  induction relocations generalizing code fixups with
  | nil =>
    cases h
    exact ⟨.nil, rfl, fun _ member => nomatch member⟩
  | cons relocation rest ih =>
    rw [bakeAll] at h
    split at h
    · rename_i bounds
      have within : inRange start stop relocation.offset = true := bounds
      rw [Bool.and_eq_true, decide_eq_true_eq, decide_eq_true_eq] at bounds
      obtain ⟨⟨middle, first⟩, one, h⟩ := Outcome.bind_eq_ok.mp h
      obtain ⟨⟨last, others⟩, all, h⟩ := Outcome.bind_eq_ok.mp h
      obtain ⟨rfl, rfl⟩ := Prod.mk.inj (Except.ok.inj h)
      obtain ⟨made, firstLength, _⟩ := bake_eq_ok (by omega) one
      obtain ⟨later, lastLength, inside⟩ := ih all
      rw [List.filter_cons, if_pos within]
      refine ⟨.cons made.toMadeFrom later, lastLength.trans firstLength, ?_⟩
      exact List.forall_mem_cons.mpr ⟨made.inside, fun f member => firstLength ▸ inside f member⟩
    · rename_i bounds
      have without : ¬ inRange start stop relocation.offset = true := bounds
      rw [List.filter_cons, if_neg without]
      exact ih h

theorem BakedFrom.congr {start : Nat} {code code' baked baked' : Bytes} {r : TargetedRelocation}
    {f : FixupRecord} (h : BakedFrom start code baked r f) (length : code'.length = code.length)
    (before : f.field.read code' = f.field.read code)
    (after : f.field.read baked' = f.field.read baked) : BakedFrom start code' baked' r f := by
  have addend : addendIn code' r.addend f = addendIn code r.addend f := by
    rw [addendIn, addendIn, before]
  refine ⟨h.toMadeFrom, length ▸ h.inside, ?_, ?_⟩
  · rw [after, addend, h.held]
  · rw [addend]
    exact h.fits

/-- All relocations of a range: each fixup is made from its relocation of the original code, and
only the fields of the fixups change. -/
theorem bakeAll_eq_ok {e : Extractor} {symbol : String} {start stop : Nat}
    {relocations : List TargetedRelocation} {code baked : Bytes} {fixups : List FixupRecord}
    (short : stop - start < 2 ^ 32)
    (apart : ((relocations.filter fun r => inRange start stop r.offset).filterMap
      fun r => fieldOf? start r.offset r.type).Pairwise Field.Apart)
    (h : e.bakeAll symbol start stop relocations code = .ok (baked, fixups)) :
    List.Forall₂ (BakedFrom start code baked)
        (relocations.filter fun r => inRange start stop r.offset) fixups ∧
      baked.length = code.length ∧
      ∀ i, (∀ f ∈ fixups, ¬ f.field.Covers i) → baked[i]? = code[i]? := by
  induction relocations generalizing code fixups with
  | nil =>
    cases h
    exact ⟨.nil, rfl, fun _ _ => rfl⟩
  | cons relocation rest ih =>
    unfold bakeAll at h
    split at h
    · rename_i bounds
      have within : inRange start stop relocation.offset = true := bounds
      rw [Bool.and_eq_true, decide_eq_true_eq, decide_eq_true_eq] at bounds
      obtain ⟨⟨middle, first⟩, one, h⟩ := Outcome.bind_eq_ok.mp h
      obtain ⟨⟨last, others⟩, all, h⟩ := Outcome.bind_eq_ok.mp h
      obtain ⟨rfl, rfl⟩ := Prod.mk.inj (Except.ok.inj h)
      obtain ⟨made, firstLength, firstOutside⟩ := bake_eq_ok (by omega) one
      rw [List.filter_cons, if_pos within] at apart ⊢
      simp only [List.filterMap_cons, made.field] at apart
      obtain ⟨firstApart, apart⟩ := List.pairwise_cons.mp apart
      obtain ⟨later, lastLength, lastOutside⟩ := ih apart all
      have fields := fields_eq (later.imp fun _ _ h => h.toMadeFrom)
      have othersApart : ∀ f ∈ others, first.field.Apart f.field :=
        fun f member => firstApart _ (fields ▸ List.mem_map_of_mem member)
      refine ⟨.cons ?_ ?_, lastLength.trans firstLength, fun i outside => ?_⟩
      · -- the later relocations leave the field of the first one alone
        refine BakedFrom.congr made rfl rfl (Field.read_congr fun i covered => ?_)
        exact lastOutside i fun f member => (othersApart f member).symm.not_covers covered
      · -- and the first one leaves the fields in which the later addends stand alone
        have apartFrom : ∀ r ∈ rest.filter fun r => inRange start stop r.offset,
            ∀ g, fieldOf? start r.offset r.type = some g → first.field.Apart g :=
          fun r member g field => firstApart g (List.mem_filterMap.mpr ⟨r, member, field⟩)
        refine ((List.forall₂_and_left _ _).mpr ⟨apartFrom, later⟩).imp ?_
        rintro r f ⟨apart, baked⟩
        refine BakedFrom.congr baked firstLength.symm (Field.read_congr fun i covered => ?_) rfl
        exact (firstOutside i ((apart _ baked.field).not_covers covered)).symm
      · obtain ⟨notFirst, notOthers⟩ := List.forall_mem_cons.mp outside
        exact (lastOutside i notOthers).trans (firstOutside i notFirst)
    · rename_i bounds
      have without : ¬ inRange start stop relocation.offset = true := bounds
      rw [List.filter_cons, if_neg without] at apart ⊢
      exact ih apart h

end Extractor

end CopyPatch
