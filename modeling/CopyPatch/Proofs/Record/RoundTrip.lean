import CopyPatch.Proofs.Json.RoundTrip
import CopyPatch.Proofs.Outcome
import CopyPatch.Record.Codec

/-! A record is read back as the module it was written from: each part of a record has a reader that
undoes its writer, and what a writer makes can stand in text. -/
namespace CopyPatch

open JsonValue

namespace JsonValue

theorem natural?_integer {bits n : Nat} (fits : n < 2 ^ bits) :
    natural? bits (integer n) = some n := by
  simp [natural?, fits]

theorem listOf?_map {α : Type} {write : α → JsonValue} {read : JsonValue → Option α}
    (undoes : ∀ a, read (write a) = some a) (as : List α) :
    listOf? read (array (as.map write)) = some as := by
  rw [listOf?, List.mapM_map, Outcome.mapM_eq_some, List.forall₂_same]
  exact fun a _ => undoes a

theorem plainItems_map {α : Type} {write : α → JsonValue} (plain : ∀ a, (write a).Plain)
    (as : List α) : PlainItems (as.map write) := by
  induction as with
  | nil => trivial
  | cons a rest ih => exact ⟨plain a, ih⟩

theorem single?_of_mem {entries : List (String × JsonValue)} {name : String} {v : JsonValue}
    (distinct : (entries.map (·.1)).Nodup) (member : (name, v) ∈ entries) :
    single? entries name = some (some v) := by
  have only : entries.filter (·.1 = name) = [(name, v)] := by
    induction entries with
    | nil => cases member
    | cons e rest ih =>
      rw [List.map_cons, List.nodup_cons] at distinct
      rcases List.mem_cons.1 member with rfl | member
      · rw [List.filter_cons_of_pos (by simp), List.filter_eq_nil_iff.2]
        intro other inside same
        exact distinct.1 (List.mem_map.2 ⟨other, inside, by simpa using same⟩)
      · have fresh : e.1 ≠ name := fun same => distinct.1 (List.mem_map.2 ⟨_, member, same.symm⟩)
        rw [List.filter_cons_of_neg (by simpa using fresh), ih distinct.2 member]
  rw [single?, only]

/-- A structure has each of its fields under its name. -/
theorem fields?_object {names : List String} {entries : List (String × JsonValue)}
    (named : entries.map (·.1) = names) (distinct : names.Nodup) :
    fields? names (object entries) = some (entries.map fun e => some e.2) := by
  subst named
  rw [fields?, Outcome.mapM_eq_some, List.forall₂_map_left_iff, List.forall₂_map_right_iff,
    List.forall₂_same]
  exact fun e member => single?_of_mem distinct member

end JsonValue

theorem word32?_toNat (w : UInt32) : word32? (integer w.toNat) = some w := by
  rw [word32?, natural?_integer w.toNat_lt]
  simp

theorem word64?_toNat (w : UInt64) : word64? (integer w.toNat) = some w := by
  rw [word64?, natural?_integer w.toNat_lt]
  simp

theorem naturals_map {α : Type} (value : α → Nat) (as : List α) :
    naturals (as.map value) = array (as.map fun a => integer (value a)) := by
  rw [naturals, List.map_map]
  rfl

theorem plain_naturals (ns : List Nat) : (naturals ns).Plain :=
  plainItems_map (by intro _; trivial) ns

theorem Bytes.ofJson?_toJson (bytes : Bytes) : Bytes.ofJson? bytes.toJson = some bytes := by
  rw [Bytes.ofJson?, Bytes.toJson, naturals_map]
  refine listOf?_map (fun b => ?_) bytes
  rw [natural?_integer b.toNat_lt]
  simp

theorem words32?_words32 (words : List UInt32) : words32? (words32 words) = some words := by
  rw [words32?, words32, naturals_map]
  exact listOf?_map word32?_toNat words

theorem Tuple.ofJson?_toJson (tuple : Tuple) : Tuple.ofJson? (Tuple.toJson tuple) = some tuple := by
  rw [Tuple.ofJson?, Tuple.toJson, naturals_map]
  exact listOf?_map word64?_toNat tuple

theorem RelocationKind.ofJson?_name (kind : RelocationKind) :
    RelocationKind.ofJson? (string kind.name) = some kind := by
  cases kind <;> decide

theorem SymbolClass.ofJson?_name (symbolClass : SymbolClass) :
    SymbolClass.ofJson? (string symbolClass.name) = some symbolClass := by
  cases symbolClass <;> decide

theorem FixupRecord.ofJson?_toJson (fixup : FixupRecord) :
    FixupRecord.ofJson? fixup.toJson = some fixup := by
  rw [FixupRecord.ofJson?, FixupRecord.toJson, fields?_object]
  · simp [word32?_toNat, RelocationKind.ofJson?_name, SymbolClass.ofJson?_name]
  · rfl
  · decide

theorem FixupSite.ofJson?_toJson (site : FixupSite) :
    FixupSite.ofJson? site.toJson = some site := by
  rw [FixupSite.ofJson?, FixupSite.toJson, fields?_object]
  · simp [word32?_toNat]
  · rfl
  · decide

theorem FixupCounts.ofJson?_toJson (counts : FixupCounts) :
    FixupCounts.ofJson? counts.toJson = some counts := by
  rw [FixupCounts.ofJson?, FixupCounts.toJson, fields?_object]
  · simp [word32?_toNat]
  · rfl
  · decide

theorem ExtractedCode.ofJson?_toJson (code : ExtractedCode) :
    ExtractedCode.ofJson? code.toJson = some code := by
  rw [ExtractedCode.ofJson?, ExtractedCode.toJson, fields?_object]
  · simp [string?, Bytes.ofJson?_toJson, word32?_toNat, listOf?_map FixupRecord.ofJson?_toJson,
      FixupCounts.ofJson?_toJson, words32?_words32, listOf?_map FixupSite.ofJson?_toJson]
  · rfl
  · decide

theorem AxisKind.ofJson?_toJson (kind : AxisKind) : AxisKind.ofJson? kind.toJson = some kind := by
  cases kind with
  | type => rfl
  | bool => rfl
  | enum count =>
    rw [AxisKind.toJson, AxisKind.ofJson?, fields?_object]
    · simp [word64?_toNat]
    · rfl
    · decide

theorem listOf?_strings (texts : List String) :
    listOf? string? (array (texts.map string)) = some texts :=
  listOf?_map (by intro _; rfl) texts

theorem AxisSignature.ofJson?_toJson (signature : AxisSignature) :
    AxisSignature.ofJson? signature.toJson = some signature := by
  rw [AxisSignature.ofJson?, AxisSignature.toJson, fields?_object]
  · simp [string?, AxisKind.ofJson?_toJson, listOf?_strings]
  · rfl
  · decide

theorem Slot.ofJson?_toJson (slot : Slot) : Slot.ofJson? slot.toJson = some slot := by
  rw [Slot.ofJson?, Slot.toJson, fields?_object]
  · simp [word32?_toNat, word64?_toNat]
  · rfl
  · decide

theorem Index.ofJson?_toJson (index : Index) : Index.ofJson? index.toJson = some index := by
  rw [Index.ofJson?, Index.toJson, fields?_object]
  · simp [words32?_words32, listOf?_map Slot.ofJson?_toJson]
  · rfl
  · decide

theorem CompiledVariant.ofJson?_toJson (variant : CompiledVariant) :
    CompiledVariant.ofJson? variant.toJson = some variant := by
  rw [CompiledVariant.ofJson?, CompiledVariant.toJson, fields?_object]
  · simp [Tuple.ofJson?_toJson, ExtractedCode.ofJson?_toJson]
  · rfl
  · decide

theorem CompiledFamily.ofJson?_toJson (family : CompiledFamily) :
    CompiledFamily.ofJson? family.toJson = some family := by
  rw [CompiledFamily.ofJson?, CompiledFamily.toJson, fields?_object]
  · simp [string?, listOf?_map AxisSignature.ofJson?_toJson,
      listOf?_map CompiledVariant.ofJson?_toJson, Index.ofJson?_toJson]
  · rfl
  · decide

theorem CompiledModule.ofJson?_toJson (compiled : CompiledModule) :
    CompiledModule.ofJson? compiled.toJson = some compiled := by
  rw [CompiledModule.ofJson?, CompiledModule.toJson, fields?_object]
  · simp [string?, listOf?_map CompiledFamily.ofJson?_toJson]
  · rfl
  · decide

theorem FixupRecord.plain_toJson (fixup : FixupRecord) : fixup.toJson.Plain :=
  ⟨trivial, trivial, trivial, trivial, trivial⟩

theorem FixupSite.plain_toJson (site : FixupSite) : site.toJson.Plain :=
  ⟨trivial, trivial, trivial⟩

theorem ExtractedCode.plain_toJson (code : ExtractedCode) : code.toJson.Plain :=
  ⟨trivial, plain_naturals _, trivial, plainItems_map FixupRecord.plain_toJson _,
    ⟨trivial, trivial, trivial, trivial⟩, plain_naturals _,
    plainItems_map FixupSite.plain_toJson _, plainItems_map FixupSite.plain_toJson _,
    plain_naturals _, trivial⟩

theorem AxisKind.plain_toJson (kind : AxisKind) : kind.toJson.Plain := by
  cases kind with
  | type => trivial
  | bool => trivial
  | enum count => exact ⟨⟨trivial, trivial⟩, trivial⟩

theorem AxisSignature.plain_toJson (signature : AxisSignature) : signature.toJson.Plain :=
  ⟨trivial, signature.kind.plain_toJson, plainItems_map (by intro _; trivial) _, trivial⟩

theorem Slot.plain_toJson (slot : Slot) : slot.toJson.Plain :=
  ⟨trivial, trivial, trivial⟩

theorem Index.plain_toJson (index : Index) : index.toJson.Plain :=
  ⟨plain_naturals _, plain_naturals _, plain_naturals _, plainItems_map Slot.plain_toJson _,
    trivial⟩

theorem CompiledVariant.plain_toJson (variant : CompiledVariant) : variant.toJson.Plain :=
  ⟨plain_naturals _, variant.code.plain_toJson, trivial⟩

theorem CompiledFamily.plain_toJson (family : CompiledFamily) : family.toJson.Plain :=
  ⟨trivial, plainItems_map AxisSignature.plain_toJson _,
    plainItems_map CompiledVariant.plain_toJson _, family.index.plain_toJson, trivial⟩

theorem CompiledModule.plain_toJson (compiled : CompiledModule) : compiled.toJson.Plain :=
  ⟨trivial, plainItems_map CompiledFamily.plain_toJson _, trivial⟩

/-- The text of a record is read back as the record. -/
theorem CompiledModule.read_written (compiled : CompiledModule) :
    (JsonValue.ofBytes? (Bytes.ofText compiled.toJson.compact)).bind CompiledModule.ofJson? =
      some compiled := by
  rw [ofBytes?_compact compiled.plain_toJson, Option.bind_some, compiled.ofJson?_toJson]

end CopyPatch
