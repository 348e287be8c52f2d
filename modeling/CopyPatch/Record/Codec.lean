import CopyPatch.Json.Value
import CopyPatch.Record.Basic

/-! Compiled modules as JSON. A structure is an object of its fields; a choice without data is a
word; a choice with data is an object with that word as its only key. -/
namespace CopyPatch

open JsonValue

def Bytes.toJson (bytes : Bytes) : JsonValue := naturals (bytes.map (·.toNat))

def Bytes.ofJson? (json : JsonValue) : Option Bytes :=
  json.listOf? fun v => (v.natural? 8).map UInt8.ofNat

/-- A list of 32-bit words. -/
def words32 (words : List UInt32) : JsonValue := naturals (words.map (·.toNat))

def word32? (json : JsonValue) : Option UInt32 := (json.natural? 32).map UInt32.ofNat

def words32? (json : JsonValue) : Option (List UInt32) := json.listOf? word32?

def word64? (json : JsonValue) : Option UInt64 := (json.natural? 64).map UInt64.ofNat

def Tuple.toJson (tuple : Tuple) : JsonValue := naturals (tuple.map (·.toNat))

def Tuple.ofJson? (json : JsonValue) : Option Tuple := json.listOf? word64?

def RelocationKind.ofJson? (json : JsonValue) : Option RelocationKind := do
  let word ← json.word?
  RelocationKind.all.find? (·.name = word)

def SymbolClass.ofJson? (json : JsonValue) : Option SymbolClass := do
  let word ← json.word?
  SymbolClass.all.find? (·.name = word)

namespace FixupRecord

def toJson (fixup : FixupRecord) : JsonValue :=
  object [("offset", integer fixup.offset.toNat), ("kind", string fixup.kind.name),
    ("class", string fixup.symbolClass.name), ("ordinal", integer fixup.ordinal.toNat)]

def ofJson? (json : JsonValue) : Option FixupRecord := do
  match ← json.fields? ["offset", "kind", "class", "ordinal"] with
  | [some offset, some kind, some symbolClass, some ordinal] =>
    return ⟨← word32? offset, ← RelocationKind.ofJson? kind, ← SymbolClass.ofJson? symbolClass,
      ← word32? ordinal⟩
  | _ => none

end FixupRecord

namespace FixupSite

def toJson (site : FixupSite) : JsonValue :=
  object [("offset", integer site.offset.toNat), ("ordinal", integer site.ordinal.toNat)]

def ofJson? (json : JsonValue) : Option FixupSite := do
  match ← json.fields? ["offset", "ordinal"] with
  | [some offset, some ordinal] => return ⟨← word32? offset, ← word32? ordinal⟩
  | _ => none

end FixupSite

namespace FixupCounts

def toJson (counts : FixupCounts) : JsonValue :=
  object [("boilerplate_fns", integer counts.boilerplates.toNat),
    ("host_fns", integer counts.hosts.toNat), ("constants", integer counts.constants.toNat)]

def ofJson? (json : JsonValue) : Option FixupCounts := do
  match ← json.fields? ["boilerplate_fns", "host_fns", "constants"] with
  | [some boilerplates, some hosts, some constants] =>
    return ⟨← word32? boilerplates, ← word32? hosts, ← word32? constants⟩
  | _ => none

end FixupCounts

namespace ExtractedCode

def toJson (code : ExtractedCode) : JsonValue :=
  object [("symbol", string code.symbol), ("code", code.code.toJson),
    ("unpadded_len", integer code.unpaddedLen.toNat),
    ("fixups", array (code.fixups.map FixupRecord.toJson)),
    ("fixup_counts", code.counts.toJson),
    ("self_relative32", words32 code.selfRelative32),
    ("symbol32", array (code.symbol32.map FixupSite.toJson)),
    ("symbol64", array (code.symbol64.map FixupSite.toJson)),
    ("thread_local32", words32 code.threadLocal32)]

def fieldNames : List String :=
  ["symbol", "code", "unpadded_len", "fixups", "fixup_counts", "self_relative32", "symbol32",
    "symbol64", "thread_local32"]

def ofJson? (json : JsonValue) : Option ExtractedCode := do
  match ← json.fields? fieldNames with
  | [some symbol, some code, some unpaddedLen, some fixups, some counts, some selfRelative32,
      some symbol32, some symbol64, some threadLocal32] =>
    return {
      symbol := ← symbol.string?
      code := ← Bytes.ofJson? code
      unpaddedLen := ← word32? unpaddedLen
      fixups := ← fixups.listOf? FixupRecord.ofJson?
      counts := ← FixupCounts.ofJson? counts
      selfRelative32 := ← words32? selfRelative32
      symbol32 := ← symbol32.listOf? FixupSite.ofJson?
      symbol64 := ← symbol64.listOf? FixupSite.ofJson?
      threadLocal32 := ← words32? threadLocal32 }
  | _ => none

end ExtractedCode

namespace AxisKind

def toJson : AxisKind → JsonValue
  | type => string "Type"
  | bool => string "Bool"
  | enum count => object [("Enum", object [("count", integer count.toNat)])]

def ofJson? : JsonValue → Option AxisKind
  | object [("Enum", data)] => do
    match ← data.fields? ["count"] with
    | [some count] => return enum (← word64? count)
    | _ => none
  | json => do
    match ← json.word? with
    | "Type" => return type
    | "Bool" => return bool
    | _ => none

end AxisKind

namespace AxisSignature

def toJson (signature : AxisSignature) : JsonValue :=
  object [("name", string signature.name), ("kind", signature.kind.toJson),
    ("variants", array (signature.variants.map string))]

/-- Missing variants are no variants. -/
def ofJson? (json : JsonValue) : Option AxisSignature := do
  match ← json.fields? ["name", "kind", "variants"] with
  | [some name, some kind, variants] =>
    return ⟨← name.string?, ← AxisKind.ofJson? kind,
      ← (variants.getD (array [])).listOf? JsonValue.string?⟩
  | _ => none

end AxisSignature

namespace Slot

def toJson (slot : Slot) : JsonValue :=
  object [("ordinal", integer slot.ordinal.toNat), ("fingerprint", integer slot.fingerprint.toNat)]

def ofJson? (json : JsonValue) : Option Slot := do
  match ← json.fields? ["ordinal", "fingerprint"] with
  | [some ordinal, some fingerprint] => return ⟨← word32? ordinal, ← word64? fingerprint⟩
  | _ => none

end Slot

namespace Index

def toJson (index : Index) : JsonValue :=
  object [("h1", words32 index.h1), ("h2", words32 index.h2), ("h3", words32 index.h3),
    ("slots", array (index.slots.toList.map Slot.toJson))]

def ofJson? (json : JsonValue) : Option Index := do
  match ← json.fields? ["h1", "h2", "h3", "slots"] with
  | [some h1, some h2, some h3, some slots] =>
    return ⟨← words32? h1, ← words32? h2, ← words32? h3,
      (← slots.listOf? Slot.ofJson?).toArray⟩
  | _ => none

end Index

namespace CompiledVariant

def toJson (variant : CompiledVariant) : JsonValue :=
  object [("tuple", Tuple.toJson variant.tuple), ("code", variant.code.toJson)]

def ofJson? (json : JsonValue) : Option CompiledVariant := do
  match ← json.fields? ["tuple", "code"] with
  | [some tuple, some code] => return ⟨← Tuple.ofJson? tuple, ← ExtractedCode.ofJson? code⟩
  | _ => none

end CompiledVariant

namespace CompiledFamily

def toJson (family : CompiledFamily) : JsonValue :=
  object [("name", string family.name),
    ("signature", array (family.signature.map AxisSignature.toJson)),
    ("variants", array (family.variants.map CompiledVariant.toJson)),
    ("hash", family.index.toJson)]

def ofJson? (json : JsonValue) : Option CompiledFamily := do
  match ← json.fields? ["name", "signature", "variants", "hash"] with
  | [some name, some signature, some variants, some hash] =>
    return ⟨← name.string?, ← signature.listOf? AxisSignature.ofJson?,
      ← variants.listOf? CompiledVariant.ofJson?, ← Index.ofJson? hash⟩
  | _ => none

end CompiledFamily

namespace CompiledModule

def toJson (compiled : CompiledModule) : JsonValue :=
  object [("module", string compiled.name),
    ("families", array (compiled.families.map CompiledFamily.toJson))]

def ofJson? (json : JsonValue) : Option CompiledModule := do
  match ← json.fields? ["module", "families"] with
  | [some name, some families] =>
    return ⟨← name.string?, ← families.listOf? CompiledFamily.ofJson?⟩
  | _ => none

end CompiledModule

end CopyPatch
