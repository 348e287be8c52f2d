import CopyPatch.Blueprint

/-! Copy and patch: a blueprint's bytes are copied to a destination and each field is completed
with the values of one call site. The constant part of every relocation is in the bytes already,
so patching only adds; a self-relative field also loses the destination address. -/
namespace CopyPatch

inductive PatchError where
  | destinationTooSmall (symbol : String) (needed available : Nat)
  | valueCount (symbol : String) (expected supplied : Nat)
  | classCount (symbol : String) (symbolClass : SymbolClass) (expected : UInt32) (supplied : Nat)
  | threadLocalBaseMissing (symbol : String)
  | displacementOutOfRange (symbol : String) (offset : UInt32)
  deriving DecidableEq, Repr

namespace PatchError

def message : PatchError → String
  | destinationTooSmall symbol needed available =>
    s!"destination holds {available} bytes but blueprint {Text.quoted symbol} needs {needed}"
  | valueCount symbol expected supplied =>
    s!"blueprint {Text.quoted symbol} needs {expected} fixup values, got {supplied}"
  | classCount symbol symbolClass expected supplied =>
    s!"blueprint {Text.quoted symbol} expects {expected} {symbolClass.name} values, got {supplied}"
  | threadLocalBaseMissing symbol =>
    s!"blueprint {Text.quoted symbol} has thread-local fixups but no thread-local base is installed"
  | displacementOutOfRange symbol offset =>
    s!"self-relative target of blueprint {Text.quoted symbol} at offset {offset} " ++
      "is out of 32-bit range"

end PatchError

/-- The values of one call site, by class, in placeholder order. -/
structure FixupValues where
  boilerplates : List UInt64
  hosts : List UInt64
  constants : List UInt64
  deriving DecidableEq, Repr

namespace FixupValues

def ofClass (values : FixupValues) : SymbolClass → List UInt64
  | .boilerplate => values.boilerplates
  | .host => values.hosts
  | .constant => values.constants
  | .threadLocalBase => []

/-- The first class whose number of values is not the blueprint's. -/
def mismatch? (values : FixupValues) (b : Blueprint) : Option SymbolClass :=
  SymbolClass.supplied.find? fun c => (b.counts.count c).toNat ≠ (values.ofClass c).length

/-- The values in packed order, once every class has as many as the blueprint asks for. -/
def pack (values : FixupValues) (b : Blueprint) : Outcome PatchError (List UInt64) :=
  match values.mismatch? b with
  | some c => Outcome.fail (.classCount b.symbol c (b.counts.count c) (values.ofClass c).length)
  | none => do
    let _ ← Outcome.ofFaulting b.valueCount
    return values.boilerplates ++ values.hosts ++ values.constants

end FixupValues

/-- Add to the little-endian field at an offset, wrapping at its width. -/
def addToField (width offset amount : Nat) (code : Bytes) : Except Fault Bytes :=
  match code.slice? offset width with
  | some field => .ok (code.splice offset (Bytes.ofNat width (field.value + amount)))
  | none => .error .outOfBounds

/-- Where a call site puts its copy and what it knows. -/
structure Site where
  values : List UInt64
  address : UInt64
  threadLocalBase : Option Int32
  deriving DecidableEq, Repr

namespace Blueprint

abbrev Step := Bytes → Outcome PatchError Bytes

def valueAt (site : Site) (ordinal : UInt32) : Outcome PatchError UInt64 :=
  match site.values[ordinal.toNat]? with
  | some v => .ok v
  | none => .error (.fault .outOfBounds)

/-- The final displacement of a self-relative field: its constant part plus the way from the
destination to the target. -/
def displacement (baked : Nat) (target address : UInt64) : Int :=
  Bytes.signed 4 baked + target.toNat - address.toNat

/-- A self-relative target must be within reach of a signed 32-bit field. -/
def checkReach (b : Blueprint) (site : Site) (offset : UInt32) (target : UInt64) :
    Outcome PatchError Unit :=
  match b.code.slice? offset.toNat 4 with
  | none => .error (.fault .outOfBounds)
  | some field =>
    let d := displacement field.value target site.address
    if -2 ^ 31 ≤ d ∧ d < 2 ^ 31 then .ok ()
    else Outcome.fail (.displacementOutOfRange b.symbol offset)

def patchSymbol32 (b : Blueprint) (site : Site) (fixup : FixupSite) : Step := fun code => do
  let target ← valueAt site fixup.ordinal
  if fixup.offset ∈ b.selfRelative32 then checkReach b site fixup.offset target
  Outcome.ofFaulting (addToField 4 fixup.offset.toNat target.toNat code)

def patchSelfRelative (site : Site) (offset : UInt32) : Step := fun code =>
  Outcome.ofFaulting
    (addToField 4 offset.toNat (Bytes.residue 4 (-(site.address.toNat : Int))) code)

def patchSymbol64 (site : Site) (fixup : FixupSite) : Step := fun code => do
  let target ← valueAt site fixup.ordinal
  Outcome.ofFaulting (addToField 8 fixup.offset.toNat target.toNat code)

def patchThreadLocal (base : Int32) (offset : UInt32) : Step := fun code =>
  Outcome.ofFaulting (addToField 4 offset.toNat (Bytes.residue 4 base.toInt) code)

/-- Every patch of a copy, in order. -/
def steps (b : Blueprint) (site : Site) : List Step :=
  b.symbol32.map (patchSymbol32 b site) ++
    b.selfRelative32.map (patchSelfRelative site) ++
    b.symbol64.map (patchSymbol64 site) ++
    (match site.threadLocalBase with
      | some base => b.threadLocal32.map (patchThreadLocal base)
      | none => [])

/-- Apply patches until one fails; the code keeps what the earlier ones did. -/
def applySteps : List Step → Bytes → Bytes × Outcome PatchError Unit
  | [], code => (code, .ok ())
  | step :: rest, code => match step code with
    | .ok next => applySteps rest next
    | .error cause => (code, .error cause)

/-- What must hold before any byte is copied. -/
def precheck (b : Blueprint) (site : Site) (available : Nat) : Outcome PatchError Unit :=
  if available < b.code.length then
    Outcome.fail (.destinationTooSmall b.symbol b.code.length available)
  else do
    let expected ← Outcome.ofFaulting b.valueCount
    if site.values.length ≠ expected then
      Outcome.fail (.valueCount b.symbol expected site.values.length)
    else if b.needsThreadLocalBase ∧ site.threadLocalBase.isNone then
      Outcome.fail (.threadLocalBaseMissing b.symbol)
    else .ok ()

/-- Copy and patch into a destination of `available` bytes. The first part is what stands at the
front of the destination afterwards, also after a failure; the second is the number of bytes
written. -/
def patch (b : Blueprint) (site : Site) (available : Nat) : Bytes × Outcome PatchError Nat :=
  match precheck b site available with
  | .error cause => ([], .error cause)
  | .ok () =>
    let (code, outcome) := applySteps (steps b site) b.code
    (code, outcome.map fun _ => b.code.length)

/-- Copy and patch into the front of a byte string. -/
def specialize (b : Blueprint) (site : Site) (destination : Bytes) :
    Bytes × Outcome PatchError Nat :=
  let (written, outcome) := patch b site destination.length
  (destination.splice 0 written, outcome)

end Blueprint

end CopyPatch
