import CopyPatch.Compile
import CopyPatch.Proofs.Registration

/-! The errors of the stages of a compilation. Some errors guard against states that the stages
before cannot produce; what is shown here is that no stage reports one of them on its own. -/
namespace CopyPatch

open Outcome (FailsWith)

/-- The failures a compilation can end with. An index that fails its verification is among them
only if a family is crowded, that is, has more tuples than an ordinal can count. -/
def Expected (crowded : Prop) : Failure BuildError → Prop
  | .error (.unresolvedAddress _ _) => False
  | .error (.model (.duplicateTuple _ _)) => False
  | .error (.model (.parameterCountMismatch _ _ _)) => False
  | .error (.index (.unverified _ _)) => crowded
  | _ => True

variable {crowded : Prop}

namespace Placeholder

theorem parseAs_failsWith (text : String) (classes : List SymbolClass) :
    FailsWith (fun e => e = .badPlaceholderOrdinal text) (parseAs text classes) := by
  induction classes with
  | nil => exact .ok _
  | cons c rest ih =>
    unfold parseAs
    split
    · split
      · exact .ok _
      · exact .error rfl
    · exact ih

theorem parse_failsWith (text : String) :
    FailsWith (fun e => e = .badPlaceholderOrdinal text) (parse text) := by
  unfold parse
  split
  · exact .ok _
  · exact parseAs_failsWith text _

end Placeholder

namespace Extractor

open Extraction

theorem classify_failsWith (symbol : String) (offset : UInt32) (relocation : TargetedRelocation) :
    FailsWith (fun e => Expected crowded (.error e)) (classify symbol offset relocation) := by
  unfold classify
  cases kindOf? relocation.type with
  | none => exact .error trivial
  | some kind =>
    cases relocation.target with
    | other description => exact .error trivial
    | name name =>
      refine .bind (.ok kind) fun kind _ => .bind (.mapError fun e failed => ?_) fun found _ => ?_
      · rw [Placeholder.parse_failsWith name e failed]
        trivial
      · rcases found with _ | ⟨symbolClass, ordinal⟩
        · exact .error trivial
        · simp only
          split
          · exact .error trivial
          · exact .ok _

theorem bake_failsWith (e : Extractor) (symbol : String) (code : Bytes) (offset : UInt32)
    (relocation : TargetedRelocation) :
    FailsWith (fun e => Expected crowded (.error e)) (e.bake symbol code offset relocation) := by
  refine .bind (classify_failsWith symbol offset relocation) fun found _ => ?_
  obtain ⟨kind, symbolClass, ordinal⟩ := found
  simp only
  split
  · exact .error trivial
  · split
    · exact .error trivial
    · exact .ok _

theorem bakeAll_failsWith (e : Extractor) (symbol : String) (start stop : Nat)
    (relocations : List TargetedRelocation) (code : Bytes) :
    FailsWith (fun e => Expected crowded (.error e))
      (e.bakeAll symbol start stop relocations code) := by
  induction relocations generalizing code with
  | nil => exact .ok _
  | cons relocation rest ih =>
    unfold bakeAll
    split
    · refine .bind (bake_failsWith e symbol code _ relocation) fun baked _ => ?_
      exact .bind (ih baked.1) fun _ _ => .ok _
    · exact ih code

theorem extract_failsWith (e : Extractor) (symbol : String) :
    FailsWith (Expected crowded) (e.extract symbol) := by
  unfold extract
  split
  · exact .error trivial
  · split
    · exact .error trivial
    · refine .bind (.ofFaulting fun _ => trivial) fun found _ => ?_
      obtain ⟨start, stop⟩ := found
      simp only
      split
      · exact .error trivial
      · exact .bind (.ofReporting (bakeAll_failsWith _ _ _ _ _ _))
          fun _ _ => .ofFaulting fun _ => trivial

theorem ofFile_failsWith (moduleName : String) (file : ObjectFile) :
    FailsWith (Expected crowded) (ofFile moduleName file) := by
  unfold ofFile
  split
  · exact .bind (.ok _) fun _ _ => .bind (.ofFaulting fun _ => trivial) fun _ _ => .ok _
  · exact .error trivial

end Extractor

namespace LoadMap

theorem loadSymbol_failsWith (process : String → Option Nat) (moduleName : String)
    (placed : List PlacedSection) (symbol : Object.Symbol) (map : LoadMap) :
    FailsWith (Expected crowded) (loadSymbol process moduleName placed symbol map) := by
  unfold loadSymbol
  split
  · exact .ok _
  · split
    · exact .error trivial
    · exact .ok _
    · split
      · exact .ok _
      · split
        · exact .ok _
        · split
          · exact .ok _
          · exact .ofFaulting fun _ => trivial
      · exact .ok _

theorem loadSymbols_failsWith (process : String → Option Nat) (moduleName : String)
    (placed : List PlacedSection) (symbols : List Object.Symbol) (map : LoadMap) :
    FailsWith (Expected crowded) (loadSymbols process moduleName placed symbols map).1 := by
  induction symbols generalizing map with
  | nil => exact .ok _
  | cons symbol rest ih =>
    unfold loadSymbols
    cases loaded : loadSymbol process moduleName placed symbol map with
    | error failure => exact .error (loadSymbol_failsWith _ _ _ _ _ failure loaded)
    | ok map => exact ih map

theorem load_failsWith (process : String → Option Nat) (moduleName : String) (file : ObjectFile)
    (map : LoadMap) : FailsWith (Expected crowded) (load process moduleName file map).1 := by
  unfold load
  split
  · exact .error trivial
  · exact loadSymbols_failsWith _ _ _ _ _

end LoadMap

theorem Axis.validateFrom_failsWith (position : Nat) (free : Option Nat) (axes : List Axis) :
    FailsWith (fun e => Expected crowded (.error (.model e)))
      (validateFrom position free axes) := by
  induction axes generalizing position free with
  | nil => exact .ok _
  | cons axis rest ih =>
    cases axis with
    | type domain =>
      cases free with
      | some first => exact .error trivial
      | none =>
        unfold validateFrom
        simp only
        split
        · exact .error trivial
        · exact ih _ _
    | bool => exact ih _ _
    | enum count => exact ih _ _

namespace FamilyDecl

theorem bodyAddress_failsWith (decl : FamilyDecl) (moduleName : String) (map : LoadMap)
    (tuple : Tuple) : FailsWith (Expected crowded) (decl.bodyAddress moduleName map tuple) := by
  refine .bind (.ofFaulting fun _ => trivial) fun symbol _ => ?_
  split
  · exact .ok _
  · exact .error trivial

theorem register_failsWith (decl : FamilyDecl) (moduleName : String) (map : LoadMap) :
    FailsWith (Expected crowded) (decl.register moduleName map) := by
  rw [register_eq]
  refine .bind (.ofReporting (.mapError (Axis.validateFrom_failsWith _ _ _))) fun _ _ => .map ?_
  exact .mapM fun tuple _ => .map (bodyAddress_failsWith decl moduleName map tuple)

end FamilyDecl

end CopyPatch
