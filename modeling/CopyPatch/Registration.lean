import CopyPatch.Manifest.Basic
import CopyPatch.Object.LoadMap
import CopyPatch.Parameter.Enumeration

/-! Registration of the variants of a family: the address of the body for each legal tuple. -/
namespace CopyPatch

/-- The tuples registered for a family with the addresses of their bodies, in order. -/
structure Registration where
  family : String
  arity : Nat
  entries : List (Tuple × Nat) := []
  deriving DecidableEq, Repr

namespace Registration

/-- Register a tuple. It has one value for each axis and is not registered yet. -/
def register (r : Registration) (tuple : Tuple) (address : Nat) :
    Except ModelError Registration :=
  if tuple.length ≠ r.arity then
    .error (.parameterCountMismatch r.family r.arity tuple.length)
  else if r.entries.any (·.1 = tuple) then .error (.duplicateTuple r.family tuple)
  else .ok { r with entries := r.entries ++ [(tuple, address)] }

/-- Register tuples in order. -/
def registerAll (r : Registration) (found : List (Tuple × Nat)) :
    Except ModelError Registration :=
  found.foldlM (fun r (tuple, address) => r.register tuple address) r

end Registration

/-- The load address of the body for a tuple. -/
def FamilyDecl.bodyAddress (decl : FamilyDecl) (moduleName : String) (map : LoadMap)
    (tuple : Tuple) : Outcome BuildError Nat := do
  let symbol ← Outcome.ofFaulting (decl.bodySymbol tuple)
  match map.addressOf symbol with
  | some address => return address
  | none => Outcome.fail (.unknownBody moduleName decl.name symbol (map.isDeclared symbol))

/-- Register every legal tuple of a family. -/
def FamilyDecl.register (decl : FamilyDecl) (moduleName : String) (map : LoadMap) :
    Outcome BuildError Registration := do
  let walk ← Outcome.ofReporting
    ((enumerate decl.axes decl.accepts (decl.bodyAddress moduleName map)).mapError
      BuildError.model)
  let found ← walk.outcome
  Outcome.ofReporting
    (((⟨decl.name, decl.axes.length, []⟩ : Registration).registerAll found).mapError
      BuildError.model)

end CopyPatch
