import CopyPatch.Extraction
import CopyPatch.Manifest.Basic

/-! Compiled modules: everything that the generated sources need, and what the cache keeps of a
module so that it need not be prepared again. -/
namespace CopyPatch

structure CompiledVariant where
  tuple : Tuple
  code : ExtractedCode
  deriving DecidableEq, Repr

structure CompiledFamily where
  name : String
  signature : List AxisSignature
  variants : List CompiledVariant
  index : Index
  deriving DecidableEq, Repr

namespace CompiledFamily

def axisKinds (family : CompiledFamily) : List AxisKind := family.signature.map (·.kind)

/-- The variant registered for a tuple. -/
def find? (family : CompiledFamily) (tuple : Tuple) : Option CompiledVariant :=
  (family.index.lookup tuple).bind fun ordinal => family.variants[ordinal.toNat]?

def usesThreadLocalBase (family : CompiledFamily) : Bool :=
  family.variants.any fun v => v.code.needsThreadLocalBase

/-- The family as the running program sees it. -/
def toFamily (family : CompiledFamily) : Family where
  name := family.name
  axes := family.axisKinds
  index := family.index
  variants := family.variants.map fun v => v.code.toBlueprint

end CompiledFamily

structure CompiledModule where
  name : String
  families : List CompiledFamily
  deriving DecidableEq, Repr

namespace CompiledModule

def family? (compiled : CompiledModule) (name : String) : Option CompiledFamily :=
  compiled.families.find? (·.name = name)

def variantCount (compiled : CompiledModule) : Nat :=
  compiled.families.foldl (fun n f => n + f.variants.length) 0

end CompiledModule

end CopyPatch
