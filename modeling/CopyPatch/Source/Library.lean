import CopyPatch.Source.Fragments

/-! The two generated source files for a list of compiled modules. Family names and the names of
generated types must be unique over all modules. -/
namespace CopyPatch

structure GeneratedSources where
  decls : String
  library : String
  deriving DecidableEq, Repr

namespace Source

/-- The families of all modules in order, each with its module; `owners` are the families before
them. -/
def ownedFrom (owners : List (String × String)) :
    List (String × CompiledFamily) → Except BuildError Unit
  | [] => .ok ()
  | (moduleName, family) :: rest =>
    match owners.lookup family.name with
    | some first => .error (.duplicateFamily family.name first moduleName)
    | none => ownedFrom ((family.name, moduleName) :: owners) rest

/-- Reserve type names for a family, or report the first that is taken. -/
def reserveTypes (moduleName family : String) (taken : List (String × String)) :
    List String → Except BuildError (List (String × String))
  | [] => .ok taken
  | name :: rest =>
    match taken.lookup name with
    | some other => .error (.malformedModule moduleName (.typeCollision name family other))
    | none => reserveTypes moduleName family ((name, family) :: taken) rest

/-- The generated types of all families are told apart by their names. -/
def typesFrom (taken : List (String × String)) :
    List (String × CompiledFamily) → Except BuildError Unit
  | [] => .ok ()
  | (moduleName, family) :: rest => do
    let types := family.signature.filterMap (enumTypeName? family.name)
    typesFrom (← reserveTypes moduleName family.name taken types) rest

/-- All families with the names of their modules. -/
def familiesOf (modules : List CompiledModule) : List (String × CompiledFamily) :=
  modules.flatMap fun m => m.families.map (m.name, ·)

def header (modules : List CompiledModule) : String :=
  lines ["// @generated by patchwork-build. DO NOT EDIT BY HAND.",
    "// Modules: " ++ ", ".intercalate (modules.map (·.name)),
    ""]

/-- The first file: declarations that stand before the tables. -/
def declsText (modules : List CompiledModule) (families : List CompiledFamily) : String :=
  header modules ++
  String.join (families.map declarations) ++
  lines (["/// Every family in the library, in generation order.",
    "pub const FAMILY_NAMES: &[&str] = &["] ++
    (families.map fun family => s!"    \"{family.name}\",") ++ [
    "];",
    "",
    "/// Whether any blueprint carries thread-local fixups.",
    "pub const USES_THREAD_LOCAL_BASE: bool = " ++
      (if families.any (·.usesThreadLocalBase) then "true" else "false") ++ ";"])

/-- The function that records the thread-local base, for a library that needs one. -/
def threadLocalInstaller : String :=
  lines ["",
    "/// Record the thread-pointer-relative offset of the host's thread-local base.",
    "///",
    "/// Call once at start-up, before specializing any blueprint with",
    "/// thread-local fixups. Returns `false` if a different offset is installed.",
    "pub fn install_thread_local_base(offset: i32) -> bool \x7b",
    s!"    {core}::tls::install_thread_local_base(offset)",
    "\x7d"]

/-- The second file: the tables and accessors of every family. -/
def libraryText (modules : List CompiledModule) (families : List CompiledFamily) : String :=
  header modules ++
  lines ["// Requires the items of patchwork_decls.rs in the same module.", ""] ++
  String.join (families.map fun family => familyModule family ++ accessor family) ++
  lines (["/// Every family in the library, in generation order.",
    s!"pub static FAMILIES: &[&{core}::BoilerplateFamily{forever}] = &["] ++
    (families.map fun family => s!"    &{itemName family.name}::FAMILY,") ++
    ["];"]) ++
  (if families.any (·.usesThreadLocalBase) then threadLocalInstaller else "")

end Source

/-- Generate both files for modules in order. -/
def generate (modules : List CompiledModule) : Except BuildError GeneratedSources := do
  let owned := Source.familiesOf modules
  Source.ownedFrom [] owned
  Source.typesFrom [] owned
  let families := owned.map (·.2)
  return ⟨Source.declsText modules families, Source.libraryText modules families⟩

end CopyPatch
