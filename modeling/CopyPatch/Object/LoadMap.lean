import CopyPatch.Build.Error

/-! Load addresses. Nothing runs at them: they only tell the functions of an object apart, so that
a registered address can be led back to its symbol. Sections are laid out one after another from a
fixed base; names that the object leaves open get the address the process has for them, or a made
one. -/
namespace CopyPatch

/-- Where a section of the object being loaded was placed. -/
structure PlacedSection where
  index : Nat
  base : Nat
  /-- The address the section has inside the object. -/
  address : Nat
  deriving DecidableEq, Repr

structure LoadMap where
  nextCode : Nat := 0x700000000000
  nextExternal : Nat := 0x780000000000
  declared : List String := []
  /-- The last definition of a name counts. -/
  defined : List (String × Nat) := []
  /-- The first address of a name stays. -/
  externals : List (String × Nat) := []
  deriving DecidableEq, Repr

namespace LoadMap

/-- The least alignment of a section, and the distance of made addresses. -/
def minAlignment : Nat := 16

/-- The least multiple of `alignment` from `n` on. -/
def alignUp (n alignment : Nat) : Except Fault Nat :=
  if n % alignment = 0 then .ok n else Checked.add 64 n (alignment - n % alignment)

/-- The base of the next section, and the first address behind it. An empty section takes one
address, so that no two sections share one. -/
def placeNext (s : Object.Section) (next : Nat) : Except Fault (Nat × Nat) := do
  let base ← alignUp next (max s.alignment minAlignment)
  let behind ← Checked.add 64 base (max s.size 1)
  return (base, behind)

/-- Lay out sections in order. A fault keeps what was laid out before it. -/
def layout : List Object.Section → LoadMap → Except Fault (List PlacedSection) × LoadMap
  | [], map => (.ok [], map)
  | s :: rest, map =>
    match placeNext s map.nextCode with
    | .error fault => (.error fault, map)
    | .ok (base, behind) =>
      let (placed, map) := layout rest { map with nextCode := behind }
      (placed.map (⟨s.index, base, s.address⟩ :: ·), map)

def isDeclared (map : LoadMap) (name : String) : Bool := map.declared.contains name

def addressOf (map : LoadMap) (name : String) : Option Nat := map.defined.lookup name

def externalAddress (map : LoadMap) (name : String) : Option Nat := map.externals.lookup name

def declare (map : LoadMap) (name : String) : LoadMap :=
  if map.isDeclared name then map else { map with declared := name :: map.declared }

def define (map : LoadMap) (name : String) (address : Nat) : LoadMap :=
  { map with defined := (name, address) :: map.defined.filter (·.1 ≠ name) }

/-- Give an open name an address, once. -/
def resolveExternal (map : LoadMap) (process : String → Option Nat) (name : String) : LoadMap :=
  if (map.externalAddress name).isSome then map
  else match process name with
    | some address => { map with externals := (name, address) :: map.externals }
    | none => { map with
        nextExternal := map.nextExternal + minAlignment
        externals := (name, map.nextExternal) :: map.externals }

/-- Record one symbol. Only global symbols count, and of the defined ones only functions in a
section of the object. -/
def loadSymbol (process : String → Option Nat) (moduleName : String)
    (placed : List PlacedSection) (symbol : Object.Symbol) (map : LoadMap) :
    Outcome BuildError LoadMap :=
  if !symbol.isGlobal then .ok map
  else match symbol.name with
    | none => Outcome.fail (.malformedObject moduleName .unreadable)
    | some "" => .ok map
    | some name => match symbol.place with
      | .undefined => .ok ((map.declare name).resolveExternal process name)
      | .inSection index =>
        if symbol.type ≠ .text then .ok map
        else match placed.find? (·.index = index) with
          | none => .ok map
          | some home => Outcome.ofFaulting do
            let offset ← Checked.sub symbol.address home.address
            let address ← Checked.add 64 home.base offset
            return (map.declare name).define name address
      | _ => .ok map

/-- Record symbols in order. A failure keeps what was recorded before it. -/
def loadSymbols (process : String → Option Nat) (moduleName : String)
    (placed : List PlacedSection) :
    List Object.Symbol → LoadMap → Outcome BuildError Unit × LoadMap
  | [], map => (.ok (), map)
  | symbol :: rest, map =>
    match loadSymbol process moduleName placed symbol map with
    | .error failure => (.error failure, map)
    | .ok map => loadSymbols process moduleName placed rest map

/-- Load an object. What was laid out and recorded before a failure stays. -/
def load (process : String → Option Nat) (moduleName : String) (file : ObjectFile)
    (map : LoadMap) : Outcome BuildError Unit × LoadMap :=
  match layout file.properSections map with
  | (.error fault, map) => (.error (.fault fault), map)
  | (.ok placed, map) => loadSymbols process moduleName placed file.properSymbols map

/-- The defined names at an address, sorted. -/
def symbolsAt (map : LoadMap) (address : Nat) : List String :=
  ((map.defined.filter (·.2 = address)).map (·.1)).mergeSort fun a b => !(b < a)

/-- The one defined symbol at an address. -/
def resolve (map : LoadMap) (moduleName : String) (address : Nat) : Except BuildError String :=
  match map.symbolsAt address with
  | [] => .error (.unresolvedAddress moduleName address)
  | [name] => .ok name
  | names => .error (.ambiguousAddress moduleName address names)

end LoadMap

end CopyPatch
