import CopyPatch.Proofs.Loading

/-! Load addresses tell functions apart. Objects are loaded one after another into one map, their
sections stand one behind the other, and every function gets an address inside its own section. So
two functions share an address only if they are one place of one section of one load. Open names
keep the address they first get, and no two made addresses are the same. -/
namespace CopyPatch

namespace Object

/-- Where a section of a list stands if the first one may begin at `next`. -/
inductive Placed : List Section → Nat → Section → Nat → Prop where
  | first {s : Section} {rest : List Section} {next : Nat} :
      Placed (s :: rest) next s (s.baseFrom next)
  | later {s t : Section} {rest : List Section} {next base : Nat}
      (behind : Placed rest (s.behind next) t base) : Placed (s :: rest) next t base

namespace Placed

variable {sections : List Section} {next base other : Nat} {s t : Section}

theorem mem (placed : Placed sections next s base) : s ∈ sections := by
  induction placed with
  | first => exact List.mem_cons_self
  | later _ ih => exact List.mem_cons_of_mem _ ih

theorem exists_of_mem (member : s ∈ sections) (next : Nat) :
    ∃ base, Placed sections next s base := by
  induction sections generalizing next with
  | nil => cases member
  | cons t rest ih =>
    rcases List.mem_cons.mp member with rfl | member
    · exact ⟨_, .first⟩
    · obtain ⟨base, behind⟩ := ih member (t.behind next)
      exact ⟨base, .later behind⟩

theorem of_mem_placements {home : PlacedSection} (member : home ∈ placements sections next) :
    ∃ s, Placed sections next s home.base ∧ home = ⟨s.index, home.base, s.address⟩ := by
  induction sections generalizing next with
  | nil => cases member
  | cons s rest ih =>
    rcases List.mem_cons.mp member with rfl | member
    · exact ⟨s, .first, rfl⟩
    · obtain ⟨t, behind, same⟩ := ih member
      exact ⟨t, .later behind, same⟩

theorem mem_placements (placed : Placed sections next s base) :
    ⟨s.index, base, s.address⟩ ∈ placements sections next := by
  induction placed with
  | first => exact List.mem_cons_self
  | later _ ih => exact List.mem_cons_of_mem _ ih

theorem le_base (placed : Placed sections next s base) : next ≤ base := by
  induction placed with
  | first => exact Section.le_baseFrom _ _
  | @later s t rest next base _ ih =>
    have : next ≤ s.baseFrom next := s.le_baseFrom next
    simp only [Section.behind] at ih
    omega

theorem le_layoutEnd (placed : Placed sections next s base) :
    base + max s.size 1 ≤ layoutEnd sections next := by
  induction placed with
  | first => exact Object.le_layoutEnd _ _
  | later _ ih => exact ih

/-- Sections do not overlap. -/
theorem unique (one : Placed sections next s base) (two : Placed sections next t other) {x y : Nat}
    (inside : x < max s.size 1) (within : y < max t.size 1) (same : base + x = other + y) :
    s = t ∧ base = other := by
  induction one with
  | @first s rest next =>
    cases two with
    | first => exact ⟨rfl, rfl⟩
    | later behind =>
      have := behind.le_base
      simp only [Section.behind] at this
      omega
  | @later s t rest next base behind ih =>
    cases two with
    | first =>
      have := behind.le_base
      simp only [Section.behind] at this
      omega
    | later further => exact ih further inside same

end Placed

end Object

open Object

/-- The object with the symbols behind the first `count` cut off. -/
def ObjectFile.upTo (file : ObjectFile) (count : Nat) : ObjectFile :=
  { file with symbols := file.symbols.take (count + 1) }

theorem ObjectFile.properSymbols_upTo (file : ObjectFile) (count : Nat) :
    (file.upTo count).properSymbols = file.properSymbols.take count := by
  rw [properSymbols, properSymbols, upTo, List.drop_take]
  rfl

namespace LoadMap

variable {process : String → Option Nat} {moduleName : String}

theorem loadSymbols_append {placed : List PlacedSection} {before after : List Symbol}
    {map : LoadMap}
    (loaded : (loadSymbols process moduleName placed (before ++ after) map).1 = .ok ()) :
    (loadSymbols process moduleName placed before map).1 = .ok () ∧
      loadSymbols process moduleName placed (before ++ after) map =
        loadSymbols process moduleName placed after
          (loadSymbols process moduleName placed before map).2 := by
  induction before generalizing map with
  | nil => exact ⟨rfl, rfl⟩
  | cons symbol rest ih =>
    rw [List.cons_append, loadSymbols] at loaded ⊢
    rw [loadSymbols]
    cases done : loadSymbol process moduleName placed symbol map with
    | error failure =>
      rw [done] at loaded
      cases loaded
    | ok next =>
      rw [done] at loaded
      exact ih loaded

variable {file : ObjectFile} {map : LoadMap}

theorem layoutEnd_lt_of_load (word : map.nextCode < 2 ^ 64)
    (loaded : (load process moduleName file map).1 = .ok ()) :
    layoutEnd file.properSections map.nextCode < 2 ^ 64 := by
  by_contra far
  obtain ⟨next, _, left⟩ := layout_of_le word (Nat.not_lt.mp far)
  rw [load, left] at loaded
  cases loaded

theorem load_of_lt (room : layoutEnd file.properSections map.nextCode < 2 ^ 64) :
    load process moduleName file map =
      loadSymbols process moduleName (placements file.properSections map.nextCode)
        file.properSymbols { map with nextCode := layoutEnd file.properSections map.nextCode } := by
  rw [load, layout_of_lt room]

theorem load_nextCode (room : layoutEnd file.properSections map.nextCode < 2 ^ 64) :
    (load process moduleName file map).2.nextCode = layoutEnd file.properSections map.nextCode := by
  rw [load_of_lt room, (loadSymbols_keeps _ _ _ _ _).1]

/-- An object that loads is loaded symbol by symbol: first up to some symbol, then from there. -/
theorem load_upTo (word : map.nextCode < 2 ^ 64)
    (loaded : (load process moduleName file map).1 = .ok ()) (count : Nat) :
    (load process moduleName (file.upTo count) map).1 = .ok () ∧
      load process moduleName file map =
        loadSymbols process moduleName (placements file.properSections map.nextCode)
          (file.properSymbols.drop count) (load process moduleName (file.upTo count) map).2 := by
  have room := layoutEnd_lt_of_load word loaded
  have cut : load process moduleName (file.upTo count) map =
      loadSymbols process moduleName (placements file.properSections map.nextCode)
        (file.properSymbols.take count)
        { map with nextCode := layoutEnd file.properSections map.nextCode } := by
    rw [← ObjectFile.properSymbols_upTo]
    exact load_of_lt room
  rw [load_of_lt room, ← List.take_append_drop count file.properSymbols] at loaded
  obtain ⟨first, second⟩ := loadSymbols_append loaded
  rw [cut, load_of_lt room]
  rw [List.take_append_drop] at second
  exact ⟨first, second⟩

/-- Recording one symbol of an object that loads. -/
theorem load_symbol (word : map.nextCode < 2 ^ 64)
    (loaded : (load process moduleName file map).1 = .ok ()) {position : Nat} {symbol : Symbol}
    (listed : file.properSymbols[position]? = some symbol) :
    ∃ before, loadSymbol process moduleName (placements file.properSections map.nextCode) symbol
        before = .ok (load process moduleName (file.upTo (position + 1)) map).2 := by
  have through := (load_upTo word loaded (position + 1)).1
  obtain ⟨_, onward⟩ := load_upTo word through position
  have inside : position < file.properSymbols.length := (List.getElem?_eq_some_iff.mp listed).1
  have last : (file.upTo (position + 1)).properSymbols.drop position = [symbol] := by
    rw [ObjectFile.properSymbols_upTo, List.take_add_one, listed]
    exact List.drop_left' (List.length_take_of_le (Nat.le_of_lt inside))
  refine ⟨(load process moduleName ((file.upTo (position + 1)).upTo position) map).2, ?_⟩
  rw [last, loadSymbols] at onward
  rw [onward] at through ⊢
  split at through
  · cases through
  · rename_i done
    exact done

/-- An effect keeps a property of maps. -/
def Effect.Keeps (process : String → Option Nat) (moduleName : String) (P : LoadMap → Prop)
    (effect : Effect) : Prop :=
  ∀ map next, effect.apply process moduleName map = .ok next → P map → P next

variable {P : LoadMap → Prop}

theorem loadSymbols_preserves {placed : List PlacedSection} {symbols : List Symbol}
    (steps : ∀ s ∈ symbols, ∀ effect, Effect.Of placed s effect →
      effect.Keeps process moduleName P) {map : LoadMap} (start : P map) :
    P (loadSymbols process moduleName placed symbols map).2 := by
  induction symbols generalizing map with
  | nil => exact start
  | cons symbol rest ih =>
    obtain ⟨first, others⟩ := List.forall_mem_cons.mp steps
    obtain ⟨effect, of, step⟩ := loadSymbol_eq moduleName placed symbol
    rw [loadSymbols, step]
    cases done : effect.apply process moduleName map with
    | error failure => exact start
    | ok next => exact ih others (first effect of map next done start)

end LoadMap

/-- A symbol of one of the objects that are loaded. -/
structure Occurrence (files : List ObjectFile) where
  load : Nat
  file : ObjectFile
  loaded : files[load]? = some file
  position : Nat
  symbol : Object.Symbol
  listed : file.properSymbols[position]? = some symbol

namespace Occurrence

variable {files : List ObjectFile}

/-- What has been loaded when the symbol is recorded: the objects before its own, and its own up
to and with the symbol. -/
def past (o : Occurrence files) : List ObjectFile :=
  files.take o.load ++ [o.file.upTo (o.position + 1)]

/-- The order in which symbols are recorded. -/
def Before (o p : Occurrence files) : Prop :=
  o.load < p.load ∨ o.load = p.load ∧ o.position < p.position

end Occurrence

/-- A function that is defined in a section of its object. -/
structure Definition (files : List ObjectFile) extends Occurrence files where
  name : String
  home : Object.Section
  shown : symbol.isGlobal = true
  named : symbol.name = some name
  nonempty : name ≠ ""
  function : symbol.type = .text
  inside : home ∈ file.properSections
  placed : symbol.place = .inSection home.index

/-- A name that an object leaves open. -/
structure OpenName (files : List ObjectFile) extends Occurrence files where
  name : String
  shown : symbol.isGlobal = true
  named : symbol.name = some name
  nonempty : name ≠ ""
  undefined : symbol.place = .undefined

namespace Definition

variable {files : List ObjectFile}

def offset (d : Definition files) : Nat := d.symbol.address - d.home.address

/-- The address that the definition gives to its name. -/
def given (d : Definition files) (process : String → Option Nat) (moduleName : String) :
    Option Nat :=
  (LoadMap.loadAll process moduleName d.past {}).addressOf d.name

/-- No later symbol defines the name again. -/
def IsLast (d : Definition files) : Prop :=
  ∀ e : Definition files, e.name = d.name → ¬ d.Before e.toOccurrence

end Definition

/-- The address that an open name has once its symbol is recorded. -/
def OpenName.given {files : List ObjectFile} (x : OpenName files)
    (process : String → Option Nat) (moduleName : String) : Option Nat :=
  (LoadMap.loadAll process moduleName x.past {}).externalAddress x.name

namespace LoadMap

variable {process : String → Option Nat} {moduleName : String} {files : List ObjectFile}

/-- Every object loads, one after another. -/
def AllLoad (process : String → Option Nat) (moduleName : String) (files : List ObjectFile) :
    Prop :=
  ∀ (i : Nat) (file : ObjectFile), files[i]? = some file →
    (load process moduleName file (loadAll process moduleName (files.take i) {})).1 = .ok ()

theorem nextCode_lt (process : String → Option Nat) (moduleName : String)
    (files : List ObjectFile) : (loadAll process moduleName files {}).nextCode < 2 ^ 64 :=
  (loadAll_keeps process moduleName files (by decide)).1

theorem loadAll_take_succ {i : Nat} {file : ObjectFile} (found : files[i]? = some file) :
    loadAll process moduleName (files.take (i + 1)) {} =
      (load process moduleName file (loadAll process moduleName (files.take i) {})).2 := by
  rw [List.take_add_one, found]
  exact loadAll_concat _ _ _ _ _

theorem nextCode_take_succ (all : AllLoad process moduleName files) {i : Nat} {file : ObjectFile}
    (found : files[i]? = some file) :
    (loadAll process moduleName (files.take (i + 1)) {}).nextCode =
      layoutEnd file.properSections (loadAll process moduleName (files.take i) {}).nextCode := by
  rw [loadAll_take_succ found]
  exact load_nextCode (layoutEnd_lt_of_load (nextCode_lt _ _ _) (all i file found))

theorem take_succ_of_none {i : Nat} (ended : files[i]? = none) :
    files.take (i + 1) = files.take i := by
  rw [List.take_add_one, ended]
  exact List.append_nil _

/-- Code grows upward. -/
theorem nextCode_mono (all : AllLoad process moduleName files) {i k : Nat} (earlier : i ≤ k) :
    (loadAll process moduleName (files.take i) {}).nextCode ≤
      (loadAll process moduleName (files.take k) {}).nextCode := by
  induction earlier with
  | refl => exact Nat.le_refl _
  | @step k _ ih =>
    cases found : files[k]? with
    | none => rwa [take_succ_of_none found]
    | some file =>
      rw [nextCode_take_succ all found]
      exact Nat.le_trans ih (Object.le_layoutEnd _ _)

theorem loadAll_past (o : Occurrence files) :
    loadAll process moduleName o.past {} =
      (load process moduleName (o.file.upTo (o.position + 1))
        (loadAll process moduleName (files.take o.load) {})).2 :=
  loadAll_concat _ _ _ _ _

section Preserved

variable {P : LoadMap → Prop} (moves : ∀ map next, P map → P { map with nextCode := next })

include moves

/-- What every symbol of an object keeps is kept by loading the object. -/
theorem preserved_by_load (all : AllLoad process moduleName files) {k : Nat}
    (steps : ∀ p : Occurrence files, p.load = k → ∀ next effect,
      Effect.Of (placements p.file.properSections next) p.symbol effect →
        effect.Keeps process moduleName P)
    (start : P (loadAll process moduleName (files.take k) {})) :
    P (loadAll process moduleName (files.take (k + 1)) {}) := by
  cases found : files[k]? with
  | none => rwa [take_succ_of_none found]
  | some file =>
    rw [loadAll_take_succ found,
      load_of_lt (layoutEnd_lt_of_load (nextCode_lt _ _ _) (all k file found))]
    refine loadSymbols_preserves (fun s member effect of => ?_) (moves _ _ start)
    obtain ⟨j, listed⟩ := List.mem_iff_getElem?.mp member
    exact steps ⟨k, file, found, j, s, listed⟩ rfl _ effect of

/-- What every later symbol keeps is kept from a symbol on through all later loads. -/
theorem preserved_after (all : AllLoad process moduleName files) (o : Occurrence files)
    (steps : ∀ p : Occurrence files, o.Before p → ∀ next effect,
      Effect.Of (placements p.file.properSections next) p.symbol effect →
        effect.Keeps process moduleName P)
    (start : P (loadAll process moduleName o.past {})) {k : Nat} (later : o.load < k) :
    P (loadAll process moduleName (files.take k) {}) := by
  induction later with
  | refl =>
    obtain ⟨_, onward⟩ :=
      load_upTo (nextCode_lt _ _ _) (all o.load o.file o.loaded) (o.position + 1)
    rw [Nat.succ_eq_add_one, loadAll_take_succ o.loaded, onward, ← loadAll_past]
    refine loadSymbols_preserves (fun s member effect of => ?_) start
    obtain ⟨j, listed⟩ := List.mem_iff_getElem?.mp member
    rw [List.getElem?_drop] at listed
    have behind : o.position < o.position + 1 + j := by omega
    exact steps ⟨o.load, o.file, o.loaded, _, s, listed⟩ (Or.inr ⟨rfl, behind⟩) _ effect of
  | @step k reached ih =>
    exact preserved_by_load moves all (fun p own => steps p (Or.inl (own ▸ reached))) ih

/-- What every effect keeps holds after any loads if it holds of the empty map. -/
theorem preserved_from_start (all : AllLoad process moduleName files)
    (steps : ∀ effect : Effect, effect.Keeps process moduleName P) (start : P {}) (k : Nat) :
    P (loadAll process moduleName (files.take k) {}) := by
  induction k with
  | zero => exact start
  | succ k ih => exact preserved_by_load moves all (fun _ _ _ effect _ => steps effect) ih

end Preserved

theorem addressOf_define (map : LoadMap) (name other : String) (address : Nat) :
    ((map.declare name).define name address).addressOf other =
      if other = name then some address else map.addressOf other := by
  obtain ⟨declared, same⟩ := map.declare_eq name
  rw [same, addressOf, addressOf, define, List.lookup_cons]
  by_cases own : other = name
  · rw [if_pos own, beq_iff_eq.mpr own]
  · rw [if_neg own, beq_eq_false_iff_ne.mpr own]
    exact (lookup_filter _ _ _).trans (if_neg own)

theorem resolveExternal_defined (map : LoadMap) (name : String) :
    (map.resolveExternal process name).defined = map.defined := by
  unfold resolveExternal
  split
  · rfl
  · split <;> rfl

/-- The address of a name changes only where the name is defined. -/
theorem Effect.keeps_addressOf {effect : Effect} {name : String}
    (other : ∀ address, effect ≠ .define name address) (known : Option Nat) :
    effect.Keeps process moduleName fun map => map.addressOf name = known := by
  intro map next done held
  cases effect with
  | refuse => cases done
  | fault cause => cases done
  | define defined address =>
    cases done
    have differs : name ≠ defined := by
      rintro rfl
      exact other address rfl
    exact (addressOf_define map defined name address).trans ((if_neg differs).trans held)
  | leaveOpen opened =>
    cases done
    obtain ⟨declared, same⟩ := map.declare_eq opened
    rw [addressOf, resolveExternal_defined, same]
    exact held
  | nothing =>
    cases done
    exact held

/-- A definition gives its name the address of its place, which lies in its section. -/
theorem given_eq (all : AllLoad process moduleName files)
    (read : ∀ file ∈ files, file.Numbered) (d : Definition files) :
    ∃ base, Placed d.file.properSections
        (loadAll process moduleName (files.take d.load) {}).nextCode d.home base ∧
      d.given process moduleName = some (base + d.offset) := by
  obtain ⟨base, placed⟩ := Placed.exists_of_mem d.inside
    (loadAll process moduleName (files.take d.load) {}).nextCode
  refine ⟨base, placed, ?_⟩
  have apart := (read d.file (List.mem_of_getElem? d.loaded)).apart
    (loadAll process moduleName (files.take d.load) {}).nextCode
  obtain ⟨before, done⟩ :=
    load_symbol (nextCode_lt _ _ _) (all d.load d.file d.loaded) d.listed
  obtain ⟨effect, of, step⟩ := loadSymbol_eq moduleName (placements d.file.properSections
    (loadAll process moduleName (files.take d.load) {}).nextCode) d.symbol
  rw [step] at done
  have stands : d.symbol.StandsIn (placements d.file.properSections
      (loadAll process moduleName (files.take d.load) {}).nextCode) d.name
      ⟨d.home.index, base, d.home.address⟩ :=
    ⟨d.shown, d.named, d.nonempty, d.function, d.placed, placed.mem_placements⟩
  have effects := of.of_standsIn apart stands
  rw [Definition.given, loadAll_past]
  split at effects
  · subst effects
    cases done
  · split at effects
    · subst effects
      rw [← Except.ok.inj done]
      exact (addressOf_define _ _ _ _).trans (if_pos rfl)
    · subst effects
      cases done

/-- A definition inside its section has an address before all later loads. -/
theorem given_lt (all : AllLoad process moduleName files) {d : Definition files} {base : Nat}
    (placed : Placed d.file.properSections
      (loadAll process moduleName (files.take d.load) {}).nextCode d.home base)
    (inside : d.offset < max d.home.size 1) {k : Nat} (later : d.load < k) :
    base + d.offset < (loadAll process moduleName (files.take k) {}).nextCode := by
  have bound := placed.le_layoutEnd
  rw [← nextCode_take_succ all d.loaded] at bound
  have grown := nextCode_mono all (Nat.succ_le_of_lt later)
  rw [Nat.succ_eq_add_one] at grown
  omega

/-- Two definitions inside their sections have one address exactly if they are one place. -/
theorem given_eq_iff (all : AllLoad process moduleName files)
    (numbered : ∀ file ∈ files, file.Numbered) {d e : Definition files}
    (inside : d.offset < max d.home.size 1) (within : e.offset < max e.home.size 1) :
    ∃ a b, d.given process moduleName = some a ∧ e.given process moduleName = some b ∧
      (a = b ↔ d.load = e.load ∧ d.home.index = e.home.index ∧ d.offset = e.offset) := by
  obtain ⟨base, placed, gives⟩ := given_eq all numbered d
  obtain ⟨other, follows, gets⟩ := given_eq all numbered e
  refine ⟨_, _, gives, gets, ?_⟩
  rcases Nat.lt_trichotomy d.load e.load with earlier | together | later
  · have := given_lt all placed inside earlier
    have := follows.le_base
    omega
  · -- in one load the two definitions stand in one layout
    have same : d.file = e.file := by
      have loaded := d.loaded
      rw [together, e.loaded] at loaded
      exact (Option.some.inj loaded).symm
    rw [same, together] at placed
    constructor
    · intro equal
      obtain ⟨home, based⟩ := placed.unique follows inside within equal
      exact ⟨together, by rw [home], by omega⟩
    · rintro ⟨_, home, offsets⟩
      have apart := (numbered e.file (List.mem_of_getElem? e.loaded)).apart
        (loadAll process moduleName (files.take e.load) {}).nextCode
      have one := apart.unique placed.mem_placements follows.mem_placements home
      rw [offsets, (PlacedSection.mk.inj one).2.1]
  · have := given_lt all follows within later
    have := placed.le_base
    omega

/-- After all loads a name has the address of its last definition. -/
theorem addressOf_last (all : AllLoad process moduleName files) {d : Definition files}
    (last : d.IsLast) :
    (loadAll process moduleName files {}).addressOf d.name = d.given process moduleName := by
  have reached : d.load < files.length := (List.getElem?_eq_some_iff.mp d.loaded).1
  have kept := preserved_after (P := fun map => map.addressOf d.name = d.given process moduleName)
    (fun _ _ held => held) all d.toOccurrence (fun p later next effect of => ?_) rfl reached
  · rwa [List.take_length] at kept
  · -- a later symbol that defines the name would be a later definition
    refine Effect.keeps_addressOf (fun address same => ?_) _
    subst same
    cases of with
    | @define _ home stands above within =>
      obtain ⟨s, placed, same⟩ := Placed.of_mem_placements stands.placed
      have number : home.index = s.index := congrArg PlacedSection.index same
      let again : Definition files :=
        ⟨p, d.name, s, stands.isGlobal, stands.named, stands.nonempty, stands.type, placed.mem,
          stands.place.trans (congrArg Place.inSection number)⟩
      exact last again rfl later

theorem loadSymbol_open {placed : List PlacedSection} {symbol : Symbol} {name : String}
    (shown : symbol.isGlobal = true) (named : symbol.name = some name) (nonempty : name ≠ "")
    (undefined : symbol.place = .undefined) (map : LoadMap) :
    loadSymbol process moduleName placed symbol map =
      .ok ((map.declare name).resolveExternal process name) := by
  rw [loadSymbol, shown, named, undefined]
  split
  · cases ‹(!true) = true›
  · split
    · rename_i none
      cases none
    · rename_i empty
      exact absurd (Option.some.inj empty) nonempty
    · rename_i found same
      cases same
      rfl

/-- An open name gets an address if it has none; the other names keep theirs. -/
theorem externalAddress_resolve (map : LoadMap) (name other : String) :
    ((map.declare name).resolveExternal process name).externalAddress other =
      if other = name then
        some ((map.externalAddress name).getD ((process name).getD map.nextExternal))
      else map.externalAddress other := by
  obtain ⟨declared, same⟩ := map.declare_eq name
  have unseen : (map.declare name).externalAddress = map.externalAddress := by rw [same]; rfl
  have counted : (map.declare name).nextExternal = map.nextExternal := by rw [same]
  have first : ∀ address, ((name, address) :: (map.declare name).externals).lookup other =
      if other = name then some address else map.externalAddress other := by
    intro address
    rw [List.lookup_cons, same]
    by_cases own : other = name
    · rw [if_pos own, beq_iff_eq.mpr own]
    · rw [if_neg own, beq_eq_false_iff_ne.mpr own]
      rfl
  rw [resolveExternal, unseen]
  cases held : map.externalAddress name with
  | some address =>
    rw [Option.isSome_some, if_pos rfl, unseen]
    by_cases own : other = name
    · rw [if_pos own, own, held]
      rfl
    · rw [if_neg own]
  | none =>
    cases found : process name with
    | some address => exact first address
    | none =>
      rw [← counted]
      exact first _

theorem nextExternal_resolve (map : LoadMap) (name : String) :
    ((map.declare name).resolveExternal process name).nextExternal =
      if map.externalAddress name = none ∧ process name = none then map.nextExternal + minAlignment
      else map.nextExternal := by
  obtain ⟨declared, same⟩ := map.declare_eq name
  rw [same, resolveExternal]
  have unseen : ({ map with declared } : LoadMap).externalAddress name =
      map.externalAddress name := rfl
  rw [unseen]
  cases held : map.externalAddress name with
  | some address => simp
  | none => cases found : process name <;> simp

/-- A name that has an address keeps it. -/
theorem Effect.keeps_externalAddress (effect : Effect) (name : String) (address : Nat) :
    effect.Keeps process moduleName fun map => map.externalAddress name = some address := by
  intro map next done held
  cases effect with
  | refuse => cases done
  | fault cause => cases done
  | define defined _ =>
    cases done
    obtain ⟨declared, same⟩ := map.declare_eq defined
    rw [same]
    exact held
  | leaveOpen opened =>
    cases done
    rw [externalAddress_resolve]
    by_cases own : name = opened
    · rw [if_pos own, ← own, held]
      rfl
    · rw [if_neg own, held]
  | nothing =>
    cases done
    exact held

/-- Where the addresses of open names come from. -/
structure OpenNamesApart (process : String → Option Nat) (map : LoadMap) : Prop where
  counted : ∃ k, map.nextExternal = 0x780000000000 + minAlignment * k
  known : ∀ name address, map.externalAddress name = some address →
    ∀ found, process name = some found → address = found
  made : ∀ name address, map.externalAddress name = some address → process name = none →
    (∃ k, address = 0x780000000000 + minAlignment * k) ∧ address < map.nextExternal
  apart : ∀ first second address, process first = none → process second = none →
    map.externalAddress first = some address → map.externalAddress second = some address →
      first = second

/-- After a name is resolved, an address is an old one or that of the name: found by the process,
or the next one to be made. -/
theorem externalAddress_resolve_cases {map : LoadMap} {name other : String} {address : Nat}
    (held : ((map.declare name).resolveExternal process name).externalAddress other =
      some address) :
    map.externalAddress other = some address ∨
      other = name ∧ map.externalAddress name = none ∧
        address = (process name).getD map.nextExternal := by
  rw [externalAddress_resolve] at held
  by_cases own : other = name
  · rw [if_pos own] at held
    cases old : map.externalAddress name with
    | some known =>
      rw [old] at held
      exact Or.inl (own ▸ old.trans held)
    | none =>
      rw [old] at held
      exact Or.inr ⟨own, rfl, (Option.some.inj held).symm⟩
  · rw [if_neg own] at held
    exact Or.inl held

theorem OpenNamesApart.resolve {map : LoadMap} (sound : OpenNamesApart process map)
    (name : String) :
    OpenNamesApart process ((map.declare name).resolveExternal process name) := by
  have grown : map.nextExternal ≤
      ((map.declare name).resolveExternal process name).nextExternal := by
    rw [nextExternal_resolve]
    split
    · exact Nat.le_add_right _ _
    · exact Nat.le_refl _
  refine ⟨?_, ?_, ?_, ?_⟩
  · obtain ⟨k, counted⟩ := sound.counted
    rw [nextExternal_resolve]
    split
    · exact ⟨k + 1, by rw [counted, Nat.mul_succ, Nat.add_assoc]⟩
    · exact ⟨k, counted⟩
  · intro other address held found looked
    rcases externalAddress_resolve_cases held with old | ⟨rfl, _, rfl⟩
    · exact sound.known other address old found looked
    · rw [looked, Option.getD_some]
  · intro other address held unknown
    rcases externalAddress_resolve_cases held with old | ⟨rfl, new, rfl⟩
    · obtain ⟨made, below⟩ := sound.made other address old unknown
      exact ⟨made, Nat.lt_of_lt_of_le below grown⟩
    · rw [unknown, Option.getD_none, nextExternal_resolve, if_pos ⟨new, unknown⟩]
      exact ⟨sound.counted, Nat.lt_add_of_pos_right (by decide)⟩
  · intro first second address unknown unseen held kept
    -- a new made address lies behind all that were made before
    have fresh : ∀ other, process other = none →
        map.externalAddress other ≠ some map.nextExternal := by
      intro other unknown old
      exact Nat.lt_irrefl _ (sound.made other _ old unknown).2
    rcases externalAddress_resolve_cases held with old | ⟨rfl, _, rfl⟩
    · rcases externalAddress_resolve_cases kept with before | ⟨rfl, _, rfl⟩
      · exact sound.apart first second address unknown unseen old before
      · rw [unseen] at old
        exact absurd old (fresh first unknown)
    · rcases externalAddress_resolve_cases kept with before | ⟨rfl, _, _⟩
      · rw [unknown] at before
        exact absurd before (fresh second unseen)
      · rfl

theorem Effect.keeps_openNamesApart (effect : Effect) :
    effect.Keeps process moduleName (OpenNamesApart process) := by
  intro map next done sound
  cases effect with
  | refuse => cases done
  | fault cause => cases done
  | define defined _ =>
    cases done
    obtain ⟨declared, same⟩ := map.declare_eq defined
    rw [same]
    exact ⟨sound.counted, sound.known, sound.made, sound.apart⟩
  | leaveOpen opened =>
    cases done
    exact sound.resolve opened
  | nothing =>
    cases done
    exact sound

theorem openNamesApart_loadAll (all : AllLoad process moduleName files) :
    OpenNamesApart process (loadAll process moduleName files {}) := by
  have empty : OpenNamesApart process {} := by
    refine ⟨⟨0, rfl⟩, ?_, ?_, ?_⟩ <;> intros <;> contradiction
  have held := preserved_from_start (P := OpenNamesApart process)
    (fun _ _ sound => ⟨sound.counted, sound.known, sound.made, sound.apart⟩) all
    Effect.keeps_openNamesApart empty files.length
  rwa [List.take_length] at held

/-- An open name gets an address with its symbol and keeps it through all later loads. -/
theorem openName_kept (all : AllLoad process moduleName files) (x : OpenName files) :
    ∃ address, x.given process moduleName = some address ∧ ∀ k, x.load < k →
      (loadAll process moduleName (files.take k) {}).externalAddress x.name = some address := by
  obtain ⟨before, done⟩ :=
    load_symbol (nextCode_lt _ _ _) (all x.load x.file x.loaded) x.listed
  have gets : ∃ address, x.given process moduleName = some address := by
    rw [loadSymbol_open x.shown x.named x.nonempty x.undefined] at done
    rw [OpenName.given, loadAll_past, ← Except.ok.inj done, externalAddress_resolve, if_pos rfl]
    exact ⟨_, rfl⟩
  obtain ⟨address, given⟩ := gets
  refine ⟨address, given, fun k later => ?_⟩
  exact preserved_after (P := fun map => map.externalAddress x.name = some address)
    (fun _ _ held => held) all x.toOccurrence
    (fun _ _ _ effect _ => effect.keeps_externalAddress _ _) given later

end LoadMap

open LoadMap

/-- After any objects have been loaded into one map, two functions inside their sections have one
address exactly if they are one place of one section of one load, and a name has the address of
its last definition. An open name keeps the address it gets first, which is the one the process
has for it; the names that the process does not know get made addresses, each its own. -/
theorem load_addresses_tell_apart {process : String → Option Nat} {moduleName : String}
    {files : List ObjectFile}
    (read : ∀ file ∈ files, ∃ bytes format, Object.read bytes = some (format, file))
    (all : AllLoad process moduleName files) :
    (∀ d e : Definition files, d.offset < max d.home.size 1 → e.offset < max e.home.size 1 →
      ∃ a b, d.given process moduleName = some a ∧ e.given process moduleName = some b ∧
        (a = b ↔ d.load = e.load ∧ d.home.index = e.home.index ∧ d.offset = e.offset)) ∧
    (∀ d : Definition files, d.IsLast →
      (loadAll process moduleName files {}).addressOf d.name = d.given process moduleName) ∧
    (∀ x : OpenName files, ∃ address, x.given process moduleName = some address ∧
      (∀ found, process x.name = some found → address = found) ∧
      ∀ k, x.load < k →
        (loadAll process moduleName (files.take k) {}).externalAddress x.name = some address) ∧
    ∀ x y : OpenName files, process x.name = none → process y.name = none → x.name ≠ y.name →
      ∃ j k, x.given process moduleName = some (0x780000000000 + 16 * j) ∧
        y.given process moduleName = some (0x780000000000 + 16 * k) ∧ j ≠ k := by
  have numbered : ∀ file ∈ files, file.Numbered := by
    intro file member
    obtain ⟨bytes, format, found⟩ := read file member
    exact Object.read_numbered found
  have sound := openNamesApart_loadAll all
  have final : ∀ x : OpenName files, ∀ address,
      x.given process moduleName = some address →
        (loadAll process moduleName files {}).externalAddress x.name = some address := by
    intro x address given
    obtain ⟨_, same, kept⟩ := openName_kept all x
    rw [given] at same
    have reached : x.load < files.length := (List.getElem?_eq_some_iff.mp x.loaded).1
    have held := kept files.length reached
    rwa [List.take_length, ← same] at held
  refine ⟨fun d e => given_eq_iff all numbered, fun d => addressOf_last all, fun x => ?_,
    fun x y unknown unseen differ => ?_⟩
  · obtain ⟨address, given, kept⟩ := openName_kept all x
    exact ⟨address, given, sound.known x.name address (final x address given), kept⟩
  · obtain ⟨first, given, _⟩ := openName_kept all x
    obtain ⟨second, gets, _⟩ := openName_kept all y
    obtain ⟨⟨j, rfl⟩, _⟩ := sound.made x.name first (final x first given) unknown
    obtain ⟨⟨k, rfl⟩, _⟩ := sound.made y.name second (final y second gets) unseen
    refine ⟨j, k, given, gets, ?_⟩
    rintro rfl
    exact differ (sound.apart x.name y.name _ unknown unseen (final x _ given) (final y _ gets))

/-- The small object loaded twice: its first function gets two addresses, and two of the names it
leaves open get two made ones. -/
theorem small_object_loaded_twice :
    ∃ file, Object.accept SmallObject.bytes = .ok file ∧
      AllLoad (fun _ => none) "m" [file, file] ∧
      (∃ d e : Definition [file, file], d.name = "f_false" ∧ e.name = "f_false" ∧
        d.load = 0 ∧ e.load = 1 ∧ d.given (fun _ => none) "m" ≠ e.given (fun _ => none) "m") ∧
      ∃ x y : OpenName [file, file], x.name ≠ y.name ∧
        x.given (fun _ => none) "m" ≠ y.given (fun _ => none) "m" := by
  have evaluated : (do
      let file ← (Object.accept SmallObject.bytes).toOption
      let home ← file.properSections[0]?
      let symbol ← file.properSymbols[0]?
      let first ← file.properSymbols[2]?
      let second ← file.properSymbols[3]?
      return decide ((load (fun _ => none) "m" file {}).1 = .ok () ∧
        (load (fun _ => none) "m" file (loadAll (fun _ => none) "m" [file] {})).1 = .ok () ∧
        (symbol.isGlobal = true ∧ symbol.name = some "f_false" ∧ symbol.type = .text ∧
          symbol.place = .inSection home.index ∧
          symbol.address - home.address < max home.size 1) ∧
        (first.isGlobal = true ∧ first.name = some "__patchwork_const_0" ∧
          first.place = .undefined) ∧
        (second.isGlobal = true ∧ second.name = some "__patchwork_host_fn_0" ∧
          second.place = .undefined))) = some true := by decide +kernel
  simp only [Option.bind_eq_bind, Option.bind_eq_some_iff, Outcome.toOption_eq_some] at evaluated
  obtain ⟨file, accepted, home, housed, symbol, listed, first, opened, second, left, facts⟩ :=
    evaluated
  obtain ⟨once, twice, ⟨shown, named, function, placed, inside⟩, ⟨shown₁, named₁, undefined₁⟩,
    ⟨shown₂, named₂, undefined₂⟩⟩ := of_decide_eq_true (Option.some.inj facts)
  have read : ∀ f ∈ [file, file], ∃ bytes format, Object.read bytes = some (format, f) := by
    intro f member
    obtain ⟨format, found⟩ := Object.read_of_accept accepted
    have same : f = file := by simpa using member
    exact ⟨_, format, same ▸ found⟩
  have all : AllLoad (fun _ => none) "m" [file, file] := by
    intro i f found
    rcases i with _ | _ | i
    · cases found
      exact once
    · cases found
      exact twice
    · cases found
  obtain ⟨tell, _, _, distinct⟩ := load_addresses_tell_apart read all
  let d : Definition [file, file] := ⟨⟨0, file, rfl, 0, symbol, listed⟩, "f_false", home, shown,
    named, by decide, function, List.mem_of_getElem? housed, placed⟩
  let e : Definition [file, file] := ⟨⟨1, file, rfl, 0, symbol, listed⟩, "f_false", home, shown,
    named, by decide, function, List.mem_of_getElem? housed, placed⟩
  let x : OpenName [file, file] := ⟨⟨0, file, rfl, 2, first, opened⟩, "__patchwork_const_0",
    shown₁, named₁, by decide, undefined₁⟩
  let y : OpenName [file, file] := ⟨⟨1, file, rfl, 3, second, left⟩, "__patchwork_host_fn_0",
    shown₂, named₂, by decide, undefined₂⟩
  have names : x.name ≠ y.name :=
    show "__patchwork_const_0" ≠ "__patchwork_host_fn_0" by decide
  refine ⟨file, accepted, all, ⟨d, e, rfl, rfl, rfl, rfl, ?_⟩, ⟨x, y, names, ?_⟩⟩
  · obtain ⟨a, b, given, gets, iff⟩ := tell d e inside inside
    rw [given, gets]
    intro same
    exact Nat.zero_ne_one (iff.mp (Option.some.inj same)).1
  · obtain ⟨j, k, given, gets, differ⟩ := distinct x y rfl rfl names
    rw [given, gets]
    intro same
    exact differ (by have := Option.some.inj same; omega)

end CopyPatch
