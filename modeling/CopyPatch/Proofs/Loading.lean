import CopyPatch.Object.LoadMap
import CopyPatch.Proofs.Extraction.Sections
import Mathlib.Data.List.Nodup

/-! Loading an object, step by step, and exactly when it faults. The layout is compared with the one
in unbounded numbers: it faults if that one ends behind the last address. A symbol faults if it
stands below its section or behind the last address. Which of these happens, and what is refused,
never depends on the process or on what was loaded before, but for where the layout begins. -/
namespace CopyPatch

theorem exists_first_cons {α : Type} {P Q : α → Prop} {a : α} {rest : List α} :
    (∃ before x after, a :: rest = before ++ x :: after ∧ (∀ b ∈ before, P b) ∧ Q x) ↔
      Q a ∨ P a ∧ ∃ before x after, rest = before ++ x :: after ∧ (∀ b ∈ before, P b) ∧ Q x := by
  constructor
  · rintro ⟨before, x, after, split, earlier, holds⟩
    cases before with
    | nil =>
      cases split
      exact Or.inl holds
    | cons b before =>
      cases split
      obtain ⟨first, others⟩ := List.forall_mem_cons.mp earlier
      exact Or.inr ⟨first, before, x, after, rfl, others, holds⟩
  · rintro (holds | ⟨first, before, x, after, rfl, others, holds⟩)
    · exact ⟨[], a, rest, rfl, List.forall_mem_nil P, holds⟩
    · exact ⟨a :: before, x, after, rfl, List.forall_mem_cons.mpr ⟨first, others⟩, holds⟩

namespace Object

/-- The least multiple of `alignment` from `n` on, in unbounded numbers. -/
def roundUp (n alignment : Nat) : Nat := (n + alignment - 1) / alignment * alignment

/-- Where a section begins if the addresses from `next` on are free. -/
def Section.baseFrom (s : Section) (next : Nat) : Nat :=
  roundUp next (max s.alignment LoadMap.minAlignment)

/-- The first address behind the section. -/
def Section.behind (s : Section) (next : Nat) : Nat := s.baseFrom next + max s.size 1

/-- The first address behind all sections. -/
def layoutEnd : List Section → Nat → Nat
  | [], next => next
  | s :: rest, next => layoutEnd rest (s.behind next)

/-- Where the sections stand, in unbounded numbers. -/
def placements : List Section → Nat → List PlacedSection
  | [], _ => []
  | s :: rest, next => ⟨s.index, s.baseFrom next, s.address⟩ :: placements rest (s.behind next)

theorem roundUp_eq {n alignment : Nat} (positive : 0 < alignment) :
    roundUp n alignment = if n % alignment = 0 then n else n + (alignment - n % alignment) := by
  have whole := Nat.div_add_mod n alignment
  have less := Nat.mod_lt n positive
  generalize n / alignment = q at whole
  generalize n % alignment = r at whole less
  -- both cases are one division: the sum is a multiple and a rest that is too small for another
  have quotient : ∀ k rest, rest < alignment → n + alignment - 1 = alignment * k + rest →
      roundUp n alignment = alignment * k := by
    intro k rest small sum
    rw [roundUp, sum, Nat.mul_add_div positive, Nat.div_eq_of_lt small, Nat.add_zero, Nat.mul_comm]
  split
  · rw [quotient q (alignment - 1) (by omega) (by omega)]
    omega
  · rw [quotient (q + 1) (r - 1) (by omega) (by rw [Nat.mul_succ]; omega), Nat.mul_succ]
    omega

theorem Section.le_baseFrom (s : Section) (next : Nat) : next ≤ s.baseFrom next := by
  rw [Section.baseFrom, roundUp_eq (Nat.lt_of_lt_of_le (by decide) (Nat.le_max_right _ _))]
  split
  · exact Nat.le_refl next
  · exact Nat.le_add_right _ _

theorem le_layoutEnd (sections : List Section) (next : Nat) : next ≤ layoutEnd sections next := by
  induction sections generalizing next with
  | nil => exact Nat.le_refl next
  | cons s rest ih =>
    calc next ≤ s.baseFrom next := s.le_baseFrom next
      _ ≤ s.behind next := Nat.le_add_right _ _
      _ ≤ layoutEnd rest (s.behind next) := ih _

theorem index_placements (sections : List Section) (next : Nat) :
    (placements sections next).map (·.index) = sections.map (·.index) := by
  induction sections generalizing next with
  | nil => rfl
  | cons s rest ih =>
    rw [placements, List.map_cons, List.map_cons, ih]

/-- A global symbol without a readable name ends the loading of its object. -/
def Symbol.Unreadable (symbol : Symbol) : Prop := symbol.isGlobal = true ∧ symbol.name = none

/-- The symbol is a global function with its body in a section of the object. -/
structure Symbol.StandsIn (symbol : Symbol) (placed : List PlacedSection) (name : String)
    (home : PlacedSection) : Prop where
  isGlobal : symbol.isGlobal = true
  named : symbol.name = some name
  nonempty : name ≠ ""
  type : symbol.type = .text
  place : symbol.place = .inSection home.index
  placed : home ∈ placed

/-- The symbol has no address: it stands below its section, or behind the last address. -/
inductive Symbol.Faults (symbol : Symbol) (placed : List PlacedSection) : Fault → Prop where
  | below {name : String} {home : PlacedSection} (stands : symbol.StandsIn placed name home)
      (low : symbol.address < home.address) : symbol.Faults placed .differenceOverflow
  | beyond {name : String} {home : PlacedSection} (stands : symbol.StandsIn placed name home)
      (above : home.address ≤ symbol.address)
      (far : 2 ^ 64 ≤ home.base + (symbol.address - home.address)) :
      symbol.Faults placed .sumOverflow

/-- Loading goes on behind the symbol. -/
def Symbol.Loads (symbol : Symbol) (placed : List PlacedSection) : Prop :=
  ¬ symbol.Unreadable ∧ ∀ fault, ¬ symbol.Faults placed fault

/-- No two sections have one number. -/
def Apart (placed : List PlacedSection) : Prop := (placed.map (·.index)).Nodup

theorem Apart.unique {placed : List PlacedSection} (apart : Apart placed)
    {home other : PlacedSection} (first : home ∈ placed) (second : other ∈ placed)
    (same : home.index = other.index) : home = other :=
  List.inj_on_of_nodup_map apart first second same

end Object

open Object

/-- Loading the object from the address `next` on faults: its layout leaves the addresses, or a
symbol has none while all before it load. -/
inductive ObjectFile.LoadFaults (file : ObjectFile) (next : Nat) : Fault → Prop where
  | layout (far : 2 ^ 64 ≤ layoutEnd file.properSections next) : file.LoadFaults next .sumOverflow
  | symbol {before after : List Symbol} {symbol : Symbol} {fault : Fault}
      (room : layoutEnd file.properSections next < 2 ^ 64)
      (table : file.properSymbols = before ++ symbol :: after)
      (earlier : ∀ s ∈ before, s.Loads (placements file.properSections next))
      (faults : symbol.Faults (placements file.properSections next) fault) :
      file.LoadFaults next fault

theorem ObjectFile.Numbered.apart {file : ObjectFile} (numbered : file.Numbered) (next : Nat) :
    Apart (placements file.properSections next) := by
  rw [Apart, index_placements, List.Nodup, List.pairwise_map, List.pairwise_iff_getElem]
  intro i j hi hj less same
  rw [numbered.index_proper (List.getElem?_eq_getElem hi),
    numbered.index_proper (List.getElem?_eq_getElem hj)] at same
  omega

namespace LoadMap

theorem alignUp_eq {n alignment : Nat} (positive : 0 < alignment) (word : n < 2 ^ 64) :
    alignUp n alignment =
      if roundUp n alignment < 2 ^ 64 then .ok (roundUp n alignment) else .error .sumOverflow := by
  rw [roundUp_eq positive, alignUp]
  by_cases whole : n % alignment = 0
  · rw [if_pos whole, if_pos whole, if_pos word]
  · rw [if_neg whole, if_neg whole]
    rfl

theorem placeNext_eq (s : Section) {next : Nat} (word : next < 2 ^ 64) :
    placeNext s next =
      if s.behind next < 2 ^ 64 then .ok (s.baseFrom next, s.behind next)
      else .error .sumOverflow := by
  have positive : 0 < max s.alignment minAlignment :=
    Nat.lt_of_lt_of_le (by decide) (Nat.le_max_right _ _)
  have base : s.baseFrom next ≤ s.behind next := Nat.le_add_right _ _
  have aligned := alignUp_eq positive word
  by_cases room : s.behind next < 2 ^ 64
  · rw [if_pos room]
    exact Outcome.bind_eq_ok.mpr ⟨s.baseFrom next,
      aligned.trans (if_pos (Nat.lt_of_le_of_lt base room)),
      Outcome.bind_eq_ok.mpr ⟨s.behind next, if_pos room, rfl⟩⟩
  · rw [if_neg room]
    by_cases based : s.baseFrom next < 2 ^ 64
    · exact Outcome.bind_eq_error.mpr (Or.inr ⟨s.baseFrom next, aligned.trans (if_pos based),
        Outcome.bind_eq_error.mpr (Or.inl (if_neg room))⟩)
    · exact Outcome.bind_eq_error.mpr (Or.inl (aligned.trans (if_neg based)))

/-- The layout is the one in unbounded numbers, if that one ends within the addresses. -/
theorem layout_of_lt {sections : List Section} {map : LoadMap}
    (room : layoutEnd sections map.nextCode < 2 ^ 64) :
    layout sections map = (.ok (placements sections map.nextCode),
      { map with nextCode := layoutEnd sections map.nextCode }) := by
  induction sections generalizing map with
  | nil => rfl
  | cons s rest ih =>
    have start : map.nextCode < 2 ^ 64 := Nat.lt_of_le_of_lt (le_layoutEnd _ _) room
    have behind : s.behind map.nextCode < 2 ^ 64 := Nat.lt_of_le_of_lt (le_layoutEnd _ _) room
    rw [layout, placeNext_eq s start, if_pos behind]
    show (Except.map _ (layout rest { map with nextCode := s.behind map.nextCode }).1, _) = _
    rw [@ih { map with nextCode := s.behind map.nextCode } room]
    rfl

/-- Otherwise it faults, and what it leaves still ends within the addresses. -/
theorem layout_of_le {sections : List Section} {map : LoadMap} (word : map.nextCode < 2 ^ 64)
    (far : 2 ^ 64 ≤ layoutEnd sections map.nextCode) :
    ∃ next < 2 ^ 64,
      layout sections map = (.error .sumOverflow, { map with nextCode := next }) := by
  induction sections generalizing map with
  | nil => exact absurd word (Nat.not_lt.mpr far)
  | cons s rest ih =>
    rw [layout, placeNext_eq s word]
    by_cases behind : s.behind map.nextCode < 2 ^ 64
    · obtain ⟨next, small, left⟩ :=
        @ih { map with nextCode := s.behind map.nextCode } behind far
      rw [if_pos behind]
      refine ⟨next, small, ?_⟩
      show (Except.map _ (layout rest { map with nextCode := s.behind map.nextCode }).1, _) = _
      rw [left]
      rfl
    · rw [if_neg behind]
      exact ⟨map.nextCode, word, rfl⟩

/-- What recording a symbol can do to a map. -/
inductive Effect where
  | refuse
  | fault (cause : Fault)
  | define (name : String) (address : Nat)
  | leaveOpen (name : String)
  | nothing

namespace Effect

def apply (process : String → Option Nat) (moduleName : String) (map : LoadMap) :
    Effect → Outcome BuildError LoadMap
  | refuse => Outcome.fail (.malformedObject moduleName .unreadable)
  | fault cause => .error (.fault cause)
  | define name address => .ok ((map.declare name).define name address)
  | leaveOpen name => .ok ((map.declare name).resolveExternal process name)
  | nothing => .ok map

/-- The effect of a symbol, by what the object says of it. -/
inductive Of (placed : List PlacedSection) (symbol : Symbol) : Effect → Prop where
  | refuse (unreadable : symbol.Unreadable) : Of placed symbol refuse
  | fault {cause : Fault} (faults : symbol.Faults placed cause) : Of placed symbol (fault cause)
  | define {name : String} {home : PlacedSection} (stands : symbol.StandsIn placed name home)
      (above : home.address ≤ symbol.address)
      (within : home.base + (symbol.address - home.address) < 2 ^ 64) :
      Of placed symbol (define name (home.base + (symbol.address - home.address)))
  | leaveOpen {name : String} (named : symbol.name = some name)
      (place : symbol.place = .undefined) : Of placed symbol (leaveOpen name)
  | nothing (readable : ¬ symbol.Unreadable)
      (homeless : ∀ name home, ¬ symbol.StandsIn placed name home) : Of placed symbol nothing

end Effect

/-- What recording a symbol does is decided by the symbol and the placed sections. -/
theorem loadSymbol_eq (moduleName : String) (placed : List PlacedSection) (symbol : Symbol) :
    ∃ effect, Effect.Of placed symbol effect ∧ ∀ process map,
      loadSymbol process moduleName placed symbol map = effect.apply process moduleName map := by
  unfold loadSymbol
  split
  · rename_i hidden
    rw [Bool.not_eq_true'] at hidden
    refine ⟨.nothing, .nothing (fun unreadable => ?_) (fun _ _ stands => ?_), fun _ _ => rfl⟩
    · exact absurd (unreadable.1.symm.trans hidden) (by decide)
    · exact absurd (stands.isGlobal.symm.trans hidden) (by decide)
  · rename_i shown
    rw [Bool.not_eq_true', Bool.not_eq_false] at shown
    split
    · rename_i unnamed
      exact ⟨.refuse, .refuse ⟨shown, unnamed⟩, fun _ _ => rfl⟩
    · -- a symbol without a name is passed by even if it stands in a section
      rename_i named
      refine ⟨.nothing, .nothing (fun unreadable => ?_) (fun _ _ stands => ?_), fun _ _ => rfl⟩
      · exact nomatch unreadable.2.symm.trans named
      · exact stands.nonempty (Option.some.inj (stands.named.symm.trans named))
    · rename_i name nonempty named
      have readable : ¬ symbol.Unreadable := fun unreadable => nomatch unreadable.2.symm.trans named
      split
      · rename_i place
        exact ⟨.leaveOpen name, .leaveOpen named place, fun _ _ => rfl⟩
      · rename_i index place
        split
        · rename_i other
          exact ⟨.nothing, .nothing readable fun _ _ stands => other stands.type, fun _ _ => rfl⟩
        · rename_i text
          split
          · rename_i absent
            refine ⟨.nothing, .nothing readable fun _ home stands => ?_, fun _ _ => rfl⟩
            obtain rfl : home.index = index :=
              Place.inSection.inj (stands.place.symm.trans place)
            exact List.find?_eq_none.mp absent home stands.placed (decide_eq_true rfl)
          · rename_i home found
            have numbered := List.find?_some found
            obtain rfl : home.index = index := of_decide_eq_true numbered
            have stands : symbol.StandsIn placed name home :=
              ⟨shown, named, nonempty, not_not.mp text, place, List.mem_of_find?_eq_some found⟩
            by_cases above : home.address ≤ symbol.address
            · by_cases within : home.base + (symbol.address - home.address) < 2 ^ 64
              · exact ⟨_, .define stands above within, fun _ _ => Outcome.ofFaulting_eq_ok.mpr
                  (Outcome.bind_eq_ok.mpr ⟨_, if_pos above,
                    Outcome.bind_eq_ok.mpr ⟨_, if_pos within, rfl⟩⟩)⟩
              · exact ⟨_, .fault (.beyond stands above (Nat.not_lt.mp within)), fun _ _ =>
                  Outcome.mapError_eq_error.mpr ⟨_, Outcome.bind_eq_error.mpr (Or.inr
                    ⟨_, if_pos above, Outcome.bind_eq_error.mpr (Or.inl (if_neg within))⟩), rfl⟩⟩
            · exact ⟨_, .fault (.below stands (Nat.not_le.mp above)), fun _ _ =>
                Outcome.mapError_eq_error.mpr
                  ⟨_, Outcome.bind_eq_error.mpr (Or.inl (if_neg above)), rfl⟩⟩
      · rename_i notOpen notHoused
        exact ⟨.nothing, .nothing readable fun _ home stands => notHoused _ stands.place,
          fun _ _ => rfl⟩

namespace Effect.Of

variable {placed : List PlacedSection} {symbol : Symbol} {effect : Effect}

theorem refuse_iff (of : Of placed symbol effect) : symbol.Unreadable ↔ effect = .refuse := by
  constructor
  · rintro ⟨_, unnamed⟩
    cases of with
    | refuse => rfl
    | fault faults =>
      cases faults with
      | below stands => exact nomatch stands.named.symm.trans unnamed
      | beyond stands => exact nomatch stands.named.symm.trans unnamed
    | define stands => exact nomatch stands.named.symm.trans unnamed
    | leaveOpen named => exact nomatch named.symm.trans unnamed
    | nothing readable => exact absurd ⟨‹_›, unnamed⟩ readable
  · rintro rfl
    cases of with
    | refuse unreadable => exact unreadable

/-- The effect of a function in a section, where sections have different numbers. -/
theorem of_standsIn (apart : Apart placed) (of : Of placed symbol effect) {name : String}
    {home : PlacedSection} (stands : symbol.StandsIn placed name home) :
    effect = if symbol.address < home.address then .fault .differenceOverflow
      else if home.base + (symbol.address - home.address) < 2 ^ 64 then
        .define name (home.base + (symbol.address - home.address))
      else .fault .sumOverflow := by
  have unique : ∀ other otherHome, symbol.StandsIn placed other otherHome →
      other = name ∧ otherHome = home := by
    intro other otherHome also
    exact ⟨Option.some.inj (also.named.symm.trans stands.named),
      apart.unique also.placed stands.placed
        (Place.inSection.inj (also.place.symm.trans stands.place))⟩
  cases of with
  | refuse unreadable => exact nomatch unreadable.2.symm.trans stands.named
  | fault faults =>
    cases faults with
    | below also low =>
      obtain ⟨rfl, rfl⟩ := unique _ _ also
      rw [if_pos low]
    | beyond also above far =>
      obtain ⟨rfl, rfl⟩ := unique _ _ also
      rw [if_neg (Nat.not_lt.mpr above), if_neg (Nat.not_lt.mpr far)]
  | define also above within =>
    obtain ⟨rfl, rfl⟩ := unique _ _ also
    rw [if_neg (Nat.not_lt.mpr above), if_pos within]
  | leaveOpen _ place => exact nomatch place.symm.trans stands.place
  | nothing _ homeless => exact absurd stands (homeless _ _)

theorem fault_iff (apart : Apart placed) (of : Of placed symbol effect) {cause : Fault} :
    symbol.Faults placed cause ↔ effect = .fault cause := by
  constructor
  · intro faults
    cases faults with
    | below stands low => rw [of.of_standsIn apart stands, if_pos low]
    | beyond stands above far =>
      rw [of.of_standsIn apart stands, if_neg (Nat.not_lt.mpr above), if_neg (Nat.not_lt.mpr far)]
  · rintro rfl
    cases of with
    | fault faults => exact faults

end Effect.Of

/-- Recording symbols faults at the first one that does not load, if that one faults. -/
theorem loadSymbols_eq_fault {moduleName : String} {placed : List PlacedSection}
    (apart : Apart placed) (process : String → Option Nat) (symbols : List Symbol) (map : LoadMap)
    {fault : Fault} :
    (loadSymbols process moduleName placed symbols map).1 = .error (.fault fault) ↔
      ∃ before symbol after, symbols = before ++ symbol :: after ∧
        (∀ s ∈ before, s.Loads placed) ∧ symbol.Faults placed fault := by
  induction symbols generalizing map with
  | nil =>
    constructor
    · intro h; cases h
    · rintro ⟨before, symbol, after, table, _⟩
      cases before <;> cases table
  | cons symbol rest ih =>
    obtain ⟨effect, of, step⟩ := loadSymbol_eq moduleName placed symbol
    have loads : symbol.Loads placed ↔ effect ≠ .refuse ∧ ∀ cause, effect ≠ .fault cause := by
      simp only [Symbol.Loads, of.refuse_iff, of.fault_iff apart, ne_eq]
    -- the first symbol decides unless it loads; then the map it leaves does not matter
    rw [exists_first_cons, of.fault_iff apart, loads, loadSymbols, step]
    cases effect with
    | refuse => simp [Effect.apply, Outcome.fail]
    | fault cause => simp [Effect.apply]
    | define name address => simpa [Effect.apply] using ih _
    | leaveOpen name => simpa [Effect.apply] using ih _
    | nothing => simpa [Effect.apply] using ih _

/-- Loading faults exactly when the layout or a symbol leaves its word. -/
theorem load_eq_fault {file : ObjectFile} (numbered : file.Numbered)
    (process : String → Option Nat) (moduleName : String) {map : LoadMap}
    (word : map.nextCode < 2 ^ 64) {fault : Fault} :
    (load process moduleName file map).1 = .error (.fault fault) ↔
      file.LoadFaults map.nextCode fault := by
  by_cases room : layoutEnd file.properSections map.nextCode < 2 ^ 64
  · rw [load, layout_of_lt room]
    refine (loadSymbols_eq_fault (numbered.apart _) process _ _).trans ?_
    constructor
    · rintro ⟨before, symbol, after, table, earlier, faults⟩
      exact .symbol room table earlier faults
    · intro faults
      cases faults with
      | layout far => exact absurd room (Nat.not_lt.mpr far)
      | symbol _ table earlier faults => exact ⟨_, _, _, table, earlier, faults⟩
  · obtain ⟨next, _, left⟩ := layout_of_le word (Nat.not_lt.mp room)
    rw [load, left]
    constructor
    · intro h
      cases h
      exact .layout (Nat.not_lt.mp room)
    · intro faults
      cases faults with
      | layout => rfl
      | symbol room' => exact absurd room' room

/-- Load objects one after another, whatever becomes of each. -/
def loadAll (process : String → Option Nat) (moduleName : String) (files : List ObjectFile)
    (map : LoadMap) : LoadMap :=
  files.foldl (fun map file => (load process moduleName file map).2) map

theorem loadAll_concat (process : String → Option Nat) (moduleName : String)
    (files : List ObjectFile) (file : ObjectFile) (map : LoadMap) :
    loadAll process moduleName (files ++ [file]) map =
      (load process moduleName file (loadAll process moduleName files map)).2 :=
  List.foldl_concat _ _ _ _

theorem resolveExternal_nextExternal (map : LoadMap) (process : String → Option Nat)
    (name : String) :
    (map.resolveExternal process name).nextExternal ≤ map.nextExternal + minAlignment := by
  unfold resolveExternal
  split
  · exact Nat.le_add_right _ _
  · split
    · exact Nat.le_add_right _ _
    · exact Nat.le_refl _

theorem resolveExternal_nextCode (map : LoadMap) (process : String → Option Nat) (name : String) :
    (map.resolveExternal process name).nextCode = map.nextCode := by
  unfold resolveExternal
  split
  · rfl
  · split <;> rfl

theorem declare_eq (map : LoadMap) (name : String) :
    ∃ declared, map.declare name = { map with declared } := by
  unfold declare
  split
  · exact ⟨map.declared, rfl⟩
  · exact ⟨name :: map.declared, rfl⟩

/-- Recording a symbol leaves the layout, and makes at most one address. -/
theorem Effect.apply_keeps {process : String → Option Nat} {moduleName : String}
    {map next : LoadMap} {effect : Effect} (h : effect.apply process moduleName map = .ok next) :
    next.nextCode = map.nextCode ∧ next.nextExternal ≤ map.nextExternal + minAlignment := by
  cases effect with
  | refuse => cases h
  | fault cause => cases h
  | define name address =>
    cases h
    obtain ⟨declared, same⟩ := map.declare_eq name
    rw [same]
    exact ⟨rfl, Nat.le_add_right _ _⟩
  | leaveOpen name =>
    cases h
    obtain ⟨declared, same⟩ := map.declare_eq name
    rw [same]
    exact ⟨resolveExternal_nextCode _ _ _, resolveExternal_nextExternal _ _ _⟩
  | nothing =>
    cases h
    exact ⟨rfl, Nat.le_add_right _ _⟩

theorem loadSymbols_keeps (process : String → Option Nat) (moduleName : String)
    (placed : List PlacedSection) (symbols : List Symbol) (map : LoadMap) :
    (loadSymbols process moduleName placed symbols map).2.nextCode = map.nextCode ∧
      (loadSymbols process moduleName placed symbols map).2.nextExternal ≤
        map.nextExternal + minAlignment * symbols.length := by
  induction symbols generalizing map with
  | nil => exact ⟨rfl, Nat.le_refl _⟩
  | cons symbol rest ih =>
    obtain ⟨effect, _, step⟩ := loadSymbol_eq moduleName placed symbol
    rw [loadSymbols, step, List.length_cons, Nat.mul_succ]
    cases done : effect.apply process moduleName map with
    | error failure => exact ⟨rfl, Nat.le_add_right _ _⟩
    | ok next =>
      obtain ⟨code, external⟩ := Effect.apply_keeps done
      obtain ⟨codes, externals⟩ := ih next
      refine ⟨codes.trans code, ?_⟩
      show (loadSymbols process moduleName placed rest next).2.nextExternal ≤ _
      omega

theorem load_keeps (process : String → Option Nat) (moduleName : String) (file : ObjectFile)
    {map : LoadMap} (word : map.nextCode < 2 ^ 64) :
    (load process moduleName file map).2.nextCode < 2 ^ 64 ∧
      (load process moduleName file map).2.nextExternal ≤
        map.nextExternal + minAlignment * file.properSymbols.length := by
  by_cases room : layoutEnd file.properSections map.nextCode < 2 ^ 64
  · rw [load, layout_of_lt room]
    obtain ⟨code, external⟩ := loadSymbols_keeps process moduleName
      (placements file.properSections map.nextCode) file.properSymbols
      { map with nextCode := layoutEnd file.properSections map.nextCode }
    exact ⟨code ▸ room, external⟩
  · obtain ⟨next, small, left⟩ := layout_of_le word (Nat.not_lt.mp room)
    rw [load, left]
    exact ⟨small, Nat.le_add_right _ _⟩

/-- Whatever is loaded, code ends within the addresses, and there are no more made addresses than
symbols. -/
theorem loadAll_keeps (process : String → Option Nat) (moduleName : String)
    (files : List ObjectFile) {map : LoadMap} (word : map.nextCode < 2 ^ 64) :
    (loadAll process moduleName files map).nextCode < 2 ^ 64 ∧
      (loadAll process moduleName files map).nextExternal ≤
        map.nextExternal + minAlignment * (files.flatMap (·.properSymbols)).length := by
  induction files generalizing map with
  | nil => exact ⟨word, Nat.le_refl _⟩
  | cons file rest ih =>
    obtain ⟨code, external⟩ := load_keeps process moduleName file word
    obtain ⟨codes, externals⟩ := ih code
    refine ⟨codes, ?_⟩
    rw [List.flatMap_cons, List.length_append, Nat.mul_add]
    show (loadAll process moduleName rest (load process moduleName file map).2).nextExternal ≤ _
    omega

end LoadMap

end CopyPatch
