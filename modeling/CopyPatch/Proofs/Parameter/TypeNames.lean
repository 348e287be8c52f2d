import CopyPatch.Parameter.Axis

/-! Type names. The spellings of a type are listed as a relation; a text denotes a type if it is one
of its spellings once the blanks around it are gone. Reading a text gives the type that it denotes,
so both printed forms of a type are read back and no text denotes two. -/
namespace CopyPatch

namespace Text

def AllBlank (text : List Char) : Prop := ∀ c ∈ text, isBlank c = true

/-- What is left of a text without the blanks at its two ends. -/
structure Stripped (text core : List Char) : Prop where
  padded : ∃ before after, AllBlank before ∧ AllBlank after ∧ text = before ++ core ++ after
  first : core.head?.any isBlank = false
  last : core.getLast?.any isBlank = false

theorem trimLeft_append {blanks : List Char} (all : AllBlank blanks) (text : List Char) :
    trimLeft (blanks ++ text) = trimLeft text :=
  List.dropWhile_append_of_pos all

theorem trimLeft_eq_self {text : List Char} (first : text.head?.any isBlank = false) :
    trimLeft text = text := by
  cases text with
  | nil => rfl
  | cons c rest => exact List.dropWhile_cons_of_neg (by simpa using first)

theorem exists_trimLeft (text : List Char) :
    (∃ blanks, AllBlank blanks ∧ text = blanks ++ trimLeft text) ∧
      (trimLeft text).head?.any isBlank = false := by
  refine ⟨⟨text.takeWhile isBlank, ?_, List.takeWhile_append_dropWhile.symm⟩, ?_⟩
  · exact List.all_eq_true.mp List.all_takeWhile
  · have first := List.head?_dropWhile_not isBlank text
    rw [trimLeft]
    cases front : (text.dropWhile isBlank).head? with
    | none => rfl
    | some c => simpa [front] using first

theorem trimRight_append {blanks : List Char} (all : AllBlank blanks) (text : List Char) :
    trimRight (text ++ blanks) = trimRight text := by
  have reversed : AllBlank blanks.reverse := fun c member => all c (List.mem_reverse.mp member)
  rw [trimRight, List.reverse_append, trimLeft_append reversed, trimRight]

theorem trimRight_eq_self {text : List Char} (last : text.getLast?.any isBlank = false) :
    trimRight text = text := by
  rw [trimRight, trimLeft_eq_self (by rwa [List.head?_reverse]), List.reverse_reverse]

theorem exists_trimRight (text : List Char) :
    (∃ blanks, AllBlank blanks ∧ text = trimRight text ++ blanks) ∧
      (trimRight text).getLast?.any isBlank = false := by
  obtain ⟨⟨blanks, all, split⟩, first⟩ := exists_trimLeft text.reverse
  refine ⟨⟨blanks.reverse, fun c member => all c (List.mem_reverse.mp member), ?_⟩, ?_⟩
  · rw [trimRight, ← List.reverse_append, ← split, List.reverse_reverse]
  · rwa [trimRight, List.getLast?_reverse]

/-- Trimming strips the blanks at both ends and nothing else. -/
theorem trim_eq_iff {text core : List Char} : trim text = core ↔ Stripped text core := by
  constructor
  · rintro rfl
    obtain ⟨⟨before, blank, split⟩, first⟩ := exists_trimLeft text
    obtain ⟨⟨after, blank', split'⟩, last⟩ := exists_trimRight (trimLeft text)
    refine ⟨⟨before, after, blank, blank', ?_⟩, ?_, last⟩
    · rw [trim, List.append_assoc, ← split', ← split]
    · rw [split', List.head?_append] at first
      rw [trim]
      cases front : (trimRight (trimLeft text)).head? with
      | none => rfl
      | some c => rwa [front] at first
  · rintro ⟨⟨before, after, blank, blank', rfl⟩, first, last⟩
    rw [trim, List.append_assoc, trimLeft_append blank]
    cases core with
    | nil =>
      have none : trimLeft after = [] := by
        rw [← List.append_nil after, trimLeft_append blank']
        rfl
      rw [List.nil_append, none]
      rfl
    | cons c rest =>
      rw [trimLeft_eq_self (by exact first), trimRight_append blank', trimRight_eq_self last]

theorem dropEnding?_eq_some_iff {ending text base : List Char} :
    dropEnding? ending text = some base ↔ text = base ++ ending := by
  rw [dropEnding?]
  split
  · rename_i ends
    obtain ⟨front, rfl⟩ := List.isSuffixOf_iff_suffix.mp ends
    simp [eq_comm]
  · rename_i other
    constructor
    · intro h
      cases h
    · rintro rfl
      exact absurd (List.isSuffixOf_iff_suffix.mpr (List.suffix_append _ _)) other

end Text

namespace Primitive

theorem ofName?_eq_some_iff {text : List Char} {p : Primitive} :
    ofName? text = some p ↔ text = p.name.toList := by
  constructor
  · intro found
    rw [ofName?] at found
    have same := List.find?_some found
    exact (eq_of_beq same).symm
  · rintro rfl
    cases p <;> decide

theorem last_not_blank (p : Primitive) : p.name.toList.getLast?.any Text.isBlank = false := by
  cases p <;> decide

theorem index_of_all {i : Nat} {p : Primitive} (there : all[i]? = some p) : p.index = i := by
  have counted : all.map index = List.range 12 := rfl
  have place : (List.range 12)[i]? = some p.index := by
    rw [← counted, List.getElem?_map, there, Option.map_some]
  obtain ⟨_, same⟩ := List.getElem?_eq_some_iff.mp place
  rw [← same, List.getElem_range]

end Primitive

namespace TypeId

open Text

/-- The spellings of a type. -/
inductive Spells : TypeId → List Char → Prop where
  | value (p : Primitive) : Spells (value p) p.name.toList
  | symbol (p : Primitive) : Spells (pointer p) (p.name.toList ++ "_ptr".toList)
  | star (p : Primitive) {blanks : List Char} (all : AllBlank blanks) :
      Spells (pointer p) (p.name.toList ++ blanks ++ ['*'])
  | double : Spells doublePointer "void**".toList
  | doubleSymbol : Spells doublePointer "void_ptr_ptr".toList

/-- A text is a spelling of a type between blanks. -/
def Denotes (text : String) (t : TypeId) : Prop := ∃ core, Stripped text.toList core ∧ Spells t core

theorem Spells.ends {t : TypeId} {core : List Char} (spells : Spells t core) :
    core.head?.any isBlank = false ∧ core.getLast?.any isBlank = false := by
  cases spells with
  | value p => cases p <;> decide
  | symbol p => cases p <;> decide
  | star p =>
    refine ⟨?_, by rw [List.getLast?_concat]; decide⟩
    rw [List.append_assoc]
    cases p <;> rfl
  | double => decide
  | doubleSymbol => decide

/-- A star behind a primitive and blanks is not the second star of the double pointer. -/
theorem star_ne_double (p : Primitive) {blanks : List Char} (all : AllBlank blanks) :
    p.name.toList ++ blanks ++ ['*'] ≠ "void**".toList := by
  intro same
  have base : p.name.toList ++ blanks = "void*".toList :=
    List.append_cancel_right (same.trans (by decide : _ = "void*".toList ++ ['*']))
  rcases List.eq_nil_or_concat blanks with rfl | ⟨front, c, rfl⟩
  · cases p <;> simp [Primitive.name] at base
  · rw [List.concat_eq_append] at base all
    have last : c = '*' := by
      have ends := congrArg List.getLast? base
      rw [← List.append_assoc, List.getLast?_concat] at ends
      exact Option.some.inj ends
    have blank := all c (List.mem_append_right _ List.mem_cons_self)
    rw [last] at blank
    exact absurd blank (by decide)

theorem ofTrimmed?_eq_some_iff {text : List Char} {t : TypeId} :
    ofTrimmed? text = some t ↔ Spells t text := by
  constructor
  · intro read
    rw [ofTrimmed?] at read
    split at read
    · rename_i double
      cases read
      rcases double with rfl | rfl
      · exact .double
      · exact .doubleSymbol
    · split at read
      · rename_i base starred
        obtain ⟨p, named, rfl⟩ := Option.map_eq_some_iff.mp read
        obtain ⟨⟨blanks, all, split⟩, _⟩ := exists_trimRight base
        rw [dropEnding?_eq_some_iff.mp starred, split, Primitive.ofName?_eq_some_iff.mp named]
        exact .star p all
      · split at read
        · rename_i base ends
          obtain ⟨p, named, rfl⟩ := Option.map_eq_some_iff.mp read
          rw [dropEnding?_eq_some_iff.mp ends, Primitive.ofName?_eq_some_iff.mp named]
          exact .symbol p
        · obtain ⟨p, named, rfl⟩ := Option.map_eq_some_iff.mp read
          rw [Primitive.ofName?_eq_some_iff.mp named]
          exact .value p
  · intro spells
    cases spells with
    | value p => cases p <;> decide
    | symbol p => cases p <;> decide
    | @star p blanks all =>
      have symbol : p.name.toList ++ blanks ++ ['*'] ≠ "void_ptr_ptr".toList := by
        intro same
        have last := congrArg List.getLast? same
        rw [List.getLast?_concat] at last
        exact absurd last (by decide)
      have primitive : Primitive.ofName? (trimRight (p.name.toList ++ blanks)) = some p := by
        rw [trimRight_append all, trimRight_eq_self (p.last_not_blank)]
        exact Primitive.ofName?_eq_some_iff.mpr rfl
      rw [ofTrimmed?, if_neg (not_or.mpr ⟨star_ne_double p all, symbol⟩),
        dropEnding?_eq_some_iff.mpr rfl]
      simp only [primitive, Option.map_some]
    | double => decide
    | doubleSymbol => decide

theorem ofName?_eq_some_iff {text : String} {t : TypeId} :
    ofName? text = some t ↔ Denotes text t := by
  rw [ofName?, ofTrimmed?_eq_some_iff, Denotes]
  constructor
  · exact fun spells => ⟨_, trim_eq_iff.mp rfl, spells⟩
  · rintro ⟨core, stripped, spells⟩
    rwa [trim_eq_iff.mpr stripped]

theorem parse_eq_ok_iff {text : String} {t : TypeId} : parse text = .ok t ↔ Denotes text t := by
  rw [← ofName?_eq_some_iff, parse]
  cases ofName? text with
  | none => simp
  | some u => simp

theorem Spells.parse_padded {t : TypeId} {core : String} (spells : Spells t core.toList)
    {before after : List Char} (blank : AllBlank before) (blank' : AllBlank after) :
    parse (String.ofList before ++ core ++ String.ofList after) = .ok t := by
  obtain ⟨first, last⟩ := spells.ends
  refine parse_eq_ok_iff.mpr
    ⟨core.toList, ⟨⟨before, after, blank, blank', ?_⟩, first, last⟩, spells⟩
  rw [String.toList_append, String.toList_append, String.toList_ofList, String.toList_ofList]

theorem spells_display (t : TypeId) : Spells t t.display.toList := by
  cases t with
  | value p => exact .value p
  | pointer p =>
    have spells := Spells.star p (List.forall_mem_nil fun c => isBlank c = true)
    rwa [List.append_nil, ← String.toList_singleton, ← String.toList_append] at spells
  | doublePointer => exact .double

theorem spells_symbolName (t : TypeId) : Spells t t.symbolName.toList := by
  cases t with
  | value p => exact .value p
  | pointer p =>
    rw [symbolName, String.toList_append]
    exact .symbol p
  | doublePointer => exact .doubleSymbol

theorem decode_eq_some_iff {code : UInt64} {t : TypeId} :
    decode code = some t ↔ t.encode = code := by
  constructor
  · intro decoded
    rw [decode] at decoded
    split at decoded
    · rename_i last
      cases decoded
      exact last.symm
    · obtain ⟨p, there, rfl⟩ := Option.map_eq_some_iff.mp decoded
      have index := Primitive.index_of_all there
      split
      · rename_i even
        rw [encode, index, show 2 * (code.toNat / 2) = code.toNat by omega, UInt64.ofNat_toNat]
      · rename_i odd
        rw [encode, index, show 2 * (code.toNat / 2) + 1 = code.toNat by omega,
          UInt64.ofNat_toNat]
  · rintro rfl
    exact decode_encode t

/-- Exactly the texts that denote a type are read, each as the one type that it denotes. Both
printed forms of a type denote it, whatever blanks stand around them, and a code belongs to a type
exactly if it is the code of that type. -/
theorem type_names_are_unambiguous :
    (∀ text t, parse text = .ok t ↔ Denotes text t) ∧
    (∀ t before after, AllBlank before → AllBlank after →
      parse (String.ofList before ++ t.display ++ String.ofList after) = .ok t ∧
      parse (String.ofList before ++ t.symbolName ++ String.ofList after) = .ok t) ∧
    (∀ text t u, Denotes text t → Denotes text u → t = u) ∧
    (∀ code t, decode code = some t ↔ t.encode = code) := by
  refine ⟨fun _ _ => parse_eq_ok_iff, fun t _ _ blank blank' => ⟨?_, ?_⟩,
    fun text t u one other => ?_, fun _ _ => decode_eq_some_iff⟩
  · exact (spells_display t).parse_padded blank blank'
  · exact (spells_symbolName t).parse_padded blank blank'
  · rw [← parse_eq_ok_iff] at one other
    cases one.symm.trans other
    rfl

theorem spaced_pointer_denotes_pointer :
    AllBlank ['\u2003', '\t'] ∧ AllBlank ['\u00a0'] ∧
      parse "\u2003\tu8*\u00a0" = .ok (pointer .u8) ∧
      parse "\u2003\tu8_ptr\u00a0" = .ok (pointer .u8) ∧
      parse "u8 \t *" = .ok (pointer .u8) ∧ Denotes "u8 \t *" (pointer .u8) ∧
      ∀ t, Denotes "u8 \t *" t → t = pointer .u8 := by
  have before : AllBlank ['\u2003', '\t'] := List.all_eq_true.mp (by decide)
  have after : AllBlank ['\u00a0'] := List.all_eq_true.mp (by decide)
  have between : AllBlank [' ', '\t', ' '] := List.all_eq_true.mp (by decide)
  obtain ⟨read, padded, single, _⟩ := type_names_are_unambiguous
  obtain ⟨shown, symbol⟩ := padded (pointer .u8) _ _ before after
  have denotes : Denotes "u8 \t *" (pointer .u8) :=
    ⟨_, ⟨⟨[], [], List.forall_mem_nil _, List.forall_mem_nil _, rfl⟩, by decide, by decide⟩,
      .star .u8 between⟩
  exact ⟨before, after, shown, symbol, (read _ _).mpr denotes, denotes,
    fun t other => single _ _ _ other denotes⟩

end TypeId

end CopyPatch
