import CopyPatch.Source.Names
import CopyPatch.Proofs.Manifest.WellFormed
import Mathlib.Data.List.Nodup

/-! Names of enumeration variants. Every name is one that the generated source can use. A name that
is taken has its position added, but the name made that way is not looked up again, so it can be
one that an earlier variant has. Which lists of variants lead to that is said by the names before
positions are added. -/
namespace CopyPatch.Source

theorem isLower_iff {c : Char} : c.isLower = true ↔ 97 ≤ c.toNat ∧ c.toNat ≤ 122 := by
  change (decide ('a'.val ≤ c.val) && decide (c.val ≤ 'z'.val)) = true ↔ _
  rw [Bool.and_eq_true, decide_eq_true_eq, decide_eq_true_eq]
  rfl

theorem isUpper_iff {c : Char} : c.isUpper = true ↔ 65 ≤ c.toNat ∧ c.toNat ≤ 90 := by
  change decide ('A'.val ≤ c.val ∧ c.val ≤ 'Z'.val) = true ↔ _
  rw [decide_eq_true_eq]
  rfl

theorem isAlpha_iff {c : Char} : c.isAlpha = true ↔ c.isUpper = true ∨ c.isLower = true := by
  change (c.isUpper || c.isLower) = true ↔ _
  rw [Bool.or_eq_true]

theorem isAlphanum_iff {c : Char} :
    c.isAlphanum = true ↔ c.isUpper = true ∨ c.isLower = true ∨ c.isDigit = true := by
  change (c.isUpper || c.isLower || c.isDigit) = true ↔ _
  rw [Bool.or_eq_true, Bool.or_eq_true, or_assoc]

theorem not_isAlpha_of_isDigit {c : Char} (digit : c.isDigit = true) : ¬ c.isAlpha = true := by
  have below : c.toNat ≤ 57 := (Char.isDigit_iff_toNat.mp digit).2
  rw [isAlpha_iff, isUpper_iff, isLower_iff]
  omega

/-- A small letter has its capital 32 places before it; nothing else is changed. -/
theorem toUpper_cases (c : Char) :
    (c.isLower = true ∧ c.toUpper.isUpper = true ∧ c.toUpper.toNat + 32 = c.toNat) ∨
      (c.isLower = false ∧ c.toUpper = c) := by
  by_cases lower : c.isLower = true
  · refine .inl ⟨lower, ?_⟩
    have inside : 'a'.val ≤ c.val ∧ c.val ≤ 'z'.val := isLower_iff.mp lower
    have moved : c.toUpper.val = c.val + ('A'.val - 'a'.val) := by
      delta Char.toUpper
      rw [dif_pos inside]
    have place : c.toUpper.toNat = (c.toNat + 4294967264) % 4294967296 := by
      rw [Char.toNat, moved, UInt32.toNat_add]
      rfl
    obtain ⟨above, below⟩ := isLower_iff.mp lower
    exact ⟨isUpper_iff.mpr (by omega), by omega⟩
  · exact .inr ⟨Bool.eq_false_iff.mpr lower, dif_neg fun inside => lower (isLower_iff.mpr inside)⟩

/-- A letter or an underscore, then such characters and digits; not an underscore alone and no
reserved word. -/
structure Usable (name : String) : Prop where
  spelled : ∃ first rest, name.toList = first :: rest ∧ (first.isAlpha = true ∨ first = '_') ∧
    ∀ c ∈ rest, c.isAlphanum = true ∨ c = '_'
  named : name ≠ "_"
  free : name ∉ "Self" :: (pathWords ++ reserved)

/-- A capital, then letters and digits. -/
def Capitalised (name : String) : Prop :=
  ∃ first rest, name.toList = first :: rest ∧ first.isUpper = true ∧
    ∀ c ∈ rest, c.isAlphanum = true

theorem Capitalised.usable {name : String} (capitalised : Capitalised name)
    (self : name ≠ "Self") : Usable name := by
  obtain ⟨first, rest, letters, upper, others⟩ := capitalised
  have small : ∀ word ∈ pathWords ++ reserved, word.toList.head?.any Char.isUpper = false := by
    decide
  refine ⟨⟨first, rest, letters, .inl ?_, fun c member => .inl (others c member)⟩, ?_, ?_⟩
  · exact isAlpha_iff.mpr (.inl upper)
  · rintro rfl
    cases letters
    exact absurd upper (by decide)
  · intro member
    rcases List.mem_cons.mp member with same | member
    · exact self same
    · have lower := small name member
      rw [letters, List.head?_cons, Option.any_some, upper] at lower
      cases lower

theorem toList_number (base : String) (i : Nat) :
    (base ++ toString i).toList = base.toList ++ Nat.toDigits 10 i := by
  rw [String.toList_append, Nat.toString_eq_ofList_toDigits, String.toList_ofList]

theorem Capitalised.append_number {name : String} (capitalised : Capitalised name) (i : Nat) :
    Capitalised (name ++ toString i) := by
  obtain ⟨first, rest, letters, upper, others⟩ := capitalised
  refine ⟨first, rest ++ Nat.toDigits 10 i, ?_, upper, fun c member => ?_⟩
  · rw [toList_number, letters, List.cons_append]
  · rcases List.mem_append.mp member with member | member
    · exact others c member
    · exact isAlphanum_iff.mpr (.inr (.inr (Text.isDigit_toDigits member)))

/-- The characters of identifiers. -/
def Plain (c : Char) : Prop := (c.isLower || c.isDigit || decide (c = '_')) = true

theorem Plain.isAlphanum_or {c : Char} (plain : Plain c) :
    (c.isAlphanum = true ∧ c.toUpper.isAlphanum = true) ∨ c = '_' := by
  simp only [Plain, Bool.or_eq_true, decide_eq_true_eq] at plain
  rcases plain with (lower | digit) | underscore
  · have small : c.isAlphanum = true := isAlphanum_iff.mpr (.inr (.inl lower))
    rcases toUpper_cases c with ⟨_, upper, _⟩ | ⟨_, same⟩
    · exact .inl ⟨small, isAlphanum_iff.mpr (.inl upper)⟩
    · exact .inl ⟨small, same.symm ▸ small⟩
  · have number : c.isAlphanum = true := isAlphanum_iff.mpr (.inr (.inr digit))
    rcases toUpper_cases c with ⟨lower, _⟩ | ⟨_, same⟩
    · exact absurd (isAlpha_iff.mpr (.inr lower)) (not_isAlpha_of_isDigit digit)
    · exact .inl ⟨number, same.symm ▸ number⟩
  · exact .inr underscore

theorem isAlphanum_joinWords {first : Bool} {letters : List Char} (plain : ∀ c ∈ letters, Plain c) :
    ∀ c ∈ joinWords first letters, c.isAlphanum = true := by
  induction letters generalizing first with
  | nil => exact List.forall_mem_nil _
  | cons c rest ih =>
    obtain ⟨one, others⟩ := List.forall_mem_cons.mp plain
    rw [joinWords]
    split
    · exact ih others
    · rename_i letter
      obtain ⟨small, capital⟩ := one.isAlphanum_or.resolve_right letter
      refine List.forall_mem_cons.mpr ⟨?_, ih others⟩
      cases first with
      | true => exact capital
      | false => exact small

/-- A word that begins with a letter begins with a capital. -/
theorem isUpper_head_joinWords {letters rest : List Char} {c : Char}
    (word : joinWords true letters = c :: rest) (alpha : c.isAlpha = true) : c.isUpper = true := by
  induction letters with
  | nil => cases word
  | cons d letters ih =>
    rw [joinWords] at word
    split at word
    · exact ih word
    · cases word
      rw [if_pos rfl] at alpha ⊢
      rcases toUpper_cases d with ⟨_, upper, _⟩ | ⟨other, same⟩
      · exact upper
      · rw [same] at alpha ⊢
        exact (isAlpha_iff.mp alpha).resolve_right (Bool.eq_false_iff.mp other)

theorem capitalised_variantBase {variant : String}
    (identifier : Manifest.isIdentifier variant = true) : Capitalised (variantBase variant) := by
  have letters : ∀ c ∈ joinWords true variant.toList, c.isAlphanum = true :=
    isAlphanum_joinWords (Manifest.letters_of_isIdentifier identifier)
  have word : (pascalCase variant).toList = joinWords true variant.toList := by
    rw [pascalCase, String.toList_ofList]
  rw [variantBase]
  split
  · rename_i begins
    rw [word] at begins
    cases written : joinWords true variant.toList with
    | nil => rw [written] at begins; cases begins
    | cons first rest =>
      rw [written] at begins letters
      exact ⟨first, rest, word.trans written, isUpper_head_joinWords written begins,
        (List.forall_mem_cons.mp letters).2⟩
  · refine ⟨'V', _, ?_, rfl, letters⟩
    rw [String.toList_append, word]
    rfl

/-- The name for a base at a position, when those before it have their names. -/
def givenName (earlier : List String) (base : String) (i : Nat) : String :=
  if base ∈ earlier ∨ base = "Self" then base ++ toString i else base

theorem length_variantNamesFrom (i : Nat) (earlier variants : List String) :
    (variantNamesFrom i earlier variants).length = variants.length := by
  induction variants generalizing i earlier with
  | nil => rfl
  | cons v rest ih => rw [variantNamesFrom, List.length_cons, ih, List.length_cons]

theorem getElem?_variantNamesFrom {i k : Nat} {earlier variants : List String} {v : String}
    (there : variants[k]? = some v) :
    (variantNamesFrom i earlier variants)[k]? =
      some (givenName (earlier ++ (variantNamesFrom i earlier variants).take k) (variantBase v)
        (i + k)) := by
  induction variants generalizing i k earlier with
  | nil => cases there
  | cons first rest ih =>
    rw [variantNamesFrom]
    cases k with
    | zero =>
      cases there
      rw [List.take_zero, List.append_nil]
      rfl
    | succ k =>
      rw [List.getElem?_cons_succ, ih there, List.take_succ_cons, List.append_assoc,
        List.singleton_append, Nat.add_assoc, Nat.add_comm 1 k]

section Positions

variable {variants : List String}

def bases (variants : List String) : List String := variants.map variantBase

theorem getElem?_variantNames {i : Nat} {base : String} (there : (bases variants)[i]? = some base) :
    (variantNames variants)[i]? = some (givenName ((variantNames variants).take i) base i) := by
  rw [bases, List.getElem?_map] at there
  obtain ⟨v, listed, rfl⟩ := Option.map_eq_some_iff.mp there
  rw [variantNames, getElem?_variantNamesFrom listed, List.nil_append, Nat.zero_add]

/-- Which positions have their number added, said by the bases alone: a reserved base, one that
repeats an earlier base, or one that is what an earlier base became by its number. -/
inductive Numbered (bases : List String) : Nat → Prop where
  | reserved {i : Nat} (there : bases[i]? = some "Self") : Numbered bases i
  | repeated {i j : Nat} {base : String} (earlier : j < i) (one : bases[j]? = some base)
      (other : bases[i]? = some base) : Numbered bases i
  | taken {i j : Nat} {base : String} (earlier : j < i) (before : Numbered bases j)
      (one : bases[j]? = some base) (other : bases[i]? = some (base ++ toString j)) :
      Numbered bases i

/-- The number makes the name of a position that of an earlier one. -/
def Clash (bases : List String) (i j : Nat) : Prop :=
  ∃ base other, j < i ∧ Numbered bases i ∧ bases[i]? = some base ∧ bases[j]? = some other ∧
    (other = base ++ toString i ∨
      Numbered bases j ∧ other ++ toString j = base ++ toString i)

theorem mem_take_iff {names : List String} {i : Nat} {name : String} :
    name ∈ names.take i ↔ ∃ j < i, names[j]? = some name := by
  rw [List.mem_iff_getElem?]
  refine exists_congr fun j => ?_
  rw [List.getElem?_take]
  by_cases inside : j < i
  · rw [if_pos inside, and_iff_right inside]
  · simp [inside]

theorem exists_base {i : Nat} {name : String} (there : (variantNames variants)[i]? = some name) :
    ∃ base, (bases variants)[i]? = some base := by
  obtain ⟨inside, _⟩ := List.getElem?_eq_some_iff.mp there
  rw [variantNames, length_variantNamesFrom] at inside
  exact ⟨_, List.getElem?_eq_getElem (by rwa [bases, List.length_map])⟩

theorem numbered_iff {i : Nat} {base : String} (there : (bases variants)[i]? = some base) :
    Numbered (bases variants) i ↔ base ∈ (variantNames variants).take i ∨ base = "Self" := by
  -- an earlier position has its base or, if numbered, its base with the number
  induction i using Nat.strongRecOn generalizing base with
  | ind i ih =>
    constructor
    · intro numbered
      cases numbered with
      | reserved self => exact .inr (Option.some.inj (there.symm.trans self))
      | @repeated _ j _ earlier one other =>
        cases there.symm.trans other
        by_cases renamed : base ∈ (variantNames variants).take j ∨ base = "Self"
        · refine renamed.imp_left fun member => ?_
          obtain ⟨k, before, named⟩ := mem_take_iff.mp member
          exact mem_take_iff.mpr ⟨k, before.trans earlier, named⟩
        · have named := getElem?_variantNames one
          rw [givenName, if_neg renamed] at named
          exact .inl (mem_take_iff.mpr ⟨j, earlier, named⟩)
      | @taken _ j first earlier before one other =>
        cases there.symm.trans other
        have named := getElem?_variantNames one
        rw [givenName, if_pos ((ih j earlier one).mp before)] at named
        exact .inl (mem_take_iff.mpr ⟨j, earlier, named⟩)
    · rintro (member | rfl)
      · obtain ⟨j, earlier, named⟩ := mem_take_iff.mp member
        obtain ⟨first, one⟩ := exists_base named
        have given := getElem?_variantNames one
        rw [named, givenName] at given
        split at given
        · rename_i renamed
          cases given
          exact .taken earlier ((ih j earlier one).mpr renamed) one there
        · cases given
          exact .repeated earlier one there
      · exact .reserved there

theorem getElem?_of_numbered {i : Nat} {base : String} (there : (bases variants)[i]? = some base)
    (numbered : Numbered (bases variants) i) :
    (variantNames variants)[i]? = some (base ++ toString i) := by
  rw [getElem?_variantNames there, givenName, if_pos ((numbered_iff there).mp numbered)]

theorem getElem?_of_not_numbered {i : Nat} {base : String}
    (there : (bases variants)[i]? = some base) (kept : ¬ Numbered (bases variants) i) :
    (variantNames variants)[i]? = some base := by
  rw [getElem?_variantNames there, givenName, if_neg (mt (numbered_iff there).mpr kept)]

def EndsInDigit (name : String) : Prop := ∃ c, name.toList.getLast? = some c ∧ c.isDigit = true

theorem endsInDigit_of_append {name : String} {front back : List Char}
    (letters : name.toList = front ++ back) (nonempty : back ≠ [])
    (digits : ∀ c ∈ back, c.isDigit = true) : EndsInDigit name := by
  refine ⟨back.getLast nonempty, ?_, digits _ (List.getLast_mem nonempty)⟩
  rw [letters, List.getLast?_append_of_ne_nil _ nonempty, List.getLast?_eq_some_getLast nonempty]

theorem endsInDigit_number (base : String) (i : Nat) : EndsInDigit (base ++ toString i) :=
  endsInDigit_of_append (toList_number base i) Nat.toDigits_ne_nil fun _ => Text.isDigit_toDigits

theorem number_ne_self (base : String) (i : Nat) : base ++ toString i ≠ "Self" := by
  intro same
  obtain ⟨c, last, digit⟩ := endsInDigit_number base i
  rw [same] at last
  cases last
  exact absurd digit (by decide)

/-- A name that does not end in a digit takes no digit from the number behind another. -/
theorem eq_of_longer {a b : String} (letters : ¬ EndsInDigit b) {back : List Char} {i j : Nat}
    (longer : b.toList = a.toList ++ back)
    (digits : Nat.toDigits 10 i = back ++ Nat.toDigits 10 j) : i = j := by
  by_cases none : back = []
  · rw [none, List.nil_append] at digits
    calc i = Nat.ofDigitChars 10 (Nat.toDigits 10 i) 0 := Nat.ofDigitChars_ten_toDigits.symm
      _ = Nat.ofDigitChars 10 (Nat.toDigits 10 j) 0 := by rw [digits]
      _ = j := Nat.ofDigitChars_ten_toDigits
  · refine absurd (endsInDigit_of_append longer none fun c member => ?_) letters
    exact Text.isDigit_toDigits (digits ▸ List.mem_append_left _ member)

theorem number_inj {a b : String} (first : ¬ EndsInDigit a) (second : ¬ EndsInDigit b) {i j : Nat}
    (same : a ++ toString i = b ++ toString j) : i = j := by
  have split : a.toList ++ Nat.toDigits 10 i = b.toList ++ Nat.toDigits 10 j := by
    rw [← toList_number, same, toList_number]
  rcases List.append_eq_append_iff.mp split with ⟨back, longer, digits⟩ | ⟨back, longer, digits⟩
  · exact eq_of_longer second longer digits
  · exact (eq_of_longer first longer digits).symm

theorem nodup_iff_no_clash :
    (variantNames variants).Nodup ↔ ∀ i j, ¬ Clash (bases variants) i j := by
  rw [List.nodup_iff_getElem?_ne_getElem?]
  constructor
  · rintro distinct i j ⟨base, other, earlier, numbered, there, before, same⟩
    have named := getElem?_of_numbered there numbered
    obtain ⟨inside, _⟩ := List.getElem?_eq_some_iff.mp named
    rcases same with rfl | ⟨alike, same⟩
    · by_cases alike : Numbered (bases variants) j
      · rcases (numbered_iff before).mp alike with member | self
        · obtain ⟨k, first, taken⟩ := mem_take_iff.mp member
          exact distinct k i (first.trans earlier) inside (taken.trans named.symm)
        · exact number_ne_self base i self
      · have kept := getElem?_of_not_numbered before alike
        exact distinct j i earlier inside (kept.trans named.symm)
    · have renamed := getElem?_of_numbered before alike
      rw [same] at renamed
      exact distinct j i earlier inside (renamed.trans named.symm)
  · intro free j i earlier inside same
    obtain ⟨base, there⟩ := exists_base (List.getElem?_eq_getElem inside)
    obtain ⟨other, before⟩ := exists_base (List.getElem?_eq_getElem (earlier.trans inside))
    by_cases numbered : Numbered (bases variants) i
    · refine free i j ⟨base, other, earlier, numbered, there, before, ?_⟩
      rw [getElem?_of_numbered there numbered] at same
      by_cases alike : Numbered (bases variants) j
      · rw [getElem?_of_numbered before alike] at same
        exact .inr ⟨alike, Option.some.inj same⟩
      · rw [getElem?_of_not_numbered before alike] at same
        exact .inl (Option.some.inj same)
    · rw [getElem?_of_not_numbered there numbered] at same
      exact numbered ((numbered_iff there).mpr (.inl (mem_take_iff.mpr ⟨j, earlier, same⟩)))

theorem not_clash_of_no_digit (letters : ∀ base ∈ bases variants, ¬ EndsInDigit base) (i j : Nat) :
    ¬ Clash (bases variants) i j := by
  rintro ⟨base, other, earlier, _, there, before, same⟩
  have first := letters base (List.mem_of_getElem? there)
  have second := letters other (List.mem_of_getElem? before)
  rcases same with rfl | ⟨_, same⟩
  · exact second (endsInDigit_number base i)
  · exact Nat.ne_of_lt earlier (number_inj second first same)

theorem usable_of_mem (identifiers : ∀ v ∈ variants, Manifest.Identifier v) {name : String}
    (member : name ∈ variantNames variants) : Usable name ∧ name ≠ "Self" := by
  obtain ⟨i, there⟩ := List.mem_iff_getElem?.mp member
  obtain ⟨base, origin⟩ := exists_base there
  have capitalised : Capitalised base := by
    obtain ⟨v, listed, rfl⟩ := List.mem_map.mp (List.mem_of_getElem? origin)
    exact capitalised_variantBase (Manifest.isIdentifier_iff.mpr (identifiers v listed))
  rw [getElem?_variantNames origin, givenName] at there
  split at there
  · cases there
    have other := number_ne_self base i
    exact ⟨(capitalised.append_number i).usable other, other⟩
  · rename_i kept
    cases there
    have other : name ≠ "Self" := fun self => kept (.inr self)
    exact ⟨capitalised.usable other, other⟩

/-- Identifiers give as many names, all of them usable. The names are distinct unless a number
makes one of them an earlier one, which takes a name that ends in a digit before numbers are
added. -/
theorem variant_names_distinct_iff {variants : List String}
    (identifiers : ∀ v ∈ variants, Manifest.Identifier v) :
    (variantNames variants).length = variants.length ∧
    (∀ name ∈ variantNames variants, Usable name ∧ name ≠ "Self") ∧
    ((variantNames variants).Nodup ↔ ∀ i j, ¬ Clash (bases variants) i j) ∧
    ((∀ base ∈ bases variants, ¬ EndsInDigit base) → (variantNames variants).Nodup) :=
  ⟨length_variantNamesFrom 0 [] variants, fun _ => usable_of_mem identifiers, nodup_iff_no_clash,
    fun letters => nodup_iff_no_clash.mpr (not_clash_of_no_digit letters)⟩

theorem repeated_words_get_distinct_names :
    (∀ v ∈ ["add", "_add", "self"], Manifest.Identifier v) ∧
      (∀ base ∈ bases ["add", "_add", "self"], ¬ EndsInDigit base) ∧
      variantNames ["add", "_add", "self"] = ["Add", "Add1", "Self2"] ∧
      (variantNames ["add", "_add", "self"]).Nodup ∧
      (∀ v ∈ ["self1", "self"], Manifest.Identifier v) ∧
      ∃ i j, Clash (bases ["self1", "self"]) i j := by
  have words : ∀ v ∈ ["add", "_add", "self"], Manifest.Identifier v := by
    simp only [← Manifest.isIdentifier_iff]
    decide
  have selves : ∀ v ∈ ["self1", "self"], Manifest.Identifier v := by
    simp only [← Manifest.isIdentifier_iff]
    decide
  have letters : ∀ base ∈ bases ["add", "_add", "self"], ¬ EndsInDigit base := by
    have ends : ∀ base ∈ bases ["add", "_add", "self"],
        base.toList.getLast?.any Char.isDigit = false := by decide
    rintro base member ⟨c, last, digit⟩
    have other := ends base member
    rw [last, Option.any_some, digit] at other
    cases other
  obtain ⟨_, _, _, distinct⟩ := variant_names_distinct_iff words
  obtain ⟨_, _, distinct_iff, _⟩ := variant_names_distinct_iff selves
  refine ⟨words, letters, by decide, distinct letters, selves, ?_⟩
  have twice : ¬ (variantNames ["self1", "self"]).Nodup := by decide
  simpa only [not_forall, not_not] using mt distinct_iff.mpr twice

/-- Distinct identifiers whose names are not distinct. -/
theorem number_repeats_earlier_name :
    (∀ v ∈ ["a2", "a", "_a"], Manifest.Identifier v) ∧ ["a2", "a", "_a"].Nodup ∧
      variantNames ["a2", "a", "_a"] = ["A2", "A", "A2"] ∧
      ¬ ((variantNames ["a2", "a", "_a"]).length = ["a2", "a", "_a"].length ∧
        (variantNames ["a2", "a", "_a"]).Nodup ∧
        ∀ name ∈ variantNames ["a2", "a", "_a"], Usable name ∧ name ≠ "Self") := by
  have names : variantNames ["a2", "a", "_a"] = ["A2", "A", "A2"] := by decide
  refine ⟨?_, by decide, names, ?_⟩
  · simp only [← Manifest.isIdentifier_iff]
    decide
  · rintro ⟨_, distinct, _⟩
    rw [names] at distinct
    exact absurd distinct (by decide)

end Positions

end CopyPatch.Source
