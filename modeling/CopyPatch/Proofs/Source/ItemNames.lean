import CopyPatch.Proofs.Compile.Selection
import CopyPatch.Proofs.Source.Passages
import CopyPatch.Proofs.Source.VariantNames
import CopyPatch.Text.Split

/-! Names of the generated items. Type names are compared before anything is written, but they are
not looked at for what they are: words that begin with a digit, no words at all and the one word
`self` make names that the source cannot use. Module and parameter names are made from names that
differ; the underscore behind a path word makes them equal to a name that has it already. -/
namespace CopyPatch

/-- Families of a module compiled from its sources have names that its manifest could give. -/
theorem ModuleSource.compile_admits {source : ModuleSource} {process : String → Option Nat}
    {seed : Option UInt64} {compiled : CompiledModule}
    (h : source.compile process seed = .ok compiled) {family : CompiledFamily}
    (member : family ∈ compiled.families) : Manifest.Admits family.name family.signature := by
  obtain ⟨prepared, ready, h⟩ := Outcome.bind_eq_ok.mp h
  obtain ⟨extractor, _, h⟩ := Outcome.bind_eq_ok.mp h
  obtain ⟨families, made, h⟩ := Outcome.bind_eq_ok.mp h
  cases h
  obtain ⟨⟨decl, registration⟩, zipped, one⟩ := exists_left (Outcome.mapM_eq_ok.mp made) member
  obtain ⟨_, _, one⟩ := Outcome.bind_eq_ok.mp one
  obtain ⟨_, _, one⟩ := Outcome.bind_eq_ok.mp one
  cases one
  obtain ⟨_, written, _, _, checked⟩ := Manifest.parse_eq_ok (prepare_eq_ok ready).1
  obtain ⟨_, _, passed⟩ :=
    exists_left (Manifest.checkFamilies_eq_ok checked) (List.of_mem_zip zipped).1
  exact Manifest.checkFamily_admits passed

namespace Source

/-- The words of a name, without the underscores between them. -/
def wordsOf (name : String) : List (List Char) :=
  (Text.split '_' name.toList).filter (!·.isEmpty)

/-- A word with a capital. -/
def capitalWord : List Char → List Char
  | [] => []
  | c :: rest => c.toUpper :: rest

/-- Reading inside a word ends it at the next underscore; the words behind it have capitals. -/
theorem joinWords_split (cs : List Char) :
    joinWords true cs = ((Text.split '_' cs).filter (!·.isEmpty)).flatMap capitalWord ∧
    joinWords false cs = (Text.split '_' cs).headD [] ++
      ((Text.split '_' cs).tail.filter (!·.isEmpty)).flatMap capitalWord := by
  induction cs with
  | nil => exact ⟨rfl, rfl⟩
  | cons c rest ih =>
    obtain ⟨outside, inside⟩ := ih
    by_cases underscore : c = '_'
    · simp [joinWords, Text.split, underscore, outside]
    · simp only [joinWords, Text.split, if_neg underscore, inside]
      cases Text.split '_' rest <;> simp [capitalWord]

theorem toList_pascalCase (name : String) :
    (pascalCase name).toList = (wordsOf name).flatMap capitalWord := by
  rw [pascalCase, String.toList_ofList, (joinWords_split name.toList).1, wordsOf]

theorem mem_of_mem_split {mark c : Char} {cs word : List Char}
    (listed : word ∈ Text.split mark cs) (member : c ∈ word) : c ∈ cs ∧ c ≠ mark := by
  induction cs generalizing word with
  | nil =>
    obtain rfl := List.mem_singleton.mp listed
    cases member
  | cons d rest ih =>
    rw [Text.split] at listed
    split at listed
    · rcases List.mem_cons.mp listed with rfl | listed
      · cases member
      · exact (ih listed member).imp_left (List.mem_cons_of_mem d)
    · rename_i other
      have first : d ∈ d :: rest ∧ d ≠ mark := ⟨List.mem_cons_self, other⟩
      cases pieces : Text.split mark rest with
      | nil =>
        rw [pieces] at listed
        obtain rfl := List.mem_singleton.mp listed
        obtain rfl := List.mem_singleton.mp member
        exact first
      | cons begun others =>
        rw [pieces] at listed ih
        rcases List.mem_cons.mp listed with rfl | listed
        · rcases List.mem_cons.mp member with rfl | member
          · exact first
          · exact (ih List.mem_cons_self member).imp_left (List.mem_cons_of_mem d)
        · exact (ih (List.mem_cons_of_mem _ listed) member).imp_left (List.mem_cons_of_mem d)

/-- The letters and digits that words of names are made of. -/
def WordChar (c : Char) : Prop := c.isLower = true ∨ c.isDigit = true

theorem wordChar_of_mem {name : String} (identifier : Manifest.Identifier name)
    {word : List Char} (listed : word ∈ wordsOf name) : word ≠ [] ∧ ∀ c ∈ word, WordChar c := by
  obtain ⟨split, nonempty⟩ := List.mem_filter.mp listed
  refine ⟨by simpa using nonempty, fun c member => ?_⟩
  obtain ⟨inside, other⟩ := mem_of_mem_split split member
  have plain := Manifest.letters_of_isIdentifier (Manifest.isIdentifier_iff.mpr identifier) c inside
  simpa [WordChar, other] using plain

theorem WordChar.toUpper_cases {c : Char} (letter : WordChar c) :
    (c.isLower = true ∧ c.toUpper.isUpper = true) ∨ (c.isDigit = true ∧ c.toUpper = c) := by
  rcases Source.toUpper_cases c with ⟨lower, upper, _⟩ | ⟨other, same⟩
  · exact .inl ⟨lower, upper⟩
  · exact .inr ⟨letter.resolve_left (Bool.eq_false_iff.mp other), same⟩

/-- Words that make a usable name: the first begins with a letter, and they are not `self`
alone. -/
def Fit (words : List (List Char)) : Prop :=
  (words.head?.bind List.head?).any Char.isLower = true ∧ words ≠ [['s', 'e', 'l', 'f']]

instance (words : List (List Char)) : Decidable (Fit words) :=
  inferInstanceAs (Decidable (_ ∧ _))

section Words

variable {words : List (List Char)} {name : String}

theorem isAlphanum_of_mem (letters : ∀ word ∈ words, ∀ c ∈ word, WordChar c)
    {c : Char} (member : c ∈ words.flatMap capitalWord) : c.isAlphanum = true := by
  have plain : ∀ d, WordChar d → d.isAlphanum = true := by
    rintro d (lower | digit)
    · exact isAlphanum_iff.mpr (.inr (.inl lower))
    · exact isAlphanum_iff.mpr (.inr (.inr digit))
  obtain ⟨word, listed, member⟩ := List.mem_flatMap.mp member
  cases word with
  | nil => cases member
  | cons first rest =>
    obtain ⟨one, others⟩ := List.forall_mem_cons.mp (letters _ listed)
    rcases List.mem_cons.mp member with rfl | member
    · rcases one.toUpper_cases with ⟨_, upper⟩ | ⟨_, same⟩
      · exact isAlphanum_iff.mpr (.inl upper)
      · rw [same]
        exact plain first one
    · exact plain c (others c member)

/-- `Self` is made of the one word `self`: a second word would bring another capital or a digit. -/
theorem eq_self_of_toList (letters : ∀ word ∈ words, word ≠ [] ∧ ∀ c ∈ word, WordChar c)
    (spelled : words.flatMap capitalWord = ['S', 'e', 'l', 'f']) :
    words = [['s', 'e', 'l', 'f']] := by
  cases words with
  | nil => cases spelled
  | cons first more =>
    obtain ⟨⟨nonempty, one⟩, others⟩ := List.forall_mem_cons.mp letters
    obtain ⟨c, rest, rfl⟩ := List.exists_cons_of_ne_nil nonempty
    obtain ⟨capital, tail⟩ := List.cons.inj spelled
    have small : c = 's' := by
      rcases toUpper_cases c with ⟨_, _, place⟩ | ⟨other, same⟩
      · rw [capital] at place
        exact Char.toNat_inj.mp place.symm
      · have letter := one c List.mem_cons_self
        rw [← same, capital] at letter
        exact absurd letter (by unfold WordChar; decide)
    have alone : more = [] := by
      refine List.eq_nil_iff_forall_not_mem.mpr fun word listed => ?_
      obtain ⟨d, behind, rfl⟩ := List.exists_cons_of_ne_nil (others word listed).1
      have member : d.toUpper ∈ ['e', 'l', 'f'] :=
        tail ▸ List.mem_append_right _ (List.mem_flatMap.mpr ⟨_, listed, List.mem_cons_self⟩)
      have lower : ∀ e ∈ ['e', 'l', 'f'], e.isLower = true ∧ e.isUpper = false := by simp
      obtain ⟨small, large⟩ := lower _ member
      rcases toUpper_cases d with ⟨_, upper, _⟩ | ⟨other, same⟩
      · exact absurd upper (Bool.eq_false_iff.mp large)
      · rw [same, other] at small
        cases small
    subst small alone
    rw [show rest = ['e', 'l', 'f'] by simpa using tail]

/-- A name joined from words is usable exactly if the words are fit. -/
theorem usable_iff_fit (letters : ∀ word ∈ words, word ≠ [] ∧ ∀ c ∈ word, WordChar c)
    (spelled : name.toList = words.flatMap capitalWord) : Usable name ↔ Fit words := by
  cases words with
  | nil =>
    refine iff_of_false (fun usable => ?_) (by decide)
    obtain ⟨_, _, begins, _⟩ := usable.spelled
    rw [spelled] at begins
    cases begins
  | cons word more =>
    obtain ⟨nonempty, one⟩ := letters word List.mem_cons_self
    obtain ⟨c, rest, rfl⟩ := List.exists_cons_of_ne_nil nonempty
    constructor
    · intro usable
      constructor
      · obtain ⟨_, _, begins, letter, _⟩ := usable.spelled
        obtain ⟨rfl, _⟩ := List.cons.inj (spelled.symm.trans begins)
        rcases (one c List.mem_cons_self).toUpper_cases with ⟨lower, _⟩ | ⟨digit, same⟩
        · exact lower
        · rw [same] at letter
          rcases letter with alpha | rfl
          · exact absurd alpha (not_isAlpha_of_isDigit digit)
          · exact absurd digit (by decide)
      · intro alone
        rw [alone] at spelled
        have self : name = "Self" := String.toList_inj.mp spelled
        exact usable.free (self ▸ List.mem_cons_self)
    · rintro ⟨lower, other⟩
      have lower : c.isLower = true := lower
      have capitalised : Capitalised name := by
        refine ⟨c.toUpper, rest ++ more.flatMap capitalWord, spelled, ?_, fun d member => ?_⟩
        · rcases toUpper_cases c with ⟨_, upper, _⟩ | ⟨other, _⟩
          · exact upper
          · exact absurd lower (Bool.eq_false_iff.mp other)
        · refine isAlphanum_of_mem (fun word listed => (letters word listed).2) ?_
          exact List.mem_cons_of_mem c.toUpper member
      refine capitalised.usable fun self => other (eq_self_of_toList letters ?_)
      rw [← spelled, self]
      rfl

theorem enumTypeName?_usable_iff {family type : String} {axis : AxisSignature}
    (first : Manifest.Identifier family) (second : Manifest.Identifier axis.name)
    (named : enumTypeName? family axis = some type) :
    Usable type ↔ Fit (wordsOf family ++ wordsOf axis.name) := by
  have joined : type = pascalCase family ++ pascalCase axis.name := by
    unfold enumTypeName? at named
    split at named
    · split at named
      · cases named
      · exact (Option.some.inj named).symm
    · cases named
  refine usable_iff_fit (fun word listed => ?_) ?_
  · rcases List.mem_append.mp listed with listed | listed
    · exact wordChar_of_mem first listed
    · exact wordChar_of_mem second listed
  · rw [joined, String.toList_append, toList_pascalCase, toList_pascalCase, List.flatMap_append]

end Words

/-- The identifier that a name in the source stands for: the mark of a raw one is not part
of it. -/
def bare (name : String) : String :=
  match name.toList with
  | 'r' :: '#' :: rest => String.ofList rest
  | _ => name

theorem bare_of_identifier {name : String} (identifier : Manifest.Identifier name) :
    bare name = name := by
  unfold bare
  split
  · rename_i rest marked
    have plain := Manifest.letters_of_isIdentifier (Manifest.isIdentifier_iff.mpr identifier) '#'
      (marked ▸ by simp)
    exact absurd plain (by decide)
  · rfl

/-- A path word gets an underscore; every other name stays the identifier it is. -/
theorem bare_itemName {name : String} (identifier : Manifest.Identifier name) :
    bare (itemName name) = if name ∈ pathWords then name ++ "_" else name := by
  unfold itemName
  split
  · rename_i path
    have unmarked : ∀ word ∈ pathWords, bare (word ++ "_") = word ++ "_" := by decide
    exact unmarked name path
  · split
    · simp [bare]
    · exact bare_of_identifier identifier

/-- A path word stands beside the name that its underscore makes of it. -/
def Collides (names : List String) : Prop :=
  ∃ word ∈ pathWords, word ∈ names ∧ word ++ "_" ∈ names

instance (names : List String) : Decidable (Collides names) :=
  inferInstanceAs (Decidable (∃ word ∈ pathWords, _))

theorem nodup_bare_iff {names : List String}
    (identifiers : ∀ name ∈ names, Manifest.Identifier name) (distinct : names.Nodup) :
    (names.map fun name => bare (itemName name)).Nodup ↔ ¬ Collides names := by
  have other : ∀ word ∈ pathWords, word ++ "_" ∉ pathWords ∧ word ++ "_" ≠ word := by decide
  rw [List.nodup_map_iff_inj_on distinct]
  constructor
  · rintro injective ⟨word, path, first, second⟩
    refine (other word path).2 (injective _ second _ first ?_)
    rw [bare_itemName (identifiers _ second), bare_itemName (identifiers _ first), if_pos path,
      if_neg (other word path).1]
  · intro free a listed b present same
    rw [bare_itemName (identifiers a listed), bare_itemName (identifiers b present)] at same
    split at same <;> split at same
    · exact (String.append_left_inj "_").mp same
    · rename_i path _
      exact absurd ⟨a, path, listed, same ▸ present⟩ free
    · rename_i _ path
      exact absurd ⟨b, path, present, same ▸ listed⟩ free
    · exact same

/-- Where the names of a family stand: its module and the parameters of its accessor in the second
file, its types in the first. -/
structure Shown (sources : GeneratedSources) (family : CompiledFamily) : Prop where
  tables : Stands ("pub mod " ++ itemName family.name ++ " \x7b" ++ "\n") sources.library
  parameters : Stands ("pub fn select_" ++ family.name ++ "_blueprint(" ++
    ", ".intercalate (family.signature.map fun axis =>
      itemName axis.name ++ ": " ++ parameterType family.name axis) ++
    ") -> &'static ") sources.library
  types : ∀ axis ∈ family.signature, ∀ type, enumTypeName? family.name axis = some type →
    Stands ("pub enum " ++ type ++ " \x7b" ++ "\n") sources.decls

theorem shown_of_generate {modules : List CompiledModule} {sources : GeneratedSources}
    (generated : generate modules = .ok sources) {family : CompiledFamily}
    (member : family ∈ modules.flatMap (·.families)) : Shown sources family := by
  obtain ⟨declared, tables, accessed⟩ := stands_of_generate generated member
  refine ⟨(stands_familyModule family).trans tables, (stands_accessor family).trans accessed,
    fun axis listed type named => ((stands_enumDeclaration named).trans ?_).trans declared⟩
  exact (Stands.join (List.mem_map_of_mem listed)).append_right _

/-- Names in the generated files, for families whose names a manifest may give, as those of compiled
modules are. Type names are distinct, and usable exactly if their words are fit. Module names, and
the parameters of an accessor, are distinct exactly if no path word collides with another name. -/
theorem generated_names_clash_iff (modules : List CompiledModule) :
    (∀ compiled ∈ modules, ∀ (source : ModuleSource) process seed,
      source.compile process seed = .ok compiled →
      ∀ family ∈ compiled.families, Manifest.Admits family.name family.signature) ∧
    ∀ sources, generate modules = .ok sources →
      (∀ family ∈ modules.flatMap (·.families), Manifest.Admits family.name family.signature) →
      (((modules.flatMap (·.families)).map fun family => bare (itemName family.name)).Nodup ↔
        ¬ Collides ((modules.flatMap (·.families)).map (·.name))) ∧
      ((modules.flatMap (·.families)).flatMap typesOf).Nodup ∧
      ∀ family ∈ modules.flatMap (·.families),
        Shown sources family ∧
        ((family.signature.map fun axis => bare (itemName axis.name)).Nodup ↔
          ¬ Collides (family.signature.map (·.name))) ∧
        ∀ axis ∈ family.signature, ∀ type, enumTypeName? family.name axis = some type →
          (Usable type ↔ Fit (wordsOf family.name ++ wordsOf axis.name)) := by
  refine ⟨fun _ _ _ _ _ compiled _ => ModuleSource.compile_admits compiled,
    fun sources generated admitted => ?_⟩
  obtain ⟨distinct, types⟩ := distinct_of_generate generated
  refine ⟨?_, types, fun family member => ⟨shown_of_generate generated member, ?_, ?_⟩⟩
  · have clash := nodup_bare_iff
      (List.forall_mem_map.mpr fun family member => (admitted family member).family) distinct
    rwa [List.map_map] at clash
  · have clash := nodup_bare_iff (List.forall_mem_map.mpr (admitted family member).axes)
      (admitted family member).distinct
    rwa [List.map_map] at clash
  · intro axis listed type named
    exact enumTypeName?_usable_iff (admitted family member).family
      ((admitted family member).axes axis listed) named

/-- A family without variants. -/
def emptyFamily (name : String) (signature : List AxisSignature) : CompiledFamily :=
  ⟨name, signature, [], ⟨[], [], [], #[]⟩⟩

/-- A reserved word, a path word without its double, and a double without its path word. -/
def orderlyModules : List CompiledModule :=
  [⟨"m", [emptyFamily "type" [⟨"super", .bool, []⟩, ⟨"k", .enum 1, ["a"]⟩]]⟩,
    ⟨"n", [emptyFamily "self_" [⟨"_1", .enum 1, ["a"]⟩]]⟩]

theorem orderlyModules_clash_nowhere :
    (∀ family ∈ orderlyModules.flatMap (·.families),
      Manifest.Admits family.name family.signature) ∧
    ∃ sources, generate orderlyModules = .ok sources ∧
      ((orderlyModules.flatMap (·.families)).map fun family => bare (itemName family.name)).Nodup ∧
      ((orderlyModules.flatMap (·.families)).flatMap typesOf).Nodup ∧
      (orderlyModules.flatMap (·.families)).flatMap typesOf = ["TypeK", "Self1"] ∧
      ∀ family ∈ orderlyModules.flatMap (·.families),
        Shown sources family ∧
        (family.signature.map fun axis => bare (itemName axis.name)).Nodup ∧
        ∀ axis ∈ family.signature, ∀ type, enumTypeName? family.name axis = some type →
          Usable type := by
  have admitted : ∀ family ∈ orderlyModules.flatMap (·.families),
      Manifest.Admits family.name family.signature := by decide
  obtain ⟨sources, generated⟩ : ∃ sources, generate orderlyModules = .ok sources :=
    ⟨_, generate_eq_ok.mpr ⟨by decide, by decide, rfl⟩⟩
  obtain ⟨names, types, families⟩ :=
    (generated_names_clash_iff orderlyModules).2 sources generated admitted
  have free : ¬ Collides ((orderlyModules.flatMap (·.families)).map (·.name)) := by decide
  have parameters : ∀ family ∈ orderlyModules.flatMap (·.families),
      ¬ Collides (family.signature.map (·.name)) := by decide
  have fit : ∀ family ∈ orderlyModules.flatMap (·.families), ∀ axis ∈ family.signature,
      Fit (wordsOf family.name ++ wordsOf axis.name) := by decide
  refine ⟨admitted, sources, generated, names.mpr free, types, by decide, fun family member => ?_⟩
  obtain ⟨shown, distinct, usable⟩ := families family member
  exact ⟨shown, distinct.mpr (parameters family member), fun axis listed type named =>
    (usable axis listed type named).mpr (fit family member axis listed)⟩

/-- A path word and its double, as families and as axes, and a type whose first word begins with a
digit. -/
def collidingModules : List CompiledModule :=
  [⟨"m", [emptyFamily "self" [⟨"self", .bool, []⟩, ⟨"self_", .bool, []⟩],
    emptyFamily "self_" [⟨"a", .bool, []⟩],
    emptyFamily "_1" [⟨"k", .enum 1, ["a"]⟩]]⟩]

/-- Two modules of one name, two parameters of one name, and a type name that begins with a
digit. -/
theorem generated_names_collide :
    (∀ family ∈ collidingModules.flatMap (·.families),
      Manifest.Admits family.name family.signature) ∧
    (∃ sources, generate collidingModules = .ok sources) ∧
    (collidingModules.flatMap (·.families)).map (fun family => itemName family.name) =
      ["self_", "self_", "_1"] ∧
    ¬ ((collidingModules.flatMap (·.families)).map fun family =>
      bare (itemName family.name)).Nodup ∧
    (∃ family ∈ collidingModules.flatMap (·.families),
      family.signature.map (fun axis => itemName axis.name) = ["self_", "self_"] ∧
      ¬ (family.signature.map fun axis => bare (itemName axis.name)).Nodup) ∧
    ∃ family ∈ collidingModules.flatMap (·.families), ∃ axis ∈ family.signature,
      enumTypeName? family.name axis = some "1K" ∧ ¬ Usable "1K" := by
  refine ⟨by decide, ⟨_, generate_eq_ok.mpr ⟨by decide, by decide, rfl⟩⟩, by decide, by decide,
    ⟨_, List.mem_cons_self, by decide, by decide⟩,
    ⟨emptyFamily "_1" [⟨"k", .enum 1, ["a"]⟩], by decide, _, List.mem_cons_self, by decide, ?_⟩⟩
  rintro ⟨⟨first, rest, begins, letter, _⟩, _⟩
  cases begins
  exact absurd letter (by decide)

end Source

end CopyPatch
