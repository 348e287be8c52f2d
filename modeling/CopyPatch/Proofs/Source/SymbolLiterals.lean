import CopyPatch.Proofs.Compile.Selection
import CopyPatch.Proofs.Manifest.Rendering
import CopyPatch.Proofs.Source.Passages
import CopyPatch.Proofs.Source.VariantNames

/-! Symbols in the generated source. A symbol is written between two quotes as it is. Read as the
string literal that it becomes, it gives the symbol back exactly if it has no quote, no backslash
and no carriage return. The symbols of a family take such characters from its template alone, where
nothing keeps them out. -/
namespace CopyPatch

namespace Source

/-- Where a reader stands in a literal: in its text, behind a backslash, before the two digits of a
byte, before the brace of a character code or among its digits, or in the blanks of a line that is
continued. -/
inductive Mode where
  | text
  | escape
  | high
  | low (first : Nat)
  | brace
  | code (count value : Nat)
  | blanks
  deriving DecidableEq, Repr

/-- What a character does to a reader: it leads on and may stand for a character, it ends the
literal, or it cannot stand there. -/
inductive Move where
  | on (mode : Mode) (said : Option Char)
  | close
  | refuse
  deriving DecidableEq, Repr

namespace Mode

def inText (c : Char) : Move :=
  if c = '"' then .close
  else if c = '\\' then .on .escape none
  else if c = '\r' then .refuse
  else .on .text (some c)

/-- Characters that stand for one behind a backslash. -/
def escapes : List (Char × Char) :=
  [('n', '\n'), ('r', '\r'), ('t', '\t'), ('0', '\x00'), ('\\', '\\'), ('"', '"'), ('\x27', '\x27')]

def inEscape (c : Char) : Move :=
  match escapes.lookup c with
  | some said => .on .text (some said)
  | none =>
    if c = 'x' then .on .high none
    else if c = 'u' then .on .brace none
    else if c = '\n' then .on .blanks none
    else .refuse

/-- A byte is an ASCII character. -/
def inHigh (c : Char) : Move :=
  match Bytes.hexDigitValue? c with
  | some digit => if digit < 8 then .on (.low digit) none else .refuse
  | none => .refuse

def inLow (first : Nat) (c : Char) : Move :=
  match Bytes.hexDigitValue? c with
  | some digit => .on .text (some (Char.ofNat (16 * first + digit)))
  | none => .refuse

/-- One to six digits, with underscores behind the first. -/
def inCode (count value : Nat) (c : Char) : Move :=
  if c = '\x7d' then
    if 0 < count ∧ value.isValidChar then .on .text (some (Char.ofNat value)) else .refuse
  else if c = '_' then if 0 < count then .on (.code count value) none else .refuse
  else match Bytes.hexDigitValue? c with
    | some digit => if count < 6 then .on (.code (count + 1) (16 * value + digit)) none else .refuse
    | none => .refuse

def step : Mode → Char → Move
  | text, c => inText c
  | escape, c => inEscape c
  | high, c => inHigh c
  | low first, c => inLow first c
  | brace, c => if c = '\x7b' then .on (.code 0 0) none else .refuse
  | code count value, c => inCode count value c
  | blanks, c => if c ∈ [' ', '\t', '\n', '\r'] then .on .blanks none else inText c

/-- Read up to the closing quote: what the literal denotes, and the text behind it. -/
def read (mode : Mode) : List Char → Option (List Char × List Char)
  | [] => none
  | c :: rest => match mode.step c with
    | .on next said => (next.read rest).map fun found => (said.toList ++ found.1, found.2)
    | .close => some ([], rest)
    | .refuse => none

end Mode

/-- A file is read with its line ends made one character each. -/
def lineEnds : List Char → List Char
  | '\r' :: '\n' :: rest => '\n' :: lineEnds rest
  | c :: rest => c :: lineEnds rest
  | [] => []

/-- The literal whose opening quote stands before a text of a file. -/
def literal? (text : String) : Option (List Char × List Char) :=
  Mode.text.read (lineEnds text.toList)

/-- Between quotes a symbol is a literal that ends at the closing one and denotes the symbol. -/
def ReadsBack (symbol after : String) : Prop :=
  literal? (symbol ++ "\"" ++ after) = some (symbol.toList, lineEnds after.toList)

/-- Characters that a literal can hold as they are. -/
def Verbatim (c : Char) : Prop := c ≠ '"' ∧ c ≠ '\\' ∧ c ≠ '\r'

instance : DecidablePred Verbatim := fun c =>
  inferInstanceAs (Decidable (c ≠ '"' ∧ c ≠ '\\' ∧ c ≠ '\r'))

namespace Mode

/-- In the text of a literal three characters have a meaning of their own. -/
theorem step_text_cases (c : Char) :
    (c = '"' ∧ text.step c = .close) ∨ (c = '\\' ∧ text.step c = .on .escape none) ∨
      (c = '\r' ∧ text.step c = .refuse) ∨ (Verbatim c ∧ text.step c = .on .text (some c)) := by
  rw [step, inText]
  by_cases quote : c = '"'
  · exact .inl ⟨quote, if_pos quote⟩
  by_cases backslash : c = '\\'
  · exact .inr (.inl ⟨backslash, by rw [if_neg quote, if_pos backslash]⟩)
  by_cases ret : c = '\r'
  · exact .inr (.inr (.inl ⟨ret, by rw [if_neg quote, if_neg backslash, if_pos ret]⟩))
  · refine .inr (.inr (.inr ⟨⟨quote, backslash, ret⟩, ?_⟩))
    rw [if_neg quote, if_neg backslash, if_neg ret]

section Reading

variable {mode next : Mode} {c : Char} {said : Option Char}

theorem read_on (moved : mode.step c = .on next said) (rest : List Char) :
    mode.read (c :: rest) =
      (next.read rest).map fun found => (said.toList ++ found.1, found.2) := by
  rw [read, moved]

theorem read_close (moved : mode.step c = .close) (rest : List Char) :
    mode.read (c :: rest) = some ([], rest) := by
  rw [read, moved]

theorem read_refuse (moved : mode.step c = .refuse) (rest : List Char) :
    mode.read (c :: rest) = none := by
  rw [read, moved]

end Reading

/-- A character stands for one at most, and the closing quote for none. -/
theorem length_read {mode : Mode} {text said rest : List Char}
    (h : mode.read text = some (said, rest)) : said.length + rest.length < text.length := by
  induction text generalizing mode said with
  | nil => cases h
  | cons c text ih =>
    cases moved : mode.step c with
    | on next out =>
      rw [read_on moved] at h
      obtain ⟨found, later, same⟩ := Option.map_eq_some_iff.mp h
      obtain ⟨rfl, rfl⟩ := Prod.mk.inj same
      have shorter := ih later
      have one : out.toList.length ≤ 1 := by cases out <;> simp
      simp only [List.length_append, List.length_cons]
      omega
    | close =>
      rw [read_close moved] at h
      cases h
      simp
    | refuse =>
      rw [read_refuse moved] at h
      cases h

/-- A literal that loses no character is what it denotes. -/
theorem eq_of_length_read {text said rest : List Char} (h : Mode.text.read text = some (said, rest))
    (full : text.length ≤ said.length + rest.length + 1) :
    text = said ++ '"' :: rest ∧ ∀ c ∈ said, Verbatim c := by
  induction text generalizing said with
  | nil => cases h
  | cons c text ih =>
    rcases step_text_cases c with ⟨rfl, moved⟩ | ⟨rfl, moved⟩ | ⟨rfl, moved⟩ | ⟨verbatim, moved⟩
    · rw [read_close moved] at h
      cases h
      exact ⟨rfl, List.forall_mem_nil _⟩
    · -- what stands behind the backslash cannot make up for it
      rw [read_on moved] at h
      obtain ⟨found, later, same⟩ := Option.map_eq_some_iff.mp h
      obtain ⟨rfl, rfl⟩ := Prod.mk.inj same
      have shorter := length_read later
      simp only [Option.toList_none, List.nil_append, List.length_cons] at full
      omega
    · rw [read_refuse moved] at h
      cases h
    · rw [read_on moved] at h
      obtain ⟨found, later, same⟩ := Option.map_eq_some_iff.mp h
      obtain ⟨rfl, rfl⟩ := Prod.mk.inj same
      simp only [Option.toList_some, List.singleton_append, List.length_cons] at full ⊢
      obtain ⟨split, others⟩ := ih later (by omega)
      exact ⟨congrArg (c :: ·) split, List.forall_mem_cons.mpr ⟨verbatim, others⟩⟩

theorem read_verbatim {symbol : List Char} (verbatim : ∀ c ∈ symbol, Verbatim c)
    (rest : List Char) : Mode.text.read (symbol ++ '"' :: rest) = some (symbol, rest) := by
  induction symbol with
  | nil => rfl
  | cons c symbol ih =>
    obtain ⟨one, others⟩ := List.forall_mem_cons.mp verbatim
    have moved : Mode.text.step c = .on .text (some c) := by
      obtain ⟨quote, backslash, ret⟩ := one
      rw [step, inText, if_neg quote, if_neg backslash, if_neg ret]
    rw [List.cons_append, read_on moved, ih others]
    rfl

end Mode

theorem length_lineEnds_le (text : List Char) : (lineEnds text).length ≤ text.length := by
  fun_induction lineEnds text <;> simp only [List.length_cons, List.length_nil] <;> omega

theorem lineEnds_of_not_mem {text : List Char} (free : '\r' ∉ text) : lineEnds text = text := by
  fun_induction lineEnds text with
  | case1 rest ih => exact absurd List.mem_cons_self free
  | case2 c rest other ih => rw [ih fun member => free (List.mem_cons_of_mem c member)]
  | case3 => rfl

theorem lineEnds_of_length {text : List Char} (full : text.length ≤ (lineEnds text).length) :
    lineEnds text = text := by
  fun_induction lineEnds text with
  | case1 rest ih =>
    have shorter := length_lineEnds_le rest
    simp only [List.length_cons] at full
    omega
  | case2 c rest other ih => rw [ih (Nat.le_of_succ_le_succ full)]
  | case3 => rfl

/-- No line end reaches over a quote. -/
theorem lineEnds_append_quote (front back : List Char) :
    lineEnds (front ++ '"' :: back) = lineEnds front ++ '"' :: lineEnds back := by
  fun_induction lineEnds front with
  | case1 rest ih => rw [List.cons_append, List.cons_append, lineEnds, ih, List.cons_append]
  | case2 c rest other ih =>
    rw [List.cons_append, lineEnds, ih, List.cons_append]
    intro tail ret begins
    cases rest with
    | nil => exact absurd (List.cons.inj begins).1 (by decide)
    | cons d rest => exact other rest ret (by rw [(List.cons.inj begins).1])
  | case3 => simp [lineEnds]

theorem readsBack_iff (symbol after : String) :
    ReadsBack symbol after ↔ ∀ c ∈ symbol.toList, Verbatim c := by
  have text : (symbol ++ "\"" ++ after).toList = symbol.toList ++ '"' :: after.toList := by
    simp
  rw [ReadsBack, literal?, text, lineEnds_append_quote]
  constructor
  · intro read
    have shorter := Mode.length_read read
    simp only [List.length_append, List.length_cons] at shorter
    have same : lineEnds symbol.toList = symbol.toList := lineEnds_of_length (by omega)
    rw [same] at read
    refine (Mode.eq_of_length_read read ?_).2
    simp only [List.length_append, List.length_cons]
    omega
  · intro verbatim
    rw [lineEnds_of_not_mem fun member => (verbatim _ member).2.2 rfl]
    exact Mode.read_verbatim verbatim _

theorem Plain.verbatim {c : Char} (plain : Plain c) : Verbatim c := by
  refine ⟨?_, ?_, ?_⟩ <;>
  · rintro rfl
    exact absurd plain (by unfold Plain; decide)

theorem plain_of_isDigit {c : Char} (digit : c.isDigit = true) : Plain c := by
  rw [Plain, digit, Bool.or_true, Bool.true_or]

theorem plain_of_identifier {name : String} (identifier : Manifest.Identifier name) :
    ∀ c ∈ name.toList, Plain c :=
  Manifest.letters_of_isIdentifier (Manifest.isIdentifier_iff.mpr identifier)

theorem plain_toString (value : UInt64) : ∀ c ∈ (toString value).toList, Plain c := by
  intro c member
  change c ∈ (toString value.toNat).toList at member
  rw [Nat.toString_eq_ofList_toDigits, String.toList_ofList] at member
  exact plain_of_isDigit (Text.isDigit_toDigits member)

theorem plain_symbolName (type : TypeId) : ∀ c ∈ type.symbolName.toList, Plain c := by
  have every : type.symbolName.toList.all fun c => c.isLower || c.isDigit || decide (c = '_') := by
    rcases type with p | p | _
    · cases p <;> decide
    · cases p <;> decide
    · decide
  exact List.all_eq_true.mp every

end Source

/-- Values are written in characters of identifiers. -/
theorem FamilyDecl.plain_of_valueSymbol {decl : FamilyDecl}
    (admits : Manifest.Admits decl.name decl.signature) {position : Nat} {value : UInt64}
    {text : String} (h : decl.valueSymbol position value = .ok text) :
    ∀ c ∈ text.toList, Source.Plain c := by
  unfold valueSymbol at h
  split at h
  · cases h
    cases TypeId.decode value with
    | none =>
      intro c member
      change c ∈ ("type" ++ toString value).toList at member
      rw [String.toList_append] at member
      rcases List.mem_append.mp member with member | member
      · exact Source.plain_of_identifier (Manifest.isIdentifier_iff.mp (by decide)) c member
      · exact Source.plain_toString value c member
    | some type => exact Source.plain_symbolName type
  · cases h
    split <;> exact Source.plain_of_identifier (Manifest.isIdentifier_iff.mp (by decide))
  · rename_i count signature _ there
    cases h
    cases named : signature.variants[value.toNat]? with
    | none => exact Source.plain_toString value
    | some name =>
      exact Source.plain_of_identifier (admits.variants signature (List.mem_of_getElem? there) name
        (List.mem_of_getElem? named))
  · cases h

namespace Manifest.Template

theorem join_literal {ε : Type} {write : Segment → Except ε String}
    (literals : ∀ text, write (.literal text) = .ok text) {text : List Char} {texts : List String}
    (written : (literal text).mapM write = .ok texts) : (String.join texts).toList = text := by
  obtain ⟨shown, each, joined⟩ := exists_literal literals text
  rw [Outcome.mapM_eq_ok.mpr each] at written
  cases written
  exact joined

/-- A property of characters that names and values have, and braces, holds throughout a symbol
exactly if it holds throughout the template. -/
theorem Reads.forall_mem_join_iff {ε : Type} {P : Char → Prop} {write : Segment → Except ε String}
    {names : List String} {cs : List Char} {segments : List Segment}
    (literals : ∀ text, write (.literal text) = .ok text)
    (values : ∀ position text, write (.axis position) = .ok text → ∀ c ∈ text.toList, P c)
    (named : ∀ name ∈ names, ∀ c ∈ name.toList, P c) (opening : P '\x7b') (closing : P '\x7d')
    (reads : Reads names cs segments) {texts : List String}
    (written : segments.mapM write = .ok texts) :
    (∀ c ∈ (String.join texts).toList, P c) ↔ ∀ c ∈ cs, P c := by
  induction reads generalizing texts with
  | last => rw [join_literal literals written]
  | @placeholder text name rest position segments closed ended known _ ih =>
    -- the text, the value of the axis and the rest are written one behind the other
    rw [List.mapM_append] at written
    obtain ⟨front, first, written⟩ := Outcome.bind_eq_ok.mp written
    obtain ⟨back, others, written⟩ := Outcome.bind_eq_ok.mp written
    cases written
    rw [List.mapM_cons] at others
    obtain ⟨value, one, others⟩ := Outcome.bind_eq_ok.mp others
    obtain ⟨more, behind, same⟩ := Outcome.bind_eq_ok.mp others
    cases same
    have listed : String.ofList name ∈ names := mem_of_idxOf? known
    have inside := named _ listed
    rw [String.toList_ofList] at inside
    rw [String.join_append, String.join_cons, String.toList_append, String.toList_append,
      join_literal literals first, braced_append]
    simp only [List.forall_mem_append, List.forall_mem_cons, ih behind]
    constructor
    · rintro ⟨before, -, behind⟩
      exact ⟨before, opening, inside, closing, behind⟩
    · rintro ⟨before, -, -, -, behind⟩
      exact ⟨before, values position value one, behind⟩

end Manifest.Template

/-- What a checked template writes is verbatim where the template is. -/
theorem FamilyDecl.verbatim_bodySymbol_iff {written : Manifest.Written.Family} {decl : FamilyDecl}
    (checked : Manifest.checkFamily written = .ok decl) {tuple : Tuple} {symbol : String}
    (rendered : decl.bodySymbol tuple = .ok symbol) :
    (∀ c ∈ symbol.toList, Source.Verbatim c) ↔ ∀ c ∈ written.body.toList, Source.Verbatim c := by
  have admits := Manifest.checkFamily_admits checked
  obtain ⟨_, reads⟩ := Manifest.Template.parse_eq_ok.mp (Manifest.checkFamily_text checked).2
  obtain ⟨texts, each, joined⟩ := Outcome.map_eq_ok.mp rendered
  cases joined
  refine reads.forall_mem_join_iff (fun _ => rfl) ?_ ?_ (by decide : Source.Verbatim '\x7b')
    (by decide : Source.Verbatim '\x7d') each
  · intro position text shown c member
    rw [segmentText] at shown
    split at shown
    · exact (decl.plain_of_valueSymbol admits shown c member).verbatim
    · cases shown
  · intro name listed c member
    obtain ⟨signature, there, rfl⟩ := List.mem_map.mp listed
    exact (Source.plain_of_identifier (admits.axes signature there) c member).verbatim

namespace Source

/-- What stands in a family's module up to the symbol of its variant with this number. -/
def fieldOpening (i : Nat) : String :=
  s!"    pub static V{i}: {core}::Blueprint{forever} = {core}::Blueprint " ++ "\x7b" ++ "\n" ++
    "        symbol: \""

theorem stands_symbol {family : CompiledFamily} {i : Nat} {variant : CompiledVariant}
    (listed : family.variants[i]? = some variant) :
    Stands (fieldOpening i ++ variant.code.symbol ++ "\"") (familyModule family) := by
  refine Stands.trans ?_ (stands_variantItems listed)
  have closed : "\"," = "\"" ++ "," := by decide
  have field (front rest : String) :
      Stands (front ++ "\n" ++ "        symbol: \"" ++ variant.code.symbol ++ "\"")
        (front ++ "\n" ++ ("        symbol: \"" ++ variant.code.symbol ++ "\"," ++ "\n" ++ rest)) :=
    ⟨"", "," ++ "\n" ++ rest, by simp only [closed, String.append_assoc, String.empty_append]⟩
  rw [variantItems, lines_append]
  refine Stands.append_left ?_ _
  iterate 4 rw [lines_cons]
  exact ((field _ _).append_left _).append_left _

/-- In a family's module every symbol stands between quotes. As a literal it reads back exactly if
it has no quote, no backslash and no carriage return. For a symbol from a manifest this is so
exactly if the template of its family has none of them. -/
theorem emitted_symbols_read_back_iff (family : CompiledFamily) (i : Nat)
    (variant : CompiledVariant) (listed : family.variants[i]? = some variant) :
    ∃ before after,
      familyModule family = before ++ (fieldOpening i ++ variant.code.symbol ++ "\"") ++ after ∧
      (ReadsBack variant.code.symbol after ↔ ∀ c ∈ variant.code.symbol.toList, Verbatim c) ∧
      ∀ (written : Manifest.Written.Family) (decl : FamilyDecl) (tuple : Tuple),
        Manifest.checkFamily written = .ok decl →
        decl.bodySymbol tuple = .ok variant.code.symbol →
        (ReadsBack variant.code.symbol after ↔ ∀ c ∈ written.body.toList, Verbatim c) := by
  obtain ⟨before, after, split⟩ := stands_symbol listed
  refine ⟨before, after, split, readsBack_iff _ _, fun written decl tuple checked rendered => ?_⟩
  rw [readsBack_iff]
  exact FamilyDecl.verbatim_bodySymbol_iff checked rendered

theorem small_symbol_reads_back :
    ∃ m family variant written decl, ModuleSource.small.compile (fun _ => none) none = .ok m ∧
      family ∈ m.families ∧ family.variants[1]? = some variant ∧
      Manifest.checkFamily written = .ok decl ∧ written.body = "f_\x7bb\x7d" ∧
      decl.bodySymbol [1] = .ok variant.code.symbol ∧ ∃ before after,
        familyModule family =
          before ++ (fieldOpening 1 ++ variant.code.symbol ++ "\"") ++ after ∧
        ReadsBack variant.code.symbol after := by
  have evaluated : (do
      let m ← (ModuleSource.small.compile (fun _ => none) none).toOption
      let family ← m.families.head?
      let variant ← family.variants[1]?
      let read ← Manifest.Written.read ModuleSource.small.manifest
      let written ← read.families.head?
      let decl ← (Manifest.checkFamily written).toOption
      let symbol ← (decl.bodySymbol [1]).toOption
      return decide (written.body = "f_\x7bb\x7d" ∧ symbol = variant.code.symbol)) =
        some true := by decide +kernel
  simp only [Option.bind_eq_bind, Option.bind_eq_some_iff, Outcome.toOption_eq_some] at evaluated
  obtain ⟨m, compiled, family, first, variant, listed, _, _, written, _, decl, checked, symbol,
    rendered, facts⟩ := evaluated
  obtain ⟨body, rfl⟩ := of_decide_eq_true (Option.some.inj facts)
  obtain ⟨before, after, split, _, reads⟩ := emitted_symbols_read_back_iff family 1 variant listed
  refine ⟨m, family, variant, written, decl, compiled, List.mem_of_head? first, listed, checked,
    body, rendered, before, after, split, (reads written decl [1] checked rendered).mpr ?_⟩
  rw [body]
  simp [Verbatim]

/-- The small object with a quote in the names of its functions and in the template. -/
def quotedSource : ModuleSource where
  origin := "m.toml"
  manifest := "module = \"m\"\n[[family]]\nname = \"f\"\nbody = \"f\\\"\x7bb\x7d\"\n" ++
    "axes = [[\"bool\", \"b\"]]\n"
  object := (SmallObject.bytes.splice 313 [0x22]).splice 327 [0x22]

/-- A module that compiles, and whose generated literal ends inside the symbol. -/
theorem quoted_symbol_ends_early :
    ∃ m family variant, quotedSource.compile (fun _ => none) none = .ok m ∧
      family ∈ m.families ∧ family.variants[0]? = some variant ∧
      variant.code.symbol = "f\"false" ∧
      Stands (fieldOpening 0 ++ "f\"false" ++ "\"") (familyModule family) ∧
      ∀ after, ¬ ReadsBack "f\"false" after ∧ literal? ("f\"false" ++ "\"" ++ after) =
        some (['f'], lineEnds ("false\"" ++ after).toList) := by
  have evaluated : (do
      let m ← (quotedSource.compile (fun _ => none) none).toOption
      let family ← m.families.head?
      let variant ← family.variants[0]?
      return decide (variant.code.symbol = "f\"false")) = some true := by decide +kernel
  simp only [Option.bind_eq_bind, Option.bind_eq_some_iff, Outcome.toOption_eq_some] at evaluated
  obtain ⟨m, compiled, family, first, variant, listed, facts⟩ := evaluated
  have symbol := of_decide_eq_true (Option.some.inj facts)
  refine ⟨m, family, variant, compiled, List.mem_of_head? first, listed, symbol,
    symbol ▸ stands_symbol listed, fun after => ⟨?_, ?_⟩⟩
  · rw [readsBack_iff]
    simp [Verbatim]
  · have text : ("f\"false" ++ "\"" ++ after).toList =
        ['f'] ++ '"' :: ("false\"" ++ after).toList := by simp
    rw [literal?, text, lineEnds_append_quote, lineEnds_of_not_mem (by simp)]
    exact Mode.read_verbatim (by simp [Verbatim]) _

end Source

end CopyPatch
