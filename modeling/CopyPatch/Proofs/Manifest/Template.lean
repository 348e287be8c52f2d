import CopyPatch.Proofs.Manifest.Check

/-! Which templates are accepted. A template is meant to be literal text without braces and axis
names in braces. Every such template is accepted, but a closing brace that closes nothing is
noticed only behind the last placeholder, so there are others. -/
namespace CopyPatch.Manifest.Template

/-- The characters of literal text. -/
def Plain (c : Char) : Prop := c ≠ '\x7b' ∧ c ≠ '\x7d'

/-- A name in braces. -/
def braced (name : List Char) : List Char := '\x7b' :: name ++ ['\x7d']

theorem braced_append (name rest : List Char) :
    braced name ++ rest = '\x7b' :: (name ++ '\x7d' :: rest) := by
  simp [braced]

/-- A concatenation of allowed characters and of axis names in braces. -/
inductive Spelled (allowed : Char → Prop) (names : List String) : List Char → Prop where
  | nil : Spelled allowed names []
  | char {c : Char} {rest : List Char} (fits : allowed c) (more : Spelled allowed names rest) :
      Spelled allowed names (c :: rest)
  | placeholder {name : String} {rest : List Char} (known : name ∈ names)
      (more : Spelled allowed names rest) : Spelled allowed names (braced name.toList ++ rest)

/-- Either there is no brace at all, or behind the last placeholder there is none. Before it a
closing brace may stand anywhere in the text. -/
def Accepted (names : List String) (template : List Char) : Prop :=
  (∀ c ∈ template, Plain c) ∨
    ∃ front name back, Spelled (· ≠ '\x7b') names front ∧ name ∈ names ∧ (∀ c ∈ back, Plain c) ∧
      template = front ++ (braced name.toList ++ back)

/-- The segments of a template, placeholder by placeholder. -/
inductive Reads (names : List String) : List Char → List Segment → Prop where
  | last {text : List Char} (plain : ∀ c ∈ text, Plain c) : Reads names text (literal text)
  | placeholder {text name rest : List Char} {position : Nat} {segments : List Segment}
      (closed : '\x7b' ∉ text) (ended : '\x7d' ∉ name)
      (known : names.idxOf? (String.ofList name) = some position)
      (more : Reads names rest segments) :
      Reads names (text ++ (braced name ++ rest)) (literal text ++ .axis position :: segments)

section Scanning

variable {body : String} {names : List String}

theorem inText_append {text : List Char} (closed : '\x7b' ∉ text) (seen rest : List Char) :
    inText body names seen (text ++ rest) = inText body names (text.reverse ++ seen) rest := by
  induction text generalizing seen with
  | nil => rfl
  | cons c text ih =>
    rw [List.mem_cons, not_or] at closed
    rw [List.cons_append, inText, if_neg (Ne.symm closed.1), ih closed.2, List.reverse_cons,
      List.append_assoc, List.singleton_append]

theorem inName_append {name : List Char} (ended : '\x7d' ∉ name) (seen rest : List Char) :
    inName body names seen (name ++ rest) = inName body names (name.reverse ++ seen) rest := by
  induction name generalizing seen with
  | nil => rfl
  | cons c name ih =>
    rw [List.mem_cons, not_or] at ended
    rw [List.cons_append, inName, if_neg (Ne.symm ended.1), ih ended.2, List.reverse_cons,
      List.append_assoc, List.singleton_append]

theorem inText_last {text : List Char} (closed : '\x7b' ∉ text) {segments : List Segment} :
    inText body names [] text = .ok segments ↔ '\x7d' ∉ text ∧ segments = literal text := by
  have scanned : inText body names [] (text ++ []) = inText body names (text.reverse ++ []) [] :=
    inText_append closed [] []
  rw [List.append_nil, List.append_nil] at scanned
  rw [scanned, inText]
  by_cases stray : '\x7d' ∈ text
  · simp [stray]
  · simp [stray, eq_comm]

theorem inText_open {text : List Char} (closed : '\x7b' ∉ text) (rest : List Char)
    {segments : List Segment} :
    inText body names [] (text ++ '\x7b' :: rest) = .ok segments ↔
      ∃ more, inName body names [] rest = .ok more ∧ segments = literal text ++ more := by
  rw [inText_append closed, inText, if_pos rfl, Outcome.map_eq_ok, List.append_nil,
    List.reverse_reverse]
  simp only [eq_comm]

theorem inName_unended {name : List Char} (unended : '\x7d' ∉ name) {segments : List Segment} :
    inName body names [] name ≠ .ok segments := by
  have scanned : inName body names [] (name ++ []) = inName body names (name.reverse ++ []) [] :=
    inName_append unended [] []
  rw [List.append_nil] at scanned
  rw [scanned, inName]
  intro h
  cases h

theorem inName_close {name : List Char} (ended : '\x7d' ∉ name) (rest : List Char)
    {segments : List Segment} :
    inName body names [] (name ++ '\x7d' :: rest) = .ok segments ↔
      ∃ position more, names.idxOf? (String.ofList name) = some position ∧
        inText body names [] rest = .ok more ∧ segments = .axis position :: more := by
  rw [inName_append ended, inName, if_pos rfl, List.append_nil, List.reverse_reverse]
  dsimp only
  split
  · rename_i position known
    rw [Outcome.map_eq_ok]
    constructor
    · rintro ⟨more, read, rfl⟩
      exact ⟨position, more, known, read, rfl⟩
    · rintro ⟨_, more, same, read, rfl⟩
      cases known.symm.trans same
      exact ⟨more, read, rfl⟩
  · rename_i unknown
    simp [unknown]

/-- A character is absent, or a list has a first place where it stands. -/
theorem exists_first (c : Char) (cs : List Char) :
    c ∉ cs ∨ ∃ before after, cs = before ++ c :: after ∧ c ∉ before := by
  by_cases present : c ∈ cs
  · exact Or.inr (List.eq_append_cons_of_mem present)
  · exact Or.inl present

theorem reads_of_inText {cs : List Char} {segments : List Segment}
    (read : inText body names [] cs = .ok segments) : Reads names cs segments := by
  -- each placeholder takes characters away, so the induction is on the length
  induction size : cs.length using Nat.strongRecOn generalizing cs segments with
  | _ _ ih =>
    rcases exists_first '\x7b' cs with closed | ⟨text, rest, rfl, closed⟩
    · obtain ⟨unstray, rfl⟩ := (inText_last closed).mp read
      exact .last fun c member =>
        ⟨ne_of_mem_of_not_mem member closed, ne_of_mem_of_not_mem member unstray⟩
    · obtain ⟨more, named, rfl⟩ := (inText_open closed rest).mp read
      rcases exists_first '\x7d' rest with unended | ⟨name, rest, rfl, ended⟩
      · exact absurd named (inName_unended unended)
      · obtain ⟨position, segments, known, onward, rfl⟩ := (inName_close ended rest).mp named
        have shorter : rest.length < (text ++ '\x7b' :: (name ++ '\x7d' :: rest)).length := by
          simp only [List.length_append, List.length_cons]
          omega
        have later := ih _ (size ▸ shorter) onward rfl
        simpa [braced] using Reads.placeholder closed ended known later

/-- Scanning gives the segments of a template. -/
theorem inText_eq_ok {cs : List Char} {segments : List Segment} :
    inText body names [] cs = .ok segments ↔ Reads names cs segments := by
  refine ⟨reads_of_inText, fun reads => ?_⟩
  induction reads with
  | last plain =>
    exact (inText_last fun member => (plain _ member).1 rfl).mpr
      ⟨fun member => (plain _ member).2 rfl, rfl⟩
  | @placeholder text name rest position segments closed ended known _ ih =>
    have named : inName body names [] (name ++ '\x7d' :: rest) = .ok (.axis position :: segments) :=
      (inName_close ended rest).mpr ⟨position, segments, known, ih, rfl⟩
    rw [braced_append]
    exact (inText_open closed _).mpr ⟨_, named, rfl⟩

end Scanning

section Acceptance

variable {body : String} {names : List String}

theorem literal_eq_nil {text : List Char} : literal text = [] ↔ text = [] := by
  cases text <;> simp [literal]

theorem mem_literal {text : List Char} {s : Segment} :
    s ∈ literal text ↔ text ≠ [] ∧ s = .literal (String.ofList text) := by
  cases text <;> simp [literal]

theorem mem_of_idxOf? {name : String} {position : Nat} (known : names.idxOf? name = some position) :
    name ∈ names := by
  by_contra absent
  rw [List.idxOf?_eq_none_iff.mpr absent] at known
  cases known

theorem exists_idxOf? {name : String} (known : name ∈ names) :
    ∃ position, names.idxOf? name = some position := by
  refine Option.ne_none_iff_exists'.mp fun none => ?_
  exact List.idxOf?_eq_none_iff.mp none known

theorem spelled_of_forall {allowed : Char → Prop} {text : List Char}
    (each : ∀ c ∈ text, allowed c) : Spelled allowed names text := by
  induction text with
  | nil => exact .nil
  | cons c text ih =>
    obtain ⟨first, others⟩ := List.forall_mem_cons.mp each
    exact .char first (ih others)

theorem Spelled.append {allowed : Char → Prop} {front back : List Char}
    (before : Spelled allowed names front) (after : Spelled allowed names back) :
    Spelled allowed names (front ++ back) := by
  induction before with
  | nil => exact after
  | char fits _ ih => exact .char fits ih
  | placeholder known _ ih =>
    rw [List.append_assoc]
    exact .placeholder known ih

namespace Reads

variable {cs : List Char} {segments : List Segment}

theorem eq_nil_iff (reads : Reads names cs segments) : segments = [] ↔ cs = [] := by
  cases reads with
  | last => exact literal_eq_nil
  | placeholder => simp [braced]

/-- A placeholder stands for an axis that there is. -/
theorem position_lt (reads : Reads names cs segments) {position : Nat}
    (member : Segment.axis position ∈ segments) : position < names.length := by
  induction reads with
  | last =>
    obtain ⟨_, other⟩ := mem_literal.mp member
    cases other
  | @placeholder text name rest found segments closed ended known more ih =>
    rcases List.mem_append.mp member with member | member
    · obtain ⟨_, other⟩ := mem_literal.mp member
      cases other
    · rcases List.mem_cons.mp member with same | member
      · cases same
        exact (List.idxOf?_eq_some_iff.mp known).1
      · exact ih member

theorem accepted (reads : Reads names cs segments) : Accepted names cs := by
  induction reads with
  | last plain => exact Or.inl plain
  | @placeholder text name rest position segments closed ended known _ ih =>
    have named : String.ofList name ∈ names := mem_of_idxOf? known
    have before : Spelled (· ≠ '\x7b') names text :=
      spelled_of_forall fun c member => ne_of_mem_of_not_mem member closed
    rcases ih with plain | ⟨front, last, back, spelled, found, plain, rfl⟩
    · exact Or.inr ⟨text, String.ofList name, rest, before, named, plain, by simp⟩
    · have whole := before.append (.placeholder named spelled)
      exact Or.inr ⟨_, last, back, whole, found, plain, by simp⟩

theorem spelled (reads : Reads names cs segments)
    (plain : ∀ text, Segment.literal text ∈ segments → '\x7d' ∉ text.toList) :
    Spelled Plain names cs := by
  induction reads with
  | last each => exact spelled_of_forall each
  | @placeholder text name rest position segments closed ended known _ ih =>
    have before : Spelled Plain names text := by
      refine spelled_of_forall fun c member => ⟨ne_of_mem_of_not_mem member closed, ?_⟩
      rintro rfl
      have listed : Segment.literal (String.ofList text) ∈ literal text :=
        mem_literal.mpr ⟨List.ne_nil_of_mem member, rfl⟩
      exact plain _ (List.mem_append_left _ listed) (by simpa using member)
    have after := ih fun t member =>
      plain t (List.mem_append_right _ (List.mem_cons_of_mem _ member))
    simpa using before.append (.placeholder (mem_of_idxOf? known) after)

end Reads

theorem inText_placeholder {name : String} {position : Nat} {rest : List Char}
    {segments : List Segment} (ended : '\x7d' ∉ name.toList)
    (known : names.idxOf? name = some position)
    (read : inText body names [] rest = .ok segments) (seen : List Char) :
    inText body names seen (braced name.toList ++ rest) =
      .ok (literal seen.reverse ++ .axis position :: segments) := by
  have named : inName body names [] (name.toList ++ '\x7d' :: rest) =
      .ok (.axis position :: segments) :=
    (inName_close ended rest).mpr ⟨position, segments, by rwa [String.ofList_toList], read, rfl⟩
  rw [braced_append, inText, if_pos rfl, named]
  rfl

/-- The characters of the literal segments. -/
def LiteralsIn (allowed : Char → Prop) (segments : List Segment) : Prop :=
  ∀ text, Segment.literal text ∈ segments → ∀ c ∈ text.toList, allowed c

theorem literalsIn_cons {allowed : Char → Prop} {text : List Char} {position : Nat}
    {segments : List Segment} (first : ∀ c ∈ text, allowed c)
    (others : LiteralsIn allowed segments) :
    LiteralsIn allowed (literal text ++ .axis position :: segments) := by
  intro shown member c inside
  rcases List.mem_append.mp member with member | member
  · cases (mem_literal.mp member).2
    exact first c (by simpa using inside)
  · exact others shown ((List.mem_cons.mp member).resolve_left (by intro h; cases h)) c inside

/-- Spelled text is read if what follows it is, whatever text was seen before it. -/
theorem Spelled.exists_inText {allowed : Char → Prop} (closed : ∀ c, allowed c → c ≠ '\x7b')
    (ended : ∀ name ∈ names, '\x7d' ∉ name.toList) {front back : List Char}
    (spelled : Spelled allowed names front)
    (follows : ∀ seen, (∀ c ∈ seen, allowed c) → ∃ segments,
      inText body names seen back = .ok segments ∧ LiteralsIn allowed segments)
    (seen : List Char) (before : ∀ c ∈ seen, allowed c) :
    ∃ segments, inText body names seen (front ++ back) = .ok segments ∧
      LiteralsIn allowed segments := by
  induction spelled generalizing seen with
  | nil => exact follows seen before
  | @char c rest fits _ ih =>
    rw [List.cons_append, inText, if_neg (closed c fits)]
    exact ih (c :: seen) (List.forall_mem_cons.mpr ⟨fits, before⟩)
  | @placeholder name rest known _ ih =>
    obtain ⟨segments, read, plain⟩ := ih [] (List.forall_mem_nil _)
    obtain ⟨position, found⟩ := exists_idxOf? known
    rw [List.append_assoc]
    refine ⟨_, inText_placeholder (ended name known) found read seen, literalsIn_cons ?_ plain⟩
    exact fun c member => before c (List.mem_reverse.mp member)

theorem Accepted.exists_reads (ended : ∀ name ∈ names, '\x7d' ∉ name.toList) {cs : List Char}
    (accepted : Accepted names cs) : ∃ segments, Reads names cs segments := by
  rcases accepted with plain | ⟨front, name, back, spelled, known, plain, rfl⟩
  · exact ⟨_, .last plain⟩
  · obtain ⟨position, found⟩ := exists_idxOf? known
    have last : inText "" names [] back = .ok (literal back) := inText_eq_ok.mpr (.last plain)
    have closed : LiteralsIn (· ≠ '\x7b') (literal back) := by
      intro text member c inside
      cases (mem_literal.mp member).2
      exact (plain c (by simpa using inside)).1
    obtain ⟨segments, read, _⟩ := spelled.exists_inText (fun _ fits => fits) ended
      (fun seen before => ⟨_, inText_placeholder (ended name known) found last seen,
        literalsIn_cons (fun c member => before c (List.mem_reverse.mp member)) closed⟩)
      [] (List.forall_mem_nil _)
    exact ⟨segments, inText_eq_ok.mp read⟩

theorem Spelled.exists_reads (ended : ∀ name ∈ names, '\x7d' ∉ name.toList) {cs : List Char}
    (spelled : Spelled Plain names cs) :
    ∃ segments, Reads names cs segments ∧ LiteralsIn Plain segments := by
  have ends : ∀ seen, (∀ c ∈ seen, Plain c) → ∃ segments,
      inText "" names seen [] = .ok segments ∧ LiteralsIn Plain segments := by
    intro seen before
    refine ⟨literal seen.reverse, if_neg ?_, fun text member c inside => ?_⟩
    · simpa using fun member => (before _ member).2 rfl
    · cases (mem_literal.mp member).2
      exact before c (by simpa using inside)
  obtain ⟨segments, read, plain⟩ :=
    spelled.exists_inText (fun _ fits => fits.1) ended ends [] (List.forall_mem_nil _)
  rw [List.append_nil, inText_eq_ok] at read
  exact ⟨segments, read, plain⟩

/-- A template is accepted if it is not empty and can be scanned. -/
theorem parse_eq_ok {segments : List Segment} :
    parse body names = .ok segments ↔ body ≠ "" ∧ Reads names body.toList segments := by
  have empty : body = "" ↔ body.toList = [] := String.toList_eq_nil_iff.symm
  rw [parse]
  split
  · rename_i read
    have none : body.toList = [] := (reads_of_inText read).eq_nil_iff.mp rfl
    simp [empty, none]
  · rename_i some
    rw [inText_eq_ok]
    constructor
    · intro reads
      refine ⟨fun none => ?_, reads⟩
      have nothing := reads.eq_nil_iff.mpr (empty.mp none)
      subst nothing
      exact some (inText_eq_ok.mpr reads)
    · exact fun h => h.2

end Acceptance

/-- Over axes named by identifiers, the templates that are accepted are those of the grammar and
besides them only such with a closing brace in the text before a placeholder. -/
theorem template_accepted_iff {names : List String}
    (identifiers : ∀ name ∈ names, isIdentifier name = true) (body : String) :
    ((∃ segments, parse body names = .ok segments) ↔ body ≠ "" ∧ Accepted names body.toList) ∧
    (body ≠ "" ∧ Spelled Plain names body.toList ↔
      ∃ segments, parse body names = .ok segments ∧
        ∀ text, Segment.literal text ∈ segments → '\x7d' ∉ text.toList) := by
  have ended : ∀ name ∈ names, '\x7d' ∉ name.toList :=
    fun name member brace =>
      absurd (letters_of_isIdentifier (identifiers name member) _ brace) (by decide)
  simp only [parse_eq_ok]
  constructor
  · constructor
    · rintro ⟨segments, nonempty, reads⟩
      exact ⟨nonempty, reads.accepted⟩
    · rintro ⟨nonempty, accepted⟩
      obtain ⟨segments, reads⟩ := accepted.exists_reads ended
      exact ⟨segments, nonempty, reads⟩
  · constructor
    · rintro ⟨nonempty, spelled⟩
      obtain ⟨segments, reads, plain⟩ := spelled.exists_reads ended
      refine ⟨segments, ⟨nonempty, reads⟩, fun text member stray => ?_⟩
      exact (plain text member _ stray).2 rfl
    · rintro ⟨segments, ⟨nonempty, reads⟩, plain⟩
      exact ⟨nonempty, reads.spelled plain⟩

/-- A closing brace is let through before a placeholder and refused behind it. -/
theorem early_brace_passes_late_brace_not :
    (∃ segments, parse "a\x7d\x7bx\x7d" ["x"] = .ok segments) ∧
      ¬ Spelled Plain ["x"] "a\x7d\x7bx\x7d".toList ∧
      parse "\x7bx\x7da\x7d" ["x"] = .error (.strayBrace "\x7bx\x7da\x7d") := by
  have identifiers : ∀ name ∈ ["x"], isIdentifier name = true := by decide
  have account := template_accepted_iff identifiers "a\x7d\x7bx\x7d"
  have read : parse "a\x7d\x7bx\x7d" ["x"] = .ok [.literal "a\x7d", .axis 0] := by decide
  refine ⟨?_, fun spelled => ?_, by decide⟩
  · exact account.1.mpr ⟨by decide, Or.inr ⟨['a', '\x7d'], "x", [],
      .char (by decide) (.char (by decide) .nil), by decide, List.forall_mem_nil _, by decide⟩⟩
  · obtain ⟨segments, same, plain⟩ := account.2.mp ⟨by decide, spelled⟩
    cases read.symm.trans same
    exact plain "a\x7d" List.mem_cons_self (by decide)

/-- A template outside the grammar is accepted. -/
theorem stray_brace_is_accepted :
    isIdentifier "x" = true ∧
      ¬ ((∃ segments, parse "a\x7d\x7bx\x7d" ["x"] = .ok segments) ↔
        "a\x7d\x7bx\x7d" ≠ "" ∧ Spelled Plain ["x"] "a\x7d\x7bx\x7d".toList) := by
  refine ⟨by decide, fun claimed => ?_⟩
  obtain ⟨_, spelled⟩ := claimed.mp ⟨[.literal "a\x7d", .axis 0], by decide⟩
  cases spelled with
  | char _ more =>
    cases more with
    | char plain _ => exact plain.2 rfl

end CopyPatch.Manifest.Template
