import CopyPatch.Proofs.Json.Scalars
import Mathlib.Data.List.Forall2

/-! JSON text is read back as the value it was printed from. A printed value is read whatever stands
behind it, as long as that does not go on with a number; so lists and objects are put together from
what is known of their parts, with blanks between them or without. -/
namespace CopyPatch.JsonValue

mutual

/-- Values that text can hold: no string that makes no text and no number kept as text. -/
def Plain : JsonValue → Prop
  | garbled => False
  | fraction _ => False
  | array items => PlainItems items
  | object entries => PlainEntries entries
  | _ => True

def PlainItems : List JsonValue → Prop
  | [] => True
  | v :: rest => v.Plain ∧ PlainItems rest

def PlainEntries : List (String × JsonValue) → Prop
  | [] => True
  | (_, v) :: rest => v.Plain ∧ PlainEntries rest

end

def isWhite (c : Char) : Bool := c = ' ' || c = '\t' || c = '\n' || c = '\r'

def Blank (cs : List Char) : Prop := ∀ c ∈ cs, isWhite c = true

instance (cs : List Char) : Decidable (Blank cs) :=
  decidable_of_iff (cs.all isWhite = true) List.all_eq_true

-- The equations of the readers are worked out once, for all proofs below.
attribute [local simp] value items entries

theorem skipWhite_append {ws : List Char} (blank : Blank ws) (cs : List Char) :
    skipWhite (ws ++ cs) = skipWhite cs :=
  List.dropWhile_append_of_pos blank

theorem skipWhite_cons {c : Char} (solid : isWhite c = false) (cs : List Char) :
    skipWhite (c :: cs) = c :: cs :=
  List.dropWhile_cons_of_neg (Bool.not_eq_true _ |>.mpr solid)

theorem skipWhite_idem (cs : List Char) : skipWhite (skipWhite cs) = skipWhite cs := by
  induction cs with
  | nil => rfl
  | cons c rest ih =>
    by_cases white : isWhite c = true
    · rw [← List.singleton_append, skipWhite_append (by simp [Blank, white]), ih]
    · rw [skipWhite_cons (by simpa using white), skipWhite_cons (by simpa using white)]

theorem value_skipWhite (fuel : Nat) (cs : List Char) :
    value fuel (skipWhite cs) = value fuel cs := by
  cases fuel with
  | zero => rfl
  | succ fuel => rw [value, value, skipWhite_idem]

theorem items_skipWhite (fuel : Nat) (cs : List Char) :
    items fuel (skipWhite cs) = items fuel cs := by
  cases fuel with
  | zero => rfl
  | succ fuel => rw [items, items, value_skipWhite]

theorem entries_skipWhite (fuel : Nat) (cs : List Char) :
    entries fuel (skipWhite cs) = entries fuel cs := by
  cases fuel with
  | zero => rfl
  | succ fuel => rw [entries, entries, skipWhite_idem]

theorem ends_of_blank {ws : List Char} (blank : Blank ws) {c : Char}
    (mark : c = ',' ∨ c = ']' ∨ c = '\x7d') (rest : List Char) : Ends (ws ++ c :: rest) := by
  intro d first
  cases ws with
  | nil =>
    obtain rfl : c = d := by simpa using first
    rcases mark with rfl | rfl | rfl <;> decide
  | cons w more =>
    obtain rfl : w = d := by simpa using first
    have white := blank w List.mem_cons_self
    simp only [isWhite, Bool.or_eq_true, decide_eq_true_eq] at white
    rcases white with ((rfl | rfl) | rfl) | rfl <;> decide

theorem ends_comma (rest : List Char) : Ends (',' :: rest) := by
  intro c first
  obtain rfl : ',' = c := by simpa using first
  decide

/-- The characters are read as the value, whatever follows. -/
def Reads (v : JsonValue) (cs : List Char) : Prop :=
  ∀ fuel rest, 2 * cs.length < fuel → Ends rest → value fuel (cs ++ rest) = some (v, rest)

/-- The characters, a closing bracket the last of them, are read as the items of a list. -/
def ReadsItems (vs : List JsonValue) (cs : List Char) : Prop :=
  ∀ fuel rest, 2 * cs.length ≤ fuel → items fuel (cs ++ rest) = some (vs, rest)

/-- The characters, a closing brace the last of them, are read as the entries of an object. -/
def ReadsEntries (es : List (String × JsonValue)) (cs : List Char) : Prop :=
  ∀ fuel rest, 2 * cs.length ≤ fuel →
    entries fuel (cs ++ rest) = some (es.map fun e => (some e.1, e.2), rest)

section Parts

variable {v : JsonValue} {vs : List JsonValue} {es : List (String × JsonValue)}
  {cs ds ws : List Char}

theorem Reads.blank (reads : Reads v cs) (blank : Blank ws) : Reads v (ws ++ cs) := by
  intro fuel rest enough ends
  rw [List.length_append] at enough
  rw [← value_skipWhite, List.append_assoc, skipWhite_append blank, value_skipWhite]
  exact reads fuel rest (by omega) ends

theorem ReadsItems.blank (reads : ReadsItems vs cs) (blank : Blank ws) :
    ReadsItems vs (ws ++ cs) := by
  intro fuel rest enough
  rw [List.length_append] at enough
  rw [← items_skipWhite, List.append_assoc, skipWhite_append blank, items_skipWhite]
  exact reads fuel rest (by omega)

theorem Reads.last (reads : Reads v cs) (blank : Blank ws) :
    ReadsItems [v] (cs ++ ws ++ [']']) := by
  intro fuel rest enough
  simp only [List.length_append, List.length_singleton] at enough
  obtain ⟨fuel, rfl⟩ : ∃ n, fuel = n + 1 := ⟨fuel - 1, by omega⟩
  have first := reads fuel (ws ++ ']' :: rest) (by omega) (ends_of_blank blank (by simp) rest)
  simp only [List.append_assoc, List.singleton_append]
  simp only [items, first, Option.bind_eq_bind, Option.bind_some, skipWhite_append blank]
  rw [skipWhite_cons (by decide)]
  rfl

theorem Reads.more (reads : Reads v cs) (others : ReadsItems vs ds) :
    ReadsItems (v :: vs) (cs ++ ',' :: ds) := by
  intro fuel rest enough
  simp only [List.length_append, List.length_cons] at enough
  obtain ⟨fuel, rfl⟩ : ∃ n, fuel = n + 1 := ⟨fuel - 1, by omega⟩
  have first := reads fuel (',' :: (ds ++ rest)) (by omega)
    (ends_comma _)
  have second := others fuel rest (by omega)
  simp only [List.append_assoc, List.cons_append]
  simp only [items, first, Option.bind_eq_bind, Option.bind_some]
  rw [skipWhite_cons (by decide)]
  simp [second]

/-- No value begins with a closing bracket. -/
theorem value_bracket {fuel : Nat} {rest : List Char} (closing : skipWhite cs = ']' :: rest) :
    value fuel cs = none := by
  cases fuel with
  | zero => rfl
  | succ fuel =>
    rw [value, closing]
    rfl

theorem ReadsItems.array (reads : ReadsItems vs cs) : Reads (.array vs) ('[' :: cs) := by
  intro fuel rest enough ends
  simp only [List.length_cons] at enough
  obtain ⟨fuel, rfl⟩ : ∃ n, fuel = n + 1 := ⟨fuel - 1, by omega⟩
  have found := reads fuel rest (by omega)
  have notClosed : ∀ more, skipWhite (cs ++ rest) ≠ ']' :: more := by
    intro more closing
    cases fuel with
    | zero => cases found
    | succ fuel =>
      rw [items, value_bracket closing] at found
      cases found
  rw [List.cons_append, value, skipWhite_cons (by decide)]
  simp only [items_skipWhite, found]
  rfl

theorem Reads.lastEntry (key : String) (reads : Reads v cs) (blank : Blank ws) :
    ReadsEntries [(key, v)] (spelling (quote key) ++ ':' :: (cs ++ ws ++ ['\x7d'])) := by
  intro fuel rest enough
  simp only [List.length_append, List.length_cons] at enough
  obtain ⟨fuel, rfl⟩ : ∃ n, fuel = n + 1 := ⟨fuel - 1, by omega⟩
  have first := reads fuel (ws ++ '\x7d' :: rest) (by omega)
    (ends_of_blank blank (by simp) rest)
  obtain ⟨body, spelled, read⟩ := stringRest_quote key (':' :: (cs ++ (ws ++ '\x7d' :: rest)))
  simp only [List.append_assoc, List.cons_append, spelled, List.nil_append]
  rw [entries, skipWhite_cons (by decide)]
  simp only [read, Option.bind_eq_bind, Option.bind_some]
  rw [skipWhite_cons (by decide)]
  simp only [first, Option.bind_some, skipWhite_append blank]
  rw [skipWhite_cons (by decide)]
  rfl

theorem Reads.moreEntries (key : String) (reads : Reads v cs) (others : ReadsEntries es ds) :
    ReadsEntries ((key, v) :: es) (spelling (quote key) ++ ':' :: (cs ++ ',' :: ds)) := by
  intro fuel rest enough
  simp only [List.length_append, List.length_cons] at enough
  obtain ⟨fuel, rfl⟩ : ∃ n, fuel = n + 1 := ⟨fuel - 1, by omega⟩
  have first := reads fuel (',' :: (ds ++ rest)) (by omega)
    (ends_comma _)
  have second := others fuel rest (by omega)
  obtain ⟨body, spelled, read⟩ := stringRest_quote key (':' :: (cs ++ ',' :: (ds ++ rest)))
  simp only [List.append_assoc, List.cons_append, spelled]
  rw [entries, skipWhite_cons (by decide)]
  simp only [read, Option.bind_eq_bind, Option.bind_some]
  rw [skipWhite_cons (by decide)]
  simp only [first, Option.bind_some]
  rw [skipWhite_cons (by decide)]
  simp [second]

theorem ReadsEntries.blank (reads : ReadsEntries es cs) (blank : Blank ws) :
    ReadsEntries es (ws ++ cs) := by
  intro fuel rest enough
  rw [List.length_append] at enough
  rw [← entries_skipWhite, List.append_assoc, skipWhite_append blank, entries_skipWhite]
  exact reads fuel rest (by omega)

theorem ofEntries_some (es : List (String × JsonValue)) :
    ofEntries (es.map fun e => (some e.1, e.2)) = .object es := by
  have keyed : ((es.map fun e => ((some e.1 : Option String), e.2)).mapM
      fun e => e.1.map (·, e.2)) = some es := by
    rw [List.mapM_map]
    exact List.mapM_pure.trans (by simp)
  rw [ofEntries, keyed]

theorem ReadsEntries.object (reads : ReadsEntries es cs) : Reads (.object es) ('\x7b' :: cs) := by
  intro fuel rest enough ends
  simp only [List.length_cons] at enough
  obtain ⟨fuel, rfl⟩ : ∃ n, fuel = n + 1 := ⟨fuel - 1, by omega⟩
  have found := reads fuel rest (by omega)
  have notClosed : ∀ more, skipWhite (cs ++ rest) ≠ '\x7d' :: more := by
    intro more closing
    cases fuel with
    | zero => cases found
    | succ fuel =>
      rw [entries, closing] at found
      cases found
  rw [List.cons_append, value, skipWhite_cons (by decide)]
  simp only [entries_skipWhite, found, Option.map_some, ofEntries_some]

theorem reads_noItems : Reads (.array []) ['[', ']'] := by
  intro fuel rest enough ends
  obtain ⟨fuel, rfl⟩ : ∃ n, fuel = n + 1 := ⟨fuel - 1, by omega⟩
  rfl

theorem reads_noEntries : Reads (.object []) ['\x7b', '\x7d'] := by
  intro fuel rest enough ends
  obtain ⟨fuel, rfl⟩ : ∃ n, fuel = n + 1 := ⟨fuel - 1, by omega⟩
  rfl

end Parts

theorem reads_string (text : String) : Reads (.string text) (spelling (quote text)) := by
  intro fuel rest enough ends
  obtain ⟨fuel, rfl⟩ : ∃ n, fuel = n + 1 := ⟨fuel - 1, by omega⟩
  obtain ⟨body, spelled, read⟩ := stringRest_quote text rest
  rw [spelled, List.cons_append, value, skipWhite_cons (by decide)]
  simp only [read]
  rfl

/-- What begins with a digit or a minus is read as a number. -/
theorem value_number {c : Char} (starts : c.isDigit = true ∨ c = '-') (fuel : Nat)
    (cs : List Char) : value (fuel + 1) (c :: cs) = number (c :: cs) := by
  have others : ∀ d ∈ [' ', '\t', '\n', '\r', 'n', 't', 'f', '"', '[', '\x7b'],
      ¬(d.isDigit = true ∨ d = '-') := by simp
  have other : c ∉ [' ', '\t', '\n', '\r', 'n', 't', 'f', '"', '[', '\x7b'] :=
    fun member => others c member starts
  simp only [List.mem_cons, List.not_mem_nil, or_false, not_or] at other
  obtain ⟨blank, tab, line, feed, n, t, f, quote, bracket, brace⟩ := other
  rw [value, skipWhite_cons (by simp [isWhite, blank, tab, line, feed])]
  simp [n, t, f, quote, bracket, brace]

theorem reads_integer (n : Int) : Reads (.integer n) (spelling (toString n)) := by
  intro fuel rest enough ends
  obtain ⟨fuel, rfl⟩ : ∃ n, fuel = n + 1 := ⟨fuel - 1, by omega⟩
  obtain ⟨c, cs, spelled, starts⟩ := head_toString n
  have read := number_toString n ends
  rw [spelled, List.cons_append] at read ⊢
  rw [value_number starts, read]

theorem reads_word {v : JsonValue} {word : List Char}
    (read : ∀ fuel rest, value (fuel + 1) (word ++ rest) = some (v, rest)) : Reads v word := by
  intro fuel rest enough ends
  obtain ⟨fuel, rfl⟩ : ∃ n, fuel = n + 1 := ⟨fuel - 1, by omega⟩
  exact read fuel rest

section Printed

variable (before gap after : String)

theorem spelling_marks : spelling "," = [','] ∧ spelling ":" = [':'] ∧ spelling "[" = ['['] ∧
    spelling "]" = [']'] ∧ spelling "\x7b" = ['\x7b'] ∧ spelling "\x7d" = ['\x7d'] := by
  decide +kernel

/-- Printed items between brackets, with blanks before, between and after them. -/
theorem reads_bracketed {vs : List JsonValue} {parts : List String}
    (each : List.Forall₂ (fun v part => Reads v (spelling part)) vs parts) (some : vs ≠ [])
    (blankBefore : Blank (spelling before)) (blankGap : Blank (spelling gap))
    (blankAfter : Blank (spelling after)) :
    Reads (.array vs)
      (spelling ("[" ++ before ++ ("," ++ gap).intercalate parts ++ after ++ "]")) := by
  have inside : ReadsItems vs
      (spelling (("," ++ gap).intercalate parts) ++ spelling after ++ [']']) := by
    -- the last item stands before the bracket, every other one before a comma
    induction each with
    | nil => exact absurd rfl some
    | cons first rest ih =>
      cases rest with
      | nil =>
        rw [String.intercalate_singleton]
        exact first.last blankAfter
      | cons second rest =>
        have := first.more ((ih (by simp)).blank blankGap)
        rw [String.intercalate_cons_cons]
        simpa only [spelling_append, spelling_marks, List.append_assoc, List.cons_append,
          List.nil_append] using this
  have := (inside.blank blankBefore).array
  simpa only [spelling_append, spelling_marks, List.append_assoc, List.cons_append,
    List.nil_append] using this

/-- What is printed for an entry of an object. -/
def ReadsEntry (e : String × JsonValue) (part : String) : Prop :=
  ∃ lead text, part = lead ++ quote e.1 ++ ":" ++ text ∧ Blank (spelling lead) ∧
    Reads e.2 (spelling text)

/-- Printed entries between braces, with blanks before, between and after them. -/
theorem reads_braced {es : List (String × JsonValue)} {parts : List String}
    (each : List.Forall₂ ReadsEntry es parts) (some : es ≠ [])
    (blankBefore : Blank (spelling before)) (blankGap : Blank (spelling gap))
    (blankAfter : Blank (spelling after)) :
    Reads (.object es)
      (spelling ("\x7b" ++ before ++ ("," ++ gap).intercalate parts ++ after ++ "\x7d")) := by
  have inside : ReadsEntries es
      (spelling (("," ++ gap).intercalate parts) ++ spelling after ++ ['\x7d']) := by
    induction each with
    | nil => exact absurd rfl some
    | @cons e _ _ _ first rest ih =>
      obtain ⟨lead, text, rfl, blankLead, reads⟩ := first
      cases rest with
      | nil =>
        have := (reads.lastEntry e.1 blankAfter).blank blankLead
        rw [String.intercalate_singleton]
        simpa only [spelling_append, spelling_marks, List.append_assoc, List.cons_append,
          List.nil_append] using this
      | cons second rest =>
        have := (reads.moreEntries e.1 ((ih (by simp)).blank blankGap)).blank blankLead
        rw [String.intercalate_cons_cons]
        simpa only [spelling_append, spelling_marks, List.append_assoc, List.cons_append,
          List.nil_append] using this
  have := (inside.blank blankBefore).object
  simpa only [spelling_append, spelling_marks, List.append_assoc, List.cons_append,
    List.nil_append] using this

end Printed

theorem blank_empty : Blank (spelling "") := by
  decide +kernel

mutual

theorem reads_compact (v : JsonValue) (plain : v.Plain) : Reads v (spelling v.compact) :=
  match v with
  | .null => reads_word fun _ _ => rfl
  | .bool true => reads_word fun _ _ => rfl
  | .bool false => reads_word fun _ _ => rfl
  | .integer n => reads_integer n
  | .string text => reads_string text
  | .array [] => reads_noItems
  | .array (first :: rest) => by
    have each := reads_compactItems (first :: rest) plain
    have reads := reads_bracketed "" "" "" each (by simp) blank_empty blank_empty blank_empty
    simpa only [compact, String.append_empty] using reads
  | .object [] => reads_noEntries
  | .object (first :: rest) => by
    have each := reads_compactEntries (first :: rest) plain
    have reads := reads_braced "" "" "" each (by simp) blank_empty blank_empty blank_empty
    simpa only [compact, String.append_empty] using reads

theorem reads_compactItems (items : List JsonValue) (plain : PlainItems items) :
    List.Forall₂ (fun v part => Reads v (spelling part)) items (compactItems items) :=
  match items with
  | [] => .nil
  | v :: rest => .cons (reads_compact v plain.1) (reads_compactItems rest plain.2)

theorem reads_compactEntries (entries : List (String × JsonValue))
    (plain : PlainEntries entries) : List.Forall₂ ReadsEntry entries (compactEntries entries) :=
  match entries with
  | [] => .nil
  | (key, v) :: rest =>
    .cons ⟨"", v.compact, by rw [String.empty_append], blank_empty, reads_compact v plain.1⟩
      (reads_compactEntries rest plain.2)

end

theorem blank_newline : Blank (spelling "\n") := by
  decide +kernel

theorem comma_newline : "," ++ "\n" = ",\n" := by
  decide

theorem Blank.append {before after : List Char} (first : Blank before) (second : Blank after) :
    Blank (before ++ after) := by
  intro c member
  rcases List.mem_append.1 member with member | member
  · exact first c member
  · exact second c member

theorem blank_indentation (level : Nat) : Blank (spelling (indentation level)) := by
  have step (text : String) : spelling (text.push ' ') = spelling text ++ [' '] := by
    rw [String.push_eq_append, spelling_append]
    rfl
  have all (n : Nat) : Blank (spelling ("".pushn ' ' n)) := by
    induction n with
    | zero => exact blank_empty
    | succ n ih =>
      rw [String.pushn, Nat.repeat, step]
      exact ih.append (by simp [Blank, isWhite])
  exact all (2 * level)

theorem blank_newline_indentation (level : Nat) :
    Blank (spelling ("\n" ++ indentation level)) := by
  rw [spelling_append]
  exact blank_newline.append (blank_indentation level)

mutual

theorem reads_pretty (level : Nat) (v : JsonValue) (plain : v.Plain) :
    Reads v (spelling (v.pretty level)) :=
  match v with
  | .null => reads_word fun _ _ => rfl
  | .bool true => reads_word fun _ _ => rfl
  | .bool false => reads_word fun _ _ => rfl
  | .integer n => reads_integer n
  | .string text => reads_string text
  | .array [] => reads_noItems
  | .array (first :: rest) => by
    have each := reads_prettyItems (level + 1) (first :: rest) plain
    have reads := reads_bracketed "\n" "\n" ("\n" ++ indentation level) each (by simp) blank_newline
      blank_newline (blank_newline_indentation level)
    simpa [pretty, block, prettyItems, String.append_assoc, comma_newline] using reads
  | .object [] => reads_noEntries
  | .object (first :: rest) => by
    have each := reads_prettyEntries (level + 1) (first :: rest) plain
    have reads := reads_braced "\n" "\n" ("\n" ++ indentation level) each (by simp) blank_newline
      blank_newline (blank_newline_indentation level)
    simpa [pretty, block, prettyEntries, String.append_assoc, comma_newline] using reads

theorem reads_prettyItems (level : Nat) (items : List JsonValue) (plain : PlainItems items) :
    List.Forall₂ (fun v part => Reads v (spelling part)) items
      ((prettyItems level items).map fun p => indentation level ++ p) :=
  match items with
  | [] => .nil
  | v :: rest => .cons
      (by
        rw [spelling_append]
        exact (reads_pretty level v plain.1).blank (blank_indentation level))
      (reads_prettyItems level rest plain.2)

theorem reads_prettyEntries (level : Nat) (entries : List (String × JsonValue))
    (plain : PlainEntries entries) :
    List.Forall₂ ReadsEntry entries
      ((prettyEntries level entries).map fun p => indentation level ++ p) :=
  match entries with
  | [] => .nil
  | (key, v) :: rest => .cons
      ⟨indentation level, " " ++ v.pretty level,
        by simp only [String.append_assoc]; rfl, blank_indentation level,
        by
          rw [spelling_append]
          exact (reads_pretty level v plain.1).blank (by decide +kernel)⟩
      (reads_prettyEntries level rest plain.2)

end

theorem ofBytes?_of_reads {v : JsonValue} {text : String} (reads : Reads v (spelling text)) :
    ofBytes? (Bytes.ofText text) = some v := by
  have read := reads (2 * (spelling text).length + 2) [] (by omega) (by simp [Ends])
  rw [List.append_nil] at read
  have spelt : (Bytes.ofText text).map (fun b => Char.ofNat b.toNat) = spelling text := rfl
  simp only [ofBytes?, spelt, read, Option.bind_eq_bind, Option.bind_some]
  rfl

theorem ofBytes?_compact {v : JsonValue} (plain : v.Plain) :
    ofBytes? (Bytes.ofText v.compact) = some v :=
  ofBytes?_of_reads (reads_compact v plain)

theorem ofBytes?_pretty {v : JsonValue} (plain : v.Plain) :
    ofBytes? (Bytes.ofText (v.pretty 0)) = some v :=
  ofBytes?_of_reads (reads_pretty 0 v plain)

end CopyPatch.JsonValue
