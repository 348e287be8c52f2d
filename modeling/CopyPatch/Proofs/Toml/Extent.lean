import CopyPatch.Manifest.Written
import CopyPatch.Proofs.Outcome
import Mathlib.Data.List.TakeDrop
import Mathlib.Data.List.TakeWhile

/-! No list of strings in a document is longer than its text. A reader gives back at most the
characters it was given, and an array takes at least one for every item. So no axis of a manifest
names more values than the text has characters. -/
namespace CopyPatch.Toml

section Readers

attribute [local grind! .] List.length_dropWhile_le

attribute [local grind =] Option.bind_eq_some_iff Option.bind_eq_bind Option.map_eq_some_iff
  List.span_eq_takeWhile_dropWhile

@[local grind! .] theorem length_skipSpace (cs : List Char) : (skipSpace cs).length ≤ cs.length :=
  List.length_dropWhile_le _ _

@[local grind! .] theorem length_skipWhite (cs : List Char) : (skipWhite cs).length ≤ cs.length :=
  List.length_dropWhile_le _ _

@[local grind! .] theorem length_skipComment (cs : List Char) :
    (skipComment cs).length ≤ cs.length := by
  unfold skipComment
  split <;> grind

@[local grind! .] theorem length_skipFiller (fuel : Nat) (cs : List Char) :
    (skipFiller fuel cs).length ≤ cs.length := by
  fun_induction skipFiller fuel cs <;> grind

@[local grind! .] theorem length_dropFirstLineEnd (cs : List Char) :
    (dropFirstLineEnd cs).length ≤ cs.length := by
  unfold dropFirstLineEnd
  split <;> grind

@[local grind! .] theorem length_sign (cs : List Char) : (sign cs).2.length ≤ cs.length := by
  unfold sign
  split <;> grind

@[local grind →] theorem length_endLine {cs rest : List Char} (read : endLine cs = some rest) :
    rest.length ≤ cs.length := by
  unfold endLine at read
  split at read <;> grind

@[local grind →] theorem length_mark {c : Char} {cs rest : List Char}
    (read : mark c cs = some rest) : rest.length ≤ cs.length := by
  unfold mark at read
  split at read <;> grind

@[local grind →] theorem length_hexRun {n acc a : Nat} {cs rest : List Char}
    (read : hexRun n acc cs = some (a, rest)) : rest.length ≤ cs.length := by
  fun_induction hexRun n acc cs <;> grind

@[local grind →] theorem length_escape {c : Char} {cs rest : List Char}
    (read : escape cs = some (c, rest)) : rest.length ≤ cs.length := by
  unfold escape at read
  split at read <;> grind

@[local grind →] theorem length_basicBody {fuel : Nat} {cs chars rest : List Char}
    (read : basicBody fuel cs = some (chars, rest)) : rest.length ≤ cs.length := by
  fun_induction basicBody fuel cs generalizing chars rest <;> grind

@[local grind →] theorem length_literalBody {cs chars rest : List Char}
    (read : literalBody cs = some (chars, rest)) : rest.length ≤ cs.length := by
  fun_induction literalBody cs generalizing chars rest <;> grind

@[local grind →] theorem length_longBasicBody {fuel : Nat} {cs chars rest : List Char}
    (read : longBasicBody fuel cs = some (chars, rest)) : rest.length ≤ cs.length := by
  fun_induction longBasicBody fuel cs generalizing chars rest <;> grind

@[local grind →] theorem length_longLiteralBody {fuel : Nat} {cs chars rest : List Char}
    (read : longLiteralBody fuel cs = some (chars, rest)) : rest.length ≤ cs.length := by
  fun_induction longLiteralBody fuel cs generalizing chars rest <;> grind

@[local grind →] theorem text_eq_some {body : Reader (List Char)} {s : String}
    {cs rest : List Char} (read : text body cs = some (s, rest)) :
    ∃ chars, body cs = some (chars, rest) := by
  unfold text at read
  grind

@[local grind →] theorem length_shortString {s : String} {cs rest : List Char}
    (read : shortString cs = some (s, rest)) : rest.length ≤ cs.length := by
  unfold shortString at read
  split at read <;> grind

@[local grind →] theorem length_string {s : String} {cs rest : List Char}
    (read : string cs = some (s, rest)) : rest.length ≤ cs.length := by
  unfold string at read
  split at read <;> grind

@[local grind →] theorem length_simpleKey {s : String} {cs rest : List Char}
    (read : simpleKey cs = some (s, rest)) : rest.length ≤ cs.length := by
  unfold simpleKey at read
  split at read <;> grind

@[local grind →] theorem length_dottedKey {fuel : Nat} {keys : List String} {cs rest : List Char}
    (read : dottedKey fuel cs = some (keys, rest)) : rest.length ≤ cs.length := by
  fun_induction dottedKey fuel cs generalizing keys rest <;> grind

@[local grind →] theorem length_digitTail {isDigit : Char → Bool} {required : Bool}
    {cs digits rest : List Char} (read : digitTail isDigit required cs = some (digits, rest)) :
    rest.length ≤ cs.length := by
  fun_induction digitTail isDigit required cs generalizing digits rest <;> grind

@[local grind →] theorem length_wholeDigits {cs digits rest : List Char}
    (read : wholeDigits cs = some (digits, rest)) : rest.length ≤ cs.length := by
  unfold wholeDigits digitRun at read
  split at read <;> grind

@[local grind →] theorem length_fraction {cs rest : List Char} {places : Option (List Char)}
    (read : fraction cs = some (places, rest)) : rest.length ≤ cs.length := by
  unfold fraction digitRun at read
  split at read <;> grind

@[local grind →] theorem length_exponent {cs rest : List Char} {power : Option Int}
    (read : exponent cs = some (power, rest)) : rest.length ≤ cs.length := by
  unfold exponent digitRun at read
  split at read <;> grind

@[local grind →] theorem length_fixedDigits {n a : Nat} {cs rest : List Char}
    (read : fixedDigits n cs = some (a, rest)) : rest.length ≤ cs.length := by
  unfold fixedDigits at read
  grind

theorem length_field {c : Char} {n : Nat} {cs after : List Char} {found : Nat × List Char}
    (marked : mark c cs = some after) (digits : fixedDigits n after = some found) :
    found.2.length ≤ cs.length :=
  Nat.le_trans (length_fixedDigits digits) (length_mark marked)

theorem length_date {cs rest : List Char} (read : date cs = some rest) :
    rest.length ≤ cs.length := by
  simp only [date, Option.bind_eq_bind, Option.bind_eq_some_iff] at read
  obtain ⟨_, year, _, first, _, month, _, second, _, day, read⟩ := read
  have afterYear := length_fixedDigits year
  have afterMonth := length_field first month
  have afterDay := length_field second day
  split at read
  · cases read; omega
  · cases read

theorem length_time {cs rest : List Char} (read : time cs = some rest) :
    rest.length ≤ cs.length := by
  simp only [time, Option.bind_eq_bind, Option.bind_eq_some_iff] at read
  obtain ⟨_, hour, _, first, _, minute, _, second, ⟨_, left⟩, seconds, read⟩ := read
  have afterHour := length_fixedDigits hour
  have afterMinute := length_field first minute
  have afterSecond := length_field second seconds
  have onward : rest.length ≤ left.length := by
    dsimp only at read
    split at read
    · cases read
    · split at read
      · split at read
        · cases read
        · grind
      · cases read; exact Nat.le_refl _
  grind

theorem length_zone {cs rest : List Char} (read : zone cs = some rest) :
    rest.length ≤ cs.length := by
  unfold zone at read
  split at read
  · cases read; exact Nat.le_succ _
  · cases read; exact Nat.le_succ _
  · simp only [Option.bind_eq_bind, Option.bind_eq_some_iff] at read
    obtain ⟨_, hour, _, colon, _, minute, read⟩ := read
    have afterHour := length_fixedDigits hour
    have afterMinute := length_field colon minute
    grind
  · simp only [Option.bind_eq_bind, Option.bind_eq_some_iff] at read
    obtain ⟨_, hour, _, colon, _, minute, read⟩ := read
    have afterHour := length_fixedDigits hour
    have afterMinute := length_field colon minute
    grind
  · cases read; exact Nat.le_refl _

theorem length_timeOfDay {cs rest : List Char} (read : timeOfDay cs = some rest) :
    rest.length ≤ cs.length := by
  obtain ⟨_, clock, place⟩ := Option.bind_eq_some_iff.mp read
  exact Nat.le_trans (length_zone place) (length_time clock)

/-- A value without parts, and no more text left than before it. -/
def Plain (v : Value) (rest cs : List Char) : Prop :=
  v.array? = none ∧ v.table? = none ∧ rest.length ≤ cs.length

theorem dateTime_plain {v : Value} {cs rest : List Char}
    (read : dateTime cs = some (v, rest)) : Plain v rest cs := by
  unfold dateTime at read
  split at read
  · obtain ⟨_, clock, made⟩ := Option.map_eq_some_iff.mp read
    cases made
    exact ⟨rfl, rfl, length_time clock⟩
  · rename_i left day
    have shorter := length_date day
    have after {more : List Char} (less : more.length ≤ cs.length) :
        ((timeOfDay more).getD left).length ≤ cs.length := by
      cases clock : timeOfDay more with
      | none => exact shorter
      | some rest => exact Nat.le_trans (length_timeOfDay clock) less
    split at read
    all_goals
      cases read
      exact ⟨rfl, rfl, by grind⟩

theorem radixInteger_plain {radix : Nat} {v : Value} {cs rest : List Char}
    (read : radixInteger radix cs = some (v, rest)) : Plain v rest cs := by
  simp only [radixInteger, Option.bind_eq_bind, Option.bind_eq_some_iff] at read
  obtain ⟨_, digits, _, _, _, _, made⟩ := read
  cases made
  exact ⟨rfl, rfl, length_digitTail digits⟩

theorem namedFloat_plain {v : Value} {cs rest : List Char}
    (read : namedFloat cs = some (v, rest)) : Plain v rest cs := by
  have shorter := length_sign cs
  unfold namedFloat at read
  split at read
  · cases read; exact ⟨rfl, rfl, by grind⟩
  · cases read; exact ⟨rfl, rfl, by grind⟩
  · cases read

theorem decimal_plain {v : Value} {cs rest : List Char}
    (read : decimal cs = some (v, rest)) : Plain v rest cs := by
  simp only [decimal, Option.bind_eq_bind, Option.bind_eq_some_iff] at read
  obtain ⟨_, whole, _, frac, _, exp, read⟩ := read
  have afterSign := length_sign cs
  have afterWhole := length_wholeDigits whole
  have afterFraction := length_fraction frac
  have afterExponent := length_exponent exp
  split at read
  · obtain ⟨_, _, made⟩ := Option.bind_eq_some_iff.mp read
    cases made
    exact ⟨rfl, rfl, by omega⟩
  · split at read
    · cases read; exact ⟨rfl, rfl, by omega⟩
    · cases read

theorem numeric_plain {v : Value} {cs rest : List Char}
    (read : numeric cs = some (v, rest)) : Plain v rest cs := by
  have longer {after : List Char} (found : Plain v rest after) (less : after.length ≤ cs.length) :
      Plain v rest cs := ⟨found.1, found.2.1, Nat.le_trans found.2.2 less⟩
  unfold numeric at read
  split at read
  · rename_i day; cases read; exact dateTime_plain day
  · split at read
    · exact longer (radixInteger_plain read) (by grind)
    · exact longer (radixInteger_plain read) (by grind)
    · exact longer (radixInteger_plain read) (by grind)
    · split at read
      · rename_i named; cases read; exact namedFloat_plain named
      · exact decimal_plain read

end Readers

/-- Every list of strings in a value has at most `limit` of them. -/
inductive Value.Within (limit : Nat) : Value → Prop where
  | scalar {v : Value} (noArray : v.array? = none) (noTable : v.table? = none) : v.Within limit
  | array {items : List Value}
      (short : ∀ names, items.mapM Value.string? = some names → names.length ≤ limit)
      (each : ∀ item ∈ items, item.Within limit) : (Value.array items).Within limit
  | table {entries : List (String × Value)} (each : ∀ e ∈ entries, e.2.Within limit) :
      (Value.table entries).Within limit

theorem entryValues_eq (entries : List (String × Node)) :
    entryValues entries = entries.map fun e => (e.1, e.2.toValue) := by
  induction entries with
  | nil => rfl
  | cons e rest ih => rw [entryValues, ih, List.map_cons]

theorem elementValues_eq (elements : List (List (String × Node))) :
    elementValues elements = elements.map fun entries => .table (entryValues entries) := by
  induction elements with
  | nil => rfl
  | cons entries rest ih => rw [elementValues, ih, List.map_cons]

/-- The same of the entries of a table under construction. -/
def EntriesWithin (limit : Nat) (entries : List (String × Node)) : Prop :=
  ∀ e ∈ entries, e.2.toValue.Within limit

section Tables

variable {limit : Nat} {entries : List (String × Node)} {t u : Table}

theorem table_within_iff :
    (Value.table (entryValues entries)).Within limit ↔ EntriesWithin limit entries := by
  rw [entryValues_eq]
  constructor
  · intro within
    cases within with
    | scalar _ noTable => cases noTable
    | table each => simpa only [EntriesWithin, List.forall_mem_map] using each
  · intro within
    exact .table (by simpa only [EntriesWithin, List.forall_mem_map] using within)

theorem tables_within_iff {elements : List (List (String × Node))} :
    (Node.tables elements).toValue.Within limit ↔
      ∀ entries ∈ elements, EntriesWithin limit entries := by
  simp only [Node.toValue, elementValues_eq, ← table_within_iff]
  constructor
  · intro within
    cases within with
    | scalar noArray _ => cases noArray
    | array _ each => exact List.forall_mem_map.mp each
  · intro within
    refine .array ?_ (List.forall_mem_map.mpr within)
    -- A list of tables is no list of strings, unless it is empty.
    intro names given
    cases elements with
    | nil => cases given; exact Nat.zero_le _
    | cons first rest => cases given

theorem entriesWithin_nil : EntriesWithin limit [] := List.forall_mem_nil _

theorem lookup_within (within : EntriesWithin limit entries) {key : String} {node : Node}
    (found : entries.lookup key = some node) : node.toValue.Within limit :=
  within (key, node) (mem_of_lookup found)

theorem put_within (within : EntriesWithin limit t.entries) {key : String} {node : Node}
    (new : node.toValue.Within limit) : EntriesWithin limit (t.put key node).entries := by
  unfold Table.put
  split
  · refine List.forall_mem_map.mpr fun e member => ?_
    split
    · exact new
    · exact within e member
  · exact List.forall_mem_append.mpr ⟨within, List.forall_mem_singleton.mpr new⟩

/-- A change at the end of a path keeps the bound of the whole table if it keeps it there. -/
theorem descend_within {dotted : Bool} {change : Table → Option Table}
    (keeps : ∀ t u, EntriesWithin limit t.entries → change t = some u →
      EntriesWithin limit u.entries) {path : List String}
    (within : EntriesWithin limit t.entries) (changed : t.descend dotted change path = some u) :
    EntriesWithin limit u.entries := by
  induction path generalizing t u with
  | nil => exact keeps t u within changed
  | cons key rest ih =>
    unfold Table.descend at changed
    split at changed
    · obtain ⟨child, below, made⟩ := Option.bind_eq_some_iff.mp changed
      cases made
      exact put_within within (table_within_iff.mpr (ih entriesWithin_nil below))
    · cases changed
    · rename_i found
      split at changed
      · cases changed
      · obtain ⟨child, below, made⟩ := Option.bind_eq_some_iff.mp changed
        cases made
        have inside := table_within_iff.mp (lookup_within within found)
        exact put_within within (table_within_iff.mpr (ih inside below))
    · rename_i elements found
      simp only [Option.bind_eq_bind, Option.bind_eq_some_iff] at changed
      obtain ⟨last, open_, child, below, made⟩ := changed
      cases made
      have inside := tables_within_iff.mp (lookup_within within found)
      refine put_within within (tables_within_iff.mpr ?_)
      refine List.forall_mem_append.mpr
        ⟨fun entries member => inside entries (List.dropLast_subset _ member), ?_⟩
      exact List.forall_mem_singleton.mpr (ih (inside last (List.mem_of_getLast? open_)) below)

theorem insert_within {keys : List String} {v : Value} (small : v.Within limit)
    (within : EntriesWithin limit t.entries) (inserted : t.insert keys v = some u) :
    EntriesWithin limit u.entries := by
  obtain ⟨key, _, inserted⟩ := Option.bind_eq_some_iff.mp inserted
  refine descend_within ?_ within inserted
  intro target changed inside made
  split at made
  · cases made
  · cases made
    exact put_within inside small

theorem openTable_within {keys : List String} (within : EntriesWithin limit t.entries)
    (opened : t.openTable keys = some u) : EntriesWithin limit u.entries := by
  obtain ⟨key, _, opened⟩ := Option.bind_eq_some_iff.mp opened
  refine descend_within ?_ within opened
  intro parent changed inside made
  split at made
  · cases made
    exact put_within inside (table_within_iff.mpr entriesWithin_nil)
  · rename_i found
    cases made
    have old := table_within_iff.mp (lookup_within inside found)
    exact put_within inside (table_within_iff.mpr old)
  · cases made

theorem openElement_within {keys : List String} (within : EntriesWithin limit t.entries)
    (opened : t.openElement keys = some u) : EntriesWithin limit u.entries := by
  obtain ⟨key, _, opened⟩ := Option.bind_eq_some_iff.mp opened
  refine descend_within ?_ within opened
  have new : ∀ entries ∈ [([] : List (String × Node))], EntriesWithin limit entries :=
    List.forall_mem_singleton.mpr entriesWithin_nil
  intro parent changed inside made
  split at made
  · cases made
    exact put_within inside (tables_within_iff.mpr new)
  · rename_i found
    cases made
    have old := tables_within_iff.mp (lookup_within inside found)
    exact put_within inside (tables_within_iff.mpr (List.forall_mem_append.mpr ⟨old, new⟩))
  · cases made

end Tables

section Values

variable {limit : Nat} {item : Reader Value}

/-- A reader of values that keeps to the bound, on texts that keep to it. -/
def Keeps (limit : Nat) (item : Reader Value) : Prop :=
  ∀ cs v rest, cs.length ≤ limit → item cs = some (v, rest) →
    v.Within limit ∧ rest.length ≤ cs.length

theorem keeps_of_plain (plain : ∀ cs v rest, item cs = some (v, rest) → Plain v rest cs) :
    Keeps limit item := by
  intro cs v rest _ read
  obtain ⟨noArray, noTable, shorter⟩ := plain cs v rest read
  exact ⟨.scalar noArray noTable, shorter⟩

theorem arrayItems_keeps (keeps : Keeps limit item) {fuel : Nat} {cs rest : List Char}
    {items : List Value} (small : cs.length ≤ limit)
    (read : arrayItems item fuel cs = some (items, rest)) :
    items.length ≤ fuel ∧ (∀ v ∈ items, v.Within limit) ∧ rest.length ≤ cs.length := by
  induction fuel generalizing cs rest items with
  | zero => cases read
  | succ fuel ih =>
    have ahead := length_skipFiller cs.length cs
    unfold arrayItems at read
    split at read
    · rename_i closed
      cases read
      rw [closed, List.length_cons] at ahead
      exact ⟨Nat.zero_le _, List.forall_mem_nil _, by omega⟩
    · obtain ⟨⟨v, left⟩, first, read⟩ := Option.bind_eq_some_iff.mp read
      obtain ⟨fits, shorter⟩ := keeps _ _ _ (Nat.le_trans ahead small) first
      have beyond := length_skipFiller left.length left
      dsimp only at read
      split at read
      · rename_i closed
        cases read
        rw [closed, List.length_cons] at beyond
        exact ⟨by simp, List.forall_mem_singleton.mpr fits, by omega⟩
      · rename_i more
        obtain ⟨⟨others, after⟩, onward, made⟩ := Option.bind_eq_some_iff.mp read
        cases made
        rw [more, List.length_cons] at beyond
        obtain ⟨count, each, less⟩ := ih (by omega) onward
        exact ⟨Nat.succ_le_succ count, List.forall_mem_cons.mpr ⟨fits, each⟩,
          Nat.le_trans less (by omega)⟩
      · cases read

theorem pair_keeps (keeps : Keeps limit item) {cs rest : List Char} {keys : List String}
    {v : Value} (small : cs.length ≤ limit) (read : pair item cs = some ((keys, v), rest)) :
    v.Within limit ∧ rest.length ≤ cs.length := by
  simp only [pair, Option.bind_eq_bind, Option.bind_eq_some_iff] at read
  obtain ⟨⟨_, afterKey⟩, name, afterMark, equals, ⟨_, _⟩, given, made⟩ := read
  cases made
  have shorter := Nat.le_trans (length_mark equals) (length_dottedKey name)
  have blank := length_skipSpace afterMark
  obtain ⟨fits, less⟩ := keeps _ _ _ (by omega) given
  exact ⟨fits, Nat.le_trans less (by omega)⟩

theorem inlinePairs_keeps (keeps : Keeps limit item) {fuel : Nat} {cs rest : List Char}
    {pairs : List (List String × Value)} (small : cs.length ≤ limit)
    (read : inlinePairs item fuel cs = some (pairs, rest)) :
    (∀ p ∈ pairs, p.2.Within limit) ∧ rest.length ≤ cs.length := by
  induction fuel generalizing cs rest pairs with
  | zero => cases read
  | succ fuel ih =>
    obtain ⟨⟨⟨keys, v⟩, left⟩, first, read⟩ := Option.bind_eq_some_iff.mp read
    obtain ⟨fits, shorter⟩ := pair_keeps keeps small first
    have beyond := length_skipSpace left
    dsimp only at read
    split at read
    · rename_i closed
      cases read
      rw [closed, List.length_cons] at beyond
      exact ⟨List.forall_mem_singleton.mpr fits, by omega⟩
    · rename_i more
      obtain ⟨⟨others, after⟩, onward, made⟩ := Option.bind_eq_some_iff.mp read
      cases made
      rw [more, List.length_cons] at beyond
      obtain ⟨each, less⟩ := ih (by omega) onward
      exact ⟨List.forall_mem_cons.mpr ⟨fits, each⟩, Nat.le_trans less (by omega)⟩
    · cases read

theorem foldlM_insert_within {pairs : List (List String × Value)}
    (small : ∀ p ∈ pairs, p.2.Within limit) {t u : Table}
    (within : EntriesWithin limit t.entries)
    (filled : pairs.foldlM (fun table p => table.insert p.1 p.2) t = some u) :
    EntriesWithin limit u.entries := by
  induction pairs generalizing t with
  | nil => cases filled; exact within
  | cons p rest ih =>
    obtain ⟨first, others⟩ := List.forall_mem_cons.mp small
    rw [List.foldlM_cons] at filled
    obtain ⟨next, inserted, filled⟩ := Option.bind_eq_some_iff.mp filled
    exact ih others (insert_within first within inserted) filled

theorem inlineTable_keeps (keeps : Keeps limit item) : Keeps limit (inlineTable item) := by
  intro cs v rest small read
  have ahead := length_skipSpace cs
  unfold inlineTable at read
  split at read
  · rename_i closed
    cases read
    rw [closed, List.length_cons] at ahead
    exact ⟨.table (List.forall_mem_nil _), by omega⟩
  · obtain ⟨⟨pairs, left⟩, listed, read⟩ := Option.bind_eq_some_iff.mp read
    obtain ⟨table, filled, made⟩ := Option.bind_eq_some_iff.mp read
    cases made
    obtain ⟨each, shorter⟩ := inlinePairs_keeps keeps (Nat.le_trans ahead small) listed
    have within := foldlM_insert_within each entriesWithin_nil filled
    exact ⟨table_within_iff.mpr within, Nat.le_trans shorter ahead⟩

theorem value_keeps (depth : Nat) : Keeps limit (value depth) := by
  induction depth with
  | zero => intro cs v rest _ read; cases read
  | succ depth ih =>
    intro cs v rest small read
    unfold value at read
    split at read
    · rename_i after
      rw [List.length_cons] at small ⊢
      split at read
      · cases read
      · obtain ⟨⟨items, left⟩, listed, made⟩ := Option.map_eq_some_iff.mp read
        cases made
        obtain ⟨count, each, shorter⟩ := arrayItems_keeps ih (by omega) listed
        refine ⟨.array ?_ each, by omega⟩
        intro names strings
        have same := (Outcome.mapM_eq_some.mp strings).length_eq
        omega
    · rename_i after
      rw [List.length_cons] at small ⊢
      split at read
      · cases read
      · obtain ⟨fits, shorter⟩ := inlineTable_keeps ih _ _ _ (by omega) read
        exact ⟨fits, by omega⟩
    · cases read; exact ⟨.scalar rfl rfl, by grind⟩
    · cases read; exact ⟨.scalar rfl rfl, by grind⟩
    · split at read
      · rename_i quoted
        cases read
        exact ⟨.scalar rfl rfl, length_string quoted⟩
      · exact keeps_of_plain (fun _ _ _ => numeric_plain) _ _ _ small read

end Values

theorem line_within {limit : Nat} {draft next : Draft} {cs rest : List Char}
    (within : EntriesWithin limit draft.root.entries) (small : cs.length ≤ limit)
    (read : line draft cs = some (next, rest)) :
    EntriesWithin limit next.root.entries ∧ rest.length ≤ cs.length := by
  have ahead := length_skipSpace cs
  unfold line at read
  split at read
  · rename_i after header
    simp only [Option.bind_eq_bind, Option.bind_eq_some_iff] at read
    obtain ⟨_, name, _, first, _, second, root, opened, _, ended, made⟩ := read
    cases made
    have afterName := length_dottedKey name
    have afterFirst := length_mark first
    have afterSecond := length_mark second
    have afterLine := length_endLine ended
    rw [header, List.length_cons, List.length_cons] at ahead
    exact ⟨openElement_within within opened, by grind⟩
  · rename_i after _ header
    simp only [Option.bind_eq_bind, Option.bind_eq_some_iff] at read
    obtain ⟨_, name, _, closed, root, opened, _, ended, made⟩ := read
    cases made
    have afterName := length_dottedKey name
    have afterMark := length_mark closed
    have afterLine := length_endLine ended
    rw [header, List.length_cons] at ahead
    exact ⟨openTable_within within opened, by grind⟩
  · split at read
    · rename_i ended
      cases read
      exact ⟨within, Nat.le_trans (length_endLine ended) ahead⟩
    · simp only [Option.bind_eq_bind, Option.bind_eq_some_iff] at read
      obtain ⟨⟨⟨keys, v⟩, _⟩, entry, root, changed, _, ended, made⟩ := read
      cases made
      obtain ⟨fits, shorter⟩ := pair_keeps (value_keeps _) (Nat.le_trans ahead small) entry
      have afterLine := length_endLine ended
      exact ⟨descend_within (fun _ _ => insert_within fits) within changed, by grind⟩

theorem lines_within {limit fuel : Nat} {draft done : Draft} {cs : List Char}
    (within : EntriesWithin limit draft.root.entries) (small : cs.length ≤ limit)
    (read : lines fuel draft cs = some done) : EntriesWithin limit done.root.entries := by
  induction fuel generalizing draft cs with
  | zero =>
    cases cs with
    | nil => cases read; exact within
    | cons c rest => cases read
  | succ fuel ih =>
    cases cs with
    | nil => cases read; exact within
    | cons c rest =>
      obtain ⟨⟨next, left⟩, first, read⟩ := Option.bind_eq_some_iff.mp read
      obtain ⟨kept, shorter⟩ := line_within within small first
      exact ih kept (Nat.le_trans shorter small) read

theorem length_unifyLineEnds (cs : List Char) : (unifyLineEnds cs).length ≤ cs.length := by
  fun_induction unifyLineEnds cs <;> grind

theorem length_dropMark (cs : List Char) : (dropMark cs).length ≤ cs.length := by
  unfold dropMark
  split <;> grind

/-- No list of strings in a document has more members than the text has characters. -/
theorem read_within {text : String} {entries : List (String × Value)}
    (parsed : read text = some entries) : (Value.table entries).Within text.length := by
  obtain ⟨done, built, made⟩ := Option.bind_eq_some_iff.mp parsed
  cases made
  have small := Nat.le_trans (length_unifyLineEnds _) (length_dropMark text.toList)
  rw [String.length_toList] at small
  exact table_within_iff.mpr (lines_within entriesWithin_nil small built)

end CopyPatch.Toml

namespace CopyPatch.Manifest.Written

/-- The names that an axis lists for its values. -/
def Axis.variants : Axis → List String
  | .enum _ _ variants => variants
  | _ => []

section Fields

variable {limit : Nat}

/-- A field that may be missing keeps to the bound if it is there. -/
def FieldWithin (limit : Nat) (field : Option Toml.Value) : Prop :=
  ∀ v, field = some v → v.Within limit

theorem lookup_within {entries : Entries} (within : (Toml.Value.table entries).Within limit)
    (key : String) : FieldWithin limit (entries.lookup key) := by
  intro v found
  cases within with
  | scalar _ noTable => cases noTable
  | table each => exact each (key, v) (mem_of_lookup found)

theorem item_within {items : List Toml.Value} (within : (Toml.Value.array items).Within limit) :
    ∀ v ∈ items, v.Within limit := by
  cases within with
  | scalar noArray _ => cases noArray
  | array _ each => exact each

theorem length_strings {v : Toml.Value} {names : List String} (within : v.Within limit)
    (given : strings v = some names) : names.length ≤ limit := by
  obtain ⟨items, listed, given⟩ := Option.bind_eq_some_iff.mp given
  cases within with
  | scalar noArray _ => rw [listed] at noArray; cases noArray
  | array short _ => cases listed; exact short names given
  | table _ => cases listed

theorem listOf_within {α : Type} {item : Toml.Value → Option α} {field : Option Toml.Value}
    {answers : List α} (within : FieldWithin limit field)
    (given : optionally (listOf item) [] field = some answers) :
    ∀ a ∈ answers, ∃ v, v.Within limit ∧ item v = some a := by
  cases field with
  | none => cases given; exact List.forall_mem_nil _
  | some v =>
    obtain ⟨items, listed, given⟩ := Option.bind_eq_some_iff.mp given
    cases v with
    | array items' =>
      cases listed
      intro a member
      obtain ⟨v, inside, read⟩ := exists_left (Outcome.mapM_eq_some.mp given) member
      exact ⟨v, item_within (within _ rfl) v inside, read⟩
    | _ => cases listed

theorem axisOf_variants {kind : String} {name first second : Option Toml.Value} {axis : Axis}
    (within : FieldWithin limit second) (given : axisOf kind name first second = some axis) :
    axis.variants.length ≤ limit := by
  obtain ⟨_, _, given⟩ := Option.bind_eq_some_iff.mp given
  obtain ⟨_, _, given⟩ := Option.bind_eq_some_iff.mp given
  split at given
  · obtain ⟨_, _, given⟩ := Option.bind_eq_some_iff.mp given
    cases given
    exact Nat.zero_le _
  · split at given
    · cases given
      exact Nat.zero_le _
    · split at given
      · obtain ⟨_, _, given⟩ := Option.bind_eq_some_iff.mp given
        obtain ⟨variants, listed, given⟩ := Option.bind_eq_some_iff.mp given
        cases given
        cases second with
        | none => cases listed; exact Nat.zero_le _
        | some v => exact length_strings (within v rfl) listed
      · cases given

theorem axis_variants {v : Toml.Value} {a : Axis} (within : v.Within limit)
    (given : axis v = some a) : a.variants.length ≤ limit := by
  unfold axis at given
  split at given
  · obtain ⟨_, _, given⟩ := Option.bind_eq_some_iff.mp given
    obtain ⟨_, _, given⟩ := Option.bind_eq_some_iff.mp given
    have listed := lookup_within within "variants"
    split at given
    · exact axisOf_variants listed given
    · exact axisOf_variants listed given
  · rename_i fields
    obtain ⟨_, _, given⟩ := Option.bind_eq_some_iff.mp given
    split at given
    · refine axisOf_variants (fun v found => ?_) given
      exact item_within within v (List.mem_cons_of_mem _ (List.mem_of_getElem? found))
    · cases given
  · cases given

theorem familyOf_variants {name body axes exclude same : Option Toml.Value} {f : Family}
    (within : FieldWithin limit axes) (given : familyOf name body axes exclude same = some f) :
    ∀ a ∈ f.axes, a.variants.length ≤ limit := by
  simp only [familyOf, Option.bind_eq_bind, Option.bind_eq_some_iff] at given
  obtain ⟨_, _, _, _, _, _, _, _, listed, axes, _, _, _, _, given⟩ := given
  cases given
  intro a member
  obtain ⟨v, small, read⟩ := listOf_within within axes a member
  exact axis_variants small read

theorem family_variants {v : Toml.Value} {f : Family} (within : v.Within limit)
    (given : family v = some f) : ∀ a ∈ f.axes, a.variants.length ≤ limit := by
  unfold family at given
  split at given
  · split at given
    · exact familyOf_variants (lookup_within within "axes") given
    · cases given
  · refine familyOf_variants (fun v found => ?_) given
    exact item_within within v (List.mem_of_getElem? found)
  · cases given

end Fields

/-- No axis of a manifest names more values than the text has characters. -/
theorem read_variants {text : String} {written : Module} (given : read text = some written) :
    ∀ family ∈ written.families, ∀ axis ∈ family.axes,
      axis.variants.length ≤ text.length := by
  obtain ⟨entries, parsed, given⟩ := Option.bind_eq_some_iff.mp given
  split at given
  · simp only [Option.bind_eq_bind, Option.bind_eq_some_iff] at given
    obtain ⟨_, _, _, _, families, listed, given⟩ := given
    cases given
    intro family member
    obtain ⟨v, small, read⟩ :=
      listOf_within (lookup_within (Toml.read_within parsed) "family") listed family member
    exact family_variants small read
  · cases given

end CopyPatch.Manifest.Written
