import CopyPatch.Json.Printer
import CopyPatch.Json.Reader
import Mathlib.Data.List.TakeDrop

/-! Strings and numbers are read back as they were written, whatever follows them. A text is read
through its bytes, so an escaped character and the bytes of one that stands for itself both count as
pieces of the string. -/
namespace CopyPatch

namespace Bytes

theorem ofText_eq (text : String) : ofText text = text.toList.flatMap String.utf8EncodeChar := by
  rw [ofText, String.toUTF8, ← String.utf8Encode_toList, List.utf8Encode, List.data_toByteArray]

theorem ofText_append (a b : String) : ofText (a ++ b) = ofText a ++ ofText b := by
  simp only [ofText_eq, String.toList_append, List.flatMap_append]

theorem toText?_ofText (text : String) : toText? (ofText text) = some text := by
  have same : (⟨(ofText text).toArray⟩ : ByteArray) = text.toByteArray := by simp [ofText]
  rw [toText?, same, String.fromUTF8?, dif_pos text.isValidUTF8]
  rfl

end Bytes

namespace JsonValue

/-- A text as its reader meets it: a character for each byte. -/
def spelling (text : String) : List Char := (Bytes.ofText text).map fun b => Char.ofNat b.toNat

theorem spelling_append (a b : String) : spelling (a ++ b) = spelling a ++ spelling b := by
  rw [spelling, Bytes.ofText_append, List.map_append]
  rfl

theorem toNat_ofNat_byte (b : UInt8) : (Char.ofNat b.toNat).toNat = b.toNat := by
  have small := b.toNat_lt
  rw [Char.ofNat, dif_pos (Or.inl (by omega))]
  rfl

/-- The bytes of a character below 128 are the character, and all others have no such byte. -/
theorem utf8EncodeChar_cases (c : Char) :
    (c.toNat < 128 ∧ String.utf8EncodeChar c = [UInt8.ofNat c.toNat]) ∨
      (128 ≤ c.toNat ∧ ∀ b ∈ String.utf8EncodeChar c, 128 ≤ b.toNat) := by
  have range : c.val.toNat = c.toNat := rfl
  by_cases small : c.toNat < 128
  · left
    refine ⟨small, ?_⟩
    rw [String.utf8EncodeChar]
    simp only [range]
    rw [if_pos (by omega)]
  · right
    refine ⟨by omega, ?_⟩
    intro b member
    rw [String.utf8EncodeChar] at member
    simp only [range] at member
    rw [if_neg (by omega)] at member
    split at member
    · simp only [List.mem_cons, List.not_mem_nil, or_false] at member
      rcases member with rfl | rfl <;> simp only [UInt8.toNat_ofNat'] <;> omega
    · split at member
      · simp only [List.mem_cons, List.not_mem_nil, or_false] at member
        rcases member with rfl | rfl | rfl <;> simp only [UInt8.toNat_ofNat'] <;> omega
      · simp only [List.mem_cons, List.not_mem_nil, or_false] at member
        rcases member with rfl | rfl | rfl | rfl <;> simp only [UInt8.toNat_ofNat'] <;> omega

theorem spelling_ofList {cs : List Char} (ascii : ∀ c ∈ cs, c.toNat < 128) :
    spelling (String.ofList cs) = cs := by
  rw [spelling, Bytes.ofText_eq, String.toList_ofList]
  induction cs with
  | nil => rfl
  | cons c rest ih =>
    have small := ascii c List.mem_cons_self
    rcases utf8EncodeChar_cases c with ⟨_, single⟩ | ⟨large, _⟩
    · have back : Char.ofNat (UInt8.ofNat c.toNat).toNat = c := by
        rw [UInt8.toNat_ofNat', Nat.mod_eq_of_lt (by omega), Char.ofNat_toNat]
      rw [List.flatMap_cons, single, List.map_append,
        ih fun d member => ascii d (List.mem_cons_of_mem c member)]
      simp only [List.map_cons, List.map_nil, back, List.singleton_append]
    · omega

/-- Characters that the reader of a string takes for some pieces. -/
def Spoken (cs : List Char) (pieces : List Bytes) : Prop :=
  ∀ fuel more tail rest, stringBody fuel more = some (tail, rest) →
    stringBody (pieces.length + fuel) (cs ++ more) = some (pieces.map some ++ tail, rest)

theorem spoken_nil : Spoken [] [] := by
  intro fuel more tail rest read
  simpa using read

theorem Spoken.append {cs ds : List Char} {ps qs : List Bytes} (first : Spoken cs ps)
    (second : Spoken ds qs) : Spoken (cs ++ ds) (ps ++ qs) := by
  intro fuel more tail rest read
  have := first _ _ _ _ (second _ _ _ _ read)
  simpa [Nat.add_assoc] using this

/-- A backslash and what follows it stand for one character. -/
theorem spoken_escape {cs : List Char} {c : Char}
    (read : ∀ more, escaped (cs ++ more) = some (some c, more)) :
    Spoken ('\\' :: cs) [String.utf8EncodeChar c] := by
  intro fuel more tail rest after
  have bytes : Bytes.ofText c.toString = String.utf8EncodeChar c := by
    rw [Bytes.ofText_eq]
    simp [Char.toString]
  rw [List.length_singleton, Nat.add_comm, List.cons_append, stringBody, read more]
  simp only [Option.bind_eq_bind, Option.bind_some, after, Option.map_some, bytes]
  rfl

/-- Bytes that are no mark and no control character stand for themselves. -/
theorem spoken_bytes {bytes : Bytes}
    (plain : ∀ b ∈ bytes, 32 ≤ b.toNat ∧ b.toNat ≠ 34 ∧ b.toNat ≠ 92) :
    Spoken (bytes.map fun b => Char.ofNat b.toNat) (bytes.map fun b => [b]) := by
  induction bytes with
  | nil => exact spoken_nil
  | cons b rest ih =>
    obtain ⟨printable, notQuote, notSlash⟩ := plain b List.mem_cons_self
    have same := toNat_ofNat_byte b
    have first : Spoken [Char.ofNat b.toNat] [[b]] := by
      intro fuel more tail rest after
      rw [List.length_singleton, Nat.add_comm, List.singleton_append, stringBody]
      · rw [if_neg (by omega), same, UInt8.ofNat_toNat]
        simp [after]
      · intro quote; rw [quote] at same; exact notQuote same.symm
      · intro slash; rw [slash] at same; exact notSlash same.symm
    exact first.append (ih fun d member => plain d (List.mem_cons_of_mem b member))

theorem hexDigits_read : ∀ n < 32,
    Bytes.hexDigitValue? (Text.hexDigit (n / 16)) = some (n / 16) ∧
      Bytes.hexDigitValue? (Text.hexDigit (n % 16)) = some (n % 16) ∧
      (Text.hexDigit (n / 16)).toNat < 128 ∧ (Text.hexDigit (n % 16)).toNat < 128 := by
  decide

/-- A control character that has no letter is read from its code. -/
theorem escaped_control {c : Char} (control : c.toNat < 32) (more : List Char) :
    escaped ('u' :: '0' :: '0' :: Text.hexDigit (c.toNat / 16) ::
      Text.hexDigit (c.toNat % 16) :: more) = some (some c, more) := by
  obtain ⟨high, low, _⟩ := hexDigits_read c.toNat control
  have zero : Bytes.hexDigitValue? '0' = some 0 := by decide
  have sum : 16 * (16 * (16 * (16 * 0 + 0) + 0) + c.toNat / 16) + c.toNat % 16 = c.toNat := by
    omega
  simp only [escaped, unicode, hexQuad, List.mapM_cons, List.mapM_nil, zero, high, low,
    Option.pure_def, Option.bind_eq_bind, Option.bind_some, List.foldl_cons, List.foldl_nil, sum]
  rw [if_neg (by omega), if_neg (by omega), Char.ofNat_toNat]

/-- What is written for a character is read as its bytes. -/
def Speaks (c : Char) (text : String) : Prop :=
  ∃ pieces, Spoken (spelling text) pieces ∧ pieces.flatten = String.utf8EncodeChar c ∧
    pieces.length ≤ (spelling text).length

theorem speaks_escape {c : Char} {text : String} (cs : List Char)
    (spelled : spelling text = '\\' :: cs)
    (read : ∀ more, escaped (cs ++ more) = some (some c, more)) : Speaks c text := by
  refine ⟨[String.utf8EncodeChar c], ?_, by simp, ?_⟩
  · rw [spelled]; exact spoken_escape read
  · rw [spelled]; simp

theorem speaks_plain {c : Char} (printable : 32 ≤ c.toNat) (notQuote : c ≠ '"')
    (notSlash : c ≠ '\\') : Speaks c c.toString := by
  have bytes : Bytes.ofText c.toString = String.utf8EncodeChar c := by
    rw [Bytes.ofText_eq]
    simp [Char.toString]
  refine ⟨(String.utf8EncodeChar c).map fun b => [b], ?_, ?_, ?_⟩
  · rw [spelling, bytes]
    refine spoken_bytes ?_
    intro b member
    rcases utf8EncodeChar_cases c with ⟨small, single⟩ | ⟨_, large⟩
    · rw [single, List.mem_singleton] at member
      have same : b.toNat = c.toNat := by
        rw [member, UInt8.toNat_ofNat', Nat.mod_eq_of_lt (by omega)]
      rw [same]
      refine ⟨printable, ?_, ?_⟩
      · exact fun code => notQuote (Char.toNat_inj.mp code)
      · exact fun code => notSlash (Char.toNat_inj.mp code)
    · have := large b member
      omega
  · rw [← List.flatMap_def]; simp
  · rw [spelling, bytes]; simp

theorem speaks_escapeChar (c : Char) : Speaks c (escapeChar c) := by
  unfold escapeChar
  split
  · rename_i h; subst h; exact speaks_escape ['"'] (by decide +kernel) fun _ => rfl
  rename_i notQuote
  split
  · rename_i h; subst h; exact speaks_escape ['\\'] (by decide +kernel) fun _ => rfl
  rename_i notSlash
  split
  · rename_i h
    obtain rfl : c = Char.ofNat 8 := by rw [← h, Char.ofNat_toNat]
    exact speaks_escape ['b'] (by decide +kernel) fun _ => rfl
  split
  · rename_i h
    obtain rfl : c = Char.ofNat 12 := by rw [← h, Char.ofNat_toNat]
    exact speaks_escape ['f'] (by decide +kernel) fun _ => rfl
  split
  · rename_i h; subst h; exact speaks_escape ['n'] (by decide +kernel) fun _ => rfl
  split
  · rename_i h; subst h; exact speaks_escape ['r'] (by decide +kernel) fun _ => rfl
  split
  · rename_i h; subst h; exact speaks_escape ['t'] (by decide +kernel) fun _ => rfl
  split
  · rename_i control
    obtain ⟨_, _, high, low⟩ := hexDigits_read c.toNat control
    refine speaks_escape ['u', '0', '0', Text.hexDigit (c.toNat / 16),
      Text.hexDigit (c.toNat % 16)] ?_ (escaped_control control)
    have digits : spelling (String.ofList [Text.hexDigit (c.toNat / 16),
        Text.hexDigit (c.toNat % 16)]) = _ := spelling_ofList (by simp [high, low])
    rw [spelling_append, digits]
    rfl
  · exact speaks_plain (by omega) notQuote notSlash

theorem spoken_text (cs : List Char) :
    ∃ pieces, Spoken (spelling (String.join (cs.map escapeChar))) pieces ∧
      pieces.flatten = cs.flatMap String.utf8EncodeChar ∧
      pieces.length ≤ (spelling (String.join (cs.map escapeChar))).length := by
  induction cs with
  | nil => exact ⟨[], spoken_nil, rfl, Nat.zero_le _⟩
  | cons c rest ih =>
    obtain ⟨first, spokenFirst, sameFirst, shortFirst⟩ := speaks_escapeChar c
    obtain ⟨others, spokenOthers, sameOthers, shortOthers⟩ := ih
    refine ⟨first ++ others, ?_, ?_, ?_⟩
    · rw [List.map_cons, String.join_cons, spelling_append]
      exact spokenFirst.append spokenOthers
    · rw [List.flatten_append, sameFirst, sameOthers, List.flatMap_cons]
    · rw [List.map_cons, String.join_cons, spelling_append, List.length_append,
        List.length_append]
      omega

/-- A quoted text is read back. -/
theorem stringRest_quote (text : String) (rest : List Char) :
    ∃ cs, spelling (quote text) = '"' :: cs ∧ stringRest (cs ++ rest) = some (some text, rest) := by
  obtain ⟨pieces, spoken, same, short⟩ := spoken_text text.toList
  refine ⟨spelling (String.join (text.toList.map escapeChar)) ++ ['"'], ?_, ?_⟩
  · rw [quote, spelling_append, spelling_append]
    rfl
  · have closing : ∀ extra, stringBody (extra + 1) ('"' :: rest) = some ([], rest) := fun _ => rfl
    generalize spelling (String.join (text.toList.map escapeChar)) = cs at spoken short
    have read := spoken _ _ _ _ (closing (cs.length + rest.length + 1 - pieces.length))
    rw [List.append_nil] at read
    rw [stringRest, List.append_assoc, List.singleton_append]
    have enough : (cs ++ '"' :: rest).length + 1 =
        pieces.length + (cs.length + rest.length + 1 - pieces.length + 1) := by
      rw [List.length_append, List.length_cons]
      omega
    rw [enough, read]
    have all : (pieces.map some).mapM id = some pieces := by
      rw [List.mapM_map]
      exact List.mapM_pure.trans (by simp)
    simp only [Option.bind_eq_bind, Option.bind_some, all, same, ← Bytes.ofText_eq,
      Bytes.toText?_ofText]
    rfl

/-- What follows does not go on with a number. -/
def Ends (rest : List Char) : Prop :=
  ∀ c ∈ rest.head?, c.isDigit = false ∧ c ≠ '.' ∧ c ≠ 'e' ∧ c ≠ 'E'

theorem span_digits {cs rest : List Char} (digits : ∀ c ∈ cs, c.isDigit = true)
    (ends : Ends rest) : (cs ++ rest).span Char.isDigit = (cs, rest) := by
  have stop : rest.takeWhile Char.isDigit = [] ∧ rest.dropWhile Char.isDigit = rest := by
    cases rest with
    | nil => exact ⟨rfl, rfl⟩
    | cons c more => simp [(ends c rfl).1]
  rw [List.span_eq_takeWhile_dropWhile, List.takeWhile_append_of_pos digits,
    List.dropWhile_append_of_pos digits, stop.1, stop.2, List.append_nil]

theorem digitsValue_toDigits (n : Nat) : Text.digitsValue (Nat.toDigits 10 n) = n := by
  rw [Text.digitsValue_eq, Nat.ofDigitChars_toDigits (by decide) (by decide)]

/-- Only the number zero is written with a zero in front. -/
theorem head_toDigits (n : Nat) :
    (Nat.toDigits 10 n).head? = some '0' → (Nat.toDigits 10 n).length = 1 := by
  have nonzero : ∀ d < 10, 0 < d → Nat.digitChar d ≠ '0' := by decide
  have head : ∀ n, 0 < n → (Nat.toDigits 10 n).head? ≠ some '0' := by
    intro n
    induction n using Nat.strongRecOn with
    | ind n ih =>
      intro positive
      rw [Nat.toDigits_eq_if (by decide)]
      split
      · rename_i small
        simpa using nonzero n small positive
      · have earlier := ih (n / 10) (by omega) (by omega)
        cases written : Nat.toDigits 10 (n / 10) with
        | nil => exact absurd written Nat.toDigits_ne_nil
        | cons c more => rwa [written] at earlier
  intro zero
  rcases Nat.eq_zero_or_pos n with rfl | positive
  · rfl
  · exact absurd zero (head n positive)

theorem whole_toDigits (n : Nat) {rest : List Char} (ends : Ends rest) :
    whole (Nat.toDigits 10 n ++ rest) = some (Nat.toDigits 10 n, rest) := by
  have found : digits (Nat.toDigits 10 n ++ rest) = some (Nat.toDigits 10 n, rest) := by
    rw [digits, span_digits (fun c member => Text.isDigit_toDigits member) ends]
    cases written : Nat.toDigits 10 n with
    | nil => exact absurd written Nat.toDigits_ne_nil
    | cons c more => rfl
  have single := head_toDigits n
  simp only [whole, found, Option.bind_eq_bind, Option.bind_some]
  rw [if_neg fun zero => zero.2 (single zero.1)]

theorem afterPoint_of_ends {rest : List Char} (ends : Ends rest) :
    afterPoint rest = some (false, rest) := by
  cases rest with
  | nil => rfl
  | cons c more =>
    have := (ends c rfl).2.1
    simp [afterPoint, this]

theorem afterExponent_of_ends {rest : List Char} (ends : Ends rest) :
    afterExponent rest = some (false, rest) := by
  cases rest with
  | nil => rfl
  | cons c more =>
    obtain ⟨_, _, lower, upper⟩ := ends c rfl
    simp [afterExponent, lower, upper]

/-- The digits of an integer, after a minus if it is negative. -/
theorem spelling_toString (n : Int) :
    (∃ m : Nat, n = m ∧ spelling (toString n) = Nat.toDigits 10 m) ∨
      ∃ m : Nat, n = Int.negSucc m ∧ spelling (toString n) = '-' :: Nat.toDigits 10 (m + 1) := by
  have ascii : ∀ m, ∀ c ∈ Nat.toDigits 10 m, c.toNat < 128 := by
    intro m c member
    have range := Char.isDigit_iff_toNat.mp (Text.isDigit_toDigits member)
    exact Nat.lt_of_le_of_lt range.2 (by decide)
  cases n with
  | ofNat m => exact .inl ⟨m, rfl, spelling_ofList (ascii m)⟩
  | negSucc m =>
    refine .inr ⟨m, rfl, ?_⟩
    rw [show toString (Int.negSucc m) = "-" ++ String.ofList (Nat.toDigits 10 (m + 1)) from rfl,
      spelling_append, spelling_ofList (ascii (m + 1))]
    rfl

/-- A number begins with a digit or a minus. -/
theorem head_toString (n : Int) :
    ∃ c cs, spelling (toString n) = c :: cs ∧ (c.isDigit = true ∨ c = '-') := by
  rcases spelling_toString n with ⟨m, _, spelled⟩ | ⟨m, _, spelled⟩
  · cases written : Nat.toDigits 10 m with
    | nil => exact absurd written Nat.toDigits_ne_nil
    | cons c cs =>
      have digit : c.isDigit = true :=
        Text.isDigit_toDigits (by rw [written]; exact List.mem_cons_self)
      exact ⟨c, cs, spelled.trans written, .inl digit⟩
  · exact ⟨'-', _, spelled, .inr rfl⟩

/-- An integer is read back. -/
theorem number_toString (n : Int) {rest : List Char} (ends : Ends rest) :
    number (spelling (toString n) ++ rest) = some (integer n, rest) := by
  rcases spelling_toString n with ⟨m, rfl, spelled⟩ | ⟨m, rfl, spelled⟩
  · have unsigned : ∀ more, Nat.toDigits 10 m ++ rest ≠ '-' :: more := by
      intro more same
      cases written : Nat.toDigits 10 m with
      | nil => exact Nat.toDigits_ne_nil written
      | cons c others =>
        have digit : c.isDigit = true :=
          Text.isDigit_toDigits (by rw [written]; exact List.mem_cons_self)
        rw [written] at same
        rw [(List.cons.inj same).1] at digit
        exact absurd digit (by decide)
    rw [spelled]
    unfold number
    split
    · rename_i minus body same
      split at same
      · rename_i dash; exact absurd dash (unsigned _)
      · cases same
        simp [whole_toDigits m ends, afterPoint_of_ends ends, afterExponent_of_ends ends,
          digitsValue_toDigits]
  · rw [spelled]
    simp [number, whole_toDigits (m + 1) ends, afterPoint_of_ends ends,
      afterExponent_of_ends ends, digitsValue_toDigits]
    omega

end JsonValue

end CopyPatch
