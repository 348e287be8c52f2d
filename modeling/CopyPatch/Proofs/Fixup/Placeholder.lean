import CopyPatch.Fixup.Placeholder

/-! Placeholder names. What the names of each class look like is said first, as a relation between
a name and the answer for it; reading a symbol name gives that answer and no other. A number below
the limit is read back from the name made for it, and two names stand for one placeholder only if
they differ in the zeros before the number. -/
namespace CopyPatch

namespace Text

theorem foldl_digits_lt {digits : List Char} (all : ∀ c ∈ digits, c.isDigit = true) (acc : Nat) :
    digits.foldl (fun acc c => acc * 10 + (c.toNat - 48)) acc < (acc + 1) * 10 ^ digits.length := by
  induction digits generalizing acc with
  | nil => simp
  | cons c rest ih =>
    obtain ⟨digit, others⟩ := List.forall_mem_cons.mp all
    have small : c.toNat - 48 < 10 := by
      have high : c.toNat ≤ 57 := by
        rw [Char.isDigit, Bool.and_eq_true, decide_eq_true_eq, decide_eq_true_eq] at digit
        exact digit.2
      omega
    calc rest.foldl (fun acc c => acc * 10 + (c.toNat - 48)) (acc * 10 + (c.toNat - 48))
        < (acc * 10 + (c.toNat - 48) + 1) * 10 ^ rest.length := ih others _
      _ ≤ ((acc + 1) * 10) * 10 ^ rest.length := Nat.mul_le_mul_right _ (by omega)
      _ = (acc + 1) * 10 ^ (rest.length + 1) := by rw [Nat.pow_succ', Nat.mul_assoc]

theorem ofDigitChars_lt {digits : List Char} (all : ∀ c ∈ digits, c.isDigit = true) :
    Nat.ofDigitChars 10 digits 0 < 10 ^ digits.length := by
  have bound := foldl_digits_lt all 0
  rwa [Nat.zero_add, Nat.one_mul, ← digitsValue, digitsValue_eq] at bound

/-- Zeros in front do not count. -/
theorem ofDigitChars_zeros (count : Nat) (digits : List Char) :
    Nat.ofDigitChars 10 (List.replicate count '0' ++ digits) 0 = Nat.ofDigitChars 10 digits 0 := by
  rw [Nat.ofDigitChars_append, Nat.ofDigitChars_replicate_zero, Nat.mul_zero]

/-- Equally many digits with one value are the same digits. -/
theorem eq_of_ofDigitChars_eq {a b : List Char} (first : ∀ c ∈ a, c.isDigit = true)
    (second : ∀ c ∈ b, c.isDigit = true) (length : a.length = b.length)
    (value : Nat.ofDigitChars 10 a 0 = Nat.ofDigitChars 10 b 0) : a = b := by
  induction a generalizing b with
  | nil => exact (List.eq_nil_of_length_eq_zero length.symm).symm
  | cons c a ih =>
    cases b with
    | nil => cases length
    | cons d b =>
      obtain ⟨digit, first⟩ := List.forall_mem_cons.mp first
      obtain ⟨digit', second⟩ := List.forall_mem_cons.mp second
      have size : b.length = a.length := (Nat.succ.inj length).symm
      rw [Nat.ofDigitChars_cons, Nat.ofDigitChars_cons, Nat.ofDigitChars_eq_ofDigitChars_zero,
        Nat.ofDigitChars_eq_ofDigitChars_zero (l := b), size] at value
      -- the first digit is the quotient by the power, the value of the others the remainder
      have lead := congrArg (· / 10 ^ a.length) value
      have rest := congrArg (· % 10 ^ a.length) value
      have positive : 0 < 10 ^ a.length := Nat.pow_pos (by decide)
      have low := ofDigitChars_lt first
      have low' := size ▸ ofDigitChars_lt second
      simp only [Nat.mul_add_div positive, Nat.mul_add_mod, Nat.div_eq_of_lt, Nat.mod_eq_of_lt,
        low, low', Nat.mul_zero, Nat.zero_add, Nat.add_zero] at lead rest
      rw [Char.isDigit_iff_toNat] at digit digit'
      have same : c = d := Char.toNat_inj.mp (by omega)
      rw [same, ih first second size.symm rest]

end Text

namespace SymbolClass

theorem mem_supplied {c : SymbolClass} : c ∈ supplied ↔ c ≠ threadLocalBase := by
  cases c <;> decide

/-- No beginning goes on with another, so a name begins like one class at most. -/
theorem eq_of_beginning {c d : SymbolClass} {text : List Char}
    (one : c.beginning.toList <+: text) (other : d.beginning.toList <+: text) : c = d := by
  have apart : ∀ c d : SymbolClass, c.beginning.toList <+: d.beginning.toList → c = d := by
    intro c d
    cases c <;> cases d <;> decide
  rcases List.prefix_or_prefix_of_prefix one other with h | h
  · exact apart c d h
  · exact (apart d c h).symm

theorem beginning_isPrefix (c : SymbolClass) (rest : List Char) :
    c.beginning.toList <+: (c.beginning ++ String.ofList rest).toList := by
  rw [String.toList_append, String.toList_ofList]
  exact List.prefix_append _ _

theorem exists_eq_append {c : SymbolClass} {text : String}
    (begins : c.beginning.toList <+: text.toList) :
    ∃ rest, text = c.beginning ++ String.ofList rest := by
  obtain ⟨rest, same⟩ := begins
  refine ⟨rest, String.toList_inj.mp ?_⟩
  rw [String.toList_append, String.toList_ofList, same]

end SymbolClass

namespace Placeholder

/-- One to eight digits. -/
def Numeral (digits : List Char) : Prop :=
  digits ≠ [] ∧ digits.length ≤ maxDigits ∧ ∀ c ∈ digits, c.isDigit = true

/-- Numbers end where eight digits end. -/
def limit : Nat := 10 ^ maxDigits

theorem Numeral.lt_limit {digits : List Char} (numeral : Numeral digits) :
    Nat.ofDigitChars 10 digits 0 < limit :=
  Nat.lt_of_lt_of_le (Text.ofDigitChars_lt numeral.2.2)
    (Nat.pow_le_pow_right (by decide) numeral.2.1)

/-- The digits of a number are few enough exactly below the limit. -/
theorem numeral_toDigits_iff {n : Nat} : Numeral (Nat.toDigits 10 n) ↔ n < limit := by
  have length := @Nat.length_toDigits_le_iff 10 n maxDigits (by decide) (by decide)
  constructor
  · exact fun numeral => length.mp numeral.2.1
  · intro small
    exact ⟨Nat.toDigits_ne_nil, length.mpr small, fun _ => Text.isDigit_toDigits⟩

theorem ordinal?_of_numeral {digits : List Char} (numeral : Numeral digits) :
    ordinal? digits = some (UInt32.ofNat (Nat.ofDigitChars 10 digits 0)) := by
  obtain ⟨nonempty, short, all⟩ := numeral
  rw [ordinal?, if_pos short, Text.decimal?, if_pos ⟨nonempty, List.all_eq_true.mpr all⟩,
    Text.digitsValue_eq]
  rfl

theorem ordinal?_of_not_numeral {digits : List Char} (malformed : ¬ Numeral digits) :
    ordinal? digits = none := by
  rw [ordinal?]
  split
  · rename_i short
    rw [Text.decimal?, if_neg, Option.map_none]
    rintro ⟨nonempty, all⟩
    exact malformed ⟨nonempty, short, List.all_eq_true.mp all⟩
  · rfl

/-- What a name stands for. -/
inductive Reads : String → Except ModelError (Option (SymbolClass × UInt32)) → Prop where
  | base : Reads SymbolClass.threadLocalBase.beginning (.ok (some (.threadLocalBase, 0)))
  | numbered {c : SymbolClass} {digits : List Char} {n : UInt32} (class_ : c ≠ .threadLocalBase)
      (numeral : Numeral digits) (value : Nat.ofDigitChars 10 digits 0 = n.toNat) :
      Reads (c.beginning ++ String.ofList digits) (.ok (some (c, n)))
  | malformed {c : SymbolClass} {rest : List Char} (class_ : c ≠ .threadLocalBase)
      (malformed : ¬ Numeral rest) :
      Reads (c.beginning ++ String.ofList rest)
        (.error (.badPlaceholderOrdinal (c.beginning ++ String.ofList rest)))
  | other {text : String} (base : text ≠ SymbolClass.threadLocalBase.beginning)
      (unlike : ∀ c ≠ SymbolClass.threadLocalBase, ¬ c.beginning.toList <+: text.toList) :
      Reads text (.ok none)

/-- The word that holds the value of a numeral. -/
theorem Numeral.toNat_word {digits : List Char} (numeral : Numeral digits) :
    (UInt32.ofNat (Nat.ofDigitChars 10 digits 0)).toNat = Nat.ofDigitChars 10 digits 0 :=
  UInt32.toNat_ofNat_of_lt' (Nat.lt_of_lt_of_le numeral.lt_limit (by decide))

section Reading

variable {text : String} {c : SymbolClass}

theorem parseAs_eq_none {classes : List SymbolClass}
    (unlike : ∀ c ∈ classes, ¬ c.beginning.toList <+: text.toList) :
    parseAs text classes = .ok none := by
  induction classes with
  | nil => rfl
  | cons first rest ih =>
    obtain ⟨first, others⟩ := List.forall_mem_cons.mp unlike
    rw [parseAs, if_neg (by rwa [List.isPrefixOf_iff_prefix]), ih others]

/-- Only the class that a name begins with decides. -/
theorem parseAs_eq_single {classes : List SymbolClass} (listed : c ∈ classes)
    (begins : c.beginning.toList <+: text.toList) : parseAs text classes = parseAs text [c] := by
  induction classes with
  | nil => cases listed
  | cons first rest ih =>
    by_cases same : first = c
    · rw [same, parseAs, parseAs, if_pos (List.isPrefixOf_iff_prefix.mpr begins),
        if_pos (List.isPrefixOf_iff_prefix.mpr begins)]
    · have apart : ¬ first.beginning.toList.isPrefixOf text.toList := by
        rw [List.isPrefixOf_iff_prefix]
        exact fun other => same (SymbolClass.eq_of_beginning other begins)
      rw [parseAs, if_neg apart, ih ((List.mem_cons.mp listed).resolve_left (Ne.symm same))]

theorem parse_append (class_ : c ≠ .threadLocalBase) (rest : List Char) :
    parse (c.beginning ++ String.ofList rest) =
      parseAs (c.beginning ++ String.ofList rest) [c] := by
  have begins := c.beginning_isPrefix rest
  rw [parse, if_neg, parseAs_eq_single (SymbolClass.mem_supplied.mpr class_) begins]
  intro base
  rw [base] at begins
  exact class_ (SymbolClass.eq_of_beginning begins (List.prefix_refl _))

theorem drop_beginning (c : SymbolClass) (rest : List Char) :
    (c.beginning ++ String.ofList rest).toList.drop c.beginning.length = rest := by
  rw [String.toList_append, String.toList_ofList, ← String.length_toList, List.drop_left]

theorem Reads.parse_eq {r : Except ModelError (Option (SymbolClass × UInt32))}
    (reads : Reads text r) : parse text = r := by
  cases reads with
  | base => rfl
  | @numbered c digits n class_ numeral value =>
    rw [parse_append class_, parseAs,
      if_pos (List.isPrefixOf_iff_prefix.mpr (c.beginning_isPrefix digits)), drop_beginning,
      ordinal?_of_numeral numeral, value, UInt32.ofNat_toNat]
  | @malformed c rest class_ malformed =>
    rw [parse_append class_, parseAs,
      if_pos (List.isPrefixOf_iff_prefix.mpr (c.beginning_isPrefix rest)), drop_beginning,
      ordinal?_of_not_numeral malformed]
  | other base unlike =>
    rw [parse, if_neg base]
    exact parseAs_eq_none fun c listed => unlike c (SymbolClass.mem_supplied.mp listed)

/-- Every name stands for something, if only for nothing. -/
theorem exists_reads (text : String) : ∃ r, Reads text r := by
  by_cases base : text = SymbolClass.threadLocalBase.beginning
  · subst base
    exact ⟨_, .base⟩
  · by_cases begins : ∃ c ≠ SymbolClass.threadLocalBase, c.beginning.toList <+: text.toList
    · obtain ⟨c, class_, begins⟩ := begins
      obtain ⟨rest, rfl⟩ := SymbolClass.exists_eq_append begins
      by_cases numeral : Numeral rest
      · exact ⟨_, .numbered class_ numeral numeral.toNat_word.symm⟩
      · exact ⟨_, .malformed class_ numeral⟩
    · exact ⟨_, .other base fun c class_ other => begins ⟨c, class_, other⟩⟩

theorem parse_eq_iff {r : Except ModelError (Option (SymbolClass × UInt32))} :
    parse text = r ↔ Reads text r := by
  refine ⟨?_, Reads.parse_eq⟩
  rintro rfl
  obtain ⟨r, reads⟩ := exists_reads text
  rwa [reads.parse_eq]

theorem parse_lt {k : UInt32} (h : parse text = .ok (some (c, k))) : k.toNat < limit := by
  cases parse_eq_iff.mp h with
  | base => decide
  | numbered _ numeral value => exact value ▸ numeral.lt_limit

theorem parse_eq_some_iff {n : UInt32} (class_ : c ≠ .threadLocalBase) :
    parse text = .ok (some (c, n)) ↔
      ∃ digits, text = c.beginning ++ String.ofList digits ∧ Numeral digits ∧
        Nat.ofDigitChars 10 digits 0 = n.toNat := by
  rw [parse_eq_iff]
  constructor
  · intro reads
    cases reads with
    | base => exact absurd rfl class_
    | numbered _ numeral value => exact ⟨_, rfl, numeral, value⟩
  · rintro ⟨digits, rfl, numeral, value⟩
    exact .numbered class_ numeral value

theorem parse_eq_base_iff {n : UInt32} :
    parse text = .ok (some (.threadLocalBase, n)) ↔
      text = SymbolClass.threadLocalBase.beginning ∧ n = 0 := by
  rw [parse_eq_iff]
  constructor
  · intro reads
    cases reads with
    | base => exact ⟨rfl, rfl⟩
    | numbered class_ => exact absurd rfl class_
  · rintro ⟨rfl, rfl⟩
    exact .base

theorem parse_eq_error_iff {e : ModelError} :
    parse text = .error e ↔
      e = .badPlaceholderOrdinal text ∧ ∃ c rest, c ≠ SymbolClass.threadLocalBase ∧
        text = c.beginning ++ String.ofList rest ∧ ¬ Numeral rest := by
  rw [parse_eq_iff]
  constructor
  · intro reads
    cases reads with
    | malformed class_ malformed => exact ⟨rfl, _, _, class_, rfl, malformed⟩
  · rintro ⟨rfl, c, rest, class_, rfl, malformed⟩
    exact .malformed class_ malformed

theorem parse_eq_none_iff :
    parse text = .ok none ↔
      text ≠ SymbolClass.threadLocalBase.beginning ∧
        ∀ c ≠ SymbolClass.threadLocalBase, ∀ rest, text ≠ c.beginning ++ String.ofList rest := by
  rw [parse_eq_iff]
  constructor
  · intro reads
    cases reads with
    | other base unlike =>
      refine ⟨base, fun c class_ rest same => unlike c class_ ?_⟩
      rw [same]
      exact c.beginning_isPrefix rest
  · rintro ⟨base, unlike⟩
    refine .other base fun c class_ begins => ?_
    obtain ⟨rest, same⟩ := SymbolClass.exists_eq_append begins
    exact unlike c class_ rest same

end Reading

theorem name_eq {c : SymbolClass} (class_ : c ≠ .threadLocalBase) (n : UInt32) :
    name c n = c.beginning ++ String.ofList (Nat.toDigits 10 n.toNat) := by
  have digits : toString n = String.ofList (Nat.toDigits 10 n.toNat) :=
    Nat.toString_eq_ofList_toDigits
  rw [← digits]
  cases c with
  | threadLocalBase => exact absurd rfl class_
  | boilerplate | host | constant => rfl

theorem parse_name {c : SymbolClass} (class_ : c ≠ .threadLocalBase) (n : UInt32) :
    parse (name c n) = if n.toNat < limit then .ok (some (c, n))
      else .error (.badPlaceholderOrdinal (name c n)) := by
  rw [name_eq class_]
  split
  · rename_i small
    exact (Reads.numbered class_ (numeral_toDigits_iff.mpr small)
      (Nat.ofDigitChars_toDigits (by decide) (by decide))).parse_eq
  · rename_i large
    exact (Reads.malformed class_ (mt numeral_toDigits_iff.mp large)).parse_eq

/-- The same name, or the same class and the same digits behind some zeros. -/
def ZerosApart (a b : String) : Prop :=
  a = b ∨ ∃ c ≠ SymbolClass.threadLocalBase, ∃ i j digits,
    a = c.beginning ++ String.ofList (List.replicate i '0' ++ digits) ∧
    b = c.beginning ++ String.ofList (List.replicate j '0' ++ digits)

/-- The shorter of two numerals of a number stands at the end of the longer one. -/
theorem exists_zeros {a b : List Char} (first : ∀ c ∈ a, c.isDigit = true)
    (second : ∀ c ∈ b, c.isDigit = true) (shorter : a.length ≤ b.length)
    (value : Nat.ofDigitChars 10 a 0 = Nat.ofDigitChars 10 b 0) :
    ∃ count, b = List.replicate count '0' ++ a := by
  refine ⟨b.length - a.length, (Text.eq_of_ofDigitChars_eq ?_ second ?_ ?_).symm⟩
  · intro c member
    rcases List.mem_append.mp member with zero | member
    · rw [List.eq_of_mem_replicate zero]
      decide
    · exact first c member
  · rw [List.length_append, List.length_replicate, Nat.sub_add_cancel shorter]
  · rw [Text.ofDigitChars_zeros, value]

theorem zerosApart_of_parse {a b : String} {p : SymbolClass × UInt32}
    (one : parse a = .ok (some p)) (other : parse b = .ok (some p)) : ZerosApart a b := by
  obtain ⟨c, n⟩ := p
  by_cases class_ : c = .threadLocalBase
  · subst class_
    exact .inl ((parse_eq_base_iff.mp one).1.trans (parse_eq_base_iff.mp other).1.symm)
  · obtain ⟨digits, rfl, numeral, value⟩ := (parse_eq_some_iff class_).mp one
    obtain ⟨digits', rfl, numeral', value'⟩ := (parse_eq_some_iff class_).mp other
    refine .inr ⟨c, class_, ?_⟩
    rcases Nat.le_total digits.length digits'.length with shorter | shorter
    · obtain ⟨count, rfl⟩ :=
        exists_zeros numeral.2.2 numeral'.2.2 shorter (value.trans value'.symm)
      exact ⟨0, count, digits, rfl, rfl⟩
    · obtain ⟨count, rfl⟩ :=
        exists_zeros numeral'.2.2 numeral.2.2 shorter (value'.trans value.symm)
      exact ⟨count, 0, digits', rfl, rfl⟩

/-- A name that begins like a class is read as a member of that class. -/
theorem parse_append_eq_some {c : SymbolClass} (class_ : c ≠ .threadLocalBase) {rest : List Char}
    {p : SymbolClass × UInt32} (h : parse (c.beginning ++ String.ofList rest) = .ok (some p)) :
    p.1 = c ∧ Nat.ofDigitChars 10 rest 0 = p.2.toNat := by
  by_cases numeral : Numeral rest
  · rw [(Reads.numbered class_ numeral numeral.toNat_word.symm).parse_eq] at h
    cases h
    exact ⟨rfl, numeral.toNat_word.symm⟩
  · rw [(Reads.malformed class_ numeral).parse_eq] at h
    cases h

theorem ZerosApart.eq_of_parse {a b : String} (apart : ZerosApart a b)
    {p q : SymbolClass × UInt32} (one : parse a = .ok (some p))
    (other : parse b = .ok (some q)) : p = q := by
  rcases apart with rfl | ⟨c, class_, i, j, digits, rfl, rfl⟩
  · cases one.symm.trans other
    rfl
  · obtain ⟨first, value⟩ := parse_append_eq_some class_ one
    obtain ⟨first', value'⟩ := parse_append_eq_some class_ other
    rw [Text.ofDigitChars_zeros] at value value'
    exact Prod.ext (first.trans first'.symm) (UInt32.toNat_inj.mp (value.symm.trans value'))

/-- Exactly the names of the convention are read, each as what it stands for. So the name made for
a number of at most eight digits is read back, and two placeholders are one exactly if their names
differ in leading zeros only. -/
theorem names_follow_convention :
    (∀ text c n, c ≠ SymbolClass.threadLocalBase →
      (parse text = .ok (some (c, n)) ↔ ∃ digits, text = c.beginning ++ String.ofList digits ∧
        Numeral digits ∧ Nat.ofDigitChars 10 digits 0 = n.toNat)) ∧
    (∀ text n, parse text = .ok (some (.threadLocalBase, n)) ↔
      text = SymbolClass.threadLocalBase.beginning ∧ n = 0) ∧
    (∀ text e, parse text = .error e ↔ e = .badPlaceholderOrdinal text ∧
      ∃ c rest, c ≠ SymbolClass.threadLocalBase ∧ text = c.beginning ++ String.ofList rest ∧
        ¬ Numeral rest) ∧
    (∀ text, parse text = .ok none ↔ text ≠ SymbolClass.threadLocalBase.beginning ∧
      ∀ c ≠ SymbolClass.threadLocalBase, ∀ rest, text ≠ c.beginning ++ String.ofList rest) ∧
    (∀ c n, c ≠ SymbolClass.threadLocalBase →
      parse (name c n) = if n.toNat < 10 ^ 8 then .ok (some (c, n))
        else .error (.badPlaceholderOrdinal (name c n))) ∧
    (∀ a b, (∃ p, parse a = .ok (some p) ∧ parse b = .ok (some p)) ↔
      (∃ p, parse a = .ok (some p)) ∧ (∃ q, parse b = .ok (some q)) ∧ ZerosApart a b) := by
  refine ⟨fun _ _ _ => parse_eq_some_iff, fun _ _ => parse_eq_base_iff,
    fun _ _ => parse_eq_error_iff, fun _ => parse_eq_none_iff,
    fun _ n class_ => parse_name class_ n, fun a b => ⟨?_, ?_⟩⟩
  · rintro ⟨p, one, other⟩
    exact ⟨⟨p, one⟩, ⟨p, other⟩, zerosApart_of_parse one other⟩
  · rintro ⟨⟨p, one⟩, ⟨q, other⟩, apart⟩
    exact ⟨p, one, apart.eq_of_parse one other ▸ other⟩

theorem padded_host_name_is_read :
    SymbolClass.host ≠ .threadLocalBase ∧ SymbolClass.constant ≠ .threadLocalBase ∧
      parse "__patchwork_host_fn_00000042" = .ok (some (.host, 42)) ∧
      parse (name .host 42) = .ok (some (.host, 42)) ∧
      ZerosApart "__patchwork_host_fn_00000042" (name .host 42) ∧
      parse (name .constant 100000000) =
        .error (.badPlaceholderOrdinal "__patchwork_const_100000000") := by
  obtain ⟨numbered, _, _, _, named, same⟩ := names_follow_convention
  have padded : parse "__patchwork_host_fn_00000042" = .ok (some (.host, 42)) :=
    (numbered _ .host 42 (by decide)).mpr
      ⟨"00000042".toList, by decide, ⟨by decide, by decide, List.all_eq_true.mp (by decide)⟩,
        by decide⟩
  have plain : parse (name .host 42) = .ok (some (.host, 42)) := named .host 42 (by decide)
  obtain ⟨_, _, apart⟩ := (same _ _).mp ⟨_, padded, plain⟩
  exact ⟨by decide, by decide, padded, plain, apart, named .constant 100000000 (by decide)⟩

end Placeholder

end CopyPatch
