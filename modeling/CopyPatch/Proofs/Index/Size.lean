import CopyPatch.Index.Size
import Mathlib.Algebra.Order.Floor.Semiring
import Mathlib.Data.Rat.Floor
import Mathlib.NumberTheory.Bertrand
import Mathlib.NumberTheory.LucasPrimality
import Mathlib.Tactic.ReduceModChar

/-! The size of a table is the smallest prime that is large enough. Trial division decides
primality, and the search upward meets a prime before it runs out. In 64-bit words the same
search never leaves its word: below `(2 ^ 32 - 1) ^ 2` no square does, and one prime between
`2 ^ 63` and that bound ends every search that can begin. -/
namespace CopyPatch

theorem noDivisorFrom_eq_true {n d : Nat} :
    noDivisorFrom n d = true ↔ ∀ k, d ≤ k → k * k ≤ n → ¬ k ∣ n := by
  fun_induction noDivisorFrom n d with
  | case1 d fits divides =>
    simp only [Bool.false_eq_true, false_iff]
    intro each
    exact each d (Nat.le_refl d) fits (Nat.dvd_of_mod_eq_zero divides)
  | case2 d fits leaves ih =>
    rw [ih]
    constructor
    · intro above k from_ square
      rcases Nat.eq_or_lt_of_le from_ with rfl | later
      · exact fun divides => leaves (Nat.mod_eq_zero_of_dvd divides)
      · exact above k later square
    · exact fun each k from_ => each k (Nat.le_of_succ_le from_)
  | case3 d large =>
    simp only [true_iff]
    intro k from_ square
    exact absurd (Nat.le_trans (Nat.mul_le_mul from_ from_) square) large

/-- Trial division up to the square root decides primality. -/
theorem isPrime_eq_true {n : Nat} : isPrime n = true ↔ n.Prime := by
  rw [isPrime, Bool.and_eq_true, decide_eq_true_iff, noDivisorFrom_eq_true, Nat.prime_def_le_sqrt]
  simp only [Nat.le_sqrt]

/-- The search stops at the first prime if there is one within its reach. -/
theorem nextPrimeWithin_isLeast {fuel n p : Nat} (prime : p.Prime) (above : n ≤ p)
    (reached : p < n + fuel) : IsLeast {q | q.Prime ∧ n ≤ q} (nextPrimeWithin fuel n) := by
  induction fuel generalizing n with
  | zero => exact absurd reached (Nat.not_lt.mpr above)
  | succ fuel ih =>
    rw [nextPrimeWithin]
    by_cases found : isPrime n = true
    · rw [if_pos found]
      exact ⟨⟨isPrime_eq_true.mp found, Nat.le_refl n⟩, fun q hq => hq.2⟩
    · rw [if_neg found]
      have composite : ¬ n.Prime := fun h => found (isPrime_eq_true.mpr h)
      have later : ∀ q, q.Prime → n ≤ q → n + 1 ≤ q := by
        intro q hq from_
        refine Nat.lt_of_le_of_ne from_ ?_
        rintro rfl
        exact composite hq
      obtain ⟨⟨hprime, hfrom⟩, least⟩ := ih (later p prime above) (by omega)
      exact ⟨⟨hprime, Nat.le_of_succ_le hfrom⟩, fun q hq => least ⟨hq.1, later q hq.1 hq.2⟩⟩

theorem nextPrime_isLeast {n : Nat} (positive : n ≠ 0) :
    IsLeast {q | q.Prime ∧ n ≤ q} (nextPrime n) := by
  obtain ⟨p, prime, above, within⟩ := Nat.exists_prime_lt_and_le_two_mul n positive
  exact nextPrimeWithin_isLeast prime (Nat.le_of_lt above) (by omega)

theorem slotCount_isLeast (n : Nat) :
    IsLeast {p | p.Prime ∧ max ((5 * n + 1) / 2) minTableSize ≤ p} (slotCount n) :=
  nextPrime_isLeast (by simp only [minTableSize]; omega)

/-- Trial division of a number below takes no square that leaves its word. -/
def squareLimit : Nat := (2 ^ 32 - 1) * (2 ^ 32 - 1)

namespace Checked

theorem noDivisorFrom_of_lt {n d : Nat} (root : d < 2 ^ 32) :
    noDivisorFrom n d =
      if d * d ≤ n then if n % d = 0 then .ok false else noDivisorFrom n (d + 1) else .ok true := by
  have squared : mul 64 d d = .ok (d * d) := if_pos (Nat.mul_lt_mul'' root root)
  have stepped : add 64 d 1 = .ok (d + 1) := if_pos (by omega)
  rw [noDivisorFrom]
  split
  · rename_i left
    cases squared.symm.trans left
  · rename_i found
    cases squared.symm.trans found
    split
    · split
      · rfl
      · split
        · rename_i left
          cases stepped.symm.trans left
        · rename_i found
          cases stepped.symm.trans found
          rfl
    · rfl

theorem noDivisorFrom_eq {n d : Nat} (small : n < squareLimit) (root : d < 2 ^ 32) :
    noDivisorFrom n d = .ok (CopyPatch.noDivisorFrom n d) := by
  fun_induction CopyPatch.noDivisorFrom n d with
  | case1 d fits divides => rw [noDivisorFrom_of_lt root, if_pos fits, if_pos divides]
  | case2 d fits leaves ih =>
    -- the square of the last root is the limit itself
    have more : d < 2 ^ 32 - 1 := Nat.mul_self_lt_mul_self_iff.mp (Nat.lt_of_le_of_lt fits small)
    rw [noDivisorFrom_of_lt root, if_pos fits, if_neg leaves, ih (by omega)]
  | case3 d large => rw [noDivisorFrom_of_lt root, if_neg large]

theorem isPrime_eq {n : Nat} (small : n < squareLimit) : isPrime n = .ok (CopyPatch.isPrime n) := by
  rw [isPrime, CopyPatch.isPrime, noDivisorFrom_eq small (by decide)]
  split <;> rename_i size
  · rw [decide_eq_false (Nat.not_le.mpr size), Bool.false_and]
  · rw [decide_eq_true (Nat.not_lt.mp size), Bool.true_and]

/-- The search in words stops at the first prime if no square leaves its word before. -/
theorem nextPrime_eq {n p : Nat} (least : IsLeast {q | q.Prime ∧ n ≤ q} p)
    (small : p < squareLimit) : nextPrime n = .ok p := by
  have above : n ≤ p := least.1.2
  have tested : isPrime n = .ok (CopyPatch.isPrime n) := isPrime_eq (Nat.lt_of_le_of_lt above small)
  rcases Nat.eq_or_lt_of_le above with rfl | below
  · rw [nextPrime, tested, isPrime_eq_true.mpr least.1.1]
  · have composite : ¬ n.Prime := fun prime => Nat.not_le.mpr below (least.2 ⟨prime, Nat.le_refl n⟩)
    have stepped : add 64 n 1 = .ok (n + 1) := if_pos (by simp only [squareLimit] at small; omega)
    have later : nextPrime (n + 1) = .ok p :=
      nextPrime_eq ⟨⟨least.1.1, below⟩, fun q hq => least.2 ⟨hq.1, Nat.le_of_succ_le hq.2⟩⟩ small
    rw [nextPrime, tested, Bool.eq_false_iff.mpr fun found => composite (isPrime_eq_true.mp found)]
    dsimp only
    split
    · rename_i left
      cases stepped.symm.trans left
    · rename_i found
      cases stepped.symm.trans found
      exact later
termination_by p - n

end Checked

/-- A prime from which no search for a table size is far: it stands between `2 ^ 63` and
`squareLimit`. -/
theorem prime_27_mul_two_pow_59_add_one : Nat.Prime (27 * 2 ^ 59 + 1) := by
  have factors : ∀ q : Nat, q.Prime → q ∣ 27 * 2 ^ 59 + 1 - 1 → q = 2 ∨ q = 3 := by
    intro q prime divides
    rw [Nat.add_sub_cancel, show 27 = 3 ^ 3 from rfl] at divides
    rcases prime.dvd_mul.mp divides with three | two
    · have divides := prime.dvd_of_dvd_pow three
      exact Or.inr ((Nat.prime_dvd_prime_iff_eq prime Nat.prime_three).mp divides)
    · have divides := prime.dvd_of_dvd_pow two
      exact Or.inl ((Nat.prime_dvd_prime_iff_eq prime Nat.prime_two).mp divides)
  -- the powers of five run through all remainders but zero
  refine lucas_primality _ 5 ?_ fun q prime divides => ?_
  · norm_num
    reduce_mod_char
  · rcases factors q prime divides with rfl | rfl
    · norm_num
      reduce_mod_char
      decide
    · norm_num
      reduce_mod_char
      decide

theorem slotCount_lt {n : Nat} (fits : 5 * n < 2 ^ 64) : slotCount n < squareLimit := by
  have reached : slotCount n ≤ 27 * 2 ^ 59 + 1 := by
    refine (slotCount_isLeast n).2 ⟨prime_27_mul_two_pow_59_add_one, ?_⟩
    simp only [minTableSize]
    omega
  exact Nat.lt_of_le_of_lt reached (by decide)

theorem tableSize_eq {n : Nat} (fits : 5 * n < 2 ^ 64) : tableSize n = .ok (slotCount n) := by
  rw [tableSize, Checked.mul, if_pos fits]
  exact Checked.nextPrime_eq (slotCount_isLeast n) (slotCount_lt fits)

/-- As long as five times the number of tuples is a word, the size of their table is found without
leaving the word: the smallest prime that is at least five and at least `n / 0.4`. -/
theorem tableSize_is_smallest_prime {n : Nat} (fits : 5 * n ≤ 2 ^ 64 - 1) :
    ∃ size, tableSize n = .ok size ∧
      IsLeast {p | p.Prime ∧ max 5 ⌈(5 * n : ℚ) / 2⌉₊ ≤ p} size := by
  refine ⟨slotCount n, tableSize_eq (by omega), ?_⟩
  have target : max 5 ⌈(5 * n : ℚ) / 2⌉₊ = max ((5 * n + 1) / 2) minTableSize := by
    refine eq_of_forall_ge_iff fun p => ?_
    have whole : (5 * n : ℚ) ≤ p * 2 ↔ 5 * n ≤ p * 2 := by exact_mod_cast Iff.rfl
    rw [max_le_iff, max_le_iff, Nat.ceil_le, div_le_iff₀ two_pos, whole, minTableSize]
    omega
  rw [target]
  exact slotCount_isLeast n

/-- The largest number of tuples that is admitted. -/
theorem tableSize_at_limit :
    5 * 3689348814741910323 = 2 ^ 64 - 1 ∧
      ∃ size, tableSize 3689348814741910323 = .ok size ∧
        IsLeast {p | p.Prime ∧ max 5 ⌈(5 * (3689348814741910323 : ℕ) : ℚ) / 2⌉₊ ≤ p} size :=
  ⟨by decide, tableSize_is_smallest_prime (by decide)⟩

end CopyPatch
