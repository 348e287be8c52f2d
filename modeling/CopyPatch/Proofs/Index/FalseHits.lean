import CopyPatch.Blueprint
import CopyPatch.Proofs.Index.Construction
import CopyPatch.Random.Keystream
import Mathlib.Data.Finite.Prod
import Mathlib.Data.Fintype.EquivFin

/-! What an index answers for parameters that were never registered. A slot keeps a fingerprint and
not its tuple, so parameters whose fingerprint is that of a registered tuple are taken for it when
they also share its slot. With two or more axes every registered tuple has such doubles. -/
namespace CopyPatch

namespace Index

open Placement

/-- Every tuple of an index that is given out has been placed. -/
theorem Search.Gives.few {σ : Type} {s : Search σ} {index : Index} (given : s.Gives index) :
    s.tuples.size < 2 ^ 32 := by
  by_contra many
  obtain ⟨board, placed, slots⟩ := given.board
  have inside : s.tuples.size - 1 < s.tuples.size := by omega
  -- The last tuple passed the verification, so a slot carries its fingerprint.
  have one := verify_eq_ok_iff.mp given.verified _ _
    (List.getElem?_eq_getElem (l := s.tuples.toList) (i := s.tuples.size - 1)
      (by simpa using inside))
  rw [Array.getElem_toList] at one
  obtain ⟨a, b, slot, _, only, _⟩ := verifyOne_eq_ok one
  have member : slot ∈ index.matchesOf s.tuples[s.tuples.size - 1] a b :=
    only ▸ List.mem_singleton_self slot
  obtain ⟨position, _, seat, print⟩ := mem_matchesOf.mp member
  rw [slots] at seat
  have sized : (slotsOf s.tuples index.h3 board).size = slotCount s.tuples.size :=
    size_slotsOf board
  have onBoard : position < slotCount s.tuples.size :=
    sized ▸ (Array.getElem?_eq_some_iff.mp seat).1
  rw [getElem?_slotsOf board ⟨position, onBoard⟩] at seat
  cases seat
  have here := (slotFor_fingerprint_iff given.usable _ inside).mp print
  have counted := ((place_counted placed).home _ _ here).1
  simp only at counted
  omega

theorem Search.Gives.laid {σ : Type} {s : Search σ} {index : Index} (given : s.Gives index) :
    Laid s.arity s.tuples index := by
  obtain ⟨board, placed, slots⟩ := given.board
  exact ⟨given.length1, given.usable, board, place_settled given.few placed, slots⟩

/-- Whether an ordinal sits in a slot. -/
def Seats (index : Index) (ordinal : UInt32) (position : Nat) : Prop :=
  ∃ slot, index.slots[position]? = some slot ∧ slot.isVacant = false ∧ slot.ordinal = ordinal

/-- Parameters that an index cannot tell from the tuple with an ordinal: they have its fingerprint,
and the slot it sits in is one of their two. -/
def Doubles (index : Index) (t : Tuple) (ordinal : UInt32) (params : Tuple) : Prop :=
  index.fingerprint params = index.fingerprint t ∧
    ∃ a b, index.candidates params = .ok (a, b) ∧ (index.Seats ordinal a ∨ index.Seats ordinal b)

namespace Laid

variable {arity : Nat} {tuples : Array Tuple} {index : Index}

/-- The slot an ordinal sits in carries the fingerprint of its tuple. -/
theorem match?_of_seats (laid : Laid arity tuples index) (few : tuples.size < 2 ^ 32) {i : Nat}
    (inside : i < tuples.size) {position : Nat}
    (seats : index.Seats (UInt32.ofNat i) position) :
    index.match? (index.fingerprint tuples[i]) position = some (UInt32.ofNat i) := by
  obtain ⟨slot, hslot, taken, ordinal⟩ := seats
  refine match?_eq_some.mpr ⟨slot, hslot, ?_, ordinal⟩
  rcases laid.slot_cases hslot with rfl | ⟨k, rfl⟩
  · cases taken
  · have same : k.val = i := by
      have read := congrArg UInt32.toNat ordinal
      rwa [toNat_ordinal few k, UInt32.toNat_ofNat_of_lt' (Nat.lt_trans inside few)] at read
    subst same
    rfl

/-- A lookup finds an ordinal exactly for the doubles of its tuple. -/
theorem lookup_eq_some_iff (laid : Laid arity tuples index) (few : tuples.size < 2 ^ 32)
    (params : Tuple) {i : Nat} (inside : i < tuples.size) :
    index.lookup params = some (UInt32.ofNat i) ↔
      params.length = arity ∧ index.Doubles tuples[i] (UInt32.ofNat i) params := by
  have marked := (fingerprintsUsable_apart laid.usable).1 i inside
  constructor
  · intro found
    obtain ⟨length, _, print, position, candidate, seat⟩ := laid.lookup_eq_some few found
    simp only [UInt32.toNat_ofNat_of_lt' (Nat.lt_trans inside few)] at print
    have seats : index.Seats (UInt32.ofNat i) position := by
      refine ⟨_, seat, ?_, rfl⟩
      rw [Slot.isVacant, print]
      exact beq_eq_false_iff_ne.mpr marked
    refine ⟨length, print, _, _, laid.candidates_eq params, ?_⟩
    rcases candidate with rfl | rfl
    · exact Or.inl seats
    · exact Or.inr seats
  · rintro ⟨length, print, a, b, candidates, seats⟩
    have unmarked : index.fingerprint params ≠ Slot.vacantMark := print ▸ marked
    have fits : params.length = index.arity := length.trans laid.length.symm
    unfold lookup
    rw [if_neg (not_not.mpr fits), if_neg unmarked, candidates, print]
    simp only
    rcases seats with first | second
    · rw [laid.match?_of_seats few inside first]
      rfl
    · have there := laid.match?_of_seats few inside second
      cases first : index.match? (index.fingerprint tuples[i]) a with
      | none => exact there
      | some j =>
        -- Only one slot carries the fingerprint, so both candidates are that slot.
        obtain ⟨seat, _, _, only⟩ := laid.seat inside
        obtain ⟨slot, hslot, hprint, _⟩ := match?_eq_some.mp first
        obtain ⟨other, hother, hprint', _⟩ := match?_eq_some.mp there
        have same : a = b := (only a slot hslot hprint).trans (only b other hother hprint').symm
        rw [← first, same, there]
        rfl

end Laid

theorem dot_cons (c : UInt32) (cs : List UInt32) (v : UInt64) (vs : Tuple) :
    dot (c :: cs) (v :: vs) = c.toUInt64 * v + dot cs vs := by
  have shift : ∀ (pairs : List (UInt32 × UInt64)) (start : UInt64),
      pairs.foldl (fun acc pair => acc + pair.1.toUInt64 * pair.2) start =
        start + pairs.foldl (fun acc pair => acc + pair.1.toUInt64 * pair.2) 0 := by
    intro pairs
    induction pairs with
    | nil => intro start; simp
    | cons pair rest ih =>
      intro start
      rw [List.foldl_cons, List.foldl_cons, ih, ih (0 + _)]
      grind
  have unfolded := shift (cs.zip vs) (0 + c.toUInt64 * v)
  rw [UInt64.zero_add] at unfolded
  simpa [dot] using unfolded

/-- Another word with the same remainder. -/
theorem exists_same_remainder {size : Nat} (small : 2 * size ≤ 2 ^ 64) (positive : 0 < size)
    (word : UInt64) : ∃ other, other ≠ word ∧ other.toNat % size = word.toNat % size := by
  have bound := word.toNat_lt
  have apart : ∃ n, n < 2 ^ 64 ∧ n ≠ word.toNat ∧ n % size = word.toNat % size := by
    by_cases low : word.toNat < size
    · exact ⟨word.toNat + size, by omega, by omega, Nat.add_mod_right _ _⟩
    · refine ⟨word.toNat - size, by omega, by omega, ?_⟩
      rw [← Nat.add_mod_right, Nat.sub_add_cancel (Nat.le_of_not_lt low)]
  obtain ⟨n, fits, different, same⟩ := apart
  have read : (UInt64.ofNat n).toNat = n := UInt64.toNat_ofNat_of_lt' fits
  exact ⟨UInt64.ofNat n, fun equal => different (equal ▸ read.symm), by rw [read, same]⟩

/-- Two linear forms in two words, a slot under the first and a fingerprint from the second, never
tell all pairs of words apart. -/
theorem exists_same_print_and_slot {size : Nat} (small : 2 * size ≤ 2 ^ 64) (positive : 0 < size)
    (a b c d slotRest : UInt64) (x y : UInt64) : ∃ u v, (u, v) ≠ (x, y) ∧
      c * u + d * v = c * x + d * y ∧
      (a * u + b * v + slotRest).toNat % size = (a * x + b * y + slotRest).toNat % size := by
  let forms : UInt64 × UInt64 → UInt64 × UInt64 := fun p =>
    (a * p.1 + b * p.2, c * p.1 + d * p.2)
  have finite : Finite UInt64 := .of_injective UInt64.toFin fun _ _ => UInt64.toFin_inj.mp
  by_cases injective : Function.Injective forms
  -- forms that determine the words take any values: the fingerprint stays, the slot is met again
  · obtain ⟨other, different, same⟩ :=
      exists_same_remainder small positive (a * x + b * y + slotRest)
    obtain ⟨⟨u, v⟩, chosen⟩ := (Finite.injective_iff_surjective.mp injective)
      (other - slotRest, c * x + d * y)
    obtain ⟨slot, print⟩ := Prod.mk.inj chosen
    have word : a * u + b * v + slotRest = other := by
      simp only at slot
      grind
    refine ⟨u, v, ?_, print, word ▸ same⟩
    intro equal
    obtain ⟨rfl, rfl⟩ := Prod.mk.inj equal
    exact different word.symm
  -- otherwise some change of the words shows in neither form
  · obtain ⟨p, q, same, different⟩ := Function.not_injective_iff.mp injective
    obtain ⟨slot, print⟩ := Prod.mk.inj same
    refine ⟨x + (p.1 - q.1), y + (p.2 - q.2), ?_, by grind, ?_⟩
    · intro equal
      obtain ⟨first, second⟩ := Prod.mk.inj equal
      exact different (Prod.ext (by grind) (by grind))
    · have word : a * (x + (p.1 - q.1)) + b * (y + (p.2 - q.2)) + slotRest =
          a * x + b * y + slotRest := by grind
      rw [word]

/-- A tuple of two or more values shares its fingerprint and its slot with another one. -/
theorem exists_other_tuple {h g : List UInt32} {t : Tuple} {size : Nat} (two : 2 ≤ t.length)
    (hlength : h.length = t.length) (glength : g.length = t.length)
    (small : 2 * size ≤ 2 ^ 64) (positive : 0 < size) :
    ∃ params : Tuple, params.length = t.length ∧ params ≠ t ∧ dot g params = dot g t ∧
      slotOf h params size = slotOf h t size := by
  match t, h, g, two, hlength, glength with
  | x :: y :: rest, a :: b :: hs, c :: d :: gs, _, _, _ =>
    obtain ⟨u, v, different, print, slot⟩ := exists_same_print_and_slot small positive
      a.toUInt64 b.toUInt64 c.toUInt64 d.toUInt64 (dot hs rest) x y
    refine ⟨u :: v :: rest, rfl, ?_, ?_, ?_⟩
    · intro same
      obtain ⟨rfl, later⟩ := List.cons.inj same
      exact different (by rw [(List.cons.inj later).1])
    · simp only [dot_cons, ← UInt64.add_assoc, print]
    · simpa only [slotOf, dot_cons, ← UInt64.add_assoc] using slot

theorem nextPrimeWithin_le (fuel n : Nat) : nextPrimeWithin fuel n ≤ n + fuel := by
  induction fuel generalizing n with
  | zero => exact Nat.le_refl n
  | succ fuel ih =>
    simp only [nextPrimeWithin]
    split
    · exact Nat.le_add_right n _
    · have := ih (n + 1)
      omega

theorem slotCount_le (n : Nat) : slotCount n ≤ 5 * n + 12 := by
  have := nextPrimeWithin_le (max ((5 * n + 1) / 2) minTableSize + 1)
    (max ((5 * n + 1) / 2) minTableSize)
  simp only [slotCount, nextPrime, minTableSize] at *
  omega

/-- With two or more axes a registered tuple has doubles, and none of them is registered. -/
theorem Search.Gives.exists_double {σ : Type} {s : Search σ} {index : Index}
    (given : s.Gives index) (two : 2 ≤ s.arity) {i : Nat} (inside : i < s.tuples.size)
    (length : s.tuples[i].length = s.arity) :
    ∃ params : Tuple, params.length = s.arity ∧ params ∉ s.tuples ∧
      index.Doubles s.tuples[i] (UInt32.ofNat i) params := by
  have positive := slotCount_pos s.tuples.size
  have small : 2 * slotCount s.tuples.size ≤ 2 ^ 64 := by
    have := slotCount_le s.tuples.size
    have := given.few
    omega
  obtain ⟨marked, injective⟩ := fingerprintsUsable_apart given.usable
  obtain ⟨seat, home, occupied, _⟩ := given.laid.seat inside
  have seats : index.Seats (UInt32.ofNat i) seat := by
    refine ⟨_, occupied, ?_, rfl⟩
    exact beq_eq_false_iff_ne.mpr (marked i inside)
  -- Doubles are looked for under the vector that leads the tuple to its seat.
  have double : ∀ h : List UInt32, h.length = s.arity →
      (h = index.h1 ∨ h = index.h2) → seat = slotOf h s.tuples[i] (slotCount s.tuples.size) →
      ∃ params : Tuple, params.length = s.arity ∧ params ≠ s.tuples[i] ∧
        index.Doubles s.tuples[i] (UInt32.ofNat i) params := by
    intro h hlength vector there
    obtain ⟨params, same, different, print, slot⟩ := exists_other_tuple (length ▸ two)
      (hlength.trans length.symm) (given.length3.trans length.symm) small positive
    refine ⟨params, same.trans length, different, print, _, _, given.laid.candidates_eq params, ?_⟩
    rcases vector with rfl | rfl
    · exact Or.inl (slot ▸ there ▸ seats)
    · exact Or.inr (slot ▸ there ▸ seats)
  have found : ∃ params : Tuple, params.length = s.arity ∧ params ≠ s.tuples[i] ∧
      index.Doubles s.tuples[i] (UInt32.ofNat i) params := by
    rcases home with first | second
    · exact double index.h1 given.length1 (Or.inl rfl) first
    · exact double index.h2 given.length2 (Or.inr rfl) second
  obtain ⟨params, length, different, doubles⟩ := found
  refine ⟨params, length, ?_, doubles⟩
  intro registered
  obtain ⟨k, within, rfl⟩ := Array.mem_iff_getElem.mp registered
  have same := injective k i within inside doubles.1
  subst same
  exact different rfl

/-- A lookup in an index that was given out finds an ordinal exactly for the doubles of its
tuple. -/
theorem Search.Gives.lookup_iff {σ : Type} {s : Search σ} {index : Index} (given : s.Gives index)
    (params : Tuple) (j : UInt32) : index.lookup params = some j ↔
      params.length = s.arity ∧ ∃ t, s.tuples[j.toNat]? = some t ∧ index.Doubles t j params := by
  have exact_there : ∀ inside : j.toNat < s.tuples.size, index.lookup params = some j ↔
      params.length = s.arity ∧ index.Doubles s.tuples[j.toNat] j params := by
    intro inside
    have found := given.laid.lookup_eq_some_iff given.few params inside
    rwa [UInt32.ofNat_toNat] at found
  constructor
  · intro found
    obtain ⟨_, inside, _⟩ := given.laid.lookup_eq_some given.few found
    obtain ⟨length, doubles⟩ := (exact_there inside).mp found
    exact ⟨length, _, Array.getElem?_eq_getElem inside, doubles⟩
  · rintro ⟨length, t, registered, doubles⟩
    obtain ⟨inside, rfl⟩ := Array.getElem?_eq_some_iff.mp registered
    exact (exact_there inside).mpr ⟨length, doubles⟩

end Index

namespace Family

theorem select_of_lookup {f : Family} {params : Tuple} {j : UInt32} {b : Blueprint}
    (found : f.index.lookup params = some j) (variant : f.variants[j.toNat]? = some b) :
    f.select params = .ok b := by
  simp [select, find?, found, variant]

/-- With a blueprint for every ordinal that is found, a selection misses exactly where a lookup
does. -/
theorem select_misses_iff {f : Family} {params : Tuple}
    (served : ∀ j, f.index.lookup params = some j → j.toNat < f.variants.length) :
    f.select params = .error (.noVariant f.name params) ↔ f.index.lookup params = none := by
  cases found : f.index.lookup params with
  | none => simp [select, find?, found]
  | some j =>
    have variant := List.getElem?_eq_getElem (served j found)
    rw [select_of_lookup found variant]
    simp

end Family

namespace Index

/-- For every source of words, the index that construction gives finds an ordinal exactly for the
doubles of its tuple, registered or not, and a selection misses exactly for parameters that are no
double. With two or more axes every registered tuple has doubles that were never registered, for
which a selection gives the blueprint of that tuple. -/
theorem build_finds_exactly_doubles {σ : Type} {family : String} {arity : Nat}
    {tuples : List Tuple} {next : σ → UInt32 × σ} {source : σ} {index : Index}
    (lengths : ∀ t ∈ tuples, t.length = arity)
    (built : build family arity tuples next source = .ok index) :
    (∀ params j, index.lookup params = some j ↔
      params.length = arity ∧ ∃ t, tuples[j.toNat]? = some t ∧ index.Doubles t j params) ∧
    (∀ (f : Family) (params : Tuple), f.index = index → f.variants.length = tuples.length →
      (f.select params = .error (.noVariant f.name params) ↔
        ¬ (params.length = arity ∧
          ∃ j t, tuples[j.toNat]? = some t ∧ index.Doubles t j params))) ∧
    (2 ≤ arity → ∀ i t, tuples[i]? = some t →
      ∃ params, params.length = arity ∧ params ∉ tuples ∧
        (index.lookup params).map UInt32.toNat = some i ∧
        ∀ f : Family, f.index = index → f.variants.length = tuples.length →
          ∃ b, f.variants[i]? = some b ∧ f.select params = .ok b) := by
  have given := Search.slots_gives _ built
  have found_iff : ∀ params j, index.lookup params = some j ↔
      params.length = arity ∧ ∃ t, tuples[j.toNat]? = some t ∧ index.Doubles t j params := by
    intro params j
    simpa using given.lookup_iff params j
  have served : ∀ params j, index.lookup params = some j → j.toNat < tuples.length := by
    intro params j found
    obtain ⟨_, t, registered, _⟩ := (found_iff params j).mp found
    exact (List.getElem?_eq_some_iff.mp registered).1
  refine ⟨found_iff, ?_, ?_⟩
  · rintro f params rfl variants
    rw [Family.select_misses_iff fun j found => variants ▸ served params j found,
      Option.eq_none_iff_forall_ne_some]
    simp only [ne_eq, found_iff]
    grind
  · intro two i t registered
    obtain ⟨inside, rfl⟩ := List.getElem?_eq_some_iff.mp registered
    obtain ⟨params, length, unregistered, doubles⟩ := given.exists_double two
      (i := i) (by simpa using inside) (by simpa using lengths _ (List.getElem_mem inside))
    have ordinal : (UInt32.ofNat i).toNat = i :=
      UInt32.toNat_ofNat_of_lt' (Nat.lt_trans inside given.few)
    have found : index.lookup params = some (UInt32.ofNat i) :=
      (found_iff params _).mpr ⟨length, _, by rw [ordinal]; exact registered, doubles⟩
    refine ⟨params, length, by simpa using unregistered, by rw [found, Option.map_some, ordinal],
      ?_⟩
    rintro f rfl variants
    have within : i < f.variants.length := by rw [variants]; exact inside
    have variant := List.getElem?_eq_getElem within
    exact ⟨_, variant, Family.select_of_lookup found (by rw [ordinal]; exact variant)⟩

/-- Two tuples on two axes and the words 1, 2, 3 and so on: parameters that were never registered
are found in the place of the second. -/
theorem build_finds_double_of_second :
    ∃ index params, build "f" 2 [[0, 0], [5, 3]] (fun n : Nat => (UInt32.ofNat n, n + 1)) 1 =
        .ok index ∧
      params ∉ [[0, 0], [5, 3]] ∧ (index.lookup params).map UInt32.toNat = some 1 := by
  have answered : (build "f" 2 [[0, 0], [5, 3]] (fun n : Nat => (UInt32.ofNat n, n + 1))
      1).toOption.isSome = true := by decide +kernel
  obtain ⟨index, built⟩ := Option.isSome_iff_exists.mp answered
  rw [Outcome.toOption_eq_some] at built
  obtain ⟨_, _, doubles⟩ := build_finds_exactly_doubles (by decide) built
  obtain ⟨params, _, unregistered, found, _⟩ := doubles (by decide) 1 [5, 3] rfl
  exact ⟨index, params, built, unregistered, found⟩

/-- Eight axes with values below eight and one registered tuple: other values from the same axes
are found in its place, and a selection for them gives its blueprint. -/
theorem unregistered_tuple_is_selected :
    ∃ index, build "f" 8 [[0, 0, 0, 4, 0, 0, 0, 4]] Keystream.next (Keystream.ofSeed 18) =
        .ok index ∧
      [2, 7, 2, 0, 3, 4, 0, 0] ∉ [[0, 0, 0, 4, 0, 0, 0, 4]] ∧
      index.lookup [2, 7, 2, 0, 3, 4, 0, 0] = some 0 ∧
      ∀ f : Family, f.index = index → ∀ b, f.variants = [b] →
        f.select [2, 7, 2, 0, 3, 4, 0, 0] = .ok b := by
  have answered : (build "f" 8 [[0, 0, 0, 4, 0, 0, 0, 4]] Keystream.next
      (Keystream.ofSeed 18)).toOption.map (·.lookup [2, 7, 2, 0, 3, 4, 0, 0]) =
        some (some 0) := by decide +kernel
  obtain ⟨index, built, found⟩ := Option.map_eq_some_iff.mp answered
  refine ⟨index, Outcome.toOption_eq_some.mp built, by decide, found, ?_⟩
  rintro f rfl b variants
  exact Family.select_of_lookup found (by rw [variants]; rfl)

end Index

end CopyPatch
