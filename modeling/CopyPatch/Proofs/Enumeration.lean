import CopyPatch.Parameter.Enumeration
import CopyPatch.Proofs.Outcome
import Mathlib.Data.List.Nodup

/-! The walk over all tuples against a plain description of its result: the list of the tuples all
of whose nonempty prefixes are accepted, in the order of the axes' values. The provider is asked
along that list until it refuses. -/
namespace CopyPatch

/-- The tuples that extend `chosen` through the axes, every new prefix accepted. -/
def legalTuples (accepts : Tuple → Bool) : List Axis → Tuple → List Tuple
  | [], chosen => [chosen]
  | axis :: rest, chosen => axis.values.flatMap fun v =>
    if accepts (chosen ++ [v]) then legalTuples accepts rest (chosen ++ [v]) else []

namespace Enumeration

variable {ε α : Type}

/-- The numbers from `lo` up to but not including `hi`. -/
def interval (lo hi : UInt64) : List UInt64 :=
  (List.range' lo.toNat (hi.toNat - lo.toNat)).map UInt64.ofNat

theorem overList_refused (visit : UInt64 → Enumeration ε α → Enumeration ε α)
    (values : List UInt64) {walk : Enumeration ε α} (refused : walk.refusal.isSome = true) :
    overList visit values walk = walk := by
  cases values with
  | nil => rfl
  | cons v rest => simp [overList, refused]

theorem overList_append (visit : UInt64 → Enumeration ε α → Enumeration ε α)
    (first second : List UInt64) (walk : Enumeration ε α) :
    overList visit (first ++ second) walk =
      overList visit second (overList visit first walk) := by
  induction first generalizing walk with
  | nil => rfl
  | cons v rest ih =>
    by_cases refused : walk.refusal.isSome = true
    · rw [overList_refused visit _ refused, overList_refused visit _ refused,
        overList_refused visit _ refused]
    · simp only [List.cons_append, overList, refused, Bool.false_eq_true, if_false]
      exact ih (visit v walk)

theorem interval_split {lo mid hi : UInt64} (low : lo.toNat ≤ mid.toNat)
    (high : mid.toNat ≤ hi.toNat) : interval lo hi = interval lo mid ++ interval mid hi := by
  obtain ⟨below, hbelow⟩ := Nat.exists_eq_add_of_le low
  obtain ⟨above, habove⟩ := Nat.exists_eq_add_of_le high
  have first : mid.toNat - lo.toNat = below := by omega
  have second : hi.toNat - mid.toNat = above := by omega
  have whole : hi.toNat - lo.toNat = below + above := by omega
  rw [interval, interval, interval, first, second, whole, hbelow, ← List.map_append,
    List.range'_append_1]

/-- Halving the interval visits its numbers in order. -/
theorem overInterval_eq (visit : UInt64 → Enumeration ε α → Enumeration ε α) (lo hi : UInt64)
    (walk : Enumeration ε α) :
    overInterval visit lo hi walk = overList visit (interval lo hi) walk := by
  fun_induction overInterval visit lo hi walk with
  | case1 lo hi walk refused => exact (overList_refused visit _ refused).symm
  | case2 lo hi walk going wide ihLow ihHigh =>
    have between := mid_lt wide
    rw [ihHigh, ihLow, interval_split (Nat.le_of_lt between.1) (Nat.le_of_lt between.2),
      overList_append]
  | case3 lo hi walk going narrow less =>
    have one : hi.toNat - lo.toNat = 1 := by
      have := UInt64.lt_iff_toNat_lt.mp less
      omega
    simp [interval, one, overList, going]
  | case4 lo hi walk going narrow notLess =>
    have none : hi.toNat - lo.toNat = 0 := by
      have := mt UInt64.lt_iff_toNat_lt.mpr notLess
      omega
    simp [interval, none, overList]

theorem overAxis_eq (visit : UInt64 → Enumeration ε α → Enumeration ε α) (axis : Axis)
    (walk : Enumeration ε α) : overAxis visit axis walk = overList visit axis.values walk := by
  cases axis with
  | enum count =>
    simp only [overAxis, overInterval_eq, interval, Axis.values, UInt64.toNat_zero, Nat.sub_zero,
      List.range_eq_range']
  | bool => rfl
  | type domain => rfl

/-- Asking for some tuples in order, up to the first refusal. -/
def provided (provide : Tuple → Except ε α) (tuples : List Tuple) : Except ε (List (Tuple × α)) :=
  tuples.mapM fun t => (provide t).map (t, ·)

/-- A part of a walk that asks for the given tuples and adds what it finds. -/
def Asks (provide : Tuple → Except ε α) (part : Enumeration ε α → Enumeration ε α)
    (tuples : List Tuple) : Prop :=
  ∀ walk, walk.refusal = none →
    (part walk).outcome = (provided provide tuples).map (walk.found.toList ++ ·)

theorem outcome_eq_ok {walk : Enumeration ε α} {found : List (Tuple × α)}
    (h : walk.outcome = .ok found) : walk.refusal = none ∧ walk.found.toList = found := by
  unfold outcome at h
  split at h
  · cases h
  · rename_i none
    cases h
    exact ⟨none, rfl⟩

theorem outcome_eq_error {walk : Enumeration ε α} {cause : ε} (h : walk.outcome = .error cause) :
    walk.refusal = some cause := by
  unfold outcome at h
  split at h
  · rename_i refusal
    cases h
    exact refusal
  · cases h

theorem provided_append (provide : Tuple → Except ε α) (first second : List Tuple) :
    provided provide (first ++ second) =
      (provided provide first >>= fun found => (provided provide second).map (found ++ ·)) := by
  simp only [provided, List.mapM_append]
  rfl

theorem provided_eq_ok {provide : Tuple → Except ε α} {tuples : List Tuple}
    {found : List (Tuple × α)} :
    provided provide tuples = .ok found ↔
      found.map (·.1) = tuples ∧ ∀ entry ∈ found, provide entry.1 = .ok entry.2 := by
  rw [provided, Outcome.mapM_eq_ok]
  induction tuples generalizing found with
  | nil => cases found <;> simp
  | cons t rest ih =>
    cases found with
    | nil => simp
    | cons entry others =>
      rw [List.forall₂_cons, ih, Outcome.map_eq_ok, List.map_cons, List.cons.injEq,
        List.forall_mem_cons]
      constructor
      · rintro ⟨⟨value, given, rfl⟩, later, each⟩
        exact ⟨⟨rfl, later⟩, given, each⟩
      · rintro ⟨⟨rfl, later⟩, given, each⟩
        exact ⟨⟨entry.2, given, rfl⟩, later, each⟩

theorem asks_nothing (provide : Tuple → Except ε α) {part : Enumeration ε α → Enumeration ε α}
    (h : ∀ walk, (part walk).found = walk.found ∧ (part walk).refusal = walk.refusal) :
    Asks provide part [] := by
  intro walk going
  obtain ⟨found, refusal⟩ := h walk
  simp [outcome, refusal, going, found, provided, pure, Except.pure, Except.map]

theorem asks_one (provide : Tuple → Except ε α) (tuple : Tuple) :
    Asks provide (ask provide tuple) [tuple] := by
  intro walk going
  unfold ask
  cases hp : provide tuple with
  | ok value =>
    simp [outcome, going, provided, hp, pure, Except.pure, Except.map, bind, Except.bind]
  | error cause => simp [outcome, provided, hp, Except.map, bind, Except.bind]

theorem asks_overList (provide : Tuple → Except ε α)
    {visit : UInt64 → Enumeration ε α → Enumeration ε α} {tuples : UInt64 → List Tuple}
    (each : ∀ v, Asks provide (visit v) (tuples v)) (values : List UInt64) :
    Asks provide (overList visit values) (values.flatMap tuples) := by
  induction values with
  | nil => exact asks_nothing provide fun walk => ⟨rfl, rfl⟩
  | cons v rest ih =>
    intro walk going
    have first := each v walk going
    simp only [overList, going, Option.isSome_none, Bool.false_eq_true, if_false,
      List.flatMap_cons, provided_append]
    cases hv : provided provide (tuples v) with
    | error cause =>
      rw [hv] at first
      have refused := outcome_eq_error first
      rw [overList_refused visit rest (by rw [refused]; rfl)]
      exact first
    | ok found =>
      rw [hv] at first
      obtain ⟨still, sofar⟩ := outcome_eq_ok first
      rw [ih (visit v walk) still, sofar]
      cases provided provide (rest.flatMap tuples) with
      | error cause => rfl
      | ok more => simp [Except.map, bind, Except.bind]

theorem asks_extend (accepts : Tuple → Bool) (provide : Tuple → Except ε α) (axes : List Axis)
    (chosen : Tuple) :
    Asks provide (extend accepts provide axes chosen) (legalTuples accepts axes chosen) := by
  induction axes generalizing chosen with
  | nil => exact asks_one provide chosen
  | cons axis rest ih =>
    have each : ∀ v, Asks provide (fun walk =>
        if accepts (chosen ++ [v]) then
          extend accepts provide rest (chosen ++ [v]) (walk.test (chosen ++ [v]))
        else walk.test (chosen ++ [v]))
        (if accepts (chosen ++ [v]) then legalTuples accepts rest (chosen ++ [v]) else []) := by
      intro v
      split
      · intro walk going
        exact ih (chosen ++ [v]) (walk.test (chosen ++ [v])) going
      · exact asks_nothing provide fun walk => ⟨rfl, rfl⟩
    intro walk going
    simp only [extend, overAxis_eq]
    exact asks_overList provide each axis.values walk going

end Enumeration

/-- Well-formed axes give what the provider has for the legal tuples, in order, or its first
refusal. -/
theorem enumerate_outcome {ε α : Type} (axes : List Axis) (accepts : Tuple → Bool)
    (provide : Tuple → Except ε α) :
    (enumerate axes accepts provide).map Enumeration.outcome =
      (Axis.validate axes).map fun _ =>
        Enumeration.provided provide (legalTuples accepts axes []) := by
  unfold enumerate
  cases Axis.validate axes with
  | error cause => rfl
  | ok _ =>
    have walked := Enumeration.asks_extend accepts provide axes [] .start rfl
    refine congrArg Except.ok (walked.trans ?_)
    cases Enumeration.provided provide (legalTuples accepts axes []) <;> rfl

theorem prefix_of_mem_legalTuples {accepts : Tuple → Bool} {axes : List Axis} {chosen t : Tuple}
    (h : t ∈ legalTuples accepts axes chosen) : ∃ rest, t = chosen ++ rest ∧
      rest.length = axes.length := by
  induction axes generalizing chosen with
  | nil =>
    simp only [legalTuples, List.mem_singleton] at h
    exact ⟨[], by simp [h], rfl⟩
  | cons axis axes ih =>
    simp only [legalTuples, List.mem_flatMap] at h
    obtain ⟨v, _, hv⟩ := h
    split at hv
    · obtain ⟨rest, rfl, length⟩ := ih hv
      exact ⟨v :: rest, by simp, by simp [length]⟩
    · cases hv

theorem length_of_mem_legalTuples {accepts : Tuple → Bool} {axes : List Axis} {t : Tuple}
    (h : t ∈ legalTuples accepts axes []) : t.length = axes.length := by
  obtain ⟨rest, rfl, length⟩ := prefix_of_mem_legalTuples h
  simpa using length

theorem legalTuples_nodup {accepts : Tuple → Bool} {axes : List Axis} {chosen : Tuple}
    (distinct : ∀ axis ∈ axes, axis.values.Nodup) :
    (legalTuples accepts axes chosen).Nodup := by
  induction axes generalizing chosen with
  | nil => exact List.nodup_singleton chosen
  | cons axis axes ih =>
    have later : ∀ axis ∈ axes, axis.values.Nodup :=
      fun a ha => distinct a (List.mem_cons_of_mem axis ha)
    refine List.nodup_flatMap.mpr ⟨?_, ?_⟩
    · intro v _
      split
      · exact ih later
      · exact List.nodup_nil
    · -- Tuples for different values differ right behind the common prefix.
      refine (distinct axis List.mem_cons_self).imp ?_
      intro v w different t hv hw
      simp only at hv hw
      split at hv
      · split at hw
        · obtain ⟨r, rfl, _⟩ := prefix_of_mem_legalTuples hv
          obtain ⟨q, same, _⟩ := prefix_of_mem_legalTuples hw
          simp only [List.append_assoc, List.singleton_append, List.append_cancel_left_eq,
            List.cons.injEq] at same
          exact different same.1
        · cases hw
      · cases hv

theorem firstRepeat?_eq_none_iff {α : Type} [DecidableEq α] {earlier items : List α} :
    firstRepeat? earlier items = none ↔ items.Nodup ∧ ∀ a ∈ items, a ∉ earlier := by
  induction items generalizing earlier with
  | nil => simp [firstRepeat?]
  | cons a rest ih =>
    simp only [firstRepeat?, List.nodup_cons, List.forall_mem_cons]
    split
    · rename_i old
      simp [old]
    · rename_i new
      rw [ih]
      constructor
      · rintro ⟨distinct, apart⟩
        exact ⟨⟨fun member => apart a member List.mem_cons_self, distinct⟩, new,
          fun b hb old => apart b hb (List.mem_cons_of_mem a old)⟩
      · rintro ⟨⟨fresh, distinct⟩, _, apart⟩
        refine ⟨distinct, fun b hb old => ?_⟩
        rcases List.mem_cons.mp old with rfl | old
        · exact fresh hb
        · exact apart b hb old

namespace Axis

/-- The check from some position on accepts exactly axes of which no type axis follows another
kind, before or among them, or lists a member twice. -/
theorem validateFrom_eq_ok_iff {position : Nat} {free : Option Nat} {axes : List Axis} :
    validateFrom position free axes = .ok () ↔
      (free.isSome = true → ∀ axis ∈ axes, axis.isType = false) ∧
      axes.Pairwise (fun a b => b.isType = true → a.isType = true) ∧
      ∀ domain, Axis.type domain ∈ axes → domain.Nodup := by
  induction axes generalizing position free with
  | nil => simp [validateFrom]
  | cons axis rest ih =>
    have later : axis.isType = false →
        (validateFrom (position + 1) (some (free.getD position)) rest = .ok () ↔
          (free.isSome = true → ∀ a ∈ axis :: rest, a.isType = false) ∧
          (axis :: rest).Pairwise (fun a b => b.isType = true → a.isType = true) ∧
          ∀ domain, Axis.type domain ∈ axis :: rest → domain.Nodup) := by
      intro plain
      have other : ∀ domain, Axis.type domain ≠ axis := by
        rintro domain rfl
        cases plain
      rw [ih]
      simp only [List.pairwise_cons, List.mem_cons, forall_eq_or_imp, plain, other, false_or,
        Option.isSome_some, forall_const, true_and, Bool.false_eq_true, imp_false,
        Bool.not_eq_true]
      exact ⟨fun ⟨behind, ordered, distinct⟩ => ⟨fun _ => behind, ⟨behind, ordered⟩, distinct⟩,
        fun ⟨_, ⟨behind, ordered⟩, distinct⟩ => ⟨behind, ordered, distinct⟩⟩
    cases axis with
    | type domain =>
      cases free with
      | some first => simp [validateFrom, isType]
      | none =>
        cases repeated : firstRepeat? [] domain with
        | some t =>
          have twice : ¬ domain.Nodup := by
            intro distinct
            have none_twice : firstRepeat? [] domain = none :=
              firstRepeat?_eq_none_iff.mpr ⟨distinct, by simp⟩
            rw [repeated] at none_twice
            cases none_twice
          simp [validateFrom, repeated, twice]
        | none =>
          have distinct := (firstRepeat?_eq_none_iff.mp repeated).1
          simp [validateFrom, repeated, ih, isType, distinct]
    | bool => exact later rfl
    | enum count => exact later rfl

theorem encode_injective : Function.Injective TypeId.encode := by
  intro s t same
  have := congrArg TypeId.decode same
  rw [TypeId.decode_encode, TypeId.decode_encode] at this
  exact Option.some.inj this

/-- No value comes twice on a well-formed axis. -/
theorem values_nodup {axes : List Axis} (h : validate axes = .ok ()) {axis : Axis}
    (member : axis ∈ axes) : axis.values.Nodup := by
  cases axis with
  | type domain => exact ((validateFrom_eq_ok_iff.mp h).2.2 domain member).map encode_injective
  | bool => exact List.nodup_cons.mpr ⟨by decide, List.nodup_singleton 1⟩
  | enum count =>
    refine List.Nodup.map_on ?_ List.nodup_range
    intro a ha b hb same
    have bound := count.toNat_lt
    have := congrArg UInt64.toNat same
    rw [UInt64.toNat_ofNat_of_lt', UInt64.toNat_ofNat_of_lt'] at this
    · exact this
    · exact Nat.lt_trans (List.mem_range.mp hb) bound
    · exact Nat.lt_trans (List.mem_range.mp ha) bound

end Axis

end CopyPatch
