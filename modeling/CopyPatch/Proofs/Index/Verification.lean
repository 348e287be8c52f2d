import CopyPatch.Proofs.Index.Construction

/-! What verification says about an index, however the index came about. An index passes exactly if
each tuple is seated: one of its two slots, and no more than one, carries its fingerprint, and holds
its position. A lookup then finds the position, unless the fingerprint is the mark of a vacant slot:
verification takes a slot with that mark for a seat, and a lookup does not. -/
namespace CopyPatch.Index

variable {index : Index} {family : String} {t : Tuple}

/-- A tuple sits under an ordinal in one of its two slots, and in that slot only. -/
def Seated (index : Index) (ordinal : Nat) (t : Tuple) : Prop :=
  ∃ slot, index.SoleMatch t (slotOf index.h1 t index.slots.size)
    (slotOf index.h2 t index.slots.size) slot ∧ slot.ordinal.toNat = ordinal

theorem candidates_of_pos (filled : 0 < index.slots.size) (t : Tuple) :
    index.candidates t =
      .ok (slotOf index.h1 t index.slots.size, slotOf index.h2 t index.slots.size) := by
  rw [candidates, if_neg (Nat.ne_of_gt filled)]

theorem verifyOne_eq_ok_iff (filled : 0 < index.slots.size) {ordinal : Nat} :
    index.verifyOne family ordinal t = .ok () ↔ index.Seated ordinal t := by
  have sole (slot : Slot) : index.matchesOf t (slotOf index.h1 t index.slots.size)
      (slotOf index.h2 t index.slots.size) = [slot] ↔ _ :=
    matchesOf_eq_singleton_iff (Nat.mod_lt _ filled) (Nat.mod_lt _ filled)
  constructor
  · intro verified
    obtain ⟨a, b, slot, candidates, only, own⟩ := verifyOne_eq_ok verified
    cases (candidates_of_pos filled t).symm.trans candidates
    exact ⟨slot, (sole slot).mp only, own⟩
  · rintro ⟨slot, alone, own⟩
    simp only [verifyOne, candidates_of_pos filled, Outcome.ofFaulting, Except.mapError, bind,
      Except.bind, (sole slot).mpr alone, own, if_true]
    rfl

theorem lookup_of_vacantMark (marked : index.fingerprint t = Slot.vacantMark) :
    index.lookup t = none := by
  rw [lookup, if_pos marked, ite_self]

/-- For every index with slots, made or read, and every list of tuples of its arity: the index is
verified exactly if each tuple is seated under its position, and a lookup then gives the position,
except that it finds nothing for a tuple whose fingerprint is the vacant mark. So in a verified
index all tuples are found exactly if none of them has that fingerprint. Construction sees to it;
verification does not. -/
theorem verified_lookup_eq (index : Index) (family : String) (arity : Nat) (tuples : List Tuple)
    (axes : index.h1.length = arity) (filled : 0 < index.slots.size)
    (lengths : ∀ t ∈ tuples, t.length = arity) :
    (index.verify family tuples = .ok () ↔
      ∀ i t, tuples[i]? = some t → index.Seated i t) ∧
    (index.verify family tuples = .ok () →
      (∀ i t, tuples[i]? = some t → (index.lookup t).map UInt32.toNat =
        if index.fingerprint t = Slot.vacantMark then none else some i) ∧
      ((∀ i t, tuples[i]? = some t → (index.lookup t).map UInt32.toNat = some i) ↔
        ∀ t ∈ tuples, index.fingerprint t ≠ Slot.vacantMark)) ∧
    ∀ (σ : Type) (next : σ → UInt32 × σ) (source : σ),
      build family arity tuples next source = .ok index →
        index.verify family tuples = .ok () ∧
          ∀ t ∈ tuples, index.fingerprint t ≠ Slot.vacantMark := by
  refine ⟨?_, fun verified => ?_, fun σ next source built => ?_⟩
  · rw [verify_eq_ok_iff]
    exact ⟨fun each i t found => (verifyOne_eq_ok_iff filled).mp (each i t found),
      fun each i t found => (verifyOne_eq_ok_iff filled).mpr (each i t found)⟩
  · have answers : ∀ i t, tuples[i]? = some t → (index.lookup t).map UInt32.toNat =
        if index.fingerprint t = Slot.vacantMark then none else some i := by
      intro i t found
      by_cases marked : index.fingerprint t = Slot.vacantMark
      · rw [if_pos marked, lookup_of_vacantMark marked]
        rfl
      · rw [if_neg marked]
        exact lookup_of_verifyOne (verify_eq_ok_iff.mp verified i t found)
          ((lengths t (List.mem_of_getElem? found)).trans axes.symm) marked
    refine ⟨answers, fun right t member marked => ?_, fun unmarked i t found => ?_⟩
    · obtain ⟨i, found⟩ := List.getElem?_of_mem member
      have answer := answers i t found
      rw [if_pos marked, right i t found] at answer
      cases answer
    · rw [answers i t found, if_neg (unmarked t (List.mem_of_getElem? found))]
  · have given := Search.slots_gives _ built
    refine ⟨given.verified, fun t member => ?_⟩
    obtain ⟨i, inside, rfl⟩ := List.getElem_of_mem member
    exact (fingerprintsUsable_apart given.usable).1 i inside

/-- Two slots, the second of which holds its ordinal under the vacant mark. -/
def markedIndex : Index := ⟨[1], [1], [1], #[⟨0, 0⟩, ⟨1, Slot.vacantMark⟩]⟩

/-- A verified index may have a tuple that no lookup finds. -/
theorem verified_index_misses_tuple :
    markedIndex.verify "f" [[0], [0xffffffffffffffff]] = .ok () ∧
      markedIndex.lookup [0xffffffffffffffff] = none := by
  decide

theorem marked_index_finds_first_only :
    markedIndex.Seated 1 [0xffffffffffffffff] ∧
      (markedIndex.lookup [0]).map UInt32.toNat = some 0 ∧
      ¬ ∀ i t, [[0], [0xffffffffffffffff]][i]? = some t →
        (markedIndex.lookup t).map UInt32.toNat = some i := by
  obtain ⟨exactly, answers, _⟩ := verified_lookup_eq markedIndex "f" 1 [[0], [0xffffffffffffffff]]
    rfl (by decide) (by decide)
  have verified : markedIndex.verify "f" [[0], [0xffffffffffffffff]] = .ok () := by decide
  obtain ⟨lookups, right⟩ := answers verified
  refine ⟨exactly.mp verified 1 _ rfl, lookups 0 _ rfl, fun all => ?_⟩
  exact right.mp all _ (List.mem_cons_of_mem _ List.mem_cons_self) rfl

end CopyPatch.Index
