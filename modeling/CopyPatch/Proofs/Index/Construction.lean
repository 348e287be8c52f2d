import CopyPatch.Index.Build
import CopyPatch.Proofs.Index.Placement
import CopyPatch.Proofs.Index.Size
import CopyPatch.Proofs.Outcome

/-! What construction gives, whatever words are drawn: an index in which every tuple finds its own
position, or the report that all attempts are used up. The verification at the end of construction
never fails. -/
namespace CopyPatch

namespace Index

open Placement

variable {tuples : Array Tuple} {h3 : List UInt32} {size : Nat}

theorem length_draw {σ : Type} (next : σ → UInt32 × σ) (count : Nat) (source : σ) :
    (draw next count source).1.length = count := by
  induction count generalizing source with
  | zero => rfl
  | succ count ih => simp [draw, ih]

/-- Usable fingerprints tell the tuples apart, and from a vacant slot. -/
theorem fingerprintsUsable_apart (usable : fingerprintsUsable tuples h3 = true) :
    (∀ i (_ : i < tuples.size), dot h3 tuples[i] ≠ Slot.vacantMark) ∧
      ∀ i j (_ : i < tuples.size) (_ : j < tuples.size),
        dot h3 tuples[i] = dot h3 tuples[j] → i = j := by
  simp only [fingerprintsUsable, Bool.and_eq_true, List.all_eq_true, decide_eq_true_eq] at usable
  obtain ⟨marked, distinct⟩ := usable
  constructor
  · intro i inside
    refine marked _ ?_
    rw [Array.mem_toList_iff, Array.mem_map]
    exact ⟨tuples[i], Array.getElem_mem inside, rfl⟩
  · intro i j hi hj same
    have hi' : i < (tuples.map (dot h3)).toList.length := by simpa using hi
    have hj' : j < (tuples.map (dot h3)).toList.length := by simpa using hj
    have equal : (tuples.map (dot h3)).toList[i] = (tuples.map (dot h3)).toList[j] := by
      simpa using same
    exact distinct.getElem_inj_iff.mp equal

theorem toNat_ordinal (few : tuples.size < 2 ^ 32) (i : Fin tuples.size) :
    (slotFor tuples h3 (some i)).ordinal.toNat = i.val :=
  UInt32.toNat_ofNat_of_lt' (Nat.lt_trans i.isLt few)

section Slots

variable (usable : fingerprintsUsable tuples h3 = true)
include usable

/-- A slot carries a tuple's fingerprint exactly if the tuple sits in it. -/
theorem slotFor_fingerprint_iff (entry : Option (Fin tuples.size)) {i : Nat}
    (inside : i < tuples.size) :
    (slotFor tuples h3 entry).fingerprint = dot h3 tuples[i] ↔ entry = some ⟨i, inside⟩ := by
  obtain ⟨marked, injective⟩ := fingerprintsUsable_apart usable
  cases entry with
  | none =>
    constructor
    · intro h; exact False.elim (marked i inside h.symm)
    · intro h; cases h
  | some j =>
    constructor
    · intro h; exact congrArg some (Fin.ext (injective j i j.isLt inside h))
    · intro h; cases h; rfl

theorem slotFor_isVacant_iff (entry : Option (Fin tuples.size)) :
    (slotFor tuples h3 entry).isVacant = true ↔ entry = none := by
  obtain ⟨marked, _⟩ := fingerprintsUsable_apart usable
  cases entry with
  | none => simp [slotFor, Slot.isVacant, Slot.vacant]
  | some i => simpa [slotFor, Slot.isVacant] using marked i i.isLt

/-- The ordinals in the occupied slots are the entries of the board. -/
theorem ordinals_slotFor (few : tuples.size < 2 ^ 32) (entries : List (Option (Fin tuples.size))) :
    (((entries.map (slotFor tuples h3)).filter fun slot => !slot.isVacant).map fun slot =>
      slot.ordinal.toNat) = (entries.filterMap id).map Fin.val := by
  have occupied : ∀ entry, (!(slotFor tuples h3 entry).isVacant) = entry.isSome := by
    intro entry
    have := slotFor_isVacant_iff usable entry
    cases entry <;> simp_all
  induction entries with
  | nil => rfl
  | cons entry rest ih =>
    cases entry with
    | none => simp [occupied, ih]
    | some i => simp [occupied, ih, toNat_ordinal few i]

end Slots

theorem match?_eq_some {index : Index} {print : UInt64} {position : Nat} {j : UInt32} :
    index.match? print position = some j ↔
      ∃ slot, index.slots[position]? = some slot ∧ slot.fingerprint = print ∧ slot.ordinal = j := by
  unfold match?
  cases index.slots[position]? with
  | none => simp
  | some slot => simp [and_comm]

theorem mem_matchesOf {index : Index} {t : Tuple} {a b : Nat} {slot : Slot} :
    slot ∈ index.matchesOf t a b ↔ ∃ position, (position = a ∨ position = b) ∧
      index.slots[position]? = some slot ∧ slot.fingerprint = index.fingerprint t := by
  have listed : ∀ position, position ∈ (if b = a then [a] else [a, b]) ↔
      position = a ∨ position = b := by
    intro position
    split
    · rename_i same
      simp [same]
    · simp
  simp only [matchesOf, List.mem_filter, List.mem_filterMap, listed, decide_eq_true_eq]
  constructor
  · rintro ⟨⟨position, candidate, found⟩, print⟩
    exact ⟨position, candidate, found, print⟩
  · rintro ⟨position, candidate, found, print⟩
    exact ⟨⟨position, candidate, found⟩, print⟩

/-- A slot is the only one at two positions that carries the fingerprint of a tuple. -/
def SoleMatch (index : Index) (t : Tuple) (a b : Nat) (slot : Slot) : Prop :=
  ∃ seat, (seat = a ∨ seat = b) ∧ index.slots[seat]? = some slot ∧
    slot.fingerprint = index.fingerprint t ∧
    ∀ position other, (position = a ∨ position = b) → index.slots[position]? = some other →
      other.fingerprint = index.fingerprint t → position = seat

theorem matchesOf_eq_singleton_iff {index : Index} {t : Tuple} {a b : Nat} {slot : Slot}
    (insideA : a < index.slots.size) (insideB : b < index.slots.size) :
    index.matchesOf t a b = [slot] ↔ index.SoleMatch t a b slot := by
  obtain ⟨first, hfirst⟩ : ∃ first, index.slots[a]? = some first :=
    ⟨_, Array.getElem?_eq_getElem insideA⟩
  obtain ⟨second, hsecond⟩ : ∃ second, index.slots[b]? = some second :=
    ⟨_, Array.getElem?_eq_getElem insideB⟩
  constructor
  · intro only
    have member : slot ∈ index.matchesOf t a b := only ▸ List.mem_singleton_self slot
    obtain ⟨seat, candidate, hseat, print⟩ := mem_matchesOf.mp member
    refine ⟨seat, candidate, hseat, print, ?_⟩
    intro position other candidate' hother print'
    by_contra differs
    -- two positions would both be listed
    have distinct : b ≠ a := by
      rintro rfl
      exact differs ((or_self_iff.mp candidate').trans (or_self_iff.mp candidate).symm)
    have both : first.fingerprint = index.fingerprint t ∧
        second.fingerprint = index.fingerprint t := by
      rcases candidate with rfl | rfl <;> rcases candidate' with rfl | rfl <;> simp_all
    simp [matchesOf, distinct, hfirst, hsecond, both.1, both.2] at only
  · rintro ⟨seat, home, occupied, own, only⟩
    unfold matchesOf
    split
    · rename_i same
      have there : seat = a := home.elim id (fun h => h.trans same)
      subst there
      simp [occupied, own]
    · rename_i different
      rcases home with rfl | rfl
      · have other : second.fingerprint ≠ index.fingerprint t := by
          intro found
          exact different (only b second (Or.inr rfl) hsecond found)
        simp [occupied, hsecond, own, other]
      · have other : first.fingerprint ≠ index.fingerprint t := by
          intro found
          exact different (only a first (Or.inl rfl) hfirst found).symm
        simp [occupied, hfirst, own, other]

theorem verifyOne_eq_ok {index : Index} {family : String} {ordinal : Nat} {t : Tuple}
    (h : index.verifyOne family ordinal t = .ok ()) :
    ∃ a b slot, index.candidates t = .ok (a, b) ∧ index.matchesOf t a b = [slot] ∧
      slot.ordinal.toNat = ordinal := by
  obtain ⟨⟨a, b⟩, candidates, h⟩ := Outcome.bind_eq_ok.mp h
  simp only at h
  split at h
  · rename_i slot only
    split at h
    · rename_i own
      exact ⟨a, b, slot, Outcome.ofFaulting_eq_ok.mp candidates, only, own⟩
    · cases h
  · cases h
  · cases h

theorem verifyFrom_eq_ok_iff {index : Index} {family : String} {tuples : List Tuple} (start : Nat) :
    index.verifyFrom family start tuples = .ok () ↔
      ∀ i t, tuples[i]? = some t → index.verifyOne family (start + i) t = .ok () := by
  induction tuples generalizing start with
  | nil => simp [verifyFrom]
  | cons first rest ih =>
    have shifted (i : Nat) : start + (i + 1) = start + 1 + i := by omega
    rw [verifyFrom, Outcome.bind_eq_ok]
    constructor
    · rintro ⟨_, one, others⟩ i t found
      cases i with
      | zero =>
        cases found
        exact one
      | succ i =>
        rw [shifted]
        exact (ih (start + 1)).mp others i t found
    · intro each
      refine ⟨(), each 0 first rfl, (ih (start + 1)).mpr fun i t found => ?_⟩
      rw [← shifted]
      exact each (i + 1) t found

/-- Verification looks at each tuple alone. -/
theorem verify_eq_ok_iff {index : Index} {family : String} {tuples : List Tuple} :
    index.verify family tuples = .ok () ↔
      ∀ i t, tuples[i]? = some t → index.verifyOne family i t = .ok () := by
  rw [verify, verifyFrom_eq_ok_iff]
  simp only [Nat.zero_add]

/-- Verification is enough for a lookup to find the ordinal, unless the fingerprint is the vacant
mark. -/
theorem lookup_of_verifyOne {index : Index} {family : String} {ordinal : Nat} {t : Tuple}
    (h : index.verifyOne family ordinal t = .ok ()) (length : t.length = index.arity)
    (marked : index.fingerprint t ≠ Slot.vacantMark) :
    (index.lookup t).map UInt32.toNat = some ordinal := by
  obtain ⟨a, b, slot, candidates, only, own⟩ := verifyOne_eq_ok h
  have sole : ∀ position j, (position = a ∨ position = b) →
      index.match? (index.fingerprint t) position = some j → j = slot.ordinal := by
    intro position j candidate found
    obtain ⟨other, hother, print, rfl⟩ := match?_eq_some.mp found
    have listed := mem_matchesOf.mpr ⟨position, candidate, hother, print⟩
    rw [only, List.mem_singleton] at listed
    rw [listed]
  have member : slot ∈ index.matchesOf t a b := only ▸ List.mem_singleton_self slot
  obtain ⟨position, candidate, hslot, print⟩ := mem_matchesOf.mp member
  have hit := match?_eq_some.mpr ⟨slot, hslot, print, rfl⟩
  have found : index.lookup t = some slot.ordinal := by
    unfold lookup
    rw [if_neg (not_not.mpr length), if_neg marked, candidates]
    simp only
    cases first : index.match? (index.fingerprint t) a with
    | some j => exact congrArg some (sole a j (Or.inl rfl) first)
    | none =>
      rcases candidate with rfl | rfl
      · rw [first] at hit
        cases hit
      · exact hit
  rw [found, Option.map_some, own]

/-- An index whose slots are those of a board with every tuple on it, under fingerprints that tell
the tuples apart. -/
structure Laid (arity : Nat) (tuples : Array Tuple) (index : Index) : Prop where
  length : index.h1.length = arity
  usable : fingerprintsUsable tuples index.h3 = true
  board : ∃ board : Board tuples.size (slotCount tuples.size),
    Settled (choicesOf tuples index.h1 index.h2 (slotCount tuples.size) (slotCount_pos _))
      (fun _ => True) board ∧ index.slots = slotsOf tuples index.h3 board

theorem get_choicesOf (tuples : Array Tuple) (h1 h2 : List UInt32) (pos : 0 < size)
    (i : Fin tuples.size) :
    (choicesOf tuples h1 h2 size pos).get i =
      (⟨slotOf h1 tuples[i] size, Nat.mod_lt _ pos⟩,
        ⟨slotOf h2 tuples[i] size, Nat.mod_lt _ pos⟩) :=
  Vector.getElem_ofFn i.isLt

theorem size_slotsOf (board : Board tuples.size size) : (slotsOf tuples h3 board).size = size := by
  simp [slotsOf]

theorem getElem?_slotsOf (board : Board tuples.size size) (s : Fin size) :
    (slotsOf tuples h3 board)[s.val]? = some (slotFor tuples h3 (board.get s)) := by
  have inside : s.val < board.toArray.size := by simp
  simp only [slotsOf, Array.getElem?_map, Array.getElem?_eq_getElem inside, Option.map_some]
  rfl

namespace Laid

variable {arity : Nat} {index : Index}

theorem size_eq (laid : Laid arity tuples index) : index.slots.size = slotCount tuples.size := by
  obtain ⟨board, _, slots⟩ := laid.board
  rw [slots, size_slotsOf]

theorem candidates_eq (laid : Laid arity tuples index) (params : Tuple) :
    index.candidates params = .ok (slotOf index.h1 params (slotCount tuples.size),
      slotOf index.h2 params (slotCount tuples.size)) := by
  have positive := slotCount_pos tuples.size
  unfold candidates
  rw [laid.size_eq, if_neg (by omega)]

theorem slot_cases (laid : Laid arity tuples index) {position : Nat} {slot : Slot}
    (h : index.slots[position]? = some slot) :
    slot = Slot.vacant ∨ ∃ i : Fin tuples.size, slot = slotFor tuples index.h3 (some i) := by
  obtain ⟨board, _, slots⟩ := laid.board
  have inside : position < slotCount tuples.size := by
    rw [← laid.size_eq]
    exact (Array.getElem?_eq_some_iff.mp h).1
  rw [slots, getElem?_slotsOf board ⟨position, inside⟩] at h
  cases h
  cases board.get ⟨position, inside⟩ with
  | none => exact Or.inl rfl
  | some i => exact Or.inr ⟨i, rfl⟩

/-- A tuple sits in one of its two slots, and no other slot carries its fingerprint. -/
theorem seat (laid : Laid arity tuples index) {i : Nat} (inside : i < tuples.size) :
    ∃ seat, (seat = slotOf index.h1 tuples[i] (slotCount tuples.size) ∨
        seat = slotOf index.h2 tuples[i] (slotCount tuples.size)) ∧
      index.slots[seat]? = some (slotFor tuples index.h3 (some ⟨i, inside⟩)) ∧
      ∀ position slot, index.slots[position]? = some slot →
        slot.fingerprint = dot index.h3 tuples[i] → position = seat := by
  obtain ⟨board, settled, slots⟩ := laid.board
  obtain ⟨seat, hseat⟩ := settled.found ⟨i, inside⟩ trivial
  have home := (settled.home seat _ hseat).2
  simp only [Candidate, get_choicesOf, Fin.ext_iff] at home
  refine ⟨seat.val, home, ?_, ?_⟩
  · rw [slots, getElem?_slotsOf, hseat]
  · intro position slot hslot print
    have onBoard : position < slotCount tuples.size := by
      rw [← laid.size_eq]
      exact (Array.getElem?_eq_some_iff.mp hslot).1
    rw [slots, getElem?_slotsOf board ⟨position, onBoard⟩] at hslot
    cases hslot
    have here := (slotFor_fingerprint_iff laid.usable _ inside).mp print
    exact Fin.ext_iff.mp (settled.once ⟨position, onBoard⟩ seat _ here hseat)

theorem slotOf_lt (laid : Laid arity tuples index) (h : List UInt32) (params : Tuple) :
    slotOf h params (slotCount tuples.size) < index.slots.size := by
  rw [laid.size_eq]
  exact Nat.mod_lt _ (slotCount_pos _)

theorem matchesOf_eq (laid : Laid arity tuples index) {i : Nat} (inside : i < tuples.size) :
    index.matchesOf tuples[i] (slotOf index.h1 tuples[i] (slotCount tuples.size))
      (slotOf index.h2 tuples[i] (slotCount tuples.size)) =
      [slotFor tuples index.h3 (some ⟨i, inside⟩)] := by
  obtain ⟨seat, home, occupied, only⟩ := laid.seat inside
  refine (matchesOf_eq_singleton_iff (laid.slotOf_lt _ _) (laid.slotOf_lt _ _)).mpr ?_
  exact ⟨seat, home, occupied, rfl, fun position slot _ => only position slot⟩

theorem verifyOne_ok (laid : Laid arity tuples index) (few : tuples.size < 2 ^ 32)
    (family : String) {i : Nat} (inside : i < tuples.size) :
    index.verifyOne family i tuples[i] = .ok () := by
  unfold verifyOne
  rw [laid.candidates_eq]
  simp only [Outcome.ofFaulting, Except.mapError, bind, Except.bind, laid.matchesOf_eq inside,
    toNat_ordinal few ⟨i, inside⟩, if_true]
  rfl

/-- Every tuple passes the verification. -/
theorem verify_ok (laid : Laid arity tuples index) (few : tuples.size < 2 ^ 32)
    (family : String) : index.verify family tuples.toList = .ok () := by
  refine verify_eq_ok_iff.mpr fun i t found => ?_
  obtain ⟨inside, rfl⟩ := List.getElem?_eq_some_iff.mp found
  exact laid.verifyOne_ok few family (by simpa using inside)

/-- Lookup asks the two slots of a tuple of the right length, first the one and then the other. -/
theorem lookup_unfold (laid : Laid arity tuples index) (params : Tuple) :
    index.lookup params =
      if params.length ≠ arity then none
      else if index.fingerprint params = Slot.vacantMark then none
      else (index.match? (index.fingerprint params)
          (slotOf index.h1 params (slotCount tuples.size))).or
        (index.match? (index.fingerprint params)
          (slotOf index.h2 params (slotCount tuples.size))) := by
  unfold lookup
  rw [laid.candidates_eq, Index.arity, laid.length]

/-- Whatever a lookup finds is a registered ordinal whose tuple has the same fingerprint, in one of
the two slots of the tuple that was asked for. -/
theorem lookup_eq_some (laid : Laid arity tuples index) (few : tuples.size < 2 ^ 32)
    {params : Tuple} {j : UInt32} (h : index.lookup params = some j) :
    params.length = arity ∧ ∃ _ : j.toNat < tuples.size,
      index.fingerprint params = index.fingerprint tuples[j.toNat] ∧
      ∃ position, (position = slotOf index.h1 params (slotCount tuples.size) ∨
          position = slotOf index.h2 params (slotCount tuples.size)) ∧
        index.slots[position]? = some ⟨j, index.fingerprint params⟩ := by
  rw [laid.lookup_unfold] at h
  split at h
  · cases h
  · rename_i length
    split at h
    · cases h
    · rename_i marked
      have found : ∃ position, (position = slotOf index.h1 params (slotCount tuples.size) ∨
          position = slotOf index.h2 params (slotCount tuples.size)) ∧
          index.match? (index.fingerprint params) position = some j := by
        rcases Option.or_eq_some_iff.mp h with first | ⟨_, second⟩
        · exact ⟨_, Or.inl rfl, first⟩
        · exact ⟨_, Or.inr rfl, second⟩
      obtain ⟨position, candidate, hit⟩ := found
      obtain ⟨slot, hslot, print, rfl⟩ := match?_eq_some.mp hit
      refine ⟨not_not.mp length, ?_⟩
      rcases laid.slot_cases hslot with rfl | ⟨i, rfl⟩
      · exact False.elim (marked print.symm)
      · have ordinal : (slotFor tuples index.h3 (some i)).ordinal.toNat = i.val :=
          toNat_ordinal few i
        refine ⟨ordinal ▸ i.isLt, ?_, position, candidate, print ▸ hslot⟩
        simp only [ordinal]
        exact print.symm

/-- The occupied slots hold each ordinal once. -/
theorem ordinals_perm (laid : Laid arity tuples index) (few : tuples.size < 2 ^ 32) :
    ((index.slots.toList.filter fun slot => !slot.isVacant).map fun slot =>
      slot.ordinal.toNat).Perm (List.range tuples.size) := by
  obtain ⟨board, settled, slots⟩ := laid.board
  have read : ((index.slots.toList.filter fun slot => !slot.isVacant).map fun slot =>
      slot.ordinal.toNat) = (board.toList.filterMap id).map Fin.val := by
    rw [slots, slotsOf, Array.toList_map]
    exact ordinals_slotFor laid.usable few board.toList
  rw [read, ← List.map_coe_finRange_eq_range]
  exact settled.occupants_perm.map Fin.val

theorem occupied_eq (laid : Laid arity tuples index) (few : tuples.size < 2 ^ 32) :
    index.occupied = tuples.size := by
  have same := (laid.ordinals_perm few).length_eq
  rw [List.length_map, List.length_range] at same
  rw [← same, occupied, ← Array.length_toList, Array.toList_filter]

end Laid

namespace Search

variable {σ : Type}

/-- The attempts that the seats have used up count for the fingerprints too. -/
theorem fingerprints_answers (s : Search σ) (few : s.tuples.size < 2 ^ 32) {h1 h2 : List UInt32}
    (length : h1.length = s.arity) {board : Board s.tuples.size (slotCount s.tuples.size)}
    (settled : Settled (choicesOf s.tuples h1 h2 _ (slotCount_pos _)) (fun _ => True) board)
    (attempts : Nat) (source : σ) (within : attempts ≤ maxAttempts) :
    s.fingerprints h1 h2 board attempts source = s.exhausted maxAttempts ∨
      ∃ index, s.fingerprints h1 h2 board attempts source = .ok index ∧
        Laid s.arity s.tuples index := by
  fun_induction fingerprints s h1 h2 board attempts source with
  | case1 attempts source below h3 rest drawn usable index =>
    have laid : Laid s.arity s.tuples index := ⟨length, usable, board, settled, rfl⟩
    rw [laid.verify_ok few s.family]
    exact Or.inr ⟨index, rfl, laid⟩
  | case2 attempts source below h3 rest drawn unusable ih => exact ih (by omega)
  | case3 attempts source used =>
    have all : attempts = maxAttempts := by omega
    exact Or.inl (congrArg s.exhausted all)

theorem slots_answers (s : Search σ) (few : s.tuples.size < 2 ^ 32) (attempts : Nat) (source : σ)
    (within : attempts ≤ maxAttempts) :
    s.slots attempts source = s.exhausted maxAttempts ∨
      ∃ index, s.slots attempts source = .ok index ∧ Laid s.arity s.tuples index := by
  fun_induction slots s attempts source with
  | case1 attempts source below h1 between drawn1 h2 rest drawn2 failed ih => exact ih (by omega)
  | case2 attempts source below h1 between drawn1 h2 rest drawn2 board placed =>
    have length : h1.length = s.arity := by
      rw [← length_draw s.next s.arity source, drawn1]
    exact s.fingerprints_answers few length (place_settled few placed) (attempts + 1) rest
      (by omega)
  | case3 attempts source used =>
    have all : attempts = maxAttempts := by omega
    exact Or.inl (congrArg s.exhausted all)

/-- An index as the search gives it out, whatever the number of tuples: the slots are those of a
placement, the fingerprints are usable, and all of it was verified. -/
structure Gives (s : Search σ) (index : Index) : Prop where
  length1 : index.h1.length = s.arity
  length2 : index.h2.length = s.arity
  length3 : index.h3.length = s.arity
  usable : fingerprintsUsable s.tuples index.h3 = true
  verified : index.verify s.family s.tuples.toList = .ok ()
  board : ∃ board,
    place (choicesOf s.tuples index.h1 index.h2 (slotCount s.tuples.size) (slotCount_pos _)) =
      some board ∧ index.slots = slotsOf s.tuples index.h3 board

theorem fingerprints_gives (s : Search σ) {h1 h2 : List UInt32} (length1 : h1.length = s.arity)
    (length2 : h2.length = s.arity) {board : Board s.tuples.size (slotCount s.tuples.size)}
    (placed : place (choicesOf s.tuples h1 h2 _ (slotCount_pos _)) = some board)
    {attempts : Nat} {source : σ} {index : Index}
    (h : s.fingerprints h1 h2 board attempts source = .ok index) : s.Gives index := by
  fun_induction fingerprints s h1 h2 board attempts source with
  | case1 attempts source below h3 rest drawn usable built =>
    obtain ⟨_, verified, rfl⟩ := Outcome.map_eq_ok.mp h
    have length3 : h3.length = s.arity := by
      rw [← length_draw s.next s.arity source, drawn]
    exact ⟨length1, length2, length3, usable, verified, board, placed, rfl⟩
  | case2 attempts source below h3 rest drawn unusable ih => exact ih h
  | case3 attempts source used => cases h

theorem slots_gives (s : Search σ) {attempts : Nat} {source : σ} {index : Index}
    (h : s.slots attempts source = .ok index) : s.Gives index := by
  fun_induction slots s attempts source with
  | case1 attempts source below h1 between drawn1 h2 rest drawn2 failed ih => exact ih h
  | case2 attempts source below h1 between drawn1 h2 rest drawn2 board placed =>
    have length1 : h1.length = s.arity := by
      rw [← length_draw s.next s.arity source, drawn1]
    have length2 : h2.length = s.arity := by
      rw [← length_draw s.next s.arity between, drawn2]
    exact s.fingerprints_gives length1 length2 placed h
  | case3 attempts source used => cases h

end Search

/-- An index that construction gives leads every tuple to its own position. -/
theorem lookup_of_build {σ : Type} {family : String} {arity : Nat} {tuples : List Tuple}
    {next : σ → UInt32 × σ} {source : σ} {index : Index}
    (built : build family arity tuples next source = .ok index)
    (lengths : ∀ t ∈ tuples, t.length = arity) {i : Nat} {t : Tuple} (h : tuples[i]? = some t) :
    (index.lookup t).map UInt32.toNat = some i := by
  have given := Search.slots_gives _ built
  obtain ⟨inside, rfl⟩ := List.getElem?_eq_some_iff.mp h
  have one := verify_eq_ok_iff.mp given.verified i _ (List.getElem?_eq_getElem inside)
  exact lookup_of_verifyOne one ((lengths _ (List.getElem_mem inside)).trans given.length1.symm)
    ((fingerprintsUsable_apart given.usable).1 i inside)

/-- Construction ends with an index or with all attempts used up, and with nothing else. -/
theorem build_laid {σ : Type} (family : String) (arity : Nat) (tuples : List Tuple)
    (next : σ → UInt32 × σ) (source : σ) (few : tuples.length < 2 ^ 32) :
    build family arity tuples next source = Outcome.fail (.exhausted family maxAttempts) ∨
      ∃ index, build family arity tuples next source = .ok index ∧
        Laid arity tuples.toArray index :=
  Search.slots_answers ⟨family, arity, tuples.toArray, next⟩ few 0 source (Nat.zero_le _)

/-- For every source of words, construction uses up all ten thousand attempts or gives an index
that holds each ordinal once, leads every tuple to its own position, and finds for any other
parameters at most an ordinal with the same fingerprint in one of their two slots. -/
theorem build_finds_every_tuple {σ : Type} (family : String) (arity : Nat) (tuples : List Tuple)
    (next : σ → UInt32 × σ) (source : σ) (lengths : ∀ t ∈ tuples, t.length = arity)
    (few : tuples.length < 2 ^ 32) :
    build family arity tuples next source = Outcome.fail (.exhausted family 10000) ∨
    ∃ index, build family arity tuples next source = .ok index ∧
      tableSize tuples.length = .ok index.slots.size ∧
      index.occupied = tuples.length ∧
      ((index.slots.toList.filter fun slot => !slot.isVacant).map fun slot =>
        slot.ordinal.toNat).Perm (List.range tuples.length) ∧
      (∀ i t, tuples[i]? = some t → (index.lookup t).map UInt32.toNat = some i) ∧
      tuples.Nodup ∧
      ∀ params j, index.lookup params = some j →
        j.toNat < tuples.length ∧ params.length = arity ∧
        (∃ t, tuples[j.toNat]? = some t ∧ index.fingerprint params = index.fingerprint t) ∧
        ∃ a b position slot, index.candidates params = .ok (a, b) ∧
          (position = a ∨ position = b) ∧ index.slots[position]? = some slot ∧
          slot.isVacant = false ∧ slot.ordinal = j := by
  rcases build_laid family arity tuples next source few with exhausted | ⟨index, built, laid⟩
  · exact Or.inl exhausted
  · have own : ∀ i t, tuples[i]? = some t → (index.lookup t).map UInt32.toNat = some i :=
      fun i t h => lookup_of_build built lengths h
    refine Or.inr ⟨index, built, ?_, laid.occupied_eq few, laid.ordinals_perm few, own, ?_, ?_⟩
    · rw [tableSize_eq (by omega), laid.size_eq, List.size_toArray]
    · refine List.pairwise_iff_getElem.mpr fun i j hi hj lt same => ?_
      have first := own i _ (List.getElem?_eq_getElem hi)
      rw [same, own j _ (List.getElem?_eq_getElem hj)] at first
      exact Nat.ne_of_gt lt (Option.some.inj first)
    · intro params j found
      obtain ⟨length, inside, print, position, candidate, seat⟩ := laid.lookup_eq_some few found
      refine ⟨inside, length, ⟨tuples[j.toNat], List.getElem?_eq_getElem inside, ?_⟩, _, _,
        position, _, laid.candidates_eq params, candidate, seat, ?_, rfl⟩
      · exact print
      · have marked := (fingerprintsUsable_apart laid.usable).1 j.toNat inside
        rw [Slot.isVacant, print]
        exact beq_eq_false_iff_ne.mpr marked

/-- Three tuples and the words 1, 2, 3 and so on: construction succeeds at once. -/
theorem build_finds_three_tuples :
    ∃ index, build "f" 1 [[0], [7], [0x8000000000000000]]
        (fun n : Nat => (UInt32.ofNat n, n + 1)) 1 = .ok index ∧
      index.occupied = 3 ∧ (index.lookup [0x8000000000000000]).map UInt32.toNat = some 2 := by
  have answered : (build "f" 1 [[0], [7], [0x8000000000000000]]
      (fun n : Nat => (UInt32.ofNat n, n + 1)) 1).toOption.isSome = true := by decide +kernel
  rcases build_finds_every_tuple "f" 1 [[0], [7], [0x8000000000000000]]
      (fun n : Nat => (UInt32.ofNat n, n + 1)) 1 (by decide) (by decide) with
    exhausted | ⟨index, built, _, occupied, _, own, _⟩
  · rw [exhausted] at answered
    cases answered
  · exact ⟨index, built, occupied, own 2 [0x8000000000000000] rfl⟩

end Index

end CopyPatch
