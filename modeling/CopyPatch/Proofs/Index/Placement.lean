import CopyPatch.Index.Placement
import Mathlib.Data.List.FinRange

/-! Two-choice placement puts every ordinal into exactly one of its own two slots. While a chain of
evictions runs, one ordinal is off the board; a board is therefore settled with respect to the
ordinals that are on it, and each link of a chain exchanges one of them. -/
namespace CopyPatch

namespace Placement

variable {n m : Nat}

/-- Whether a slot is one of an ordinal's two candidates. -/
def Candidate (choices : Choices n m) (ordinal : Fin n) (slot : Fin m) : Prop :=
  slot = (choices.get ordinal).1 ∨ slot = (choices.get ordinal).2

/-- Exactly the given ordinals are on the board, each in one slot, which is its candidate. -/
structure Settled (choices : Choices n m) (placed : Fin n → Prop) (board : Board n m) : Prop where
  home : ∀ slot ordinal, board.get slot = some ordinal →
    placed ordinal ∧ Candidate choices ordinal slot
  found : ∀ ordinal, placed ordinal → ∃ slot, board.get slot = some ordinal
  once : ∀ slot other ordinal, board.get slot = some ordinal → board.get other = some ordinal →
    slot = other

theorem get_put (board : Board n m) (slot s : Fin m) (ordinal : Fin n) :
    (put board slot ordinal).get s = if s = slot then some ordinal else board.get s := by
  have entry : (board.set slot.val (some ordinal) slot.isLt)[s.val] =
      if slot.val = s.val then some ordinal else board[s.val] :=
    Vector.getElem_set slot.isLt s.isLt
  simp only [Fin.ext_iff, eq_comm (a := s.val)]
  exact entry

theorem otherSlot_candidate (choices : Choices n m) (ordinal : Fin n) (slot : Fin m) :
    Candidate choices ordinal (otherSlot choices ordinal slot) := by
  unfold otherSlot
  split
  · exact Or.inr rfl
  · exact Or.inl rfl

namespace Settled

variable {choices : Choices n m} {placed : Fin n → Prop} {board : Board n m}

theorem vacant (choices : Choices n m) :
    Settled choices (fun _ => False) (Vector.replicate m none) := by
  have none_there : ∀ slot : Fin m, (Vector.replicate m (none : Option (Fin n))).get slot = none :=
    fun slot => Vector.getElem_replicate slot.isLt
  refine ⟨?_, fun _ h => False.elim h, ?_⟩
  · intro slot ordinal h
    rw [none_there] at h
    cases h
  · intro slot other ordinal h
    rw [none_there] at h
    cases h

theorem congr (settled : Settled choices placed board) {placed' : Fin n → Prop}
    (same : ∀ o, placed' o ↔ placed o) : Settled choices placed' board where
  home slot o h := ⟨(same o).mpr (settled.home slot o h).1, (settled.home slot o h).2⟩
  found o h := settled.found o ((same o).mp h)
  once := settled.once

/-- Putting an ordinal into one of its slots takes the slot's occupant, if any, off the board. -/
theorem replace (settled : Settled choices placed board) {ordinal : Fin n} {slot : Fin m}
    (absent : ¬ placed ordinal) (candidate : Candidate choices ordinal slot) :
    Settled choices (fun o => o = ordinal ∨ placed o ∧ board.get slot ≠ some o)
      (put board slot ordinal) := by
  refine ⟨?_, ?_, ?_⟩
  · intro s o h
    rw [get_put] at h
    split at h
    · rename_i same
      cases h
      exact ⟨Or.inl rfl, same ▸ candidate⟩
    · rename_i different
      obtain ⟨member, home⟩ := settled.home s o h
      exact ⟨Or.inr ⟨member, fun here => different (settled.once s slot o h here)⟩, home⟩
  · rintro o (rfl | ⟨member, stays⟩)
    · exact ⟨slot, by rw [get_put, if_pos rfl]⟩
    · obtain ⟨s, hs⟩ := settled.found o member
      have different : s ≠ slot := fun same => stays (same ▸ hs)
      exact ⟨s, by rw [get_put, if_neg different]; exact hs⟩
  · intro s t o hs ht
    rw [get_put] at hs ht
    split at hs <;> split at ht
    · rename_i same same'
      exact same.trans same'.symm
    · cases hs
      exact False.elim (absent (settled.home t ordinal ht).1)
    · cases ht
      exact False.elim (absent (settled.home s ordinal hs).1)
    · exact settled.once s t o hs ht

theorem fill (settled : Settled choices placed board) {ordinal : Fin n} {slot : Fin m}
    (absent : ¬ placed ordinal) (candidate : Candidate choices ordinal slot)
    (free : board.get slot = none) :
    Settled choices (fun o => o = ordinal ∨ placed o) (put board slot ordinal) :=
  (settled.replace absent candidate).congr fun o => by simp [free]

/-- A chain that ends has put the carried ordinal on the board and kept all others there. What is
on the board changes along the chain: the evicted ordinal is carried next. -/
theorem chain {fuel : Nat} {carried : Fin n} {slot : Fin m} {last : Board n m}
    (settled : Settled choices placed board) (absent : ¬ placed carried)
    (candidate : Candidate choices carried slot)
    (h : evict choices fuel carried slot board = some last) :
    Settled choices (fun o => o = carried ∨ placed o) last := by
  induction fuel generalizing placed board carried slot with
  | zero =>
    simp only [evict] at h
    split at h
    · rename_i free
      cases h
      exact settled.fill absent candidate free
    · cases h
  | succ fuel ih =>
    simp only [evict] at h
    split at h
    · rename_i free
      cases h
      exact settled.fill absent candidate free
    · rename_i evicted taken
      split at h
      · cases h
      · have member : placed evicted := (settled.home slot evicted taken).1
        have off : ¬ (evicted = carried ∨ placed evicted ∧ board.get slot ≠ some evicted) := by
          rintro (same | ⟨_, stays⟩)
          · exact absent (same ▸ member)
          · exact stays taken
        have ended := ih (settled.replace absent candidate) off
          (otherSlot_candidate choices evicted slot) h
        refine ended.congr fun o => ?_
        simp only [taken, ne_eq, Option.some.injEq]
        grind

theorem insertOne {ordinal : Fin n} {last : Board n m} (settled : Settled choices placed board)
    (absent : ¬ placed ordinal) (h : insert choices board ordinal = some last) :
    Settled choices (fun o => o = ordinal ∨ placed o) last := by
  simp only [insert] at h
  split at h
  · rename_i free
    cases h
    exact settled.fill absent (Or.inl rfl) (Option.isNone_iff_eq_none.mp free)
  · split at h
    · rename_i free
      cases h
      exact settled.fill absent (Or.inr rfl) (Option.isNone_iff_eq_none.mp free)
    · exact settled.chain absent (Or.inl rfl) h

theorem insertAll {ordinals : List (Fin n)} {last : Board n m}
    (settled : Settled choices placed board) (distinct : ordinals.Nodup)
    (absent : ∀ o ∈ ordinals, ¬ placed o)
    (h : ordinals.foldlM (insert choices) board = some last) :
    Settled choices (fun o => o ∈ ordinals ∨ placed o) last := by
  induction ordinals generalizing placed board with
  | nil =>
    cases h
    exact settled.congr fun o => by simp
  | cons first rest ih =>
    obtain ⟨next, hnext, hrest⟩ := Option.bind_eq_some_iff.mp h
    obtain ⟨new, distinct⟩ := List.nodup_cons.mp distinct
    have one := settled.insertOne (absent first List.mem_cons_self) hnext
    have later : ∀ o ∈ rest, ¬ (o = first ∨ placed o) := by
      rintro o ho (same | member)
      · exact new (same ▸ ho)
      · exact absent o (List.mem_cons_of_mem first ho) member
    refine (ih one distinct later hrest).congr fun o => ?_
    rw [List.mem_cons]
    grind

/-- Read off slot by slot, a full board lists every ordinal once. -/
theorem occupants_perm (settled : Settled choices (fun _ => True) board) :
    (board.toList.filterMap id).Perm (List.finRange n) := by
  refine (List.perm_ext_iff_of_nodup ?_ (List.nodup_finRange n)).mpr ?_
  · refine List.pairwise_filterMap.mpr (List.pairwise_iff_getElem.mpr ?_)
    intro s t hs ht lt i hi j hj same
    rw [Vector.length_toList] at hs ht
    simp only [Vector.getElem_toList, id_eq] at hi hj
    subst same
    have := settled.once ⟨s, hs⟩ ⟨t, ht⟩ i hi hj
    exact Nat.ne_of_lt lt (Fin.ext_iff.mp this)
  · intro i
    obtain ⟨seat, hseat⟩ := settled.found i trivial
    simp only [List.mem_filterMap, id_eq, exists_eq_right, List.mem_finRange, iff_true]
    rw [← hseat]
    exact Vector.mem_toList_iff.mpr (Vector.getElem_mem seat.isLt)

end Settled

/-- A finished placement has on the board the ordinals that a 32-bit word counts. -/
theorem place_counted {choices : Choices n m} {board : Board n m}
    (h : place choices = some board) :
    Settled choices (fun ordinal => ordinal.val < n % 2 ^ 32) board := by
  have distinct : ((List.finRange n).take (n % 2 ^ 32)).Nodup :=
    (List.nodup_finRange n).sublist (List.take_sublist _ _)
  have settled := (Settled.vacant choices).insertAll distinct (fun _ _ h => h) h
  refine settled.congr fun o => ?_
  have counted : o.val < n % 2 ^ 32 ↔ o ∈ (List.finRange n).take (n % 2 ^ 32) := by
    constructor
    · intro low
      exact List.mem_take_iff_getElem.mpr ⟨o.val, by simpa using low, by simp⟩
    · intro member
      obtain ⟨i, low, rfl⟩ := List.mem_take_iff_getElem.mp member
      simpa using (Nat.lt_min.mp low).1
  simpa using counted

/-- A finished placement has every ordinal on the board. -/
theorem place_settled {choices : Choices n m} {board : Board n m} (few : n < 2 ^ 32)
    (h : place choices = some board) : Settled choices (fun _ => True) board := by
  refine (place_counted h).congr fun o => ?_
  rw [Nat.mod_eq_of_lt few]
  exact (iff_true_intro o.isLt).symm

end Placement

end CopyPatch
