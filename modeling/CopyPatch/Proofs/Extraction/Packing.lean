import CopyPatch.Blueprint.Patch
import CopyPatch.Proofs.Extraction.Basic

/-! Packed positions. Extraction renumbers the values of all classes through, a call site lays its
values out class by class; the position a fixup carries is the place of the value that its
placeholder named. -/
namespace CopyPatch

namespace Extraction

theorem toNat_max (a b : UInt32) : (max a b).toNat = max a.toNat b.toNat := by
  have unfolded : max a b = if a ≤ b then b else a := rfl
  rw [unfolded]
  split
  · rename_i le
    exact (Nat.max_eq_right (UInt32.le_iff_toNat_le.mp le)).symm
  · rename_i not_le
    rw [UInt32.le_iff_toNat_le] at not_le
    omega

theorem toNat_le_foldl_max {needs : List UInt32} {start need : UInt32}
    (h : need = start ∨ need ∈ needs) : need.toNat ≤ (needs.foldl max start).toNat := by
  induction needs generalizing start need with
  | nil =>
    rcases h with rfl | member
    · exact Nat.le_refl _
    · cases member
  | cons first rest ih =>
    have grown : (max start first).toNat ≤ (rest.foldl max (max start first)).toNat :=
      ih (Or.inl rfl)
    rw [toNat_max] at grown
    rw [List.foldl_cons]
    rcases h with rfl | member
    · omega
    · rcases List.mem_cons.mp member with rfl | later
      · omega
      · exact ih (Or.inr later)

theorem foldl_max_cases (needs : List UInt32) (start : UInt32) :
    needs.foldl max start = start ∨ needs.foldl max start ∈ needs := by
  induction needs generalizing start with
  | nil => exact Or.inl rfl
  | cons first rest ih =>
    rw [List.foldl_cons]
    rcases ih (max start first) with same | later
    · rw [same]
      by_cases le : start ≤ first
      · exact Or.inr (List.mem_cons.mpr (Or.inl (if_pos le)))
      · exact Or.inl (if_neg le)
    · exact Or.inr (List.mem_cons_of_mem first later)

theorem ordinal_lt_countOf {fixups : List FixupRecord} {symbolClass : SymbolClass} {count : UInt32}
    (h : countOf fixups symbolClass = .ok count) {f : FixupRecord} (member : f ∈ fixups)
    (hclass : f.symbolClass = symbolClass) : f.ordinal.toNat < count.toNat := by
  obtain ⟨needs, hneeds, h⟩ := Outcome.bind_eq_ok.mp h
  cases h
  have listed : f ∈ fixups.filter (·.symbolClass = symbolClass) :=
    List.mem_filter.mpr ⟨member, decide_eq_true hclass⟩
  obtain ⟨need, hneed, added⟩ := exists_right (Outcome.mapM_eq_ok.mp hneeds) listed
  have most : need.toNat ≤ (needs.foldl max 0).toNat := toNat_le_foldl_max (Or.inr hneed)
  have one : need.toNat = f.ordinal.toNat + 1 := Checked.toNat_of_add32 added
  omega

/-- A count that is not zero is one more than a position named. -/
theorem exists_ordinal_of_countOf {fixups : List FixupRecord} {symbolClass : SymbolClass}
    {count : UInt32} (h : countOf fixups symbolClass = .ok count) (some : count.toNat ≠ 0) :
    ∃ f ∈ fixups, f.symbolClass = symbolClass ∧ f.ordinal.toNat + 1 = count.toNat := by
  obtain ⟨needs, hneeds, h⟩ := Outcome.bind_eq_ok.mp h
  cases h
  rcases foldl_max_cases needs 0 with zero | named
  · rw [zero] at some
    exact absurd rfl some
  · obtain ⟨f, listed, added⟩ := exists_left (Outcome.mapM_eq_ok.mp hneeds) named
    obtain ⟨member, same⟩ := List.mem_filter.mp listed
    refine ⟨f, member, of_decide_eq_true same, ?_⟩
    rw [Checked.toNat_of_add32 added]
    rfl

theorem countOf_of_countsOf {fixups : List FixupRecord} {counts : FixupCounts}
    (h : countsOf fixups = .ok counts) {c : SymbolClass} (supplied : c ≠ .threadLocalBase) :
    countOf fixups c = .ok (counts.count c) := by
  obtain ⟨boilerplates, hboilerplates, h⟩ := Outcome.bind_eq_ok.mp h
  obtain ⟨hosts, hhosts, h⟩ := Outcome.bind_eq_ok.mp h
  obtain ⟨constants, hconstants, h⟩ := Outcome.bind_eq_ok.mp h
  cases h
  cases c with
  | boilerplate => exact hboilerplates
  | host => exact hhosts
  | constant => exact hconstants
  | threadLocalBase => exact absurd rfl supplied

/-- The ordinals of a class are below its count. -/
theorem ordinal_lt_count {fixups : List FixupRecord} {counts : FixupCounts}
    (h : countsOf fixups = .ok counts) {f : FixupRecord} (member : f ∈ fixups)
    (supplied : f.symbolClass ≠ .threadLocalBase) :
    f.ordinal.toNat < (counts.count f.symbolClass).toNat :=
  ordinal_lt_countOf (countOf_of_countsOf h supplied) member rfl

/-- A fixup with its position in its class replaced by the packed one. -/
structure PackedFrom (counts : FixupCounts) (f g : FixupRecord) : Prop where
  offset : g.offset = f.offset
  kind : g.kind = f.kind
  symbolClass : g.symbolClass = f.symbolClass
  ordinal : f.symbolClass ≠ .threadLocalBase → ∃ base,
    counts.base f.symbolClass = .ok (some base) ∧
    g.ordinal.toNat = base.toNat + f.ordinal.toNat
  unnumbered : f.symbolClass = .threadLocalBase → g.ordinal = 0

theorem packOrdinal_eq_ok {counts : FixupCounts} {f g : FixupRecord}
    (h : packOrdinal counts f = .ok g) : PackedFrom counts f g := by
  obtain ⟨base, hbase, h⟩ := Outcome.bind_eq_ok.mp h
  cases base with
  | none =>
    cases h
    refine ⟨rfl, rfl, rfl, fun supplied => ?_, fun _ => rfl⟩
    cases hclass : f.symbolClass <;> rw [hclass] at hbase supplied
    · cases hbase
    · cases hbase
    · obtain ⟨_, _, impossible⟩ := Outcome.map_eq_ok.mp hbase
      cases impossible
    · exact absurd rfl supplied
  | some base =>
    obtain ⟨ordinal, added, h⟩ := Outcome.bind_eq_ok.mp h
    cases h
    refine ⟨rfl, rfl, rfl, fun _ => ⟨base, hbase, Checked.toNat_of_add32 added⟩,
      fun unsupplied => ?_⟩
    rw [unsupplied] at hbase
    cases hbase

end Extraction

namespace FixupValues

theorem pack_eq_ok {values : FixupValues} {b : Blueprint} {packed : List UInt64}
    (h : values.pack b = .ok packed) :
    b.counts.boilerplates.toNat = values.boilerplates.length ∧
      b.counts.hosts.toNat = values.hosts.length ∧
      b.counts.constants.toNat = values.constants.length ∧
      packed = values.boilerplates ++ values.hosts ++ values.constants ∧
      b.valueCount = .ok packed.length := by
  unfold pack at h
  split at h
  · cases h
  · rename_i agree
    obtain ⟨total, hcount, h⟩ := Outcome.bind_eq_ok.mp h
    rw [Outcome.ofFaulting_eq_ok] at hcount
    cases h
    have counts : ∀ c ∈ SymbolClass.supplied,
        (b.counts.count c).toNat = (values.ofClass c).length := by
      intro c member
      have same := List.find?_eq_none.mp agree c member
      simpa using same
    obtain ⟨all, hall, rfl⟩ := Outcome.map_eq_ok.mp hcount
    obtain ⟨functions, hfunctions, hall⟩ := Outcome.bind_eq_ok.mp hall
    have first : b.counts.boilerplates.toNat = values.boilerplates.length :=
      counts .boilerplate (by decide)
    have second : b.counts.hosts.toNat = values.hosts.length := counts .host (by decide)
    have third : b.counts.constants.toNat = values.constants.length := counts .constant (by decide)
    refine ⟨first, second, third, rfl, ?_⟩
    rw [hcount, List.length_append, List.length_append, ← first, ← second, ← third,
      Checked.toNat_of_add32 hall, Checked.toNat_of_add32 hfunctions]

/-- A packed position leads to the value that its class and the position in it name. -/
theorem pack_getElem? {values : FixupValues} {b : Blueprint} {packed : List UInt64}
    (h : values.pack b = .ok packed) {c : SymbolClass} {base : UInt32}
    (hbase : b.counts.base c = .ok (some base)) {k : Nat} (small : k < (b.counts.count c).toNat) :
    ∃ v, (values.ofClass c)[k]? = some v ∧ packed[base.toNat + k]? = some v := by
  obtain ⟨first, second, third, rfl, _⟩ := pack_eq_ok h
  cases c with
  | boilerplate =>
    cases hbase
    have inside : k < values.boilerplates.length := first ▸ small
    refine ⟨values.boilerplates[k], List.getElem?_eq_getElem inside, ?_⟩
    rw [UInt32.toNat_zero, Nat.zero_add, List.append_assoc, List.getElem?_append_left inside,
      List.getElem?_eq_getElem inside]
  | host =>
    cases hbase
    have inside : k < values.hosts.length := second ▸ small
    refine ⟨values.hosts[k], List.getElem?_eq_getElem inside, ?_⟩
    rw [first, List.append_assoc, List.getElem?_append_right (Nat.le_add_right _ _),
      Nat.add_sub_cancel_left, List.getElem?_append_left inside, List.getElem?_eq_getElem inside]
  | constant =>
    obtain ⟨functions, added, hbase⟩ := Outcome.map_eq_ok.mp hbase
    cases hbase
    have inside : k < values.constants.length := third ▸ small
    refine ⟨values.constants[k], List.getElem?_eq_getElem inside, ?_⟩
    rw [Checked.toNat_of_add32 added, first, second, ← List.length_append,
      List.getElem?_append_right (Nat.le_add_right _ _), Nat.add_sub_cancel_left,
      List.getElem?_eq_getElem inside]
  | threadLocalBase => cases hbase

end FixupValues

end CopyPatch
