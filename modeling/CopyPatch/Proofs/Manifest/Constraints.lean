import CopyPatch.Proofs.Enumeration.Order
import CopyPatch.Proofs.Manifest.Check

/-! Constraints mean on the way what they mean at the end. The walk over the tuples of a family
tests a constraint on every prefix, and a rejected prefix is never extended. Nothing is lost or
let through by that: the walk finds the tuples of the cross product that meet the constraints as
they are written, with axes and values by their names. -/
namespace CopyPatch

namespace Constraint

theorem exclude_rejects_iff {pattern : List (Nat × List UInt64)} {t : Tuple} :
    (exclude pattern).accepts t = false ↔
      ∀ entry ∈ pattern, ∃ v ∈ entry.2, t[entry.1]? = some v := by
  simp only [accepts, Bool.not_eq_false', Bool.and_eq_true, List.all_eq_true, decide_eq_true_iff,
    Option.any_eq_true, List.contains_iff_mem]
  constructor
  · rintro ⟨_, each⟩ entry member
    obtain ⟨v, chosen, listed⟩ := each entry member
    exact ⟨v, listed, chosen⟩
  · intro each
    refine ⟨fun entry member => ?_, fun entry member => ?_⟩
    · obtain ⟨v, _, chosen⟩ := each entry member
      exact (List.getElem?_eq_some_iff.mp chosen).1
    · obtain ⟨v, listed, chosen⟩ := each entry member
      exact ⟨v, chosen, listed⟩

theorem same_rejects_iff {first second : Nat} {t : Tuple} :
    (same first second).accepts t = false ↔
      (first < t.length ∧ second < t.length) ∧ t[first]? ≠ t[second]? := by
  simp only [accepts, Bool.or_eq_false_iff, decide_eq_false_iff_not, beq_eq_false_iff_ne,
    Nat.not_le, Nat.max_lt]

theorem rejects_longer {c : Constraint} {q r : Tuple} (shorter : q <+: r)
    (rejected : c.accepts q = false) : c.accepts r = false := by
  obtain ⟨rest, rfl⟩ := shorter
  cases c with
  | exclude pattern =>
    rw [exclude_rejects_iff] at rejected ⊢
    intro entry member
    obtain ⟨v, listed, chosen⟩ := rejected entry member
    have inside := (List.getElem?_eq_some_iff.mp chosen).1
    exact ⟨v, listed, (List.getElem?_append_left inside).trans chosen⟩
  | same first second =>
    rw [same_rejects_iff] at rejected ⊢
    obtain ⟨⟨hfirst, hsecond⟩, different⟩ := rejected
    rw [List.getElem?_append_left hfirst, List.getElem?_append_left hsecond, List.length_append]
    exact ⟨⟨by omega, by omega⟩, different⟩

end Constraint

namespace FamilyDecl

theorem rejects_longer {decl : FamilyDecl} (q r : Tuple) (shorter : q <+: r)
    (rejected : decl.accepts q = false) : decl.accepts r = false := by
  obtain ⟨c, member, rejects⟩ := List.all_eq_false.mp rejected
  refine List.all_eq_false.mpr ⟨c, member, ?_⟩
  rw [Bool.not_eq_true] at rejects ⊢
  exact Constraint.rejects_longer shorter rejects

/-- The value of a tuple on the axis of a name. -/
def valueOn (decl : FamilyDecl) (t : Tuple) (name : String) : Option UInt64 :=
  (decl.signature.findIdx? fun s => s.name = name).bind fun i => t[i]?

/-- The codes of the values listed for the axis of a name. -/
def codesOn (decl : FamilyDecl) (name : String) (values : List Manifest.Written.Value) :
    List UInt64 :=
  match (decl.axes.zip decl.signature).find? fun a => a.2.name = name with
  | some a => values.filterMap fun value => (Manifest.encodeValue a.1 a.2 value).toOption
  | none => []

/-- On every axis of a pattern a tuple has one of the values listed there. -/
def Matches (decl : FamilyDecl) (t : Tuple) (pattern : Manifest.Written.Pattern) : Prop :=
  ∀ entry ∈ pattern, ∃ v ∈ decl.codesOn entry.1 entry.2, decl.valueOn t entry.1 = some v

instance (decl : FamilyDecl) (t : Tuple) : DecidablePred (decl.Matches t) :=
  fun pattern => inferInstanceAs (Decidable (∀ entry ∈ pattern, _))

/-- A tuple matches no excluded pattern and has equal values on the axes of every pair. -/
def Meets (decl : FamilyDecl) (family : Manifest.Written.Family) (t : Tuple) : Prop :=
  (∀ pattern ∈ family.exclude, ¬ decl.Matches t pattern) ∧
    ∀ pair ∈ family.same, decl.valueOn t pair.1 = decl.valueOn t pair.2

instance (decl : FamilyDecl) (family : Manifest.Written.Family) :
    DecidablePred (decl.Meets family) :=
  fun _ => inferInstanceAs (Decidable (_ ∧ _))

section Resolved

variable {decl : FamilyDecl} {axes : List (Axis × AxisSignature)} {t : Tuple} {c : Constraint}

theorem valueOn_eq (signed : decl.signature = axes.map (·.2)) {name : String}
    {found : Nat × Axis × AxisSignature} (h : Manifest.positionOf axes name = .ok found) :
    decl.valueOn t name = t[found.1]? := by
  obtain ⟨first, _⟩ := Manifest.positionOf_eq_ok h
  rw [valueOn, signed, List.findIdx?_map]
  simp only [Function.comp_def, first, Option.bind_some]

theorem codesOn_eq (declared : decl.axes = axes.map (·.1))
    (signed : decl.signature = axes.map (·.2)) {name : String} {found : Nat × Axis × AxisSignature}
    (h : Manifest.positionOf axes name = .ok found) {values : List Manifest.Written.Value}
    {codes : List UInt64}
    (encoded : values.mapM (Manifest.encodeValue found.2.1 found.2.2) = .ok codes) :
    decl.codesOn name values = codes := by
  obtain ⟨first, there⟩ := Manifest.positionOf_eq_ok h
  have named : axes.find? (fun a => a.2.name = name) = some found.2 := by
    obtain ⟨inside, hit, before⟩ := List.findIdx?_eq_some_iff_getElem.mp first
    have here : axes[found.1] = found.2 := (List.getElem?_eq_some_iff.mp there).2
    exact List.find?_eq_some_iff_getElem.mpr
      ⟨here ▸ hit, found.1, inside, here, fun j lt => by simpa using before j lt⟩
  rw [codesOn, ← List.zip_of_prod declared.symm signed.symm, named]
  exact Outcome.filterMap_toOption_of_mapM encoded

theorem rejects_iff_matches (declared : decl.axes = axes.map (·.1))
    (signed : decl.signature = axes.map (·.2)) {pattern : Manifest.Written.Pattern}
    (checked : Manifest.checkPattern axes pattern = .ok c) :
    decl.Matches t pattern ↔ c.accepts t = false := by
  obtain ⟨_, resolved, rfl, entries⟩ := Manifest.checkPattern_eq_ok checked
  rw [Constraint.exclude_rejects_iff]
  refine forall_iff_of_forall₂ (entries.imp ?_)
  rintro entry r ⟨found, position, same, encoded⟩
  rw [valueOn_eq signed position, codesOn_eq declared signed position encoded, same]

theorem accepts_iff_equal (signed : decl.signature = axes.map (·.2)) (full : t.length = axes.length)
    {pair : String × String} (checked : Manifest.checkSame axes pair = .ok c) :
    decl.valueOn t pair.1 = decl.valueOn t pair.2 ↔ c.accepts t = true := by
  obtain ⟨first, second, hfirst, hsecond, _, rfl⟩ := Manifest.checkSame_eq_ok checked
  have inside {name : String} {found : Nat × Axis × AxisSignature}
      (h : Manifest.positionOf axes name = .ok found) : found.1 < t.length :=
    full ▸ (List.getElem?_eq_some_iff.mp (Manifest.positionOf_eq_ok h).2).1
  rw [valueOn_eq signed hfirst, valueOn_eq signed hsecond, ← Bool.not_eq_false,
    Constraint.same_rejects_iff]
  simp [inside hfirst, inside hsecond]

end Resolved

variable {decl : FamilyDecl} {family : Manifest.Written.Family}

theorem meets_iff_accepts (checked : Manifest.checkFamily family = .ok decl) {t : Tuple}
    (full : t.length = decl.axes.length) : decl.Meets family t ↔ decl.accepts t = true := by
  obtain ⟨axes, excluded, same, body, _, _, hexcluded, hsame, rfl⟩ :=
    Manifest.checkFamily_eq_ok checked
  rw [List.length_map] at full
  rw [Meets, accepts, List.all_append, Bool.and_eq_true, List.all_eq_true, List.all_eq_true]
  refine and_congr (forall_iff_of_forall₂ (hexcluded.imp ?_))
    (forall_iff_of_forall₂ (hsame.imp ?_))
  · intro pattern c resolved
    rw [rejects_iff_matches rfl rfl resolved, Bool.not_eq_false]
  · exact fun pair c resolved => accepts_iff_equal rfl full resolved

/-- Before any value is chosen no constraint of a checked family can tell. -/
theorem accepts_nil (checked : Manifest.checkFamily family = .ok decl) :
    decl.accepts [] = true := by
  obtain ⟨axes, excluded, same, body, _, _, hexcluded, hsame, rfl⟩ :=
    Manifest.checkFamily_eq_ok checked
  refine List.all_eq_true.mpr fun c member => ?_
  rcases List.mem_append.mp member with member | member
  · obtain ⟨pattern, _, resolved⟩ := exists_left hexcluded member
    obtain ⟨nonempty, resolved, rfl, entries⟩ := Manifest.checkPattern_eq_ok resolved
    rw [← Bool.not_eq_false, Constraint.exclude_rejects_iff]
    intro each
    cases entries with
    | nil => exact nonempty rfl
    | cons _ _ =>
      obtain ⟨v, _, chosen⟩ := each _ List.mem_cons_self
      cases chosen
  · obtain ⟨pair, _, resolved⟩ := exists_left hsame member
    obtain ⟨_, _, _, _, _, rfl⟩ := Manifest.checkSame_eq_ok resolved
    simp [Constraint.accepts]

theorem legalTuples_eq_meets (checked : Manifest.checkFamily family = .ok decl) :
    legalTuples decl.accepts decl.axes [] =
      (crossProduct decl.axes).filter fun t => decide (decl.Meets family t) := by
  rw [legalTuples_eq]
  refine List.filter_congr fun t member => ?_
  rw [passes_eq_accepts (accepts_nil checked) rejects_longer, Bool.eq_iff_iff, decide_eq_true_iff,
    meets_iff_accepts checked (mem_crossProduct.mp member).2]

end FamilyDecl

/-- A family with two equal axes and an excluded value of a third. -/
def pairedManifest : String :=
  "module = \"m\"\n[[family]]\nname = \"f\"\nbody = \"f\"\n" ++
    "axes = [[\"bool\", \"a\"], [\"bool\", \"b\"], [\"enum\", \"c\", 2]]\n" ++
    "exclude = [\x7bc = [1]\x7d]\nsame = [[\"a\", \"b\"]]\n"

end CopyPatch
