import CopyPatch.Proofs.Manifest.Check
import CopyPatch.Source.Library

/-! Where declarations stand in the generated files, and what the generator has seen to before it
writes them: no two families share a name, and no two generated types. -/
namespace CopyPatch.Source

/-- A piece is part of a text. -/
def Stands (piece text : String) : Prop := ∃ before after, text = before ++ piece ++ after

namespace Stands

theorem refl (text : String) : Stands text text := ⟨"", "", by simp⟩

theorem append_right {piece text : String} (stands : Stands piece text) (more : String) :
    Stands piece (text ++ more) := by
  obtain ⟨before, after, rfl⟩ := stands
  exact ⟨before, after ++ more, by simp only [String.append_assoc]⟩

theorem append_left {piece text : String} (stands : Stands piece text) (front : String) :
    Stands piece (front ++ text) := by
  obtain ⟨before, after, rfl⟩ := stands
  exact ⟨front ++ before, after, by simp only [String.append_assoc]⟩

theorem trans {piece part text : String} (inner : Stands piece part) (outer : Stands part text) :
    Stands piece text := by
  obtain ⟨before, after, rfl⟩ := outer
  exact (inner.append_left before).append_right after

theorem join {piece : String} {pieces : List String} (member : piece ∈ pieces) :
    Stands piece (String.join pieces) := by
  obtain ⟨front, back, rfl⟩ := List.append_of_mem member
  rw [String.join_append, String.join_cons]
  exact ((refl piece).append_right _).append_left _

end Stands

theorem lines_append (front back : List String) :
    lines (front ++ back) = lines front ++ lines back := by
  rw [lines, List.map_append, String.join_append, lines, lines]

theorem lines_cons (line : String) (rest : List String) :
    lines (line :: rest) = line ++ "\n" ++ lines rest := by
  rw [lines, List.map_cons, String.join_cons, lines]

theorem stands_line {line : String} {parts : List String} (member : line ∈ parts) :
    Stands (line ++ "\n") (lines parts) :=
  Stands.join (List.mem_map_of_mem member)

theorem stands_familyModule (family : CompiledFamily) :
    Stands ("pub mod " ++ itemName family.name ++ " \x7b" ++ "\n") (familyModule family) := by
  refine ((Stands.append_right ?_ _).append_right _).append_right _
  exact stands_line (List.mem_cons_of_mem _ List.mem_cons_self)

theorem stands_variantItems {family : CompiledFamily} {i : Nat} {variant : CompiledVariant}
    (listed : family.variants[i]? = some variant) :
    Stands (variantItems family.signature i variant) (familyModule family) := by
  refine ((Stands.append_left ?_ _).append_right _).append_right _
  refine Stands.join (List.mem_map.mpr ⟨(variant, i), ?_, rfl⟩)
  exact List.mem_zipIdx_iff_getElem?.mpr listed

theorem stands_accessor (family : CompiledFamily) :
    Stands ("pub fn select_" ++ family.name ++ "_blueprint(" ++ parameters itemName family ++
      ") -> &'static ") (accessor family) := by
  rw [accessor]
  refine Stands.trans ?_ (stands_line (List.mem_cons_of_mem _
    (List.mem_cons_of_mem _ (List.mem_cons_of_mem _ List.mem_cons_self))))
  -- the crate's name, the type with its lifetime, the brace and the end of the line follow
  iterate 6 refine Stands.append_right ?_ _
  exact Stands.refl _

theorem stands_enumDeclaration {family type : String} {axis : AxisSignature}
    (named : enumTypeName? family axis = some type) :
    Stands ("pub enum " ++ type ++ " \x7b" ++ "\n") (enumDeclaration family axis) := by
  rw [enumDeclaration, named]
  exact stands_line (by simp)

theorem generate_eq_ok {modules : List CompiledModule} {sources : GeneratedSources} :
    generate modules = .ok sources ↔
      ownedFrom [] (familiesOf modules) = .ok () ∧ typesFrom [] (familiesOf modules) = .ok () ∧
        sources = ⟨declsText modules ((familiesOf modules).map (·.2)),
          libraryText modules ((familiesOf modules).map (·.2))⟩ := by
  simp only [generate, Outcome.bind_eq_ok]
  constructor
  · rintro ⟨_, owned, _, types, h⟩
    cases h
    exact ⟨owned, types, rfl⟩
  · rintro ⟨owned, types, rfl⟩
    exact ⟨_, owned, _, types, rfl⟩

section Files

variable {modules : List CompiledModule} {sources : GeneratedSources}

theorem familiesOf_families (modules : List CompiledModule) :
    (familiesOf modules).map (·.2) = modules.flatMap (·.families) := by
  rw [familiesOf, List.map_flatMap]
  refine List.flatMap_congr fun m _ => ?_
  rw [List.map_map]
  exact List.map_id _

/-- The declarations of every family are in the first file, its tables and its accessor in the
second. -/
theorem stands_of_generate (generated : generate modules = .ok sources) {family : CompiledFamily}
    (member : family ∈ modules.flatMap (·.families)) :
    Stands (declarations family) sources.decls ∧ Stands (familyModule family) sources.library ∧
      Stands (accessor family) sources.library := by
  obtain ⟨_, _, rfl⟩ := generate_eq_ok.mp generated
  rw [← familiesOf_families] at member
  have tables : Stands (familyModule family ++ accessor family)
      (libraryText modules ((familiesOf modules).map (·.2))) := by
    refine (Stands.append_right (Stands.append_left ?_ _) _).append_right _
    exact Stands.join (List.mem_map_of_mem member)
  refine ⟨?_, ((Stands.refl _).append_right _).trans tables,
    ((Stands.refl _).append_left _).trans tables⟩
  exact (Stands.append_left (Stands.join (List.mem_map_of_mem member)) _).append_right _

end Files

theorem not_mem_of_lookup {entries : List (String × String)} {name : String}
    (free : entries.lookup name = none) : name ∉ entries.map (·.1) := by
  intro member
  obtain ⟨e, listed, rfl⟩ := List.mem_map.mp member
  simpa using List.lookup_eq_none_iff.mp free e listed

theorem ownedFrom_eq_ok {owners : List (String × String)}
    {families : List (String × CompiledFamily)} (h : ownedFrom owners families = .ok ()) :
    (families.map (·.2.name)).Nodup ∧ ∀ f ∈ families, f.2.name ∉ owners.map (·.1) := by
  induction families generalizing owners with
  | nil => exact ⟨List.nodup_nil, List.forall_mem_nil _⟩
  | cons first rest ih =>
    rw [ownedFrom] at h
    split at h
    · cases h
    · rename_i free
      obtain ⟨distinct, apart⟩ := ih h
      exact Manifest.distinct_cons (not_mem_of_lookup free) distinct apart

theorem reserveTypes_eq_ok {moduleName family : String} {taken all : List (String × String)}
    {names : List String} (h : reserveTypes moduleName family taken names = .ok all)
    (distinct : (taken.map (·.1)).Nodup) :
    (all.map (·.1)).Nodup ∧ all.map (·.1) = names.reverse ++ taken.map (·.1) := by
  induction names generalizing taken with
  | nil => cases h; exact ⟨distinct, rfl⟩
  | cons name rest ih =>
    rw [reserveTypes] at h
    split at h
    · cases h
    · rename_i free
      obtain ⟨apart, same⟩ := ih h (List.nodup_cons.mpr ⟨not_mem_of_lookup free, distinct⟩)
      refine ⟨apart, ?_⟩
      rw [same, List.reverse_cons, List.append_assoc]
      rfl

/-- The generated types of a family. -/
def typesOf (family : CompiledFamily) : List String :=
  family.signature.filterMap (enumTypeName? family.name)

theorem typesFrom_eq_ok {taken : List (String × String)}
    {families : List (String × CompiledFamily)} (h : typesFrom taken families = .ok ())
    (distinct : (taken.map (·.1)).Nodup) :
    ((families.flatMap fun f => typesOf f.2).reverse ++ taken.map (·.1)).Nodup := by
  induction families generalizing taken with
  | nil => exact distinct
  | cons first rest ih =>
    obtain ⟨all, reserved, h⟩ := Outcome.bind_eq_ok.mp h
    obtain ⟨apart, same⟩ := reserveTypes_eq_ok reserved distinct
    have later := ih h apart
    rwa [same, ← List.append_assoc, ← List.reverse_append] at later

/-- What the generator writes has the family names, and the type names, all different. -/
theorem distinct_of_generate {modules : List CompiledModule} {sources : GeneratedSources}
    (generated : generate modules = .ok sources) :
    ((modules.flatMap (·.families)).map (·.name)).Nodup ∧
      ((modules.flatMap (·.families)).flatMap typesOf).Nodup := by
  obtain ⟨owned, types, _⟩ := generate_eq_ok.mp generated
  rw [← familiesOf_families, List.map_map, List.flatMap_map]
  refine ⟨(ownedFrom_eq_ok owned).1, (List.reverse_perm _).nodup_iff.mp ?_⟩
  have distinct := typesFrom_eq_ok types List.nodup_nil
  rwa [List.map_nil, List.append_nil] at distinct

end CopyPatch.Source
