import CopyPatch.Proofs.Enumeration.Order
import CopyPatch.Proofs.Manifest.Template
import CopyPatch.Proofs.Registration
import CopyPatch.Proofs.Toml.Extent

/-! What the later stages may rely on. A manifest that was accepted names everything properly and
once, and its constraints and templates speak of axes and values that exist. So the tests of a
prefix never read behind its end, and every tuple of a family has a body symbol in which each
value stands by its own name. -/
namespace CopyPatch

namespace Manifest

/-- A lowercase letter or an underscore, then such characters and digits; not an underscore
alone. -/
def Identifier (name : String) : Prop :=
  name ≠ "_" ∧ ∃ first rest, name.toList = first :: rest ∧ (first.isLower = true ∨ first = '_') ∧
    ∀ c ∈ rest, c.isLower = true ∨ c.isDigit = true ∨ c = '_'

theorem isIdentifier_iff {name : String} : isIdentifier name = true ↔ Identifier name := by
  unfold isIdentifier Identifier
  cases letters : name.toList with
  | nil => simp
  | cons first rest => simp [or_assoc]

end Manifest

/-- Name and vocabulary fit an axis that has values. -/
structure AxisSignature.Describes (s : AxisSignature) (axis : Axis) : Prop where
  name : Manifest.Identifier s.name
  kind : s.kind = axis.kind
  inhabited : axis.values ≠ []
  variants : ∀ v ∈ s.variants, Manifest.Identifier v
  distinct : s.variants.Nodup
  counted : s.variants ≠ [] → ∃ count, axis = .enum count ∧ count.toNat = s.variants.length

/-- Only axes that exist, with values they take, or two of one kind. -/
inductive Constraint.Fits (axes : List Axis) : Constraint → Prop where
  | exclude {pattern : List (Nat × List UInt64)}
      (each : ∀ entry ∈ pattern, ∃ axis, axes[entry.1]? = some axis ∧
        ∀ v ∈ entry.2, v ∈ axis.values) :
      Fits axes (.exclude pattern)
  | same {first second : Nat} {a b : Axis} (one : axes[first]? = some a)
      (other : axes[second]? = some b) (alike : a.kind = b.kind) : Fits axes (.same first second)

structure FamilyDecl.WellFormed (decl : FamilyDecl) : Prop where
  name : Manifest.Identifier decl.name
  described : List.Forall₂ AxisSignature.Describes decl.signature decl.axes
  distinct : (decl.signature.map (·.name)).Nodup
  valid : Axis.validate decl.axes = .ok ()
  constraints : ∀ c ∈ decl.constraints, c.Fits decl.axes
  body : ∀ position, Segment.axis position ∈ decl.body → position < decl.axes.length

/-- Names of a family and of its axes that a manifest may give. -/
structure Manifest.Admits (name : String) (signature : List AxisSignature) : Prop where
  family : Identifier name
  axes : ∀ s ∈ signature, Identifier s.name
  variants : ∀ s ∈ signature, ∀ v ∈ s.variants, Identifier v
  distinct : (signature.map (·.name)).Nodup

instance (name : String) (signature : List AxisSignature) :
    Decidable (Manifest.Admits name signature) :=
  decidable_of_iff (Manifest.isIdentifier name ∧
      (∀ s ∈ signature, Manifest.isIdentifier s.name ∧ ∀ v ∈ s.variants, Manifest.isIdentifier v) ∧
      (signature.map (·.name)).Nodup) <| by
    simp only [Manifest.isIdentifier_iff]
    constructor
    · rintro ⟨family, axes, distinct⟩
      exact ⟨family, fun s member => (axes s member).1, fun s member => (axes s member).2, distinct⟩
    · rintro ⟨family, axes, variants, distinct⟩
      exact ⟨family, fun s member => ⟨axes s member, variants s member⟩, distinct⟩

structure Manifest.WellFormed (manifest : Manifest) : Prop where
  name : Manifest.Identifier manifest.moduleName
  distinct : (manifest.families.map (·.name)).Nodup
  families : ∀ decl ∈ manifest.families, decl.WellFormed

theorem Axis.mem_enum_values {count v : UInt64} : v ∈ (Axis.enum count).values ↔ v < count := by
  simp only [Axis.values, List.mem_map, List.mem_range, UInt64.lt_iff_toNat_lt]
  constructor
  · rintro ⟨n, below, rfl⟩
    exact Nat.lt_of_le_of_lt (Nat.mod_le _ _) below
  · exact fun below => ⟨v.toNat, below, UInt64.ofNat_toNat⟩

namespace Manifest

theorem requireAll_eq_ok {ε : Type} {issue : String → ε} {names : List String} {done : PUnit}
    (h : forIn names PUnit.unit (fun name _ => do
      requireIdentifier (issue name) name
      pure (ForInStep.yield PUnit.unit)) = .ok done) : ∀ name ∈ names, Identifier name := by
  induction names with
  | nil => exact List.forall_mem_nil _
  | cons first rest ih =>
    rw [List.forIn_cons] at h
    obtain ⟨_, one, h⟩ := Outcome.bind_eq_ok.mp h
    obtain ⟨_, identifier, next⟩ := Outcome.bind_eq_ok.mp one
    rw [← Except.ok.inj next] at h
    exact List.forall_mem_cons.mpr
      ⟨isIdentifier_iff.mp (requireIdentifier_eq_ok identifier), ih h⟩

theorem enumCount_eq_ok {name : String} {count : Option UInt64} {variants : List String}
    {n : UInt64} (few : variants.length < 2 ^ 64) (h : enumCount name count variants = .ok n)
    (named : variants ≠ []) : n.toNat = variants.length := by
  cases variants with
  | nil => exact absurd rfl named
  | cons first rest =>
    cases count with
    | none => cases h; exact UInt64.toNat_ofNat_of_lt' few
    | some c =>
      simp only [enumCount, List.length_cons] at h ⊢
      split at h
      · cases h; assumption
      · cases h

/-- What the checks of an axis establish before its name is looked at. -/
theorem axisOf_eq_ok {written : Written.Axis} {axis : Axis} {name : String}
    {variants : List String} (h : axisOf written = .ok (axis, name, variants)) :
    axis.values ≠ [] ∧ (∀ v ∈ variants, Identifier v) ∧ variants.Nodup ∧
      variants = written.variants ∧
      ((variants = [] ∧ ∀ count, axis ≠ .enum count) ∨
        ∃ given count, axis = .enum count ∧ enumCount name given variants = .ok count) := by
  cases written with
  | type _ values =>
    cases values <;>
    · obtain ⟨domain, _, h⟩ := Outcome.bind_eq_ok.mp h
      dsimp only at h
      split at h
      · cases h
      · rename_i inhabited
        cases h
        refine ⟨?_, List.forall_mem_nil _, List.nodup_nil, rfl, .inl ⟨rfl, ?_⟩⟩
        · simpa [Axis.values] using inhabited
        · intro _ enum
          cases enum
  | bool =>
    cases h
    refine ⟨List.cons_ne_nil _ _, List.forall_mem_nil _, List.nodup_nil, rfl, .inl ⟨rfl, ?_⟩⟩
    intro _ enum
    cases enum
  | enum _ given listed =>
    obtain ⟨_, identifiers, h⟩ := Outcome.bind_eq_ok.mp h
    split at h
    · cases h
    · rename_i unrepeated
      have distinct :=
        firstRepeat?_eq_none_iff.mp (Option.eq_none_iff_forall_ne_some.mpr unrepeated)
      obtain ⟨n, counted, h⟩ := Outcome.bind_eq_ok.mp h
      split at h
      · cases h
      · rename_i inhabited
        cases h
        have least : 0 ∈ (Axis.enum n).values :=
          Axis.mem_enum_values.mpr (UInt64.pos_iff_ne_zero.mpr inhabited)
        exact ⟨List.ne_nil_of_mem least, requireAll_eq_ok identifiers, distinct.1, rfl,
          .inr ⟨given, n, rfl, counted⟩⟩

theorem checkAxis_eq_ok {written : Written.Axis} {checked : Axis × AxisSignature}
    (h : checkAxis written = .ok checked) :
    Identifier checked.2.name ∧ checked.2.kind = checked.1.kind ∧
      axisOf written = .ok (checked.1, checked.2.name, checked.2.variants) := by
  obtain ⟨⟨axis, name, variants⟩, found, h⟩ := Outcome.bind_eq_ok.mp h
  obtain ⟨_, identifier, h⟩ := Outcome.bind_eq_ok.mp h
  cases h
  exact ⟨isIdentifier_iff.mp (requireIdentifier_eq_ok identifier), rfl, found⟩

theorem checkAxis_describes {written : Written.Axis} {checked : Axis × AxisSignature}
    (few : written.variants.length < 2 ^ 64) (h : checkAxis written = .ok checked) :
    checked.2.Describes checked.1 := by
  obtain ⟨identifier, kind, found⟩ := checkAxis_eq_ok h
  obtain ⟨inhabited, identifiers, distinct, same, counted⟩ := axisOf_eq_ok found
  refine ⟨identifier, kind, inhabited, identifiers, distinct, fun named => ?_⟩
  obtain ⟨given, count, enum, counted⟩ := counted.resolve_left fun unnamed => named unnamed.1
  exact ⟨count, enum, enumCount_eq_ok (same ▸ few) counted named⟩

theorem checkAxes_eq_ok {earlier : List String} {written : List Written.Axis}
    {axes : List (Axis × AxisSignature)} (h : checkAxes earlier written = .ok axes) :
    List.Forall₂ (fun w a => checkAxis w = .ok a) written axes ∧
      (axes.map (·.2.name)).Nodup ∧ ∀ a ∈ axes, a.2.name ∉ earlier := by
  induction written generalizing earlier axes with
  | nil =>
    cases h
    exact ⟨.nil, List.nodup_nil, List.forall_mem_nil _⟩
  | cons first rest ih =>
    obtain ⟨⟨axis, signature⟩, one, h⟩ := Outcome.bind_eq_ok.mp h
    dsimp only at h
    split at h
    · cases h
    · rename_i new
      obtain ⟨others, checked, h⟩ := Outcome.bind_eq_ok.mp h
      cases h
      obtain ⟨each, distinct, apart⟩ := ih checked
      exact ⟨.cons one each, distinct_cons new distinct apart⟩

theorem checkFamily_admits {written : Written.Family} {decl : FamilyDecl}
    (h : checkFamily written = .ok decl) : Admits decl.name decl.signature := by
  obtain ⟨identifier, _⟩ := checkFamily_text h
  obtain ⟨axes, _, _, _, checked, _, _, _, rfl⟩ := checkFamily_eq_ok h
  obtain ⟨each, distinct, _⟩ := checkAxes_eq_ok checked
  have named : ∀ a ∈ axes, Identifier a.2.name ∧ ∀ v ∈ a.2.variants, Identifier v := by
    intro a member
    obtain ⟨w, _, one⟩ := exists_left each member
    obtain ⟨name, _, found⟩ := checkAxis_eq_ok one
    exact ⟨name, (axisOf_eq_ok found).2.1⟩
  refine ⟨isIdentifier_iff.mp identifier, ?_, ?_, by rwa [List.map_map]⟩
  · exact List.forall_mem_map.mpr fun a member => (named a member).1
  · exact List.forall_mem_map.mpr fun a member => (named a member).2

theorem checkAxes_describes {earlier : List String} {written : List Written.Axis}
    {axes : List (Axis × AxisSignature)}
    (few : ∀ a ∈ written, a.variants.length < 2 ^ 64) (h : checkAxes earlier written = .ok axes) :
    ∀ a ∈ axes, a.2.Describes a.1 := by
  intro a member
  obtain ⟨w, listed, one⟩ := exists_left (checkAxes_eq_ok h).1 member
  exact checkAxis_describes (few w listed) one

theorem encodeValue_mem {axis : Axis} {s : AxisSignature} (described : s.Describes axis)
    {value : Written.Value} {code : UInt64} (h : encodeValue axis s value = .ok code) :
    code ∈ axis.values := by
  unfold encodeValue at h
  split at h
  · obtain ⟨type, _, h⟩ := Outcome.bind_eq_ok.mp h
    split at h
    · rename_i listed
      cases h
      exact List.mem_map_of_mem listed
    · cases h
  · rename_i b
    cases h
    cases b <;> decide
  · split at h
    · rename_i below
      cases h
      exact Axis.mem_enum_values.mpr below
    · cases h
  · rename_i count text
    split at h
    · rename_i position found
      cases h
      obtain ⟨inside, _⟩ := List.idxOf?_eq_some_iff.mp found
      obtain ⟨_, same, counted⟩ := described.counted (List.ne_nil_of_length_pos (by omega))
      cases same
      rw [Axis.mem_enum_values, UInt64.lt_iff_toNat_lt, counted]
      exact Nat.lt_of_le_of_lt (Nat.mod_le _ _) inside
    · cases h
  · cases h

theorem checkPattern_fits {axes : List (Axis × AxisSignature)}
    (described : ∀ a ∈ axes, a.2.Describes a.1) {pattern : Written.Pattern} {c : Constraint}
    (h : checkPattern axes pattern = .ok c) : c.Fits (axes.map (·.1)) := by
  obtain ⟨_, resolved, rfl, entries⟩ := checkPattern_eq_ok h
  refine .exclude fun r member => ?_
  obtain ⟨entry, _, found, position, same, encoded⟩ := exists_left entries member
  have there := (positionOf_eq_ok position).2
  refine ⟨found.2.1, by rw [same, List.getElem?_map, there]; rfl, fun v listed => ?_⟩
  obtain ⟨value, _, code⟩ := exists_left (Outcome.mapM_eq_ok.mp encoded) listed
  exact encodeValue_mem (described found.2 (List.mem_of_getElem? there)) code

theorem checkSame_fits {axes : List (Axis × AxisSignature)} {pair : String × String}
    {c : Constraint} (h : checkSame axes pair = .ok c) : c.Fits (axes.map (·.1)) := by
  obtain ⟨first, second, hfirst, hsecond, alike, rfl⟩ := checkSame_eq_ok h
  have axis {name : String} {found : Nat × Axis × AxisSignature}
      (h : positionOf axes name = .ok found) :
      (axes.map (·.1))[found.1]? = some found.2.1 := by
    rw [List.getElem?_map, (positionOf_eq_ok h).2]
    rfl
  exact .same (axis hfirst) (axis hsecond) alike

theorem checkFamily_wellFormed {written : Written.Family} {decl : FamilyDecl}
    (few : ∀ a ∈ written.axes, a.variants.length < 2 ^ 64)
    (h : checkFamily written = .ok decl) : decl.WellFormed := by
  obtain ⟨identifier, template⟩ := checkFamily_text h
  obtain ⟨axes, excluded, same, body, checked, valid, hexcluded, hsame, rfl⟩ :=
    checkFamily_eq_ok h
  have described := checkAxes_describes few checked
  obtain ⟨_, distinct, _⟩ := checkAxes_eq_ok checked
  refine ⟨isIdentifier_iff.mp identifier, ?_, ?_, valid, fun c member => ?_,
    fun position named => ?_⟩
  · rw [List.forall₂_map_left_iff, List.forall₂_map_right_iff, List.forall₂_same]
    exact described
  · rw [List.map_map]
    exact distinct
  · rcases List.mem_append.mp member with member | member
    · obtain ⟨pattern, _, resolved⟩ := exists_left hexcluded member
      exact checkPattern_fits described resolved
    · obtain ⟨pair, _, resolved⟩ := exists_left hsame member
      exact checkSame_fits resolved
  · have reads := (Template.parse_eq_ok.mp template).2
    simpa using reads.position_lt named

theorem parse_wellFormed {origin text : String} {manifest : Manifest}
    (small : text.length < 2 ^ 64) (h : parse origin text = .ok manifest) :
    manifest.WellFormed := by
  obtain ⟨identifier, written, read, _, families⟩ := parse_eq_ok h
  refine ⟨isIdentifier_iff.mp identifier, parse_names h, fun decl member => ?_⟩
  obtain ⟨family, listed, checked⟩ := exists_left (checkFamilies_eq_ok families) member
  refine checkFamily_wellFormed (fun a inside => ?_) checked
  exact Nat.lt_of_le_of_lt (Written.read_variants read family listed a inside) small

end Manifest

/-- The value at a position of a prefix, read by a step that can fault. -/
def valueAt (chosen : Tuple) (position : Nat) : Except Fault UInt64 :=
  match chosen[position]? with
  | some value => .ok value
  | none => .error .outOfBounds

theorem valueAt_eq_ok {chosen : Tuple} {position : Nat} {v : UInt64}
    (there : chosen[position]? = some v) : valueAt chosen position = .ok v := by
  rw [valueAt, there]

theorem allM_eq_ok {ε α : Type} {test : α → Except ε Bool} {p : α → Bool} {items : List α}
    (each : ∀ a ∈ items, test a = .ok (p a)) : items.allM test = .ok (items.all p) := by
  induction items with
  | nil => rfl
  | cons a rest ih =>
    obtain ⟨first, others⟩ := List.forall_mem_cons.mp each
    rw [List.allM, first, List.all_cons]
    cases p a with
    | true => exact ih others
    | false => rfl

/-- A constraint reads values only after it has seen that all its axes are chosen, and stops at
the first that settles it. -/
def Constraint.test : Constraint → Tuple → Except Fault Bool
  | exclude pattern, chosen =>
    if pattern.all fun entry => entry.1 < chosen.length then
      (pattern.allM fun entry =>
        (valueAt chosen entry.1).map fun v => entry.2.contains v).map Bool.not
    else .ok true
  | same first second, chosen =>
    if chosen.length ≤ max first second then .ok true
    else do return (← valueAt chosen first) == (← valueAt chosen second)

def FamilyDecl.test (decl : FamilyDecl) (chosen : Tuple) : Except Fault Bool :=
  decl.constraints.allM fun c => c.test chosen

theorem Constraint.test_eq (c : Constraint) (chosen : Tuple) :
    c.test chosen = .ok (c.accepts chosen) := by
  cases c with
  | exclude pattern =>
    simp only [test, accepts]
    split
    · rename_i decided
      rw [allM_eq_ok (p := fun entry => (chosen[entry.1]?).any fun v => entry.2.contains v),
        decided, Bool.true_and]
      · rfl
      · intro entry member
        have inside := of_decide_eq_true (List.all_eq_true.mp decided entry member)
        have there := List.getElem?_eq_getElem inside
        rw [valueAt_eq_ok there, there]
        rfl
    · rename_i open_
      rw [Bool.not_eq_true] at open_
      rw [open_]
      rfl
  | same first second =>
    simp only [test, accepts]
    split
    · rename_i open_
      simp [open_]
    · rename_i decided
      have hfirst : first < chosen.length := by omega
      have hsecond : second < chosen.length := by omega
      have one := List.getElem?_eq_getElem hfirst
      have other := List.getElem?_eq_getElem hsecond
      rw [valueAt_eq_ok one, valueAt_eq_ok other, one, other, decide_eq_false decided,
        Bool.false_or]
      rfl

/-- No test of any prefix reads behind its end. -/
theorem FamilyDecl.test_eq (decl : FamilyDecl) (chosen : Tuple) :
    decl.test chosen = .ok (decl.accepts chosen) :=
  allM_eq_ok fun c _ => c.test_eq chosen

theorem Within.exists_value {axes : List Axis} {t : Tuple} (within : Within axes t)
    (full : t.length = axes.length) {position : Nat} {axis : Axis}
    (there : axes[position]? = some axis) : ∃ v, t[position]? = some v ∧ v ∈ axis.values := by
  induction axes generalizing t position with
  | nil => cases there
  | cons first rest ih =>
    cases t with
    | nil => cases full
    | cons v t =>
      cases position with
      | zero => cases there; exact ⟨v, rfl, within.1⟩
      | succ position => exact ih within.2 (Nat.succ.inj full) there

namespace FamilyDecl

/-- How a segment of the template is written for a tuple. A value stands by its own name; only on
an enumeration axis without names it is written as a number. -/
inductive Writes (decl : FamilyDecl) (t : Tuple) : Segment → String → Prop where
  | literal (text : String) : Writes decl t (.literal text) text
  | type {position : Nat} {domain : List TypeId} {member : TypeId}
      (axis : decl.axes[position]? = some (.type domain)) (listed : member ∈ domain)
      (chosen : t[position]? = some member.encode) :
      Writes decl t (.axis position) member.symbolName
  | bool {position : Nat} {b : Bool} (axis : decl.axes[position]? = some .bool)
      (chosen : t[position]? = some (if b then 1 else 0)) :
      Writes decl t (.axis position) (if b then "true" else "false")
  | variant {position : Nat} {count value : UInt64} {s : AxisSignature} {name : String}
      (axis : decl.axes[position]? = some (.enum count))
      (signature : decl.signature[position]? = some s) (chosen : t[position]? = some value)
      (named : s.variants[value.toNat]? = some name) : Writes decl t (.axis position) name
  | index {position : Nat} {count value : UInt64} {s : AxisSignature}
      (axis : decl.axes[position]? = some (.enum count))
      (signature : decl.signature[position]? = some s) (chosen : t[position]? = some value)
      (below : value < count) (unnamed : s.variants = []) :
      Writes decl t (.axis position) (toString value)

/-- An enumeration axis that names its values names all of them. -/
def Covered (decl : FamilyDecl) : Prop :=
  ∀ (position : Nat) (count : UInt64), decl.axes[position]? = some (.enum count) →
    ∃ s, decl.signature[position]? = some s ∧
      (s.variants = [] ∨ count.toNat ≤ s.variants.length)

variable {decl : FamilyDecl} {t : Tuple}

theorem WellFormed.covered (wellFormed : decl.WellFormed) : decl.Covered := by
  intro position count there
  obtain ⟨inside, same⟩ := List.getElem?_eq_some_iff.mp there
  have within : position < decl.signature.length := wellFormed.described.length_eq ▸ inside
  refine ⟨_, List.getElem?_eq_getElem within, or_iff_not_imp_left.mpr fun named => ?_⟩
  have described : decl.signature[position].Describes decl.axes[position] :=
    wellFormed.described.get within inside
  obtain ⟨_, axis, counted⟩ := described.counted named
  rw [same] at axis
  cases axis
  exact Nat.le_of_eq counted

theorem valueSymbol_writes (covered : decl.Covered) {position : Nat} {axis : Axis}
    (there : decl.axes[position]? = some axis) {v : UInt64} (chosen : t[position]? = some v)
    (taken : v ∈ axis.values) :
    ∃ text, decl.valueSymbol position v = .ok text ∧ decl.Writes t (.axis position) text := by
  cases axis with
  | type domain =>
    obtain ⟨member, listed, rfl⟩ := List.mem_map.mp taken
    refine ⟨_, ?_, .type there listed chosen⟩
    simp only [valueSymbol, there, TypeId.decode_encode]
    rfl
  | bool =>
    rcases List.mem_cons.mp taken with rfl | taken
    · exact ⟨_, by simp only [valueSymbol, there]; rfl, .bool (b := false) there chosen⟩
    · obtain rfl := List.mem_singleton.mp taken
      exact ⟨_, by simp only [valueSymbol, there]; rfl, .bool (b := true) there chosen⟩
  | enum count =>
    have below := Axis.mem_enum_values.mp taken
    obtain ⟨s, signature, unnamed | named⟩ := covered position count there
    · refine ⟨_, ?_, .index there signature chosen below unnamed⟩
      simp only [valueSymbol, there, signature, unnamed]
      rfl
    · have inside : v.toNat < s.variants.length :=
        Nat.lt_of_lt_of_le (UInt64.lt_iff_toNat_lt.mp below) named
      have name := List.getElem?_eq_getElem inside
      refine ⟨_, ?_, .variant there signature chosen name⟩
      simp only [valueSymbol, there, signature, name]
      rfl

/-- The value on an axis has a text, also on an axis that the template leaves out. -/
theorem axisText_writes (covered : decl.Covered) (within : Within decl.axes t)
    (full : t.length = decl.axes.length) {position : Nat} (inside : position < decl.axes.length) :
    ∃ text, decl.segmentText t (.axis position) = .ok text ∧
      decl.Writes t (.axis position) text := by
  have there := List.getElem?_eq_getElem inside
  obtain ⟨v, chosen, taken⟩ := within.exists_value full there
  obtain ⟨text, symbol, writes⟩ := valueSymbol_writes covered there chosen taken
  refine ⟨text, ?_, writes⟩
  simp only [segmentText, chosen, symbol]

theorem segmentText_writes (wellFormed : decl.WellFormed) (within : Within decl.axes t)
    (full : t.length = decl.axes.length) {segment : Segment} (member : segment ∈ decl.body) :
    ∃ text, decl.segmentText t segment = .ok text ∧ decl.Writes t segment text := by
  cases segment with
  | literal text => exact ⟨text, rfl, .literal text⟩
  | axis position =>
    exact axisText_writes wellFormed.covered within full (wellFormed.body position member)

/-- Every full tuple within the axes has a body symbol, written segment by segment. -/
theorem bodySymbol_writes (wellFormed : decl.WellFormed) (within : Within decl.axes t)
    (full : t.length = decl.axes.length) :
    ∃ texts, List.Forall₂ (decl.Writes t) decl.body texts ∧
      decl.bodySymbol t = .ok (String.join texts) := by
  obtain ⟨texts, written, writes⟩ :=
    Outcome.exists_mapM_forall₂ fun _ => segmentText_writes wellFormed within full
  exact ⟨texts, writes, by rw [bodySymbol, written]; rfl⟩

theorem exists_enumerated (valid : Axis.validate decl.axes = .ok ()) :
    ∃ tuples, decl.enumerated = .ok tuples ∧
      ∀ t ∈ tuples, Within decl.axes t ∧ t.length = decl.axes.length := by
  refine ⟨legalTuples decl.accepts decl.axes [], ?_, fun t member => ?_⟩
  · rw [enumerated_eq, valid]
    rfl
  · rw [legalTuples_eq] at member
    exact mem_crossProduct.mp (List.mem_filter.mp member).1

theorem WellFormed.exists_enumerated (wellFormed : decl.WellFormed) :
    ∃ tuples, decl.enumerated = .ok tuples ∧
      ∀ t ∈ tuples, Within decl.axes t ∧ t.length = decl.axes.length :=
  FamilyDecl.exists_enumerated wellFormed.valid

end FamilyDecl

/-- An accepted manifest is well-formed. No test of a prefix reads behind its end, and every tuple
of a family has a body symbol that names its values. The length of the text, and with it the number
of names an axis can list, is a 64-bit number. -/
theorem accepted_manifests_are_well_formed {origin text : String} {manifest : Manifest}
    (small : text.length < 2 ^ 64) (parsed : Manifest.parse origin text = .ok manifest) :
    manifest.WellFormed ∧ ∀ decl ∈ manifest.families,
      (∀ chosen, decl.test chosen = .ok (decl.accepts chosen)) ∧
      ∃ tuples, decl.enumerated = .ok tuples ∧
        ∀ t ∈ tuples, ∃ texts, List.Forall₂ (decl.Writes t) decl.body texts ∧
          decl.bodySymbol t = .ok (String.join texts) := by
  have wellFormed := Manifest.parse_wellFormed small parsed
  refine ⟨wellFormed, fun decl member => ⟨decl.test_eq, ?_⟩⟩
  have family := wellFormed.families decl member
  obtain ⟨tuples, enumerated, full⟩ := family.exists_enumerated
  refine ⟨tuples, enumerated, fun t found => ?_⟩
  obtain ⟨within, length⟩ := full t found
  exact FamilyDecl.bodySymbol_writes family within length

/-- A family with a type, numbers, and names of which one is excluded. -/
def spelledManifest : String :=
  "module=\"m\"\n[[family]]\nname=\"f\"\nbody=\"\x7bt\x7d_\x7bn\x7d\x7bk\x7d\"\n" ++
    "axes=[[\"type\",\"t\",[\"u8*\"]],[\"enum\",\"n\",2]," ++
    "\x7bkind=\"enum\",name=\"k\",variants=[\"p\",\"q\"]\x7d]\nexclude=[\x7bk=[\"q\"]\x7d]\n"

theorem spelledManifest_is_well_formed :
    spelledManifest.length < 2 ^ 64 ∧
      ∃ manifest decl, Manifest.parse "m.toml" spelledManifest = .ok manifest ∧
        decl ∈ manifest.families ∧ manifest.WellFormed ∧
        ∃ tuples, decl.enumerated = .ok tuples ∧ tuples.length = 2 ∧
          ∀ t ∈ tuples, ∃ texts, List.Forall₂ (decl.Writes t) decl.body texts ∧
            decl.bodySymbol t = .ok (String.join texts) := by
  have small : spelledManifest.length < 2 ^ 64 := by decide +kernel
  have evaluated : (do
      let manifest ← (Manifest.parse "m.toml" spelledManifest).toOption
      let decl ← manifest.families.head?
      return (legalTuples decl.accepts decl.axes []).length) = some 2 := by decide +kernel
  simp only [Option.bind_eq_bind, Option.bind_eq_some_iff, Outcome.toOption_eq_some] at evaluated
  obtain ⟨manifest, parsed, decl, first, count⟩ := evaluated
  have member := List.mem_of_head? first
  obtain ⟨wellFormed, families⟩ := accepted_manifests_are_well_formed small parsed
  obtain ⟨_, tuples, enumerated, symbols⟩ := families decl member
  refine ⟨small, manifest, decl, parsed, member, wellFormed, tuples, enumerated, ?_, symbols⟩
  rw [FamilyDecl.enumerated_eq] at enumerated
  obtain ⟨_, _, rfl⟩ := Outcome.map_eq_ok.mp enumerated
  exact Option.some.inj count

end CopyPatch
