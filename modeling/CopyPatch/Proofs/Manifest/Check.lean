import CopyPatch.Manifest.Check
import CopyPatch.Proofs.Outcome

/-! Manifests that pass the checks, read backwards: what a checked family, its axes and its
constraints say about what was written. -/
namespace CopyPatch.Manifest

theorem requireIdentifier_eq_ok {ε : Type} {issue : ε} {name : String}
    (h : requireIdentifier issue name = .ok ()) : isIdentifier name = true := by
  unfold requireIdentifier at h
  split at h
  · assumption
  · cases h

/-- Names checked one after another against those already taken are distinct. -/
theorem distinct_cons {α : Type} {name : α → String} {earlier : List String} {a : α}
    {rest : List α} (new : name a ∉ earlier) (distinct : (rest.map name).Nodup)
    (apart : ∀ b ∈ rest, name b ∉ name a :: earlier) :
    ((a :: rest).map name).Nodup ∧ ∀ b ∈ a :: rest, name b ∉ earlier := by
  refine ⟨List.nodup_cons.mpr ⟨fun member => ?_, distinct⟩, List.forall_mem_cons.mpr ⟨new, ?_⟩⟩
  · obtain ⟨b, later, same⟩ := List.mem_map.mp member
    exact apart b later (same ▸ List.mem_cons_self)
  · exact fun b later known => apart b later (List.mem_cons_of_mem _ known)

def Written.Axis.name : Written.Axis → String
  | .type name _ => name
  | .bool name => name
  | .enum name _ _ => name

theorem axisOf_name {written : Written.Axis} {axis : Axis} {name : String}
    {variants : List String} (h : axisOf written = .ok (axis, name, variants)) :
    name = written.name := by
  cases written with
  | type _ values =>
    cases values <;>
    · obtain ⟨_, _, h⟩ := Outcome.bind_eq_ok.mp h
      dsimp only at h
      split at h
      · cases h
      · cases h; rfl
  | bool => cases h; rfl
  | enum _ count listed =>
    obtain ⟨_, _, h⟩ := Outcome.bind_eq_ok.mp h
    split at h
    · cases h
    · obtain ⟨_, _, h⟩ := Outcome.bind_eq_ok.mp h
      split at h
      · cases h
      · cases h; rfl

theorem checkAxis_name {written : Written.Axis} {checked : Axis × AxisSignature}
    (h : checkAxis written = .ok checked) : checked.2.name = written.name := by
  obtain ⟨⟨axis, name, variants⟩, named, h⟩ := Outcome.bind_eq_ok.mp h
  obtain ⟨_, _, h⟩ := Outcome.bind_eq_ok.mp h
  cases h
  exact axisOf_name named

theorem checkAxes_names {earlier : List String} {written : List Written.Axis}
    {axes : List (Axis × AxisSignature)} (h : checkAxes earlier written = .ok axes) :
    axes.map (·.2.name) = written.map Written.Axis.name := by
  induction written generalizing earlier axes with
  | nil => cases h; rfl
  | cons first rest ih =>
    obtain ⟨⟨axis, signature⟩, one, h⟩ := Outcome.bind_eq_ok.mp h
    dsimp only at h
    split at h
    · cases h
    · obtain ⟨others, hothers, h⟩ := Outcome.bind_eq_ok.mp h
      cases h
      rw [List.map_cons, List.map_cons, checkAxis_name one, ih hothers]

theorem positionOf_eq_ok {axes : List (Axis × AxisSignature)} {name : String}
    {found : Nat × Axis × AxisSignature} (h : positionOf axes name = .ok found) :
    axes.findIdx? (fun a => a.2.name = name) = some found.1 ∧ axes[found.1]? = some found.2 := by
  unfold positionOf at h
  split at h
  · rename_i position first
    split at h
    · rename_i axis there
      cases h
      exact ⟨first, there⟩
    · cases h
  · cases h

theorem checkPattern_eq_ok {axes : List (Axis × AxisSignature)} {pattern : Written.Pattern}
    {c : Constraint} (h : checkPattern axes pattern = .ok c) :
    pattern ≠ [] ∧ ∃ resolved, c = .exclude resolved ∧
      List.Forall₂ (fun entry r => ∃ found, positionOf axes entry.1 = .ok found ∧
        r.1 = found.1 ∧ entry.2.mapM (encodeValue found.2.1 found.2.2) = .ok r.2)
        pattern resolved := by
  unfold checkPattern at h
  split at h
  · cases h
  · rename_i nonempty
    obtain ⟨resolved, entries, h⟩ := Outcome.bind_eq_ok.mp h
    cases h
    refine ⟨by simpa using nonempty, resolved, rfl, ?_⟩
    refine (Outcome.mapM_eq_ok.mp entries).imp ?_
    rintro ⟨name, values⟩ r entry
    obtain ⟨found, position, entry⟩ := Outcome.bind_eq_ok.mp entry
    obtain ⟨codes, encoded, entry⟩ := Outcome.bind_eq_ok.mp entry
    cases entry
    exact ⟨found, position, rfl, encoded⟩

theorem checkSame_eq_ok {axes : List (Axis × AxisSignature)} {pair : String × String}
    {c : Constraint} (h : checkSame axes pair = .ok c) :
    ∃ first second, positionOf axes pair.1 = .ok first ∧ positionOf axes pair.2 = .ok second ∧
      first.2.1.kind = second.2.1.kind ∧ c = .same first.1 second.1 := by
  obtain ⟨⟨first, _, _⟩, hfirst, h⟩ := Outcome.bind_eq_ok.mp h
  obtain ⟨⟨second, _, _⟩, hsecond, h⟩ := Outcome.bind_eq_ok.mp h
  dsimp only at h
  split at h
  · cases h
  · rename_i alike
    cases h
    exact ⟨_, _, hfirst, hsecond, Classical.not_not.mp alike, rfl⟩

theorem checkFamily_eq_ok {written : Written.Family} {decl : FamilyDecl}
    (h : checkFamily written = .ok decl) :
    ∃ axes excluded same body, checkAxes [] written.axes = .ok axes ∧
      Axis.validate (axes.map (·.1)) = .ok () ∧
      List.Forall₂ (fun pattern c => checkPattern axes pattern = .ok c) written.exclude excluded ∧
      List.Forall₂ (fun pair c => checkSame axes pair = .ok c) written.same same ∧
      decl = {
        name := written.name
        axes := axes.map (·.1)
        signature := axes.map (·.2)
        constraints := excluded ++ same
        body } := by
  obtain ⟨_, _, h⟩ := Outcome.bind_eq_ok.mp h
  obtain ⟨axes, checked, h⟩ := Outcome.bind_eq_ok.mp h
  obtain ⟨_, valid, h⟩ := Outcome.bind_eq_ok.mp h
  obtain ⟨excluded, hexcluded, h⟩ := Outcome.bind_eq_ok.mp h
  obtain ⟨same, hsame, h⟩ := Outcome.bind_eq_ok.mp h
  obtain ⟨body, _, h⟩ := Outcome.bind_eq_ok.mp h
  cases h
  exact ⟨axes, excluded, same, body, checked, Outcome.mapError_eq_ok.mp valid,
    Outcome.mapM_eq_ok.mp hexcluded, Outcome.mapM_eq_ok.mp hsame, rfl⟩

theorem checkFamily_text {written : Written.Family} {decl : FamilyDecl}
    (h : checkFamily written = .ok decl) : isIdentifier decl.name = true ∧
      Template.parse written.body (decl.signature.map (·.name)) = .ok decl.body := by
  obtain ⟨_, identifier, h⟩ := Outcome.bind_eq_ok.mp h
  obtain ⟨axes, _, h⟩ := Outcome.bind_eq_ok.mp h
  obtain ⟨_, _, h⟩ := Outcome.bind_eq_ok.mp h
  obtain ⟨_, _, h⟩ := Outcome.bind_eq_ok.mp h
  obtain ⟨_, _, h⟩ := Outcome.bind_eq_ok.mp h
  obtain ⟨body, template, h⟩ := Outcome.bind_eq_ok.mp h
  cases h
  rw [List.map_map]
  exact ⟨requireIdentifier_eq_ok identifier, template⟩

theorem checkFamilies_eq_ok {earlier : List String} {written : List Written.Family}
    {decls : List FamilyDecl} (h : checkFamilies earlier written = .ok decls) :
    List.Forall₂ (fun family decl => checkFamily family = .ok decl) written decls := by
  induction written generalizing earlier decls with
  | nil => cases h; exact .nil
  | cons first rest ih =>
    unfold checkFamilies at h
    split at h
    · cases h
    · obtain ⟨decl, checked, h⟩ := Outcome.bind_eq_ok.mp h
      obtain ⟨others, hothers, h⟩ := Outcome.bind_eq_ok.mp h
      cases h
      exact .cons (Outcome.mapError_eq_ok.mp checked) (ih hothers)

theorem letters_of_isIdentifier {name : String} (identifier : isIdentifier name = true) :
    ∀ c ∈ name.toList, (c.isLower || c.isDigit || decide (c = '_')) = true := by
  simp only [isIdentifier, Bool.and_eq_true] at identifier
  cases letters : name.toList with
  | nil => exact List.forall_mem_nil _
  | cons first rest =>
    simp only [letters, Bool.and_eq_true, List.all_eq_true] at identifier
    refine List.forall_mem_cons.mpr ⟨?_, identifier.2.2⟩
    have start := identifier.2.1
    simp only [Bool.or_eq_true] at start ⊢
    exact start.imp_left Or.inl

theorem parse_eq_ok {origin text : String} {manifest : Manifest}
    (h : parse origin text = .ok manifest) :
    isIdentifier manifest.moduleName = true ∧
      ∃ written, Written.read text = some written ∧ manifest.moduleName = written.name ∧
        checkFamilies [] written.families = .ok manifest.families := by
  unfold parse at h
  split at h
  · cases h
  · rename_i written read
    obtain ⟨_, identifier, h⟩ := Outcome.bind_eq_ok.mp (Outcome.mapError_eq_ok.mp h)
    obtain ⟨_, checked, h⟩ := Outcome.bind_eq_ok.mp h
    cases h
    exact ⟨requireIdentifier_eq_ok identifier, written, read, rfl, checked⟩

theorem checkFamily_name {written : Written.Family} {decl : FamilyDecl}
    (h : checkFamily written = .ok decl) : decl.name = written.name := by
  obtain ⟨_, _, _, _, _, _, _, _, rfl⟩ := checkFamily_eq_ok h
  rfl

theorem checkFamilies_names {earlier : List String} {written : List Written.Family}
    {decls : List FamilyDecl} (h : checkFamilies earlier written = .ok decls) :
    (decls.map (·.name)).Nodup ∧ ∀ decl ∈ decls, decl.name ∉ earlier := by
  induction written generalizing earlier decls with
  | nil => cases h; exact ⟨List.nodup_nil, fun _ member => nomatch member⟩
  | cons first rest ih =>
    unfold checkFamilies at h
    split at h
    · cases h
    · rename_i new
      obtain ⟨decl, checked, h⟩ := Outcome.bind_eq_ok.mp h
      obtain ⟨others, hothers, h⟩ := Outcome.bind_eq_ok.mp h
      cases h
      rw [← checkFamily_name (Outcome.mapError_eq_ok.mp checked)] at new hothers
      obtain ⟨distinct, apart⟩ := ih hothers
      exact distinct_cons new distinct apart

/-- No two families of a manifest share a name. -/
theorem parse_names {origin text : String} {manifest : Manifest}
    (h : parse origin text = .ok manifest) : (manifest.families.map (·.name)).Nodup := by
  obtain ⟨_, _, _, _, checked⟩ := parse_eq_ok h
  exact (checkFamilies_names checked).1

end CopyPatch.Manifest
