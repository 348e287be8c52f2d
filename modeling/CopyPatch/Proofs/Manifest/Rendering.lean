import CopyPatch.Proofs.Manifest.WellFormed

/-! Templates and the symbols made from them. The segments of a template, written back, are the
template itself. The symbol of a tuple is the template with the placeholders replaced from left to
right, each by the text of the value that the tuple has on the axis of that name. -/
namespace CopyPatch

namespace Manifest.Template

/-- Replace every name in braces, from left to right. -/
def substitute (symbol : String → String) : List Char → List Char
  | [] => []
  | c :: rest =>
    if c = '\x7b' then
      (symbol (String.ofList (rest.takeWhile (· ≠ '\x7d')))).toList ++
        substitute symbol ((rest.dropWhile (· ≠ '\x7d')).drop 1)
    else c :: substitute symbol rest
termination_by template => template.length
decreasing_by
  · have shorter := (List.dropWhile_sublist (l := rest) (· ≠ '\x7d')).length_le
    simp only [List.length_drop, List.length_cons]
    omega
  · exact Nat.lt_succ_self _

/-- A segment as it stands in a template. -/
def segmentSource (names : List String) : Segment → Except Fault String
  | .literal text => .ok text
  | .axis position => match names[position]? with
    | some name => .ok (String.ofList (braced name.toList))
    | none => .error .outOfBounds

/-- The template that segments make up. -/
def source (names : List String) (segments : List Segment) : Except Fault String :=
  (segments.mapM (segmentSource names)).map String.join

section Substitution

variable {symbol : String → String}

theorem substitute_append {text : List Char} (closed : '\x7b' ∉ text) (rest : List Char) :
    substitute symbol (text ++ rest) = text ++ substitute symbol rest := by
  induction text with
  | nil => rfl
  | cons c text ih =>
    rw [List.mem_cons, not_or] at closed
    rw [List.cons_append, substitute, if_neg (Ne.symm closed.1), ih closed.2, List.cons_append]

theorem substitute_plain {text : List Char} (plain : ∀ c ∈ text, Plain c) :
    substitute symbol text = text := by
  have closed : '\x7b' ∉ text := fun member => (plain _ member).1 rfl
  have appended : substitute symbol (text ++ []) = text ++ substitute symbol [] :=
    substitute_append closed []
  rwa [List.append_nil, substitute, List.append_nil] at appended

theorem substitute_braced {name : List Char} (ended : '\x7d' ∉ name) (rest : List Char) :
    substitute symbol (braced name ++ rest) =
      (symbol (String.ofList name)).toList ++ substitute symbol rest := by
  have inside : ∀ c ∈ name, decide (c ≠ '\x7d') = true :=
    fun c member => decide_eq_true (ne_of_mem_of_not_mem member ended)
  rw [braced_append, substitute, if_pos rfl, List.takeWhile_append_of_pos inside,
    List.dropWhile_append_of_pos inside]
  simp

end Substitution

theorem exists_literal {ε : Type} {write : Segment → Except ε String}
    (literals : ∀ text, write (.literal text) = .ok text) (text : List Char) :
    ∃ texts, List.Forall₂ (fun s written => write s = .ok written) (literal text) texts ∧
      (String.join texts).toList = text := by
  cases text with
  | nil => exact ⟨[], .nil, rfl⟩
  | cons c rest => exact ⟨_, .cons (literals _) .nil, by simp [String.join]⟩

namespace Reads

variable {names : List String} {cs : List Char} {segments : List Segment}

/-- Whoever writes literals as they are, and an axis by what belongs to its name, writes the
template with its placeholders replaced. -/
theorem join_eq {ε : Type} {write : Segment → Except ε String} {symbol : String → String}
    (reads : Reads names cs segments) (literals : ∀ text, write (.literal text) = .ok text)
    (axes : ∀ name position, names.idxOf? name = some position →
      write (.axis position) = .ok (symbol name)) :
    (segments.mapM write).map String.join = .ok (String.ofList (substitute symbol cs)) := by
  suffices h : ∃ texts, List.Forall₂ (fun s written => write s = .ok written) segments texts ∧
      (String.join texts).toList = substitute symbol cs by
    obtain ⟨texts, written, joined⟩ := h
    rw [Outcome.mapM_eq_ok.mpr written, ← joined, String.ofList_toList]
    rfl
  induction reads with
  | @last text plain =>
    rw [substitute_plain plain]
    exact exists_literal literals text
  | @placeholder text name rest position segments closed ended known _ ih =>
    obtain ⟨front, first, before⟩ := exists_literal literals text
    obtain ⟨back, others, after⟩ := ih
    refine ⟨front ++ symbol (String.ofList name) :: back,
      List.rel_append first (.cons (axes _ _ known) others), ?_⟩
    rw [substitute_append closed, substitute_braced ended, ← after, String.join_append,
      String.toList_append, before, String.join_cons, String.toList_append]

/-- Putting the names back leaves a template as it is. -/
theorem substitute_braced_eq (reads : Reads names cs segments) :
    substitute (fun name => String.ofList (braced name.toList)) cs = cs := by
  induction reads with
  | last plain => exact substitute_plain plain
  | @placeholder text name rest position segments closed ended known _ ih =>
    rw [substitute_append closed, substitute_braced ended, ih, String.toList_ofList,
      String.toList_ofList]

theorem source_eq (reads : Reads names cs segments) :
    source names segments = .ok (String.ofList cs) := by
  have written : source names segments =
      .ok (String.ofList (substitute (fun name => String.ofList (braced name.toList)) cs)) := by
    refine reads.join_eq (fun _ => rfl) fun name position known => ?_
    obtain ⟨inside, same, _⟩ := List.idxOf?_eq_some_iff.mp known
    simp only [segmentSource, List.getElem?_eq_getElem inside, same]
  rw [written, reads.substitute_braced_eq]

theorem literal_ne_empty (reads : Reads names cs segments) {text : String}
    (member : Segment.literal text ∈ segments) : text ≠ "" := by
  have nonempty {shown : List Char} (listed : Segment.literal text ∈ literal shown) :
      text ≠ "" := by
    obtain ⟨some, same⟩ := mem_literal.mp listed
    cases same
    exact fun none => some (by rw [← String.toList_ofList (l := shown), none]; rfl)
  induction reads with
  | last => exact nonempty member
  | placeholder _ _ _ _ ih =>
    rcases List.mem_append.mp member with member | member
    · exact nonempty member
    · exact ih ((List.mem_cons.mp member).resolve_left (by intro h; cases h))

end Reads

end Manifest.Template

namespace Manifest

theorem enumCount_le {name : String} {count : Option UInt64} {variants : List String} {n : UInt64}
    (h : enumCount name count variants = .ok n) :
    variants = [] ∨ n.toNat ≤ variants.length := by
  cases variants with
  | nil => exact .inl rfl
  | cons first rest =>
    right
    cases count with
    | none =>
      cases h
      exact Nat.mod_le _ _
    | some c =>
      simp only [enumCount, List.length_cons] at h ⊢
      split at h
      · rename_i same
        cases h
        exact Nat.le_of_eq same
      · cases h

theorem checkAxis_covered {written : Written.Axis} {checked : Axis × AxisSignature}
    (h : checkAxis written = .ok checked) {count : UInt64} (enum : checked.1 = .enum count) :
    checked.2.variants = [] ∨ count.toNat ≤ checked.2.variants.length := by
  obtain ⟨_, _, found⟩ := checkAxis_eq_ok h
  obtain ⟨_, _, _, _, ⟨unnamed, _⟩ | ⟨given, n, same, counted⟩⟩ := axisOf_eq_ok found
  · exact .inl unnamed
  · cases enum.symm.trans same
    exact enumCount_le counted

theorem checkFamily_axes {written : Written.Family} {decl : FamilyDecl}
    (h : checkFamily written = .ok decl) :
    decl.Covered ∧ (decl.signature.map (·.name)).Nodup ∧
      decl.signature.length = decl.axes.length ∧ Axis.validate decl.axes = .ok () := by
  obtain ⟨axes, _, _, _, checked, valid, _, _, rfl⟩ := checkFamily_eq_ok h
  obtain ⟨each, distinct, _⟩ := checkAxes_eq_ok checked
  refine ⟨fun position count there => ?_, ?_, ?_, valid⟩
  · obtain ⟨a, listed, enum⟩ := Option.map_eq_some_iff.mp (List.getElem?_map ▸ there)
    obtain ⟨w, _, one⟩ := exists_left each (List.mem_of_getElem? listed)
    refine ⟨a.2, ?_, checkAxis_covered one enum⟩
    rw [List.getElem?_map, listed, Option.map_some]
  · rwa [List.map_map]
  · rw [List.length_map, List.length_map]

end Manifest

namespace FamilyDecl

/-- The symbol of a tuple is the template with the text of each value in the place of the name of
its axis. -/
def Renders (decl : FamilyDecl) (template : String) (t : Tuple) : Prop :=
  ∃ symbol : String → String,
    (∀ (position : Nat) (s : AxisSignature), decl.signature[position]? = some s →
      decl.Writes t (.axis position) (symbol s.name)) ∧
    decl.bodySymbol t =
      .ok (String.ofList (Manifest.Template.substitute symbol template.toList))

/-- A family makes the symbols of all its tuples from a template. -/
structure FollowsTemplate (decl : FamilyDecl) (template : String) : Prop where
  parsed : Manifest.Template.parse template (decl.signature.map (·.name)) = .ok decl.body
  rendered : ∃ tuples, decl.enumerated = .ok tuples ∧ ∀ t ∈ tuples, decl.Renders template t

/-- The texts of the values, found by the names of the axes. -/
theorem exists_symbol {decl : FamilyDecl} {t : Tuple}
    (distinct : (decl.signature.map (·.name)).Nodup)
    (each : ∀ position < decl.signature.length, ∃ text,
      decl.segmentText t (.axis position) = .ok text ∧ decl.Writes t (.axis position) text) :
    ∃ symbol : String → String, ∀ (position : Nat) (s : AxisSignature),
      decl.signature[position]? = some s →
        decl.segmentText t (.axis position) = .ok (symbol s.name) ∧
          decl.Writes t (.axis position) (symbol s.name) := by
  have total : ∀ position, ∃ text, position < decl.signature.length →
      decl.segmentText t (.axis position) = .ok text ∧ decl.Writes t (.axis position) text := by
    intro position
    by_cases inside : position < decl.signature.length
    · obtain ⟨text, written⟩ := each position inside
      exact ⟨text, fun _ => written⟩
    · exact ⟨"", fun h => absurd h inside⟩
  obtain ⟨text, written⟩ := Classical.skolem.mp total
  refine ⟨fun name => text ((decl.signature.map (·.name)).idxOf name), fun position s there => ?_⟩
  obtain ⟨inside, rfl⟩ := List.getElem?_eq_some_iff.mp there
  have place : (decl.signature.map (·.name)).idxOf decl.signature[position].name = position := by
    have found := distinct.idxOf_getElem position (by simpa using inside)
    rwa [List.getElem_map] at found
  simp only [place]
  exact written position inside

theorem renders_of_parse {decl : FamilyDecl} {template : String} {t : Tuple}
    (covered : decl.Covered) (distinct : (decl.signature.map (·.name)).Nodup)
    (sized : decl.signature.length = decl.axes.length)
    (parsed : Manifest.Template.parse template (decl.signature.map (·.name)) = .ok decl.body)
    (within : Within decl.axes t) (full : t.length = decl.axes.length) :
    decl.Renders template t := by
  obtain ⟨symbol, written⟩ := exists_symbol distinct fun position inside =>
    axisText_writes covered within full (sized ▸ inside)
  refine ⟨symbol, fun position s there => (written position s there).2, ?_⟩
  have reads := (Manifest.Template.parse_eq_ok.mp parsed).2
  refine reads.join_eq (fun _ => rfl) fun name position known => ?_
  obtain ⟨inside, same, _⟩ := List.idxOf?_eq_some_iff.mp known
  rw [List.length_map] at inside
  rw [List.getElem_map] at same
  rw [← same]
  exact (written position _ (List.getElem?_eq_getElem inside)).1

end FamilyDecl

theorem Manifest.checkFamily_followsTemplate {written : Written.Family} {decl : FamilyDecl}
    (h : checkFamily written = .ok decl) : decl.FollowsTemplate written.body := by
  obtain ⟨_, parsed⟩ := checkFamily_text h
  obtain ⟨covered, distinct, sized, valid⟩ := checkFamily_axes h
  obtain ⟨tuples, enumerated, each⟩ := FamilyDecl.exists_enumerated valid
  refine ⟨parsed, tuples, enumerated, fun t member => ?_⟩
  obtain ⟨within, full⟩ := each t member
  exact FamilyDecl.renders_of_parse covered distinct sized parsed within full

/-- The segments of an accepted template make up the template and hold no empty text; and every
family of an accepted manifest makes the symbols of its tuples from the template written for it. -/
theorem templates_render_faithfully :
    (∀ body names segments, Manifest.Template.parse body names = .ok segments →
      Manifest.Template.source names segments = .ok body ∧
        ∀ text, Segment.literal text ∈ segments → text ≠ "") ∧
    (∀ origin text manifest, Manifest.parse origin text = .ok manifest →
      ∃ written, Manifest.Written.read text = some written ∧
        List.Forall₂ (fun family decl => decl.FollowsTemplate family.body)
          written.families manifest.families) := by
  constructor
  · intro body names segments parsed
    have reads := (Manifest.Template.parse_eq_ok.mp parsed).2
    refine ⟨?_, fun text member => reads.literal_ne_empty member⟩
    rw [reads.source_eq, String.ofList_toList]
  · intro origin text manifest parsed
    obtain ⟨_, written, read, _, families⟩ := Manifest.parse_eq_ok parsed
    refine ⟨written, read, (Manifest.checkFamilies_eq_ok families).imp ?_⟩
    exact fun _ _ checked => Manifest.checkFamily_followsTemplate checked

/-- One placeholder twice, and a closing brace that stays in the text. -/
def doubledManifest : String :=
  "module=\"m\"\n[[family]]\nname=\"f\"\nbody=\"\x7bx\x7d\x7bx\x7d\x7d_\x7bn\x7d\"\n" ++
    "axes=[[\"bool\",\"x\"],[\"enum\",\"n\",2]]\n"

theorem doubledManifest_renders :
    ∃ manifest written decl, Manifest.parse "m.toml" doubledManifest = .ok manifest ∧
      Manifest.Written.read doubledManifest = some written ∧ decl ∈ manifest.families ∧
      List.Forall₂ (fun family decl => decl.FollowsTemplate family.body)
        written.families manifest.families ∧
      decl.body = [.axis 0, .axis 0, .literal "\x7d_", .axis 1] ∧
      Manifest.Template.source ["x", "n"] decl.body = .ok "\x7bx\x7d\x7bx\x7d\x7d_\x7bn\x7d" ∧
      decl.bodySymbol [1, 0] = .ok "truetrue\x7d_0" := by
  have evaluated : (do
      let manifest ← (Manifest.parse "m.toml" doubledManifest).toOption
      let decl ← manifest.families.head?
      return (decl.body, (decl.bodySymbol [1, 0]).toOption)) =
        some ([.axis 0, .axis 0, .literal "\x7d_", .axis 1], some "truetrue\x7d_0") := by
    decide +kernel
  simp only [Option.bind_eq_bind, Option.bind_eq_some_iff, Outcome.toOption_eq_some] at evaluated
  obtain ⟨manifest, parsed, decl, first, shown⟩ := evaluated
  obtain ⟨body, symbol⟩ := Prod.mk.inj (Option.some.inj shown)
  obtain ⟨templates, manifests⟩ := templates_render_faithfully
  obtain ⟨written, read, follows⟩ := manifests _ _ _ parsed
  have template : Manifest.Template.parse "\x7bx\x7d\x7bx\x7d\x7d_\x7bn\x7d" ["x", "n"] =
      .ok [.axis 0, .axis 0, .literal "\x7d_", .axis 1] := by decide
  exact ⟨manifest, written, decl, parsed, read, List.mem_of_head? first, follows, body,
    body ▸ (templates _ _ _ template).1, Outcome.toOption_eq_some.mp symbol⟩

end CopyPatch
