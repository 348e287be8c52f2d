import CopyPatch.Proofs.Blueprint.Patching
import CopyPatch.Proofs.Extraction.Baking

/-! The tables of an extracted variant as patches. Each table lists the fixups of one kind; with the
fields apart, what a copy adds to a field is what the one fixup of this field asks for. -/
namespace CopyPatch

open Bytes (Field)
open Extraction (assemble)

namespace FixupRecord

/-- What a copy adds to the field of a fixup. -/
def added (site : Site) (f : FixupRecord) : Nat :=
  match f.kind with
  | .selfRelative32 =>
    Blueprint.amountAt site f.ordinal + Bytes.residue 4 (-(site.address.toNat : Int))
  | .absolute64 => Blueprint.amountAt site f.ordinal
  | .threadLocalOffset32 =>
    (site.threadLocalBase.map fun base => Bytes.residue 4 base.toInt).getD 0

/-- The displacement a self-relative fixup asks for. -/
def displacement (site : Site) (code : Bytes) (f : FixupRecord) : Int :=
  Bytes.signed 4 (f.field.read code) + Blueprint.amountAt site f.ordinal - site.address.toNat

/-- The displacement fits in its field. -/
def Reaches (site : Site) (code : Bytes) (f : FixupRecord) : Prop :=
  -2 ^ 31 ≤ f.displacement site code ∧ f.displacement site code < 2 ^ 31

instance (site : Site) (code : Bytes) (f : FixupRecord) : Decidable (f.Reaches site code) :=
  inferInstanceAs (Decidable (_ ∧ _))

theorem width_pos (f : FixupRecord) : 0 < f.field.width := by
  show 0 < f.kind.width
  cases f.kind <;> decide

end FixupRecord

namespace Extraction

/-- The patches of the fixups of one kind. -/
def patchesOf (kind : RelocationKind) (amount : FixupRecord → Nat) (fixups : List FixupRecord) :
    List Patch :=
  (fixups.filter (·.kind = kind)).map fun f => ⟨f.field, amount f⟩

theorem mem_patchesOf {kind : RelocationKind} {amount : FixupRecord → Nat}
    {fixups : List FixupRecord} {p : Patch} (member : p ∈ patchesOf kind amount fixups) :
    ∃ f ∈ fixups, p.field = f.field := by
  obtain ⟨f, listed, rfl⟩ := List.mem_map.mp member
  exact ⟨f, (List.mem_filter.mp listed).1, rfl⟩

theorem addedTo_patchesOf (kind : RelocationKind) (amount : FixupRecord → Nat)
    {fixups : List FixupRecord} (apart : (fixups.map FixupRecord.field).Pairwise Field.Apart)
    {f : FixupRecord} (member : f ∈ fixups) :
    Patch.addedTo f.field (patchesOf kind amount fixups) =
      if f.kind = kind then amount f else 0 := by
  induction fixups with
  | nil => cases member
  | cons first rest ih =>
    obtain ⟨firstApart, apart⟩ := List.pairwise_cons.mp apart
    have cons : patchesOf kind amount (first :: rest) =
        if first.kind = kind then ⟨first.field, amount first⟩ :: patchesOf kind amount rest
        else patchesOf kind amount rest := by
      by_cases same : first.kind = kind <;> simp [patchesOf, same]
    rcases List.mem_cons.mp member with rfl | later
    · -- no other fixup has the field of the first one
      have others : Patch.addedTo f.field (patchesOf kind amount rest) = 0 := by
        refine Patch.addedTo_eq_zero fun p hp => ?_
        obtain ⟨g, hg, field⟩ := mem_patchesOf hp
        rw [field]
        exact (firstApart _ (List.mem_map_of_mem hg)).symm.ne f.width_pos
      rw [cons]
      split
      · rw [Patch.addedTo, if_pos rfl, others, Nat.add_zero]
      · exact others
    · have other : first.field ≠ f.field :=
        (firstApart _ (List.mem_map_of_mem later)).ne f.width_pos
      rw [cons]
      split
      · rw [Patch.addedTo, if_neg other, Nat.zero_add, ih apart later]
      · exact ih apart later

theorem patchesOf_eq (kind : RelocationKind) (amount : FixupRecord → Nat)
    (fixups : List FixupRecord) :
    patchesOf kind amount fixups = (fixups.filter (·.kind = kind)).map
      fun f => ⟨⟨f.offset.toNat, kind.width⟩, amount f⟩ := by
  refine List.map_congr_left fun f member => ?_
  have same : f.kind = kind := by simpa using (List.mem_filter.mp member).2
  rw [FixupRecord.field, same]

/-- The patches of an assembled variant, table by table. -/
theorem patches_assemble (symbol : String) (code : Bytes) (unpaddedLen : UInt32)
    (counts : FixupCounts) (fixups : List FixupRecord) (site : Site) :
    ((assemble symbol code unpaddedLen counts fixups).actions site).map (·.patch) =
      patchesOf .selfRelative32 (fun f => Blueprint.amountAt site f.ordinal) fixups ++
        patchesOf .selfRelative32 (fun _ => Bytes.residue 4 (-(site.address.toNat : Int))) fixups ++
        patchesOf .absolute64 (fun f => Blueprint.amountAt site f.ordinal) fixups ++
        (match site.threadLocalBase with
          | some base => patchesOf .threadLocalOffset32 (fun _ => Bytes.residue 4 base.toInt) fixups
          | none => []) := by
  simp only [patchesOf_eq, Blueprint.actions, assemble, List.map_append, List.map_map]
  cases site.threadLocalBase with
  | none => rfl
  | some base => simp only [List.map_map]; rfl

section Assembled

variable {symbol : String} {code : Bytes} {unpaddedLen : UInt32} {counts : FixupCounts}
  {fixups : List FixupRecord} {site : Site}

theorem addedTo_assemble (apart : (fixups.map FixupRecord.field).Pairwise Field.Apart)
    {f : FixupRecord} (member : f ∈ fixups) :
    Patch.addedTo f.field
      (((assemble symbol code unpaddedLen counts fixups).actions site).map (·.patch)) =
      f.added site := by
  rw [patches_assemble, Patch.addedTo_append, Patch.addedTo_append, Patch.addedTo_append,
    addedTo_patchesOf _ _ apart member, addedTo_patchesOf _ _ apart member,
    addedTo_patchesOf _ _ apart member, FixupRecord.added]
  cases site.threadLocalBase with
  | none => cases f.kind <;> simp [Patch.addedTo]
  | some base =>
    rw [addedTo_patchesOf _ _ apart member]
    cases f.kind <;> simp

theorem mem_patches_assemble {p : Patch}
    (h : p ∈ ((assemble symbol code unpaddedLen counts fixups).actions site).map (·.patch)) :
    ∃ f ∈ fixups, p.field = f.field := by
  rw [patches_assemble] at h
  simp only [List.mem_append] at h
  rcases h with ((h | h) | h) | h
  · exact mem_patchesOf h
  · exact mem_patchesOf h
  · exact mem_patchesOf h
  · cases installed : site.threadLocalBase with
    | none => rw [installed] at h; cases h
    | some base => rw [installed] at h; exact mem_patchesOf h

/-- The guard of a self-relative fixup asks whether its target is within reach. -/
theorem guard_selfRelative {f : FixupRecord} (member : f ∈ fixups) (kind : f.kind = .selfRelative32)
    (inside : f.field.offset + f.field.width ≤ code.length)
    (given : f.ordinal.toNat < site.values.length) :
    ((assemble symbol code unpaddedLen counts fixups).symbol32Action site
      (Extraction.site f)).guard =
      if f.Reaches site code then .ok ()
      else Outcome.fail (.displacementOutOfRange symbol f.offset) := by
  have listed : f.offset ∈ (assemble symbol code unpaddedLen counts fixups).selfRelative32 :=
    List.mem_map.mpr ⟨f, List.mem_filter.mpr ⟨member, decide_eq_true kind⟩, rfl⟩
  have value : Blueprint.valueAt site f.ordinal = .ok site.values[f.ordinal.toNat] := by
    rw [Blueprint.valueAt, List.getElem?_eq_getElem given]
  have amount : Blueprint.amountAt site f.ordinal = site.values[f.ordinal.toNat].toNat := by
    rw [Blueprint.amountAt, List.getElem?_eq_getElem given]
    rfl
  have narrow : f.field.width = 4 := by rw [FixupRecord.field, kind]; rfl
  obtain ⟨field, found, read⟩ := Field.slice?_of_le inside
  rw [narrow] at found
  have sliced : (assemble symbol code unpaddedLen counts fixups).code.slice? f.offset.toNat 4 =
      some field := found
  have guarded : ((assemble symbol code unpaddedLen counts fixups).symbol32Action site
      (Extraction.site f)).guard =
      Blueprint.checkReach (assemble symbol code unpaddedLen counts fixups).toBlueprint site
        f.offset site.values[f.ordinal.toNat] := by
    unfold Blueprint.symbol32Action
    simp only [Extraction.site, value, listed, if_true]
    rfl
  rw [guarded, Blueprint.checkReach, sliced]
  simp only [FixupRecord.Reaches, FixupRecord.displacement, Blueprint.displacement, read, amount]
  rfl

/-- A guard that fails belongs to a self-relative fixup out of reach. -/
theorem guard_eq_error (inside : ∀ f ∈ fixups, f.field.offset + f.field.width ≤ code.length)
    (given : ∀ f ∈ fixups, f.kind ≠ .threadLocalOffset32 →
      f.ordinal.toNat < site.values.length)
    {a : Action} (member : a ∈ (assemble symbol code unpaddedLen counts fixups).actions site)
    {cause : Failure PatchError} (failed : a.guard = .error cause) :
    ∃ f ∈ fixups, f.kind = .selfRelative32 ∧ ¬ f.Reaches site code ∧
      cause = .error (.displacementOutOfRange symbol f.offset) := by
  unfold Blueprint.actions at member
  simp only [List.mem_append] at member
  rcases member with ((member | member) | member) | member
  · obtain ⟨_, listed, rfl⟩ := List.mem_map.mp member
    obtain ⟨f, kept, rfl⟩ := List.mem_map.mp listed
    obtain ⟨hf, kind⟩ := List.mem_filter.mp kept
    rw [decide_eq_true_eq] at kind
    rw [guard_selfRelative hf kind (inside f hf) (given f hf (by rw [kind]; decide))] at failed
    split at failed
    · cases failed
    · rename_i out
      cases failed
      exact ⟨f, hf, kind, out, rfl⟩
  · obtain ⟨_, _, rfl⟩ := List.mem_map.mp member
    cases failed
  · obtain ⟨_, listed, rfl⟩ := List.mem_map.mp member
    obtain ⟨f, kept, rfl⟩ := List.mem_map.mp listed
    obtain ⟨hf, kind⟩ := List.mem_filter.mp kept
    rw [decide_eq_true_eq] at kind
    have found := List.getElem?_eq_getElem (given f hf (by rw [kind]; decide))
    rw [Blueprint.symbol64Action, Blueprint.valueAt, Extraction.site, found] at failed
    cases failed
  · cases installed : site.threadLocalBase with
    | none => rw [installed] at member; cases member
    | some base =>
      rw [installed] at member
      obtain ⟨_, _, rfl⟩ := List.mem_map.mp member
      cases failed

/-- Patching an assembled variant succeeds if every self-relative target is within reach, and
otherwise reports one that is not. -/
theorem applySteps_assemble
    (inside : ∀ f ∈ fixups, f.field.offset + f.field.width ≤ code.length)
    (given : ∀ f ∈ fixups, f.kind ≠ .threadLocalOffset32 →
      f.ordinal.toNat < site.values.length) :
    ((∀ f ∈ fixups, f.kind = .selfRelative32 → f.Reaches site code) ∧
      Blueprint.applySteps ((assemble symbol code unpaddedLen counts fixups).steps site) code =
        (Patch.applyAll (((assemble symbol code unpaddedLen counts fixups).actions site).map
          (·.patch)) code, .ok ())) ∨
    ∃ f ∈ fixups, f.kind = .selfRelative32 ∧ ¬ f.Reaches site code ∧
      (Blueprint.applySteps ((assemble symbol code unpaddedLen counts fixups).steps site) code).2 =
        Outcome.fail (.displacementOutOfRange symbol f.offset) := by
  have patchesInside : ∀ a ∈ (assemble symbol code unpaddedLen counts fixups).actions site,
      a.patch.Inside code := by
    intro a member
    obtain ⟨f, hf, field⟩ := mem_patches_assemble (List.mem_map_of_mem member)
    rw [Patch.Inside, field]
    exact inside f hf
  rw [Blueprint.steps_eq]
  rcases Action.applySteps_cases patchesInside with
    ⟨guards, done⟩ | ⟨a, member, cause, failed, outcome⟩
  · refine Or.inl ⟨fun f hf kind => ?_, done⟩
    have passed := guards _ (List.mem_append_left _ (List.mem_append_left _
      (List.mem_append_left _ (List.mem_map_of_mem (List.mem_map_of_mem
        (List.mem_filter.mpr ⟨hf, decide_eq_true kind⟩))))))
    rw [guard_selfRelative hf kind (inside f hf) (given f hf (by rw [kind]; decide))] at passed
    split at passed
    · assumption
    · cases passed
  · obtain ⟨f, hf, kind, out, rfl⟩ := guard_eq_error inside given member failed
    exact Or.inr ⟨f, hf, kind, out, outcome⟩

end Assembled

end Extraction

end CopyPatch
