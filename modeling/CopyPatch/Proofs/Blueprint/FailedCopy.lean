import CopyPatch.Proofs.Blueprint.Patching

/-! What a copy that fails leaves in its destination. The checks that come before the copy leave the
destination as it was. The reach of a self-relative target is only checked when its field is about
to be patched; by then the code has been copied and the fields before it are patched. Beyond the
code no byte changes, whatever the outcome. -/
namespace CopyPatch

namespace Action

variable {a : Action} {actions : List Action} {code : Bytes}

theorem step_eq_ok {next : Bytes} :
    a.step code = .ok next ↔
      a.guard = .ok () ∧ a.patch.Inside code ∧ next = a.patch.apply code := by
  rw [step, Outcome.bind_eq_ok]
  constructor
  · rintro ⟨_, passed, added⟩
    rw [Outcome.ofFaulting_eq_ok] at added
    have inside : a.patch.Inside code := by
      rw [addToField] at added
      split at added
      · rename_i sliced
        exact (Bytes.Field.slice?_eq_some sliced).1
      · cases added
    rw [Patch.addToField_eq inside] at added
    cases added
    exact ⟨passed, inside, rfl⟩
  · rintro ⟨passed, inside, rfl⟩
    exact ⟨(), passed, by rw [Patch.addToField_eq inside]; rfl⟩

/-- Adding to a field may fault; an error is reported by the guard. -/
theorem guard_of_step {error : PatchError} (stopped : a.step code = .error (.error error)) :
    a.guard = .error (.error error) := by
  rw [step] at stopped
  rcases Outcome.bind_eq_error.1 stopped with reported | ⟨_, _, added⟩
  · exact reported
  · rw [Outcome.ofFaulting, Outcome.mapError_eq_error] at added
    obtain ⟨fault, _, same⟩ := added
    cases same

/-- The code holds what the actions before the one that stops have done. -/
theorem applySteps_eq_error {stopped : Bytes} {cause : Failure PatchError}
    (failed : Blueprint.applySteps (actions.map step) code = (stopped, .error cause)) :
    ∃ before a after, actions = before ++ a :: after ∧ (∀ x ∈ before, x.guard = .ok ()) ∧
      stopped = Patch.applyAll (before.map (·.patch)) code ∧ a.step stopped = .error cause := by
  induction actions generalizing code with
  | nil => cases failed
  | cons a rest ih =>
    rw [List.map_cons, Blueprint.applySteps] at failed
    cases made : a.step code with
    | error reason =>
      rw [made] at failed
      cases failed
      exact ⟨[], a, rest, rfl, by simp, rfl, made⟩
    | ok next =>
      rw [made] at failed
      obtain ⟨before, b, after, rfl, passed, rfl, last⟩ := ih failed
      obtain ⟨guard, _, rfl⟩ := step_eq_ok.1 made
      exact ⟨a :: before, b, after, rfl, List.forall_mem_cons.2 ⟨guard, passed⟩, rfl, last⟩

end Action

namespace Blueprint

variable {b : Blueprint} {site : Site} {fixup : FixupSite}

/-- The target of a self-relative field is too far from the destination. -/
def OutOfReach (b : Blueprint) (site : Site) (fixup : FixupSite) : Prop :=
  fixup.offset ∈ b.selfRelative32 ∧ ∃ target field,
    site.values[fixup.ordinal.toNat]? = some target ∧
    b.code.slice? fixup.offset.toNat 4 = some field ∧
    ¬ (-2 ^ 31 ≤ displacement field.value target site.address ∧
      displacement field.value target site.address < 2 ^ 31)

theorem checkReach_eq_error {offset : UInt32} {target : UInt64} {error : PatchError} :
    checkReach b site offset target = .error (.error error) ↔
      error = .displacementOutOfRange b.symbol offset ∧ ∃ field,
        b.code.slice? offset.toNat 4 = some field ∧
        ¬ (-2 ^ 31 ≤ displacement field.value target site.address ∧
          displacement field.value target site.address < 2 ^ 31) := by
  rw [checkReach]
  cases b.code.slice? offset.toNat 4 with
  | none => simp
  | some field =>
    simp only
    split
    · rename_i near
      constructor
      · intro reported
        cases reported
      · rintro ⟨_, _, same, far⟩
        cases same
        exact absurd near far
    · rename_i far
      constructor
      · intro reported
        cases reported
        exact ⟨rfl, field, rfl, far⟩
      · rintro ⟨rfl, _⟩
        rfl

/-- The guard of a symbol field reports an error exactly if the target is out of reach. -/
theorem symbol32_guard_eq_error {error : PatchError} :
    (symbol32Action b site fixup).guard = .error (.error error) ↔
      error = .displacementOutOfRange b.symbol fixup.offset ∧ b.OutOfReach site fixup := by
  rw [symbol32Action, OutOfReach, valueAt]
  cases site.values[fixup.ordinal.toNat]? with
  | none => simp [bind, Except.bind]
  | some target =>
    by_cases relative : fixup.offset ∈ b.selfRelative32
    · simp only [bind, Except.bind, relative, if_true, checkReach_eq_error, true_and,
        Option.some.injEq, exists_and_left, exists_eq_left']
    · simp [bind, Except.bind, relative, pure, Except.pure]

/-- Only the patches of symbol fields can report an error, and they come first. -/
theorem actions_split (b : Blueprint) (site : Site) :
    ∃ later, actions b site = b.symbol32.map (symbol32Action b site) ++ later ∧
      ∀ a ∈ later, ∀ error, a.guard ≠ .error (.error error) := by
  refine ⟨_, by rw [actions, List.append_assoc, List.append_assoc], ?_⟩
  intro a member error reported
  rw [List.mem_append, List.mem_append, List.mem_map, List.mem_map] at member
  rcases member with ⟨offset, _, rfl⟩ | ⟨fixup, _, rfl⟩ | based
  · cases reported
  · rw [symbol64Action] at reported
    rcases valueAt_cases site fixup.ordinal with ⟨v, given, _⟩ | missing
    · rw [given] at reported
      cases reported
    · rw [missing] at reported
      cases reported
  · cases installed : site.threadLocalBase with
    | none =>
      rw [installed] at based
      cases based
    | some base =>
      rw [installed, List.mem_map] at based
      obtain ⟨_, _, rfl⟩ := based
      cases reported

/-- The code when the first of its symbol fields have been patched. -/
def withSymbols (b : Blueprint) (site : Site) (fixups : List FixupSite) : Bytes :=
  Patch.applyAll (fixups.map fun fixup => (symbol32Action b site fixup).patch) b.code

/-- Patching that reports an error stops at the first symbol field that is out of reach. -/
theorem applySteps_reports {stopped : Bytes} {error : PatchError}
    (failed : applySteps (steps b site) b.code = (stopped, .error (.error error))) :
    ∃ before fixup after, b.symbol32 = before ++ fixup :: after ∧
      error = .displacementOutOfRange b.symbol fixup.offset ∧
      (∀ f ∈ before, ¬ b.OutOfReach site f) ∧ b.OutOfReach site fixup ∧
      stopped = b.withSymbols site before := by
  rw [steps_eq] at failed
  obtain ⟨before, a, after, split, passed, rfl, last⟩ := Action.applySteps_eq_error failed
  have reported := Action.guard_of_step last
  obtain ⟨later, arranged, silent⟩ := actions_split b site
  rw [arranged] at split
  -- the action that reports is not one of the later ones
  rcases List.append_eq_append_iff.1 split with ⟨more, rfl, rest⟩ | ⟨more, first, rest⟩
  · refine absurd reported (silent a ?_ error)
    rw [rest]
    exact List.mem_append_right _ List.mem_cons_self
  · cases more with
    | nil =>
      refine absurd reported (silent a ?_ error)
      rw [← List.nil_append later, ← rest]
      exact List.mem_cons_self
    | cons x more =>
      obtain ⟨rfl, _⟩ := List.cons.inj rest
      obtain ⟨earlier, others, sites, rfl, tails⟩ := List.map_eq_append_iff.1 first
      obtain ⟨fixup, tail, rfl, rfl, _⟩ := List.map_eq_cons_iff.1 tails
      obtain ⟨named, far⟩ := symbol32_guard_eq_error.1 reported
      refine ⟨earlier, fixup, tail, sites, named, fun f member unreachable => ?_, far, ?_⟩
      · have reports := symbol32_guard_eq_error.2 ⟨rfl, unreachable⟩
        rw [passed _ (List.mem_map_of_mem member)] at reports
        cases reports
      · rw [withSymbols, List.map_map]
        rfl

theorem precheck_eq_error {room : Nat} {error : PatchError}
    (failed : precheck b site room = .error (.error error)) :
    error = .destinationTooSmall b.symbol b.code.length room ∨
      (∃ expected, error = .valueCount b.symbol expected site.values.length) ∨
      error = .threadLocalBaseMissing b.symbol := by
  rw [precheck] at failed
  split at failed
  · cases failed
    exact Or.inl rfl
  · rcases Outcome.bind_eq_error.1 failed with counting | ⟨expected, _, failed⟩
    · rw [Outcome.ofFaulting, Outcome.mapError_eq_error] at counting
      obtain ⟨fault, _, same⟩ := counting
      cases same
    · split at failed
      · cases failed
        exact Or.inr (Or.inl ⟨expected, rfl⟩)
      · split at failed <;> cases failed
        exact Or.inr (Or.inr rfl)

theorem specialize_of_precheck_error {destination : Bytes} {cause : Failure PatchError}
    (refused : precheck b site destination.length = .error cause) :
    specialize b site destination = (destination, .error cause) := by
  rw [specialize_eq, patch, refused]
  rfl

theorem specialize_of_precheck_ok {destination : Bytes}
    (checked : precheck b site destination.length = .ok ()) :
    specialize b site destination =
      ((applySteps (steps b site) b.code).1 ++ destination.drop b.code.length,
        (applySteps (steps b site) b.code).2.map fun _ => b.code.length) := by
  rw [specialize_eq, patch, checked]
  simp only [length_applySteps]

/-- Whatever the outcome, the bytes beyond the code stay. -/
theorem getElem?_specialize {destination : Bytes} {i : Nat} (beyond : b.code.length ≤ i) :
    (specialize b site destination).1[i]? = destination[i]? := by
  cases checked : precheck b site destination.length with
  | error cause => rw [specialize_of_precheck_error checked]
  | ok _ =>
    have length := length_applySteps b site b.code
    rw [specialize_of_precheck_ok checked, List.getElem?_append_right (by omega), length,
      List.getElem?_drop]
    congr 1
    omega

theorem append_drop_eq_iff {front whole : Bytes} {n : Nat} (length : front.length = n) :
    front ++ whole.drop n = whole ↔ whole.take n = front := by
  constructor
  · intro same
    rw [← same, List.take_left' length]
  · intro same
    rw [← same, List.take_append_drop]

/-- No copy changes a byte beyond the code. One that reports an error leaves the whole destination
as it was, unless the error is a target out of reach: then the code stands there with the symbol
fields before that target patched, and the destination is as it was only if it held just that. -/
theorem failed_copy_keeps_destination_iff (b : Blueprint) (site : Site) (destination : Bytes) :
    (∀ i, b.code.length ≤ i → (specialize b site destination).1[i]? = destination[i]?) ∧
    ∀ error, (specialize b site destination).2 = .error (.error error) →
      ((specialize b site destination).1 = destination ∧
        (error = .destinationTooSmall b.symbol b.code.length destination.length ∨
          (∃ expected, error = .valueCount b.symbol expected site.values.length) ∨
          error = .threadLocalBaseMissing b.symbol)) ∨
      ∃ before fixup after, b.symbol32 = before ++ fixup :: after ∧
        error = .displacementOutOfRange b.symbol fixup.offset ∧
        (∀ f ∈ before, ¬ b.OutOfReach site f) ∧ b.OutOfReach site fixup ∧
        (specialize b site destination).1 =
          b.withSymbols site before ++ destination.drop b.code.length ∧
        ((specialize b site destination).1 = destination ↔
          destination.take b.code.length = b.withSymbols site before) := by
  refine ⟨fun i beyond => getElem?_specialize beyond, fun error failed => ?_⟩
  cases checked : precheck b site destination.length with
  | error cause =>
    rw [specialize_of_precheck_error checked] at failed ⊢
    cases failed
    exact Or.inl ⟨rfl, precheck_eq_error checked⟩
  | ok _ =>
    have length := length_applySteps b site b.code
    rw [specialize_of_precheck_ok checked] at failed ⊢
    have broken : applySteps (steps b site) b.code =
        ((applySteps (steps b site) b.code).1, .error (.error error)) :=
      Prod.ext rfl (Outcome.map_eq_error.1 failed)
    obtain ⟨before, fixup, after, sites, named, near, far, stopped⟩ := applySteps_reports broken
    refine Or.inr ⟨before, fixup, after, sites, named, near, far, ?_, ?_⟩
    · rw [stopped]
    · rw [← stopped]
      exact append_drop_eq_iff length

/-- Two calls, the second of them to a target that is too far away. -/
def farCall : Blueprint where
  symbol := "far"
  code := [0xe8, 0xfb, 0xff, 0xff, 0xff, 0xe8, 0xf6, 0xff, 0xff, 0xff]
  unpaddedLen := 10
  selfRelative32 := [1, 6]
  symbol32 := [⟨1, 0⟩, ⟨6, 1⟩]
  symbol64 := []
  threadLocal32 := []
  counts := ⟨0, 2, 0⟩

def farSite : Site := ⟨[0x1100, 0x7fff00000000], 0x1000, none⟩

/-- A copy may report an error after it has written to its destination. -/
theorem failed_copy_changes_destination :
    (specialize farCall farSite (List.replicate 12 0xaa)).2 =
        .error (.error (.displacementOutOfRange "far" 6)) ∧
      (specialize farCall farSite (List.replicate 12 0xaa)).1 ≠ List.replicate 12 0xaa := by
  decide

theorem far_call_leaves_patched_code :
    (specialize farCall farSite (List.replicate 12 0xaa)).1[10]? = some 0xaa ∧
    ∃ before, (specialize farCall farSite (List.replicate 12 0xaa)).1 =
        farCall.withSymbols farSite before ++ [0xaa, 0xaa] ∧
      ((specialize farCall farSite (List.replicate 12 0xaa)).1 = List.replicate 12 0xaa ↔
        List.replicate 10 0xaa = farCall.withSymbols farSite before) := by
  obtain ⟨beyond, cases_of_error⟩ :=
    failed_copy_keeps_destination_iff farCall farSite (List.replicate 12 0xaa)
  refine ⟨beyond 10 (by decide), ?_⟩
  rcases cases_of_error (.displacementOutOfRange "far" 6) (by decide) with
    ⟨_, small | ⟨_, counted⟩ | missing⟩ | ⟨before, _, _, _, _, _, _, stands, exactly⟩
  · cases small
  · cases counted
  · cases missing
  · exact ⟨before, stands, exactly⟩

end Blueprint

end CopyPatch
