import CopyPatch.Blueprint.Patch
import CopyPatch.Proofs.Bytes.Field
import CopyPatch.Proofs.Outcome

/-! Patching as a list of guarded additions. A guard never looks at the code being patched, so the
outcome is decided by the guards alone; when all pass, every field ends with what it held plus all
that was added to it, and bytes outside the fields stay. -/
namespace CopyPatch

open Bytes (Field)

/-- An addition to a field. -/
structure Patch where
  field : Field
  amount : Nat
  deriving DecidableEq, Repr

namespace Patch

def Inside (p : Patch) (code : Bytes) : Prop := p.field.offset + p.field.width ≤ code.length

def apply (p : Patch) (code : Bytes) : Bytes :=
  code.splice p.field.offset (Bytes.ofNat p.field.width (p.field.read code + p.amount))

variable {p : Patch} {patches : List Patch} {code : Bytes}

theorem addToField_eq (inside : p.Inside code) :
    addToField p.field.width p.field.offset p.amount code = .ok (p.apply code) := by
  obtain ⟨field, sliced, value⟩ := Field.slice?_of_le inside
  rw [addToField, sliced, apply, ← value]

theorem length_apply (inside : p.Inside code) : (p.apply code).length = code.length :=
  Bytes.length_splice (by rw [Bytes.length_ofNat]; exact inside)

theorem read_apply_self (inside : p.Inside code) :
    p.field.read (p.apply code) = (p.field.read code + p.amount) % 256 ^ p.field.width := by
  rw [apply, Field.read_splice_self inside (Bytes.length_ofNat _ _), Bytes.value_ofNat]

theorem getElem?_apply (inside : p.Inside code) {i : Nat} (outside : ¬ p.field.Covers i) :
    (p.apply code)[i]? = code[i]? :=
  Field.getElem?_splice_outside inside (Bytes.length_ofNat _ _) outside

theorem read_apply_apart {f : Field} (inside : p.Inside code) (apart : p.field.Apart f) :
    f.read (p.apply code) = f.read code :=
  Field.read_splice_apart inside (Bytes.length_ofNat _ _) apart

def applyAll (patches : List Patch) (code : Bytes) : Bytes :=
  patches.foldl (fun code p => p.apply code) code

/-- All that a list of patches adds to a field. -/
def addedTo (f : Field) : List Patch → Nat
  | [] => 0
  | p :: patches => (if p.field = f then p.amount else 0) + addedTo f patches

/-- Patches inside the code leave it as long, so the later ones are inside what the first gives. -/
theorem inside_apply (inside : ∀ q ∈ p :: patches, q.Inside code) :
    ∀ q ∈ patches, q.Inside (p.apply code) := by
  intro q member
  rw [Inside, length_apply (inside p List.mem_cons_self)]
  exact inside q (List.mem_cons_of_mem p member)

theorem length_applyAll (inside : ∀ p ∈ patches, p.Inside code) :
    (applyAll patches code).length = code.length := by
  induction patches generalizing code with
  | nil => rfl
  | cons p rest ih =>
    exact (ih (inside_apply inside)).trans (length_apply (inside p List.mem_cons_self))

theorem getElem?_applyAll (inside : ∀ p ∈ patches, p.Inside code) {i : Nat}
    (outside : ∀ p ∈ patches, ¬ p.field.Covers i) : (applyAll patches code)[i]? = code[i]? := by
  induction patches generalizing code with
  | nil => rfl
  | cons p rest ih =>
    exact (ih (inside_apply inside) fun q hq => outside q (List.mem_cons_of_mem p hq)).trans
      (getElem?_apply (inside p List.mem_cons_self) (outside p List.mem_cons_self))

theorem addedTo_append (f : Field) (first second : List Patch) :
    addedTo f (first ++ second) = addedTo f first + addedTo f second := by
  induction first with
  | nil => exact (Nat.zero_add _).symm
  | cons p rest ih => rw [List.cons_append, addedTo, addedTo, ih, Nat.add_assoc]

theorem addedTo_eq_zero {f : Field} (other : ∀ p ∈ patches, p.field ≠ f) :
    addedTo f patches = 0 := by
  induction patches with
  | nil => rfl
  | cons p rest ih =>
    rw [addedTo, if_neg (other p List.mem_cons_self),
      ih fun q member => other q (List.mem_cons_of_mem p member)]

theorem read_applyAll (inside : ∀ p ∈ patches, p.Inside code) {f : Field}
    (apart : ∀ p ∈ patches, p.field ≠ f → p.field.Apart f) :
    f.read (applyAll patches code) = (f.read code + addedTo f patches) % 256 ^ f.width := by
  induction patches generalizing code with
  | nil => exact (Nat.mod_eq_of_lt (f.read_lt code)).symm
  | cons p rest ih =>
    have here := inside p List.mem_cons_self
    have step : f.read (applyAll (p :: rest) code) =
        (f.read (p.apply code) + addedTo f rest) % 256 ^ f.width :=
      ih (inside_apply inside) fun q hq => apart q (List.mem_cons_of_mem p hq)
    rw [step, addedTo]
    by_cases same : p.field = f
    · subst same
      rw [if_pos rfl, read_apply_self here, Nat.mod_add_mod, Nat.add_assoc]
    · rw [if_neg same, Nat.zero_add, read_apply_apart here (apart p List.mem_cons_self same)]

end Patch

/-- A patch that is made only if its guard passes. -/
structure Action where
  guard : Outcome PatchError Unit
  patch : Patch

namespace Action

def step (a : Action) : Blueprint.Step := fun code => do
  a.guard
  Outcome.ofFaulting (addToField a.patch.field.width a.patch.field.offset a.patch.amount code)

theorem length_of_step {a : Action} {code next : Bytes} (h : a.step code = .ok next) :
    next.length = code.length := by
  obtain ⟨_, _, h⟩ := Outcome.bind_eq_ok.mp h
  rw [Outcome.ofFaulting_eq_ok] at h
  unfold addToField at h
  split at h
  · rename_i field sliced
    cases h
    exact Bytes.length_splice
      ((Bytes.length_ofNat _ _).symm ▸ (Field.slice?_eq_some sliced).1)
  · cases h

/-- Either every guard passes and all patches are made, or a guard that fails decides. -/
theorem applySteps_cases {actions : List Action} {code : Bytes}
    (inside : ∀ a ∈ actions, a.patch.Inside code) :
    ((∀ a ∈ actions, a.guard = .ok ()) ∧ Blueprint.applySteps (actions.map step) code =
        (Patch.applyAll (actions.map (·.patch)) code, .ok ())) ∨
      ∃ a ∈ actions, ∃ cause, a.guard = .error cause ∧
        (Blueprint.applySteps (actions.map step) code).2 = .error cause := by
  induction actions generalizing code with
  | nil => exact Or.inl ⟨fun _ member => (nomatch member), rfl⟩
  | cons a rest ih =>
    have here := inside a List.mem_cons_self
    have made : a.step code = a.guard.map fun _ => a.patch.apply code := by
      rw [step, Patch.addToField_eq here]
      cases a.guard <;> rfl
    rw [List.map_cons, Blueprint.applySteps, made]
    cases guard : a.guard with
    | error cause => exact Or.inr ⟨a, List.mem_cons_self, cause, guard, rfl⟩
    | ok _ =>
      have later : ∀ b ∈ rest, b.patch.Inside (a.patch.apply code) := by
        intro b member
        rw [Patch.Inside, Patch.length_apply here]
        exact inside b (List.mem_cons_of_mem a member)
      rcases ih later with ⟨guards, done⟩ | ⟨b, member, cause, failed, outcome⟩
      · exact Or.inl ⟨List.forall_mem_cons.mpr ⟨guard, guards⟩, done⟩
      · exact Or.inr ⟨b, List.mem_cons_of_mem a member, cause, failed, outcome⟩

end Action

namespace Blueprint

/-- The amount a value adds; a missing one is caught by the guard. -/
def amountAt (site : Site) (ordinal : UInt32) : Nat :=
  ((site.values[ordinal.toNat]?).map UInt64.toNat).getD 0

def symbol32Action (b : Blueprint) (site : Site) (fixup : FixupSite) : Action where
  guard := do
    let target ← valueAt site fixup.ordinal
    if fixup.offset ∈ b.selfRelative32 then checkReach b site fixup.offset target
  patch := ⟨⟨fixup.offset.toNat, 4⟩, amountAt site fixup.ordinal⟩

def selfRelativeAction (site : Site) (offset : UInt32) : Action where
  guard := .ok ()
  patch := ⟨⟨offset.toNat, 4⟩, Bytes.residue 4 (-(site.address.toNat : Int))⟩

def symbol64Action (site : Site) (fixup : FixupSite) : Action where
  guard := (valueAt site fixup.ordinal).map fun _ => ()
  patch := ⟨⟨fixup.offset.toNat, 8⟩, amountAt site fixup.ordinal⟩

def threadLocalAction (base : Int32) (offset : UInt32) : Action where
  guard := .ok ()
  patch := ⟨⟨offset.toNat, 4⟩, Bytes.residue 4 base.toInt⟩

/-- Every patch of a copy with its guard, in order. -/
def actions (b : Blueprint) (site : Site) : List Action :=
  b.symbol32.map (symbol32Action b site) ++
    b.selfRelative32.map (selfRelativeAction site) ++
    b.symbol64.map (symbol64Action site) ++
    (match site.threadLocalBase with
      | some base => b.threadLocal32.map (threadLocalAction base)
      | none => [])

theorem valueAt_cases (site : Site) (ordinal : UInt32) :
    (∃ v, valueAt site ordinal = .ok v ∧ amountAt site ordinal = v.toNat) ∨
      valueAt site ordinal = .error (.fault .outOfBounds) := by
  unfold valueAt amountAt
  cases site.values[ordinal.toNat]? with
  | none => exact Or.inr rfl
  | some v => exact Or.inl ⟨v, rfl, rfl⟩

theorem patchSymbol32_eq (b : Blueprint) (site : Site) (fixup : FixupSite) :
    patchSymbol32 b site fixup = (symbol32Action b site fixup).step := by
  funext code
  unfold patchSymbol32 Action.step symbol32Action
  rcases valueAt_cases site fixup.ordinal with ⟨v, given, amount⟩ | missing
  · rw [given, amount]
    by_cases relative : fixup.offset ∈ b.selfRelative32
    · simp only [relative, if_true]
      rfl
    · simp only [relative, if_false]
      rfl
  · rw [missing]
    rfl

theorem patchSymbol64_eq (site : Site) (fixup : FixupSite) :
    patchSymbol64 site fixup = (symbol64Action site fixup).step := by
  funext code
  unfold patchSymbol64 Action.step symbol64Action
  rcases valueAt_cases site fixup.ordinal with ⟨v, given, amount⟩ | missing
  · rw [given, amount]
    rfl
  · rw [missing]
    rfl

theorem steps_eq (b : Blueprint) (site : Site) :
    steps b site = (actions b site).map Action.step := by
  have symbol32 : patchSymbol32 b site = Action.step ∘ symbol32Action b site :=
    funext (patchSymbol32_eq b site)
  have symbol64 : patchSymbol64 site = Action.step ∘ symbol64Action site :=
    funext (patchSymbol64_eq site)
  have selfRelative : patchSelfRelative site = Action.step ∘ selfRelativeAction site := rfl
  have threadLocal : ∀ base, patchThreadLocal base = Action.step ∘ threadLocalAction base :=
    fun _ => rfl
  rw [steps, actions, symbol32, symbol64, selfRelative]
  cases site.threadLocalBase with
  | none => simp
  | some base => simp [threadLocal]

/-- Patching keeps the length of the code, also where it stops. -/
theorem length_applySteps (b : Blueprint) (site : Site) (code : Bytes) :
    (applySteps (steps b site) code).1.length = code.length := by
  rw [steps_eq]
  induction actions b site generalizing code with
  | nil => rfl
  | cons a rest ih =>
    rw [List.map_cons, applySteps]
    cases made : a.step code with
    | error cause => rfl
    | ok next => exact (ih next).trans (Action.length_of_step made)

theorem le_of_precheck {b : Blueprint} {site : Site} {room : Nat}
    (h : precheck b site room = .ok ()) : b.code.length ≤ room := by
  unfold precheck at h
  split at h
  · cases h
  · rename_i large
    exact Nat.le_of_not_lt large

/-- The checks in their order, where the number of values is known. -/
theorem precheck_eq {b : Blueprint} {count : Nat} (counted : b.valueCount = .ok count)
    (site : Site) (room : Nat) :
    precheck b site room =
      if room < b.code.length then
        Outcome.fail (.destinationTooSmall b.symbol b.code.length room)
      else if site.values.length ≠ count then
        Outcome.fail (.valueCount b.symbol count site.values.length)
      else if b.needsThreadLocalBase ∧ site.threadLocalBase.isNone then
        Outcome.fail (.threadLocalBaseMissing b.symbol)
      else .ok () := by
  rw [precheck, counted]
  rfl

/-- Beyond what the code needs, the room does not matter. -/
theorem precheck_of_le {b : Blueprint} {site : Site} {m n : Nat} (hm : b.code.length ≤ m)
    (hn : b.code.length ≤ n) : precheck b site m = precheck b site n := by
  rw [precheck, precheck, if_neg (Nat.not_lt.mpr hm), if_neg (Nat.not_lt.mpr hn)]

theorem length_patch_le (b : Blueprint) (site : Site) (room : Nat) :
    (patch b site room).1.length ≤ room := by
  unfold patch
  split
  · exact Nat.zero_le room
  · rename_i checked
    exact Nat.le_trans (Nat.le_of_eq (length_applySteps b site b.code)) (le_of_precheck checked)

/-- A copy that succeeds writes as much as the code has, and the same wherever there is room. -/
theorem patch_eq_ok {b : Blueprint} {site : Site} {room length : Nat} {written : Bytes}
    (h : patch b site room = (written, .ok length)) :
    length = b.code.length ∧ written.length = length ∧ length ≤ room ∧
      ∀ more, length ≤ more → patch b site more = (written, .ok length) := by
  unfold patch at h
  split at h
  · cases h
  · rename_i checked
    obtain ⟨rfl, done⟩ := Prod.mk.inj h
    obtain ⟨_, _, rfl⟩ := Outcome.map_eq_ok.mp done
    have fits := le_of_precheck checked
    refine ⟨rfl, length_applySteps b site b.code, fits, fun more enough => ?_⟩
    rw [patch, precheck_of_le enough fits, checked]
    exact Prod.ext rfl done

theorem specialize_eq (b : Blueprint) (site : Site) (destination : Bytes) :
    specialize b site destination =
      ((patch b site destination.length).1 ++
          destination.drop (patch b site destination.length).1.length,
        (patch b site destination.length).2) := by
  rw [← Bytes.splice_zero]
  rfl

end Blueprint

end CopyPatch
