import CopyPatch.Frame.Operands
import CopyPatch.Proofs.Frame.Separation

/-! The operand stack and its frame keep step. The stack takes temps for spilled operands from the
same planner as the code around it, which also opens and closes local variables. Whatever both do
without a fault, the temps in use are those of the spilled operands and those of the client. -/
namespace CopyPatch

namespace Frame

/-- A planner that its calls have brought to where the temps in use are the given ones. -/
def Lends (p : Planner) (temps : List Nat) : Prop :=
  ∃ l : Ledger, l.planner = p ∧ l.Sound ∧ l.temps.Perm temps

namespace Lends

variable {p q : Planner} {temps : List Nat}

theorem empty : Lends .empty [] := ⟨.empty, rfl, Ledger.empty_sound, .nil⟩

theorem congr (lent : Lends p temps) {others : List Nat} (same : temps.Perm others) :
    Lends p others := by
  obtain ⟨l, planner, sound, held⟩ := lent
  exact ⟨l, planner, sound, held.trans same⟩

theorem live_perm (lent : Lends p temps) : p.live.Perm temps := by
  obtain ⟨l, rfl, sound, held⟩ := lent
  exact sound.live ▸ held

theorem nodup (lent : Lends p temps) : temps.Nodup := by
  obtain ⟨l, rfl, sound, held⟩ := lent
  have distinct := (List.nodup_append.mp sound.distinct).1
  exact held.nodup_iff.mp (sound.live ▸ distinct)

theorem takeTemp (lent : Lends p temps) {offset : Nat} (taken : p.takeTemp = (.ok offset, q)) :
    Lends q (offset :: temps) := by
  obtain ⟨l, rfl, sound, held⟩ := lent
  have stepped : l.step .takeTemp = .ok { l with
      planner := q, temps := offset :: l.temps, handed := .ofTemp offset :: l.handed } := by
    simp only [Ledger.step, taken]
  exact ⟨_, rfl, Ledger.step_sound sound stepped, held.cons offset⟩

theorem freeTemp (lent : Lends p temps) {offset : Nat} (given : p.freeTemp offset = (.ok (), q)) :
    Lends q (temps.erase offset) := by
  obtain ⟨l, rfl, sound, held⟩ := lent
  have stepped : l.step (.freeTemp offset) = .ok { l with
      planner := q, temps := l.temps.erase offset } := by
    simp only [Ledger.step, given]
  exact ⟨_, rfl, Ledger.step_sound sound stepped, held.erase offset⟩

theorem freeTemp_ok (lent : Lends p temps) {offset : Nat} (member : offset ∈ temps) :
    ∃ q, p.freeTemp offset = (.ok (), q) := by
  have live : offset ∈ p.live := lent.live_perm.mem_iff.mpr member
  have some_live : p.live ≠ [] := List.ne_nil_of_mem live
  exact ⟨_, by rw [Planner.freeTemp, if_neg some_live, if_pos live]⟩

theorem openLocal (lent : Lends p temps) {size alignment offset : Nat}
    (opened : p.openLocal size alignment = (.ok offset, q)) : Lends q temps := by
  obtain ⟨l, rfl, sound, held⟩ := lent
  have stepped : l.step (.openLocal size alignment) = .ok { l with
      planner := q, locals := ⟨⟨offset, size⟩, alignment⟩ :: l.locals
      handed := ⟨offset, size⟩ :: l.handed } := by
    simp only [Ledger.step, opened]
  exact ⟨_, rfl, Ledger.step_sound sound stepped, held⟩

theorem closeLocal (lent : Lends p temps) (closed : p.closeLocal = (.ok (), q)) :
    Lends q temps := by
  obtain ⟨l, rfl, sound, held⟩ := lent
  have stepped : l.step .closeLocal = .ok { l with planner := q, locals := l.locals.drop 1 } := by
    simp only [Ledger.step, closed]
  exact ⟨_, rfl, Ledger.step_sound sound stepped, held⟩

end Lends

end Frame

namespace Operands

open CopyPatch.Frame

/-- The temps that hold the spilled operands. -/
def spillSlots (stack : Operands) : List Nat := stack.filterMap Operand.spill

/-- Of two operands of one class the newer is spilled only if the older is. -/
def OldestSpilled (stack : Operands) : Prop :=
  stack.Pairwise fun older newer => older.operandClass = newer.operandClass →
    newer.isSpilled = true → older.isSpilled = true

theorem length_spillSlots (stack : Operands) :
    (spillSlots stack).length = (stack.filter Operand.isSpilled).length := by
  induction stack with
  | nil => rfl
  | cons o rest ih =>
    cases spill : o.spill with
    | none => simpa [spillSlots, Operand.isSpilled, spill] using ih
    | some offset => simpa [spillSlots, Operand.isSpilled, spill] using ih

@[simp] theorem inRegistersOf_append (first second : Operands) (c : OperandClass) :
    inRegistersOf (first ++ second) c = inRegistersOf first c + inRegistersOf second c := by
  simp [inRegistersOf]

@[simp] theorem inRegistersOf_register (c d : OperandClass) (rest : Operands) :
    inRegistersOf (⟨c, none⟩ :: rest) d = inRegistersOf rest d + if c = d then 1 else 0 := by
  by_cases same : c = d <;> simp [inRegistersOf, Operand.isSpilled, same]

@[simp] theorem inRegistersOf_spilled (c d : OperandClass) (offset : Nat) (rest : Operands) :
    inRegistersOf (⟨c, some offset⟩ :: rest) d = inRegistersOf rest d := by
  simp [inRegistersOf, Operand.isSpilled]

@[simp] theorem inRegistersOf_nil (c : OperandClass) : inRegistersOf [] c = 0 := rfl

@[simp] theorem spillSlots_append (first second : Operands) :
    spillSlots (first ++ second) = spillSlots first ++ spillSlots second :=
  List.filterMap_append

/-- The oldest register operand of the class, if there is one, gets a temp. -/
theorem spillOldest_eq_ok {c : OperandClass} {stack spilled : Operands} {p q : Planner}
    (h : spillOldest c stack p = (.ok spilled, q)) :
    (inRegistersOf stack c = 0 ∧ spilled = stack ∧ q = p) ∨
    ∃ before after offset, stack = before ++ ⟨c, none⟩ :: after ∧ inRegistersOf before c = 0 ∧
      p.takeTemp = (.ok offset, q) ∧ spilled = before ++ ⟨c, some offset⟩ :: after := by
  induction stack generalizing spilled with
  | nil =>
    cases h
    exact Or.inl ⟨rfl, rfl, rfl⟩
  | cons o rest ih =>
    simp only [spillOldest] at h
    split at h
    · rename_i oldest
      obtain ⟨class', spill⟩ := o
      simp only [Bool.and_eq_true, decide_eq_true_eq, Operand.isSpilled, Bool.not_eq_true',
        Option.isSome_eq_false_iff, Option.isNone_iff_eq_none] at oldest
      obtain ⟨rfl, rfl⟩ := oldest
      split at h
      · rename_i offset taker taken
        cases h
        exact Or.inr ⟨[], rest, offset, rfl, rfl, taken, rfl⟩
      · cases h
    · rename_i other
      have skipped : inRegistersOf [o] c = 0 := by simp [inRegistersOf, other]
      split at h
      · rename_i later taker hrest
        cases h
        rcases ih hrest with ⟨none_left, rfl, rfl⟩ |
          ⟨before, after, offset, rfl, none_before, taken, rfl⟩
        · refine Or.inl ⟨?_, rfl, rfl⟩
          rw [← List.singleton_append, inRegistersOf_append, skipped, none_left]
        · refine Or.inr ⟨o :: before, after, offset, rfl, ?_, taken, rfl⟩
          rw [← List.singleton_append, inRegistersOf_append, skipped, none_before]
      · cases h

theorem push_eq_ok {stack pushed : Operands} {p q : Planner} {c : OperandClass} {position : Nat}
    (h : push stack p c = (.ok position, pushed, q)) :
    position = stack.length ∧
    ((inRegistersOf (stack ++ [⟨c, none⟩]) c ≤ c.registers ∧
        pushed = stack ++ [⟨c, none⟩] ∧ q = p) ∨
      (c.registers < inRegistersOf (stack ++ [⟨c, none⟩]) c ∧
        spillOldest c (stack ++ [⟨c, none⟩]) p = (.ok pushed, q))) := by
  simp only [push] at h
  split at h
  · rename_i full
    split at h
    · rename_i spilled taker done
      cases h
      exact ⟨rfl, Or.inr ⟨full, done⟩⟩
    · cases h
  · rename_i room
    cases h
    exact ⟨rfl, Or.inl ⟨Nat.le_of_not_lt room, rfl, rfl⟩⟩

theorem spillAll_cons_eq_ok {o : Operand} {rest spilled : Operands} {p q : Planner}
    (h : spillAll (o :: rest) p = (.ok (), spilled, q)) :
    (∃ later, o.isSpilled = true ∧ spillAll rest p = (.ok (), later, q) ∧ spilled = o :: later) ∨
    ∃ later offset between, o.spill = none ∧ p.takeTemp = (.ok offset, between) ∧
      spillAll rest between = (.ok (), later, q) ∧
      spilled = { o with spill := some offset } :: later := by
  simp only [spillAll] at h
  split at h
  · rename_i already
    simp only [Prod.mk.injEq] at h
    obtain ⟨done, rfl, rfl⟩ := h
    exact Or.inl ⟨_, already, by rw [← done], rfl⟩
  · rename_i register
    simp only [Operand.isSpilled, Bool.not_eq_true, Option.isSome_eq_false_iff,
      Option.isNone_iff_eq_none] at register
    split at h
    · rename_i offset between taken
      simp only [Prod.mk.injEq] at h
      obtain ⟨done, rfl, rfl⟩ := h
      exact Or.inr ⟨_, offset, between, register, taken, by rw [← done], rfl⟩
    · cases h

/-- Giving a temp to the oldest register operand of a class keeps the order of the class. -/
theorem OldestSpilled.spill {before after : Operands} {c : OperandClass} {offset : Nat}
    (sorted : OldestSpilled (before ++ ⟨c, none⟩ :: after)) (oldest : inRegistersOf before c = 0) :
    OldestSpilled (before ++ ⟨c, some offset⟩ :: after) := by
  have spilled : ∀ o ∈ before, o.operandClass = c → o.isSpilled = true := by
    intro o member same
    simp only [inRegistersOf, List.length_eq_zero_iff, List.filter_eq_nil_iff] at oldest
    simpa [same] using oldest o member
  obtain ⟨first, second, across⟩ := List.pairwise_append.mp sorted
  obtain ⟨_, second⟩ := List.pairwise_cons.mp second
  refine List.pairwise_append.mpr ⟨first, List.pairwise_cons.mpr ⟨?_, second⟩, ?_⟩
  · intro newer _ _ _
    rfl
  · intro older ho newer hn same
    rcases List.mem_cons.mp hn with rfl | hn
    · intro _
      exact spilled older ho same
    · exact across older ho newer (List.mem_cons_of_mem _ hn) same

theorem OldestSpilled.push {stack : Operands} (sorted : OldestSpilled stack) (c : OperandClass) :
    OldestSpilled (stack ++ [⟨c, none⟩]) := by
  refine List.pairwise_append.mpr ⟨sorted, List.pairwise_singleton _ _, ?_⟩
  intro older _ newer hn _ spilled
  rw [List.mem_singleton.mp hn] at spilled
  cases spilled

/-- Spilling all leaves no register operand, and every operand spilled on the way has its temp. -/
theorem spillAll_lends {stack spilled : Operands} {p q : Planner} {others : List Nat}
    (lent : Lends p (spillSlots stack ++ others)) (h : spillAll stack p = (.ok (), spilled, q)) :
    Lends q (spillSlots spilled ++ others) ∧ ∀ o ∈ spilled, o.isSpilled = true := by
  induction stack generalizing p spilled others with
  | nil =>
    cases h
    exact ⟨lent, fun o ho => nomatch ho⟩
  | cons o rest ih =>
    rcases spillAll_cons_eq_ok h with ⟨later, already, done, rfl⟩ |
      ⟨later, offset, between, register, taken, done, rfl⟩
    · obtain ⟨slot, hslot⟩ := Option.isSome_iff_exists.mp already
      -- The slot already held counts among the others while the rest is spilled.
      have moved : Lends p (spillSlots rest ++ slot :: others) := by
        refine lent.congr ?_
        simp only [spillSlots, List.filterMap_cons, hslot, List.cons_append]
        exact List.perm_middle.symm
      obtain ⟨kept, all⟩ := ih moved done
      refine ⟨kept.congr ?_, List.forall_mem_cons.mpr ⟨already, all⟩⟩
      simp only [spillSlots, List.filterMap_cons, hslot, List.cons_append]
      exact List.perm_middle
    · have taken_too : Lends between (spillSlots rest ++ offset :: others) := by
        refine (lent.takeTemp taken).congr ?_
        simp only [spillSlots, List.filterMap_cons, register]
        exact List.perm_middle.symm
      obtain ⟨kept, all⟩ := ih taken_too done
      refine ⟨kept.congr ?_, List.forall_mem_cons.mpr ⟨rfl, all⟩⟩
      simp only [spillSlots, List.filterMap_cons, List.cons_append]
      exact List.perm_middle

theorem inRegistersOf_of_spilled {stack : Operands} (all : ∀ o ∈ stack, o.isSpilled = true)
    (c : OperandClass) : inRegistersOf stack c = 0 := by
  simp only [inRegistersOf, List.length_eq_zero_iff, List.filter_eq_nil_iff]
  intro o ho
  simp [all o ho]

end Operands

namespace Frame

/-- A planner with the operand stack that spills into it and the temps its client holds. -/
structure Workspace where
  planner : Planner
  operands : Operands
  /-- Temps the client took and has not given back. -/
  temps : List Nat
  deriving DecidableEq, Repr

/-- What the code around an operand stack does with the stack and the frame they share. -/
inductive Move where
  | push (c : OperandClass)
  | pop
  | spillAll
  | takeTemp
  | freeTemp (offset : Nat)
  | openLocal (size alignment : Nat)
  | closeLocal
  deriving DecidableEq, Repr

namespace Workspace

def empty : Workspace := ⟨.empty, [], []⟩

/-- One move. There is none that faults, and none that frees a temp the client does not hold. -/
def step (w : Workspace) : Move → Option Workspace
  | .push c => match w.operands.push w.planner c with
    | (.ok _, operands, planner) => some { w with operands, planner }
    | (.error _, _) => none
  | .pop => match w.operands.pop w.planner with
    | (.ok _, operands, planner) => some { w with operands, planner }
    | (.error _, _) => none
  | .spillAll => match w.operands.spillAll w.planner with
    | (.ok _, operands, planner) => some { w with operands, planner }
    | (.error _, _) => none
  | .takeTemp => match w.planner.takeTemp with
    | (.ok offset, planner) => some { w with planner, temps := offset :: w.temps }
    | (.error _, _) => none
  | .freeTemp offset =>
    if offset ∈ w.temps then match w.planner.freeTemp offset with
      | (.ok _, planner) => some { w with planner, temps := w.temps.erase offset }
      | (.error _, _) => none
    else none
  | .openLocal size alignment => match w.planner.openLocal size alignment with
    | (.ok _, planner) => some { w with planner }
    | (.error _, _) => none
  | .closeLocal => match w.planner.closeLocal with
    | (.ok _, planner) => some { w with planner }
    | (.error _, _) => none

def runFrom (w : Workspace) (moves : List Move) : Option Workspace := moves.foldlM step w

def run (moves : List Move) : Option Workspace := empty.runFrom moves

/-- The temps in use are those of the spilled operands and of the client, and in each class at most
the newest operands are in registers. -/
structure InStep (w : Workspace) : Prop where
  lent : Lends w.planner (w.operands.spillSlots ++ w.temps)
  registers : ∀ c, Operands.inRegistersOf w.operands c ≤ c.registers
  sorted : w.operands.OldestSpilled

theorem empty_inStep : empty.InStep where
  lent := .empty
  registers := fun _ => Nat.zero_le _
  sorted := .nil

namespace InStep

variable {w : Workspace}

theorem push (inStep : w.InStep) {c : OperandClass} {position : Nat} {operands : Operands}
    {planner : Planner} (h : w.operands.push w.planner c = (.ok position, operands, planner)) :
    InStep { w with operands, planner } := by
  have unspilled : Operands.spillSlots (w.operands ++ [⟨c, none⟩]) = w.operands.spillSlots := by
    simp [Operands.spillSlots]
  obtain ⟨_, ⟨room, rfl, rfl⟩ | ⟨full, spilled⟩⟩ := Operands.push_eq_ok h
  · refine ⟨unspilled ▸ inStep.lent, ?_, inStep.sorted.push c⟩
    intro d
    by_cases same : c = d
    · exact same ▸ room
    · simpa [same] using inStep.registers d
  · rcases Operands.spillOldest_eq_ok spilled with ⟨none_there, _⟩ |
      ⟨before, after, offset, split, oldest, taken, rfl⟩
    · omega
    · have sorted := inStep.sorted.push c
      rw [split] at sorted
      refine ⟨?_, ?_, sorted.spill oldest⟩
      · refine (inStep.lent.takeTemp taken).congr ?_
        rw [← unspilled, split, Operands.spillSlots_append, Operands.spillSlots_append,
          List.append_assoc, List.append_assoc]
        exact List.perm_middle.symm
      · -- The register the new operand takes is the one the spilled operand leaves.
        intro d
        have count := congrArg (Operands.inRegistersOf · d) split
        simp only [Operands.inRegistersOf_append, Operands.inRegistersOf_register,
          Operands.inRegistersOf_nil] at count
        have within := inStep.registers d
        simp only [Operands.inRegistersOf_append, Operands.inRegistersOf_spilled]
        omega

/-- The top operand can always be popped. -/
theorem pop_ok (inStep : w.InStep) : ∃ planner,
    w.operands.pop w.planner = (.ok w.operands.getLast?, w.operands.dropLast, planner) ∧
      InStep { w with operands := w.operands.dropLast, planner } := by
  obtain ⟨planner, operands, temps⟩ := w
  rcases List.eq_nil_or_concat operands with rfl | ⟨rest, ⟨c, spill⟩, rfl⟩
  · exact ⟨planner, rfl, inStep⟩
  · obtain ⟨lent, registers, sorted⟩ := inStep
    simp only [List.concat_eq_append, List.dropLast_concat, List.getLast?_concat,
      Operands.spillSlots_append, Operands.inRegistersOf_append] at lent registers ⊢
    have kept : Operands.OldestSpilled rest := by
      rw [List.concat_eq_append] at sorted
      exact (List.pairwise_append.mp sorted).1
    have within : ∀ d, Operands.inRegistersOf rest d ≤ d.registers :=
      fun d => Nat.le_trans (Nat.le_add_right _ _) (registers d)
    cases spill with
    | none =>
      refine ⟨planner, by simp [Operands.pop], ?_, within, kept⟩
      simpa [Operands.spillSlots] using lent
    | some offset =>
      have held : Lends planner (offset :: (Operands.spillSlots rest ++ temps)) := by
        refine lent.congr ?_
        rw [List.append_assoc]
        exact List.perm_middle
      obtain ⟨after, freed⟩ := held.freeTemp_ok List.mem_cons_self
      refine ⟨after, by simp [Operands.pop, freed, Except.map], ?_, within, kept⟩
      simpa using held.freeTemp freed

theorem spillAll (inStep : w.InStep) {operands : Operands} {planner : Planner}
    (h : w.operands.spillAll w.planner = (.ok (), operands, planner)) :
    InStep { w with operands, planner } := by
  obtain ⟨lent, all⟩ := Operands.spillAll_lends inStep.lent h
  refine ⟨lent, fun c => ?_, ?_⟩
  · rw [Operands.inRegistersOf_of_spilled all c]
    exact Nat.zero_le _
  · exact List.pairwise_of_forall_mem_list fun older ho _ _ _ _ => all older ho

theorem takeTemp (inStep : w.InStep) {offset : Nat} {planner : Planner}
    (h : w.planner.takeTemp = (.ok offset, planner)) :
    InStep { w with planner, temps := offset :: w.temps } :=
  ⟨(inStep.lent.takeTemp h).congr List.perm_middle.symm, inStep.registers, inStep.sorted⟩

/-- A temp of the client holds no operand, so freeing it leaves the spilled operands alone. -/
theorem freeTemp (inStep : w.InStep) {offset : Nat} {planner : Planner}
    (own : offset ∈ w.temps) (h : w.planner.freeTemp offset = (.ok (), planner)) :
    InStep { w with planner, temps := w.temps.erase offset } := by
  have foreign : offset ∉ w.operands.spillSlots := fun held =>
    (List.nodup_append.mp inStep.lent.nodup).2.2 offset held offset own rfl
  refine ⟨?_, inStep.registers, inStep.sorted⟩
  have left := inStep.lent.freeTemp h
  rwa [List.erase_append_right _ foreign] at left

end InStep

theorem step_inStep {w next : Workspace} {move : Move} (inStep : w.InStep)
    (h : w.step move = some next) : next.InStep := by
  cases move with
  | push c =>
    simp only [step] at h
    split at h
    · rename_i pushed
      exact Option.some.inj h ▸ inStep.push pushed
    · cases h
  | pop =>
    obtain ⟨planner, popped, kept⟩ := inStep.pop_ok
    simp only [step, popped] at h
    exact Option.some.inj h ▸ kept
  | spillAll =>
    simp only [step] at h
    split at h
    · rename_i spilled
      exact Option.some.inj h ▸ inStep.spillAll spilled
    · cases h
  | takeTemp =>
    simp only [step] at h
    split at h
    · rename_i taken
      exact Option.some.inj h ▸ inStep.takeTemp taken
    · cases h
  | freeTemp offset =>
    simp only [step] at h
    split at h
    · rename_i own
      split at h
      · rename_i freed
        exact Option.some.inj h ▸ inStep.freeTemp own freed
      · cases h
    · cases h
  | openLocal size alignment =>
    simp only [step] at h
    split at h
    · rename_i opened
      exact Option.some.inj h ▸ ⟨inStep.lent.openLocal opened, inStep.registers, inStep.sorted⟩
    · cases h
  | closeLocal =>
    simp only [step] at h
    split at h
    · rename_i closed
      exact Option.some.inj h ▸ ⟨inStep.lent.closeLocal closed, inStep.registers, inStep.sorted⟩
    · cases h

theorem runFrom_inStep {w last : Workspace} {moves : List Move} (inStep : w.InStep)
    (h : w.runFrom moves = some last) : last.InStep := by
  induction moves generalizing w with
  | nil => cases h; exact inStep
  | cons move rest ih =>
    obtain ⟨next, hstep, hrest⟩ := Option.bind_eq_some_iff.mp h
    exact ih (step_inStep inStep hstep) hrest

/-- As many pops as there are operands empty the stack and leave the client its temps. -/
theorem InStep.drained {w : Workspace} (inStep : w.InStep) :
    ∃ last, w.runFrom (List.replicate w.operands.length .pop) = some last ∧ last.InStep ∧
      last.operands = [] ∧ last.temps = w.temps := by
  generalize count : w.operands.length = n
  induction n generalizing w with
  | zero => exact ⟨w, rfl, inStep, List.length_eq_zero_iff.mp count, rfl⟩
  | succ n ih =>
    obtain ⟨planner, popped, kept⟩ := inStep.pop_ok
    have fewer : w.operands.dropLast.length = n := by rw [List.length_dropLast, count]; rfl
    obtain ⟨last, done, ends, empty, own⟩ := ih kept fewer
    have first : w.step .pop = some { w with operands := w.operands.dropLast, planner } := by
      simp only [step, popped]
    refine ⟨last, ?_, ends, empty, own⟩
    rw [List.replicate_succ, runFrom, List.foldlM_cons, first]
    exact done

end Workspace

/-- In every state that moves without a fault reach, each class has at most three operands in
registers and its spilled operands are older than those; the temps of the spilled operands are
distinct, in use and not the client's; the temps in use are counted by both; popping never faults,
and popping all operands leaves in use exactly the temps of the client. -/
theorem operands_keep_step_with_frame {moves : List Move} {w : Workspace}
    (h : Workspace.run moves = some w) :
    (∀ c, Operands.inRegistersOf w.operands c ≤ 3) ∧
    (∀ (i j : Nat) (older newer : Operand), i < j →
      w.operands[i]? = some older → w.operands[j]? = some newer →
      older.operandClass = newer.operandClass → newer.isSpilled = true → older.isSpilled = true) ∧
    (w.operands.filterMap Operand.spill).Nodup ∧
    (∀ slot ∈ w.operands.filterMap Operand.spill, slot ∈ w.planner.live ∧ slot ∉ w.temps) ∧
    w.planner.live.length = (w.operands.filter Operand.isSpilled).length + w.temps.length ∧
    (∃ planner, w.operands.pop w.planner =
      (.ok w.operands.getLast?, w.operands.dropLast, planner)) ∧
    ∃ last, w.runFrom (List.replicate w.operands.length .pop) = some last ∧
      last.operands = [] ∧ last.planner.live.Perm w.temps := by
  have inStep := Workspace.runFrom_inStep Workspace.empty_inStep h
  have live := inStep.lent.live_perm
  obtain ⟨distinct, _, foreign⟩ := List.nodup_append.mp inStep.lent.nodup
  refine ⟨?_, ?_, distinct, ?_, ?_, ?_, ?_⟩
  · intro c
    have within := inStep.registers c
    cases c <;> exact within
  · intro i j older newer lt hi hj
    obtain ⟨hi', rfl⟩ := List.getElem?_eq_some_iff.mp hi
    obtain ⟨hj', rfl⟩ := List.getElem?_eq_some_iff.mp hj
    exact List.pairwise_iff_getElem.mp inStep.sorted i j hi' hj' lt
  · intro slot held
    refine ⟨live.mem_iff.mpr (List.mem_append_left _ held), fun own => ?_⟩
    exact foreign slot held slot own rfl
  · rw [live.length_eq, List.length_append, Operands.length_spillSlots]
  · obtain ⟨planner, popped, _⟩ := inStep.pop_ok
    exact ⟨planner, popped⟩
  · obtain ⟨last, done, ends, none_left, own⟩ := inStep.drained
    refine ⟨last, done, none_left, ?_⟩
    have left := ends.lent.live_perm
    rwa [none_left, own] at left

/-- The client has freed a temp while another operand was spilled, and the next spill took it. -/
def reusedWorkspace : Workspace :=
  ⟨⟨40, 40, [], [16, 32, 24], [0]⟩,
    [⟨.integral, some 24⟩, ⟨.floating, none⟩, ⟨.integral, some 16⟩, ⟨.integral, none⟩,
      ⟨.integral, none⟩, ⟨.integral, none⟩], [32]⟩

/-- All operands but the last are spilled, each into a temp of its own. -/
def spilledWorkspace : Workspace :=
  ⟨⟨64, 64, [], [56, 48, 40, 16, 32, 24], [0]⟩,
    [⟨.integral, some 24⟩, ⟨.floating, some 40⟩, ⟨.integral, some 16⟩, ⟨.integral, some 48⟩,
      ⟨.integral, some 56⟩, ⟨.floating, none⟩], [32]⟩

/-- Spilling everything leaves the operands that are spilled already where they are. -/
theorem operands_keep_step_after_reuse :
    Workspace.run [.openLocal 12 32, .takeTemp, .push .integral, .push .floating, .push .integral,
        .push .integral, .push .integral, .takeTemp, .freeTemp 16, .pop, .push .integral,
        .push .integral] = some reusedWorkspace ∧
    [24, 16].Nodup ∧
    (∃ last, reusedWorkspace.runFrom (List.replicate 6 .pop) = some last ∧
      last.operands = [] ∧ last.planner.live.Perm [32]) ∧
    reusedWorkspace.runFrom [.pop, .spillAll, .push .floating] = some spilledWorkspace ∧
    [24, 40, 16, 48, 56].Nodup ∧
    ∃ last, spilledWorkspace.runFrom (List.replicate 6 .pop) = some last ∧
      last.operands = [] ∧ last.planner.live.Perm [32] := by
  have reused : Workspace.run [.openLocal 12 32, .takeTemp, .push .integral, .push .floating,
      .push .integral, .push .integral, .push .integral, .takeTemp, .freeTemp 16, .pop,
      .push .integral, .push .integral] = some reusedWorkspace := by decide
  have spilled : Workspace.run [.openLocal 12 32, .takeTemp, .push .integral, .push .floating,
      .push .integral, .push .integral, .push .integral, .takeTemp, .freeTemp 16, .pop,
      .push .integral, .push .integral, .pop, .spillAll, .push .floating] =
      some spilledWorkspace := by decide
  obtain ⟨_, _, distinct, _, _, _, drained⟩ := operands_keep_step_with_frame reused
  obtain ⟨_, _, allDistinct, _, _, _, allDrained⟩ := operands_keep_step_with_frame spilled
  exact ⟨reused, distinct, drained, by decide, allDistinct, allDrained⟩

end Frame

end CopyPatch
