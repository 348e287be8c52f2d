import CopyPatch.Proofs.Index.Construction

/-! Placement step by step, on a plain table of numbers. Every access is checked, and the evictions
of a chain are counted as they happen. No access misses, the steps come to an end, and the table
they end with is the finished board: each ordinal sits once, in one of its own two slots. -/
namespace CopyPatch

namespace Placement

/-- Ordinals by slot. -/
abbrev Table := Array (Option Nat)

/-- Where a placement stands: before an ordinal, or in the chain that was started for one, with
another in hand for a slot. -/
inductive Phase where
  | before (ordinal : Nat)
  | chain (ordinal carried slot evictions : Nat)
  deriving DecidableEq, Repr

structure Walk where
  table : Table
  phase : Phase
  deriving DecidableEq, Repr

/-- What a step leads to: more steps, or the answer. -/
inductive Stage where
  | on (walk : Walk)
  | final (answer : Option Table)
  deriving DecidableEq, Repr

namespace Table

def read (table : Table) (slot : Nat) : Except Fault (Option Nat) :=
  match table[slot]? with
  | some entry => .ok entry
  | none => .error .outOfBounds

def write (table : Table) (slot ordinal : Nat) : Except Fault Table :=
  if inside : slot < table.size then .ok (table.set slot (some ordinal) inside)
  else .error .outOfBounds

end Table

/-- The tuples to be placed, what gives their slots, and the number of slots. -/
structure Task where
  tuples : Array Tuple
  h1 : List UInt32
  h2 : List UInt32
  size : Nat

namespace Task

/-- The candidate slots of an ordinal. -/
def slots (task : Task) (ordinal : Nat) : Except Fault (Nat × Nat) :=
  match task.tuples[ordinal]? with
  | none => .error .outOfBounds
  | some tuple =>
    if task.size = 0 then .error .zeroDivisor
    else .ok (Index.slotOf task.h1 tuple task.size, Index.slotOf task.h2 tuple task.size)

/-- Put an ordinal into a free slot of its own, or start a chain at its first. -/
def begin (task : Task) (table : Table) (ordinal : Nat) : Except Fault Walk := do
  let (a, b) ← task.slots ordinal
  if (← table.read a).isNone then
    return ⟨← table.write a ordinal, .before (ordinal + 1)⟩
  else if (← table.read b).isNone then
    return ⟨← table.write b ordinal, .before (ordinal + 1)⟩
  else return ⟨table, .chain ordinal ordinal a 0⟩

/-- Put the carried ordinal into its slot and take the occupant, if any, in hand. -/
def exchange (task : Task) (table : Table) (ordinal carried slot evictions : Nat) :
    Except Fault Stage := do
  let occupant ← table.read slot
  let table ← table.write slot carried
  match occupant with
  | none => return .on ⟨table, .before (ordinal + 1)⟩
  | some evicted =>
    if maxChain < evictions + 1 then return .final none
    else
      let (a, b) ← task.slots evicted
      let other := if a = slot then b else a
      if other = slot then return .final none
      else return .on ⟨table, .chain ordinal evicted other (evictions + 1)⟩

def step (task : Task) (walk : Walk) : Except Fault Stage :=
  match walk.phase with
  | .before ordinal =>
    if ordinal < task.tuples.size % 2 ^ 32 then (task.begin walk.table ordinal).map .on
    else .ok (.final (some walk.table))
  | .chain ordinal carried slot evictions =>
    task.exchange walk.table ordinal carried slot evictions

/-- Take a number of steps; none is taken after the answer. -/
def follow (task : Task) : Nat → Walk → Except Fault Stage
  | 0, walk => .ok (.on walk)
  | steps + 1, walk => do
    match ← task.step walk with
    | .on next => task.follow steps next
    | .final answer => return .final answer

/-- An empty table, before the first ordinal. -/
def start (task : Task) : Walk := ⟨Array.replicate task.size none, .before 0⟩

/-- Every ordinal sits in exactly one slot, and in each slot there is at most an ordinal whose own
slot it is. -/
structure Fills (task : Task) (table : Table) : Prop where
  size : table.size = task.size
  once : ∀ i < task.tuples.size, ∃! slot : Nat, table[slot]? = some (some i)
  home : ∀ slot i : Nat, table[slot]? = some (some i) → ∃ tuple, task.tuples[i]? = some tuple ∧
    (slot = Index.slotOf task.h1 tuple task.size ∨ slot = Index.slotOf task.h2 tuple task.size)

section Following

variable {task : Task} {walk next : Walk} {answer : Option Table}

theorem follow_succ_of_on (one : task.step walk = .ok (.on next)) (steps : Nat) :
    task.follow (steps + 1) walk = task.follow steps next := by
  rw [follow, one]
  rfl

theorem follow_succ_of_final (one : task.step walk = .ok (.final answer)) (steps : Nat) :
    task.follow (steps + 1) walk = .ok (.final answer) := by
  rw [follow, one]
  rfl

theorem follow_add {steps : Nat} (first : task.follow steps walk = .ok (.on next)) (more : Nat) :
    task.follow (steps + more) walk = task.follow more next := by
  induction steps generalizing walk with
  | zero => cases first; rw [Nat.zero_add]
  | succ steps ih =>
    obtain ⟨stage, one, rest⟩ := Outcome.bind_eq_ok.mp first
    cases stage with
    | final _ => cases rest
    | on middle => rw [Nat.succ_add, follow_succ_of_on one, ih rest]

end Following

end Task

section Boards

variable {n m : Nat}

/-- A board as a table of numbers. -/
def numbers (board : Board n m) : Table := board.toArray.map (Option.map Fin.val)

theorem size_numbers (board : Board n m) : (numbers board).size = m := by
  rw [numbers, Array.size_map, Vector.size_toArray]

theorem getElem?_numbers (board : Board n m) (slot : Fin m) :
    (numbers board)[slot.val]? = some ((board.get slot).map Fin.val) := by
  have inside : slot.val < board.toArray.size := by simp
  simp only [numbers, Array.getElem?_map, Array.getElem?_eq_getElem inside, Option.map_some]
  rfl

theorem read_numbers (board : Board n m) (slot : Fin m) :
    (numbers board).read slot.val = .ok ((board.get slot).map Fin.val) := by
  rw [Table.read, getElem?_numbers]

theorem numbers_put (board : Board n m) (slot : Fin m) (ordinal : Fin n) :
    numbers (put board slot ordinal) =
      (numbers board).set slot.val (some ordinal.val) (by rw [size_numbers]; exact slot.isLt) := by
  simp only [numbers, put, Vector.toArray_set, Array.map_set, Option.map_some]

theorem write_numbers (board : Board n m) (slot : Fin m) (ordinal : Fin n) :
    (numbers board).write slot.val ordinal.val = .ok (numbers (put board slot ordinal)) := by
  have inside : slot.val < (numbers board).size := by rw [size_numbers]; exact slot.isLt
  rw [Table.write, dif_pos inside, numbers_put]

theorem numbers_vacant :
    numbers (Vector.replicate m none : Board n m) = Array.replicate m none := by
  simp [numbers]

end Boards

namespace Task

section Simulation

variable {task : Task} {choices : Choices task.tuples.size task.size}

/-- The stage after an ordinal: before the next one, or given up. -/
def passed (ordinal : Nat) (board : Option (Board task.tuples.size task.size)) : Stage :=
  board.elim (.final none) fun board => .on ⟨numbers board, .before (ordinal + 1)⟩

/-- The slots of every ordinal can be found, and are its choices. -/
def Offers (task : Task) (choices : Choices task.tuples.size task.size) : Prop :=
  ∀ i, task.slots i.val = .ok ((choices.get i).1.val, (choices.get i).2.val)

theorem offers_choicesOf (pos : 0 < task.size) :
    task.Offers (choicesOf task.tuples task.h1 task.h2 task.size pos) := by
  intro i
  rw [slots, Array.getElem?_eq_getElem i.isLt, Index.get_choicesOf]
  exact if_neg (Nat.ne_of_gt pos)

theorem val_otherSlot (i : Fin task.tuples.size) (slot : Fin task.size) :
    (otherSlot choices i slot).val =
      if (choices.get i).1.val = slot.val then (choices.get i).2.val
      else (choices.get i).1.val := by
  simp only [otherSlot, Fin.ext_iff]
  split <;> rfl

variable {board : Board task.tuples.size task.size} {slot : Fin task.size}

theorem step_free (free : board.get slot = none) (ordinal : Nat) (carried : Fin task.tuples.size)
    (evictions : Nat) :
    task.step ⟨numbers board, .chain ordinal carried slot evictions⟩ =
      .ok (.on ⟨numbers (put board slot carried), .before (ordinal + 1)⟩) := by
  change task.exchange (numbers board) ordinal carried slot evictions = _
  rw [exchange, read_numbers, write_numbers, free]
  rfl

theorem step_taken (offers : task.Offers choices) {evicted : Fin task.tuples.size}
    (taken : board.get slot = some evicted) (ordinal : Nat) (carried : Fin task.tuples.size)
    (evictions : Nat) :
    task.step ⟨numbers board, .chain ordinal carried slot evictions⟩ =
      .ok (if maxChain < evictions + 1 then .final none
        else if otherSlot choices evicted slot = slot then .final none
        else .on ⟨numbers (put board slot carried),
          .chain ordinal evicted (otherSlot choices evicted slot) (evictions + 1)⟩) := by
  change task.exchange (numbers board) ordinal carried slot evictions = _
  rw [exchange, read_numbers, write_numbers, taken]
  simp only [Fin.ext_iff, val_otherSlot]
  by_cases long : maxChain < evictions + 1
  · rw [if_pos long]
    exact if_pos long
  · rw [if_neg long]
    refine (if_neg long).trans ?_
    rw [offers evicted]
    exact (apply_ite Except.ok _ _ _).symm

/-- A chain takes one step for each link. Its evictions are counted up as its fuel runs down. -/
theorem follow_chain (offers : task.Offers choices) (ordinal : Nat) {evictions fuel : Nat}
    (budget : evictions + fuel = maxChain) (carried : Fin task.tuples.size) (slot : Fin task.size)
    (board : Board task.tuples.size task.size) :
    ∃ steps ≤ fuel + 1,
      task.follow steps ⟨numbers board, .chain ordinal carried slot evictions⟩ =
        .ok (passed ordinal (evict choices fuel carried slot board)) := by
  induction fuel generalizing board slot carried evictions with
  | zero =>
    refine ⟨1, Nat.le_refl 1, ?_⟩
    rw [evict]
    split
    · rename_i free
      exact follow_succ_of_on (step_free free ordinal carried evictions) 0
    · rename_i evicted taken
      have one := step_taken offers taken ordinal carried evictions
      rw [if_pos (by omega)] at one
      exact follow_succ_of_final one 0
  | succ fuel ih =>
    rw [evict]
    split
    · rename_i free
      exact ⟨1, by omega, follow_succ_of_on (step_free free ordinal carried evictions) 0⟩
    · rename_i evicted taken
      have one := step_taken offers taken ordinal carried evictions
      rw [if_neg (by omega)] at one
      dsimp only
      split
      · rename_i stuck
        rw [if_pos stuck] at one
        exact ⟨1, by omega, follow_succ_of_final one 0⟩
      · rename_i free
        rw [if_neg free] at one
        have shorter : evictions + 1 + fuel = maxChain := by omega
        obtain ⟨steps, few, rest⟩ := ih shorter evicted (otherSlot choices evicted slot)
          (put board slot carried)
        exact ⟨steps + 1, by omega, (follow_succ_of_on one steps).trans rest⟩

theorem begin_eq (offers : task.Offers choices) (board : Board task.tuples.size task.size)
    (ordinal : Fin task.tuples.size) :
    task.begin (numbers board) ordinal =
      .ok (if (board.get (choices.get ordinal).1).isNone then
          ⟨numbers (put board (choices.get ordinal).1 ordinal), .before (ordinal + 1)⟩
        else if (board.get (choices.get ordinal).2).isNone then
          ⟨numbers (put board (choices.get ordinal).2 ordinal), .before (ordinal + 1)⟩
        else ⟨numbers board, .chain ordinal ordinal (choices.get ordinal).1 0⟩) := by
  rw [begin, offers ordinal]
  simp only [bind, Except.bind, read_numbers, write_numbers, Option.isNone_map, pure, Except.pure]
  split
  · rfl
  · split <;> rfl

/-- One ordinal is placed in a bounded number of steps. -/
theorem follow_before (offers : task.Offers choices) (board : Board task.tuples.size task.size)
    (ordinal : Fin task.tuples.size) (counted : ordinal.val < task.tuples.size % 2 ^ 32) :
    ∃ steps ≤ maxChain + 2, task.follow steps ⟨numbers board, .before ordinal⟩ =
      .ok (passed ordinal (insert choices board ordinal)) := by
  have one : task.step ⟨numbers board, .before ordinal⟩ =
      (task.begin (numbers board) ordinal).map .on := if_pos counted
  rw [begin_eq offers] at one
  simp only [insert]
  split at one
  · rename_i free
    rw [if_pos free]
    exact ⟨1, by omega, follow_succ_of_on one 0⟩
  · rename_i taken
    rw [if_neg taken]
    split at one
    · rename_i free
      rw [if_pos free]
      exact ⟨1, by omega, follow_succ_of_on one 0⟩
    · rename_i also
      rw [if_neg also]
      obtain ⟨steps, few, rest⟩ := follow_chain offers ordinal.val (Nat.zero_add maxChain) ordinal
        (choices.get ordinal).1 board
      exact ⟨steps + 1, by omega, (follow_succ_of_on one steps).trans rest⟩

/-- The ordinals from one on. -/
def ordinalsFrom (task : Task) (ordinal : Nat) : List (Fin task.tuples.size) :=
  ((List.finRange task.tuples.size).take (task.tuples.size % 2 ^ 32)).drop ordinal

theorem ordinalsFrom_of_lt (task : Task) {ordinal : Nat}
    (counted : ordinal < task.tuples.size % 2 ^ 32) :
    ∃ first : Fin task.tuples.size, first.val = ordinal ∧
      task.ordinalsFrom ordinal = first :: task.ordinalsFrom (ordinal + 1) := by
  have inside : ordinal < task.tuples.size := Nat.lt_of_lt_of_le counted (Nat.mod_le _ _)
  refine ⟨⟨ordinal, inside⟩, rfl, ?_⟩
  have listed : ordinal <
      ((List.finRange task.tuples.size).take (task.tuples.size % 2 ^ 32)).length := by
    rw [List.length_take, List.length_finRange]
    exact Nat.lt_min.mpr ⟨counted, inside⟩
  rw [ordinalsFrom, List.drop_eq_getElem_cons listed, List.getElem_take, List.getElem_finRange]
  rfl

/-- All ordinals that are left are placed in a bounded number of steps. -/
theorem follow_rest (offers : task.Offers choices) (board : Board task.tuples.size task.size)
    {ordinal left : Nat} (counted : ordinal + left = task.tuples.size % 2 ^ 32) :
    ∃ steps ≤ left * (maxChain + 2) + 1,
      task.follow steps ⟨numbers board, .before ordinal⟩ =
        .ok (.final (((task.ordinalsFrom ordinal).foldlM (insert choices) board).map numbers)) := by
  induction left generalizing ordinal board with
  | zero =>
    refine ⟨1, by omega, ?_⟩
    have none_left : task.ordinalsFrom ordinal = [] := by
      refine List.drop_of_length_le ?_
      rw [List.length_take]
      omega
    have last : task.step ⟨numbers board, .before ordinal⟩ = .ok (.final (some (numbers board))) :=
      if_neg (by omega)
    rw [none_left]
    exact follow_succ_of_final last 0
  | succ left ih =>
    have next_counted : ordinal < task.tuples.size % 2 ^ 32 := by omega
    obtain ⟨first, rfl, others⟩ := task.ordinalsFrom_of_lt next_counted
    obtain ⟨steps, few, placed⟩ := follow_before offers board first next_counted
    rw [others, List.foldlM_cons]
    cases inserted : insert choices board first with
    | none =>
      rw [inserted] at placed
      exact ⟨steps, by rw [Nat.succ_mul]; omega, placed⟩
    | some next =>
      rw [inserted] at placed
      have onward : first.val + 1 + left = task.tuples.size % 2 ^ 32 := by omega
      obtain ⟨more, bounded, rest⟩ := ih next onward
      refine ⟨steps + more, by rw [Nat.succ_mul]; omega, ?_⟩
      rw [follow_add placed]
      exact rest

end Simulation

/-- Taking steps from the empty table comes to the answer of the placement. -/
theorem follow_start (task : Task) (pos : 0 < task.size) :
    ∃ steps ≤ task.tuples.size * (maxChain + 2) + 1,
      task.follow steps task.start =
        .ok (.final ((place (choicesOf task.tuples task.h1 task.h2 task.size pos)).map
          numbers)) := by
  obtain ⟨steps, few, ended⟩ := follow_rest (offers_choicesOf pos) (Vector.replicate task.size none)
    (Nat.zero_add (task.tuples.size % 2 ^ 32))
  have low : task.tuples.size % 2 ^ 32 * (maxChain + 2) ≤ task.tuples.size * (maxChain + 2) :=
    Nat.mul_le_mul_right _ (Nat.mod_le _ _)
  refine ⟨steps, by omega, ?_⟩
  rw [numbers_vacant] at ended
  exact ended

theorem fills_of_settled (task : Task) {pos : 0 < task.size}
    {board : Board task.tuples.size task.size}
    (settled : Settled (choicesOf task.tuples task.h1 task.h2 task.size pos) (fun _ => True)
      board) :
    task.Fills (numbers board) := by
  have seated : ∀ slot i : Nat, (numbers board)[slot]? = some (some i) →
      ∃ (s : Fin task.size) (o : Fin task.tuples.size),
        s.val = slot ∧ o.val = i ∧ board.get s = some o := by
    intro slot i there
    have inside : slot < task.size := by
      obtain ⟨low, _⟩ := Array.getElem?_eq_some_iff.mp there
      rwa [size_numbers] at low
    rw [getElem?_numbers board ⟨slot, inside⟩] at there
    obtain ⟨o, here, same⟩ := Option.map_eq_some_iff.mp (Option.some.inj there)
    exact ⟨⟨slot, inside⟩, o, rfl, same, here⟩
  refine ⟨size_numbers board, fun i inside => ?_, fun slot i there => ?_⟩
  · obtain ⟨s, here⟩ := settled.found ⟨i, inside⟩ trivial
    refine ⟨s.val, (getElem?_numbers board s).trans (by rw [here]; rfl), fun slot there => ?_⟩
    obtain ⟨t, o, rfl, rfl, sits⟩ := seated slot i there
    rw [settled.once t s _ sits here]
  · obtain ⟨s, o, rfl, rfl, sits⟩ := seated slot i there
    refine ⟨task.tuples[o], Array.getElem?_eq_getElem o.isLt, ?_⟩
    have home := (settled.home s o sits).2
    simpa only [Candidate, Index.get_choicesOf, Fin.ext_iff] using home

end Task

/-- Placing fewer than `2 ^ 32` tuples ends after boundedly many steps, none of which misses the
table or the tuples, with the answer of the placement. A table it ends with has each ordinal
exactly once, in one of its own slots, and nothing else. -/
theorem placement_fills_exactly (tuples : Array Tuple) (h1 h2 : List UInt32) (m : Nat)
    (pos : 0 < m) (few : tuples.size < 2 ^ 32) :
    (∃ steps ≤ tuples.size * (maxChain + 2) + 1,
      (Task.mk tuples h1 h2 m).follow steps (Task.mk tuples h1 h2 m).start =
        .ok (.final ((place (choicesOf tuples h1 h2 m pos)).map numbers))) ∧
    ∀ board, place (choicesOf tuples h1 h2 m pos) = some board →
      (Task.mk tuples h1 h2 m).Fills (numbers board) :=
  ⟨Task.follow_start ⟨tuples, h1, h2, m⟩ pos,
    fun _ placed => Task.fills_of_settled ⟨tuples, h1, h2, m⟩ (place_settled few placed)⟩

/-- Three tuples on five slots. The third finds both its slots taken and moves the other two on. -/
theorem three_tuples_fill_by_chain :
    0 < 5 ∧ (#[[1], [7], [6]] : Array Tuple).size < 2 ^ 32 ∧
      (place (choicesOf #[[1], [7], [6]] [1] [2] 5 (by decide))).map numbers =
        some #[none, some 2, some 0, none, some 1] ∧
      (∃ steps ≤ 3 * (maxChain + 2) + 1,
        (Task.mk #[[1], [7], [6]] [1] [2] 5).follow steps
            (Task.mk #[[1], [7], [6]] [1] [2] 5).start =
          .ok (.final (some #[none, some 2, some 0, none, some 1]))) ∧
      (Task.mk #[[1], [7], [6]] [1] [2] 5).Fills #[none, some 2, some 0, none, some 1] := by
  have few : (#[[1], [7], [6]] : Array Tuple).size < 2 ^ 32 := by decide
  have ended : (place (choicesOf #[[1], [7], [6]] [1] [2] 5 (by decide))).map numbers =
      some #[none, some 2, some 0, none, some 1] := by decide +kernel
  obtain ⟨steps, fills⟩ := placement_fills_exactly #[[1], [7], [6]] [1] [2] 5 (by decide) few
  obtain ⟨board, placed, shown⟩ := Option.map_eq_some_iff.mp ended
  rw [ended] at steps
  exact ⟨by decide, few, ended, steps, shown ▸ fills board placed⟩

end Placement

end CopyPatch
