import CopyPatch.Build.Workers
import CopyPatch.Proofs.Outcome

/-! Workers do not look into their results. If what each task gives is changed in one way, the pool
takes the same steps, and its answer is changed in that way, result by result. -/
namespace CopyPatch

variable {α ε β γ : Type}

namespace WorkerPhase

/-- Change the result that a worker holds. -/
def map (f : β → γ) : WorkerPhase α ε β → WorkerPhase α ε γ
  | looking => looking
  | taking => taking
  | running number task => running number task
  | marking number result => marking number (result.map f)
  | sending number result => sending number (result.map f)
  | ended => ended
  | stopped => stopped

theorem isOver_map (f : β → γ) (phase : WorkerPhase α ε β) :
    (phase.map f).isOver = phase.isOver := by
  cases phase <;> rfl

end WorkerPhase

namespace Pool

/-- Change all results in a pool. -/
def map (f : β → γ) (pool : Pool α ε β) : Pool α ε γ :=
  ⟨pool.queue, pool.failed, pool.workers.map (·.map f), pool.sent.map fun s => (s.1, s.2.map f)⟩

theorem enter_map (f : β → γ) (pool : Pool α ε β) (worker : Nat) (phase : WorkerPhase α ε β) :
    (pool.map f).enter worker (phase.map f) = (pool.enter worker phase).map f := by
  simp [enter, map, List.map_set]

theorem isOk_map (f : β → γ) (result : Except ε β) : (result.map f).isOk = result.isOk := by
  cases result <;> rfl

theorem step_map (f : β → γ) (run : α → Outcome ε β) (pool : Pool α ε β) (worker : Nat) :
    (pool.map f).step (fun task => (run task).map f) worker = (pool.step run worker).map f := by
  have phase : (pool.map f).workers[worker]? = pool.workers[worker]?.map (·.map f) :=
    List.getElem?_map
  unfold step
  rw [phase]
  cases pool.workers[worker]? with
  | none => rfl
  | some phase =>
    simp only [Option.map_some]
    cases phase with
    | looking =>
      simp only [WorkerPhase.map, ← enter_map]
      congr 1
      show (if pool.failed then WorkerPhase.ended else .taking) = _
      cases pool.failed <;> rfl
    | taking =>
      have queue : (pool.map f).queue = pool.queue := rfl
      simp only [WorkerPhase.map, queue]
      cases pool.queue with
      | nil => exact enter_map f pool worker .ended
      | cons first rest =>
        exact enter_map f { pool with queue := rest } worker (.running first.1 first.2)
    | running number task =>
      simp only [WorkerPhase.map, ← enter_map]
      congr 1
      cases run task with
      | ok result => rfl
      | error failure => cases failure <;> rfl
    | marking number result =>
      simp only [WorkerPhase.map, ← enter_map, isOk_map]
      rfl
    | sending number result =>
      simp only [WorkerPhase.map, ← enter_map]
      congr 1
      simp only [map, List.map_append]
      rfl
    | ended => rfl
    | stopped => rfl

theorem follow_map (f : β → γ) (run : α → Outcome ε β) (pool : Pool α ε β)
    (schedule : List Nat) :
    (pool.map f).follow (fun task => (run task).map f) schedule =
      (pool.follow run schedule).map f := by
  induction schedule generalizing pool with
  | nil => rfl
  | cons worker rest ih =>
    rw [follow, List.foldl_cons, step_map]
    exact ih _

theorem isOver_map (f : β → γ) (pool : Pool α ε β) : (pool.map f).isOver = pool.isOver := by
  rw [isOver, isOver, map, List.all_map]
  congr 1
  funext phase
  exact phase.isOver_map f

theorem turns_map (f : β → γ) (run : α → Outcome ε β) (count : Nat) (pool : Pool α ε β) :
    (pool.map f).turns (fun task => (run task).map f) count = (pool.turns run count).map f := by
  induction count generalizing pool with
  | zero => rfl
  | succ count ih =>
    rw [turns, turns, isOver_map]
    split
    · rfl
    · have length : (pool.map f).workers.length = pool.workers.length := List.length_map _
      rw [turn, turn, length, follow_map]
      exact ih _

theorem hasStopped_map (f : β → γ) (pool : Pool α ε β) :
    (pool.map f).hasStopped = pool.hasStopped := by
  rw [hasStopped, hasStopped, map, List.any_map]
  congr 1
  funext phase
  cases phase <;> rfl

theorem mapM_map (f : β → γ) (results : List (Nat × Except ε β)) :
    (results.map fun s => (s.1, s.2.map f)).mapM Prod.snd =
      (results.mapM Prod.snd).map (List.map f) := by
  induction results with
  | nil => rfl
  | cons first rest ih =>
    rw [List.map_cons, List.mapM_cons, List.mapM_cons, ih]
    cases first.2 with
    | error e => rfl
    | ok b => cases rest.mapM Prod.snd <;> rfl

theorem inOrder_map (f : β → γ) (sent : List (Nat × Except ε β)) :
    inOrder (sent.map fun s => (s.1, s.2.map f)) = (inOrder sent).map (List.map f) := by
  have sorted : (sent.mergeSort fun a b => a.1 ≤ b.1).map (fun s => (s.1, s.2.map f)) =
      (sent.map fun s => (s.1, s.2.map f)).mergeSort fun a b => a.1 ≤ b.1 :=
    List.map_mergeSort fun _ _ _ _ => rfl
  rw [inOrder, ← sorted]
  exact mapM_map f _

theorem answer_map (f : β → γ) (pool : Pool α ε β) :
    (pool.map f).answer = pool.answer.map (List.map f) := by
  rw [answer, answer, hasStopped_map]
  split
  · rfl
  · show Outcome.ofReporting (inOrder (pool.sent.map _)) = _
    rw [inOrder_map]
    cases inOrder pool.sent <;> rfl

/-- The answer of all tasks is changed as their results are. -/
theorem runAll_map (f : β → γ) (run : α → Outcome ε β) (count : Nat) (tasks : List (Nat × α)) :
    runAll (fun task => (run task).map f) count tasks =
      (runAll run count tasks).map (List.map f) := by
  have fresh : (start (max count 1) tasks : Pool α ε γ) = (start (max count 1) tasks).map f := by
    simp [start, map, WorkerPhase.map]
  rw [runAll, fresh, turns_map, answer_map]
  rfl

end Pool

end CopyPatch
