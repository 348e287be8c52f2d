import CopyPatch.Build.Workers
import CopyPatch.Proofs.Outcome
import Mathlib.Data.List.Perm.Basic

/-! The books of a pool of workers. One relation says what a worker can do in a step; from it follow
that every schedule ends, and that tasks leave the queue in order, are run once each and have their
results sent. -/
namespace CopyPatch

namespace WorkerPhase

variable {α ε β : Type}

/-- The task that a worker has taken and not yet run. -/
def held : WorkerPhase α ε β → List (Nat × α)
  | running number task => [(number, task)]
  | _ => []

/-- The result that a worker has found and not yet sent. -/
def unsent : WorkerPhase α ε β → List (Nat × Except ε β)
  | marking number result => [(number, result)]
  | sending number result => [(number, result)]
  | _ => []

/-- The steps that a worker makes from here on if it takes no further task. -/
def stepsLeft : WorkerPhase α ε β → Nat
  | looking => 2
  | taking => 1
  | running _ _ => 5
  | marking _ _ => 4
  | sending _ _ => 3
  | ended => 0
  | stopped => 0

theorem stepsLeft_eq_zero {phase : WorkerPhase α ε β} :
    phase.stepsLeft = 0 ↔ phase.isOver = true := by
  cases phase <;> simp [stepsLeft, isOver]

end WorkerPhase

namespace Pool

open WorkerPhase (held unsent stepsLeft)
open scoped List

variable {α ε β : Type} {run : α → Outcome ε β} {pool : Pool α ε β} {worker : Nat}

/-- What a worker in a phase can do: the phase it enters, and what it changes for all. -/
inductive Moves (run : α → Outcome ε β) (pool : Pool α ε β) :
    WorkerPhase α ε β → WorkerPhase α ε β → Pool α ε β → Prop where
  | seesFailure (failed : pool.failed = true) : Moves run pool .looking .ended pool
  | goesOn : Moves run pool .looking .taking pool
  | findsNone (empty : pool.queue = []) : Moves run pool .taking .ended pool
  | takes {number : Nat} {task : α} {rest : List (Nat × α)}
      (first : pool.queue = (number, task) :: rest) :
      Moves run pool .taking (.running number task) { pool with queue := rest }
  | runs {number : Nat} {task : α} {result : Except ε β}
      (ran : run task = Outcome.ofReporting result) :
      Moves run pool (.running number task) (.marking number result) pool
  | stops {number : Nat} {task : α} {fault : Fault} (ran : run task = .error (.fault fault)) :
      Moves run pool (.running number task) .stopped pool
  | marks {number : Nat} {result : Except ε β} :
      Moves run pool (.marking number result) (.sending number result)
        { pool with failed := pool.failed || !result.isOk }
  | sends {number : Nat} {result : Except ε β} :
      Moves run pool (.sending number result) .looking
        { pool with sent := pool.sent ++ [(number, result)] }

theorem step_cases (run : α → Outcome ε β) (pool : Pool α ε β) (worker : Nat) :
    pool.step run worker = pool ∧
        (∀ phase, pool.workers[worker]? = some phase → phase.isOver = true) ∨
      ∃ phase next shared, pool.workers[worker]? = some phase ∧
        Moves run pool phase next shared ∧ pool.step run worker = shared.enter worker next := by
  unfold step
  split
  · rename_i here
    refine .inr ⟨_, _, _, here, ?_, rfl⟩
    split
    · rename_i failed; exact .seesFailure failed
    · exact .goesOn
  · rename_i here
    split
    · rename_i empty; exact .inr ⟨_, _, _, here, .findsNone empty, rfl⟩
    · rename_i first; exact .inr ⟨_, _, _, here, .takes first, rfl⟩
  · rename_i here
    refine .inr ⟨_, _, _, here, ?_, rfl⟩
    split
    · rename_i ran; exact .runs ran
    · rename_i ran; exact .runs ran
    · rename_i ran; exact .stops ran
  · rename_i here; exact .inr ⟨_, _, _, here, .marks, rfl⟩
  · rename_i here; exact .inr ⟨_, _, _, here, .sends, rfl⟩
  · rename_i here; exact .inl ⟨rfl, by rw [here]; rintro _ ⟨⟩; rfl⟩
  · rename_i here; exact .inl ⟨rfl, by rw [here]; rintro _ ⟨⟩; rfl⟩
  · rename_i here; exact .inl ⟨rfl, by rw [here]; rintro _ ⟨⟩⟩

theorem Moves.workers_eq {phase next : WorkerPhase α ε β} {shared : Pool α ε β}
    (moves : Moves run pool phase next shared) : shared.workers = pool.workers := by
  cases moves <;> rfl

/-- The steps that the workers make from here on if they take no further task. -/
def load : List (WorkerPhase α ε β) → Nat
  | [] => 0
  | phase :: rest => phase.stepsLeft + load rest

theorem load_replicate (count : Nat) :
    load (List.replicate count (.looking : WorkerPhase α ε β)) = 2 * count := by
  induction count with
  | zero => rfl
  | succ count ih => rw [List.replicate_succ, load, ih, stepsLeft]; omega

theorem load_set {workers : List (WorkerPhase α ε β)} {phase : WorkerPhase α ε β}
    (here : workers[worker]? = some phase) (next : WorkerPhase α ε β) :
    load (workers.set worker next) + phase.stepsLeft = load workers + next.stepsLeft := by
  induction workers generalizing worker with
  | nil => simp at here
  | cons first rest ih =>
    cases worker with
    | zero =>
      obtain rfl : first = phase := by simpa using here
      simp only [List.set_cons_zero, load]
      omega
    | succ worker =>
      have := ih (by simpa using here)
      simp only [List.set_cons_succ, load]
      omega

/-- A move takes a step off, five of them being reserved for each task in the queue. -/
theorem Moves.stepsLeft_lt {phase next : WorkerPhase α ε β} {shared : Pool α ε β}
    (moves : Moves run pool phase next shared) :
    5 * shared.queue.length + next.stepsLeft < 5 * pool.queue.length + phase.stepsLeft := by
  cases moves with
  | takes first => simp only [first, List.length_cons, stepsLeft]; omega
  | _ => simp only [stepsLeft]; omega

/-- Every step of the schedule is made by a worker that has one left. -/
def Busy (run : α → Outcome ε β) : Pool α ε β → List Nat → Prop
  | _, [] => True
  | pool, worker :: rest =>
    (∃ phase, pool.workers[worker]? = some phase ∧ phase.isOver = false) ∧
      Busy run (pool.step run worker) rest

theorem length_le_of_busy {schedule : List Nat} (busy : Busy run pool schedule) :
    schedule.length ≤ 5 * pool.queue.length + load pool.workers := by
  induction schedule generalizing pool with
  | nil => exact Nat.zero_le _
  | cons worker rest ih =>
    obtain ⟨⟨phase, here, more⟩, busy⟩ := busy
    have later := ih busy
    rcases step_cases run pool worker with ⟨_, finished⟩ | ⟨phase, next, shared, here, moves, made⟩
    · exact absurd (finished phase here) (by simp [more])
    · have fewer := moves.stepsLeft_lt
      have total := load_set here next
      rw [made] at later
      simp only [enter, moves.workers_eq] at later
      rw [List.length_cons]
      omega

theorem busy_append {schedule : List Nat} {worker : Nat} (busy : Busy run pool schedule)
    (more : ∃ phase, (pool.follow run schedule).workers[worker]? = some phase ∧
      phase.isOver = false) : Busy run pool (schedule ++ [worker]) := by
  induction schedule generalizing pool with
  | nil => exact ⟨more, trivial⟩
  | cons first rest ih => exact ⟨busy.1, ih busy.2 more⟩

/-- A pool is over or one of its workers has a step left. -/
theorem isOver_or_more (pool : Pool α ε β) :
    pool.isOver = true ∨ ∃ (worker : Nat) (phase : WorkerPhase α ε β),
      pool.workers[worker]? = some phase ∧ phase.isOver = false := by
  by_cases finished : pool.isOver = true
  · exact .inl finished
  · right
    simp only [isOver, List.all_eq_true, not_forall, Bool.not_eq_true] at finished
    obtain ⟨phase, member, more⟩ := finished
    obtain ⟨worker, here⟩ := List.getElem?_of_mem member
    exact ⟨worker, phase, here, more⟩

/-- The tasks that are run along a schedule, in order. -/
def tasksRun (run : α → Outcome ε β) : Pool α ε β → List Nat → List (Nat × α)
  | _, [] => []
  | pool, worker :: rest =>
    (pool.workers[worker]?.elim [] held) ++ tasksRun run (pool.step run worker) rest

/-- The books of a pool. Tasks are taken from the front, and each is with a worker or has been run;
each result of a task that has been run is with a worker or has arrived. -/
structure Accounts (run : α → Outcome ε β) (tasks ran : List (Nat × α)) (pool : Pool α ε β) :
    Prop where
  taken : ∃ taken, taken ++ pool.queue = tasks ∧ taken.Perm (ran ++ pool.workers.flatMap held)
  results : (ran.map fun t => (t.1, run t.2)).Perm
    ((pool.workers.flatMap unsent ++ pool.sent).map fun r => (r.1, Outcome.ofReporting r.2))
  failure : pool.failed = true →
    ∃ r ∈ pool.workers.flatMap unsent ++ pool.sent, r.2.isOk = false
  ending : .ended ∈ pool.workers → pool.failed = true ∨ pool.queue = []

theorem accounts_start (run : α → Outcome ε β) (count : Nat) (tasks : List (Nat × α)) :
    Accounts run tasks [] (start count tasks) where
  taken := ⟨[], rfl, by simp [start, held]⟩
  results := by simp [start, unsent]
  failure := by simp [start]
  ending := by simp [start]

/-- Only what one worker holds changes when it enters a phase. -/
theorem flatMap_set_perm {γ : Type} {workers : List (WorkerPhase α ε β)}
    {phase : WorkerPhase α ε β} (here : workers[worker]? = some phase)
    (next : WorkerPhase α ε β) (f : WorkerPhase α ε β → List γ) :
    ∃ others, (workers.flatMap f).Perm (f phase ++ others) ∧
      ((workers.set worker next).flatMap f).Perm (f next ++ others) := by
  obtain ⟨inside, rfl⟩ := List.getElem?_eq_some_iff.mp here
  refine ⟨(workers.eraseIdx worker).flatMap f, ?_, ?_⟩
  · exact (List.getElem_cons_eraseIdx_perm inside).symm.flatMap_right f
  · exact (List.set_perm_cons_eraseIdx inside next).flatMap_right f

/-- A worker that takes nothing and runs nothing leaves the tasks where they are. -/
theorem perm_set_of_eq {γ : Type} {workers : List (WorkerPhase α ε β)}
    {phase next : WorkerPhase α ε β} (here : workers[worker]? = some phase)
    {f : WorkerPhase α ε β → List γ} (same : f next = f phase) :
    (workers.flatMap f).Perm ((workers.set worker next).flatMap f) := by
  obtain ⟨others, before, after⟩ := flatMap_set_perm here next f
  exact before.trans (same ▸ after.symm)

section Moves

variable {tasks ran : List (Nat × α)} {phase next : WorkerPhase α ε β} {shared : Pool α ε β}

theorem Moves.taken (moves : Moves run pool phase next shared) (sound : next ≠ .stopped)
    (here : pool.workers[worker]? = some phase)
    (accounts : Accounts run tasks ran pool) :
    ∃ taken, taken ++ shared.queue = tasks ∧
      taken.Perm (ran ++ phase.held ++ (pool.workers.set worker next).flatMap held) := by
  obtain ⟨taken, whole, perm⟩ := accounts.taken
  cases moves with
  | stops => exact absurd rfl sound
  | @takes number task rest first =>
    obtain ⟨others, before, after⟩ := flatMap_set_perm here (.running number task) held
    refine ⟨taken ++ [(number, task)], ?_, ?_⟩
    · rw [← whole, first, List.append_assoc]
      rfl
    · calc taken ++ [(number, task)]
        _ ~ (ran ++ others) ++ [(number, task)] :=
          (perm.trans (before.append_left ran)).append_right _
        _ ~ ran ++ [] ++ ([(number, task)] ++ others) := by
          rw [List.append_assoc, List.append_nil]
          exact List.perm_append_comm.append_left ran
        _ ~ _ := after.symm.append_left _
  | @runs number task result _ =>
    obtain ⟨others, before, after⟩ := flatMap_set_perm here (.marking number result) held
    refine ⟨taken, whole, perm.trans ?_⟩
    rw [List.append_assoc]
    exact (before.trans (after.symm.append_left _)).append_left ran
  | _ =>
    refine ⟨taken, whole, perm.trans ?_⟩
    simp only [held, List.append_nil]
    exact (perm_set_of_eq here (by rfl)).append_left ran

/-- Running a task adds its result, and no other move adds or loses one. -/
theorem Moves.results (moves : Moves run pool phase next shared) (sound : next ≠ .stopped)
    (here : pool.workers[worker]? = some phase) :
    ∃ found : List (Nat × Except ε β),
      (phase.held.map fun t => (t.1, run t.2)) =
        (found.map fun r => (r.1, Outcome.ofReporting r.2)) ∧
      found ++ (pool.workers.flatMap unsent ++ pool.sent) ~
        (pool.workers.set worker next).flatMap unsent ++ shared.sent := by
  cases moves with
  | stops => exact absurd rfl sound
  | @runs number task result ran =>
    obtain ⟨others, before, after⟩ := flatMap_set_perm here (.marking number result) unsent
    refine ⟨[(number, result)], by simp [held, ran], ?_⟩
    rw [← List.append_assoc]
    exact ((before.append_left _).trans after.symm).append_right _
  | @sends number result =>
    obtain ⟨others, before, after⟩ := flatMap_set_perm here .looking unsent
    refine ⟨[], rfl, ?_⟩
    calc pool.workers.flatMap unsent ++ pool.sent
      _ ~ ([(number, result)] ++ others) ++ pool.sent := before.append_right _
      _ ~ others ++ (pool.sent ++ [(number, result)]) := by
        rw [List.append_assoc, ← List.append_assoc others]
        exact List.perm_append_comm
      _ ~ _ := after.symm.append_right _
  | _ => exact ⟨[], rfl, (perm_set_of_eq here (by rfl)).append_right _⟩

/-- The mark of a failure is set by a worker that holds one. -/
theorem Moves.failed (moves : Moves run pool phase next shared)
    (marked : shared.failed = true) :
    pool.failed = true ∨ ∃ r ∈ next.unsent, r.2.isOk = false := by
  cases moves with
  | @marks number result =>
    by_cases earlier : pool.failed = true
    · exact .inl earlier
    · refine .inr ⟨(number, result), List.mem_singleton_self _, ?_⟩
      simpa [earlier] using marked
  | _ => exact .inl marked

theorem Moves.failed_of_failed (moves : Moves run pool phase next shared)
    (marked : pool.failed = true) : shared.failed = true := by
  cases moves <;> simp [marked]

theorem Moves.queue_of_empty (moves : Moves run pool phase next shared)
    (empty : pool.queue = []) : shared.queue = [] := by
  cases moves with
  | takes first => rw [empty] at first; cases first
  | _ => exact empty

theorem Moves.ended (moves : Moves run pool phase .ended shared) :
    shared.failed = true ∨ shared.queue = [] := by
  cases moves with
  | seesFailure failed => exact .inl failed
  | findsNone empty => exact .inr empty

/-- What one step does to the books. -/
theorem Accounts.move (accounts : Accounts run tasks ran pool)
    (moves : Moves run pool phase next shared) (sound : next ≠ .stopped)
    (here : pool.workers[worker]? = some phase) :
    Accounts run tasks (ran ++ phase.held) (shared.enter worker next) := by
  obtain ⟨found, same, kept⟩ := moves.results sound here
  have within : next ∈ pool.workers.set worker next :=
    List.mem_set (List.getElem?_eq_some_iff.mp here).1 next
  refine ⟨?_, ?_, ?_, ?_⟩
  · simpa only [enter, moves.workers_eq] using moves.taken sound here accounts
  · simp only [enter, moves.workers_eq]
    rw [List.map_append, same]
    refine List.perm_append_comm.trans (.trans ?_ (kept.map _))
    rw [List.map_append]
    exact accounts.results.append_left _
  · intro marked
    simp only [enter, moves.workers_eq] at marked ⊢
    rcases moves.failed marked with earlier | ⟨r, member, bad⟩
    · obtain ⟨r, member, bad⟩ := accounts.failure earlier
      exact ⟨r, kept.mem_iff.mp (List.mem_append_right _ member), bad⟩
    · exact ⟨r, List.mem_append_left _ (List.mem_flatMap.mpr ⟨next, within, member⟩), bad⟩
  · simp only [enter, moves.workers_eq]
    intro member
    rcases List.mem_or_eq_of_mem_set member with before | rfl
    · exact (accounts.ending before).imp moves.failed_of_failed moves.queue_of_empty
    · exact moves.ended

end Moves

theorem hasStopped_eq_true :
    pool.hasStopped = true ↔ .stopped ∈ pool.workers := by
  unfold hasStopped
  rw [List.any_eq_true]
  constructor
  · rintro ⟨phase, member, stopped⟩
    cases phase <;> first | exact member | cases stopped
  · exact fun member => ⟨_, member, rfl⟩

theorem step_hasStopped (stopped : pool.hasStopped = true) :
    (pool.step run worker).hasStopped = true := by
  rw [hasStopped_eq_true] at stopped ⊢
  rcases step_cases run pool worker with ⟨same, _⟩ | ⟨phase, next, shared, here, moves, made⟩
  · rwa [same]
  · rw [made]
    obtain ⟨other, there⟩ := List.getElem?_of_mem stopped
    have apart : worker ≠ other := by
      rintro rfl
      obtain rfl := Option.some.inj (here.symm.trans there)
      cases moves
    refine List.mem_of_getElem? (i := other) ?_
    simpa [enter, moves.workers_eq, List.getElem?_set_ne apart] using there

theorem Accounts.step {tasks ran : List (Nat × α)} (accounts : Accounts run tasks ran pool)
    (sound : (pool.step run worker).hasStopped = false) :
    Accounts run tasks (ran ++ pool.workers[worker]?.elim [] held) (pool.step run worker) := by
  rcases step_cases run pool worker with ⟨same, finished⟩ | ⟨phase, next, shared, here, moves, made⟩
  · rw [same]
    cases here : pool.workers[worker]? with
    | none => simpa using accounts
    | some phase =>
      have finished := finished phase here
      cases phase with
      | ended => simpa [held] using accounts
      | stopped => simpa [held] using accounts
      | _ => cases finished
  · rw [here, made]
    rw [made] at sound
    refine accounts.move moves ?_ here
    rintro rfl
    have : (shared.enter worker .stopped).hasStopped = true := by
      rw [hasStopped_eq_true, enter, moves.workers_eq]
      exact List.mem_set (List.getElem?_eq_some_iff.mp here).1 _
    rw [this] at sound
    cases sound

/-- No worker stops at a task that it was not given. -/
theorem Accounts.step_hasStopped {tasks ran : List (Nat × α)}
    (accounts : Accounts run tasks ran pool)
    (noFault : ∀ t ∈ tasks, ∀ fault, run t.2 ≠ .error (.fault fault))
    (sound : pool.hasStopped = false) (worker : Nat) :
    (pool.step run worker).hasStopped = false := by
  rw [← Bool.not_eq_true, hasStopped_eq_true] at sound ⊢
  rcases step_cases run pool worker with ⟨same, _⟩ | ⟨phase, next, shared, here, moves, made⟩
  · rwa [same]
  · rw [made, enter, moves.workers_eq]
    intro stopped
    rcases List.mem_or_eq_of_mem_set stopped with before | rfl
    · exact sound before
    · cases moves with
      | @stops number task fault ran =>
        obtain ⟨taken, rfl, perm⟩ := accounts.taken
        have among : (number, task) ∈ pool.workers.flatMap held :=
          List.mem_flatMap.mpr ⟨_, List.mem_of_getElem? here, List.mem_singleton_self _⟩
        have known := perm.mem_iff.mpr (List.mem_append_right _ among)
        exact noFault _ (List.mem_append_left _ known) fault ran

theorem follow_hasStopped (run : α → Outcome ε β) (schedule : List Nat)
    (stopped : pool.hasStopped = true) :
    (pool.follow run schedule).hasStopped = true := by
  induction schedule generalizing pool with
  | nil => exact stopped
  | cons worker rest ih => exact ih (step_hasStopped stopped)

theorem Accounts.follow {tasks ran : List (Nat × α)} {schedule : List Nat}
    (accounts : Accounts run tasks ran pool)
    (sound : (pool.follow run schedule).hasStopped = false) :
    Accounts run tasks (ran ++ tasksRun run pool schedule) (pool.follow run schedule) := by
  induction schedule generalizing pool ran with
  | nil => simpa [tasksRun, Pool.follow] using accounts
  | cons worker rest ih =>
    have first : (pool.step run worker).hasStopped = false := by
      by_contra stopped
      rw [Bool.not_eq_false] at stopped
      have := follow_hasStopped run rest stopped
      exact absurd (this.symm.trans sound) (by decide)
    have := ih (accounts.step first) sound
    rwa [List.append_assoc] at this

theorem Accounts.follow_sound {tasks ran : List (Nat × α)} {schedule : List Nat}
    (accounts : Accounts run tasks ran pool)
    (noFault : ∀ t ∈ tasks, ∀ fault, run t.2 ≠ .error (.fault fault))
    (sound : pool.hasStopped = false) : (pool.follow run schedule).hasStopped = false := by
  induction schedule generalizing pool ran with
  | nil => exact sound
  | cons worker rest ih =>
    have next := accounts.step_hasStopped noFault sound worker
    exact ih (accounts.step next) next

end Pool

end CopyPatch
