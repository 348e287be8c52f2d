import CopyPatch.Proofs.Workers.Books
import Mathlib.Data.List.Nodup

/-! The answer of a pool does not depend on its schedule. What has arrived when all workers have
ended are the results of the first tasks: of all of them, or of enough to hold the first failure.
Workers that take turns follow one schedule among others, and the turns they are given suffice. -/
namespace CopyPatch.Pool

open WorkerPhase (held unsent stepsLeft)
open scoped List

variable {α ε β : Type} {run : α → Outcome ε β} {pool : Pool α ε β} {worker : Nat}

theorem ofReporting_mapM {γ : Type} (f : γ → Except ε β) (items : List γ) :
    Outcome.ofReporting (items.mapM f) = items.mapM fun item => Outcome.ofReporting (f item) := by
  induction items with
  | nil => rfl
  | cons first rest ih =>
    rw [List.mapM_cons, List.mapM_cons, ← ih]
    cases f first with
    | error cause => rfl
    | ok b => cases rest.mapM f <;> rfl

theorem eq_of_number {taken : List (Nat × α)} (increasing : taken.Pairwise fun a b => a.1 < b.1)
    {s t : Nat × α} (memberS : s ∈ taken) (memberT : t ∈ taken) (same : s.1 = t.1) : s = t := by
  have distinct : (taken.map (·.1)).Nodup :=
    List.pairwise_map.mpr (increasing.imp fun h => Nat.ne_of_lt h)
  exact List.inj_on_of_nodup_map distinct memberS memberT same

/-- Results that belong to tasks in the order of their numbers come out in that order. -/
theorem inOrder_eq {taken : List (Nat × α)} {sent : List (Nat × Except ε β)}
    (increasing : taken.Pairwise fun a b => a.1 < b.1)
    (perm : (taken.map fun t => (t.1, run t.2)) ~
      sent.map fun r => (r.1, Outcome.ofReporting r.2)) :
    Outcome.ofReporting (inOrder sent) = taken.mapM fun t => run t.2 := by
  let sorted := sent.mergeSort fun a b => a.1 ≤ b.1
  have ascending : sorted.Pairwise fun a b => a.1 ≤ b.1 := by
    refine (List.pairwise_mergeSort ?_ ?_ sent).imp (by simp)
    · intro a b c; simp only [decide_eq_true_eq]; omega
    · intro a b; simp only [Bool.or_eq_true, decide_eq_true_eq]; omega
  have order : (sorted.map fun r => (r.1, (Outcome.ofReporting r.2 : Outcome ε β))) =
      taken.map fun t => (t.1, run t.2) := by
    have perm := ((List.mergeSort_perm sent fun a b => a.1 ≤ b.1).map _).trans perm.symm
    refine @List.Perm.eq_of_pairwise _ (fun a b => a.1 ≤ b.1) _ _ ?_ ?_ ?_ perm
    · intro a b memberA memberB le ge
      obtain ⟨s, memberS, rfl⟩ := List.mem_map.mp (perm.mem_iff.mp memberA)
      obtain ⟨t, memberT, rfl⟩ := List.mem_map.mp memberB
      rw [eq_of_number increasing memberS memberT (Nat.le_antisymm le ge)]
    · exact List.pairwise_map.mpr ascending
    · exact List.pairwise_map.mpr (increasing.imp Nat.le_of_lt)
  calc Outcome.ofReporting (inOrder sent)
    _ = (sorted.map fun r => (r.1, (Outcome.ofReporting r.2 : Outcome ε β))).mapM (·.2) := by
      rw [inOrder, ofReporting_mapM, List.mapM_map]
      rfl
    _ = taken.mapM fun t => run t.2 := by
      rw [order, List.mapM_map]
      rfl

theorem ended_of_isOver (finished : pool.isOver = true) (sound : pool.hasStopped = false) :
    ∀ phase ∈ pool.workers, phase = .ended := by
  intro phase member
  have done := List.all_eq_true.mp finished phase member
  cases phase with
  | ended => rfl
  | stopped => exact absurd (sound.symm.trans (hasStopped_eq_true.mpr member)) (by decide)
  | _ => cases done

theorem length_workers_step :
    (pool.step run worker).workers.length = pool.workers.length := by
  rcases step_cases run pool worker with ⟨same, _⟩ | ⟨_, _, _, _, moves, made⟩
  · rw [same]
  · rw [made, enter, List.length_set, moves.workers_eq]

theorem length_workers_follow {schedule : List Nat} :
    (pool.follow run schedule).workers.length = pool.workers.length := by
  induction schedule generalizing pool with
  | nil => rfl
  | cons worker rest ih => exact ih.trans length_workers_step

/-- A pool that is over has taken, run and sent the first tasks. If some are left, one of those has
failed. -/
theorem Accounts.at_end {tasks ran : List (Nat × α)} (accounts : Accounts run tasks ran pool)
    (finished : pool.isOver = true) (sound : pool.hasStopped = false) (some : pool.workers ≠ []) :
    ∃ taken, taken ++ pool.queue = tasks ∧ taken ~ ran ∧
      (taken.map fun t => (t.1, run t.2)) ~
        (pool.sent.map fun r => (r.1, Outcome.ofReporting r.2)) ∧
      (pool.queue = [] ∨ ∃ t ∈ taken, ∃ cause, run t.2 = Outcome.fail cause) := by
  have ended := ended_of_isOver finished sound
  have noneHeld : pool.workers.flatMap held = [] :=
    List.flatMap_eq_nil_iff.mpr fun phase member => by rw [ended phase member]; rfl
  have noneUnsent : pool.workers.flatMap unsent = [] :=
    List.flatMap_eq_nil_iff.mpr fun phase member => by rw [ended phase member]; rfl
  obtain ⟨taken, whole, perm⟩ := accounts.taken
  have results := accounts.results
  rw [noneHeld, List.append_nil] at perm
  rw [noneUnsent, List.nil_append] at results
  have sent := (perm.map _).trans results
  refine ⟨taken, whole, perm, sent, ?_⟩
  -- a worker ends only at an empty queue or at a failure, so one of them says why all have ended
  obtain ⟨phase, member⟩ := List.exists_mem_of_ne_nil _ some
  rcases accounts.ending (ended phase member ▸ member) with failed | empty
  · right
    obtain ⟨⟨number, result⟩, arrived, bad⟩ := accounts.failure failed
    rw [noneUnsent, List.nil_append] at arrived
    have arrived := sent.mem_iff.mpr (List.mem_map.mpr ⟨_, arrived, rfl⟩)
    obtain ⟨t, member, same⟩ := List.mem_map.mp arrived
    cases result with
    | ok b => cases bad
    | error cause => exact ⟨t, member, cause, (Prod.ext_iff.mp same).2⟩
  · exact .inl empty

theorem mapM_append_of_error {γ δ ζ : Type} {f : γ → Except δ ζ} {first : List γ} {failure : δ}
    (failed : first.mapM f = .error failure) (rest : List γ) :
    (first ++ rest).mapM f = .error failure := by
  rw [List.mapM_append, failed]
  rfl

theorem mapM_ne_ok_of_error {γ δ ζ : Type} {f : γ → Except δ ζ} {items : List γ} {item : γ}
    {failure : δ} (member : item ∈ items) (failed : f item = .error failure) :
    ∃ first, items.mapM f = .error first := by
  cases found : items.mapM f with
  | error first => exact ⟨first, rfl⟩
  | ok answers =>
    obtain ⟨b, _, fine⟩ := exists_right (Outcome.mapM_eq_ok.mp found) member
    rw [failed] at fine
    cases fine

/-- The answer of a pool that is over is that of one worker who runs the tasks in order. -/
theorem Accounts.answer_eq {tasks ran : List (Nat × α)} (accounts : Accounts run tasks ran pool)
    (increasing : tasks.Pairwise fun a b => a.1 < b.1) (finished : pool.isOver = true)
    (sound : pool.hasStopped = false) (some : pool.workers ≠ []) :
    pool.answer = (tasks.mapM fun t => run t.2) ∧
      ∃ taken, taken <+: tasks ∧ ran ~ taken ∧
        ∀ found, pool.answer = .ok found → taken = tasks := by
  obtain ⟨taken, whole, perm, sent, rest⟩ := accounts.at_end finished sound some
  subst whole
  have answered : pool.answer = taken.mapM fun t => run t.2 := by
    rw [answer, sound]
    exact inOrder_eq (List.pairwise_append.mp increasing).1 sent
  rcases rest with empty | ⟨t, member, cause, failed⟩
  · rw [empty, List.append_nil]
    exact ⟨answered, taken, List.prefix_rfl, perm.symm, fun _ _ => rfl⟩
  -- tasks are left in the queue, but running in order does not come to them either
  · obtain ⟨first, stops⟩ := mapM_ne_ok_of_error (f := fun t => run t.2) member failed
    refine ⟨?_, taken, List.prefix_append _ _, perm.symm, ?_⟩
    · rw [answered, stops, mapM_append_of_error stops]
    · intro found fine
      rw [answered, stops] at fine
      cases fine

/-- Running increasing tasks in order ends at the failure with the smallest number. -/
theorem exists_smallest {tasks : List (Nat × α)}
    (increasing : tasks.Pairwise fun a b => a.1 < b.1) {t : Nat × α} (member : t ∈ tasks)
    {failure : Failure ε} (failed : run t.2 = .error failure) :
    ∃ first ∈ tasks, ∃ failure, run first.2 = .error failure ∧
      (tasks.mapM fun t => run t.2) = .error failure ∧
      ∀ s ∈ tasks, s.1 < first.1 → ∃ b, run s.2 = .ok b := by
  induction tasks with
  | nil => cases member
  | cons head rest ih =>
    obtain ⟨before, increasing⟩ := List.pairwise_cons.mp increasing
    cases ran : run head.2 with
    | error failure =>
      refine ⟨head, List.mem_cons_self, failure, ran, by rw [List.mapM_cons, ran]; rfl, ?_⟩
      intro s among less
      rcases List.mem_cons.mp among with rfl | later
      · omega
      · have := before s later
        omega
    | ok b =>
      have later : t ∈ rest := by
        rcases List.mem_cons.mp member with rfl | later
        · rw [ran] at failed; cases failed
        · exact later
      obtain ⟨first, among, failure, failed, whole, fine⟩ := ih increasing later
      refine ⟨first, List.mem_cons_of_mem _ among, failure, failed, ?_, ?_⟩
      · rw [List.mapM_cons, ran, whole]; rfl
      · intro s known less
        rcases List.mem_cons.mp known with rfl | known
        · exact ⟨b, ran⟩
        · exact fine s known less

/-- The failure with the smallest number is the answer. -/
theorem answer_of_smallest {tasks : List (Nat × α)}
    (increasing : tasks.Pairwise fun a b => a.1 < b.1)
    (answered : pool.answer = tasks.mapM fun t => run t.2) (sound : pool.hasStopped = false)
    {t : Nat × α} (member : t ∈ tasks) {cause : ε} (failed : run t.2 = Outcome.fail cause)
    (smallest : ∀ s ∈ tasks, s.1 < t.1 → ∀ cause, run s.2 ≠ Outcome.fail cause) :
    pool.answer = Outcome.fail cause := by
  obtain ⟨first, among, failure, stops, whole, fine⟩ := exists_smallest increasing member failed
  have reported : ∃ cause, failure = .error cause := by
    rw [answered.symm, answer, sound] at whole
    obtain ⟨cause, _, same⟩ := Outcome.mapError_eq_error.mp whole
    exact ⟨cause, same.symm⟩
  obtain ⟨_, rfl⟩ := reported
  have same : first.1 = t.1 := by
    rcases Nat.lt_trichotomy first.1 t.1 with less | same | greater
    · exact absurd stops (smallest first among less _)
    · exact same
    · obtain ⟨b, ran⟩ := fine t member greater
      rw [failed] at ran
      cases ran
  obtain rfl := eq_of_number increasing among member same
  cases stops.symm.trans failed
  exact answered.trans whole

/-- Every worker with a step left has at most so many left, and five for each task in the queue;
those before `turned` have one less. -/
def Within (bound turned : Nat) (pool : Pool α ε β) : Prop :=
  ∀ worker phase, pool.workers[worker]? = some phase → phase.isOver = false →
    5 * pool.queue.length + phase.stepsLeft ≤ if worker < turned then bound else bound + 1

theorem Moves.isOver_eq_false {phase next : WorkerPhase α ε β} {shared : Pool α ε β}
    (moves : Moves run pool phase next shared) : phase.isOver = false := by
  cases moves <;> rfl

theorem Moves.length_queue_le {phase next : WorkerPhase α ε β} {shared : Pool α ε β}
    (moves : Moves run pool phase next shared) : shared.queue.length ≤ pool.queue.length := by
  cases moves with
  | takes first => simp [first]
  | _ => exact Nat.le_refl _

theorem Within.step {bound turned : Nat} (within : Within bound turned pool) :
    Within bound (turned + 1) (pool.step run turned) := by
  intro worker phase there active
  rcases step_cases run pool turned with ⟨same, finished⟩ | ⟨old, next, shared, here, moves, made⟩
  · rw [same] at there ⊢
    have passed : worker ≠ turned := by
      rintro rfl
      exact absurd (finished phase there) (by simp [active])
    have := within worker phase there active
    split at this <;> split <;> omega
  · rw [made] at there ⊢
    simp only [enter, moves.workers_eq] at there ⊢
    by_cases turn : worker = turned
    · subst turn
      rw [List.getElem?_set_self (List.getElem?_eq_some_iff.mp here).1] at there
      obtain rfl := Option.some.inj there
      have before := within worker old here moves.isOver_eq_false
      have fewer := moves.stepsLeft_lt
      rw [if_neg (Nat.lt_irrefl worker)] at before
      rw [if_pos (Nat.lt_succ_self worker)]
      omega
    · rw [List.getElem?_set_ne (Ne.symm turn)] at there
      have before := within worker phase there active
      have shorter := moves.length_queue_le
      split at before <;> split <;> omega

theorem Within.follow_range {bound : Nat} (within : Within bound 0 pool) (count : Nat) :
    Within bound count (pool.follow run (List.range count)) := by
  induction count with
  | zero => exact within
  | succ count ih =>
    rw [List.range_succ, follow, List.foldl_append]
    exact ih.step

theorem Within.turn {bound : Nat} (within : Within bound 0 pool) {worker : Nat}
    {phase : WorkerPhase α ε β} (there : (pool.turn run).workers[worker]? = some phase)
    (active : phase.isOver = false) :
    5 * (pool.turn run).queue.length + phase.stepsLeft ≤ bound := by
  have inside := (List.getElem?_eq_some_iff.mp there).1
  rw [Pool.turn, length_workers_follow] at inside
  have := within.follow_range pool.workers.length worker phase there active
  rwa [if_pos inside] at this

theorem isOver_turns {count : Nat} (within : Within count 0 pool) :
    (pool.turns run (count + 1)).isOver = true := by
  induction count generalizing pool with
  | zero =>
    rw [turns]
    split
    · assumption
    · rcases isOver_or_more (pool.turn run) with finished | ⟨worker, phase, there, active⟩
      · exact finished
      · have := within.turn there active
        have : phase.stepsLeft = 0 := by omega
        exact absurd (WorkerPhase.stepsLeft_eq_zero.mp this) (by simp [active])
  | succ count ih =>
    rw [turns]
    split
    · assumption
    · exact ih fun worker phase there active => within.turn there active

theorem exists_schedule (run : α → Outcome ε β) (count : Nat) (pool : Pool α ε β) :
    ∃ schedule, pool.turns run count = pool.follow run schedule := by
  induction count generalizing pool with
  | zero => exact ⟨[], rfl⟩
  | succ count ih =>
    rw [turns]
    split
    · exact ⟨[], rfl⟩
    · obtain ⟨schedule, same⟩ := ih (pool.turn run)
      refine ⟨List.range pool.workers.length ++ schedule, ?_⟩
      rw [same, follow, follow, List.foldl_append]
      rfl

theorem runAll_isOver (run : α → Outcome ε β) (count : Nat) (tasks : List (Nat × α)) :
    ((start (max count 1) tasks).turns run (5 * tasks.length + 2)).isOver = true := by
  refine isOver_turns ?_
  intro worker phase there _
  obtain rfl := List.eq_of_mem_replicate (List.mem_of_getElem? there)
  simp [start, stepsLeft]

theorem start_workers_ne_nil (count : Nat) (tasks : List (Nat × α)) :
    (start (max count 1) tasks : Pool α ε β).workers ≠ [] := by
  simp only [start, ne_eq, List.replicate_eq_nil_iff]
  omega

theorem start_hasStopped (count : Nat) (tasks : List (Nat × α)) :
    (start count tasks : Pool α ε β).hasStopped = false := by
  rw [← Bool.not_eq_true, hasStopped_eq_true]
  exact fun stopped => by cases List.eq_of_mem_replicate stopped

/-- A pool that is over and has not stopped has the answer of running the tasks in order, has run
a first part of them, each once, and all of them if it has found something. -/
theorem follow_answer_eq {tasks : List (Nat × α)}
    (increasing : tasks.Pairwise fun a b => a.1 < b.1) {count : Nat} {schedule : List Nat}
    (reached : (start (max count 1) tasks).follow run schedule = pool)
    (finished : pool.isOver = true) (sound : pool.hasStopped = false) :
    pool.answer = (tasks.mapM fun t => run t.2) ∧
      ∃ taken, taken <+: tasks ∧ tasksRun run (start (max count 1) tasks) schedule ~ taken ∧
        ∀ found, pool.answer = .ok found → taken = tasks := by
  subst reached
  have accounts := (accounts_start run (max count 1) tasks).follow sound
  refine accounts.answer_eq increasing finished sound ?_
  have some := start_workers_ne_nil (ε := ε) (β := β) count tasks
  rw [← List.length_pos_iff] at some ⊢
  rwa [length_workers_follow]

/-- Taking turns is one schedule among others. -/
theorem runAll_eq {tasks : List (Nat × α)} (increasing : tasks.Pairwise fun a b => a.1 < b.1)
    (noFault : ∀ t ∈ tasks, ∀ fault, run t.2 ≠ .error (.fault fault)) (count : Nat) :
    runAll run count tasks = tasks.mapM fun t => run t.2 := by
  obtain ⟨schedule, reached⟩ :=
    exists_schedule run (5 * tasks.length + 2) (start (max count 1) tasks)
  refine (follow_answer_eq increasing reached.symm (runAll_isOver run count tasks) ?_).1
  rw [reached]
  exact (accounts_start run _ tasks).follow_sound noFault (start_hasStopped _ tasks)

theorem runAll_eq_ok {tasks : List (Nat × α)}
    (increasing : tasks.Pairwise fun a b => a.1 < b.1) {count : Nat} {found : List β}
    (h : runAll run count tasks = .ok found) : (tasks.mapM fun t => run t.2) = .ok found := by
  obtain ⟨schedule, reached⟩ :=
    exists_schedule run (5 * tasks.length + 2) (start (max count 1) tasks)
  have finished := runAll_isOver run count tasks
  rw [runAll] at h
  rw [reached] at h finished
  refine (follow_answer_eq increasing rfl finished ?_).1.symm.trans h
  rw [answer] at h
  split at h
  · cases h
  · rename_i sound; simpa using sound

/-- Whichever worker makes the next step, a pool ends after a bounded number of steps, and its
answer is that of running the tasks in the order of their numbers: all results in that order, each
task being run once, or the failure of the task with the smallest number that fails. -/
theorem every_schedule_answers_in_order (run : α → Outcome ε β) (count : Nat)
    (tasks : List (Nat × α)) (increasing : tasks.Pairwise fun a b => a.1 < b.1) :
    (∀ schedule, Busy run (start (max count 1) tasks) schedule →
      schedule.length ≤ 5 * tasks.length + 2 * max count 1 ∧
      (((start (max count 1) tasks).follow run schedule).isOver = true ∨
        ∃ worker, Busy run (start (max count 1) tasks) (schedule ++ [worker]))) ∧
    (∀ schedule pool, (start (max count 1) tasks).follow run schedule = pool →
      pool.isOver = true → pool.hasStopped = false →
      pool.answer = (tasks.mapM fun t => run t.2) ∧
      (∃ taken, taken <+: tasks ∧ tasksRun run (start (max count 1) tasks) schedule ~ taken ∧
        ∀ found, pool.answer = .ok found → taken = tasks) ∧
      ∀ t ∈ tasks, ∀ cause, run t.2 = Outcome.fail cause →
        (∀ s ∈ tasks, s.1 < t.1 → ∀ cause, run s.2 ≠ Outcome.fail cause) →
        pool.answer = Outcome.fail cause) ∧
    ((∀ t ∈ tasks, ∀ fault, run t.2 ≠ .error (.fault fault)) →
      runAll run count tasks = tasks.mapM fun t => run t.2) := by
  refine ⟨?_, ?_, fun noFault => runAll_eq increasing noFault count⟩
  · intro schedule busy
    have bound := length_le_of_busy busy
    simp only [start, load_replicate] at bound
    refine ⟨bound, ?_⟩
    rcases isOver_or_more ((start (max count 1) tasks).follow run schedule) with
      finished | ⟨worker, more⟩
    · exact .inl finished
    · exact .inr ⟨worker, busy_append busy more⟩
  · intro schedule pool reached finished sound
    obtain ⟨answered, once⟩ := follow_answer_eq increasing reached finished sound
    exact ⟨answered, once, fun t member cause failed smallest =>
      answer_of_smallest increasing answered sound member failed smallest⟩

/-- Two workers on four tasks, of which the second and the third fail. The third has failed and
been sent before the second is run, and the fourth is never taken. -/
theorem two_workers_answer_in_order :
    let run : Nat → Outcome Nat Nat := fun n => if n % 2 = 0 then .ok n else Outcome.fail n
    let tasks := [(1, 4), (2, 3), (5, 7), (6, 8)]
    let schedule := [0, 0, 0, 0, 1, 1, 0, 0, 0, 0, 0, 0, 1, 1, 1, 0, 1]
    ((start (max 2 1) tasks).follow run schedule).answer = Outcome.fail 3 ∧
      (tasks.mapM fun t => run t.2) = Outcome.fail 3 := by
  intro run tasks schedule
  obtain ⟨_, answers, _⟩ := every_schedule_answers_in_order run 2 tasks (by decide)
  obtain ⟨answered, _, smallest⟩ := answers schedule _ rfl (by decide) (by decide)
  have fine : ∀ s ∈ tasks, s.1 < 2 → ∀ cause, run s.2 ≠ Outcome.fail cause := by
    intro s member less cause
    obtain rfl : s = (1, 4) := by revert s; decide
    exact nofun
  have failed := smallest (2, 3) (by decide) 3 rfl fine
  exact ⟨failed, answered.symm.trans failed⟩

end CopyPatch.Pool
