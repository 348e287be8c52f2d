import CopyPatch.Fault

/-! A pool of workers that share a queue of numbered tasks. Each worker looks whether a task has
failed, takes the first task of the queue, runs it, marks a failure and sends the result, over and
over. A schedule says which worker makes the next step. The results are put in the order of their
numbers when all workers have ended, so the schedule does not show in the answer. -/
namespace CopyPatch

/-- What a worker does next. -/
inductive WorkerPhase (α ε β : Type) where
  | looking
  | taking
  | running (number : Nat) (task : α)
  | marking (number : Nat) (result : Except ε β)
  | sending (number : Nat) (result : Except ε β)
  | ended
  /-- A fault in its task has stopped the worker. -/
  | stopped
  deriving Repr

/-- Whether a worker makes no more steps. -/
def WorkerPhase.isOver {α ε β : Type} : WorkerPhase α ε β → Bool
  | ended => true
  | stopped => true
  | _ => false

structure Pool (α ε β : Type) where
  queue : List (Nat × α)
  failed : Bool
  workers : List (WorkerPhase α ε β)
  /-- Results in the order in which they arrived. -/
  sent : List (Nat × Except ε β)
  deriving Repr

namespace Pool

variable {α ε β : Type}

/-- Workers before their first step. -/
def start (count : Nat) (tasks : List (Nat × α)) : Pool α ε β :=
  ⟨tasks, false, List.replicate count .looking, []⟩

/-- Let a worker go on to a phase. -/
def enter (pool : Pool α ε β) (worker : Nat) (phase : WorkerPhase α ε β) : Pool α ε β :=
  { pool with workers := pool.workers.set worker phase }

/-- One step of a worker. One that has ended or stopped makes none. -/
def step (run : α → Outcome ε β) (pool : Pool α ε β) (worker : Nat) : Pool α ε β :=
  match pool.workers[worker]? with
  | some .looking => pool.enter worker (if pool.failed then .ended else .taking)
  | some .taking => match pool.queue with
    | [] => pool.enter worker .ended
    | (number, task) :: rest => { pool with queue := rest }.enter worker (.running number task)
  | some (.running number task) => pool.enter worker (match run task with
    | .ok b => .marking number (.ok b)
    | .error (.error cause) => .marking number (.error cause)
    | .error (.fault _) => .stopped)
  | some (.marking number result) =>
    { pool with failed := pool.failed || !result.isOk }.enter worker (.sending number result)
  | some (.sending number result) =>
    { pool with sent := pool.sent ++ [(number, result)] }.enter worker .looking
  | some .ended => pool
  | some .stopped => pool
  | none => pool

/-- Let the workers make steps in the order of a schedule. -/
def follow (run : α → Outcome ε β) (pool : Pool α ε β) (schedule : List Nat) : Pool α ε β :=
  schedule.foldl (step run) pool

/-- Whether no worker has a step left. -/
def isOver (pool : Pool α ε β) : Bool := pool.workers.all WorkerPhase.isOver

def hasStopped (pool : Pool α ε β) : Bool :=
  pool.workers.any fun | .stopped => true | _ => false

/-- The results in the order of their numbers, up to the first failure. -/
def inOrder (sent : List (Nat × Except ε β)) : Except ε (List β) :=
  (sent.mergeSort fun a b => a.1 ≤ b.1).mapM (·.2)

/-- What a pool that is over has found. A stopped worker stops everything. -/
def answer (pool : Pool α ε β) : Outcome ε (List β) :=
  if pool.hasStopped then .error (.fault .workerStopped)
  else Outcome.ofReporting (inOrder pool.sent)

/-- Let every worker make one step. -/
def turn (run : α → Outcome ε β) (pool : Pool α ε β) : Pool α ε β :=
  pool.follow run (List.range pool.workers.length)

/-- Take turns as long as a worker has a step left, but no more than a number of times. -/
def turns (run : α → Outcome ε β) : Nat → Pool α ε β → Pool α ε β
  | 0, pool => pool
  | n + 1, pool => if pool.isOver then pool else turns run n (pool.turn run)

/-- Run tasks on a number of workers, at least one. A task takes a worker five steps and the end
two, so after this many turns no worker has a step left. -/
def runAll (run : α → Outcome ε β) (count : Nat) (tasks : List (Nat × α)) :
    Outcome ε (List β) :=
  ((start (max count 1) tasks).turns run (5 * tasks.length + 2)).answer

end Pool

end CopyPatch
