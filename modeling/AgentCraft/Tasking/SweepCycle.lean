import AgentCraft.Access.FinalSweep
import AgentCraft.Tasking.World

/-!
# The cycle of the dispatcher and the final sweep

One cycle of `dispatcher_loop` with nothing else going on: the four jobs in turn, each a scan and a transaction
for every candidate. A dropped candidate and a failing probe of a container are caught next to the candidate. An
error of the database leaves the job, and the loop catches it only around all four, so that the candidates behind
it and the jobs behind its job are not processed in this cycle. The final sweep of the accounts has the same form.
Errors of `executor.notify` and of the physical deletion are caught and leave no trace in the tables.
-/

namespace AgentCraft.Tasking

open AgentCraft.Relational AgentCraft.Transition

/-- What the jobs meet outside of their own transactions. -/
structure Surroundings where
  /-- `_executor(runtime)` is there. -/
  executor : Bool
  /-- `container_alive` raises. -/
  probeFails : TaskId → Bool
  /-- The answer of `container_alive`. -/
  containerAlive : TaskId → Bool
  /-- The transaction of the candidate raises, for whatever reason. -/
  raises : Job → Bool

/-- What ends the turn of a candidate without a commit. -/
inductive TurnError
  /-- `continue`. -/
  | passed
  | raised
deriving DecidableEq, Repr

def TurnError.caught : TurnError → Bool
  | .passed => true
  | .raised => false

/-- The row by which the scans order their candidates (identifiers grow with `created_at`). -/
def Job.row : Job → ℕ
  | .dispatch _ c => c.round
  | .reclaimExpired c => c.round
  | .cancelCancelling c => c.round
  | .expireUpload c => c.task
  | .cleanup c => c.task
  | .reconcile c => c.task
  | .terminate _ c => c.task
  | .terminateUser _ _ => 0

/-- The candidates of a scan in its order. -/
def Scan.ordered (cfg : Settings) (s : Scan) (db : Db) : List Job :=
  (s.jobs cfg db).insertionSort fun j j' => j.row ≤ j'.row

/-- The transaction of a candidate. -/
def Surroundings.transaction (env : Surroundings) (cfg : Settings) (db : Db) (j : Job) : Except TurnError Db :=
  if env.raises j then .error .raised
  else
    match j.exec cfg [] db with
    | .ok db' => .ok db'
    | .error .candidateDropped => .error .passed
    | .error _ => .error .raised

/-- The turn of a candidate: a cancelling round waits until its container is dead. -/
def Surroundings.turn (env : Surroundings) (cfg : Settings) (db : Db) : Job → Except TurnError Db
  | .cancelCancelling c =>
    if env.executor = false ∨ env.probeFails c.task ∨ env.containerAlive c.task then .error .passed
    else env.transaction cfg db (.cancelCancelling c)
  | j => env.transaction cfg db j

/-- `dispatch_once`, `reclaim_once`, `sweep_upload_ttl` and `sweep_terminal_cleanup`. -/
def Surroundings.scans (env : Surroundings) (cfg : Settings) (iid : InstanceId) : List (Db → List Job) :=
  [fun db => if env.executor then Scan.ordered cfg (.dispatch iid) db else [], Scan.ordered cfg .reclaim,
    Scan.ordered cfg .uploads, Scan.ordered cfg .terminals]

/-- One cycle of `dispatcher_loop`. -/
def dispatcherCycle (cfg : Settings) (iid : InstanceId) (env : Surroundings) (db : Db) :
    Swept Db Job TurnError :=
  sweeps (env.turn cfg) TurnError.caught db (env.scans cfg iid)

/-- The candidates that a cycle would process if it caught the errors of each of them. -/
def isolatedCycle (cfg : Settings) (iid : InstanceId) (env : Surroundings) (db : Db) : List Job :=
  isolated (env.turn cfg) db (env.scans cfg iid)

/-- The turns of a cycle, each with the database that it finds if the errors before it are caught. -/
def cycleTurns (cfg : Settings) (iid : InstanceId) (env : Surroundings) (db : Db) : List (Db × Job) :=
  scanTurns (env.turn cfg) db (env.scans cfg iid)

/-- In a cycle of either kind everything is processed that could be iff nothing that could be processed comes after
a candidate whose error leaves the loop. -/
theorem sweeps_isolate_iff (w : Access.FinalSweep.Vault) (randomHash : Access.UserId → String)
    (fails : Access.UserId → Bool) (cfg : Settings) (iid : InstanceId) (env : Surroundings) (db : Db) :
    ((∀ u ∈ w.dueUsers, fails u = false → u ∈ (w.sweepExpired randomHash fails).processed) ∧
        (dispatcherCycle cfg iid env db).processed = isolatedCycle cfg iid env db) ↔
      (w.dueUsers.Pairwise fun u v => fails u = true → fails v = true) ∧
        (cycleTurns cfg iid env db).Pairwise fun t t' =>
          Raises (env.turn cfg) TurnError.caught t = true → Lands (env.turn cfg) t' = false := by
  rw [w.sweepExpired_processes_iff randomHash fails]
  exact and_congr_right fun _ => sweeps_processed_eq_iff db (env.scans cfg iid)

/-- The deadlines of two accounts have passed. -/
def twoDue : Access.FinalSweep.Vault where
  users :=
    (Table.empty.insert "a" ⟨"a@example.com", .chosen "h", .deleting, none, none, some 0⟩).insert "b"
      ⟨"b@example.com", .chosen "h", .deleting, none, none, some 0⟩
  providers := .empty
  servers := .empty
  sessions := .empty
  pending := .empty
  now := 1

/-- Two users have created a task each, and a day later neither has committed its input. -/
def twoExpired : Db :=
  ((system {} id).run World.small [.request (.createTask 1 5 none "hi" []),
    .request (.createTask 2 5 none "hi" []), .tick 86401]).db

/-- The error of the first account keeps the second one from being processed, and the error of the first task the
second one. -/
theorem not_sweeps_isolate :
    ¬ (∀ u ∈ twoDue.dueUsers, (u == "a") = false → u ∈ (twoDue.sweepExpired id (· == "a")).processed) ∧
      (dispatcherCycle {} 7 ⟨true, fun _ => false, fun _ => false, (·.row == 10)⟩ twoExpired).processed ≠
        isolatedCycle {} 7 ⟨true, fun _ => false, fun _ => false, (·.row == 10)⟩ twoExpired := by
  constructor
  · intro h
    have hb : "b" ∈ (twoDue.sweepExpired id (· == "a")).processed :=
      h "b" (by decide +kernel) (by decide +kernel)
    exact absurd hb (by decide +kernel)
  · decide +kernel

end AgentCraft.Tasking
