import AgentCraft.Tasking.Executor
import AgentCraft.Transition.System

/-!
# The task domain as a transition system

A `World` is the database together with what is in flight outside of it: the candidates that scans have
returned and whose transactions are still to come, and the tool callbacks that have passed their check
and are still to be answered. Every action is one transaction (or one scan), so a run is an arbitrary
interleaving of users, background jobs and any number of executor instances. Executors are not
trusted to act only under leases that they hold: a fenced write may be attempted at any moment under
any `RoundContext`.
-/

namespace AgentCraft.Tasking

open AgentCraft.Relational AgentCraft.Transition

/-- The transactions that users start. -/
inductive Request
  | createTask (owner : UserId) (revision : RevisionId) (provider : Option ProviderId)
      (message : String) (mcpRefs : List ServerId)
  | commitInput (owner : UserId) (task : TaskId) (manifestSha256 : String)
  | uploadFiles (owner : UserId) (task : TaskId) (uploads : List (String × FileContent))
  | deleteFile (owner : UserId) (task : TaskId) (file : FileId)
  | abort (owner : UserId) (task : TaskId)
  | complete (owner : UserId) (task : TaskId)
  | delete (owner : UserId) (task : TaskId)
  | sendMessage (owner : UserId) (task : TaskId) (content : String)
  | createProvider (owner : UserId) (modelId : String) (isDefault : Bool)
  | rotateKey (owner : UserId) (provider : ProviderId)
  | revokeProvider (owner : UserId) (provider : ProviderId)
deriving DecidableEq, Repr

/-- The transactions that executors, and the sandboxes they run, attempt under a lease. -/
inductive Write
  | fact (c : RoundContext) (author : MessageAuthor) (content : String)
  | settle (c : RoundContext) (pending : Option String) (finishReason usage : String)
  | deadline (c : RoundContext)
  | renew (c : RoundContext)
  | output (c : RoundContext) (fileName : String) (content : FileContent)
deriving DecidableEq, Repr

/-- A candidate whose transaction is still to come. -/
inductive Job
  | dispatch (iid : InstanceId) (c : RoundCandidate)
  | reclaimExpired (c : ExpiredCandidate)
  | cancelCancelling (c : RoundCandidate)
  | expireUpload (c : TaskCandidate)
  | cleanup (c : TaskCandidate)
  | reconcile (c : ReconcileCandidate)
  | terminate (reason : AbortReason) (c : TaskCandidate)
  | terminateUser (user : UserId) (tasks : List TaskId)
deriving DecidableEq, Repr

/-- The scans. -/
inductive Scan
  | dispatch (iid : InstanceId)
  | reclaim
  | uploads
  | terminals
  | reconcile
  | tool (tool : ToolKey)
  | mcpServer (server : ServerId)
  | suspend (user : UserId)
  | accountHook (user : UserId)
deriving DecidableEq, Repr

/-- The database and what is in flight outside of it. -/
structure World where
  db : Db
  jobs : List Job
  calls : List RoundContext

/-- The labels of the system. -/
inductive Action
  | tick (seconds : ℕ)
  | setQuota (user : UserId) (quota : UserQuota)
  | setCatalog (catalog : Catalog)
  | request (r : Request)
  | write (x : Write)
  | scan (s : Scan)
  /-- Run the transaction of a candidate while other transactions hold locks on `locked` slots. -/
  | perform (j : Job) (locked : List ℕ)
  /-- The process that holds the candidate gives it up. -/
  | abandon (j : Job)
  /-- A read-only tool callback, or a call to a user's MCP server, passes `_assert_round_live`. -/
  | toolCheck (c : RoundContext)
  /-- The callback is answered. -/
  | toolAnswer (c : RoundContext)

/-- `_validate_quotas`: no dimension is negative. -/
def UserQuota.isValid (q : UserQuota) : Bool :=
  0 ≤ q.maxDailyTasks && 0 ≤ q.maxActiveTasks && 0 ≤ q.maxRunningTasks &&
    0 ≤ q.maxRetainedStorageBytes

/-- `update_quotas`, an upsert. -/
def updateQuotas (db : Db) (u : UserId) (quota : UserQuota) : Except Failure Db :=
  if quota.isValid then .ok { db with quotas := (db.quotas.insert u quota).set u quota }
  else .error (validationError "配额须为非负整数")

variable (cfg : Settings) (nfc : String → String)

/-- The transaction of a request. -/
def Request.exec (db : Db) : Request → Except Failure Db
  | .createTask owner revision provider message mcpRefs =>
    Prod.fst <$> Tasking.createTask cfg db owner revision provider message mcpRefs
  | .commitInput owner task manifest => Prod.fst <$> Tasking.commitInput db owner task manifest
  | .uploadFiles owner task uploads => Prod.fst <$> Tasking.uploadFiles nfc db owner task uploads
  | .deleteFile owner task file => Prod.fst <$> Tasking.deleteFile db owner task file
  | .abort owner task => Prod.fst <$> abortTask db owner task
  | .complete owner task => Prod.fst <$> completeTask db owner task
  | .delete owner task => Prod.fst <$> deleteTask db owner task
  | .sendMessage owner task content => Prod.fst <$> Tasking.sendMessage cfg db owner task content
  | .createProvider owner modelId isDefault => Tasking.createProvider db owner modelId isDefault
  | .rotateKey owner provider => rotateProviderKey db owner provider
  | .revokeProvider owner provider => Tasking.revokeProvider db owner provider

/-- The transaction of a fenced write. -/
def Write.exec (db : Db) : Write → Except Failure Db
  | .fact c author content => persistFact db c author content
  | .settle c pending finishReason usage => Tasking.settle db c pending finishReason usage
  | .deadline c => failAtDeadline db c
  | .renew c => renewLease cfg db c
  | .output c fileName content =>
    Prod.fst <$> registerOutput nfc db c.owner c.task fileName content c.round c.epoch

/-- The transaction of a candidate. -/
def Job.exec (locked : List ℕ) (db : Db) : Job → Except Failure Db
  | .dispatch iid c => claimRound cfg db locked c iid
  | .reclaimExpired c => Tasking.reclaimExpired db c
  | .cancelCancelling c => cancelCancellingRound db c
  | .expireUpload c => Tasking.expireUpload db c
  | .cleanup c => cleanupTask db c
  | .reconcile c => Tasking.reconcile db c
  | .terminate reason c => Tasking.terminate db c reason
  | .terminateUser user tasks => .ok (terminateTasksHook db user tasks)

/-- The candidates that a scan returns. -/
def Scan.jobs (db : Db) : Scan → List Job
  | .dispatch iid => (dispatchCandidates cfg db).map (.dispatch iid)
  | .reclaim => (cancellingCandidates db).map .cancelCancelling ++
      (expiredCandidates db).map .reclaimExpired
  | .uploads => (uploadCandidates cfg db).map .expireUpload
  | .terminals => (terminalCandidates cfg db).map .cleanup
  | .reconcile => (reconcileCandidates db).map .reconcile
  | .tool key => (toolTerminatorCandidates db key).map (.terminate .toolRevoked)
  | .mcpServer server => (mcpTerminatorCandidates db server).map (.terminate .toolRevoked)
  | .suspend user => (suspendCandidates db user).map (.terminate .adminSuspended)
  | .accountHook user => [.terminateUser user (userTaskIds db user)]

/-- The step function. -/
def step (w : World) : Action → Except Failure World
  | .tick seconds => .ok { w with db := { w.db with now := w.db.now + seconds } }
  | .setQuota user quota => do
    let db ← updateQuotas w.db user quota
    return { w with db := db }
  | .setCatalog catalog => .ok { w with db := { w.db with catalog := catalog } }
  | .request r => do
    let db ← r.exec cfg nfc w.db
    return { w with db := db }
  | .write x => do
    let db ← x.exec cfg nfc w.db
    return { w with db := db }
  | .scan s => .ok { w with jobs := w.jobs ++ s.jobs cfg w.db }
  | .perform j locked =>
    if j ∈ w.jobs then do
      let db ← j.exec cfg locked w.db
      return { w with db := db, jobs := w.jobs.erase j }
    else .error .notEnabled
  | .abandon j => .ok { w with jobs := w.jobs.erase j }
  | .toolCheck c =>
    if assertRoundLive w.db c then .ok { w with calls := c :: w.calls } else .error .notEnabled
  | .toolAnswer c =>
    if c ∈ w.calls then .ok { w with calls := w.calls.erase c } else .error .notEnabled

/-- The task domain. -/
def system : System World Action Failure := ⟨step cfg nfc⟩

/-- A freshly migrated database and nothing in flight. -/
structure World.Initial (w : World) : Prop where
  db : w.db.Initial
  jobs : w.jobs = []
  calls : w.calls = []

/-- A small installation to run examples on: the users 1 and 2 with a default provider each (3 and 4),
the published revision 5 without tools, and two free slots. -/
def World.small : World where
  db :=
    { tasks := .empty
      usage := .empty
      quotas := .empty
      usageDaily := .empty
      slots := (Table.empty.insert 1 ⟨none, .free, none⟩).insert 2 ⟨none, .free, none⟩
      storage := ⟨0, 107374182400⟩
      providers := (Table.empty.insert 3 ⟨1, "model", 1, .active, true⟩).insert 4
        ⟨2, "model", 1, .active, true⟩
      catalog := ⟨Table.empty.insert 5 ⟨true, []⟩, .empty, .empty⟩
      now := 0
      nextId := 10 }
  jobs := []
  calls := []

/-- User 1 creates and commits task 10, and executor 7 claims its round 12. -/
def claimedRun : List Action :=
  [.request (.createTask 1 5 none "hi" []), .request (.commitInput 1 10 "manifest"),
    .scan (.dispatch 7), .perform (.dispatch 7 ⟨12, 10, 1⟩) []]

theorem World.small_initial : World.small.Initial where
  db :=
    { tasks := rfl
      usage := by simp [World.small]
      slots := by
        intro n s hs
        have hmem := Table.get?_eq_some_iff.mp hs
        change (n, s) ∈ [(1, ⟨none, .free, none⟩), (2, ⟨none, .free, none⟩)] at hmem
        rcases List.mem_pair.mp hmem with h | h <;> cases h <;> exact ⟨rfl, rfl⟩
      storage := rfl }
  jobs := rfl
  calls := rfl

end AgentCraft.Tasking
