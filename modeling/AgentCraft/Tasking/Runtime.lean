import AgentCraft.Tasking.World

/-!
# Executor processes

`RoundExecutor` and the dispatcher loop as processes beside the database. A process works through its
notify queue and runs one claimed round after the other; next to the round that it runs there are its
renewal loop and the deadline enforcements that have been scheduled. Containers outlive the process
that has started them. Every step is one piece of code between two suspension points, so a run is an
arbitrary interleaving of the processes with the users, the background jobs and the containers.
-/

namespace AgentCraft.Tasking

open AgentCraft.Relational AgentCraft.Transition

/-- How far `_run_round` has come. -/
inductive RunPhase
  /-- Registered in `_rounds`, the recheck is still to come. -/
  | registered
  /-- The renewal loop has been started; snapshot, token, extension, proxy. -/
  | assembling
  /-- Registered in `_engines`, `transport.start` is awaited. -/
  | starting
  /-- The container has been started, the reader has not. -/
  | launched
  /-- The reader has been started and the prompt has been sent, without suspension in between. -/
  | prompted
  /-- `done` has been received. -/
  | settling
  /-- The settlement has been attempted. -/
  | closing
deriving DecidableEq, Repr

namespace RunPhase

/-- Past the recheck, before the prompt. -/
def isAssembling : RunPhase → Bool
  | .assembling | .starting | .launched => true
  | _ => false

/-- Past the recheck, before `done`. -/
def isExecuting : RunPhase → Bool
  | .assembling | .starting | .launched | .prompted => true
  | _ => false

/-- The transport has been started. -/
def isLaunched : RunPhase → Bool
  | .launched | .prompted | .settling | .closing => true
  | _ => false

/-- There is an entry in `_engines`. -/
def hasEngine : RunPhase → Bool
  | .registered | .assembling => false
  | _ => true

/-- There is a reader task. -/
def hasReader : RunPhase → Bool
  | .prompted | .settling | .closing => true
  | _ => false

/-- The phases of a run, in order. -/
def next? : RunPhase → Option RunPhase
  | .registered => some .assembling
  | .assembling => some .starting
  | .starting => some .launched
  | .launched => some .prompted
  | .prompted => some .settling
  | .settling => some .closing
  | .closing => none

end RunPhase

/-- One execution of `_run_round`. -/
structure RoundRun where
  ctx : RoundContext
  phase : RunPhase := .registered
  startedAt : Time := 0
  /-- `_renew_loop` is running. -/
  renewing : Bool := false
  /-- `engine.stop` has closed the transport and cancelled the reader. -/
  stopped : Bool := false
  /-- The reader has ended by itself. -/
  eof : Bool := false
deriving DecidableEq, Repr

/-- A `RoundExecutor` together with the dispatcher loop of its process. -/
structure Process where
  /-- `notify_queue`. -/
  queue : List TaskId := []
  /-- What is left of the scan of `run_pending` for the task at hand. -/
  claimed : List RoundContext := []
  /-- The entry of `_rounds`; `run_pending` runs one round at a time. -/
  current : Option RoundRun := none
  /-- `_enforce_round_deadline` tasks before their `stop_round`. -/
  enforcing : List RoundContext := []
  /-- `_enforce_round_deadline` tasks before their transaction. -/
  failing : List RoundContext := []
deriving DecidableEq, Repr

/-- A container that has not exited. -/
structure Container where
  ctx : RoundContext
  /-- The agent has settled. -/
  finished : Bool
deriving DecidableEq, Repr

/-- The processes and containers beside the database. -/
structure Runtime where
  world : World
  procs : Table InstanceId Process
  containers : List Container
  /-- The cancelling candidates whose `container_alive` probe has answered no. -/
  confirmed : List RoundCandidate

/-- The round that a process runs. -/
def Runtime.running (w : Runtime) (iid : InstanceId) : Option RoundRun :=
  (w.procs.get? iid).bind (·.current)

/-- `container_alive`: an engine is registered for the task and its reader has not ended. -/
def Process.containerAlive (p : Process) (tid : TaskId) : Bool :=
  p.current.any fun run => run.ctx.task = tid && run.phase.hasReader && !run.stopped && !run.eof

/-- The forced part of `stop_round`: the engine of the round is stopped, if the round is registered and
its engine has something to stop. -/
def Process.stopRound (p : Process) (rid : RoundId) : Process :=
  { p with current := p.current.map fun run =>
      if run.ctx.round = rid && run.phase.isLaunched then { run with stopped := true } else run }

/-- The steps of the round that a process runs. -/
inductive RunStep
  | recheck
  | createEngine
  | launch
  | prompt
  | fact (author : MessageAuthor) (content : String)
  | eof
  | done
  | settle (pending : Option String) (finishReason usage : String)
  /-- One beat of `_renew_loop`. -/
  | beat
  /-- `_release_round_resources`, on every way out of `_run_round`; whether the container could be
  removed. -/
  | release (removed : Bool)
deriving DecidableEq, Repr

/-- The steps of a process. -/
inductive ExecutorStep
  | notify (task : TaskId)
  /-- `run_pending` takes a task from the queue and scans its rounds. -/
  | pick
  | register
  | run (x : RunStep)
  | stopRound (round : RoundId)
  | enforceStop (c : RoundContext)
  | enforceFail (c : RoundContext)
deriving DecidableEq, Repr

/-- What a step of a process reads and writes. -/
structure Local where
  proc : Process
  db : Db
  containers : List Container

/-- Commit a fenced transaction, or give it up silently. -/
def Db.attempt (db : Db) : Except Failure Db → Db
  | .ok db' => db'
  | .error _ => db

/-- The deadline of the run has passed. -/
def RoundRun.isOverdue (cfg : Settings) (now : Time) (run : RoundRun) : Bool :=
  0 < cfg.roundDeadlineSeconds && run.startedAt + cfg.roundDeadlineSeconds ≤ now

/-- The entry of `_rounds` is replaced. -/
def Local.setRun (l : Local) (run : RoundRun) : Local :=
  { l with proc := { l.proc with current := some run } }

/-- One step of `_run_round` or of its renewal loop. -/
def RunStep.exec (cfg : Settings) (l : Local) (run : RoundRun) : RunStep → Except Failure Local
  | .recheck =>
    if run.phase = .registered then
      if recheckRound l.db run.ctx then
        -- the deadline counts from here, and the renewal loop is started first of all
        .ok (l.setRun { run with phase := .assembling, startedAt := l.db.now, renewing := true })
      else .ok { l with proc := { l.proc with current := none } }
    else .error .notEnabled
  | .createEngine =>
    if run.phase = .assembling then .ok (l.setRun { run with phase := .starting })
    else .error .notEnabled
  | .launch =>
    if run.phase = .starting then
      .ok { l.setRun { run with phase := .launched } with
        containers := ⟨run.ctx, false⟩ :: l.containers }
    else .error .notEnabled
  | .prompt =>
    if run.phase = .launched ∧ run.stopped = false then .ok (l.setRun { run with phase := .prompted })
    else .error .notEnabled
  | .fact author content =>
    if run.phase = .prompted then
      .ok { l with db := l.db.attempt (persistFact l.db run.ctx author content) }
    else .error .notEnabled
  | .eof =>
    if run.phase.hasReader then .ok (l.setRun { run with eof := true }) else .error .notEnabled
  | .done =>
    if run.phase = .prompted then
      .ok { l.setRun { run with phase := .settling } with
        containers := l.containers.map fun k =>
          if k.ctx = run.ctx then { k with finished := true } else k }
    else .error .notEnabled
  | .settle pending finishReason usage =>
    if run.phase = .settling then
      .ok { l.setRun { run with phase := .closing } with
        db := l.db.attempt (Tasking.settle l.db run.ctx pending finishReason usage) }
    else .error .notEnabled
  | .beat =>
    if run.renewing then
      -- the beat that finds the deadline passed ends the loop, and so does one that is fenced out
      if run.isOverdue cfg l.db.now then
        .ok { l with proc := { l.proc with
          current := some { run with renewing := false }, enforcing := run.ctx :: l.proc.enforcing } }
      else
        match renewLease cfg l.db run.ctx with
        | .ok db => .ok { l with db := db }
        | .error _ => .ok (l.setRun { run with renewing := false })
    else .error .notEnabled
  | .release removed =>
    .ok { l with
      proc := { l.proc with current := none }
      containers :=
        if removed && run.phase.hasEngine then l.containers.filter (·.ctx ≠ run.ctx)
        else l.containers }

/-- One step of a process. -/
def ExecutorStep.exec (cfg : Settings) (iid : InstanceId) (l : Local) :
    ExecutorStep → Except Failure Local
  | .notify tid => .ok { l with proc := { l.proc with queue := l.proc.queue ++ [tid] } }
  | .pick =>
    match l.proc.queue with
    | [] => .error .notEnabled
    | tid :: rest =>
      if l.proc.claimed = [] ∧ l.proc.current = none then
        .ok { l with proc := { l.proc with queue := rest, claimed := scanClaimed l.db tid iid } }
      else .error .notEnabled
  | .register =>
    match l.proc.claimed with
    | [] => .error .notEnabled
    | c :: rest =>
      if l.proc.current = none then
        .ok { l with proc := { l.proc with claimed := rest, current := some { ctx := c } } }
      else .error .notEnabled
  | .run x =>
    match l.proc.current with
    | none => .error .notEnabled
    | some current => x.exec cfg l current
  | .stopRound rid => .ok { l with proc := l.proc.stopRound rid }
  | .enforceStop c =>
    if c ∈ l.proc.enforcing then
      .ok { l with proc := { l.proc.stopRound c.round with
        enforcing := l.proc.enforcing.erase c, failing := c :: l.proc.failing } }
    else .error .notEnabled
  | .enforceFail c =>
    if c ∈ l.proc.failing then
      .ok { l with
        proc := { l.proc with failing := l.proc.failing.erase c }
        db := l.db.attempt (failAtDeadline l.db c) }
    else .error .notEnabled

/-! ## The system -/

/-- The labels of the runtime. -/
inductive RuntimeAction
  | background (a : Action)
  /-- The dispatcher loop of a process probes the container of a cancelling candidate. -/
  | probe (iid : InstanceId) (c : RoundCandidate)
  | executor (iid : InstanceId) (x : ExecutorStep)
  | crash (iid : InstanceId)
  | exit (k : Container)

/-- Whether the action is taken outside of the executors: their fenced writes are not, claims are made
by live processes, and a cancelling round is closed after its probe only. -/
def Action.isBackground (w : Runtime) : Action → Bool
  | .write (.output ..) => true
  | .write _ => false
  | .perform (.dispatch iid _) _ => (w.procs.get? iid).isSome
  | .perform (.cancelCancelling c) _ => c ∈ w.confirmed
  | _ => true

/-- The candidates that are still confirmed after an action. -/
def Action.unconfirm (confirmed : List RoundCandidate) : Action → List RoundCandidate
  | .perform (.cancelCancelling c) _ => confirmed.erase c
  | _ => confirmed

/-- The step function. -/
def Runtime.step (cfg : Settings) (nfc : String → String) (w : Runtime) :
    RuntimeAction → Except Failure Runtime
  | .background a =>
    if a.isBackground w then do
      let world ← Tasking.step cfg nfc w.world a
      return { w with world := world, confirmed := a.unconfirm w.confirmed }
    else .error .notEnabled
  | .probe iid c =>
    match w.procs.get? iid with
    | none => .error .notEnabled
    | some p =>
      if .cancelCancelling c ∈ w.world.jobs then
        if p.containerAlive c.task then
          .ok { w with world := { w.world with jobs := w.world.jobs.erase (.cancelCancelling c) } }
        else .ok { w with confirmed := c :: w.confirmed }
      else .error .notEnabled
  | .executor iid x =>
    match w.procs.get? iid with
    | none => .error .notEnabled
    | some p => do
      let l ← x.exec cfg iid ⟨p, w.world.db, w.containers⟩
      return { w with
        world := { w.world with db := l.db }
        procs := w.procs.set iid l.proc
        containers := l.containers }
  | .crash iid => .ok { w with procs := w.procs.filter fun iid' _ => iid' ≠ iid }
  | .exit k =>
    if k ∈ w.containers then .ok { w with containers := w.containers.erase k }
    else .error .notEnabled

/-- The processes, the containers and the database. -/
def runtime (cfg : Settings) (nfc : String → String) : System Runtime RuntimeAction Failure :=
  ⟨Runtime.step cfg nfc⟩

/-- A freshly migrated database, idle processes, no containers. -/
structure Runtime.Initial (w : Runtime) : Prop where
  world : w.world.Initial
  procs : ∀ iid p, w.procs.get? iid = some p → p = {}
  containers : w.containers = []
  confirmed : w.confirmed = []

/-- The processes 7 and 8 beside a small installation. -/
def Runtime.small : Runtime :=
  ⟨World.small, (Table.empty.insert 7 {}).insert 8 {}, [], []⟩

theorem Runtime.small_initial : Runtime.small.Initial where
  world := World.small_initial
  procs := by
    intro iid p hp
    have hmem := Table.get?_eq_some_iff.mp hp
    change (iid, p) ∈ [(7, ({} : Process)), (8, {})] at hmem
    rcases List.mem_pair.mp hmem with h | h <;> cases h <;> rfl
  containers := rfl
  confirmed := rfl

/-- Process 7 runs the round 12 that it has claimed, up to the recheck. -/
def registeredRun : List RuntimeAction :=
  claimedRun.map .background ++ [.executor 7 (.notify 10), .executor 7 .pick, .executor 7 .register,
    .executor 7 (.run .recheck)]

/-- The container is started and prompted. -/
def promptedRun : List RuntimeAction :=
  registeredRun ++ [.executor 7 (.run .createEngine), .executor 7 (.run .launch),
    .executor 7 (.run .prompt)]

end AgentCraft.Tasking
