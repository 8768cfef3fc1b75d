import AgentCraft.Python.Uuid
import AgentCraft.Tasking.Terminators

/-!
# Disabling and deleting MCP servers

`PUT` and `DELETE /mcp/servers/{server_id}`. Both look the idempotency record up first, change the row of
the server in one transaction that also stores the record, and then terminate the tasks whose snapshot
mounts the server. The row is found by the parsed identifier; the tasks are found by the string that the
caller has sent, which is compared with the strings in the snapshots.
-/

namespace AgentCraft.Tasking

open AgentCraft.Relational AgentCraft.Transition AgentCraft.Python

/-- `McpServerUpdateRequest`: a field is absent, null or given. -/
structure ServerUpdates where
  name : Option (Option String) := none
  enabled : Option (Option Bool) := none
deriving DecidableEq, Repr

/-- The two requests. -/
inductive ServerRequest
  | update (serverId : String) (updates : ServerUpdates)
  | delete (serverId : String)
deriving DecidableEq, Repr

/-- What they answer with: `_server_out`, or the receipt of a deletion. -/
inductive ServerReply
  | server (id : String) (row : UserMcpServer)
  | deleted (id : String)
deriving DecidableEq, Repr

/-- A row of `idempotency_records`. -/
structure ServerRecord where
  requestHash : String
  reply : ServerReply
  expiresAt : Time
deriving DecidableEq, Repr

/-- Subject, route and key. -/
abbrev ServerIdem := UserId × String × String

/-- The database, its idempotency records, and whether an executor is wired to the runtime. -/
structure McpFace where
  db : Db
  records : Table ServerIdem ServerRecord
  executor : Bool

/-- How a request ends. -/
inductive ServerOutcome
  | replayed (reply : ServerReply)
  | answered (reply : ServerReply)
  /-- 409 `IDEMPOTENCY_CONFLICT`. -/
  | conflict
  | failed (e : Failure)
  /-- The cascade has raised; what was committed stays. -/
  | interrupted
deriving DecidableEq, Repr

def ServerOutcome.isSuccess : ServerOutcome → Bool
  | .replayed _ | .answered _ => true
  | _ => false

@[grind] def ServerRequest.serverId : ServerRequest → String
  | .update serverId _ | .delete serverId => serverId

/-- The body that is hashed; a deletion has none. -/
def ServerRequest.payload : ServerRequest → Option ServerUpdates
  | .update _ updates => some updates
  | .delete _ => none

/-- The request disables the server or deletes it. -/
def ServerRequest.turnsOff : ServerRequest → Bool
  | .update _ updates => updates.enabled = some (some false)
  | .delete _ => true

/-! ## The rows -/

/-- `_get_server_row`, in a session of the user. -/
def getServerRow (ud : UnicodeData) (db : Db) (user : UserId) (serverId : String) :
    Except Failure (ServerId × UserMcpServer) :=
  match parseUuid ud serverId with
  | none => .error (validationError "server_id 不是合法 UUID")
  | some sid =>
    match (db.catalog.mcpServers.get? sid).filter (·.ownerId = user) with
    | none => .error providerNotFound
    | some row => .ok (sid, row)

/-- `_validate_name`. -/
def validateServerName (name : String) : Except Failure Unit :=
  let stripped := (name.toList.dropWhile isPyWhitespace).rdropWhile isPyWhitespace
  if stripped = [] ∨ name.toList ≠ stripped then
    .error (validationError "name 须为 1..80 字符且首尾无空白的字符串")
  else .ok ()

/-- The new name of the row. -/
def UserMcpServer.rename (row : UserMcpServer) : Option (Option String) → Except Failure UserMcpServer
  | some (some name) =>
    if name ≠ row.name then do
      validateServerName name
      return { row with name := name }
    else .ok row
  | _ => .ok row

/-- The row after an update, and whether that has disabled the server. -/
def UserMcpServer.update (row : UserMcpServer) (updates : ServerUpdates) :
    Except Failure (UserMcpServer × Bool) :=
  if updates.name = some none then
    .error (validationError "name 不支持置空（缺席=不变，字符串=替换）")
  else if updates.enabled = some none then
    .error (validationError "enabled 不支持置空（缺席=不变，布尔=覆盖）")
  else do
    let renamed ← row.rename updates.name
    match updates.enabled with
    | some (some enabled) =>
      if enabled ≠ row.enabled then return ({ renamed with enabled := enabled }, !enabled)
      else return (renamed, false)
    | _ => return (renamed, false)

/-- Write the rows of the servers back. -/
def Db.setServers (db : Db) (servers : Table ServerId UserMcpServer) : Db :=
  { db with catalog := { db.catalog with mcpServers := servers } }

/-- The transaction of a request: the new database, the reply, and whether tasks have to be stopped. -/
def ServerRequest.work (ud : UnicodeData) (db : Db) (user : UserId) :
    ServerRequest → Except Failure (Db × ServerReply × Bool)
  | .update serverId updates => do
    let (sid, row) ← getServerRow ud db user serverId
    let (row, revoked) ← row.update updates
    return (db.setServers (db.catalog.mcpServers.set sid row), .server (formatUuid sid) row, revoked)
  | .delete serverId => do
    let (sid, _) ← getServerRow ud db user serverId
    return (db.setServers (db.catalog.mcpServers.filter fun k _ => k ≠ sid),
      .deleted (formatUuid sid), true)

/-! ## The cascade -/

/-- `_MCP_TERMINATOR_CANDIDATES_SQL`: the containment compares strings, and `snapshot_refs_for_task` has
written canonical ones. -/
def mountCandidates (db : Db) (serverId : String) : List TaskCandidate :=
  scanTasks db fun t => t.status.isTerminable && t.mcpServers.any (formatUuid ·.serverId = serverId)

/-- `_terminate_tasks_for_server`; `raises` is the number of tasks after which an exception ends it.
Without an executor the candidates are skipped. -/
def McpFace.terminateTasks (s : McpFace) (serverId : String) (reply : ServerReply) (raises : Option ℕ) :
    ServerOutcome × McpFace :=
  if !s.executor then (.answered reply, s)
  else
    match raises with
    | none =>
      (.answered reply,
        { s with db := terminateAll .toolRevoked s.db (mountCandidates s.db serverId) })
    | some n =>
      (.interrupted,
        { s with db := terminateAll .toolRevoked s.db ((mountCandidates s.db serverId).take n) })

/-! ## The requests -/

/-- The key of the idempotency record: the route contains the identifier as the caller spells it. -/
def ServerRequest.idem (r : ServerRequest) (user : UserId) (key : String) : ServerIdem :=
  (user, "/api/mcp/servers/" ++ r.serverId, key)

/-- `_lookup`, its `SELECT`. -/
def McpFace.lookup (s : McpFace) (idem : ServerIdem) : Option ServerRecord :=
  (s.records.get? idem).filter (s.db.now < ·.expiresAt)

/-- `update_server` and `delete_server`. A lookup that finds nothing purges what has expired, so the
record can be stored. -/
def McpFace.handle (ud : UnicodeData) (requestHash : Option ServerUpdates → String) (s : McpFace)
    (user : UserId) (key : String) (r : ServerRequest) (raises : Option ℕ) : ServerOutcome × McpFace :=
  match s.lookup (r.idem user key) with
  | some record =>
    (if record.requestHash = requestHash r.payload then .replayed record.reply else .conflict, s)
  | none =>
    let records := s.records.filter fun _ record => s.db.now < record.expiresAt
    match r.work ud s.db user with
    | .error e => (.failed e, { s with records := records })
    | .ok (db, reply, stops) =>
      let record : ServerRecord := ⟨requestHash r.payload, reply, db.now + 86400⟩
      let s : McpFace := { s with db := db, records := records.insert (r.idem user key) record }
      if stops then s.terminateTasks r.serverId reply raises else (.answered reply, s)

end AgentCraft.Tasking
