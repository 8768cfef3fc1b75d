import AgentCraft.Python.Json
import AgentCraft.Requests.Replies

/-!
# The write requests of administrators

The routes under `/api/admin` that take an `Idempotency-Key`. A record is stored under the path of its
request and carries the hash of its body; the method is in neither. Only the grant of an entitlement and
its revocation share a path, and their bodies have the same fields.
-/

namespace AgentCraft.Requests

open AgentCraft.Python AgentCraft.Relational AgentCraft.Transition

/-! ## Routes and bodies -/

inductive Method
  | put | post | delete
deriving DecidableEq, Repr

/-- A path parameter: the router ends it at a slash. -/
abbrev PathParam := {s : String // '/' ∉ s.toList}

/-- An optional field of a payload: unset, `null` or a value. -/
abbrev OptionalField (α : Type*) := Option (Option α)

/-- The write endpoints, with their path parameters and payloads. -/
inductive AdminCall
  | updateTool (toolId version : String) (enabled : Bool)
  | updateProvider (providerId : PathParam) (enabled : OptionalField Bool)
      (models : OptionalField (List String))
  | killSwitch (toolId : PathParam) (version : String)
  | createInvitation (email : String) (expiresInDays : ℤ)
  | revokeInvitation (invitationId : PathParam)
  | resolveReport (reportId : PathParam) (action : String)
  | approveReview (revisionId : PathParam) (targetType : String)
  | rejectReview (revisionId : PathParam) (targetType : String)
  | updateUserQuotas (userId : PathParam)
      (maxDailyTasks maxActiveTasks maxRunningTasks maxRetainedStorageBytes : OptionalField ℤ)
  | grantEntitlement (userId : PathParam) (kind : String)
  | revokeEntitlement (userId : PathParam) (kind : String)
  | suspendUser (userId : PathParam)
  | unsuspendUser (userId : PathParam)

/-- A write request that has passed `require_admin_reason`. -/
structure AdminRequest where
  call : AdminCall
  reason : String

namespace AdminCall

def method : AdminCall → Method
  | .updateTool .. | .updateProvider .. | .updateUserQuotas .. => .put
  | .revokeEntitlement .. => .delete
  | _ => .post

/-- The segments of the path below `/api/admin`. -/
def route : AdminCall → List String
  | .updateTool .. => ["catalog", "tools"]
  | .updateProvider providerId .. => ["catalog", "providers", providerId]
  | .killSwitch toolId _ => ["tools", toolId, "kill-switch"]
  | .createInvitation .. => ["invitations"]
  | .revokeInvitation invitationId => ["invitations", invitationId, "revoke"]
  | .resolveReport reportId _ => ["reports", reportId, "resolve"]
  | .approveReview revisionId _ => ["reviews", revisionId, "approve"]
  | .rejectReview revisionId _ => ["reviews", revisionId, "reject"]
  | .updateUserQuotas userId .. => ["users", userId, "quotas"]
  | .grantEntitlement userId _ => ["users", userId, "entitlements"]
  | .revokeEntitlement userId _ => ["users", userId, "entitlements"]
  | .suspendUser userId => ["users", userId, "suspend"]
  | .unsuspendUser userId => ["users", userId, "unsuspend"]

/-- The kill switches run a cascade after their commit; of the reports only those that ban. -/
def shell : AdminCall → Shell
  | .killSwitch .. | .suspendUser .. => .killSwitch
  | .resolveReport _ action => if action = "ban_author" then .killSwitch else .plain
  | _ => .plain

end AdminCall

/-- What `model_dump(exclude_unset=True)` writes for an optional field. -/
def OptionalField.dump {α : Type*} (name : String) (value : α → JsonValue) :
    OptionalField α → JsonDict
  | none => []
  | some none => [(name, .null)]
  | some (some a) => [(name, value a)]

/-- `payload.model_dump(exclude_unset=True)`, less the reason. -/
def AdminCall.payload : AdminCall → JsonDict
  | .updateTool toolId version enabled =>
    [("tool_id", .str toolId), ("version", .str version), ("enabled", .bool enabled)]
  | .updateProvider _ enabled models =>
    OptionalField.dump "enabled" .bool enabled ++ OptionalField.dump "models" .strs models
  | .killSwitch _ version => [("version", .str version)]
  | .createInvitation email expiresInDays =>
    [("email", .str email), ("expires_in_days", .int expiresInDays)]
  | .resolveReport _ action => [("action", .str action)]
  | .approveReview _ targetType | .rejectReview _ targetType => [("target_type", .str targetType)]
  | .updateUserQuotas _ daily active running storage =>
    OptionalField.dump "max_daily_tasks" .int daily ++ OptionalField.dump "max_active_tasks" .int active ++
      OptionalField.dump "max_running_tasks" .int running ++
      OptionalField.dump "max_retained_storage_bytes" .int storage
  | .grantEntitlement _ kind | .revokeEntitlement _ kind => [("kind", .str kind)]
  | .revokeInvitation _ | .suspendUser _ | .unsuspendUser _ => []

/-- `CREDENTIAL_FIELDS`. -/
def credentialFields : List String :=
  ["password", "new_password", "invitation_token", "verify_token", "reset_token", "cancel_token", "api_key",
    "totp_code"]

/-- A credential is hashed as a placeholder. -/
def redact (item : String × JsonValue) : String × JsonValue :=
  if credentialFields.contains item.1 then
    match item.2 with
    | .null => (item.1, .str "***IDEMPOTENCY-REDACTED-NULL***")
    | _ => (item.1, .str "***IDEMPOTENCY-REDACTED***")
  else item

/-- `request_hash`, over SHA-256. -/
def requestHash (sha256 : String → String) : Option JsonDict → String
  | none => sha256 "null"
  | some payload => sha256 (dumps (payload.map redact))

/-- A path, from its segments. -/
def joinPath (segments : List String) : String := String.ofList (segments.flatMap fun s => '/' :: s.toList)

namespace AdminRequest

variable (c : AdminRequest)

/-- `request.url.path`. -/
def path : String := joinPath ("api" :: "admin" :: c.call.route)

def body : JsonDict := c.call.payload ++ [("reason", .str c.reason)]

/-- What a request asks for: the method, the path, and the body as a dictionary. -/
def operation : Method × String × JsonDict := (c.call.method, c.path, sortKeys c.body)

/-- The key of its record; `subject` is `subject_user` of the administrator. -/
def idem (subject key : String) : IdempotencyKey := ⟨subject, c.path, key⟩

def hash (sha256 : String → String) : String := requestHash sha256 (some c.body)

/-- One grants the entitlement that the other revokes, for the same reason. -/
def Twin (c c' : AdminRequest) : Prop :=
  c.reason = c'.reason ∧ ∃ userId kind,
    (c.call = .grantEntitlement userId kind ∧ c'.call = .revokeEntitlement userId kind) ∨
    (c.call = .revokeEntitlement userId kind ∧ c'.call = .grantEntitlement userId kind)

end AdminRequest

section Routes

variable {c c' : AdminCall}

/-- A path has one list of segments. -/
theorem joinPath_injective {l l' : List String} (hl : ∀ s ∈ l, '/' ∉ s.toList)
    (hl' : ∀ s ∈ l', '/' ∉ s.toList) (h : joinPath l = joinPath l') : l = l' := by
  have hsegment : Delimited (fun c => (!c = '/') = false) fun s : PathParam => s.1.toList :=
    .of_forall (fun s s' heq => Subtype.ext (String.toList_injective heq)) (!· = '/') fun s c hc => by
      have hne : c ≠ '/' := fun heq => s.2 (heq ▸ hc)
      simp [hne]
  have hstops (l : List String) :
      StopsAt (fun c => (!c = '/') = false) (l.flatMap fun s => '/' :: s.toList) := by
    cases l with
    | nil => exact stopsAt_nil
    | cons s l => exact stopsAt_cons.mpr rfl
  replace h := String.ofList_injective h
  induction l generalizing l' with
  | nil =>
    cases l' with
    | nil => rfl
    | cons s' l' => cases h
  | cons s l ih =>
    cases l' with
    | nil => cases h
    | cons s' l' =>
      simp only [List.flatMap_cons, List.cons_append, List.cons.injEq, true_and] at h
      obtain ⟨hs, hrest⟩ := hsegment ⟨s, hl s List.mem_cons_self⟩ ⟨s', hl' s' List.mem_cons_self⟩ _ _
        (hstops l) (hstops l') h
      rw [show s = s' from congrArg Subtype.val hs, ih (fun s hs => hl s (List.mem_cons_of_mem _ hs))
        (fun s hs => hl' s (List.mem_cons_of_mem _ hs)) hrest]

theorem AdminCall.not_mem_route (c : AdminCall) : ∀ s ∈ c.route, '/' ∉ s.toList := by
  intro s hs
  cases c with
  | updateTool | createInvitation =>
    simp only [route, List.mem_cons, List.not_mem_nil, or_false] at hs
    rcases hs with rfl | rfl <;> decide
  | updateProvider id | killSwitch id | revokeInvitation id | resolveReport id | approveReview id
    | rejectReview id | updateUserQuotas id | grantEntitlement id | revokeEntitlement id | suspendUser id
    | unsuspendUser id =>
    simp only [route, List.mem_cons, List.not_mem_nil, or_false] at hs
    rcases hs with rfl | rfl | rfl <;> first
      | exact id.2
      | decide

/-- The method that a route has, unless it is that of the entitlements. -/
def routeMethod : List String → Method
  | ["catalog", "tools"] | ["catalog", "providers", _] | ["users", _, "quotas"] => .put
  | _ => .post

def isEntitlements : List String → Bool
  | ["users", _, "entitlements"] => true
  | _ => false

theorem AdminCall.method_eq (hroute : isEntitlements c.route = false) : c.method = routeMethod c.route := by
  cases c with
  | grantEntitlement | revokeEntitlement => cases hroute
  | updateTool | updateProvider | killSwitch | createInvitation | revokeInvitation | resolveReport
    | approveReview | rejectReview | updateUserQuotas | suspendUser | unsuspendUser =>
    simp [method, route, routeMethod]

theorem AdminCall.eq_of_isEntitlements (hroute : isEntitlements c.route = true) : ∃ userId kind,
    c = .grantEntitlement userId kind ∨ c = .revokeEntitlement userId kind := by
  cases c with
  | grantEntitlement userId kind => exact ⟨userId, kind, .inl rfl⟩
  | revokeEntitlement userId kind => exact ⟨userId, kind, .inr rfl⟩
  | updateTool | updateProvider | killSwitch | createInvitation | revokeInvitation | resolveReport
    | approveReview | rejectReview | updateUserQuotas | suspendUser | unsuspendUser =>
    simp [route, isEntitlements] at hroute

/-- Only the two methods of the entitlements share a path. -/
theorem AdminCall.entitlements_of_route_eq (hroute : c.route = c'.route) (hmethod : c.method ≠ c'.method) :
    ∃ userId kind kind',
      (c = .grantEntitlement userId kind ∧ c' = .revokeEntitlement userId kind') ∨
      (c = .revokeEntitlement userId kind ∧ c' = .grantEntitlement userId kind') := by
  cases hc : isEntitlements c.route with
  | false =>
    have hc' : isEntitlements c'.route = false := by rw [← hroute, hc]
    exact (hmethod (by rw [method_eq hc, method_eq hc', hroute])).elim
  | true =>
    obtain ⟨userId, kind, h⟩ := eq_of_isEntitlements hc
    obtain ⟨userId', kind', h'⟩ := eq_of_isEntitlements (hroute ▸ hc)
    have huser : userId = userId' := by
      rcases h with rfl | rfl <;> rcases h' with rfl | rfl <;>
      · simp only [route, List.cons.injEq, and_true, true_and] at hroute
        exact Subtype.ext hroute
    subst huser
    refine ⟨userId, kind, kind', ?_⟩
    rcases h with rfl | rfl <;> rcases h' with rfl | rfl
    · exact (hmethod rfl).elim
    · exact .inl ⟨rfl, rfl⟩
    · exact .inr ⟨rfl, rfl⟩
    · exact (hmethod rfl).elim

end Routes

section Operations

variable {c c' : AdminRequest} {sha256 : String → String}

theorem AdminRequest.route_eq_of_path_eq (h : c.path = c'.path) : c.call.route = c'.call.route := by
  have hslash (c : AdminRequest) : ∀ s ∈ "api" :: "admin" :: c.call.route, '/' ∉ s.toList := by
    intro s hs
    rcases List.mem_cons.mp hs with rfl | hs
    · decide
    · rcases List.mem_cons.mp hs with rfl | hs
      · decide
      · exact c.call.not_mem_route s hs
  have heq := joinPath_injective (hslash c) (hslash c') h
  simpa only [List.cons.injEq, true_and] using heq

/-- No field of the write endpoints is a credential. -/
theorem AdminRequest.redact_body (c : AdminRequest) : c.body.map redact = c.body := by
  have hdump {α : Type} (name : String) (value : α → JsonValue) (field : OptionalField α)
      (hname : credentialFields.contains name = false) :
      (OptionalField.dump name value field).map redact = OptionalField.dump name value field := by
    rcases field with _ | _ | a <;>
      simp only [OptionalField.dump, redact, List.map_cons, List.map_nil, hname, Bool.false_eq_true, if_false]
  obtain ⟨call, reason⟩ := c
  have hreason : redact ("reason", .str reason) = ("reason", .str reason) := rfl
  simp only [body, List.map_append, List.map_cons, List.map_nil, hreason]
  congr 1
  cases call with
  | updateProvider _ enabled models =>
    simp only [AdminCall.payload, List.map_append]
    rw [hdump "enabled" _ _ rfl, hdump "models" _ _ rfl]
  | updateUserQuotas _ daily active running storage =>
    simp only [AdminCall.payload, List.map_append]
    rw [hdump "max_daily_tasks" _ _ rfl, hdump "max_active_tasks" _ _ rfl, hdump "max_running_tasks" _ _ rfl,
      hdump "max_retained_storage_bytes" _ _ rfl]
  | updateTool | killSwitch | createInvitation | revokeInvitation | resolveReport | approveReview
    | rejectReview | grantEntitlement | revokeEntitlement | suspendUser | unsuspendUser => rfl

/-- Equal hashes are those of one dictionary, unless SHA-256 collides on them. -/
theorem AdminRequest.hash_eq_iff
    (hsha : sha256 (dumps c.body) = sha256 (dumps c'.body) → dumps c.body = dumps c'.body) :
    c.hash sha256 = c'.hash sha256 ↔ sortKeys c.body = sortKeys c'.body := by
  simp only [hash, requestHash, redact_body]
  exact ⟨fun h => dumps_eq_iff.mp (hsha h), fun h => congrArg sha256 (dumps_eq_iff.mpr h)⟩

theorem sortKeys_entitlement (kind reason : String) :
    sortKeys [("kind", .str kind), ("reason", .str reason)] =
      [("kind", .str kind), ("reason", .str reason)] := by
  have hle : "kind" ≤ "reason" := by decide
  simp [sortKeys, hle]

/-- Different operations with one path and one body are the grant of an entitlement and its
revocation. -/
theorem AdminRequest.twin_of_eq (hne : c.operation ≠ c'.operation) (hpath : c.path = c'.path)
    (hbody : sortKeys c.body = sortKeys c'.body) : c.Twin c' := by
  have hmethod : c.call.method ≠ c'.call.method := by
    intro hmethod
    exact hne (by rw [operation, operation, hmethod, hpath, hbody])
  obtain ⟨call, reason⟩ := c
  obtain ⟨call', reason'⟩ := c'
  obtain ⟨userId, kind, kind', h⟩ := AdminCall.entitlements_of_route_eq (route_eq_of_path_eq hpath) hmethod
  have hfields : kind = kind' ∧ reason = reason' := by
    rcases h with ⟨rfl, rfl⟩ | ⟨rfl, rfl⟩ <;>
    · simp only [body, AdminCall.payload, List.cons_append, List.nil_append, sortKeys_entitlement] at hbody
      simpa using hbody
  obtain ⟨rfl, rfl⟩ := hfields
  exact ⟨rfl, userId, kind, h⟩

theorem AdminRequest.Twin.path_eq (h : c.Twin c') : c.path = c'.path := by
  obtain ⟨-, userId, kind, ⟨h, h'⟩ | ⟨h, h'⟩⟩ := h <;> simp only [path, h, h', AdminCall.route]

theorem AdminRequest.Twin.hash_eq (h : c.Twin c') : c.hash sha256 = c'.hash sha256 := by
  obtain ⟨hreason, userId, kind, ⟨h, h'⟩ | ⟨h, h'⟩⟩ := h <;>
    simp only [hash, body, h, h', AdminCall.payload, hreason]

end Operations

/-! ## The marks of a request -/

/-- The marks of a request carry its key and its hash. -/
def DeskMark.Labels {β : Type*} (w : Desk β) : DeskMark β → Prop
  | .looked id idem hash _ _ => ∃ q, w.requests.get? id = some q ∧ q.idem = idem ∧ q.hash = hash
  | .committed id idem _ r _ => ∃ q, w.requests.get? id = some q ∧ q.idem = idem ∧ q.hash = r.requestHash
  | _ => True

section Labels

variable {β : Type*} {w w' : Desk β} {id : RequestId} {q : Request β} {ms : List (DeskMark β)}
  {a : DeskAction β}

/-- A request keeps its key and its hash. -/
theorem DeskMark.Labels.mono {m : DeskMark β} (hm : m.Labels w)
    (hkeep : ∀ id q, w.requests.get? id = some q →
      ∃ q', w'.requests.get? id = some q' ∧ q'.idem = q.idem ∧ q'.hash = q.hash) : m.Labels w' := by
  cases m with
  | looked id | committed id =>
    obtain ⟨q, hq, rfl, hhash⟩ := hm
    obtain ⟨q', hq', hidem', hhash'⟩ := hkeep id q hq
    exact ⟨q', hq', hidem', hhash'.trans hhash⟩
  | purged | blocked => trivial

/-- A move sets the phase of its request, and its marks carry the labels of the request. -/
theorem Desk.Move.labels (hl : w.Locked) (hq : w.requests.get? id = some q) (hm : w.Move id q w' ms) :
    (∃ phase, w'.requests = w.requests.set id { q with phase := phase }) ∧ ∀ m ∈ ms, m.Labels w := by
  cases hm with
  | silent phase => exact ⟨⟨phase, rfl⟩, fun m hm => by cases hm⟩
  | miss | hit =>
    refine ⟨⟨_, rfl⟩, fun m hm => ?_⟩
    rw [List.mem_singleton.mp hm]
    exact ⟨q, hq, rfl, rfl⟩
  | purge | block =>
    refine ⟨⟨_, rfl⟩, fun m hm => ?_⟩
    rw [List.mem_singleton.mp hm]
    trivial
  | flush => exact ⟨⟨_, rfl⟩, fun m hm => by cases hm⟩
  | commit s write record hphase =>
    refine ⟨⟨_, rfl⟩, fun m hm => ?_⟩
    rw [List.mem_singleton.mp hm]
    exact ⟨q, hq, rfl, (hl.gives id q s write record hq hphase).1.symm⟩

theorem Desk.step_labels (hl : w.Locked) (hs : w.step a = .ok w') :
    (∀ id q, w.requests.get? id = some q →
      ∃ q', w'.requests.get? id = some q' ∧ q'.idem = q.idem ∧ q'.hash = q.hash) ∧
    ∀ m ∈ w.marks a, m.Labels w := by
  rcases Desk.step_cases hs with ⟨micros, rfl, hmarks⟩ | ⟨id, idem, hash, shell, hnone, hmarks, rfl⟩ |
    ⟨id, q, hq, hm⟩
  · rw [hmarks]
    exact ⟨fun _ q hq => ⟨q, hq, rfl, rfl⟩, fun m hm => by cases hm⟩
  · rw [hmarks]
    refine ⟨fun id' q' hq' => ⟨q', ?_, rfl, rfl⟩, fun m hm => by cases hm⟩
    rw [Table.get?_insert hnone, if_neg, hq']
    rintro rfl
    rw [hnone] at hq'
    cases hq'
  · obtain ⟨⟨phase, hrequests⟩, hmarks⟩ := hm.labels hl hq
    refine ⟨fun id' q' hq' => ?_, hmarks⟩
    rw [hrequests, Table.get?_set]
    split
    · next heq =>
      rw [heq, hq] at hq'
      cases hq'
      exact ⟨{ q with phase := phase }, by rw [heq, hq]; rfl, rfl, rfl⟩
    · exact ⟨q', hq', rfl, rfl⟩

/-- In every run. -/
theorem labels_of_run {w₀ : Desk β} {as : List (DeskAction β)} (h₀ : w₀.Initial) :
    ∀ m ∈ deskHistory w₀ as, m.Labels ((desk β).run w₀ as) := by
  suffices hinv : ((desk β).run w₀ as).Locked ∧
      ∀ m ∈ (desk β).trace Desk.marks w₀ as, m.Labels ((desk β).run w₀ as) from hinv.2
  refine System.trace_invariant (S := desk β)
    (I := fun w h => Desk.Locked w ∧ ∀ m ∈ h, DeskMark.Labels w m) (fun w h a w' hi hs => ?_)
    ⟨h₀.locked, fun m hm => by cases hm⟩ as
  obtain ⟨hkeep, hmarks⟩ := Desk.step_labels hi.1 hs
  refine ⟨hi.1.step hs, fun m hm => ?_⟩
  rcases List.mem_append.mp hm with hm | hm
  · exact (hi.2 m hm).mono hkeep
  · exact (hmarks m hm).mono hkeep

end Labels

/-! ## Isolation -/

section Isolation

variable {β : Type*}

/-- A request that finds the record of another one is rejected. -/
def Isolated (w : Desk β) (h : List (DeskMark β)) (id id' : RequestId) : Prop :=
  ∀ pre idem hash t t' r write post, h = pre ++ .looked id' idem hash t' (some r) :: post →
    .committed id idem t r write ∈ pre →
    ∃ q, w.requests.get? id' = some q ∧ q.phase = .done (.failed .otherBody)

/-- The record of one request has not expired when the other looks its own up. -/
def LooksBeforeExpiry (h : List (DeskMark β)) (id id' : RequestId) : Prop :=
  ∃ pre idem idem' hash t t' r write found post, h = pre ++ .looked id' idem' hash t' found :: post ∧
    .committed id idem t r write ∈ pre ∧ t' < r.expiresAt

/-- Under one key, different operations are kept apart unless one grants the entitlement that the other
revokes, with the same reason, and the record of the first has not expired. -/
theorem isolated_iff_of_run {w₀ : Desk β} {as : List (DeskAction β)} {sha256 : String → String}
    {subject key : String} {c c' : AdminRequest} {id id' : RequestId} {q q' : Request β} (h₀ : w₀.Initial)
    (hq : ((desk β).run w₀ as).requests.get? id = some q)
    (hq' : ((desk β).run w₀ as).requests.get? id' = some q')
    (hidem : q.idem = c.idem subject key) (hhash : q.hash = c.hash sha256)
    (hidem' : q'.idem = c'.idem subject key) (hhash' : q'.hash = c'.hash sha256)
    (hsha : sha256 (dumps c.body) = sha256 (dumps c'.body) → dumps c.body = dumps c'.body)
    (hne : c.operation ≠ c'.operation) :
    Isolated ((desk β).run w₀ as) (deskHistory w₀ as) id id' ↔
      ¬ (c.Twin c' ∧ LooksBeforeExpiry (deskHistory w₀ as) id id') := by
  have hrun := (recorded_of_run h₀ as).idempotentUpTo
  have hlabels : ∀ m ∈ deskHistory w₀ as, m.Labels ((desk β).run w₀ as) := labels_of_run h₀
  -- the marks are those of the two requests
  have hlooked {pre post idem hash t found}
      (h : deskHistory w₀ as = pre ++ .looked id' idem hash t found :: post) :
      c'.idem subject key = idem ∧ c'.hash sha256 = hash := by
    obtain ⟨q₁, hq₁, rfl, rfl⟩ := hlabels (.looked id' idem hash t found) (by rw [h]; simp)
    rw [hq'] at hq₁
    cases hq₁
    exact ⟨hidem'.symm, hhash'.symm⟩
  have hcommitted {pre post m idem t} {r : IdempotencyRecord} {write} (h : deskHistory w₀ as = pre ++ m :: post)
      (hm : .committed id idem t r write ∈ pre) :
      c.idem subject key = idem ∧ c.hash sha256 = r.requestHash := by
    obtain ⟨q₁, hq₁, rfl, hr⟩ := hlabels (.committed id idem t r write)
      (by rw [h]; exact List.mem_append_left _ hm)
    rw [hq] at hq₁
    cases hq₁
    exact ⟨hidem.symm, hhash.symm.trans hr⟩
  constructor
  · rintro hiso ⟨htwin, pre, idem, idem', hash, t, t', r, write, found, post, h, hm, hlt⟩
    obtain ⟨rfl, hr⟩ := hcommitted h hm
    obtain ⟨rfl, rfl⟩ := hlooked h
    have hkey : c.idem subject key = c'.idem subject key := by
      rw [AdminRequest.idem, htwin.path_eq, AdminRequest.idem]
    rw [hkey] at hm
    have hfound : found = some r := (hrun.looks _ _ _ _ _ _ _ h r).mpr ⟨⟨id, t, write, hm⟩, hlt⟩
    rw [hfound] at h
    obtain ⟨q₁, hq₁, hphase⟩ := hiso _ _ _ _ _ _ _ _ h hm
    obtain ⟨-, q₂, hq₂, hphase'⟩ := hrun.hits id' _ _ t' r
      (by rw [h]; exact List.mem_append_right _ List.mem_cons_self)
    rw [hq₁] at hq₂
    cases hq₂
    rw [if_pos (hr.symm.trans htwin.hash_eq), hphase] at hphase'
    cases hphase'
  · intro hnot pre idem hash t t' r write post h hm
    obtain ⟨rfl, hr⟩ := hcommitted h hm
    obtain ⟨hkey, rfl⟩ := hlooked h
    obtain ⟨-, q₁, hq₁, hphase⟩ := hrun.hits id' _ _ t' r
      (by rw [h]; exact List.mem_append_right _ List.mem_cons_self)
    refine ⟨q₁, hq₁, ?_⟩
    rw [hphase, if_neg]
    intro hsame
    have hlt := ((hrun.looks _ _ _ _ _ _ _ h r).mp rfl).2
    have hbody := (AdminRequest.hash_eq_iff hsha).mp (hr.trans hsame)
    have hpath : c.path = c'.path := congrArg IdempotencyKey.route hkey.symm
    exact hnot ⟨AdminRequest.twin_of_eq hne hpath hbody, _, _, _, _, _, _, _, _, _, _, h, hm, hlt⟩

/-- A user id. -/
def someUser : PathParam := ⟨"5b0c", by decide⟩

def granting : AdminRequest := ⟨.grantEntitlement someUser "expert_author", "on request"⟩

def revoking : AdminRequest := ⟨.revokeEntitlement someUser "expert_author", "on request"⟩

/-- The grant is carried out, and then the other request looks its record up; SHA-256 is left out. -/
def grantThen (c : AdminRequest) : List (DeskAction ℕ) :=
  [.arrive 0 (granting.idem "a" "k") (granting.hash fun s => s) .plain, .lookup 0, .purge 0, .enter 0,
    .work 0 (.ok (Nat.succ, ⟨201, "granted", none⟩)), .store 0 0, .commit 0,
    .arrive 1 (c.idem "a" "k") (c.hash fun s => s) .plain, .lookup 1]

/-- A revocation for another reason is told apart from the grant. -/
theorem isolated_iff_of_run_reason :
    Isolated ((desk ℕ).run .small (grantThen ⟨revoking.call, "by mistake"⟩))
        (deskHistory .small (grantThen ⟨revoking.call, "by mistake"⟩)) 0 1 ↔
      ¬ (granting.Twin ⟨revoking.call, "by mistake"⟩ ∧
        LooksBeforeExpiry (deskHistory .small (grantThen ⟨revoking.call, "by mistake"⟩)) 0 1) :=
  @isolated_iff_of_run ℕ .small _ (fun s => s) _ _ _ _ _ _ _ _ Desk.small_initial rfl rfl rfl rfl rfl rfl (fun h => h)
    (fun h => by cases congrArg Prod.fst h)

/-- The revocation is answered with the response of the grant, and nothing is revoked. -/
theorem not_isolated_of_run_revoke : granting.operation ≠ revoking.operation ∧
    ¬ Isolated ((desk ℕ).run .small (grantThen revoking)) (deskHistory .small (grantThen revoking)) 0 1 ∧
    ((desk ℕ).run .small (grantThen revoking)).business = 1 := by
  refine ⟨fun h => (by cases congrArg Prod.fst h), fun hiso => ?_, rfl⟩
  have hhistory : deskHistory .small (grantThen revoking) =
      [.looked 0 (granting.idem "a" "k") (granting.hash fun s => s) 0 none, .purged 0 0 [],
        .committed 0 (granting.idem "a" "k") 0
          ⟨granting.hash fun s => s, ⟨201, "granted", none⟩, recordTtl⟩ Nat.succ,
        .looked 1 (granting.idem "a" "k") (granting.hash fun s => s) 0
          (some ⟨granting.hash fun s => s, ⟨201, "granted", none⟩, recordTtl⟩)] := rfl
  have hq : ((desk ℕ).run .small (grantThen revoking)).requests.get? 1 =
      some ⟨granting.idem "a" "k", granting.hash fun s => s, .plain,
        .done (.replayed ⟨201, "granted", none⟩)⟩ := rfl
  obtain ⟨q, hq', hphase⟩ := hiso [_, _, _] _ _ _ _ _ _ _ hhistory
    (List.mem_cons_of_mem _ (List.mem_cons_of_mem _ List.mem_cons_self))
  rw [hq] at hq'
  cases hq'
  cases hphase

end Isolation

end AgentCraft.Requests
