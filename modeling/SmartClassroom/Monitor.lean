/-
  `services/host_status.py`, `services/host_status_monitor.py`, `api/v1/agents.py`
  and the registration of `api/v1/hosts.py`: who sets the status of a host.

  * `evaluateHostStatus`: the state machine, a pure function.
  * `transitionAndPublish`: `transition_host` with an event broker.  The event is
    published at once; the UPDATE and the audit entry wait for the next flush.
  * `heartbeatEndpoint`, `runOneTick`, `createHostEndpoint`; with the routes of
    `Endpoints`, they are the jobs of `site`.
-/
import SmartClassroom.Classroom

namespace SmartClassroom

open Txn Prog

/-! ## `host_status.py` -/

structure HostSettings where
  hostOfflineAfterSeconds : ℤ := 90
  hostDegradedCpuPct : ℚ := 90
  hostDegradedMemPct : ℚ := 95

def evaluateHostStatus (policy : HostSettings) (now : DateTime) (lastHeartbeatAt : Option DateTime)
    (hasActiveReservation sunshineRunning : Bool) (cpuPct memPct : Option ℚ) : HostStatus :=
  match lastHeartbeatAt with
  | none => .offline
  | some last =>
    if policy.hostOfflineAfterSeconds * secondUs < now - last then .offline
    else if hasActiveReservation then (if sunshineRunning then .inUse else .degraded)
    else if cpuPct.any fun cpu => decide (policy.hostDegradedCpuPct ≤ cpu) then .degraded
    else if memPct.any fun mem => decide (policy.hostDegradedMemPct ≤ mem) then .degraded
    else .idle

/-- A change of status that is not flushed yet. -/
structure StatusChange where
  hostId : ℤ
  old : HostStatus
  new : HostStatus
  reason : String
deriving DecidableEq

def transitionAndPublish (host : Host) (newStatus : HostStatus) (reason : String) (now : DateTime) :
    Program (Option StatusChange) :=
  if host.status = newStatus then pure none
  else do
    let _ ← perform (.publish {
      hostId := host.id, hostname := host.hostname, old := host.status, new := newStatus, reason, ts := now })
    pure (some ⟨host.id, host.status, newStatus, reason⟩)

def StatusChange.audit (c : StatusChange) : AuditEntry where
  action := "host_status_change"
  actorUserId := none
  actorKind := .system
  targetKind := some "host"
  targetId := some c.hostId
  detail := [("old", .str c.old.name), ("new", .str c.new.name), ("reason", .str c.reason)]

def flushStatuses : List StatusChange → Service Unit
  | [] => pure ()
  | c :: cs => do
    let _ ← execute (.setHostStatus c.hostId c.new)
    flushStatuses cs

def flushAudits : List StatusChange → Service Unit
  | [] => pure ()
  | c :: cs => do
    writeAudit c.audit
    flushAudits cs

/-- The flush of the changes: the UPDATEs, then the audit entries. -/
def flush (changes : List StatusChange) : Service Unit := do
  flushStatuses changes
  flushAudits changes

/-! ## `host_status_monitor.py` -/

/-- The loop over the stale hosts. -/
def transitionStale (current : DateTime) : List Host → Program (List StatusChange)
  | [] => pure []
  | host :: rows => do
    let changed ← transitionAndPublish host .offline "heartbeat_stale" current
    let rest ← transitionStale current rows
    pure (changed.toList ++ rest)

/-- `current - timedelta(seconds=settings.host_offline_after_seconds)`. -/
def HostSettings.cutoff (policy : HostSettings) (current : DateTime) : DateTime :=
  current - policy.hostOfflineAfterSeconds * secondUs

/-- `_run_one_tick`. -/
def runOneTick (policy : HostSettings) : Program ℕ := do
  let current ← service _now
  let rows ← perform (.staleHosts (policy.cutoff current).instant)
  let changes ← transitionStale current rows
  if changes = [] then pure 0
  else do
    service (flush changes)
    service commit
    pure changes.length

/-! ## `agents.py` -/

/-- A character that `str.strip` removes, among those of a header. -/
def isSpace (c : Char) : Bool :=
  c == ' ' || ('\t' ≤ c && c ≤ '\r') || ('\x1c' ≤ c && c ≤ '\x1f') || c == '\u0085' || c == '\u00a0'

/-- `s.strip()`. -/
def strip (s : List Char) : List Char :=
  ((s.dropWhile isSpace).reverse.dropWhile isSpace).reverse

/-- The raw token of the `Authorization` header. -/
def bearerToken (authorization : String) : Except BrokerError String :=
  if (authorization.toList.take 7).map Char.toLower = "bearer ".toList then
    .ok (String.ofList (strip (authorization.toList.drop 7)))
  else .error (.http 401
    [("error", .str "missing_bearer"), ("message", .str "Authorization: Bearer <token> 필요")])

variable (cfg : Settings) (policy : HostSettings) (hashRaw : String → String)

def getAgentHost (authorization : String) : Service Host := do
  let rawToken ← lift (bearerToken authorization)
  match ← verifyAgentToken hashRaw rawToken with
  | none => throw (.http 401
      [("error", .str "invalid_agent_token"), ("message", .str "유효하지 않은 에이전트 토큰")])
  | some token =>
    match ← (match token.hostId with
        | some hostId => execute (.getHost hostId)
        | none => pure none : Service (Option Host)) with
    | none => throw (.http 401
        [("error", .str "host_missing"), ("message", .str "토큰의 호스트가 사라졌습니다")])
    | some host => pure host

structure HeartbeatResponse where
  nextIntervalSec : ℕ := 30
  serverTime : DateTime
deriving DecidableEq

def heartbeatEndpoint (authorization : String) (metrics : Metrics) : Program HeartbeatResponse := do
  let host ← service (getAgentHost hashRaw authorization)
  let now ← service _now
  -- the SELECT of the reservation flushes the row first
  let _ ← perform (.heartbeat host.id now.instant metrics)
  let activeReservation ← service (getActiveReservationForHost host.id now)
  let newStatus := evaluateHostStatus policy now (some now) activeReservation.isSome
    metrics.sunshineRunning (some metrics.cpuPct) (some metrics.memPct)
  let changed ← transitionAndPublish host newStatus "heartbeat" now
  service (flush changed.toList)
  service commit
  pure { serverTime := now }

/-! ## `hosts.py` -/

def createHostEndpoint (admin : User) (payload : NewHost) : Program HostWithAgentToken := do
  lift <| raiseIf (admin.role ≠ .admin) (.http 403 [("detail", .str "관리자 권한 필요")])
  match ← perform (.insertHost payload) with
  | none => Prog.rollback (throw (.http 409
      [("error", .str "hostname_conflict"), ("hostname", .str payload.hostname)]))
  | some host =>
    let issued ← service (issueAgentToken cfg hashRaw host admin)
    service commit
    match ← service (execute (.getHost host.id)) with
    | none => throw (.runtime "Could not refresh instance")
    | some host => pure {
        id := host.id, hostname := host.hostname, displayName := host.displayName
        location := host.location, status := host.status, sunshinePort := host.sunshinePort
        agentToken := issued.1, revokedPrevious := issued.2.2 }

/-! ## All jobs -/

/-- The requests, and the ticks of the monitor. -/
inductive SiteJob where
  | booking (j : Job)
  | createHost (admin : User) (payload : NewHost)
  | heartbeat (authorization : String) (metrics : Metrics)
  | tick

inductive SiteReply where
  | booking (r : Reply)
  | created (r : HostWithAgentToken)
  | heartbeat (r : HeartbeatResponse)
  | ticked (count : ℕ)
deriving DecidableEq

def serveSite : SiteJob → Program SiteReply
  | .booking j => do return .booking (← service (handle cfg hashRaw j))
  | .createHost admin payload => do return .created (← createHostEndpoint cfg hashRaw admin payload)
  | .heartbeat authorization metrics => do
    return .heartbeat (← heartbeatEndpoint policy hashRaw authorization metrics)
  | .tick => do return .ticked (← runOneTick policy)

/-- The broker with its monitor, as a service of the whole database. -/
def site : Txn.Service classroom SiteJob BrokerError SiteReply := ⟨serveSite cfg policy hashRaw, .databaseLost⟩

abbrev SiteReq := Req classroom SiteJob BrokerError SiteReply

abbrev SiteSystem := Sys classroom SiteJob BrokerError SiteReply

end SmartClassroom
