/-
  The routes of `api/v1` that the reservation, token and host services stand
  behind: `reservations.py`, `tokens.py`, `hosts.py`.

  A route validates its payload, calls the services, maps their exceptions,
  and commits; what it leaves uncommitted is rolled back.  `handle` serves a
  `Job`, one case for each route.
-/
import SmartClassroom.TokenService
import SmartClassroom.Lib.Interleave

namespace SmartClassroom

open Txn Prog

variable (cfg : Settings) (hashRaw : String → String)

/-- `await db.commit()`. -/
def commit : Service Unit := .commit (pure ())

/-! ## Payloads and answers -/

/-- Aware, and on the 30-minute grid. -/
def onGrid (d : DateTime) : Prop :=
  d.tzinfo ≠ none ∧ (d.minute = 0 ∨ d.minute = 30) ∧ d.second = 0 ∧ d.microsecond = 0

instance (d : DateTime) : Decidable (onGrid d) := by unfold onGrid; infer_instance

/-- `_ensure_grid`. -/
def ensureGrid (value : DateTime) (fieldName : String) : List String :=
  if value.tzinfo = none then [s!"{fieldName}는 timezone 정보가 필요합니다"]
  else if onGrid value then []
  else [s!"{fieldName}는 30분 그리드(:00 또는 :30)에 정렬되어야 합니다"]

/-- A validated body of `POST /reservations`. -/
structure ReservationCreate where
  hostId : ℤ
  startsAt : DateTime
  endsAt : DateTime
  hostId_pos : 0 < hostId
  startsAt_grid : onGrid startsAt
  endsAt_grid : onGrid endsAt
  order : startsAt < endsAt

/-- The validators: of each field first, then `_validate_order`. -/
def ReservationCreate.validate (hostId : ℤ) (startsAt endsAt : DateTime) :
    Except BrokerError ReservationCreate :=
  if h : 0 < hostId ∧ onGrid startsAt ∧ onGrid endsAt then
    if order : startsAt < endsAt then .ok ⟨hostId, startsAt, endsAt, h.1, h.2.1, h.2.2, order⟩
    else .error (.requestValidation ["starts_at은 ends_at보다 이전이어야 합니다"])
  else .error (.requestValidation
    ((if 0 < hostId then [] else ["Input should be greater than 0"]) ++
      ensureGrid startsAt "starts_at" ++ ensureGrid endsAt "ends_at"))

structure ReservationRead where
  id : ℤ
  userId : ℤ
  hostId : ℤ
  startsAt : DateTime
  endsAt : DateTime
  status : ReservationStatus
  createdAt : ℤ
  canceledAt : Option ℤ
deriving DecidableEq

structure HostConnectionInfo where
  id : ℤ
  hostname : String
  ipAddress : Option String
  sunshinePort : ℤ
deriving DecidableEq

structure ConnectTokenResponse where
  token : String
  expiresAt : DateTime
  reservationId : ℤ
  host : HostConnectionInfo
deriving DecidableEq

structure TokenVerifyResponse where
  valid : Bool
  reason : Option String := none
  userId : Option ℤ := none
  hostId : Option ℤ := none
  reservationId : Option ℤ := none
  expiresAt : Option ℤ := none
deriving DecidableEq

structure HostAvailable where
  id : ℤ
  hostname : String
  displayName : String
  location : Option String
  lastHeartbeatAt : Option ℤ
  ipAddress : Option String
  availableUntil : Option DateTime
deriving DecidableEq

structure HostWithAgentToken where
  id : ℤ
  hostname : String
  displayName : String
  location : Option String
  status : HostStatus
  sunshinePort : ℤ
  agentToken : String
  revokedPrevious : ℕ
deriving DecidableEq

inductive Reply where
  | reservation (r : ReservationRead)
  | reservations (rs : List ReservationRead)
  | calendar (m : CalendarMatrix)
  | noContent
  | connectToken (r : ConnectTokenResponse)
  | verified (r : TokenVerifyResponse)
  | available (hosts : List HostAvailable)
  | agentToken (r : HostWithAgentToken)
deriving DecidableEq

/-! ## `reservations.py` -/

def toRead (reservation : Reservation) : Except BrokerError ReservationRead := do
  let bounds ← reservationBounds reservation
  pure {
    id := reservation.id, userId := reservation.userId, hostId := reservation.hostId
    startsAt := bounds.1, endsAt := bounds.2, status := reservation.status
    createdAt := reservation.createdAt, canceledAt := reservation.canceledAt }

/-- `except HostNotFoundError` of both bookings. -/
def hostNotFoundAsWindow (hostId : ℤ) : BrokerError → Service Reservation
  | .hostNotFound _ =>
    throw (.invalidReservationWindow "지정한 host_id에 해당하는 호스트가 없습니다"
      [("host_id", .int hostId)])
  | e => throw e

/-- `except (ReservationNotFoundError, NotOwnerError)`. -/
def notFoundAs404 : BrokerError → Service Reservation
  | .reservationNotFound _ | .notOwner =>
    throw (.http 404 [("detail", .str "예약을 찾을 수 없습니다")])
  | e => throw e

def createReservationEndpoint (user : User) (hostId : ℤ) (startsAt endsAt : DateTime) :
    Service Reply := do
  let payload ← lift (ReservationCreate.validate hostId startsAt endsAt)
  let reservation ← tryCatch
    (createReservation cfg user payload.hostId payload.startsAt payload.endsAt)
    (hostNotFoundAsWindow payload.hostId)
  commit
  let read ← lift (toRead reservation)
  pure (.reservation read)

/-- `HostConnectionInfo.model_validate(host)`. -/
def HostConnectionInfo.ofHost (host : Host) : HostConnectionInfo :=
  ⟨host.id, host.hostname, host.ipAddress, host.sunshinePort⟩

/-- The audit row of the tokens that a new one has revoked. -/
def auditRevoked (user : User) (reservation : Reservation) (revokedCount : ℕ) : Service Unit :=
  if 0 < revokedCount then
    writeAudit {
      action := "token_revoke_previous"
      actorUserId := some user.id
      actorKind := .system
      targetKind := some "reservation"
      targetId := some reservation.id
      authProvider := some user.provider
      detail := [("revoked_count", .int revokedCount)] }
  else pure ()

def issueConnectTokenResponse (user : User) (reservation : Reservation) (client : Option String) :
    Service ConnectTokenResponse := do
  match ← execute (.getHost reservation.hostId) with
  | none => throw (.runtime
      s!"Reservation(id={reservation.id}).host_id={reservation.hostId} 호스트가 없습니다")
  | some host =>
    let issued ← issueConnectToken cfg hashRaw user reservation
    let token := issued.2.1
    auditRevoked user reservation issued.2.2
    writeAudit {
      action := "token_issue"
      actorUserId := some user.id
      targetKind := some "token"
      targetId := some token.id
      authProvider := some user.provider
      detail := [("reservation_id", .int reservation.id), ("host_id", .int reservation.hostId),
        ("expires_at", .isoformat (.utc token.expiresAt))] ++
        (match client with
          | some client => [("client", .str client)]
          | none => []) }
    pure {
      token := issued.1, expiresAt := .utc token.expiresAt, reservationId := reservation.id
      host := .ofHost host }

/-- `transition_host` without an event broker. -/
def transitionHost (host : Host) (newStatus : HostStatus) (reason : String) : Service Bool :=
  if host.status = newStatus then pure false
  else do
    let _ ← execute (.setHostStatus host.id newStatus)
    writeAudit {
      action := "host_status_change"
      actorUserId := none
      actorKind := .system
      targetKind := some "host"
      targetId := some host.id
      detail := [("old", .str host.status.name), ("new", .str newStatus.name),
        ("reason", .str reason)] }
    pure true

/-- `except HostNotFoundError` and `except HostNotAvailableError`. -/
def instantErrors (hostId : ℤ) : BrokerError → Service Reservation
  | .hostNotAvailable _ =>
    throw (.http 409 [("error", .str "host_not_available"),
      ("message", .str "이 PC는 지금 즉시 사용할 수 없어요"), ("host_id", .int hostId)])
  | e => hostNotFoundAsWindow hostId e

/-- The host of an instant reservation is in use at once. -/
def markInUse (reservation : Reservation) : Service Unit := do
  match ← execute (.getHost reservation.hostId) with
  | none => pure ()
  | some host =>
    let _ ← _now
    let _ ← transitionHost host .inUse "instant_use"
    pure ()

def instantReservationEndpoint (user : User) (hostId : ℤ) : Service Reply := do
  lift <| raiseIf (hostId ≤ 0) (.requestValidation ["Input should be greater than 0"])
  let reservation ← tryCatch (createInstantReservation cfg user hostId) (instantErrors hostId)
  let response ← issueConnectTokenResponse cfg hashRaw user reservation (some "instant_use")
  markInUse reservation
  commit
  pure (.connectToken response)

def listReservationsEndpoint (viewer : User) (from_ to_ : Option DateTime)
    (hostId userId : Option ℤ) : Service Reply := do
  let items ← listReservations viewer from_ to_ hostId userId
  let reads ← lift (items.mapM toRead)
  pure (.reservations reads)

def calendarEndpoint (viewer : User) (from_ to_ : DateTime) (hostId : Option ℤ) : Service Reply := do
  let matrix ← buildCalendarMatrix cfg from_ to_ hostId viewer
  pure (.calendar matrix)

def getReservationEndpoint (user : User) (reservationId : ℤ) : Service Reply := do
  let reservation ← tryCatch (getReservation user reservationId) notFoundAs404
  let read ← lift (toRead reservation)
  pure (.reservation read)

/-- After a cancellation, a host in use without an active reservation is idle. -/
def releaseHost (reservation : Reservation) : Service Unit := do
  match ← execute (.getHost reservation.hostId) with
  | none => pure ()
  | some host =>
    if host.status = .inUse then do
      let now ← _now
      match ← getActiveReservationForHost host.id now with
      | some _ => pure ()
      | none =>
        let _ ← transitionHost host .idle "reservation_canceled"
        pure ()
    else pure ()

def cancelReservationEndpoint (user : User) (reservationId : ℤ) : Service Reply := do
  let reservation ← tryCatch (cancelReservation user reservationId) notFoundAs404
  releaseHost reservation
  commit
  pure .noContent

def connectTokenEndpoint (user : User) (reservationId : ℤ) (client : Option String) :
    Service Reply := do
  lift <| raiseIf (32 < (client.getD "").length)
    (.requestValidation ["String should have at most 32 characters"])
  let reservation ← tryCatch (getReservation user reservationId) notFoundAs404
  let response ← issueConnectTokenResponse cfg hashRaw user reservation client
  commit
  pure (.connectToken response)

/-! ## `tokens.py` -/

/-- The audit row of a verification, and the answer after its commit. -/
def answerVerify (action : String) (targetId : Option ℤ) (detail : Detail)
    (response : TokenVerifyResponse) : Service Reply := do
  writeAudit {
    action, actorUserId := none, actorKind := .system
    targetKind := some "token", targetId, detail }
  commit
  pure (.verified response)

/-- The answer to a valid token, and what is recorded of it. -/
def answerValid (action : String) (token : Token) : Service Reply :=
  answerVerify action (some token.id)
    [("reservation_id", .ofInt? token.reservationId), ("user_id", .int token.userId)]
    { valid := true, userId := some token.userId, hostId := token.hostId
      reservationId := token.reservationId, expiresAt := some token.expiresAt }

/-- The answer to a rejected token, and what is recorded of it. -/
def answerInvalid (reason : String) (targetId : Option ℤ) : Service Reply :=
  answerVerify "token_verify_failure" targetId [("reason", .str reason)]
    { valid := false, reason := some reason }

def verifyTokenEndpoint (rawToken : String) (consume : Bool) : Service Reply := do
  lift <| raiseIf (rawToken.length < 16)
    (.requestValidation ["String should have at least 16 characters"])
  match ← verifyConnectToken hashRaw rawToken with
  | none => answerInvalid "invalid_or_expired" none
  | some token =>
    if consume then do
      let consumed ← markConsumed token
      if consumed then answerValid "token_consume" token
      else answerInvalid "already_consumed" (some token.id)
    else answerValid "token_verify" token

/-! ## `hosts.py` -/

/-- `_ensure_grid_aligned`. -/
def ensureGridAligned (dt : DateTime) : Except BrokerError Unit := do
  raiseIf (dt.tzinfo = none)
    (.invalidReservationWindow "from_/to_는 timezone-aware여야 합니다" [])
  raiseIf (¬(dt.minute % 30 = 0 ∧ dt.second = 0 ∧ dt.microsecond = 0))
    (.invalidReservationWindow "from_/to_는 30분 그리드에 정렬되어야 합니다"
      [("slot_minutes", .int 30)])

def HostAvailable.ofHost (host : Host) (availableUntil : Option DateTime) : HostAvailable where
  id := host.id
  hostname := host.hostname
  displayName := host.displayName
  location := host.location
  lastHeartbeatAt := host.lastHeartbeatAt
  ipAddress := host.ipAddress
  availableUntil := availableUntil

def listAvailableHostsEndpoint (from_ to_ : Option DateTime) : Service Reply :=
  match from_, to_ with
  | some from_, some to_ => do
    lift (ensureGridAligned from_)
    lift (ensureGridAligned to_)
    lift <| raiseIf (to_ ≤ from_)
      (.invalidReservationWindow "from_은 to보다 이전이어야 합니다" [])
    let hosts ← execute (.idleHosts from_.instant to_.instant)
    pure (.available (hosts.map (HostAvailable.ofHost · none)))
  | none, none => do
    let rows ← listInstantAvailableHosts
    pure (.available (rows.map fun row => .ofHost row.1 (some row.2)))
  | _, _ => throw (.invalidReservationWindow "from_과 to는 함께 지정해야 합니다"
      [("from", .ofDateTime? from_), ("to", .ofDateTime? to_)])

def rotateAgentTokenEndpoint (admin : User) (hostId : ℤ) : Service Reply := do
  lift <| raiseIf (admin.role ≠ .admin) (.http 403 [("detail", .str "관리자 권한 필요")])
  match ← execute (.getHost hostId) with
  | none => throw (.http 404 [("error", .str "host_not_found"), ("host_id", .int hostId)])
  | some host =>
    let issued ← issueAgentToken cfg hashRaw host admin
    commit
    pure (.agentToken {
      id := host.id, hostname := host.hostname, displayName := host.displayName
      location := host.location, status := host.status, sunshinePort := host.sunshinePort
      agentToken := issued.1, revokedPrevious := issued.2.2 })

/-! ## Requests -/

/-- The requests, with the user of the session. -/
inductive Job where
  | create (user : User) (hostId : ℤ) (startsAt endsAt : DateTime)
  | instant (user : User) (hostId : ℤ)
  | list (viewer : User) (from_ to_ : Option DateTime) (hostId userId : Option ℤ)
  | calendar (viewer : User) (from_ to_ : DateTime) (hostId : Option ℤ)
  | get (user : User) (reservationId : ℤ)
  | cancel (user : User) (reservationId : ℤ)
  | connect (user : User) (reservationId : ℤ) (client : Option String)
  | verify (rawToken : String) (consume : Bool)
  | available (from_ to_ : Option DateTime)
  | rotateAgentToken (admin : User) (hostId : ℤ)
deriving DecidableEq

def handle : Job → Service Reply
  | .create user hostId startsAt endsAt => createReservationEndpoint cfg user hostId startsAt endsAt
  | .instant user hostId => instantReservationEndpoint cfg hashRaw user hostId
  | .list viewer from_ to_ hostId userId => listReservationsEndpoint viewer from_ to_ hostId userId
  | .calendar viewer from_ to_ hostId => calendarEndpoint cfg viewer from_ to_ hostId
  | .get user reservationId => getReservationEndpoint user reservationId
  | .cancel user reservationId => cancelReservationEndpoint user reservationId
  | .connect user reservationId client => connectTokenEndpoint cfg hashRaw user reservationId client
  | .verify rawToken consume => verifyTokenEndpoint hashRaw rawToken consume
  | .available from_ to_ => listAvailableHostsEndpoint from_ to_
  | .rotateAgentToken admin hostId => rotateAgentTokenEndpoint cfg hashRaw admin hostId

/-- The broker as a service of its database. -/
def app : Txn.Service broker Job BrokerError Reply := ⟨handle cfg hashRaw, .databaseLost⟩

abbrev System := Sys broker Job BrokerError Reply

end SmartClassroom
