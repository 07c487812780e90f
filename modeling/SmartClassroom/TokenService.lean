/-
  `services/token_service.py` and `services/agent_token_service.py`: connect
  tokens of reservations and agent tokens of hosts.

  The database keeps `_hash_raw(raw)` only; the hash is a parameter.
-/
import SmartClassroom.Reservation

namespace SmartClassroom

open Txn Prog

variable (cfg : Settings) (hashRaw : String → String)

/-- `secrets.token_urlsafe(32)`. -/
def tokenUrlsafe : Service String := .draw pure

/-! ## Connect tokens -/

def revokeActiveTokensForReservation (reservationId : ℤ) : Service ℕ := do
  let now ← _now
  execute (.revokeConnectTokens reservationId now.instant)

/-- What `issue_connect_token` checks of the reservation before it reads the
    clock: access, and its status; then its bounds. -/
def connectGate (user : User) (reservation : Reservation) : Except BrokerError (DateTime × DateTime) := do
  assertCanAccess reservation user
  raiseIf (reservation.status ≠ .confirmed)
    (.invalidConnectWindow "예약이 활성 상태가 아닙니다"
      [("reason", .str "reservation_not_active"), ("status", .str reservation.status.name)])
  reservationBounds reservation

/-- The window `starts_at - grace ≤ now < ends_at`. -/
def connectWindow (startsAt endsAt now : DateTime) : Except BrokerError Unit := do
  let grace := cfg.connectTokenGraceSeconds
  raiseIf (now < startsAt - (grace : ℤ) * secondUs)
    (.invalidConnectWindow s!"예약 시작 {grace}초 전부터 토큰을 발급할 수 있습니다"
      [("reason", .str "too_early"), ("starts_at", .isoformat startsAt), ("now", .isoformat now),
        ("grace_seconds", .int grace)])
  raiseIf (endsAt ≤ now)
    (.invalidConnectWindow "예약 시간 윈도우가 종료되었습니다"
      [("reason", .str "expired_window"), ("ends_at", .isoformat endsAt), ("now", .isoformat now)])

def issueConnectToken (user : User) (reservation : Reservation) : Service (String × Token × ℕ) := do
  let bounds ← lift (connectGate user reservation)
  let now ← _now
  lift (connectWindow cfg bounds.1 bounds.2 now)
  let revokedCount ← revokeActiveTokensForReservation reservation.id
  let rawToken ← tokenUrlsafe
  let res ← execute (.insertToken {
    jti := hashRaw rawToken
    userId := user.id
    hostId := some reservation.hostId
    reservationId := some reservation.id
    purpose := .connect
    issuedAt := now.instant
    expiresAt := bounds.2.instant })
  let token ← orRaise res
  pure (rawToken, token, revokedCount)

def verifyConnectToken (rawToken : String) : Service (Option Token) :=
  if rawToken = "" then pure none
  else do
    let now ← _now
    execute (.tokenByJti .connect (hashRaw rawToken) now.instant)

def markConsumed (token : Token) : Service Bool := do
  let now ← _now
  let rowcount ← execute (.consumeToken token.id now.instant)
  pure (rowcount == 1)

/-! ## Agent tokens -/

def revokeActiveAgentTokens (hostId : ℤ) : Service ℕ := do
  let now ← _now
  execute (.revokeAgentTokens hostId now.instant)

def issueAgentToken (host : Host) (issuedBy : User) : Service (String × Token × ℕ) := do
  let revokedCount ← revokeActiveAgentTokens host.id
  let now ← _now
  let rawToken ← tokenUrlsafe
  let res ← execute (.insertToken {
    jti := hashRaw rawToken
    userId := issuedBy.id
    hostId := some host.id
    reservationId := none
    purpose := .agent
    issuedAt := now.instant
    expiresAt := (now + (cfg.agentTokenTtlDays : ℤ) * dayUs).instant })
  let token ← orRaise res
  pure (rawToken, token, revokedCount)

def verifyAgentToken (rawToken : String) : Service (Option Token) :=
  if rawToken = "" then pure none
  else do
    let now ← _now
    execute (.tokenByJti .agent (hashRaw rawToken) now.instant)

end SmartClassroom
