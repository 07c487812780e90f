/-
  The broker's settings, tables and errors.

  * `PyFloat`: Python's `float`.
  * `Settings`: the reservation, token and host policies.
  * `TsRange`: `tstzrange(lower, upper, '[)')`; a reversed one cannot be built,
    and one with equal bounds is empty.
  * The rows of `hosts`, `reservations`, `tokens`, `audit_logs`, and of `users`
    as far as the reservation and token services read them.
  * `BrokerError`: every exception a request can end with.
-/
import Mathlib.Data.Rat.Init
import SmartClassroom.Time

namespace SmartClassroom

/-- A value of `float`. -/
inductive PyFloat where
  | num (q : ℚ)
  | inf (negative : Bool)
  | nan
deriving DecidableEq

/-! ## Settings -/

structure Settings where
  reservationSlotMinutes : ℕ := 30
  maxConcurrentReservations : ℕ := 5
  maxReservationHoursPerDay : ℕ := 8
  maxReservationDurationMinutes : ℕ := 240
  reservationLookaheadDays : ℕ := 14
  connectTokenGraceSeconds : ℕ := 60
  agentTokenTtlDays : ℕ := 3650

/-! ## Tables -/

inductive Role where
  | user
  | admin
deriving DecidableEq

structure User where
  id : ℤ
  role : Role
  provider : String
deriving DecidableEq

inductive HostStatus where
  | offline
  | idle
  | inUse
  | degraded
deriving DecidableEq

def HostStatus.name : HostStatus → String
  | .offline => "OFFLINE"
  | .idle => "IDLE"
  | .inUse => "IN_USE"
  | .degraded => "DEGRADED"

structure Host where
  id : ℤ
  hostname : String
  displayName : String
  location : Option String
  ipAddress : Option String
  sunshinePort : ℤ
  status : HostStatus
  lastHeartbeatAt : Option ℤ
deriving DecidableEq

inductive ReservationStatus where
  | confirmed
  | canceled
  | completed
deriving DecidableEq

def ReservationStatus.name : ReservationStatus → String
  | .confirmed => "CONFIRMED"
  | .canceled => "CANCELED"
  | .completed => "COMPLETED"

/-- `ACTIVE_RESERVATION_STATUSES`. -/
def ReservationStatus.active : ReservationStatus → Bool
  | .confirmed | .completed => true
  | .canceled => false

/-- A range of instants `[lower, upper)`. -/
structure TsRange where
  lower : ℤ
  upper : ℤ
  le : lower ≤ upper
deriving DecidableEq

/-- `tstzrange(s, e, '[)')`, an error where `e` is before `s`. -/
def tstzrange (s e : ℤ) : Option TsRange := if h : s ≤ e then some ⟨s, e, h⟩ else none

namespace TsRange

def isEmpty (r : TsRange) : Bool := r.lower == r.upper

/-- The bounds of an empty range are NULL. -/
def lower? (r : TsRange) : Option DateTime := if r.isEmpty then none else some (.utc r.lower)
def upper? (r : TsRange) : Option DateTime := if r.isEmpty then none else some (.utc r.upper)

/-- `r && tstzrange(s, e, '[)')`. -/
def overlaps (r : TsRange) (s e : ℤ) : Bool :=
  r.lower < r.upper && s < e && r.lower < e && s < r.upper

/-- `r @> t`. -/
def covers (r : TsRange) (t : ℤ) : Bool := r.lower ≤ t && t < r.upper

/-- `upper(r) > t`. -/
def endsAfter (r : TsRange) (t : ℤ) : Bool := r.lower < r.upper && t < r.upper

/-- `lower(r) > t`. -/
def startsAfter (r : TsRange) (t : ℤ) : Bool := r.lower < r.upper && t < r.lower

/-- `lower(r) < t`. -/
def startsBefore (r : TsRange) (t : ℤ) : Bool := r.lower < r.upper && r.lower < t

end TsRange

structure Reservation where
  id : ℤ
  userId : ℤ
  hostId : ℤ
  timeRange : TsRange
  status : ReservationStatus
  createdAt : ℤ
  canceledAt : Option ℤ
deriving DecidableEq

inductive TokenPurpose where
  | connect
  | agent
  | session
deriving DecidableEq

structure Token where
  id : ℤ
  jti : String
  userId : ℤ
  hostId : Option ℤ
  reservationId : Option ℤ
  purpose : TokenPurpose
  issuedAt : ℤ
  expiresAt : ℤ
  consumedAt : Option ℤ
  revokedAt : Option ℤ
deriving DecidableEq

/-- `revoked_at IS NULL AND consumed_at IS NULL`. -/
def Token.active (t : Token) : Bool := t.revokedAt.isNone && t.consumedAt.isNone

/-! ## Audit -/

inductive ActorKind where
  | user
  | system
  | agent
deriving DecidableEq

/-- A JSON value of a `detail`; `isoformat d` is the text of `d`. -/
inductive Json where
  | null
  | int (n : ℤ)
  | str (s : String)
  | bool (b : Bool)
  | isoformat (d : DateTime)
deriving DecidableEq

abbrev Detail := List (String × Json)

def Json.ofInt? : Option ℤ → Json
  | none => .null
  | some n => .int n

def Json.ofDateTime? : Option DateTime → Json
  | none => .null
  | some d => .isoformat d

/-- What `write_audit` is called with. -/
structure AuditEntry where
  action : String
  actorUserId : Option ℤ
  actorKind : ActorKind := .user
  targetKind : Option String := none
  targetId : Option ℤ := none
  result : String := "success"
  detail : Detail := []
  authProvider : Option String := none
deriving DecidableEq

structure AuditLog where
  id : ℤ
  occurredAt : ℤ
  entry : AuditEntry
deriving DecidableEq

/-- The database. -/
structure Store where
  users : List User := []
  hosts : List Host := []
  reservations : List Reservation := []
  tokens : List Token := []
  auditLogs : List AuditLog := []
deriving DecidableEq

/-- The next values of the id sequences. -/
structure Seqs where
  reservation : ℤ := 1
  token : ℤ := 1
  auditLog : ℤ := 1
deriving DecidableEq

/-! ## Errors -/

/-- The constraints an insertion can violate. -/
inductive Constraint where
  | reservationsNoOverlap
  | reservationsPkey
  | reservationsUserId
  | reservationsHostId
  | tokensPkey
  | tokensJti
  | tokensUserId
  | tokensHostId
  | tokensReservationId
  | auditLogsActorUserId
deriving DecidableEq

/-- What the database answers to a statement it rejects: a constraint
    violation, or a reversed range. -/
inductive SqlError where
  | integrity (c : Constraint)
  | data
deriving DecidableEq

inductive BrokerError where
  | reservationConflict
  | reservationQuota (message : String) (detail : Detail)
  | invalidReservationWindow (message : String) (detail : Detail)
  | invalidConnectWindow (message : String) (detail : Detail)
  | notOwner
  | reservationNotFound (message : String)
  | hostNotFound (message : String)
  | hostNotAvailable (message : String)
  | http (statusCode : ℕ) (detail : Detail)
  | requestValidation (errors : List String)
  | sql (e : SqlError)
  | runtime (message : String)
  | zeroDivision
  | databaseLost
deriving DecidableEq

/-- The class of an exception. -/
inductive ErrorKind where
  | reservationConflict | reservationQuota | invalidReservationWindow | invalidConnectWindow
  | notOwner | reservationNotFound | hostNotFound | hostNotAvailable | http (statusCode : ℕ)
  | requestValidation | sql | runtime | zeroDivision | databaseLost
deriving DecidableEq

def BrokerError.kind : BrokerError → ErrorKind
  | .reservationConflict => .reservationConflict
  | .reservationQuota .. => .reservationQuota
  | .invalidReservationWindow .. => .invalidReservationWindow
  | .invalidConnectWindow .. => .invalidConnectWindow
  | .notOwner => .notOwner
  | .reservationNotFound _ => .reservationNotFound
  | .hostNotFound _ => .hostNotFound
  | .hostNotAvailable _ => .hostNotAvailable
  | .http statusCode _ => .http statusCode
  | .requestValidation _ => .requestValidation
  | .sql _ => .sql
  | .runtime _ => .runtime
  | .zeroDivision => .zeroDivision
  | .databaseLost => .databaseLost

end SmartClassroom
