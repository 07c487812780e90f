/-
  `services/reservation.py`: bookings, the quota, and the calendar.

  Each function is a program over the database; it raises the exceptions of
  the source and leaves commits to its caller.  The session's identity map is
  weak: an object that nobody refers to any more is loaded again, so each
  `db.get` of a host is a SELECT.
-/
import SmartClassroom.Database

namespace SmartClassroom

open Txn Prog

/-- `if c: raise e`. -/
def raiseIf (c : Prop) [Decidable c] (e : BrokerError) : Except BrokerError Unit :=
  if c then .error e else .ok ()

/-- A statement the database may reject. -/
def orRaise {α : Type} : Except SqlError α → Service α
  | .ok a => pure a
  | .error e => throw (.sql e)

/-- `datetime.now(UTC)`. -/
def _now : Service DateTime := do return .utc (← clock)

/-- `write_audit`. -/
def writeAudit (e : AuditEntry) : Service Unit := do
  let res ← execute (.insertAudit e)
  orRaise res

/-! ## Validation -/

/-- `T17` use starts now and lasts this long, up to the end of its slot. -/
abbrev INSTANT_USE_DURATION : ℤ := 9000000000

def isGridAligned (dt : DateTime) (slotMinutes : ℕ) : Except BrokerError Bool :=
  if dt.tzinfo = none then .ok false
  else if slotMinutes = 30 then
    .ok ((dt.minute = 0 ∨ dt.minute = 30) ∧ dt.second = 0 ∧ dt.microsecond = 0)
  else if slotMinutes = 0 then .error .zeroDivision
  else .ok (dt.minute % slotMinutes = 0 ∧ dt.second = 0 ∧ dt.microsecond = 0)

/-- `_validate_window` up to its reading of the clock. -/
def validateShape (cfg : Settings) (startsAt endsAt : DateTime) : Except BrokerError Unit := do
  let slot := cfg.reservationSlotMinutes
  raiseIf (startsAt.tzinfo = none ∨ endsAt.tzinfo = none)
    (.invalidReservationWindow "datetime은 timezone-aware여야 합니다" [])
  let aligned ← isGridAligned startsAt slot
  raiseIf (aligned = false)
    (.invalidReservationWindow s!"starts_at은 {slot}분 그리드에 정렬되어야 합니다"
      [("field", .str "starts_at"), ("slot_minutes", .int slot)])
  let aligned ← isGridAligned endsAt slot
  raiseIf (aligned = false)
    (.invalidReservationWindow s!"ends_at은 {slot}분 그리드에 정렬되어야 합니다"
      [("field", .str "ends_at"), ("slot_minutes", .int slot)])
  raiseIf (endsAt ≤ startsAt)
    (.invalidReservationWindow "starts_at은 ends_at보다 이전이어야 합니다"
      [("starts_at", .isoformat startsAt), ("ends_at", .isoformat endsAt)])
  let maximum := cfg.maxReservationDurationMinutes
  raiseIf ((maximum : ℤ) * minuteUs < endsAt - startsAt)
    (.invalidReservationWindow s!"예약 길이는 최대 {maximum}분입니다"
      [("duration_minutes", .int (wholeMinutes (endsAt - startsAt))), ("max_minutes", .int maximum)])

/-- `_validate_window` from its reading of the clock on. -/
def validateStart (cfg : Settings) (startsAt now : DateTime) : Except BrokerError Unit := do
  raiseIf (startsAt < now)
    (.invalidReservationWindow "과거 시각으로는 예약할 수 없습니다"
      [("starts_at", .isoformat startsAt), ("now", .isoformat now)])
  let days := cfg.reservationLookaheadDays
  raiseIf (now + (days : ℤ) * dayUs < startsAt)
    (.invalidReservationWindow s!"예약은 최대 {days}일 이후까지 가능합니다"
      [("starts_at", .isoformat startsAt), ("lookahead_days", .int days)])

def validateWindow (cfg : Settings) (startsAt endsAt : DateTime) : Service Unit := do
  lift (validateShape cfg startsAt endsAt)
  let now ← _now
  lift (validateStart cfg startsAt now)

def validateHostExists (hostId : ℤ) : Service Host := do
  match ← execute (.getHost hostId) with
  | none => throw (.hostNotFound s!"host_id={hostId} 가 존재하지 않습니다")
  | some host => pure host

/-- One turn of the loop over the rows of the day. -/
def addClipped (tz : Option ℤ) (dayStart dayEnd : DateTime) (used : ℤ) (raw : TsRange) : ℤ :=
  match raw.lower?, raw.upper? with
  | some lower, some upper =>
    let clippedLower := (lower.orTz tz).max dayStart
    let clippedUpper := (upper.orTz tz).min dayEnd
    if clippedLower < clippedUpper then used + wholeMinutes (clippedUpper - clippedLower) else used
  | _, _ => used

def usedMinutes (tz : Option ℤ) (dayStart dayEnd : DateTime) (rows : List TsRange) : ℤ :=
  rows.foldl (addClipped tz dayStart dayEnd) 0

/-- The day of `startsAt`, in its own offset. -/
def dayStartOf (startsAt : DateTime) : DateTime := startsAt.replace 0 0 0 0

def validateQuota (cfg : Settings) (user : User) (startsAt endsAt : DateTime) : Service Unit := do
  let now ← _now
  let count ← execute (.countConcurrent user.id now.instant)
  let maximum := cfg.maxConcurrentReservations
  lift <| raiseIf (maximum ≤ count)
    (.reservationQuota s!"동시 활성 예약은 최대 {maximum}건입니다"
      [("limit", .str "concurrent"), ("current", .int count), ("max", .int maximum)])
  let dayStart := dayStartOf startsAt
  let dayEnd := dayStart + dayUs
  let newDuration := wholeMinutes (endsAt - startsAt)
  let rows ← execute (.dailyRanges user.id dayStart.instant dayEnd.instant)
  let used := usedMinutes startsAt.tzinfo dayStart dayEnd rows
  let hours := cfg.maxReservationHoursPerDay
  lift <| raiseIf ((hours * 60 : ℤ) < used + newDuration)
    (.reservationQuota s!"하루 최대 {hours}시간까지 예약할 수 있습니다"
      [("limit", .str "daily_minutes"), ("used_minutes", .int used),
        ("requested_minutes", .int newDuration), ("max_minutes", .int (hours * 60))])

def assertCanAccess (reservation : Reservation) (user : User) : Except BrokerError Unit :=
  if user.role = .admin then .ok ()
  else if reservation.userId = user.id then .ok ()
  else .error .notOwner

/-- `reservation_bounds`. -/
def reservationBounds (reservation : Reservation) : Except BrokerError (DateTime × DateTime) :=
  match reservation.timeRange.lower?, reservation.timeRange.upper? with
  | some lower, some upper => .ok (lower.orTz (some 0), upper.orTz (some 0))
  | _, _ => .error (.runtime s!"Reservation(id={reservation.id}).time_range 파싱 실패")

/-! ## Booking -/

/-- The INSERT of both kinds of booking, with its `except IntegrityError`. -/
def insertConfirmed (user : User) (hostId : ℤ) (startsAt endsAt : DateTime) : Service ℤ := do
  match ← execute (.insertReservation user.id hostId startsAt.instant endsAt.instant) with
  | .ok newId => pure newId
  | .error .data => throw (.sql .data)
  | .error (.integrity c) =>
    Prog.rollback (if c = .reservationsNoOverlap then throw .reservationConflict
      else throw (.sql (.integrity c)))

/-- What both kinds of booking do after their checks. -/
def book (user : User) (hostId : ℤ) (startsAt endsAt : DateTime) (instant : Bool) :
    Service Reservation := do
  let newId ← insertConfirmed user hostId startsAt endsAt
  match ← execute (.getReservation newId) with
  | none => throw (.runtime s!"INSERT RETURNING 직후 Reservation(id={newId}) 조회 실패")
  | some reservation =>
    writeAudit {
      action := "reservation_create"
      actorUserId := some user.id
      targetKind := some "reservation"
      targetId := some reservation.id
      authProvider := some user.provider
      detail := [("host_id", .int hostId), ("starts_at", .isoformat startsAt),
        ("ends_at", .isoformat endsAt)] ++ (if instant then [("instant", .bool true)] else []) }
    pure reservation

def createReservation (cfg : Settings) (user : User) (hostId : ℤ) (startsAt endsAt : DateTime) :
    Service Reservation := do
  validateWindow cfg startsAt endsAt
  let _ ← validateHostExists hostId
  validateQuota cfg user startsAt endsAt
  book user hostId startsAt endsAt false

def instantWindow (now : DateTime) (nextReservationAt : Option DateTime) : DateTime × DateTime :=
  let startsAt := now.replace now.hour now.minute now.second 0
  let target := now + INSTANT_USE_DURATION
  let floored := target.replace target.hour (target.minute / 30 * 30) 0 0
  let endsAt := floored + 30 * minuteUs
  match nextReservationAt with
  | some next => (startsAt, if next < endsAt then next else endsAt)
  | none => (startsAt, endsAt)

def nextReservationStart (hostId : ℤ) (after : DateTime) : Service (Option DateTime) := do
  let raw ← execute (.nextStart hostId after.instant)
  pure (raw.map fun value => (DateTime.utc value).orTz (some 0))

def createInstantReservation (cfg : Settings) (user : User) (hostId : ℤ) : Service Reservation := do
  let now ← _now
  let host ← validateHostExists hostId
  lift <| raiseIf (host.status ≠ .idle)
    (.hostNotAvailable s!"host_id={hostId} 는 IDLE 상태가 아닙니다 (status={host.status.name})")
  let nextStart ← nextReservationStart hostId now
  let window := instantWindow now nextStart
  validateQuota cfg user window.1 window.2
  book user hostId window.1 window.2 true

/-- The hosts of the rows, each with the end of its window. -/
def withAvailableUntil (now : DateTime) : List (ℤ × Option ℤ) → Service (List (Host × DateTime))
  | [] => pure []
  | (hostId, nextStart) :: rows => do
    let host ← execute (.getHost hostId)
    let rest ← withAvailableUntil now rows
    match host with
    | none => pure rest
    | some host =>
      let nextAt := nextStart.map fun value => (DateTime.utc value).orTz (some 0)
      pure ((host, (instantWindow now nextAt).2) :: rest)

def listInstantAvailableHosts : Service (List (Host × DateTime)) := do
  let now ← _now
  let rows ← execute (.instantHosts now.instant)
  withAvailableUntil now rows

/-! ## Cancelling and reading -/

def getReservation (user : User) (reservationId : ℤ) : Service Reservation := do
  match ← execute (.getReservation reservationId) with
  | none => throw (.reservationNotFound s!"reservation_id={reservationId} 없음")
  | some reservation =>
    lift (assertCanAccess reservation user)
    pure reservation

/-- `db.refresh(reservation)`. -/
def refresh (reservation : Reservation) : Service Reservation := do
  match ← execute (.getReservation reservation.id) with
  | none => throw (.runtime "Could not refresh instance")
  | some row => pure row

def cancelReservation (user : User) (reservationId : ℤ) : Service Reservation := do
  let reservation ← getReservation user reservationId
  if reservation.status = .canceled then pure reservation
  else do
    let now ← _now
    let _ ← execute (.cancelReservation reservation.id now.instant)
    let reservation ← refresh reservation
    writeAudit {
      action := "reservation_cancel"
      actorUserId := some user.id
      targetKind := some "reservation"
      targetId := some reservation.id
      authProvider := some user.provider
      detail := [("by", .str (if user.role = .admin then "admin" else "owner"))] }
    pure reservation

def listReservations (viewer : User) (from_ to_ : Option DateTime) (hostId userIdFilter : Option ℤ) :
    Service (List Reservation) :=
  execute (.reservations {
    userId := if viewer.role = .admin then userIdFilter else some viewer.id
    hostId := hostId
    from_ := from_.map (·.instant)
    to_ := to_.map (·.instant) })

def getActiveReservationForHost (hostId : ℤ) (atTime : DateTime) : Service (Option Reservation) :=
  execute (.activeReservation hostId atTime.instant)

/-! ## Calendar -/

inductive SlotStatus where
  | open_
  | occupied
deriving DecidableEq

structure CalendarSlot where
  startsAt : DateTime
  endsAt : DateTime
  hostId : ℤ
  reservationId : Option ℤ
  userId : Option ℤ
  status : SlotStatus
deriving DecidableEq

structure CalendarMatrix where
  from_ : DateTime
  to_ : DateTime
  slotMinutes : ℕ
  slots : List CalendarSlot
deriving DecidableEq

/-- The values of `cursor` in `while cursor < stop: … cursor += delta`, at most
    `fuel` of them. -/
def cursors (delta : ℤ) (stop : DateTime) : ℕ → DateTime → List DateTime
  | 0, _ => []
  | fuel + 1, cursor =>
    if cursor < stop then cursor :: cursors delta stop fuel (cursor + delta) else []

/-- As many turns as the loop can take. -/
def turns (delta : ℤ) (start stop : DateTime) : ℕ := ((stop - start) / delta).toNat + 1

/-- The loop from `start` on. -/
def cursorsFrom (delta : ℤ) (start stop : DateTime) : List DateTime :=
  cursors delta stop (turns delta start stop) start

/-- The cells that a reservation fills: the values of its `cursor`. -/
def cellsOf (from_ to_ : DateTime) (delta : ℤ) (res : Reservation) : List DateTime :=
  match res.timeRange.lower?, res.timeRange.upper? with
  | some lower, some upper =>
    let lower := lower.orTz (some 0)
    let upper := upper.orTz (some 0)
    let cursor := lower.max from_
    let offset := (cursor - from_) % delta
    let cursor := if offset ≠ 0 then cursor - offset else cursor
    cursorsFrom delta cursor (upper.min to_)
  | _, _ => []

/-- `occupied[(host_id, cursor)] = res`; the newest entry of a key comes first.
    Datetimes are equal as keys if they are the same instant. -/
abbrev Occupied := List ((ℤ × ℤ) × Reservation)

def occupy (from_ to_ : DateTime) (delta : ℤ) (occupied : Occupied) (res : Reservation) : Occupied :=
  (cellsOf from_ to_ delta res).foldl
    (fun occ cursor => ((res.hostId, cursor.instant), res) :: occ) occupied

def calendarCell (viewer : User) (delta : ℤ) (occupied : Occupied) (hid : ℤ) (cursor : DateTime) :
    CalendarSlot :=
  match occupied.lookup (hid, cursor.instant) with
  | none =>
    { startsAt := cursor, endsAt := cursor + delta, hostId := hid, reservationId := none,
      userId := none, status := .open_ }
  | some cell =>
    { startsAt := cursor, endsAt := cursor + delta, hostId := hid, reservationId := some cell.id,
      userId := if viewer.role = .admin ∨ cell.userId = viewer.id then some cell.userId else none,
      status := .occupied }

/-- The checks of `build_calendar_matrix`. -/
def validateCalendar (cfg : Settings) (from_ to_ : DateTime) : Except BrokerError Unit := do
  let slot := cfg.reservationSlotMinutes
  raiseIf (from_.tzinfo = none ∨ to_.tzinfo = none)
    (.invalidReservationWindow "from_/to_는 timezone-aware여야 합니다" [])
  let fromAligned ← isGridAligned from_ slot
  let aligned ← (if fromAligned then isGridAligned to_ slot else .ok false)
  raiseIf (aligned = false)
    (.invalidReservationWindow s!"from_/to_는 {slot}분 그리드에 정렬되어야 합니다"
      [("slot_minutes", .int slot)])
  raiseIf (to_ ≤ from_)
    (.invalidReservationWindow "from_은 to_보다 이전이어야 합니다" [])

/-- The hosts shown: the given one, or all. -/
def calendarHosts : Option ℤ → Service (List ℤ)
  | some hostId => pure [hostId]
  | none => execute .hostIds

def buildCalendarMatrix (cfg : Settings) (from_ to_ : DateTime) (hostId : Option ℤ) (viewer : User) :
    Service CalendarMatrix := do
  lift (validateCalendar cfg from_ to_)
  let delta := cfg.reservationSlotMinutes * minuteUs
  let hostIds ← calendarHosts hostId
  let reservations ← execute (.calendar from_.instant to_.instant hostId)
  let occupied := reservations.foldl (occupy from_ to_ delta) []
  pure {
    from_, to_
    slotMinutes := cfg.reservationSlotMinutes
    slots := hostIds.flatMap fun hid =>
      (cursorsFrom delta from_ to_).map (calendarCell viewer delta occupied hid) }

end SmartClassroom
