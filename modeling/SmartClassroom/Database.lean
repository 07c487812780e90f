/-
  The broker's PostgreSQL database, at isolation level READ COMMITTED.

  * `Write`: what a transaction leaves pending, row by row.
  * `Stmt`: the statements the services issue.  A SELECT reads the snapshot.
    An UPDATE finds its rows in the snapshot and checks its WHERE clause again
    on their latest versions.  An INSERT checks the constraints on the latest
    versions, among them `reservations_no_overlap`.
  * `Stmt.blocks`: when a statement waits for another transaction, since that
    one has changed a row it wants to change or inserted a row it may conflict
    with.
-/
import Mathlib.Data.List.Sort
import SmartClassroom.Domain
import SmartClassroom.Lib.Prog

namespace SmartClassroom

/-! ## Writes -/

inductive Write where
  | insertReservation (r : Reservation)
  | cancelReservations (ids : List ℤ) (now : ℤ)
  | insertToken (t : Token)
  | revokeTokens (ids : List ℤ) (now : ℤ)
  | consumeTokens (ids : List ℤ) (now : ℤ)
  | setHostStatus (ids : List ℤ) (status : HostStatus)
  | insertAudit (a : AuditLog)
deriving DecidableEq

namespace Write

def onHost : Write → Host → Host
  | setHostStatus ids status, h => if ids.contains h.id then { h with status := status } else h
  | _, h => h

def onReservation : Write → Reservation → Reservation
  | cancelReservations ids now, r =>
    if ids.contains r.id then { r with status := .canceled, canceledAt := some now } else r
  | _, r => r

def onToken : Write → Token → Token
  | revokeTokens ids now, t => if ids.contains t.id then { t with revokedAt := some now } else t
  | consumeTokens ids now, t => if ids.contains t.id then { t with consumedAt := some now } else t
  | _, t => t

def newReservations : Write → List Reservation
  | insertReservation r => [r]
  | _ => []

def newTokens : Write → List Token
  | insertToken t => [t]
  | _ => []

def newAuditLogs : Write → List AuditLog
  | insertAudit a => [a]
  | _ => []

/-- The rows of `tokens` it updates. -/
def updatedTokens : Write → List ℤ
  | revokeTokens ids _ | consumeTokens ids _ => ids
  | _ => []

/-- The rows of `reservations` it updates. -/
def updatedReservations : Write → List ℤ
  | cancelReservations ids _ => ids
  | _ => []

/-- The rows of `hosts` it updates. -/
def updatedHosts : Write → List ℤ
  | setHostStatus ids _ => ids
  | _ => []

end Write

def Store.apply (st : Store) (w : Write) : Store where
  users := st.users
  hosts := st.hosts.map w.onHost
  reservations := st.reservations.map w.onReservation ++ w.newReservations
  tokens := st.tokens.map w.onToken ++ w.newTokens
  auditLogs := st.auditLogs ++ w.newAuditLogs

/-! ## Constraints -/

/-- `reservations_no_overlap` forbids both rows. -/
def Reservation.excludes (a b : Reservation) : Bool :=
  a.status.active && b.status.active && a.hostId == b.hostId &&
    a.timeRange.overlaps b.timeRange.lower b.timeRange.upper

/-- The constraint that the new row `r` violates, if any. -/
def Store.violatedByReservation (st : Store) (r : Reservation) : Option Constraint :=
  if st.reservations.any fun x => x.id == r.id then some .reservationsPkey
  else if st.reservations.any fun x => x.excludes r then some .reservationsNoOverlap
  else if !st.users.any fun u => u.id == r.userId then some .reservationsUserId
  else if !st.hosts.any fun h => h.id == r.hostId then some .reservationsHostId
  else none

/-- The constraint that the new row `t` violates, if any. -/
def Store.violatedByToken (st : Store) (t : Token) : Option Constraint :=
  if st.tokens.any fun x => x.id == t.id then some .tokensPkey
  else if st.tokens.any fun x => x.jti == t.jti then some .tokensJti
  else if !st.users.any fun u => u.id == t.userId then some .tokensUserId
  else if !t.hostId.all fun i => st.hosts.any fun h => h.id == i then some .tokensHostId
  else if !t.reservationId.all fun i => st.reservations.any fun r => r.id == i then
    some .tokensReservationId
  else none

/-- The constraint that the new audit row violates, if any. -/
def Store.violatedByAudit (st : Store) (e : AuditEntry) : Option Constraint :=
  if e.actorUserId.all fun i => st.users.any fun u => u.id == i then none
  else some .auditLogsActorUserId

/-! ## Statements -/

/-- The WHERE clause of `list_reservations`. -/
structure ReservationFilter where
  userId : Option ℤ := none
  hostId : Option ℤ := none
  from_ : Option ℤ := none
  to_ : Option ℤ := none
deriving DecidableEq

def ReservationFilter.accepts (f : ReservationFilter) (r : Reservation) : Bool :=
  r.status.active && f.userId.all (· == r.userId) && f.hostId.all (· == r.hostId) &&
    f.from_.all (r.timeRange.endsAfter ·) && f.to_.all (r.timeRange.startsBefore ·)

/-- `ORDER BY lower(time_range) ASC`, NULLs last. -/
def Reservation.startsNoLater (a b : Reservation) : Bool :=
  b.timeRange.isEmpty || (!a.timeRange.isEmpty && decide (a.timeRange.lower ≤ b.timeRange.lower))

/-- The row of `tokens` that an INSERT names. -/
structure NewToken where
  jti : String
  userId : ℤ
  hostId : Option ℤ
  reservationId : Option ℤ
  purpose : TokenPurpose
  issuedAt : ℤ
  expiresAt : ℤ
deriving DecidableEq

def NewToken.row (t : NewToken) (id : ℤ) : Token :=
  { id, jti := t.jti, userId := t.userId, hostId := t.hostId, reservationId := t.reservationId,
    purpose := t.purpose, issuedAt := t.issuedAt, expiresAt := t.expiresAt, consumedAt := none,
    revokedAt := none }

inductive Stmt where
  | getHost (id : ℤ)
  | getReservation (id : ℤ)
  | countConcurrent (userId now : ℤ)
  | dailyRanges (userId from_ to_ : ℤ)
  | nextStart (hostId after : ℤ)
  | activeReservation (hostId atTime : ℤ)
  | reservations (f : ReservationFilter)
  | hostIds
  | calendar (from_ to_ : ℤ) (hostId : Option ℤ)
  | idleHosts (from_ to_ : ℤ)
  | instantHosts (now : ℤ)
  | tokenByJti (purpose : TokenPurpose) (jti : String) (now : ℤ)
  | insertReservation (userId hostId s e : ℤ)
  | cancelReservation (id now : ℤ)
  | insertToken (t : NewToken)
  | revokeConnectTokens (reservationId now : ℤ)
  | revokeAgentTokens (hostId now : ℤ)
  | consumeToken (id now : ℤ)
  | setHostStatus (id : ℤ) (status : HostStatus)
  | insertAudit (e : AuditEntry)

namespace Stmt

/-- What the statement answers. -/
@[reducible] def Res : Stmt → Type
  | getHost _ => Option Host
  | getReservation _ => Option Reservation
  | countConcurrent .. => ℕ
  | dailyRanges .. => List TsRange
  | nextStart .. => Option ℤ
  | activeReservation .. => Option Reservation
  | reservations _ => List Reservation
  | hostIds => List ℤ
  | calendar .. => List Reservation
  | idleHosts .. => List Host
  | instantHosts _ => List (ℤ × Option ℤ)
  | tokenByJti .. => Option Token
  | insertReservation .. => Except SqlError ℤ
  | insertToken _ => Except SqlError Token
  | cancelReservation .. | revokeConnectTokens .. | revokeAgentTokens .. | consumeToken ..
  | setHostStatus .. => ℕ
  | insertAudit _ => Except SqlError Unit

/-! ### WHERE clauses -/

/-- The rows `_validate_quota` counts. -/
def concurrent (userId now : ℤ) (r : Reservation) : Bool :=
  r.userId == userId && r.status.active && r.timeRange.endsAfter now

/-- The rows `_validate_quota` sums up. -/
def daily (userId from_ to_ : ℤ) (r : Reservation) : Bool :=
  r.userId == userId && r.status.active && r.timeRange.overlaps from_ to_

/-- The rows `_next_reservation_start` looks at. -/
def upcoming (hostId after : ℤ) (r : Reservation) : Bool :=
  r.hostId == hostId && r.status == .confirmed && r.timeRange.startsAfter after

def nextStartOf (st : Store) (hostId after : ℤ) : Option ℤ :=
  ((st.reservations.filter (upcoming hostId after)).map (·.timeRange.lower)).min?

/-- The tokens that issuing one for the reservation revokes. -/
def connectTokenOf (reservationId : ℤ) (t : Token) : Bool :=
  t.reservationId == some reservationId && t.purpose == .connect && t.active

/-- The tokens that issuing one for the host revokes. -/
def agentTokenOf (hostId : ℤ) (t : Token) : Bool :=
  t.hostId == some hostId && t.purpose == .agent && t.active

/-- The row `mark_consumed` marks. -/
def consumable (id : ℤ) (t : Token) : Bool := t.id == id && t.active

/-- The row `verify_connect_token` looks for. -/
def valid (purpose : TokenPurpose) (jti : String) (now : ℤ) (t : Token) : Bool :=
  t.jti == jti && t.purpose == purpose && t.active && decide (now < t.expiresAt)

/-- The rows an UPDATE with WHERE clause `p` changes: those of the snapshot
    whose latest version still satisfies `p`. -/
def hits {α : Type} (key : α → ℤ) (p : α → Bool) (snap cur : List α) : List ℤ :=
  ((cur.filter p).filter fun x => (snap.filter p).any fun y => key y == key x).map key

/-! ### Execution -/

/-- The new row of `reservations`. -/
def newReservation (id userId hostId : ℤ) (range : TsRange) (began : ℤ) : Reservation :=
  { id, userId, hostId, timeRange := range, status := .confirmed, createdAt := began,
    canceledAt := none }

def exec : (s : Stmt) → ℤ → Seqs → Store → Store → Seqs × List Write × s.Res
  | getHost id, _, q, snap, _ => (q, [], snap.hosts.find? fun h => h.id == id)
  | getReservation id, _, q, snap, _ => (q, [], snap.reservations.find? fun r => r.id == id)
  | countConcurrent userId now, _, q, snap, _ =>
    (q, [], snap.reservations.countP (concurrent userId now))
  | dailyRanges userId from_ to_, _, q, snap, _ =>
    (q, [], (snap.reservations.filter (daily userId from_ to_)).map (·.timeRange))
  | nextStart hostId after, _, q, snap, _ => (q, [], nextStartOf snap hostId after)
  | activeReservation hostId t, _, q, snap, _ =>
    (q, [], snap.reservations.find? fun r =>
      r.hostId == hostId && r.status == .confirmed && r.timeRange.covers t)
  | reservations f, _, q, snap, _ =>
    (q, [], (snap.reservations.filter f.accepts).insertionSort (·.startsNoLater ·))
  | hostIds, _, q, snap, _ => (q, [], snap.hosts.map (·.id))
  | calendar from_ to_ hostId, _, q, snap, _ =>
    (q, [], snap.reservations.filter fun r =>
      r.status.active && r.timeRange.overlaps from_ to_ && hostId.all (· == r.hostId))
  | idleHosts from_ to_, _, q, snap, _ =>
    (q, [], (snap.hosts.filter fun h => h.status == .idle && !snap.reservations.any fun r =>
      r.hostId == h.id && r.status == .confirmed && r.timeRange.overlaps from_ to_).insertionSort
        (·.id ≤ ·.id))
  | instantHosts now, _, q, snap, _ =>
    (q, [], ((snap.hosts.filter fun h => h.status == .idle && !snap.reservations.any fun r =>
      r.hostId == h.id && r.status.active && r.timeRange.covers now).insertionSort
        (·.id ≤ ·.id)).map fun h => (h.id, nextStartOf snap h.id now))
  | tokenByJti purpose jti now, _, q, snap, _ => (q, [], snap.tokens.find? (valid purpose jti now))
  | insertReservation userId hostId s e, b, q, _, cur =>
    let q' := { q with reservation := q.reservation + 1 }
    match tstzrange s e with
    | none => (q', [], .error .data)
    | some range =>
      let r := newReservation q.reservation userId hostId range b
      match cur.violatedByReservation r with
      | some c => (q', [], .error (.integrity c))
      | none => (q', [.insertReservation r], .ok r.id)
  | cancelReservation id now, _, q, snap, cur =>
    let ids := hits Reservation.id (·.id == id) snap.reservations cur.reservations
    (q, [.cancelReservations ids now], ids.length)
  | insertToken t, _, q, _, cur =>
    let q' := { q with token := q.token + 1 }
    match cur.violatedByToken (t.row q.token) with
    | some c => (q', [], .error (.integrity c))
    | none => (q', [.insertToken (t.row q.token)], .ok (t.row q.token))
  | revokeConnectTokens reservationId now, _, q, snap, cur =>
    let ids := hits Token.id (connectTokenOf reservationId) snap.tokens cur.tokens
    (q, [.revokeTokens ids now], ids.length)
  | revokeAgentTokens hostId now, _, q, snap, cur =>
    let ids := hits Token.id (agentTokenOf hostId) snap.tokens cur.tokens
    (q, [.revokeTokens ids now], ids.length)
  | consumeToken id now, _, q, snap, cur =>
    let ids := hits Token.id (consumable id) snap.tokens cur.tokens
    (q, [.consumeTokens ids now], ids.length)
  | setHostStatus id status, _, q, snap, cur =>
    let ids := hits Host.id (·.id == id) snap.hosts cur.hosts
    (q, [.setHostStatus ids status], ids.length)
  | insertAudit e, b, q, _, cur =>
    let q' := { q with auditLog := q.auditLog + 1 }
    match cur.violatedByAudit e with
    | some c => (q', [], .error (.integrity c))
    | none => (q', [.insertAudit ⟨q.auditLog, b, e⟩], .ok ())

/-- One of the rows `xs` that satisfy `p` is among those with the ids `ids`. -/
def wants {α : Type} (key : α → ℤ) (p : α → Bool) (xs : List α) (ids : List ℤ) : Bool :=
  xs.any fun x => p x && ids.contains (key x)

/-- The statement waits for a transaction with the pending write `w`. -/
def waitsFor (s : Stmt) (q : Seqs) (snap cur : Store) (w : Write) : Bool :=
  match s with
  | insertReservation _ hostId s e =>
    w.newReservations.any (fun r => r.id == q.reservation ||
      (r.status.active && r.hostId == hostId && r.timeRange.overlaps s e)) ||
    wants Reservation.id (fun r => r.status.active && r.hostId == hostId && r.timeRange.overlaps s e)
      cur.reservations w.updatedReservations
  | cancelReservation id _ =>
    wants Reservation.id (·.id == id) snap.reservations w.updatedReservations
  | insertToken t => w.newTokens.any fun x => x.id == q.token || x.jti == t.jti
  | revokeConnectTokens reservationId _ =>
    wants Token.id (connectTokenOf reservationId) snap.tokens w.updatedTokens
  | revokeAgentTokens hostId _ => wants Token.id (agentTokenOf hostId) snap.tokens w.updatedTokens
  | consumeToken id _ => wants Token.id (consumable id) snap.tokens w.updatedTokens
  | setHostStatus id _ => wants Host.id (·.id == id) snap.hosts w.updatedHosts
  | _ => false

end Stmt

/-- The database of the broker, over instants and random texts. -/
@[reducible] def broker : Txn.Db ℤ String where
  Store := Store
  Aux := Seqs
  Write := Write
  Stmt := Stmt
  Res := Stmt.Res
  apply := Store.apply
  exec := Stmt.exec
  blocks s q snap cur ws := ws.any (s.waitsFor q snap cur)
  blocks_nil _ _ _ _ := rfl

/-- The programs of the services. -/
abbrev Service (α : Type) := Txn.Prog broker BrokerError α

/-- `db.execute(s)`. -/
abbrev execute (s : Stmt) : Service s.Res := Txn.Prog.query (D := broker) s

end SmartClassroom
