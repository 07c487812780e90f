/-
  The rest of the broker's database: the activity of users, the metadata of
  hosts, and the statements of `auth_session.py`, `host_status_monitor.py`,
  `agents.py` and of the registration of a host.

  `classroom` extends `broker` by them.  What the event broker was given to
  publish is kept beside the sequences: no rollback takes it back.
-/
import Mathlib.Data.Rat.Defs
import SmartClassroom.Endpoints
import SmartClassroom.Lib.Extension

namespace SmartClassroom

open Txn

/-- `host_metadata["metrics"]`, as far as the status depends on it. -/
structure Metrics where
  sunshineRunning : Bool
  cpuPct : ℚ
  memPct : ℚ
deriving DecidableEq

/-- What `HostEventBroker.publish` is called with. -/
structure HostEvent where
  event : String := "host.status"
  hostId : ℤ
  hostname : String
  old : HostStatus
  new : HostStatus
  reason : String
  ts : DateTime
deriving DecidableEq

/-- The columns `users.is_active` and `hosts.metadata`. -/
structure Columns where
  isActive : ℤ → Bool
  metrics : ℤ → Option Metrics

/-- The sequence of `hosts`, and the published events, newest first. -/
structure Channel where
  host : ℤ := 1
  published : List HostEvent := []
deriving DecidableEq

/-- The row of `hosts` that an INSERT names. -/
structure NewHost where
  hostname : String
  displayName : String
  location : Option String
  ipAddress : Option String
  sunshinePort : ℤ
deriving DecidableEq

def NewHost.row (h : NewHost) (id : ℤ) : Host :=
  { id, hostname := h.hostname, displayName := h.displayName, location := h.location,
    ipAddress := h.ipAddress, sunshinePort := h.sunshinePort, status := .offline,
    lastHeartbeatAt := none }

/-! ## Writes -/

inductive MoreWrite where
  | setActive (ids : List ℤ) (isActive : Bool)
  | heartbeat (ids : List ℤ) (now : ℤ) (metrics : Metrics)
  | insertHost (h : Host)
deriving DecidableEq

namespace MoreWrite

def onHost : MoreWrite → Host → Host
  | heartbeat ids now _, h => if ids.contains h.id then { h with lastHeartbeatAt := some now } else h
  | _, h => h

def newHosts : MoreWrite → List Host
  | insertHost h => [h]
  | _ => []

def onActive : MoreWrite → (ℤ → Bool) → ℤ → Bool
  | setActive ids isActive, f => fun i => if ids.contains i then isActive else f i
  | _, f => f

def onMetrics : MoreWrite → (ℤ → Option Metrics) → ℤ → Option Metrics
  | heartbeat ids _ metrics, f => fun i => if ids.contains i then some metrics else f i
  | _, f => f

/-- The rows of `hosts` it updates. -/
def updatedHosts : MoreWrite → List ℤ
  | heartbeat ids _ _ => ids
  | _ => []

/-- The rows of `users` it updates. -/
def updatedUsers : MoreWrite → List ℤ
  | setActive ids _ => ids
  | _ => []

def apply (st : Store × Columns) (w : MoreWrite) : Store × Columns :=
  ({ st.1 with hosts := st.1.hosts.map w.onHost ++ w.newHosts },
    { isActive := w.onActive st.2.isActive, metrics := w.onMetrics st.2.metrics })

end MoreWrite

/-! ## Statements -/

inductive MoreStmt where
  | sessionUser (jti : String) (now : ℤ)
  | revokeSession (jti : String) (now : ℤ)
  | revokeSessionsOf (userId now : ℤ)
  | setActive (userId : ℤ) (isActive : Bool)
  | staleHosts (cutoff : ℤ)
  | heartbeat (hostId now : ℤ) (metrics : Metrics)
  | insertHost (h : NewHost)
  | publish (e : HostEvent)

namespace MoreStmt

/-- What the statement answers; a host of a taken name is not inserted. -/
@[reducible] def Res : MoreStmt → Type
  | sessionUser .. => Option User
  | revokeSession .. | revokeSessionsOf .. | setActive .. | heartbeat .. => ℕ
  | staleHosts _ => List Host
  | insertHost _ => Option Host
  | publish _ => Unit

/-- The row that revoking a session marks. -/
def sessionOf (jti : String) (t : Token) : Bool :=
  t.jti == jti && t.purpose == .session && t.revokedAt.isNone

/-- The rows that revoking the sessions of a user marks. -/
def sessionsOf (userId : ℤ) (t : Token) : Bool :=
  t.userId == userId && t.purpose == .session && t.revokedAt.isNone

/-- The rows a tick looks for. -/
def stale (cutoff : ℤ) (h : Host) : Bool :=
  h.status != .offline && h.lastHeartbeatAt.all (· < cutoff)

/-- The user of the session in the join of `tokens` and `users`. -/
def userOf (st : Store × Columns) (jti : String) (now : ℤ) : Option User :=
  (st.1.tokens.filter (Stmt.valid .session jti now)).findSome? fun t =>
    st.1.users.find? fun u => u.id == t.userId && st.2.isActive u.id

def exec : (s : MoreStmt) → ℤ → Seqs × Channel → Store × Columns → Store × Columns →
    (Seqs × Channel) × List (Write ⊕ MoreWrite) × s.Res
  | sessionUser jti now, _, q, snap, _ => (q, [], userOf snap jti now)
  | revokeSession jti now, _, q, snap, cur =>
    let ids := Stmt.hits Token.id (sessionOf jti) snap.1.tokens cur.1.tokens
    (q, [.inl (.revokeTokens ids now)], ids.length)
  | revokeSessionsOf userId now, _, q, snap, cur =>
    let ids := Stmt.hits Token.id (sessionsOf userId) snap.1.tokens cur.1.tokens
    (q, [.inl (.revokeTokens ids now)], ids.length)
  | setActive userId isActive, _, q, snap, cur =>
    let ids := Stmt.hits User.id (·.id == userId) snap.1.users cur.1.users
    (q, [.inr (.setActive ids isActive)], ids.length)
  | staleHosts cutoff, _, q, snap, _ => (q, [], snap.1.hosts.filter (stale cutoff))
  | heartbeat hostId now metrics, _, q, snap, cur =>
    let ids := Stmt.hits Host.id (·.id == hostId) snap.1.hosts cur.1.hosts
    (q, [.inr (.heartbeat ids now metrics)], ids.length)
  | insertHost h, _, q, _, cur =>
    let q' := (q.1, { q.2 with host := q.2.host + 1 })
    if cur.1.hosts.any fun x => x.hostname == h.hostname then (q', [], none)
    else (q', [.inr (.insertHost (h.row q.2.host))], some (h.row q.2.host))
  | publish e, _, q, _, _ => ((q.1, { q.2 with published := e :: q.2.published }), [], ())

/-- A statement of either database waits for a transaction with the pending
    write; what `broker` knows of is not repeated. -/
def waitsFor (s : Stmt ⊕ MoreStmt) (snap : Store) (w : Write ⊕ MoreWrite) : Bool :=
  match s, w with
  | .inl (.setHostStatus id _), .inr w => Stmt.wants Host.id (·.id == id) snap.hosts w.updatedHosts
  | .inr (.heartbeat id _ _), .inl w => Stmt.wants Host.id (·.id == id) snap.hosts w.updatedHosts
  | .inr (.heartbeat id _ _), .inr w => Stmt.wants Host.id (·.id == id) snap.hosts w.updatedHosts
  | .inr (.revokeSession jti _), .inl w =>
    Stmt.wants Token.id (sessionOf jti) snap.tokens w.updatedTokens
  | .inr (.revokeSessionsOf userId _), .inl w =>
    Stmt.wants Token.id (sessionsOf userId) snap.tokens w.updatedTokens
  | .inr (.setActive userId _), .inr w =>
    Stmt.wants User.id (·.id == userId) snap.users w.updatedUsers
  | .inr (.insertHost h), .inr w => w.newHosts.any fun x => x.hostname == h.hostname
  | _, _ => false

end MoreStmt

/-! ## The database -/

/-- What the whole database has besides `broker`. -/
@[reducible] def more : Extension broker where
  Cols := Columns
  Log := Channel
  Write := MoreWrite
  Stmt := MoreStmt
  Res := MoreStmt.Res
  apply := MoreWrite.apply
  exec := MoreStmt.exec
  waitsFor s _ snap _ w := MoreStmt.waitsFor s snap.1 w

/-- The whole database of the broker. -/
abbrev classroom : Txn.Db ℤ String := more.db

/-- The programs over the whole database. -/
abbrev Program (α : Type) := Txn.Prog classroom BrokerError α

/-- A service of `broker`, in the whole database. -/
abbrev service {α : Type} (p : Service α) : Program α := p.embed more

/-- `db.execute(s)`. -/
abbrev perform (s : MoreStmt) : Program s.Res := Txn.Prog.query (D := classroom) (.inr s)

end SmartClassroom
