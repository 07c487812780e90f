/-
  `api/v1/pairing.py`, and the Sunshine tokens of the hosts in `api/v1/hosts.py`.

  `relayed` extends `broker` by the column `hosts.sunshine_broker_token`, and by the
  POSTs that have left the broker, which no rollback takes back.  `relay` serves the
  pairings and the registration of the tokens beside the other routes.
-/
import SmartClassroom.Lib.Outbox
import SmartClassroom.Pairing
import SmartClassroom.Refusals

namespace SmartClassroom

open Txn Prog

/-! ## The database -/

/-- What has left the broker, and what the network answers to each POST. -/
structure Wire where
  network : ℕ → PinOutcome
  posted : List PinRequest := []

inductive RelayWrite where
  | setSunshineToken (ids : List ℤ) (sunshineBrokerToken : String)
deriving DecidableEq

namespace RelayWrite

def apply (st : Store × (ℤ → Option String)) : RelayWrite → Store × (ℤ → Option String)
  | setSunshineToken ids token => (st.1, fun id => if ids.contains id then some token else st.2 id)

/-- The rows of `hosts` it updates. -/
def updatedHosts : RelayWrite → List ℤ
  | setSunshineToken ids _ => ids

end RelayWrite

inductive RelayStmt where
  /-- the host, with its Sunshine token -/
  | getPairable (hostId : ℤ)
  | setSunshineToken (hostId : ℤ) (sunshineBrokerToken : String)
  /-- `client.post`, which is no statement of the database -/
  | post (request : PinRequest)

namespace RelayStmt

@[reducible] def Res : RelayStmt → Type
  | getPairable _ => Option (Host × Option String)
  | setSunshineToken .. => Unit
  | post _ => PinOutcome

def exec : (s : RelayStmt) → ℤ → Seqs × Wire → Store × (ℤ → Option String) → Store × (ℤ → Option String) →
    (Seqs × Wire) × List (Write ⊕ RelayWrite) × s.Res
  | getPairable hostId, _, q, snap, _ => (q, [], (snap.1.hosts.find? (·.id == hostId)).map fun h => (h, snap.2 h.id))
  | setSunshineToken hostId token, _, q, snap, cur =>
    (q, [.inr (.setSunshineToken (Stmt.hits Host.id (·.id == hostId) snap.1.hosts cur.1.hosts) token)], ())
  | post request, _, q, _, _ =>
    ((q.1, { q.2 with posted := q.2.posted ++ [request] }), [], q.2.network q.2.posted.length)

/-- The UPDATEs of one row of `hosts` wait for each other. -/
def waitsFor (s : Stmt ⊕ RelayStmt) (snap : Store) (w : Write ⊕ RelayWrite) : Bool :=
  match s, w with
  | .inl (.setHostStatus hostId _), .inr w => Stmt.wants Host.id (·.id == hostId) snap.hosts w.updatedHosts
  | .inr (setSunshineToken hostId _), .inl w => Stmt.wants Host.id (·.id == hostId) snap.hosts w.updatedHosts
  | .inr (setSunshineToken hostId _), .inr w => Stmt.wants Host.id (·.id == hostId) snap.hosts w.updatedHosts
  | _, _ => false

end RelayStmt

/-- The Sunshine tokens, and the POSTs. -/
@[reducible] def wires : Extension broker where
  Cols := ℤ → Option String
  Log := Wire
  Write := RelayWrite
  Stmt := RelayStmt
  Res := RelayStmt.Res
  apply := RelayWrite.apply
  exec := RelayStmt.exec
  waitsFor s _ snap _ w := RelayStmt.waitsFor s snap.1 w

/-- The database of the broker, with the Sunshine tokens. -/
abbrev relayed : Txn.Db ℤ String := wires.db

/-- The programs over it. -/
abbrev Relay (α : Type) := Txn.Prog relayed BrokerError α

/-- `db.execute(s)`, or the POST. -/
abbrev send (s : RelayStmt) : Relay s.Res := Txn.Prog.query (D := relayed) (.inr s)

/-- A service of `broker`. -/
abbrev onRelayed {α : Type} (p : Service α) : Relay α := p.embed wires

/-! ## `pairing_service.py` -/

section
variable (refuses : PinRequest → Option PinFault)

/-- The loop of `push_pin`, with `left` attempts to go. -/
def relayFrom (request : PinRequest) (base : PyFloat) (maxAttempts attempt : ℕ) (lastReason : String) :
    ℕ → Relay (Except PinFailure PairingResult)
  | 0 => pure (.error (.pairing (exhausted lastReason maxAttempts)))
  | left + 1 =>
    match refuses request with
    | some fault => pure (.error (.escaped fault))
    | none => do
      let outcome ← send (.post request)
      match judge attempt outcome with
      | .inl result => pure result
      | .inr reason =>
        match (pause base maxAttempts attempt).2 with
        | some fault => pure (.error (.escaped fault))
        | none => relayFrom request base maxAttempts (attempt + 1) reason left

/-- `push_pin`; what it waits between its POSTs is up to the others. -/
def relayPin (settings : SunshineSettings) (host : Host) (sunshineBrokerToken : Option String) (pin : String)
    (reservationId : ℤ) : Relay (Except PinFailure PairingResult) :=
  match host.ipAddress, sunshineBrokerToken with
  | some ip, some token =>
    if ip = "" ∨ token = "" then pure pushPin.notPairable.2
    else
      let maxAttempts := (max 1 settings.sunshinePairMaxAttempts).toNat
      relayFrom refuses (pinRequest ip token pin reservationId settings) settings.sunshinePairBackoffBaseSeconds
        maxAttempts 1 "unreachable" maxAttempts
  | _, _ => pure pushPin.notPairable.2

end

/-! ## `pairing.py` -/

structure HostRead where
  id : ℤ
  hostname : String
  displayName : String
  location : Option String
  status : HostStatus
  sunshinePort : ℤ
  ipAddress : Option String
deriving DecidableEq

/-- `HostRead.model_validate(host)`. -/
def HostRead.ofHost (host : Host) : HostRead :=
  ⟨host.id, host.hostname, host.displayName, host.location, host.status, host.sunshinePort, host.ipAddress⟩

inductive RelayReply where
  | broker (r : Reply)
  | paired (status : String) (host : HostConnectionInfo)
  | host (r : HostRead)
deriving DecidableEq

inductive RelayJob where
  | broker (j : Job)
  | pair (rawToken pin : String)
  | setSunshineToken (admin : User) (hostId : ℤ) (sunshineBrokerToken : String)

/-- `_status_for`. -/
def statusFor : PairingErrorKind → ℕ
  | .hostNotPairable => 422
  | .unreachable => 502
  | .rejected => 409

/-- The answer to a pairing that failed, with the way out of it. -/
def pairingHttp (statusCode : ℕ) (error message : String) : BrokerError :=
  .http statusCode [("error", .str error), ("message", .str message), ("fallback", .str "manual_pin")]

def invalidConnectToken : BrokerError := pairingHttp 401 "invalid_connect_token" "connect 토큰이 유효하지 않습니다"

def hostMissing : BrokerError := pairingHttp 404 "host_missing" "토큰의 호스트가 존재하지 않습니다"

/-- A `PairingError`, as the route answers it. -/
def PairingError.http (e : PairingError) : BrokerError := pairingHttp (statusFor e.kind) e.reason e.message

/-- What the route does not catch; a request that waits without end goes on to
    nothing else either. -/
def PinFault.raised : PinFault → BrokerError
  | .invalidUrl => .runtime "InvalidURL"
  | .unicodeEncode => .runtime "UnicodeEncodeError"
  | .decoding => .runtime "DecodingError"
  | .recursion => .runtime "RecursionError"
  | .overflow => .runtime "OverflowError"
  | .nanWait => .runtime "ValueError"
  | .endless => .runtime "sleep"

def pairingFailed (token : Token) (host : Host) (reservationId : ℤ) (e : PairingError) : AuditEntry where
  action := "pairing_failed"
  actorUserId := some token.userId
  targetKind := some "host"
  targetId := some host.id
  result := "failure"
  detail := [("reservation_id", .int reservationId), ("reason", .str e.reason), ("attempts", .int e.attempts)]

def pairingSucceeded (token : Token) (host : Host) (reservationId : ℤ) (result : PairingResult) : AuditEntry where
  action := "pairing_succeeded"
  actorUserId := some token.userId
  targetKind := some "host"
  targetId := some host.id
  detail := [("reservation_id", .int reservationId), ("attempts", .int result.attempts)]

section
variable (cfg : Settings) (settings : SunshineSettings) (refuses : PinRequest → Option PinFault) (isDigit : Char → Bool)
  (hashRaw : String → String)

/-- What is wrong with a `PairingRequest`; `isDigit` is what `\d` matches. -/
def pairingRequestErrors (rawToken pin : String) : List String :=
  (if rawToken.length < 16 then ["String should have at least 16 characters"] else []) ++
    if pin.length = 4 ∧ pin.toList.all isDigit = true then []
    else ["String should match pattern '^\\d\x7b4\x7d$'"]

/-- The audit row of a pairing, and its answer. -/
def answerPairing (token : Token) (host : Host) (reservationId : ℤ) : Except PinFailure PairingResult → Relay RelayReply
  | .error (.escaped fault) => throw fault.raised
  | .error (.pairing e) => do
    onRelayed (writeAudit (pairingFailed token host reservationId e))
    onRelayed commit
    throw e.http
  | .ok result => do
    onRelayed (writeAudit (pairingSucceeded token host reservationId result))
    onRelayed commit
    pure (.paired "paired_pending" (.ofHost host))

/-- `db.get(Host, id)`. -/
def getPairable : Option ℤ → Relay (Option (Host × Option String))
  | none => pure none
  | some hostId => send (.getPairable hostId)

def pairingEndpoint (rawToken pin : String) : Relay RelayReply := do
  lift <| raiseIf (pairingRequestErrors isDigit rawToken pin ≠ [])
    (.requestValidation (pairingRequestErrors isDigit rawToken pin))
  match ← onRelayed (verifyConnectToken hashRaw rawToken) with
  | none => throw invalidConnectToken
  | some token =>
    match token.reservationId with
    | none => throw invalidConnectToken
    | some reservationId =>
      match ← getPairable token.hostId with
      | none => throw hostMissing
      | some (host, sunshineBrokerToken) => do
        let result ← relayPin refuses settings host sunshineBrokerToken pin reservationId
        answerPairing token host reservationId result

/-! ## `hosts.py` -/

/-- What is wrong with a `HostSunshineTokenUpdate`. -/
def sunshineTokenErrors (sunshineBrokerToken : String) : List String :=
  if sunshineBrokerToken.length < 1 then ["String should have at least 1 character"]
  else if 128 < sunshineBrokerToken.length then ["String should have at most 128 characters"]
  else []

/-- `host.sunshine_broker_token = …`; nothing is written where the row has the token. -/
def flushSunshineToken (hostId : ℤ) (old : Option String) (sunshineBrokerToken : String) : Relay Unit :=
  if old = some sunshineBrokerToken then pure () else send (.setSunshineToken hostId sunshineBrokerToken)

def setSunshineTokenEndpoint (admin : User) (hostId : ℤ) (sunshineBrokerToken : String) : Relay RelayReply := do
  lift <| raiseIf (admin.role ≠ .admin) (.http 403 [("detail", .str "관리자 권한 필요")])
  lift <| raiseIf (sunshineTokenErrors sunshineBrokerToken ≠ []) (.requestValidation (sunshineTokenErrors sunshineBrokerToken))
  match ← send (.getPairable hostId) with
  | none => throw (.http 404 [("error", .str "host_not_found"), ("host_id", .int hostId)])
  | some (_, old) => do
    flushSunshineToken hostId old sunshineBrokerToken
    onRelayed commit
    match ← send (.getPairable hostId) with
    | none => throw (.runtime "Could not refresh instance")
    | some (host, _) => pure (.host (.ofHost host))

/-! ## Requests -/

def handleRelay : RelayJob → Relay RelayReply
  | .broker j => onRelayed (handle cfg hashRaw j) >>= fun r => pure (.broker r)
  | .pair rawToken pin => pairingEndpoint settings refuses isDigit hashRaw rawToken pin
  | .setSunshineToken admin hostId sunshineBrokerToken => setSunshineTokenEndpoint admin hostId sunshineBrokerToken

def relay : Txn.Service relayed RelayJob BrokerError RelayReply :=
  ⟨handleRelay cfg settings refuses isDigit hashRaw, .databaseLost⟩

end

end SmartClassroom
