/-
  Accounts and their sessions: `core/auth.py`, `providers`, `services/user_upsert.py`,
  `api/v1/auth.py`, and the identification of a request by `core/middleware.py`
  and `api/deps.py`.

  `campus` extends `classroom` by the table `users` in full (`Account`); what the
  other services read of it stays `Store.users`.  `portal` serves the login, the
  logout, `/me`, and the routes of `app`, all but one behind `get_current_user`.
-/
import SmartClassroom.AuthSession
import SmartClassroom.GpuMetrics
import SmartClassroom.Pairing

namespace SmartClassroom

open Txn Prog

/-! ## Identities -/

structure UserIdentity where
  externalId : String
  provider : String
  displayName : String
  email : Option String := none
  role : Role := .user
deriving DecidableEq

/-- The body of `POST /auth/mock/callback`: JSON as `json.loads` reads it, or the
    items of a form, `none` for a file.  The keys of the items are distinct. -/
inductive CallbackBody where
  | json (parsed : Payload)
  | malformed
  | undecodable (message : String)
  | form (items : List (String × Option String))

/-- The text values of the body. -/
def CallbackBody.data : CallbackBody → Except String (List (String × String))
  | .json (.obj items) => .ok (items.filterMap fun item =>
      match item.2 with
      | .str value => some (item.1, value)
      | _ => none)
  | .json _ => .error "mock callback 본문은 JSON object여야 합니다"
  | .malformed => .error "mock callback JSON 파싱 실패"
  | .undecodable message => .error message
  | .form items => .ok (items.filterMap fun item => item.2.map (item.1, ·))

/-- `(data.get(key) or default)`. -/
def textOr (data : List (String × String)) (key default : String) : String :=
  match data.lookup key with
  | none | some "" => default
  | some value => value

/-- `data.get(key, "").strip()`. -/
def stripped (data : List (String × String)) (key : String) : String :=
  String.ofList (PyStr.strip ((data.lookup key).getD "").toList)

/-- `MockAuthProvider.verify_callback`, with the text of its `ValueError`. -/
def verifyCallback (body : CallbackBody) : Except String UserIdentity := do
  let data ← body.data
  let externalId := stripped data "external_id"
  let displayName := stripped data "display_name"
  if externalId = "" ∨ displayName = "" then .error "external_id, display_name은 둘 다 필수입니다"
  else
    let email := textOr data "email" ""
    let role := textOr data "role" "user"
    let identity := fun role : Role =>
      ({ externalId, provider := "mock", displayName, email := if email = "" then none else some email, role } :
        UserIdentity)
    if role = "user" then .ok (identity .user)
    else if role = "admin" then .ok (identity .admin)
    else .error s!"role 값이 잘못되었습니다: {role}"

/-! ## The table `users` -/

structure Account where
  id : ℤ
  provider : String
  externalId : String
  displayName : String
  email : Option String
  role : Role
deriving DecidableEq

namespace Account

/-- The columns the other services read. -/
def user (a : Account) : User := ⟨a.id, a.role, a.provider⟩

/-- The account of this identity: the columns of `uq_users_provider_external`. -/
def isOf (i : UserIdentity) (a : Account) : Bool := a.provider == i.provider && a.externalId == i.externalId

end Account

/-- The row an INSERT for the identity names. -/
def UserIdentity.row (i : UserIdentity) (id : ℤ) : Account :=
  ⟨id, i.provider, i.externalId, i.displayName, i.email, i.role⟩

/-- The lengths of the text columns. -/
def UserIdentity.fits (i : UserIdentity) : Bool :=
  i.externalId.length ≤ 128 && i.provider.length ≤ 32 && i.displayName.length ≤ 128 &&
    i.email.all (·.length ≤ 255)

inductive AccountWrite where
  | insertUser (a : Account)
  | updateProfile (ids : List ℤ) (displayName : String) (email : Option String)
deriving DecidableEq

namespace AccountWrite

def onAccount : AccountWrite → Account → Account
  | updateProfile ids displayName email, a => if ids.contains a.id then { a with displayName, email } else a
  | _, a => a

def newAccounts : AccountWrite → List Account
  | insertUser a => [a]
  | _ => []

/-- The rows of `users` it updates. -/
def updatedUsers : AccountWrite → List ℤ
  | updateProfile ids _ _ => ids
  | _ => []

/-- A new account is active. -/
def onActive : AccountWrite → (ℤ → Bool) → ℤ → Bool
  | insertUser a, f => fun id => if id = a.id then true else f id
  | _, f => f

def apply (st : (Store × Columns) × List Account) (w : AccountWrite) : (Store × Columns) × List Account :=
  (({ st.1.1 with users := st.1.1.users ++ w.newAccounts.map Account.user },
      { st.1.2 with isActive := w.onActive st.1.2.isActive }),
    st.2.map w.onAccount ++ w.newAccounts)

end AccountWrite

inductive AccountStmt where
  /-- `INSERT … ON CONFLICT ON CONSTRAINT uq_users_provider_external DO UPDATE … RETURNING id` -/
  | upsertUser (i : UserIdentity)
  | getUser (id : ℤ)
  | sessionAccount (jti : String) (now : ℤ)

namespace AccountStmt

/-- What the statement answers; the database rejects a text that is too long, and
    a primary key that is taken. -/
@[reducible] def Res : AccountStmt → Type
  | upsertUser _ => Option ℤ
  | getUser _ | sessionAccount .. => Option Account

def exec : (s : AccountStmt) → ℤ → (Seqs × Channel) × ℤ → (Store × Columns) × List Account →
    (Store × Columns) × List Account →
    ((Seqs × Channel) × ℤ) × List ((Write ⊕ MoreWrite) ⊕ AccountWrite) × s.Res
  | upsertUser i, _, q, _, cur =>
    let q' := (q.1, q.2 + 1)
    if i.fits = false then (q', [], none)
    else match cur.2.find? (·.isOf i) with
      | some a => (q', [.inr (.updateProfile [a.id] i.displayName i.email)], some a.id)
      | none =>
        if cur.2.any fun a => a.id == q.2 then (q', [], none)
        else (q', [.inr (.insertUser (i.row q.2))], some q.2)
  | getUser id, _, q, snap, _ => (q, [], snap.2.find? fun a => a.id == id)
  | sessionAccount jti t, _, q, snap, _ =>
    (q, [], (MoreStmt.userOf snap.1 jti t).bind fun u => snap.2.find? fun a => a.id == u.id)

/-- An upsert waits for a transaction that inserts the account or the same id, or
    has updated the row; what `classroom` knows of is not repeated. -/
def waitsFor (s : (Stmt ⊕ MoreStmt) ⊕ AccountStmt) (id : ℤ) (snap cur : List Account)
    (w : (Write ⊕ MoreWrite) ⊕ AccountWrite) : Bool :=
  match s, w with
  | .inr (.upsertUser i), .inr w =>
    w.newAccounts.any (fun a => a.isOf i || a.id == id) || Stmt.wants Account.id (·.isOf i) cur w.updatedUsers
  | .inr (.upsertUser i), .inl (.inr w) => Stmt.wants Account.id (·.isOf i) cur w.updatedUsers
  | .inl (.inr (.setActive userId _)), .inr w => Stmt.wants Account.id (·.id == userId) snap w.updatedUsers
  | _, _ => false

end AccountStmt

/-- The accounts, with the sequence of their ids. -/
@[reducible] def directory : Extension classroom where
  Cols := List Account
  Log := ℤ
  Write := AccountWrite
  Stmt := AccountStmt
  Res := AccountStmt.Res
  apply := AccountWrite.apply
  exec := AccountStmt.exec
  waitsFor s q snap cur w := AccountStmt.waitsFor s q.2 snap.2 cur.2 w

/-- The database of the broker, with its accounts. -/
abbrev campus : Txn.Db ℤ String := directory.db

/-- The programs over it. -/
abbrev Portal (α : Type) := Txn.Prog campus BrokerError α

/-- `db.execute(s)`. -/
abbrev ask (s : AccountStmt) : Portal s.Res := Txn.Prog.query (D := campus) (.inr s)

/-- A service of `broker`, in the database with accounts. -/
abbrev onCampus {α : Type} (p : Service α) : Portal α := (service p).embed directory

/-! ## Providers -/

structure AuthSettings where
  /-- `app_env == "production"` -/
  production : Bool := false
  authProvider : String := "mock"
  sessionTtlSeconds : ℤ := 60 * 60 * 8
  authLoginPath : String := "/api/v1/auth/mock/login"

inductive AuthProvider where
  | mock
  | cnuSso
deriving DecidableEq

def AuthProvider.name : AuthProvider → String
  | .mock => "mock"
  | .cnuSso => "cnu_sso"

inductive ProviderError where
  | notImplemented (message : String)
  | unsupported (message : String)

def ProviderError.message : ProviderError → String
  | .notImplemented message | .unsupported message => message

/-- `get_active_provider`; `CnuSsoProvider()` raises. -/
def getActiveProvider (name : String) : Except ProviderError AuthProvider :=
  if name = "mock" then .ok .mock
  else if name = "cnu_sso" then
    .error (.notImplemented "CnuSsoProvider는 T04b에서 구현됩니다. 현재는 AUTH_PROVIDER=mock으로 운영하세요.")
  else .error (.unsupported s!"지원하지 않는 AUTH_PROVIDER 값입니다: {name}")

/-- `provider.initiate_login`. -/
def AuthProvider.initiateLogin : AuthProvider → Except ProviderError String
  | .mock => .ok "/api/v1/auth/mock/login"
  | .cnuSso => .error (.notImplemented "")

section
variable (auth : AuthSettings) (cfg : Settings) (hashRaw : String → String)

/-! ## Identification -/

/-- `AuthSessionMiddleware`: the account of the cookie, looked up in a database
    session of its own. -/
def identify : Option String → Portal (Option Account)
  | none | some "" => pure none
  | some raw => do
    let now ← onCampus _now
    let user ← ask (.sessionAccount (hashRaw raw) now.instant)
    Prog.rollback (pure user)

/-- `get_current_user`. -/
def getCurrentUser (user : Option Account) : Except BrokerError Account :=
  match user with
  | some user => .ok user
  | none => do
    let loginUrl ← match getActiveProvider auth.authProvider >>= AuthProvider.initiateLogin with
      | .ok url => .ok url
      | .error (.notImplemented _) => .ok auth.authLoginPath
      | .error (.unsupported message) => .error (.runtime message)
    .error (.http 401 [("error", .str "unauthenticated"), ("message", .str "인증이 필요합니다"),
      ("login_url", .str loginUrl)])

/-! ## `auth.py` -/

inductive PortalReply where
  /-- the session cookie, and the account with the end of the session unless the
      browser is redirected -/
  | loggedIn (rawCookie : String) (body : Option (Account × ℤ))
  | loggedOut
  | me (user : Account)
  | reply (r : Reply)
deriving DecidableEq

def upsertUser (identity : UserIdentity) : Portal Account := do
  match ← ask (.upsertUser identity) with
  | none => throw (.runtime "DBAPIError")
  | some insertedId =>
    match ← ask (.getUser insertedId) with
    | none => throw (.runtime s!"upsert_user 직후 User(id={insertedId}) 조회 실패")
    | some user => pure user

/-- After a failed verification. -/
def loginFailure (provider : AuthProvider) (reason : String) : Portal PortalReply := do
  onCampus <| writeAudit {
    action := "login_failure"
    actorUserId := none
    result := "failure"
    authProvider := some provider.name
    detail := [("reason", .str reason)] }
  Prog.commit (pure ())
  throw (.http 400 [("detail", .str reason)])

def mockCallback (body : CallbackBody) (wantsHtml : Bool) : Portal PortalReply := do
  lift <| raiseIf (auth.production = true) (.http 404 [("detail", .str "Not Found")])
  let provider ← lift ((getActiveProvider auth.authProvider).mapError fun e => .runtime e.message)
  lift <| raiseIf (provider.name ≠ "mock") (.http 400 [("detail", .str "AUTH_PROVIDER가 mock이 아닙니다")])
  match verifyCallback body with
  | .error reason => loginFailure provider reason
  | .ok identity =>
    let user ← upsertUser identity
    let session ← onCampus (issueSession hashRaw user.user auth.sessionTtlSeconds)
    onCampus <| writeAudit {
      action := "login_success"
      actorUserId := some user.id
      targetKind := some "token"
      targetId := some session.2.id
      authProvider := some provider.name }
    Prog.commit (pure (.loggedIn session.1 (if wantsHtml then none else some (user, session.2.expiresAt))))

def logout (cookie : Option String) : Portal PortalReply := do
  let user ← identify hashRaw cookie
  let revoked ← (revokeSession hashRaw (cookie.getD "")).embed directory
  if 0 < revoked then do
    onCampus <| writeAudit {
      action := "logout"
      actorUserId := user.map (·.id)
      authProvider := some auth.authProvider }
    Prog.commit (pure .loggedOut)
  else pure .loggedOut

def me (cookie : Option String) : Portal PortalReply := do
  let user ← identify hashRaw cookie
  let user ← lift (getCurrentUser auth user)
  pure (.me user)

/-! ## Requests -/

/-- The routes of `app` behind `get_current_user`. -/
inductive UserRequest where
  | create (hostId : ℤ) (startsAt endsAt : DateTime)
  | instant (hostId : ℤ)
  | list (from_ to_ : Option DateTime) (hostId userId : Option ℤ)
  | calendar (from_ to_ : DateTime) (hostId : Option ℤ)
  | get (reservationId : ℤ)
  | cancel (reservationId : ℤ)
  | connect (reservationId : ℤ) (client : Option String)
  | available (from_ to_ : Option DateTime)
  | rotateAgentToken (hostId : ℤ)
deriving DecidableEq

def UserRequest.job (user : User) : UserRequest → Job
  | .create hostId startsAt endsAt => .create user hostId startsAt endsAt
  | .instant hostId => .instant user hostId
  | .list from_ to_ hostId userId => .list user from_ to_ hostId userId
  | .calendar from_ to_ hostId => .calendar user from_ to_ hostId
  | .get reservationId => .get user reservationId
  | .cancel reservationId => .cancel user reservationId
  | .connect reservationId client => .connect user reservationId client
  | .available from_ to_ => .available from_ to_
  | .rotateAgentToken hostId => .rotateAgentToken user hostId

inductive PortalJob where
  | callback (body : CallbackBody) (wantsHtml : Bool)
  | logout (cookie : Option String)
  | me (cookie : Option String)
  | asUser (cookie : Option String) (request : UserRequest)
  | verify (rawToken : String) (consume : Bool)

def asUser (cookie : Option String) (request : UserRequest) : Portal PortalReply := do
  let user ← identify hashRaw cookie
  let user ← lift (getCurrentUser auth user)
  let r ← onCampus (handle cfg hashRaw (request.job user.user))
  pure (.reply r)

def handlePortal : PortalJob → Portal PortalReply
  | .callback body wantsHtml => mockCallback auth hashRaw body wantsHtml
  | .logout cookie => logout auth hashRaw cookie
  | .me cookie => me auth hashRaw cookie
  | .asUser cookie request => asUser auth cfg hashRaw cookie request
  | .verify rawToken consume => onCampus (handle cfg hashRaw (.verify rawToken consume)) >>= fun r => pure (.reply r)

def portal : Txn.Service campus PortalJob BrokerError PortalReply := ⟨handlePortal auth cfg hashRaw, .databaseLost⟩

end

abbrev Campus := Sys campus PortalJob BrokerError PortalReply

end SmartClassroom
