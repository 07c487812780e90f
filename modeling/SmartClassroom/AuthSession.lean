/-
  `core/auth_session.py`: session cookies, in the table of the other tokens.

  The database keeps `_hash_cookie(raw)` only; it is the hash of `TokenService`.
-/
import SmartClassroom.Classroom

namespace SmartClassroom

open Txn Prog

variable (hashRaw : String → String)

def issueSession (user : User) (ttlSeconds : ℤ) : Service (String × Token) := do
  let rawCookie ← tokenUrlsafe
  let now ← _now
  let res ← execute (.insertToken {
    jti := hashRaw rawCookie
    userId := user.id
    hostId := none
    reservationId := none
    purpose := .session
    issuedAt := now.instant
    expiresAt := (now + ttlSeconds * secondUs).instant })
  let token ← orRaise res
  pure (rawCookie, token)

def revokeSession (rawCookie : String) : Program ℕ :=
  if rawCookie = "" then pure 0
  else do
    let now ← service _now
    perform (.revokeSession (hashRaw rawCookie) now.instant)

def revokeAllSessionsForUser (userId : ℤ) : Program ℕ := do
  let now ← service _now
  perform (.revokeSessionsOf userId now.instant)

end SmartClassroom
