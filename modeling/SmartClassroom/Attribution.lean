/-
  In whose name a route writes.

  The rows that a route inserts into `reservations` and `tokens` are those of its
  user, an admin for an agent token, and its audit rows name this user as the
  actor, or nobody (`handle_inName`).
-/
import SmartClassroom.Frames

namespace SmartClassroom

open Txn Prog

/-- The user of the session that the route needs. -/
def Job.actor : Job → Option User
  | .create user .. | .instant user _ | .list user .. | .calendar user .. | .get user _ | .cancel user _
  | .connect user .. | .rotateAgentToken user _ => some user
  | .verify .. | .available .. => none

/-- The statement writes for nobody but `actor`; agent tokens are for admins. -/
def Stmt.inName (actor : Option User) : Stmt → Prop
  | insertReservation userId .. => ∃ user, actor = some user ∧ user.id = userId
  | insertToken t => t.purpose ≠ .session ∧ ∃ user, actor = some user ∧ user.id = t.userId ∧
      (t.purpose = .agent → user.role = .admin)
  | insertAudit e => ∀ userId, e.actorUserId = some userId → ∃ user, actor = some user ∧ user.id = userId
  | _ => True

section
variable {cfg : Settings} {hashRaw : String → String} {actor : Option User} {user : User} {α : Type}

theorem inName_query {s : Stmt} (hs : s.inName actor) : (execute s).Uses (Stmt.inName actor) :=
  uses_query (D := broker) hs

theorem within_uses {P : Stmt → Prop} {p : Service α} (hp : p.Uses P) : p.Within P := hp.within fun _ => id

theorem only_uses {P : Stmt → Prop} {p : Service α} (hp : p.Uses P) : p.Only P := (within_uses hp).only

theorem writeAudit_inName {e : AuditEntry} (he : e.actorUserId = none ∨ e.actorUserId = actor.map (·.id)) :
    (writeAudit e).Uses (Stmt.inName actor) := by
  refine (inName_query (s := .insertAudit e) fun userId hid => ?_).bind fun _ => orRaise_uses _
  rcases he with he | he
  · simp [he] at hid
  · exact Option.map_eq_some_iff.mp (he ▸ hid)

/-! ## Reading -/

theorem validateHostExists_inName (hostId : ℤ) : (validateHostExists hostId).Uses (Stmt.inName actor) := by
  refine (inName_query (s := .getHost _) trivial).bind fun host => ?_
  cases host <;> trivial

theorem validateQuota_inName (s e : DateTime) : (validateQuota cfg user s e).Uses (Stmt.inName actor) :=
  now_uses.bind fun _ => (inName_query (s := .countConcurrent ..) trivial).bind fun _ =>
    (uses_lift _).bind fun _ => (inName_query (s := .dailyRanges ..) trivial).bind fun _ => uses_lift _

theorem getReservation_inName (id : ℤ) : (getReservation user id).Uses (Stmt.inName actor) := by
  refine (inName_query (s := .getReservation _) trivial).bind fun r => ?_
  cases r with
  | none => trivial
  | some r => exact (uses_lift _).bind fun _ => uses_pure _

theorem refresh_inName (r : Reservation) : (refresh r).Uses (Stmt.inName actor) := by
  refine (inName_query (s := .getReservation _) trivial).bind fun row => ?_
  cases row <;> trivial

theorem withAvailableUntil_inName (now : DateTime) :
    ∀ rows, (withAvailableUntil now rows).Uses (Stmt.inName actor)
  | [] => trivial
  | (hostId, _) :: rows => by
    refine (inName_query (s := .getHost hostId) trivial).bind fun host => ?_
    refine (withAvailableUntil_inName now rows).bind fun rest => ?_
    cases host <;> trivial

theorem verifyConnectToken_inName (raw : String) : (verifyConnectToken hashRaw raw).Uses (Stmt.inName actor) := by
  unfold verifyConnectToken
  split_ifs
  · trivial
  · exact now_uses.bind fun _ => inName_query (s := .tokenByJti ..) trivial

/-! ## Writing -/

theorem transitionHost_inName (host : Host) (status : HostStatus) (reason : String) :
    (transitionHost host status reason).Uses (Stmt.inName actor) := by
  unfold transitionHost
  split_ifs
  · trivial
  · exact (inName_query (s := .setHostStatus ..) trivial).bind fun _ => (writeAudit_inName (.inl rfl)).bind fun _ =>
      uses_pure _

theorem markInUse_inName (r : Reservation) : (markInUse r).Uses (Stmt.inName actor) := by
  refine (inName_query (s := .getHost _) trivial).bind fun host => ?_
  cases host with
  | none => trivial
  | some host => exact now_uses.bind fun _ => (transitionHost_inName _ _ _).bind fun _ => uses_pure _

theorem releaseHost_inName (r : Reservation) : (releaseHost r).Uses (Stmt.inName actor) := by
  refine (inName_query (s := .getHost _) trivial).bind fun host => ?_
  cases host with
  | none => trivial
  | some host =>
    dsimp only
    split_ifs
    · refine now_uses.bind fun now => (inName_query (s := .activeReservation ..) trivial).bind fun active => ?_
      cases active with
      | none => exact (transitionHost_inName _ _ _).bind fun _ => uses_pure _
      | some _ => trivial
    · trivial

theorem auditRevoked_inName (r : Reservation) (n : ℕ) : (auditRevoked user r n).Uses (Stmt.inName (some user)) := by
  unfold auditRevoked
  split_ifs
  · exact writeAudit_inName (.inr rfl)
  · trivial

theorem insertToken_inName {t : NewToken} (ht : Stmt.inName actor (.insertToken t)) {f : Token → Service α}
    (hf : ∀ token, (f token).Uses (Stmt.inName actor)) :
    (execute (.insertToken t) >>= fun res => orRaise res >>= f).Uses (Stmt.inName actor) :=
  (inName_query ht).bind fun _ => (orRaise_uses _).bind hf

theorem issueConnectToken_inName (r : Reservation) :
    (issueConnectToken cfg hashRaw user r).Uses (Stmt.inName (some user)) := by
  refine (uses_lift _).bind fun _ => now_uses.bind fun _ => (uses_lift _).bind fun _ => ?_
  refine Uses.bind (now_uses.bind fun _ => inName_query (s := .revokeConnectTokens ..) trivial) fun _ => ?_
  refine tokenUrlsafe_uses.bind fun _ => insertToken_inName ?_ fun _ => uses_pure _
  exact ⟨nofun, user, rfl, rfl, nofun⟩

theorem issueConnectTokenResponse_inName (r : Reservation) (client : Option String) :
    (issueConnectTokenResponse cfg hashRaw user r client).Uses (Stmt.inName (some user)) := by
  refine (inName_query (s := .getHost _) trivial).bind fun host => ?_
  cases host with
  | none => trivial
  | some host =>
    exact (issueConnectToken_inName r).bind fun _ => (auditRevoked_inName r _).bind fun _ =>
      (writeAudit_inName (.inr rfl)).bind fun _ => uses_pure _

theorem issueAgentToken_inName (host : Host) (hadmin : user.role = .admin) :
    (issueAgentToken cfg hashRaw host user).Uses (Stmt.inName (some user)) := by
  refine Uses.bind (now_uses.bind fun _ => inName_query (s := .revokeAgentTokens ..) trivial) fun _ => ?_
  refine now_uses.bind fun _ => tokenUrlsafe_uses.bind fun _ => insertToken_inName ?_ fun _ => uses_pure _
  exact ⟨nofun, user, rfl, rfl, fun _ => hadmin⟩

theorem markConsumed_inName (token : Token) : (markConsumed token).Uses (Stmt.inName actor) :=
  now_uses.bind fun _ => (inName_query (s := .consumeToken ..) trivial).bind fun _ => uses_pure _

theorem insertConfirmed_inName (hostId : ℤ) (s e : DateTime) :
    (insertConfirmed user hostId s e).Within (Stmt.inName (some user)) := by
  refine ⟨⟨user, rfl, rfl⟩, fun res => ?_⟩
  cases res with
  | ok id => trivial
  | error err =>
    cases err with
    | data => trivial
    | integrity con =>
      change (if con = .reservationsNoOverlap then (throw .reservationConflict : Service ℤ)
        else throw (.sql (.integrity con))).Within _
      split_ifs <;> trivial

theorem book_inName (hostId : ℤ) (s e : DateTime) (instant : Bool) :
    (book user hostId s e instant).Within (Stmt.inName (some user)) := by
  refine (insertConfirmed_inName hostId s e).bind fun id => ⟨trivial, fun row => ?_⟩
  cases row with
  | none => trivial
  | some row => exact (within_uses (writeAudit_inName (.inr rfl))).bind fun _ => trivial

theorem createReservation_inName (hostId : ℤ) (s e : DateTime) :
    (createReservation cfg user hostId s e).Within (Stmt.inName (some user)) :=
  (within_uses ((uses_lift _).bind fun _ => now_uses.bind fun _ => uses_lift _)).bind fun _ =>
    (within_uses (validateHostExists_inName hostId)).bind fun _ =>
      (within_uses (validateQuota_inName s e)).bind fun _ => book_inName hostId s e false

theorem createInstantReservation_inName (hostId : ℤ) :
    (createInstantReservation cfg user hostId).Within (Stmt.inName (some user)) :=
  (within_uses now_uses).bind fun _ => (within_uses (validateHostExists_inName hostId)).bind fun _ =>
    (within_uses (uses_lift _)).bind fun _ =>
      (within_uses ((inName_query (s := .nextStart ..) trivial).bind fun _ => uses_pure _)).bind fun _ =>
        (within_uses (validateQuota_inName _ _)).bind fun _ => book_inName hostId _ _ true

theorem cancelReservation_inName (id : ℤ) :
    (cancelReservation user id).Uses (Stmt.inName (some user)) := by
  refine (getReservation_inName id).bind fun r => ?_
  by_cases hcan : r.status = .canceled
  · rw [if_pos hcan]
    trivial
  · rw [if_neg hcan]
    exact now_uses.bind fun _ => (inName_query (s := .cancelReservation ..) trivial).bind fun _ =>
      (refresh_inName _).bind fun _ => (writeAudit_inName (.inr rfl)).bind fun _ => uses_pure _

theorem answerVerify_inName (action : String) (targetId : Option ℤ) (detail : Detail)
    (response : TokenVerifyResponse) : (answerVerify action targetId detail response).Only (Stmt.inName actor) :=
  (only_uses (writeAudit_inName (.inl rfl))).bind fun _ => trivial

/-! ## The routes -/

/-- **A route writes in the name of its user.** -/
theorem handle_inName (j : Job) : (handle cfg hashRaw j).Only (Stmt.inName j.actor) := by
  cases j with
  | create user hostId s e =>
    refine (only_uses (uses_lift _)).bind fun payload => ?_
    refine Only.bind ((createReservation_inName _ _ _).tryCatch fun e => ?_).only fun r =>
      (only_uses (uses_lift (toRead r))).bind fun _ => trivial
    cases e <;> trivial
  | instant user hostId =>
    refine (only_uses (uses_lift _)).bind fun _ => ?_
    refine Only.bind ((createInstantReservation_inName hostId).tryCatch fun e => ?_).only fun r => ?_
    · cases e <;> trivial
    · exact (only_uses (issueConnectTokenResponse_inName r _)).bind fun _ =>
        (only_uses (markInUse_inName r)).bind fun _ => trivial
  | cancel user id =>
    refine Only.bind (only_uses ((cancelReservation_inName id).tryCatch fun e => ?_)) fun r =>
      (only_uses (releaseHost_inName r)).bind fun _ => trivial
    cases e <;> trivial
  | connect user id client =>
    refine (only_uses (uses_lift _)).bind fun _ => ?_
    refine Only.bind (only_uses ((getReservation_inName id).tryCatch fun e => ?_)) fun r =>
      (only_uses (issueConnectTokenResponse_inName r client)).bind fun _ => trivial
    cases e <;> trivial
  | verify raw consume =>
    refine (only_uses (uses_lift _)).bind fun _ => (only_uses (verifyConnectToken_inName raw)).bind fun token => ?_
    cases token with
    | none => exact answerVerify_inName _ _ _ _
    | some token =>
      cases consume with
      | false => exact answerVerify_inName _ _ _ _
      | true =>
        refine (only_uses (markConsumed_inName token)).bind fun consumed => ?_
        cases consumed <;> exact answerVerify_inName _ _ _ _
  | rotateAgentToken admin hostId =>
    change (lift (raiseIf (admin.role ≠ .admin) _) >>= _ : Service Reply).Only _
    by_cases hadmin : admin.role = .admin
    · rw [raiseIf, if_neg (not_not.mpr hadmin)]
      refine ⟨trivial, fun host => ?_⟩
      cases host with
      | none => trivial
      | some host => exact (only_uses (issueAgentToken_inName host hadmin)).bind fun _ => trivial
    · rw [raiseIf, if_pos hadmin]
      trivial
  | list viewer from_ to_ hostId userId =>
    exact only_uses ((inName_query (s := .reservations _) trivial).bind fun _ =>
      (uses_lift _).bind fun _ => uses_pure _)
  | calendar viewer from_ to_ hostId =>
    refine only_uses (Uses.bind ((uses_lift _).bind fun _ => Uses.bind ?_ fun _ =>
      (inName_query (s := .calendar ..) trivial).bind fun _ => uses_pure _) fun _ => uses_pure _)
    cases hostId with
    | none => exact inName_query (s := .hostIds) trivial
    | some hostId => trivial
  | get user id =>
    refine only_uses (Uses.bind ((getReservation_inName id).tryCatch fun e => ?_) fun _ =>
      (uses_lift _).bind fun _ => uses_pure _)
    cases e <;> trivial
  | available from_ to_ =>
    rcases from_ with _ | from_ <;> rcases to_ with _ | to_
    · exact only_uses ((now_uses.bind fun _ => (inName_query (s := .instantHosts _) trivial).bind fun _ =>
        withAvailableUntil_inName _ _).bind fun _ => uses_pure _)
    · trivial
    · trivial
    · exact only_uses ((uses_lift _).bind fun _ => (uses_lift _).bind fun _ => (uses_lift _).bind fun _ =>
        (inName_query (s := .idleHosts ..) trivial).bind fun _ => uses_pure _)

end

end SmartClassroom
