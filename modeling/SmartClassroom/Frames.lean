/-
  What the services leave alone.

  * `Stmt.spares`: it writes neither hosts nor reservations.  The token services
    issue such statements only.
  * `Stmt.sparesHosts`: it does not write hosts.  All routes of `Endpoints` but
    those of instant use and of cancellation issue such statements only
    (`handle_sparesHosts`), so they leave every host as it is.
-/
import SmartClassroom.Classroom
import SmartClassroom.Discipline
import SmartClassroom.Lib.Alone

namespace SmartClassroom

open Txn Prog

variable {cfg : Settings} {hashRaw : String → String} {E : Env ℤ String}

/-! ## One statement -/

theorem post_now {c : Ctx broker} {Q : DateTime → Ctx broker → Prop}
    (h : Q (.utc (E.now c.reads)) { c with reads := c.reads + 1 }) : _now.Post E c Q :=
  Post.bind (post_clock (post_pure h))

theorem total_serviceNow {c : Ctx classroom} {Q : DateTime → Ctx classroom → Prop}
    (h : Q (.utc (E.now c.reads)) { c with reads := c.reads + 1 }) : (service _now).Total E c Q :=
  ⟨_, _, rfl, h⟩

theorem post_serviceNow {c : Ctx classroom} {Q : DateTime → Ctx classroom → Prop}
    (h : Q (.utc (E.now c.reads)) { c with reads := c.reads + 1 }) : (service _now).Post E c Q :=
  (total_serviceNow h).post

theorem view_perform {c : Ctx classroom} (b : ℤ) (s : MoreStmt) : (c.after b (.inr s : Stmt ⊕ MoreStmt)).view =
    classroom.applyAll c.view (s.exec b c.aux c.view c.view).2.1 := Db.applyAll_append _ _ _

/-! ## Statements that leave tables alone -/

def Stmt.spares : Stmt → Prop
  | insertReservation .. | cancelReservation .. | setHostStatus .. => False
  | _ => True

def Stmt.sparesHosts : Stmt → Prop
  | setHostStatus .. => False
  | _ => True

theorem Stmt.spares.hosts {s : Stmt} (hs : s.spares) : s.sparesHosts := by
  cases s <;> first | exact hs | trivial

theorem spares_query {s : Stmt} (hs : s.spares) : (execute s).Uses Stmt.spares :=
  uses_query (D := broker) hs

/-! ## The token services -/

theorem writeAudit_spares (e : AuditEntry) : (writeAudit e).Uses Stmt.spares :=
  (spares_query (s := .insertAudit e) trivial).bind fun _ => orRaise_uses _

theorem tokenUrlsafe_uses {P : Stmt → Prop} : tokenUrlsafe.Uses P := fun _ => trivial

theorem insertToken_spares {β : Type} (t : NewToken) {f : Token → Service β} (hf : ∀ x, (f x).Uses Stmt.spares) :
    (execute (.insertToken t) >>= fun res => orRaise res >>= f).Uses Stmt.spares :=
  (spares_query (s := .insertToken t) trivial).bind fun _ => (orRaise_uses _).bind hf

theorem revokeActiveTokensForReservation_spares (id : ℤ) :
    (revokeActiveTokensForReservation id).Uses Stmt.spares :=
  now_uses.bind fun _ => spares_query (s := .revokeConnectTokens ..) trivial

theorem issueConnectToken_spares (user : User) (reservation : Reservation) :
    (issueConnectToken cfg hashRaw user reservation).Uses Stmt.spares :=
  (uses_lift _).bind fun _ => now_uses.bind fun _ => (uses_lift _).bind fun _ =>
    (revokeActiveTokensForReservation_spares _).bind fun _ => tokenUrlsafe_uses.bind fun _ =>
      insertToken_spares _ fun _ => uses_pure _

theorem verifyConnectToken_spares (raw : String) : (verifyConnectToken hashRaw raw).Uses Stmt.spares := by
  unfold verifyConnectToken
  split_ifs
  · trivial
  · exact now_uses.bind fun _ => spares_query (s := .tokenByJti ..) trivial

theorem markConsumed_spares (token : Token) : (markConsumed token).Uses Stmt.spares :=
  now_uses.bind fun _ => (spares_query (s := .consumeToken ..) trivial).bind fun _ => uses_pure _

theorem revokeActiveAgentTokens_spares (id : ℤ) : (revokeActiveAgentTokens id).Uses Stmt.spares :=
  now_uses.bind fun _ => spares_query (s := .revokeAgentTokens ..) trivial

theorem issueAgentToken_spares (host : Host) (user : User) :
    (issueAgentToken cfg hashRaw host user).Uses Stmt.spares :=
  (revokeActiveAgentTokens_spares _).bind fun _ => now_uses.bind fun _ => tokenUrlsafe_uses.bind fun _ =>
    insertToken_spares _ fun _ => uses_pure _

theorem auditRevoked_spares (user : User) (reservation : Reservation) (n : ℕ) :
    (auditRevoked user reservation n).Uses Stmt.spares := by
  unfold auditRevoked
  split_ifs
  · exact writeAudit_spares _
  · trivial

theorem issueConnectTokenResponse_spares (user : User) (reservation : Reservation) (client : Option String) :
    (issueConnectTokenResponse cfg hashRaw user reservation client).Uses Stmt.spares := by
  refine (spares_query (s := .getHost _) trivial).bind fun host => ?_
  cases host with
  | none => trivial
  | some host =>
    exact (issueConnectToken_spares _ _).bind fun _ => (auditRevoked_spares _ _ _).bind fun _ =>
      (writeAudit_spares _).bind fun _ => uses_pure _

/-! ## The reservation service -/

theorem Within.of_spares {α : Type} {p : Service α} (hp : p.Uses Stmt.spares) : p.Within Stmt.sparesHosts :=
  hp.within fun _ => Stmt.spares.hosts

theorem Only.of_spares {α : Type} {p : Service α} (hp : p.Uses Stmt.spares) : p.Only Stmt.sparesHosts :=
  (Within.of_spares hp).only

theorem only_lift {α : Type} (x : Except BrokerError α) : (lift x : Service α).Only Stmt.sparesHosts :=
  Only.of_spares (uses_lift x)

theorem getReservation_spares (user : User) (id : ℤ) : (getReservation user id).Uses Stmt.spares := by
  refine (spares_query (s := .getReservation _) trivial).bind fun r => ?_
  cases r with
  | none => trivial
  | some r => exact (uses_lift _).bind fun _ => uses_pure _

theorem insertConfirmed_sparesHosts (user : User) (hostId : ℤ) (s e : DateTime) :
    (insertConfirmed user hostId s e).Within Stmt.sparesHosts := by
  refine ⟨trivial, fun res => ?_⟩
  cases res with
  | ok id => trivial
  | error err =>
    cases err with
    | data => trivial
    | integrity con =>
      change (if con = .reservationsNoOverlap then (throw .reservationConflict : Service ℤ)
        else throw (.sql (.integrity con))).Within _
      split_ifs <;> trivial

theorem book_sparesHosts (user : User) (hostId : ℤ) (s e : DateTime) (instant : Bool) :
    (book user hostId s e instant).Within Stmt.sparesHosts := by
  refine (insertConfirmed_sparesHosts _ _ _ _).bind fun id => ⟨trivial, fun row => ?_⟩
  cases row with
  | none => trivial
  | some row => exact (Within.of_spares (writeAudit_spares _)).bind fun _ => trivial

theorem validateHostExists_spares (hostId : ℤ) : (validateHostExists hostId).Uses Stmt.spares := by
  refine (spares_query (s := .getHost _) trivial).bind fun host => ?_
  cases host <;> trivial

theorem validateQuota_spares (user : User) (s e : DateTime) : (validateQuota cfg user s e).Uses Stmt.spares :=
  now_uses.bind fun _ => (spares_query (s := .countConcurrent ..) trivial).bind fun _ =>
    (uses_lift _).bind fun _ => (spares_query (s := .dailyRanges ..) trivial).bind fun _ => uses_lift _

theorem createReservation_sparesHosts (user : User) (hostId : ℤ) (s e : DateTime) :
    (createReservation cfg user hostId s e).Within Stmt.sparesHosts :=
  (Within.of_spares ((uses_lift _).bind fun _ => now_uses.bind fun _ => uses_lift _)).bind fun _ =>
    (Within.of_spares (validateHostExists_spares _)).bind fun _ =>
      (Within.of_spares (validateQuota_spares _ _ _)).bind fun _ => book_sparesHosts _ _ _ _ _

theorem createInstantReservation_sparesHosts (user : User) (hostId : ℤ) :
    (createInstantReservation cfg user hostId).Within Stmt.sparesHosts :=
  (Within.of_spares now_uses).bind fun _ => (Within.of_spares (validateHostExists_spares _)).bind fun _ =>
    (Within.of_spares (uses_lift _)).bind fun _ =>
      (Within.of_spares ((spares_query (s := .nextStart ..) trivial).bind fun _ => uses_pure _)).bind fun _ =>
        (Within.of_spares (validateQuota_spares _ _ _)).bind fun _ => book_sparesHosts _ _ _ _ _

theorem cancelReservation_sparesHosts (user : User) (id : ℤ) :
    (cancelReservation user id).Within Stmt.sparesHosts := by
  refine (Within.of_spares (getReservation_spares _ _)).bind fun reservation => ?_
  by_cases hcan : reservation.status = .canceled
  · rw [if_pos hcan]
    trivial
  · rw [if_neg hcan]
    refine (Within.of_spares now_uses).bind fun now => ?_
    refine Within.bind (p := execute (.cancelReservation ..)) ⟨trivial, fun _ => trivial⟩ fun _ => ?_
    refine Within.bind (p := refresh _) ⟨trivial, fun row => by cases row <;> trivial⟩ fun _ => ?_
    exact (Within.of_spares (writeAudit_spares _)).bind fun _ => trivial

/-! ## The routes -/

theorem notFoundAs404_spares (e : BrokerError) : (notFoundAs404 e).Uses Stmt.spares := by
  cases e <;> trivial

theorem hostNotFoundAsWindow_spares (hostId : ℤ) (e : BrokerError) :
    (hostNotFoundAsWindow hostId e).Uses Stmt.spares := by
  cases e <;> trivial

theorem withAvailableUntil_spares (now : DateTime) : ∀ rows, (withAvailableUntil now rows).Uses Stmt.spares
  | [] => trivial
  | (hostId, nextStart) :: rows => by
    refine (spares_query (s := .getHost _) trivial).bind fun host => ?_
    refine (withAvailableUntil_spares now rows).bind fun rest => ?_
    cases host <;> trivial

theorem answerVerify_sparesHosts (action : String) (targetId : Option ℤ) (detail : Detail)
    (response : TokenVerifyResponse) : (answerVerify action targetId detail response).Only Stmt.sparesHosts :=
  (Only.of_spares (writeAudit_spares _)).bind fun _ => trivial

/-- The routes that set the status of a host. -/
def Job.setsHost : Job → Prop
  | .instant .. | .cancel .. => True
  | _ => False

/-- **All other routes leave the hosts alone.** -/
theorem handle_sparesHosts {j : Job} (hj : ¬j.setsHost) : (handle cfg hashRaw j).Only Stmt.sparesHosts := by
  cases j with
  | create user hostId s e =>
    exact (only_lift _).bind fun _ => (((createReservation_sparesHosts _ _ _ _).tryCatch fun e =>
      Within.of_spares (hostNotFoundAsWindow_spares _ e)).only).bind fun _ => (only_lift _).bind fun _ => trivial
  | instant => exact absurd trivial hj
  | cancel => exact absurd trivial hj
  | list viewer from_ to_ hostId userId =>
    exact Only.of_spares ((spares_query (s := .reservations _) trivial).bind fun _ =>
      (uses_lift _).bind fun _ => uses_pure _)
  | calendar viewer from_ to_ hostId =>
    refine Only.of_spares (Uses.bind ((uses_lift _).bind fun _ => Uses.bind ?_ fun _ =>
      (spares_query (s := .calendar ..) trivial).bind fun _ => uses_pure _) fun _ => uses_pure _)
    cases hostId with
    | none => exact spares_query (s := .hostIds) trivial
    | some hostId => trivial
  | get user id =>
    exact Only.of_spares (((getReservation_spares _ _).tryCatch notFoundAs404_spares).bind fun _ =>
      (uses_lift _).bind fun _ => uses_pure _)
  | connect user id client =>
    exact (only_lift _).bind fun _ => (Only.of_spares ((getReservation_spares _ _).tryCatch
      notFoundAs404_spares)).bind fun _ => (Only.of_spares (issueConnectTokenResponse_spares _ _ _)).bind fun _ =>
        trivial
  | verify raw consume =>
    refine (only_lift _).bind fun _ => (Only.of_spares (verifyConnectToken_spares _)).bind fun token => ?_
    cases token with
    | none => exact answerVerify_sparesHosts _ _ _ _
    | some token =>
      cases consume with
      | false => exact answerVerify_sparesHosts _ _ _ _
      | true =>
        refine (Only.of_spares (markConsumed_spares _)).bind fun consumed => ?_
        cases consumed <;> exact answerVerify_sparesHosts _ _ _ _
  | available from_ to_ =>
    rcases from_ with _ | from_ <;> rcases to_ with _ | to_
    · exact Only.of_spares ((now_uses.bind fun _ => (spares_query (s := .instantHosts _) trivial).bind fun _ =>
        withAvailableUntil_spares _ _).bind fun _ => uses_pure _)
    · trivial
    · trivial
    · exact Only.of_spares ((uses_lift _).bind fun _ => (uses_lift _).bind fun _ => (uses_lift _).bind fun _ =>
        (spares_query (s := .idleHosts ..) trivial).bind fun _ => uses_pure _)
  | rotateAgentToken admin hostId =>
    refine (only_lift _).bind fun _ => ⟨trivial, fun host => ?_⟩
    cases host with
    | none => trivial
    | some host => exact (Only.of_spares (issueAgentToken_spares _ _)).bind fun _ => trivial

end SmartClassroom
