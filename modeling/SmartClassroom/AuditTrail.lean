/-
  The audit log is complete and says nothing else.

  A `Note` is what an audit row says of a booking, of an issued connect token or
  of a consumed one.  Each commit makes such things and notes exactly these
  (`audit_ok`), so in any interleaving the rows of `reservations`, the connect
  tokens and the consumed tokens are, one for one, the rows of `audit_logs`
  about them (`audited_of_reach`).
-/
import SmartClassroom.Consume
import SmartClassroom.HostJobs
import SmartClassroom.Lib.Journal

namespace SmartClassroom

open Txn Prog

/-! ## Notes -/

/-- What an audit row says, with the host in its detail. -/
structure Note where
  action : String
  targetId : Option ℤ
  actorUserId : Option ℤ
  hostId : Option Json
deriving DecidableEq

def Reservation.note (r : Reservation) : Note :=
  ⟨"reservation_create", some r.id, some r.userId, some (.int r.hostId)⟩

def Token.note (t : Token) : Note := ⟨"token_issue", some t.id, some t.userId, t.hostId.map .int⟩

def consumption (tokenId : ℤ) : Note := ⟨"token_consume", some tokenId, none, none⟩

/-- The rows that book, issue a connect token, or consume one. -/
def AuditEntry.isNote (e : AuditEntry) : Bool :=
  e.action == "reservation_create" || e.action == "token_issue" || e.action == "token_consume"

def AuditEntry.notes (e : AuditEntry) : Multiset Note :=
  if e.isNote then {⟨e.action, e.targetId, e.actorUserId, e.detail.lookup "host_id"⟩} else 0

/-- What the writes make, and what they note of it. -/
def auditJournal : Journal broker Note where
  made
    | .insertReservation r => {r.note}
    | .insertToken t => if t.purpose = .connect then {t.note} else 0
    | .consumeTokens ids _ => Multiset.ofList (ids.map consumption)
    | _ => 0
  noted
    | .insertAudit a => a.entry.notes
    | _ => 0

section
variable (r : Reservation) (t : Token) (ids : List ℤ) (now : ℤ) (a : AuditLog)

@[simp] theorem made_insertReservation : auditJournal.made (.insertReservation r) = {r.note} := rfl

@[simp] theorem made_insertToken :
    auditJournal.made (.insertToken t) = if t.purpose = .connect then {t.note} else 0 := rfl

@[simp] theorem made_consumeTokens : auditJournal.made (.consumeTokens ids now) = ids.map consumption := rfl

@[simp] theorem made_insertAudit : auditJournal.made (.insertAudit a) = 0 := rfl

@[simp] theorem noted_insertReservation : auditJournal.noted (.insertReservation r) = 0 := rfl

@[simp] theorem noted_insertToken : auditJournal.noted (.insertToken t) = 0 := rfl

@[simp] theorem noted_consumeTokens : auditJournal.noted (.consumeTokens ids now) = 0 := rfl

@[simp] theorem noted_insertAudit : auditJournal.noted (.insertAudit a) = a.entry.notes := rfl

end

/-- Statements that make and note nothing. -/
def Stmt.silent : Stmt → Prop
  | insertReservation .. | consumeToken .. => False
  | insertToken t => t.purpose ≠ .connect
  | insertAudit e => e.isNote = false
  | _ => True

theorem Stmt.silent.journal {s : Stmt} (hs : s.silent) : auditJournal.Silent s := by
  intro b q snap cur w hw
  cases s with
  | insertReservation | consumeToken => exact hs.elim
  | insertToken t =>
    change w ∈ ((Stmt.insertToken t).exec b q snap cur).2.1 at hw
    simp only [exec] at hw
    split at hw
    · simp at hw
    · obtain rfl := List.mem_singleton.mp hw
      exact ⟨if_neg hs, rfl⟩
  | insertAudit e =>
    change w ∈ ((Stmt.insertAudit e).exec b q snap cur).2.1 at hw
    simp only [exec] at hw
    split at hw
    · simp at hw
    · obtain rfl := List.mem_singleton.mp hw
      exact ⟨rfl, if_neg (Bool.eq_false_iff.mp hs)⟩
  | cancelReservation | revokeConnectTokens | revokeAgentTokens | setHostStatus =>
    obtain rfl := List.mem_singleton.mp hw
    exact ⟨rfl, rfl⟩
  | _ => exact absurd hw List.not_mem_nil

/-! ### Silent services -/

section
variable {cfg : Settings} {hashRaw : String → String}

theorem silent_query {s : Stmt} (hs : s.silent) : (execute s).Uses Stmt.silent := uses_query (D := broker) hs

theorem writeAudit_silent {e : AuditEntry} (he : e.isNote = false) : (writeAudit e).Uses Stmt.silent :=
  (silent_query (s := .insertAudit e) he).bind fun _ => orRaise_uses _

theorem validateHostExists_silent (hostId : ℤ) : (validateHostExists hostId).Uses Stmt.silent := by
  refine (silent_query (s := .getHost _) trivial).bind fun host => ?_
  cases host <;> trivial

theorem validateQuota_silent (user : User) (s e : DateTime) : (validateQuota cfg user s e).Uses Stmt.silent :=
  now_uses.bind fun _ => (silent_query (s := .countConcurrent ..) trivial).bind fun _ =>
    (uses_lift _).bind fun _ => (silent_query (s := .dailyRanges ..) trivial).bind fun _ => uses_lift _

theorem getReservation_silent (user : User) (id : ℤ) : (getReservation user id).Uses Stmt.silent := by
  refine (silent_query (s := .getReservation _) trivial).bind fun r => ?_
  cases r with
  | none => trivial
  | some r => exact (uses_lift _).bind fun _ => uses_pure _

theorem refresh_silent (r : Reservation) : (refresh r).Uses Stmt.silent := by
  refine (silent_query (s := .getReservation _) trivial).bind fun row => ?_
  cases row <;> trivial

theorem cancelReservation_silent (user : User) (id : ℤ) : (cancelReservation user id).Uses Stmt.silent := by
  refine (getReservation_silent user id).bind fun r => ?_
  by_cases hcan : r.status = .canceled
  · rw [if_pos hcan]
    trivial
  · rw [if_neg hcan]
    exact now_uses.bind fun _ => (silent_query (s := .cancelReservation ..) trivial).bind fun _ =>
      (refresh_silent _).bind fun _ => (writeAudit_silent rfl).bind fun _ => uses_pure _

theorem transitionHost_silent (host : Host) (status : HostStatus) (reason : String) :
    (transitionHost host status reason).Uses Stmt.silent := by
  unfold transitionHost
  split_ifs
  · trivial
  · exact (silent_query (s := .setHostStatus ..) trivial).bind fun _ => (writeAudit_silent rfl).bind fun _ =>
      uses_pure _

theorem markInUse_silent (r : Reservation) : (markInUse r).Uses Stmt.silent := by
  refine (silent_query (s := .getHost _) trivial).bind fun host => ?_
  cases host with
  | none => trivial
  | some host => exact now_uses.bind fun _ => (transitionHost_silent _ _ _).bind fun _ => uses_pure _

theorem releaseHost_silent (r : Reservation) : (releaseHost r).Uses Stmt.silent := by
  refine (silent_query (s := .getHost _) trivial).bind fun host => ?_
  cases host with
  | none => trivial
  | some host =>
    dsimp only
    split_ifs
    · refine now_uses.bind fun now => (silent_query (s := .activeReservation ..) trivial).bind fun active => ?_
      cases active with
      | none => exact (transitionHost_silent _ _ _).bind fun _ => uses_pure _
      | some _ => trivial
    · trivial

theorem auditRevoked_silent (user : User) (r : Reservation) (n : ℕ) : (auditRevoked user r n).Uses Stmt.silent := by
  unfold auditRevoked
  split_ifs
  · exact writeAudit_silent rfl
  · trivial

theorem issueAgentToken_silent (host : Host) (user : User) :
    (issueAgentToken cfg hashRaw host user).Uses Stmt.silent := by
  refine Uses.bind (now_uses.bind fun _ => silent_query (s := .revokeAgentTokens ..) trivial) fun _ =>
    now_uses.bind fun _ => tokenUrlsafe_uses.bind fun _ => ?_
  exact (silent_query (s := .insertToken _) (by simp [Stmt.silent])).bind fun _ => (orRaise_uses _).bind fun _ => uses_pure _

/-! ### What makes something, and notes it -/

theorem exec_insertAudit (e : AuditEntry) (b : ℤ) (q : Seqs) (snap cur : Store) :
    (∃ a : AuditLog, a.entry = e ∧ (Stmt.insertAudit e).exec b q snap cur =
      ({ q with auditLog := q.auditLog + 1 }, [.insertAudit a], .ok ())) ∨
    ∃ err, (Stmt.insertAudit e).exec b q snap cur = ({ q with auditLog := q.auditLog + 1 }, [], .error err) := by
  simp only [Stmt.exec]
  split
  · exact .inr ⟨_, rfl⟩
  · exact .inl ⟨_, rfl, rfl⟩

theorem exec_insertToken (t : NewToken) (b : ℤ) (q : Seqs) (snap cur : Store) :
    (Stmt.insertToken t).exec b q snap cur =
      ({ q with token := q.token + 1 }, [.insertToken (t.row q.token)], .ok (t.row q.token)) ∨
    ∃ err, (Stmt.insertToken t).exec b q snap cur = ({ q with token := q.token + 1 }, [], .error err) := by
  simp only [Stmt.exec]
  split
  · exact .inr ⟨_, rfl⟩
  · exact .inl rfl

variable {I : Store → Prop} {h : History} {m : Multiset Note} {α : Type}

/-- A service that makes and notes nothing. -/
theorem audit_silent {p : Service α} (hp : p.Uses Stmt.silent) (ho : auditJournal.Owes h m) :
    p.Ok I (auditJournal.rules BrokerError) (fun h _ => auditJournal.Owes h m) h :=
  Journal.silent_ok (hp.mono fun _ hs => hs.journal) ho

theorem writeAudit_notes {e : AuditEntry} (ho : auditJournal.Owes h (e.notes + m)) :
    (writeAudit e).Ok I (auditJournal.rules BrokerError) (fun h _ => auditJournal.Owes h m) h := by
  refine ok_bind.mpr ⟨trivial, fun b q snap cur _ _ => ?_⟩
  rw [execOn_eq]
  rcases exec_insertAudit e b q (broker.applyAll snap (pendOf h)) (broker.applyAll cur (pendOf h)) with
    ⟨a, rfl, hexec⟩ | ⟨err, hexec⟩
  · rw [hexec]
    refine ho.stmt (s := .insertAudit a.entry) ?_
    rw [execOn_eq, hexec, Journal.allMade_singleton, Journal.allNoted_singleton]
    simp [add_comm]
  · rw [hexec]
    trivial

theorem insertConfirmed_makes (ho : auditJournal.Owes h 0) (user : User) (hostId : ℤ) (s e : DateTime) :
    (insertConfirmed user hostId s e).Ok I (auditJournal.rules BrokerError) (fun h' id =>
      auditJournal.Owes h' {⟨"reservation_create", some id, some user.id, some (.int hostId)⟩}) h := by
  refine ok_bind.mpr ⟨trivial, fun b q snap cur _ _ => ?_⟩
  rw [execOn_eq]
  rcases exec_insertReservation user.id hostId s.instant e.instant b q (broker.applyAll snap (pendOf h))
    (broker.applyAll cur (pendOf h)) with ⟨row, -, -, huser, hhost, -, -, -, hexec⟩ | ⟨err, hexec⟩
  · rw [hexec]
    refine ho.stmt (s := .insertReservation user.id hostId s.instant e.instant) ?_
    rw [execOn_eq, hexec, Journal.allMade_singleton, Journal.allNoted_singleton]
    simp [Reservation.note, huser, hhost]
  · rw [hexec]
    cases err with
    | data => trivial
    | integrity c =>
      change Ok _ _ _ (if _ then _ else _) _
      split_ifs <;> trivial

theorem book_notes (ho : auditJournal.Owes h 0) (user : User) (hostId : ℤ) (s e : DateTime) (instant : Bool) :
    (book user hostId s e instant).Ok I (auditJournal.rules BrokerError) (fun h' _ => auditJournal.Owes h' 0) h := by
  refine (insertConfirmed_makes ho user hostId s e).bind fun h₁ id ho₁ => ?_
  refine ok_bind.mpr ⟨trivial, fun b q snap cur _ _ => ?_⟩
  have ho₂ := ho₁.silent (Stmt.silent.journal (s := .getReservation id) trivial) b q snap cur
  generalize hfound : (broker.execOn (pendOf h₁) (Stmt.getReservation id) b q snap cur).2.2 = found
  cases (found : Option Reservation) with
  | none => trivial
  | some r =>
    have hid : r.id = id := by simpa using List.find?_some hfound
    refine (writeAudit_notes ?_).bind fun h₃ _ ho₃ => ho₃
    rw [hid, add_zero]
    exact ho₂

theorem createReservation_notes (ho : auditJournal.Owes h 0) (user : User) (hostId : ℤ) (s e : DateTime) :
    (createReservation cfg user hostId s e).Ok I (auditJournal.rules BrokerError)
      (fun h' _ => auditJournal.Owes h' 0) h := by
  have hwindow : (validateWindow cfg s e).Uses Stmt.silent :=
    (uses_lift _).bind fun _ => now_uses.bind fun _ => uses_lift _
  refine (audit_silent hwindow ho).bind fun h₁ _ ho₁ => ?_
  refine (audit_silent (validateHostExists_silent hostId) ho₁).bind fun h₂ _ ho₂ => ?_
  refine (audit_silent (validateQuota_silent user s e) ho₂).bind fun h₃ _ ho₃ => ?_
  exact book_notes ho₃ user hostId s e false

theorem createInstantReservation_notes (ho : auditJournal.Owes h 0) (user : User) (hostId : ℤ) :
    (createInstantReservation cfg user hostId).Ok I (auditJournal.rules BrokerError)
      (fun h' _ => auditJournal.Owes h' 0) h := by
  have hnext : ∀ t : DateTime, (nextReservationStart hostId t).Uses Stmt.silent := fun t =>
    (silent_query (s := .nextStart ..) trivial).bind fun _ => uses_pure _
  refine (audit_silent (now_uses) ho).bind fun h₀ now ho₀ => ?_
  refine (audit_silent (validateHostExists_silent hostId) ho₀).bind fun h₁ host ho₁ => ?_
  refine (audit_silent (uses_lift _) ho₁).bind fun h₂ _ ho₂ => ?_
  refine (audit_silent (hnext now) ho₂).bind fun h₃ next ho₃ => ?_
  refine (audit_silent (validateQuota_silent user _ _) ho₃).bind fun h₄ _ ho₄ => ?_
  exact book_notes ho₄ user hostId _ _ true

theorem insertToken_makes (ho : auditJournal.Owes h 0) {new : NewToken} (hnew : new.purpose = .connect)
    {f : Token → Service α} {Q : History → α → Prop}
    (hf : ∀ h' id, auditJournal.Owes h' {(new.row id).note} →
      (f (new.row id)).Ok I (auditJournal.rules BrokerError) Q h') :
    (execute (.insertToken new) >>= fun res => orRaise res >>= f).Ok I (auditJournal.rules BrokerError) Q h := by
  refine ok_bind.mpr ⟨trivial, fun b q snap cur _ _ => ?_⟩
  rw [execOn_eq]
  rcases exec_insertToken new b q (broker.applyAll snap (pendOf h)) (broker.applyAll cur (pendOf h)) with
    hexec | ⟨err, hexec⟩
  · rw [hexec]
    refine hf _ q.token (ho.stmt (s := .insertToken new) ?_)
    rw [execOn_eq, hexec, Journal.allMade_singleton, Journal.allNoted_singleton, made_insertToken,
      if_pos (show (new.row q.token).purpose = .connect from hnew)]
    rfl
  · rw [hexec]
    trivial

theorem issueConnectToken_makes (ho : auditJournal.Owes h 0) (user : User) (r : Reservation) :
    (issueConnectToken cfg hashRaw user r).Ok I (auditJournal.rules BrokerError) (fun h' issued =>
      auditJournal.Owes h' {⟨"token_issue", some issued.2.1.id, some user.id, some (.int r.hostId)⟩}) h := by
  refine (audit_silent (uses_lift _) ho).bind fun h₁ bounds ho₁ => ?_
  refine (audit_silent now_uses ho₁).bind fun h₂ now ho₂ => ?_
  refine (audit_silent (uses_lift _) ho₂).bind fun h₃ _ ho₃ => ?_
  have hrevoke : (revokeActiveTokensForReservation r.id).Uses Stmt.silent :=
    now_uses.bind fun _ => silent_query (s := .revokeConnectTokens ..) trivial
  refine (audit_silent hrevoke ho₃).bind fun h₄ revoked ho₄ => ?_
  refine (audit_silent tokenUrlsafe_uses ho₄).bind fun h₅ raw ho₅ => ?_
  exact insertToken_makes ho₅ rfl fun h₆ id ho₆ => ho₆

theorem issueConnectTokenResponse_notes (ho : auditJournal.Owes h 0) (user : User) (r : Reservation)
    (client : Option String) : (issueConnectTokenResponse cfg hashRaw user r client).Ok I
      (auditJournal.rules BrokerError) (fun h' _ => auditJournal.Owes h' 0) h := by
  refine ok_bind.mpr ⟨trivial, fun b q snap cur _ _ => ?_⟩
  have ho₁ := ho.silent (Stmt.silent.journal (s := .getHost r.hostId) trivial) b q snap cur
  generalize (broker.execOn (pendOf h) (Stmt.getHost r.hostId) b q snap cur).2.2 = host
  cases (host : Option Host) with
  | none => trivial
  | some host =>
    refine (issueConnectToken_makes ho₁ user r).bind fun h₂ issued ho₂ => ?_
    refine (audit_silent (auditRevoked_silent user r _) ho₂).bind fun h₃ _ ho₃ => ?_
    refine (writeAudit_notes ?_).bind fun h₄ _ ho₄ => ho₄
    rw [add_zero]
    exact ho₃

theorem owes_of_pend_eq_nil (hp : pendOf h = []) : auditJournal.Owes h 0 := by
  rw [Journal.Owes, hp]
  rfl

theorem verifyConnectToken_notes (raw : String) : (verifyConnectToken hashRaw raw).Ok I
    (auditJournal.rules BrokerError) (fun h' _ => pendOf h' = []) [] := by
  unfold verifyConnectToken
  split_ifs
  · exact rfl
  · exact fun now => ⟨trivial, fun _ _ _ _ _ _ => rfl⟩

theorem hits_nodup {α : Type} {key : α → ℤ} (p : α → Bool) (snap : List α) {cur : List α}
    (hcur : (cur.map key).Nodup) : (Stmt.hits key p snap cur).Nodup :=
  hcur.sublist ((List.filter_sublist.trans List.filter_sublist).map key)

theorem Consistent.tokens_nodup {st : Store} (hst : Consistent st) : (st.tokens.map Token.id).Nodup :=
  List.pairwise_map.mpr (hst.tokens.imp fun hc hid => hc (.inl hid))

/-- What `mark_consumed` answers is what it has consumed. -/
theorem markConsumed_makes (hp : pendOf h = []) (token : Token) :
    (markConsumed token).Ok Consistent (auditJournal.rules BrokerError) (fun h' consumed =>
      auditJournal.Owes h' (if consumed then {consumption token.id} else 0)) h := by
  intro now
  refine ok_bind.mpr ⟨trivial, fun b q snap cur _ hcur => ?_⟩
  have ho : auditJournal.Owes (.now now :: h) 0 := (owes_of_pend_eq_nil hp).now now
  rw [DateTime.instant_utc]
  change auditJournal.Owes _ (if (broker.execOn _ (Stmt.consumeToken token.id now) b q snap cur).2.2 == 1 then _ else 0)
  refine ho.stmt (s := .consumeToken token.id now) ?_
  rw [execOn_eq, pendOf_now, hp]
  change auditJournal.allMade [.consumeTokens (Stmt.hits Token.id _ snap.tokens cur.tokens) now] + 0 =
    (if (Stmt.hits Token.id (Stmt.consumable token.id) snap.tokens cur.tokens).length == 1 then _ else 0) +
      auditJournal.allNoted [.consumeTokens _ now]
  have hnodup := hits_nodup (Stmt.consumable token.id) snap.tokens hcur.tokens_nodup
  have hone : ∀ id ∈ Stmt.hits Token.id (Stmt.consumable token.id) snap.tokens cur.tokens, id = token.id := by
    intro id hid
    obtain ⟨⟨x, -, hx, rfl⟩, -⟩ := mem_hits.mp hid
    simp only [Stmt.consumable, Bool.and_eq_true, beq_iff_eq] at hx
    exact hx.1
  rw [Journal.allMade_singleton, Journal.allNoted_singleton, made_consumeTokens, noted_consumeTokens]
  -- there is one row with the id at most
  generalize Stmt.hits Token.id (Stmt.consumable token.id) snap.tokens cur.tokens = ids at hnodup hone
  rcases ids with _ | ⟨id, _ | ⟨id', ids⟩⟩
  · rfl
  · rw [hone id List.mem_cons_self]
    rfl
  · rw [hone id List.mem_cons_self, hone id' (by simp)] at hnodup
    simp at hnodup

theorem answerVerify_notes {action : String} {targetId : Option ℤ} {detail : Detail} {response : TokenVerifyResponse}
    (ho : auditJournal.Owes h (AuditEntry.notes { action, actorUserId := none, targetId, detail })) :
    (answerVerify action targetId detail response).Ok I (auditJournal.rules BrokerError) (fun _ _ => True) h := by
  refine (writeAudit_notes (m := 0) ?_).bind fun h₁ _ ho₁ => ⟨ho₁, trivial⟩
  rw [add_zero]
  exact ho

theorem verify_notes (raw : String) (consume : Bool) : (verifyTokenEndpoint hashRaw raw consume).Ok Consistent
    (auditJournal.rules BrokerError) (fun _ _ => True) [] := by
  refine ok_bind.mpr (.lift (fun _ _ => ?_) fun _ _ => trivial)
  refine (verifyConnectToken_notes raw).bind fun h₁ found hp => ?_
  have ho := owes_of_pend_eq_nil hp
  cases found with
  | none => exact answerVerify_notes ho
  | some token =>
    cases consume with
    | false => exact answerVerify_notes ho
    | true =>
      refine (markConsumed_makes hp token).bind fun h₂ consumed ho₂ => ?_
      cases consumed with
      | true => exact answerVerify_notes ho₂
      | false => exact answerVerify_notes ho₂

/-- A route that reads commits nothing, and one that cancels or rotates makes nothing. -/
theorem audit_ok (j : Job) : (handle cfg hashRaw j).Ok Consistent (auditJournal.rules BrokerError)
    (fun _ _ => True) [] := by
  have hnil : auditJournal.Owes [] 0 := Journal.owes_nil
  cases j with
  | create user hostId startsAt endsAt =>
    refine ok_bind.mpr (.lift (fun payload _ => ?_) fun _ _ => trivial)
    refine Ok.bind (Q := fun h _ => auditJournal.Owes h 0) (.tryCatch (X := fun _ _ => True) (fun h e _ => ?_)
      (createReservation_notes hnil user _ _ _)) fun h r ho => ⟨ho, ?_⟩
    · cases e <;> trivial
    · change Ok _ _ _ (lift (toRead r) >>= _) _
      exact ok_bind.mpr (.lift (fun _ _ => trivial) fun _ _ => trivial)
  | instant user hostId =>
    refine ok_bind.mpr (.lift (fun _ _ => ?_) fun _ _ => trivial)
    refine Ok.bind (Q := fun h _ => auditJournal.Owes h 0) (.tryCatch (X := fun _ _ => True) (fun h e _ => ?_)
      (createInstantReservation_notes hnil user hostId)) fun h r ho => ?_
    · cases e <;> trivial
    · refine (issueConnectTokenResponse_notes ho user r _).bind fun h₁ _ ho₁ => ?_
      exact (audit_silent (markInUse_silent r) ho₁).bind fun h₂ _ ho₂ => ⟨ho₂, trivial⟩
  | cancel user id =>
    refine Ok.bind (Q := fun h _ => auditJournal.Owes h 0) (.tryCatch (X := fun _ _ => True) (fun h e _ => ?_)
      (audit_silent (cancelReservation_silent user id) hnil)) fun h r ho => ?_
    · cases e <;> trivial
    · exact (audit_silent (releaseHost_silent r) ho).bind fun h₁ _ ho₁ => ⟨ho₁, trivial⟩
  | connect user id client =>
    refine ok_bind.mpr (.lift (fun _ _ => ?_) fun _ _ => trivial)
    refine Ok.bind (Q := fun h _ => auditJournal.Owes h 0) (.tryCatch (X := fun _ _ => True) (fun h e _ => ?_)
      (audit_silent (getReservation_silent user id) hnil)) fun h r ho => ?_
    · cases e <;> trivial
    · exact (issueConnectTokenResponse_notes ho user r _).bind fun h₁ _ ho₁ => ⟨ho₁, trivial⟩
  | verify raw consume => exact verify_notes raw consume
  | rotateAgentToken admin hostId =>
    refine ok_bind.mpr (.lift (fun _ _ => ?_) fun _ _ => trivial)
    refine ok_bind.mpr ⟨trivial, fun b q snap cur _ _ => ?_⟩
    have ho := hnil.silent (Stmt.silent.journal (s := .getHost hostId) trivial) b q snap cur
    generalize (broker.execOn (pendOf []) (Stmt.getHost hostId) b q snap cur).2.2 = host
    cases (host : Option Host) with
    | none => trivial
    | some host => exact (audit_silent (issueAgentToken_silent host admin) ho).bind fun h₁ _ ho₁ => ⟨ho₁, trivial⟩
  | list | calendar | get | available =>
    exact (Uses.ok (K := fun _ => True) (fun _ _ _ => trivial) (fun _ _ _ => trivial)
      (fun _ _ _ _ => ⟨trivial, fun _ _ _ _ => trivial⟩) (fun _ _ _ => trivial)
      (handle_uses_of_read trivial) trivial).mono fun _ _ _ => trivial

end

/-! ## The log -/

/-- What there is to note. -/
def Store.facts (st : Store) : Multiset Note :=
  Multiset.ofList (st.reservations.map Reservation.note) +
    Multiset.ofList ((st.tokens.filter (·.purpose == .connect)).map Token.note) +
    Multiset.ofList ((st.tokens.filter (·.consumedAt.isSome)).map fun t => consumption t.id)

/-- What the log notes. -/
def Store.notes (st : Store) : Multiset Note := (st.auditLogs.map (·.entry.notes)).sum

theorem notes_applyAll (ws : List Write) : ∀ st : Store,
    (broker.applyAll st ws).notes = st.notes + auditJournal.allNoted ws := by
  induction ws with
  | nil => exact fun st => (add_zero _).symm
  | cons w ws ih =>
    intro st
    have hw : (st.apply w).notes = st.notes + auditJournal.noted w := by
      cases w <;> simp [Store.notes, Store.apply, Write.newAuditLogs, auditJournal]
    change (broker.applyAll (st.apply w) ws).notes = _
    rw [ih, hw, Journal.allNoted_cons, add_assoc]

theorem Write.onReservation_note (w : Write) (r : Reservation) : (w.onReservation r).note = r.note := by
  have hev := w.onReservation_evolves r
  simp [Reservation.note, hev.userId, hev.hostId]

theorem Write.onToken_note (w : Write) (t : Token) : (w.onToken t).note = t.note := by
  have hev := w.onToken_evolves t
  simp [Token.note, hev.userId, hev.hostId]

theorem facts_tokens (w : Write) {p : Token → Bool} {f : Token → Note} (hp : ∀ t, p (w.onToken t) = p t)
    (hf : ∀ t, f (w.onToken t) = f t) (ts : List Token) :
    ((ts.map w.onToken).filter p).map f = (ts.filter p).map f := by
  rw [List.filter_map, List.map_map, show p ∘ w.onToken = p from funext hp, show f ∘ w.onToken = f from funext hf]

/-- A write that consumes no token. -/
theorem facts_apply {w : Write} (hw : ∀ ids now, w ≠ .consumeTokens ids now)
    (hnew : ∀ t, w = .insertToken t → t.consumedAt = none) (st : Store) :
    (st.apply w).facts = st.facts + auditJournal.made w := by
  have hres : (st.reservations.map w.onReservation).map Reservation.note = st.reservations.map Reservation.note := by
    rw [List.map_map]
    exact List.map_congr_left fun r _ => w.onReservation_note r
  have hconnect := facts_tokens w (p := (·.purpose == .connect)) (f := Token.note)
    (fun t => by rw [(w.onToken_evolves t).purpose]) w.onToken_note st.tokens
  have hconsumed := facts_tokens w (p := (·.consumedAt.isSome)) (f := fun t => consumption t.id) (fun t => by
    cases w with
    | consumeTokens ids now => exact absurd rfl (hw ids now)
    | revokeTokens => simp only [Write.onToken]; split_ifs <;> rfl
    | _ => rfl) (fun t => by rw [w.onToken_id]) st.tokens
  simp only [Store.facts, Store.apply, List.map_append, List.filter_append, hres, hconnect, hconsumed]
  cases w with
  | consumeTokens ids now => exact absurd rfl (hw ids now)
  | insertReservation r =>
    simp only [Write.newReservations, Write.newTokens, List.map_nil, List.filter_nil, List.append_nil,
      made_insertReservation, ← Multiset.coe_add, List.map_singleton, Multiset.coe_singleton]
    ac_rfl
  | insertToken t =>
    by_cases hp : t.purpose = .connect
    · simp only [Write.newReservations, Write.newTokens, List.map_nil, List.append_nil, made_insertToken, hp, hnew t rfl,
        List.filter_singleton, beq_self_eq_true, Option.isSome_none, Bool.cond_true, Bool.cond_false, if_true,
        ← Multiset.coe_add, List.map_singleton, Multiset.coe_singleton]
      ac_rfl
    · simp [Write.newReservations, Write.newTokens, hp, hnew t rfl]
  | _ => simp [Write.newReservations, Write.newTokens, auditJournal]

/-- The tokens consumed after a write that takes active ones. -/
theorem consumed_perm {st : Store} (hst : Consistent st) {ids : List ℤ} (hids : ids.Nodup)
    (hact : ∀ id ∈ ids, HasActive st id) :
    ((st.tokens.filter fun t => t.consumedAt.isSome || ids.contains t.id).map Token.id).Perm
      ((st.tokens.filter (·.consumedAt.isSome)).map Token.id ++ ids) := by
  have hfresh : ∀ t ∈ st.tokens, ids.contains t.id = true → t.consumedAt.isSome = false := by
    intro t ht hid
    obtain ⟨x, hx, hxid, hxact⟩ := hact t.id (List.contains_iff_mem.mp hid)
    obtain rfl := hst.token_eq hx ht (.inl hxid)
    simpa [Token.active] using (Bool.and_eq_true_iff.mp hxact).2
  have hsplit : (st.tokens.filter fun t => t.consumedAt.isSome || ids.contains t.id).Perm
      (st.tokens.filter (·.consumedAt.isSome) ++ st.tokens.filter fun t => ids.contains t.id) := by
    refine (List.filter_append_perm (·.consumedAt.isSome) _).symm.trans (.of_eq ?_)
    rw [List.filter_filter, List.filter_filter]
    congr 1
    · exact List.filter_congr fun t _ => by cases t.consumedAt.isSome <;> rfl
    · refine List.filter_congr fun t ht => ?_
      cases hid : ids.contains t.id with
      | false => cases t.consumedAt.isSome <;> rfl
      | true => simp [hfresh t ht hid]
  have hrows : ((st.tokens.filter fun t => ids.contains t.id).map Token.id).Perm ids := by
    refine (List.perm_ext_iff_of_nodup (hst.tokens_nodup.sublist (List.filter_sublist.map _)) hids).mpr fun id => ?_
    simp only [List.mem_map, List.mem_filter, List.contains_iff_mem]
    constructor
    · rintro ⟨t, ⟨-, hid⟩, rfl⟩
      exact hid
    · intro hid
      obtain ⟨t, ht, rfl, -⟩ := hact id hid
      exact ⟨t, ⟨ht, hid⟩, rfl⟩
  exact (hsplit.map _).trans (by rw [List.map_append]; exact hrows.append_left _)

/-- A write that consumes active tokens. -/
theorem facts_consume {st : Store} (hst : Consistent st) {ids : List ℤ} (hids : ids.Nodup)
    (hact : ∀ id ∈ ids, HasActive st id) (now : ℤ) :
    (st.apply (.consumeTokens ids now)).facts = st.facts + ids.map consumption := by
  have hconnect := facts_tokens (.consumeTokens ids now) (p := (·.purpose == .connect)) (f := Token.note)
    (fun t => by rw [((Write.consumeTokens ids now).onToken_evolves t).purpose]) (Write.onToken_note _) st.tokens
  have hafter : ∀ t, ((Write.consumeTokens ids now).onToken t).consumedAt.isSome =
      (t.consumedAt.isSome || ids.contains t.id) := by
    intro t
    cases hid : ids.contains t.id <;> simp only [Write.onToken, hid] <;> simp
  have hconsumed : Multiset.ofList (((st.tokens.map (Write.consumeTokens ids now).onToken).filter
      (·.consumedAt.isSome)).map fun t => consumption t.id) =
      Multiset.ofList ((st.tokens.filter (·.consumedAt.isSome)).map fun t => consumption t.id) +
        Multiset.ofList (ids.map consumption) := by
    have hperm := (consumed_perm hst hids hact).map consumption
    rw [List.map_append, List.map_map, List.map_map] at hperm
    rw [Multiset.coe_add, Multiset.coe_eq_coe, List.filter_map, List.map_map]
    refine (List.Perm.of_eq ?_).trans hperm
    rw [show (fun t => Option.isSome t.consumedAt) ∘ (Write.consumeTokens ids now).onToken = _ from funext hafter]
    exact List.map_congr_left fun t _ => congrArg consumption (Write.onToken_id _ t)
  simp only [Store.facts, Store.apply, Write.newReservations, Write.newTokens, List.append_nil, hconnect, hconsumed]
  rw [show st.reservations.map (Write.consumeTokens ids now).onReservation = st.reservations from List.map_id _]
  ac_rfl

/-- Writes that consume no token. -/
theorem facts_applyAll {ws : List Write} (hw : ∀ w ∈ ws, ∀ ids now, w ≠ .consumeTokens ids now)
    (hnew : ∀ t, .insertToken t ∈ ws → t.consumedAt = none) : ∀ st : Store,
    (broker.applyAll st ws).facts = st.facts + auditJournal.allMade ws := by
  induction ws with
  | nil => exact fun st => (add_zero _).symm
  | cons w ws ih =>
    intro st
    change (broker.applyAll (st.apply w) ws).facts = _
    rw [ih (fun w' hw' => hw w' (List.mem_cons_of_mem _ hw')) (fun t ht => hnew t (List.mem_cons_of_mem _ ht)),
      facts_apply (hw w List.mem_cons_self) (fun t ht => hnew t (ht ▸ List.mem_cons_self)), Journal.allMade_cons,
      add_assoc]

/-! ## Runs -/

section
variable {cfg : Settings} {hashRaw : String → String} {C : System → Label Job ℤ String → Prop} {db : Store}
  {aux : Seqs} {clock : ℤ} {s : System}

/-- A transaction consumes tokens first of all, or not at all. -/
theorem pend_consumptions {j : Job} {h : History} {I : Store → Prop} (hk : Kept I (rules cfg j) h) :
    (∀ w ∈ pendOf h, ∀ ids t, w ≠ .consumeTokens ids t) ∨ ∃ ids t ws, pendOf h = .consumeTokens ids t :: ws ∧
      ∀ w ∈ ws, ∀ ids t, w ≠ .consumeTokens ids t := by
  have hone : (pendOf h).Pairwise fun _ w => ∀ ids t, w ≠ .consumeTokens ids t := by
    refine pend_pairwise (fun h s b q snap cur hs w' hw' w hw ids t => ?_) hk
    rintro rfl
    obtain ⟨id, rfl, -⟩ := writes_consumeTokens hw'
    simp [hs.1] at hw
  cases hp : pendOf h with
  | nil => exact .inl (by simp)
  | cons w ws =>
    rw [hp, List.pairwise_cons] at hone
    by_cases hw : ∃ ids t, w = .consumeTokens ids t
    · obtain ⟨ids, t, rfl⟩ := hw
      exact .inr ⟨ids, t, ws, rfl, hone.1⟩
    · exact .inl (List.forall_mem_cons.mpr ⟨fun ids t he => hw ⟨ids, t, he⟩, hone.1⟩)

/-- The pending consumption is of distinct rows. -/
theorem pending_consumption {j : Job} {h : History} (hk : Kept Consistent (rules cfg j) h) {ids : List ℤ} {t : ℤ}
    (hw : .consumeTokens ids t ∈ pendOf h) : ids.Nodup := by
  obtain ⟨s, b, q, snap, cur, h₀, -, ⟨-, hpre⟩, -, hcur, hw, -⟩ := hk.origin hw
  obtain ⟨id, rfl, rfl⟩ := writes_consumeTokens hw
  rw [hpre.1]
  exact hits_nodup _ _ hcur.tokens_nodup

/-- A commit makes what it says it makes. -/
theorem facts_commit (hdb : Consistent db) (h : Reach (app cfg hashRaw) C ⟨db, aux, clock, []⟩ s) {i : ℕ}
    {r : Req broker Job BrokerError Reply} (hr : s.reqs[i]? = some r) (hended : r.ended = false)
    (hk : Kept Consistent (rules cfg r.job) r.log) :
    (broker.applyAll s.db (pendOf r.log)).facts = s.db.facts + auditJournal.allMade (pendOf r.log) := by
  have hnew : ∀ t, .insertToken t ∈ pendOf r.log → t.consumedAt = none := by
    intro t ht
    obtain ⟨new, id, rfl, -⟩ := pending_token hk ht
    rfl
  rcases pend_consumptions hk with hnone | ⟨ids, t, ws, hpend, hws⟩
  · exact facts_applyAll hnone hnew s.db
  · have hw : .consumeTokens ids t ∈ pendOf r.log := hpend ▸ List.mem_cons_self
    have hact : ∀ id ∈ ids, HasActive s.db id := fun id hid =>
      (once_of_reach hdb h).pend i r hr (.consumeTokens ids t) (Req.pend_of_not_ended hended ▸ hw) id hid
    rw [hpend]
    change (broker.applyAll (s.db.apply (.consumeTokens ids t)) ws).facts = _
    rw [facts_applyAll hws fun t ht => hnew t (hpend ▸ List.mem_cons_of_mem _ ht),
      facts_consume (consistent_of_reach hdb h) (pending_consumption hk hw) hact, Journal.allMade_cons, add_assoc]
    rfl

/-- **The audit log is complete, and says nothing else**: in any interleaving the
    bookings, the connect tokens and the consumed tokens are, one for one, what its
    rows say of them. -/
theorem audited_of_reach (hdb : Consistent db) (h0 : db.facts = db.notes)
    (h : Reach (app cfg hashRaw) Any ⟨db, aux, clock, []⟩ s) : s.db.facts = s.db.notes := by
  refine h.store_inv (P := fun _ (st : Store) => st.facts = st.notes) (fun _ _ _ _ h => h)
    (fun s₁ i r k h₁ _ hr hp ih => ?_) h0
  have hreq := (sound_and_of_reach (W := fun _ => auditJournal.rules BrokerError) (Q := fun _ _ _ => True) audit_ok
    (fun _ _ => trivial) hdb h₁).req i r hr
  have hok := hreq.ok
  rw [hp] at hok
  have howes : auditJournal.allMade (pendOf r.log) = 0 + auditJournal.allNoted (pendOf r.log) := hok.1.2
  rw [facts_commit hdb h₁ hr (by simp [Req.ended, hp]) hreq.kept.left, notes_applyAll, howes, zero_add, ih]

end

/-- A booking in use at once, and its token consumed: three rows of the log. -/
theorem audited_of_reach_room : ∃ s : System, s.db.notes.card = 3 ∧ s.db.facts = s.db.notes := by
  have hrun : (play (app {} id) Any ⟨room, {}, 0, []⟩
      [.arrive (.instant ⟨1, .user, "mock"⟩ 1), .steps 0 "a-token-of-sixteen" 60,
        .arrive (.verify "a-token-of-sixteen" true), .steps 1 "" 20]).any
      (fun s => s.db.notes.card == 3) = true := by decide
  obtain ⟨s, hs, hcard⟩ := Reach.of_play_any hrun
  exact ⟨s, beq_iff_eq.mp hcard, audited_of_reach room_consistent (by decide) hs⟩

end SmartClassroom
