/-
  Logins, and the requests with a session cookie: what one request knows.

  * An account that a request has read or written is the account of its
    identity, and keeps its role (`Account.Keeps`, `Account.Known`).
  * A program that acts for an account has read it in a session that its cookie
    opens (`ActsAs`, `portalRules`).

  What follows from these rules in every interleaving is in `Sessions`.
-/
import SmartClassroom.Accounts
import SmartClassroom.Attribution
import SmartClassroom.Credentials
import SmartClassroom.Lib.Embedding

namespace SmartClassroom

open Txn Prog

/-! ## Tables -/

/-- The rows of the audit log stay as they are. -/
def auditTable : Table broker AuditLog where
  rows := Store.auditLogs
  upd _ a := a
  new := Write.newAuditLogs
  rows_apply st w := by rw [List.map_id']; rfl

/-- `tokens`, without the accounts and with them. -/
def classroomTokens : Table classroom Token := tokenTable.lift more fun _ _ => rfl

def campusTokens : Table campus Token := classroomTokens.lift directory fun _ _ => rfl

/-- `reservations`. -/
def classroomReservations : Table classroom Reservation := reservationTable.lift more fun _ _ => rfl

def campusReservations : Table campus Reservation := classroomReservations.lift directory fun _ _ => rfl

/-- `audit_logs`. -/
def campusAudit : Table campus AuditLog :=
  (auditTable.lift more fun _ _ => rfl).lift directory fun _ _ => rfl

/-- `users`. -/
def accountTable : Table campus Account where
  rows st := st.2
  upd w a := match w with
    | .inl _ => a
    | .inr w => w.onAccount a
  new w := match w with
    | .inl _ => []
    | .inr w => w.newAccounts
  rows_apply st w := match w with
    | .inl _ => by rw [List.map_id', List.append_nil]; rfl
    | .inr _ => rfl

section
variable {w : campus.Write}

/-- A row is added by its INSERT. -/
theorem eq_insertReservation {r : Reservation} (hr : r ∈ campusReservations.new w) :
    w = .inl (.inl (.insertReservation r)) := by
  rcases w with (w | w) | w
  · cases w with
    | insertReservation => rw [List.mem_singleton.mp hr]
    | _ => exact absurd hr List.not_mem_nil
  · exact absurd hr List.not_mem_nil
  · exact absurd hr List.not_mem_nil

theorem eq_insertToken {t : Token} (ht : t ∈ campusTokens.new w) : w = .inl (.inl (.insertToken t)) := by
  rcases w with (w | w) | w
  · cases w with
    | insertToken => rw [List.mem_singleton.mp ht]
    | _ => exact absurd ht List.not_mem_nil
  · exact absurd ht List.not_mem_nil
  · exact absurd ht List.not_mem_nil

theorem eq_insertAudit {x : AuditLog} (hx : x ∈ campusAudit.new w) : w = .inl (.inl (.insertAudit x)) := by
  rcases w with (w | w) | w
  · cases w with
    | insertAudit => rw [List.mem_singleton.mp hx]
    | _ => exact absurd hx List.not_mem_nil
  · exact absurd hx List.not_mem_nil
  · exact absurd hx List.not_mem_nil

theorem eq_insertUser {a : Account} (ha : a ∈ accountTable.new w) : w = .inr (.insertUser a) := by
  rcases w with w | w
  · exact absurd ha List.not_mem_nil
  · cases w with
    | insertUser => rw [List.mem_singleton.mp ha]
    | updateProfile => exact absurd ha List.not_mem_nil

/-- A row is canceled by an UPDATE with its id. -/
theorem eq_cancelReservations {r : Reservation} (hr : r.status ≠ .canceled)
    (hcan : (campusReservations.upd w r).status = .canceled) :
    ∃ ids now, w = .inl (.inl (.cancelReservations ids now)) ∧ r.id ∈ ids := by
  rcases w with (w | w) | w
  · cases w with
    | cancelReservations ids now =>
      refine ⟨ids, now, rfl, by_contra fun hnot => hr ?_⟩
      change (Write.onReservation (.cancelReservations ids now) r).status = .canceled at hcan
      simpa [Write.onReservation, hnot] using hcan
    | _ => exact absurd hcan hr
  · exact absurd hcan hr
  · exact absurd hcan hr

end

/-- What a row of `users` keeps: all but its profile. -/
structure Account.Keeps (a a' : Account) : Prop where
  id : a'.id = a.id
  provider : a'.provider = a.provider
  externalId : a'.externalId = a.externalId
  role : a'.role = a.role

theorem Account.Keeps.refl (a : Account) : a.Keeps a := ⟨rfl, rfl, rfl, rfl⟩

theorem Account.Keeps.trans {a a' a'' : Account} (h : a.Keeps a') (h' : a'.Keeps a'') : a.Keeps a'' :=
  ⟨h'.id.trans h.id, h'.provider.trans h.provider, h'.externalId.trans h.externalId, h'.role.trans h.role⟩

theorem Account.Keeps.symm {a a' : Account} (h : a.Keeps a') : a'.Keeps a :=
  ⟨h.id.symm, h.provider.symm, h.externalId.symm, h.role.symm⟩

theorem Account.Keeps.isOf {a a' : Account} (h : a.Keeps a') (i : UserIdentity) : a'.isOf i = a.isOf i := by
  rw [Account.isOf, Account.isOf, h.provider, h.externalId]

theorem AccountWrite.onAccount_keeps (w : AccountWrite) (a : Account) : a.Keeps (w.onAccount a) := by
  unfold onAccount
  split
  · split_ifs
    · exact ⟨rfl, rfl, rfl, rfl⟩
    · exact .refl a
  · exact .refl a

theorem accountTable_upd (w : campus.Write) (a : Account) : a.Keeps (accountTable.upd w a) := by
  cases w with
  | inl w => exact .refl a
  | inr w => exact w.onAccount_keeps a

theorem classroomTokens_versions : Versions classroomTokens Token.Evolves :=
  Table.versions_lift tokens_versions

theorem campusTokens_versions : Versions campusTokens Token.Evolves :=
  Table.versions_lift classroomTokens_versions

theorem campusReservations_versions : Versions campusReservations Reservation.Evolves :=
  Table.versions_lift (Table.versions_lift reservations_versions)

theorem campusAudit_versions : Versions campusAudit Eq :=
  Table.versions_lift (Table.versions_lift ⟨fun _ => rfl, fun h h' => h.trans h', fun _ _ => rfl⟩)

theorem accountTable_versions : Versions accountTable Account.Keeps := ⟨.refl, .trans, accountTable_upd⟩

/-- `st'` comes after `st`. -/
structure Aged (st st' : campus.Store) : Prop where
  reservations : campusReservations.Carries Reservation.Evolves st st'
  tokens : campusTokens.Carries Token.Evolves st st'
  accounts : accountTable.Carries Account.Keeps st st'

theorem aged_grows : Grows Aged where
  refl st := ⟨campusReservations_versions.grows.refl st, campusTokens_versions.grows.refl st,
    accountTable_versions.grows.refl st⟩
  trans h h' := ⟨campusReservations_versions.grows.trans h.1 h'.1, campusTokens_versions.grows.trans h.2 h'.2,
    accountTable_versions.grows.trans h.3 h'.3⟩
  apply st w := ⟨campusReservations_versions.grows.apply st w, campusTokens_versions.grows.apply st w,
    accountTable_versions.grows.apply st w⟩

/-! ## One account for an identity -/

/-- The primary key or `uq_users_provider_external` forbids both rows. -/
def Account.Clashes (a b : Account) : Prop :=
  a.id = b.id ∨ a.provider = b.provider ∧ a.externalId = b.externalId

theorem Account.Clashes.symm {a b : Account} (h : a.Clashes b) : b.Clashes a := h.imp Eq.symm fun h => ⟨h.1.symm, h.2.symm⟩

theorem Account.Keeps.clashes {a a' b : Account} (h : a.Keeps a') : a'.Clashes b ↔ a.Clashes b := by
  rw [Clashes, Clashes, h.id, h.provider, h.externalId]

theorem row_clashes_iff {i : UserIdentity} {id : ℤ} {a : Account} :
    (i.row id).Clashes a ↔ id = a.id ∨ a.isOf i = true := by
  simp only [Account.Clashes, UserIdentity.row, Account.isOf, Bool.and_eq_true, beq_iff_eq]
  tauto

/-- The upsert: rejected, or it finds the account of the identity, or adds it. -/
theorem exec_upsertUser (i : UserIdentity) (b : ℤ) (q : campus.Aux) (snap cur : campus.Store) :
    ((AccountStmt.upsertUser i).exec b q snap cur).2 = ([], none) ∨
    (∃ a ∈ cur.2, a.isOf i = true ∧ ((AccountStmt.upsertUser i).exec b q snap cur).2 =
      ([.inr (.updateProfile [a.id] i.displayName i.email)], some a.id)) ∨
    (∀ a ∈ cur.2, ¬(i.row q.2).Clashes a) ∧ ((AccountStmt.upsertUser i).exec b q snap cur).2 =
      ([.inr (.insertUser (i.row q.2))], some q.2) := by
  simp only [AccountStmt.exec]
  by_cases hfits : i.fits = false
  · exact .inl (by rw [if_pos hfits])
  · rw [if_neg hfits]
    cases hfind : cur.2.find? (·.isOf i) with
    | some a => exact .inr (.inl ⟨a, List.mem_of_find?_eq_some hfind, List.find?_some hfind, rfl⟩)
    | none =>
      by_cases hid : (cur.2.any fun a => a.id == q.2) = true
      · exact .inl (by dsimp only; rw [if_pos hid])
      · refine .inr (.inr ⟨fun a ha hc => ?_, by dsimp only; rw [if_neg hid]⟩)
        rcases row_clashes_iff.mp hc with he | he
        · exact hid (List.any_eq_true.mpr ⟨a, ha, beq_iff_eq.mpr he.symm⟩)
        · exact List.find?_eq_none.mp hfind a ha he

/-- Rows are added to `users` by the upsert alone, for an identity without one. -/
theorem mem_newAccounts {s : campus.Stmt} {b : ℤ} {q : campus.Aux} {snap cur : campus.Store} {p : Account}
    (hp : p ∈ accountTable.newAll (campus.exec s b q snap cur).2.1) : ∃ i, s = .inr (.upsertUser i) ∧
      p = i.row q.2 ∧ ∀ a ∈ cur.2, ¬p.Clashes a := by
  cases s with
  | inl s =>
    have hnone : accountTable.newAll ((classroom.exec s b q.1 snap.1 cur.1).2.1.map .inl) = [] :=
      accountTable.newAll_eq_nil fun w hw => by
        obtain ⟨w, -, rfl⟩ := List.mem_map.mp hw
        rfl
    exact absurd (hnone ▸ hp) List.not_mem_nil
  | inr s =>
    cases s with
    | getUser | sessionAccount => exact absurd hp List.not_mem_nil
    | upsertUser i =>
      change p ∈ accountTable.newAll ((AccountStmt.upsertUser i).exec b q snap cur).2.1 at hp
      rcases exec_upsertUser i b q snap cur with hexec | ⟨a, -, -, hexec⟩ | ⟨hnew, hexec⟩
      · rw [hexec] at hp
        exact absurd hp List.not_mem_nil
      · rw [hexec] at hp
        exact absurd hp List.not_mem_nil
      · rw [hexec] at hp
        obtain rfl := List.mem_singleton.mp hp
        exact ⟨i, rfl, rfl, hnew⟩

/-! ## What a request has done -/

abbrev CampusLog := List (Ev campus)

/-- A version of the account was there, or the request has inserted it. -/
def Account.Known (h : CampusLog) (a : Account) : Prop := ∃ y : Account, y.Keeps a ∧
  ((∃ s b q snap cur, .stmt s b q snap cur ∈ h ∧ (y ∈ snap.2 ∨ y ∈ cur.2)) ∨ .inr (.insertUser y) ∈ pendOf h)

section
variable (hashRaw : String → String)

/-- A valid session of the account with the cookie was there. -/
def Identified (h : CampusLog) (raw : String) (a : Account) : Prop := raw ≠ "" ∧
  ∃ now b q snap cur, .stmt (.inr (.sessionAccount (hashRaw raw) now)) b q snap cur ∈ h ∧ a ∈ snap.2 ∧
    ∃ t ∈ snap.1.1.tokens, Stmt.valid .session (hashRaw raw) now t = true ∧ t.userId = a.id

/-- The request acts for the account. -/
def ActsAs (j : PortalJob) (h : CampusLog) (a : Account) : Prop :=
  match j with
  | .callback body _ => a.Known h ∧ ∃ i, verifyCallback body = .ok i ∧ a.isOf i = true
  | .logout cookie | .me cookie | .asUser cookie _ => ∃ raw, cookie = some raw ∧ Identified hashRaw h raw a
  | .verify .. => False

/-- The request has seen the reservation, of the account unless it is an admin's. -/
def MayStrike (h : CampusLog) (id : ℤ) (a : Account) : Prop :=
  ∃ b q snap cur, .stmt (.inl (.inl (.getReservation id))) b q snap cur ∈ h ∧
    ∃ r ∈ snap.1.1.reservations, r.id = id ∧ (a.role = .admin ∨ r.userId = a.id)

/-- The cookie was drawn for the session. -/
def Opens (j : PortalJob) (h : CampusLog) (t : NewToken) : Prop :=
  (∃ body wantsHtml, j = .callback body wantsHtml) ∧ ∃ raw, .draw raw ∈ h ∧ t.jti = hashRaw raw

/-- The sessions with the cookie were revoked. -/
def Ended (h : CampusLog) (raw : String) : Prop :=
  ∃ now b q snap cur, .stmt (.inl (.inr (.revokeSession (hashRaw raw) now))) b q snap cur ∈ h ∧
    (Stmt.hits Token.id (MoreStmt.sessionOf (hashRaw raw)) snap.1.1.tokens cur.1.1.tokens ≠ [] →
      .inl (.inl (.revokeTokens (Stmt.hits Token.id (MoreStmt.sessionOf (hashRaw raw)) snap.1.1.tokens
        cur.1.1.tokens) now)) ∈ doneOf h)

/-- What comes before a statement. -/
def portalPre (j : PortalJob) (h : CampusLog) : campus.Stmt → Prop
  | .inl (.inl (.insertReservation userId _ s e)) =>
    pendOf h = [] ∧ s < e ∧ ∃ a, ActsAs hashRaw j h a ∧ a.id = userId
  | .inl (.inl (.cancelReservation id _)) => ∃ a, ActsAs hashRaw j h a ∧ MayStrike h id a
  | .inl (.inl (.insertToken t)) => (∃ a, ActsAs hashRaw j h a ∧ a.id = t.userId ∧
      (t.purpose = .agent → a.role = .admin)) ∧ (t.purpose = .session → Opens hashRaw j h t)
  | .inl (.inl (.insertAudit e)) =>
    ∀ userId, e.actorUserId = some userId → ∃ a, ActsAs hashRaw j h a ∧ a.id = userId
  | _ => True

/-- A request behind `get_current_user` commits for an account. -/
def portalRules (j : PortalJob) : Rules campus BrokerError where
  stmt h s := portalPre hashRaw j h s
  commit h := match j with
    | .asUser .. | .me _ => ∃ a, ActsAs hashRaw j h a
    | _ => True
  raise _ _ := True

/-- What an answer says of the history of its request. -/
def portalAnswers (j : PortalJob) (h : CampusLog) (reply : PortalReply) : Prop :=
  match j, reply with
  | .callback _ _, .loggedIn _ (some (user, _)) => ∃ h₁ a, .commit :: h₁ <:+ h ∧ user.Known h₁ ∧
      ActsAs hashRaw j h₁ a ∧ a.id = user.id
  | .me _, _ => ∃ user, reply = .me user ∧ ActsAs hashRaw j h user
  | .asUser .., _ => ∃ a, ActsAs hashRaw j h a
  | .logout (some raw), .loggedOut => raw = "" ∨ Ended hashRaw h raw
  | _, _ => True

end

/-! ## Going on -/

/-- `h'` goes on from `h`, and what is pending stays so. -/
def Continues (h h' : CampusLog) : Prop := h <:+ h' ∧ pendOf h ⊆ pendOf h'

theorem Continues.refl (h : CampusLog) : Continues h h := ⟨List.suffix_rfl, List.Subset.refl _⟩

section
variable {hashRaw : String → String} {j : PortalJob} {h h' : CampusLog} {a : Account}

theorem Continues.now (hc : Continues h h') (t : ℤ) : Continues h (.now t :: h') :=
  ⟨hc.1.trans (List.suffix_cons _ _), hc.2⟩

theorem Continues.draw (hc : Continues h h') (n : String) : Continues h (.draw n :: h') :=
  ⟨hc.1.trans (List.suffix_cons _ _), hc.2⟩

theorem Continues.stmt (hc : Continues h h') (s : campus.Stmt) (b : ℤ) (q : campus.Aux) (snap cur : campus.Store) :
    Continues h (.stmt s b q snap cur :: h') :=
  ⟨hc.1.trans (List.suffix_cons _ _), List.Subset.trans hc.2 (List.subset_append_left _ _)⟩

theorem Account.Known.mono (hc : Continues h h') (hk : a.Known h) : a.Known h' := by
  obtain ⟨y, hya, ⟨s, b, q, snap, cur, hmem, hy⟩ | hy⟩ := hk
  · exact ⟨y, hya, .inl ⟨s, b, q, snap, cur, hc.1.subset hmem, hy⟩⟩
  · exact ⟨y, hya, .inr (hc.2 hy)⟩

theorem Identified.mono (hs : h <:+ h') {raw : String} (hi : Identified hashRaw h raw a) :
    Identified hashRaw h' raw a := by
  obtain ⟨hne, now, b, q, snap, cur, hmem, hi⟩ := hi
  exact ⟨hne, now, b, q, snap, cur, hs.subset hmem, hi⟩

theorem ActsAs.mono (hc : Continues h h') (ha : ActsAs hashRaw j h a) : ActsAs hashRaw j h' a := by
  cases j with
  | callback body wantsHtml => exact ⟨ha.1.mono hc, ha.2⟩
  | logout cookie | me cookie | asUser cookie request =>
    obtain ⟨raw, hraw, hi⟩ := ha
    exact ⟨raw, hraw, hi.mono hc.1⟩
  | verify => exact ha.elim

end

/-! ## The routes -/

section
variable {auth : AuthSettings} {cfg : Settings} {hashRaw : String → String} {j : PortalJob} {h : CampusLog}
  {I : campus.Store → Prop}

/-- The statement is one of `broker`, in `P`. -/
def onBroker (P : Stmt → Prop) : campus.Stmt → Prop
  | .inl (.inl s) => P s
  | _ => False

theorem onCampus_uses {α : Type} {P : Stmt → Prop} {p : Service α} (hp : p.Uses P) :
    (onCampus p).Uses (onBroker P) :=
  Uses.embed (P := onBroker P) (Uses.embed (P := fun s => onBroker P (.inl s)) hp)

theorem continues_ok {α : Type} {p : Portal α} {P : campus.Stmt → Prop} (hp : p.Uses P)
    (hP : ∀ h' s, Continues h h' → P s → portalPre hashRaw j h' s) :
    p.Ok I (portalRules hashRaw j) (fun h' _ => Continues h h') h :=
  Uses.ok (K := Continues h) (fun _ t hc => hc.now t) (fun _ n hc => hc.draw n)
    (fun _ s hc hs => ⟨hP _ s hc hs, fun b q snap cur => hc.stmt s b q snap cur⟩) (fun _ _ _ => trivial) hp (.refl h)

theorem writeAudit_acts {e : AuditEntry}
    (he : ∀ userId, e.actorUserId = some userId → ∃ a, ActsAs hashRaw j h a ∧ a.id = userId) :
    (onCampus (writeAudit e)).Ok I (portalRules hashRaw j) (fun h' _ => Continues h h') h := by
  have hquery : (execute (.insertAudit e)).Uses fun s => s = Stmt.insertAudit e := uses_query (D := broker) rfl
  have huses : (writeAudit e).Uses fun s => s = Stmt.insertAudit e := hquery.bind fun _ => orRaise_uses _
  refine continues_ok (onCampus_uses huses) fun h' s hc hs => ?_
  rcases s with (s | s) | s
  · obtain rfl : s = .insertAudit e := hs
    intro userId hid
    obtain ⟨a, ha, hid⟩ := he userId hid
    exact ⟨a, ha.mono hc, hid⟩
  · exact hs.elim
  · exact hs.elim

/-- The account of the cookie is the one of a valid session. -/
theorem identify_ok (cookie : Option String) : (identify hashRaw cookie).Ok I (portalRules hashRaw j)
    (fun h' user => pendOf h' = [] ∧ doneOf h' = [] ∧ ∀ a ∈ user, ∃ raw, cookie = some raw ∧ Identified hashRaw h' raw a)
    [] := by
  have hnone : ∀ user : Option Account, user = none → ∀ a ∈ user, ∃ raw, cookie = some raw ∧
      Identified hashRaw [] raw a := by
    rintro _ rfl a ha
    cases ha
  unfold identify
  split
  · exact ⟨rfl, rfl, hnone none rfl⟩
  · exact ⟨rfl, rfl, hnone none rfl⟩
  · rename_i raw hne
    intro now
    refine ok_bind.mpr ⟨trivial, fun b q snap cur _ _ => ⟨rfl, rfl, fun a ha => ⟨raw, rfl, ?_⟩⟩⟩
    change (AccountStmt.exec (.sessionAccount (hashRaw raw) _) b q snap cur).2.2 = some a at ha
    simp only [AccountStmt.exec, Option.bind_eq_some_iff] at ha
    obtain ⟨u, hu, hfind⟩ := ha
    have hid : a.id = u.id := by simpa using List.find?_some hfind
    obtain ⟨t, ht, hut⟩ := List.exists_of_findSome?_eq_some hu
    obtain ⟨-, huid, -⟩ := MoreStmt.find_user hut
    obtain ⟨ht, hvalid⟩ := List.mem_filter.mp ht
    refine ⟨fun h => hne h, _, b, q, snap, cur, List.mem_cons_of_mem _ List.mem_cons_self,
      List.mem_of_find?_eq_some hfind, t, ht, hvalid, ?_⟩
    rw [hid, huid]

/-! ### The services of `broker` -/

/-- No reservation has an empty range. -/
def RangesKept (st : campus.Store) : Prop := RangesNonempty st.1.1

/-- Pending writes of the broker's services, when nothing is pending before. -/
theorem pendOf_eq_nil_of_inside {h₀ h' : CampusLog} {h₁ : List (Ev classroom)} {h₂ : History} (hp₀ : pendOf h₀ = [])
    (h₁₂ : Inside [] h₂ h₁) (h₀₁ : Inside h₀ h₁ h') (hp : pendOf h₂ = []) : pendOf h' = [] := by
  rw [(h₀₁.writes hp₀).1, (h₁₂.writes rfl).1, hp]
  rfl

/-- What a route's statement needs, from the rules it keeps over `broker`. -/
theorem portalPre_of_rules {j₀ : Job} {h₀ h' : CampusLog} {h₁ : List (Ev classroom)} {h₂ : History} {s : Stmt}
    (hp₀ : pendOf h₀ = []) (h₁₂ : Inside [] h₂ h₁) (h₀₁ : Inside h₀ h₁ h') (hpre : pre cfg j₀ h₂ s)
    (hname : s.inName j₀.actor) (hacts : ∀ user, j₀.actor = some user → ∃ a : Account, a.user = user ∧ ActsAs hashRaw j h' a) :
    portalPre hashRaw j h' (.inl (.inl s)) := by
  cases s with
  | insertReservation userId hostId s e =>
    obtain ⟨hp, startsAt, endsAt, rfl, rfl, hb, -⟩ := hpre
    obtain ⟨user, hactor, rfl⟩ := hname
    obtain ⟨a, rfl, ha⟩ := hacts user hactor
    exact ⟨pendOf_eq_nil_of_inside hp₀ h₁₂ h₀₁ hp, hb.lt, a, ha, rfl⟩
  | cancelReservation id now =>
    obtain ⟨-, -, user, r, snap, cur, rfl, ⟨b, q, hran⟩, hr, hid, -, hmay⟩ := hpre
    obtain ⟨a, rfl, ha⟩ := hacts user rfl
    obtain ⟨q₁, snap₁, cur₁, hran₁, rfl, -⟩ := h₁₂.stmt_mem hran
    obtain ⟨q', snap', cur', hran', rfl, -⟩ := h₀₁.stmt_mem hran₁
    exact ⟨a, ha, b, q', snap', cur', hran', r, hr, hid, hmay⟩
  | insertToken t =>
    obtain ⟨hsession, user, hactor, hid, hadmin⟩ := hname
    obtain ⟨a, rfl, ha⟩ := hacts user hactor
    exact ⟨⟨a, ha, hid, hadmin⟩, fun h => absurd h hsession⟩
  | insertAudit e =>
    intro userId hid
    obtain ⟨user, hactor, rfl⟩ := hname userId hid
    obtain ⟨a, rfl, ha⟩ := hacts user hactor
    exact ⟨a, ha, rfl⟩
  | _ => trivial

/-- A route of the broker, for an account. -/
theorem handle_portal_ok {j₀ : Job} {h₀ : CampusLog} (hp₀ : pendOf h₀ = [])
    (hacts : ∀ h', h₀ <:+ h' → ∀ user, j₀.actor = some user → ∃ a : Account, a.user = user ∧ ActsAs hashRaw j h' a)
    (hcommit : ∀ h', h₀ <:+ h' → (portalRules hashRaw j).commit h') :
    (onCampus (handle cfg hashRaw j₀)).Ok RangesKept (portalRules hashRaw j)
      (fun h' _ => h₀ <:+ h') h₀ := by
  have hrules : (onCampus (handle cfg hashRaw j₀)).Ok RangesKept
      (((rules cfg j₀).after []).after h₀) _ h₀ :=
    ((handle_ok j₀).embed rfl (.refl [])).embed hp₀ (.refl h₀)
  let W : Rules campus BrokerError :=
    ⟨fun h' s => h₀ <:+ h' ∧ onBroker (Stmt.inName j₀.actor) s, fun h' => h₀ <:+ h', fun _ _ => True⟩
  have honly : (onCampus (handle cfg hashRaw j₀)).Only (onBroker (Stmt.inName j₀.actor)) :=
    Only.embed (P := onBroker _) (Only.embed (P := fun s => onBroker _ (.inl s)) (handle_inName j₀))
  have hname : (onCampus (handle cfg hashRaw j₀)).Ok RangesKept W (fun h' _ => h₀ <:+ h') h₀ :=
    Only.ok (W := W) (K := fun h' => h₀ <:+ h') (fun _ t hK => hK.trans (List.suffix_cons _ _))
      (fun _ n hK => hK.trans (List.suffix_cons _ _))
      (fun _ s hK hs => ⟨⟨hK, hs⟩, fun b q snap cur => hK.trans (List.suffix_cons _ _)⟩)
      (fun _ hK => ⟨hK, hK.trans (List.suffix_cons _ _)⟩) (fun _ hK => hK.trans (List.suffix_cons _ _))
      (fun _ _ _ => trivial) honly List.suffix_rfl
  refine ((hrules.and hname).rules ?_ (fun h' hc => hcommit h' (And.right hc)) fun _ _ _ => trivial).mono
    fun _ _ hQ => hQ.2
  rintro h' s ⟨⟨h₁, h₀₁, s₁, rfl, h₂, h₁₂, s₂, rfl, hs⟩, hsuf, hin⟩
  exact portalPre_of_rules hp₀ h₁₂ h₀₁ hs.2 hin (hacts h' hsuf)

theorem getCurrentUser_none (a : Account) : getCurrentUser auth none ≠ .ok a := by
  unfold getCurrentUser
  dsimp only
  generalize getActiveProvider auth.authProvider >>= AuthProvider.initiateLogin = url
  rcases url with (_ | _) | _ <;> exact nofun

theorem asUser_ok (cookie : Option String) (request : UserRequest) :
    (asUser auth cfg hashRaw cookie request).Ok RangesKept
      (portalRules hashRaw (.asUser cookie request)) (portalAnswers hashRaw (.asUser cookie request)) [] := by
  refine (identify_ok cookie).bind ?_
  rintro h₀ user ⟨hp₀, -, huser⟩
  cases user with
  | none => exact ok_bind.mpr (.lift (fun a ha => absurd ha (getCurrentUser_none a)) fun _ _ => trivial)
  | some a =>
    have hacts : ∀ h', h₀ <:+ h' → ActsAs hashRaw (.asUser cookie request) h' a := by
      intro h' hs
      obtain ⟨raw, hraw, hi⟩ := huser a rfl
      exact ⟨raw, hraw, hi.mono hs⟩
    change (onCampus (handle cfg hashRaw (request.job a.user)) >>= _).Ok _ _ _ h₀
    refine (handle_portal_ok (j := .asUser cookie request) hp₀ (fun h' hs user hactor => ⟨a, ?_, hacts h' hs⟩)
      fun h' hs => ⟨a, hacts h' hs⟩).bind fun h' _ hs => ⟨a, hacts h' hs⟩
    cases request <;> cases hactor <;> rfl

theorem verify_portal_ok (raw : String) (consume : Bool) :
    (handlePortal auth cfg hashRaw (.verify raw consume)).Ok RangesKept
      (portalRules hashRaw (.verify raw consume)) (portalAnswers hashRaw (.verify raw consume)) [] := by
  have hroute : (onCampus (handle cfg hashRaw (.verify raw consume))).Ok RangesKept
      (portalRules hashRaw (.verify raw consume)) (fun h' _ => [] <:+ h') [] :=
    handle_portal_ok rfl (fun _ _ _ hactor => nomatch hactor) fun _ _ => trivial
  exact hroute.bind fun _ _ _ => trivial

/-! ### `auth.py` -/

theorem me_ok (cookie : Option String) : (me auth hashRaw cookie).Ok I (portalRules hashRaw (.me cookie))
    (portalAnswers hashRaw (.me cookie)) [] := by
  refine (identify_ok cookie).bind ?_
  rintro h₀ user ⟨-, -, huser⟩
  cases user with
  | none => exact ok_bind.mpr (.lift (fun a ha => absurd ha (getCurrentUser_none a)) fun _ _ => trivial)
  | some a => exact ⟨a, rfl, huser a rfl⟩

theorem logout_ok (cookie : Option String) : (logout auth hashRaw cookie).Ok I (portalRules hashRaw (.logout cookie))
    (portalAnswers hashRaw (.logout cookie)) [] := by
  refine (identify_ok cookie).bind ?_
  rintro h₀ user ⟨hp₀, hd₀, huser⟩
  by_cases hraw : cookie.getD "" = ""
  · rw [revokeSession, if_pos hraw]
    cases cookie with
    | none => trivial
    | some raw => exact .inl hraw
  · rw [revokeSession, if_neg hraw]
    obtain ⟨raw, rfl⟩ : ∃ raw, cookie = some raw := by
      cases cookie with
      | none => exact absurd rfl hraw
      | some raw => exact ⟨raw, rfl⟩
    change ∀ now : ℤ, Ok I (portalRules hashRaw _) _ _ (.now now :: h₀)
    intro now
    refine ⟨trivial, fun b q snap cur _ _ => ?_⟩
    rw [DateTime.instant_utc, Option.getD_some]
    let ids := Stmt.hits Token.id (MoreStmt.sessionOf (hashRaw raw)) snap.1.1.tokens cur.1.1.tokens
    let h₁ : CampusLog := .stmt (.inl (.inr (.revokeSession (hashRaw raw) now))) b q snap cur :: .now now :: h₀
    have hexec : campus.execOn (pendOf (.now now :: h₀)) (.inl (.inr (.revokeSession (hashRaw raw) now))) b q snap cur =
        (q, [.inl (.inl (.revokeTokens ids now))], ids.length) := by
      rw [pendOf_now, hp₀]
      rfl
    have hpend : pendOf h₁ = [.inl (.inl (.revokeTokens ids now))] := by
      rw [pendOf_stmt, hexec, pendOf_now, hp₀]
      rfl
    rw [hexec]
    change Ok I _ _ (if 0 < ids.length then _ else _) h₁
    split_ifs with hpos
    · refine (writeAudit_acts fun userId hid => ?_).bind fun h₂ _ hc => ⟨trivial, .inr ⟨now, b, q, snap, cur, ?_, fun _ => ?_⟩⟩
      · obtain ⟨a, rfl, rfl⟩ := Option.map_eq_some_iff.mp hid
        obtain ⟨raw', hraw', hi⟩ := huser a rfl
        exact ⟨a, ⟨raw', hraw', hi.mono ((List.suffix_cons _ _).trans (List.suffix_cons _ _))⟩, rfl⟩
      · exact .tail _ (hc.1.subset List.mem_cons_self)
      · rw [doneOf_commit]
        exact List.mem_append_right _ (hc.2 (hpend ▸ List.mem_singleton_self _))
    · refine .inr ⟨now, b, q, snap, cur, List.mem_cons_self, fun hne => ?_⟩
      exact absurd (List.length_pos_iff.mpr hne) hpos

/-- After the upsert the account is the one of the identity. -/
theorem upsertUser_ok {body : CallbackBody} {wantsHtml : Bool} {i : UserIdentity} (hi : verifyCallback body = .ok i) :
    (upsertUser i).Ok I (portalRules hashRaw (.callback body wantsHtml)) (fun h user => user.Known h ∧ doneOf h = [] ∧
      ∃ a, ActsAs hashRaw (.callback body wantsHtml) h a ∧ a.id = user.id) [] := by
  refine ok_bind.mpr ⟨trivial, fun b q snap cur _ _ => ?_⟩
  let h₁ : CampusLog := [.stmt (.inr (.upsertUser i)) b q snap cur]
  -- the account that the upsert has found or inserted
  have hfound : ∀ id, (campus.execOn [] (.inr (.upsertUser i)) b q snap cur).2.2 = some id →
      ∃ a, ActsAs hashRaw (.callback body wantsHtml) h₁ a ∧ a.id = id := by
    intro id hid
    change ((AccountStmt.upsertUser i).exec b q snap cur).2.2 = some id at hid
    have hpend : pendOf h₁ = ((AccountStmt.upsertUser i).exec b q snap cur).2.1 := rfl
    rcases exec_upsertUser i b q snap cur with hexec | ⟨a, ha, hai, hexec⟩ | ⟨-, hexec⟩
    · rw [hexec] at hid
      cases hid
    · rw [hexec] at hid
      cases hid
      exact ⟨a, ⟨⟨a, .refl a, .inl ⟨_, b, q, snap, cur, List.mem_cons_self, .inr ha⟩⟩, i, hi, hai⟩, rfl⟩
    · rw [hexec] at hid hpend
      cases hid
      refine ⟨i.row q.2, ⟨⟨_, .refl _, .inr (hpend ▸ List.mem_singleton_self _)⟩, i, hi, ?_⟩, rfl⟩
      simp [Account.isOf, UserIdentity.row]
  change Ok I _ _ (match (campus.execOn [] (.inr (.upsertUser i)) b q snap cur).2.2 with | none => _ | some _ => _) h₁
  generalize (campus.execOn [] (.inr (.upsertUser i)) b q snap cur).2.2 = res at hfound
  cases (res : Option ℤ) with
  | none => trivial
  | some id =>
    obtain ⟨a, ha, hid⟩ := hfound id rfl
    refine ok_bind.mpr ⟨trivial, fun b' q' snap' cur' _ _ => ?_⟩
    have hc : Continues h₁ (.stmt (.inr (.getUser id)) b' q' snap' cur' :: h₁) := (Continues.refl h₁).stmt _ _ _ _ _
    generalize huser : (campus.execOn (pendOf h₁) (.inr (.getUser id)) b' q' snap' cur').2.2 = found
    cases (found : Option Account) with
    | none => trivial
    | some user =>
      change (campus.applyAll snap' (pendOf h₁)).2.find? (fun a => a.id == id) = some user at huser
      have huid : user.id = id := by simpa using List.find?_some huser
      refine ⟨?_, rfl, a, ha.mono hc, hid.trans huid.symm⟩
      have hmem : user ∈ accountTable.rows (campus.applyAll snap' (pendOf h₁)) := List.mem_of_find?_eq_some huser
      rw [accountTable.rows_applyAll] at hmem
      rcases List.mem_append.mp hmem with hmem | hmem
      · obtain ⟨y, hy, rfl⟩ := List.mem_map.mp hmem
        exact ⟨y, accountTable_versions.updAll _ y, .inl ⟨_, b', q', snap', cur', List.mem_cons_self, .inl hy⟩⟩
      · obtain ⟨w, hw, p, hp, ws', -, rfl⟩ := accountTable.mem_newAll hmem
        exact ⟨p, accountTable_versions.updAll _ p, .inr (hc.2 (eq_insertUser hp ▸ hw))⟩

/-- A session is opened for the account that logs in. -/
theorem issueSession_ok {body : CallbackBody} {wantsHtml : Bool} {user : User} {ttlSeconds : ℤ}
    (ha : ∃ a, ActsAs hashRaw (.callback body wantsHtml) h a ∧ a.id = user.id) :
    (onCampus (issueSession hashRaw user ttlSeconds)).Ok I (portalRules hashRaw (.callback body wantsHtml))
      (fun h' _ => Continues h h') h := by
  obtain ⟨a, ha, hid⟩ := ha
  change ∀ raw : String, ∀ now : ℤ, Ok I (portalRules hashRaw _) _ _ (.now now :: .draw raw :: h)
  intro raw now
  have hc : Continues h (.now now :: .draw raw :: h) := ((Continues.refl h).draw raw).now now
  refine ⟨⟨⟨a, ha.mono hc, hid, nofun⟩, fun _ => ⟨⟨body, wantsHtml, rfl⟩, raw, by simp, rfl⟩⟩, fun b q snap cur _ _ => ?_⟩
  generalize hres : (campus.execOn (pendOf (.now now :: .draw raw :: h)) _ b q snap cur).2.2 = res
  cases (res : Except SqlError Token) with
  | error e => trivial
  | ok token => exact hc.stmt _ b q snap cur

theorem mockCallback_ok (body : CallbackBody) (wantsHtml : Bool) :
    (mockCallback auth hashRaw body wantsHtml).Ok I (portalRules hashRaw (.callback body wantsHtml))
      (portalAnswers hashRaw (.callback body wantsHtml)) [] := by
  refine ok_bind.mpr (.lift (fun _ _ => ?_) fun _ _ => trivial)
  refine ok_bind.mpr (.lift (fun provider _ => ?_) fun _ _ => trivial)
  refine ok_bind.mpr (.lift (fun _ _ => ?_) fun _ _ => trivial)
  cases hbody : verifyCallback body with
  | error reason =>
    refine (writeAudit_acts fun userId hid => ?_).bind fun _ _ _ => ⟨trivial, trivial⟩
    cases hid
  | ok i =>
    refine (upsertUser_ok hbody).bind ?_
    rintro h₁ user ⟨hknown, -, ha⟩
    refine (issueSession_ok ha).bind fun h₂ session hc₂ => ?_
    obtain ⟨a, ha, hid⟩ := ha
    refine (writeAudit_acts fun userId he => ?_).bind fun h₃ _ hc₃ => ⟨trivial, ?_⟩
    · exact ⟨a, ha.mono hc₂, hid.trans (Option.some.inj he)⟩
    · cases wantsHtml with
      | true => trivial
      | false => exact ⟨h₃, a, List.suffix_rfl, (hknown.mono hc₂).mono hc₃, (ha.mono hc₂).mono hc₃, hid⟩

/-- **All routes keep the rules.** -/
theorem portal_ok (j : PortalJob) :
    (handlePortal auth cfg hashRaw j).Ok RangesKept (portalRules hashRaw j) (portalAnswers hashRaw j) [] := by
  cases j with
  | callback body wantsHtml => exact mockCallback_ok body wantsHtml
  | logout cookie => exact logout_ok cookie
  | me cookie => exact me_ok cookie
  | asUser cookie request => exact asUser_ok cookie request
  | verify raw consume => exact verify_portal_ok raw consume

/-! ## What is pending -/

/-- A write to a table of `broker` comes from a statement of `broker`, or revokes
    sessions. -/
theorem writes_broker {s : campus.Stmt} {b : ℤ} {q : campus.Aux} {snap cur : campus.Store} {w : Write}
    (hw : .inl (.inl w) ∈ (campus.exec s b q snap cur).2.1) :
    (∃ s₀, s = .inl (.inl s₀) ∧ w ∈ (s₀.exec b q.1.1 snap.1.1 cur.1.1).2.1) ∨ ∃ ids now, w = .revokeTokens ids now := by
  rcases s with (s | s) | s
  · refine .inl ⟨s, rfl, ?_⟩
    obtain ⟨w', hw', heq⟩ := List.mem_map.mp hw
    obtain ⟨w'', hw'', rfl⟩ := List.mem_map.mp hw'
    cases heq
    exact hw''
  · obtain ⟨w', hw', heq⟩ := List.mem_map.mp hw
    cases heq
    cases s with
    | revokeSession | revokeSessionsOf =>
      cases List.mem_singleton.mp hw'
      exact .inr ⟨_, _, rfl⟩
    | setActive | heartbeat => cases List.mem_singleton.mp hw'
    | insertHost x =>
      change _ ∈ (MoreStmt.exec (.insertHost x) b q.1 snap.1 cur.1).2.1 at hw'
      simp only [MoreStmt.exec] at hw'
      split at hw'
      · exact absurd hw' List.not_mem_nil
      · cases List.mem_singleton.mp hw'
    | _ => exact absurd hw' List.not_mem_nil
  · cases s with
    | getUser | sessionAccount => exact absurd hw List.not_mem_nil
    | upsertUser i =>
      change _ ∈ ((AccountStmt.upsertUser i).exec b q snap cur).2.1 at hw
      rcases exec_upsertUser i b q snap cur with hexec | ⟨a, -, -, hexec⟩ | ⟨-, hexec⟩
      · exact absurd (hexec ▸ hw) List.not_mem_nil
      · rw [hexec] at hw
        cases List.mem_singleton.mp hw
      · rw [hexec] at hw
        cases List.mem_singleton.mp hw

/-- The statement behind a pending write of `broker`. -/
theorem origin_broker (hk : Kept I (portalRules hashRaw j) h) {w : Write} (hw : .inl (.inl w) ∈ pendOf h)
    (hrevoke : ∀ ids now, w ≠ .revokeTokens ids now) : ∃ (s : Stmt) (b : ℤ) (q : campus.Aux) (snap cur : campus.Store) (h₀ : CampusLog),
      .stmt (.inl (.inl s)) b q snap cur :: h₀ <:+ h ∧ Continues h₀ h ∧ portalPre hashRaw j h₀ (.inl (.inl s)) ∧
        w ∈ (s.exec b q.1.1 (campus.applyAll snap (pendOf h₀)).1.1 (campus.applyAll cur (pendOf h₀)).1.1).2.1 := by
  obtain ⟨s, b, q, snap, cur, h₀, hsuf, hpre, -, -, hw, hprefix⟩ := hk.origin hw
  rcases writes_broker hw with ⟨s₀, rfl, hws⟩ | ⟨ids, now, rfl⟩
  · exact ⟨s₀, b, q, snap, cur, h₀, hsuf, ⟨(List.suffix_cons _ _).trans hsuf, hprefix.subset⟩, hpre, hws⟩
  · exact absurd rfl (hrevoke ids now)

theorem pending_reservation_acts (hk : Kept I (portalRules hashRaw j) h) {r : Reservation}
    (hw : .inl (.inl (.insertReservation r)) ∈ pendOf h) : r.timeRange.lower < r.timeRange.upper ∧
      r.status = .confirmed ∧ ∃ a, ActsAs hashRaw j h a ∧ a.id = r.userId := by
  obtain ⟨s, b, q, snap, cur, h₀, -, hc, hpre, hw⟩ := origin_broker hk hw nofun
  obtain ⟨rfl, hst, -⟩ := writes_insertReservation hw
  obtain ⟨-, hlt, a, ha, hid⟩ := hpre
  exact ⟨hlt, hst, a, ha.mono hc, hid⟩

theorem pending_token_acts (hk : Kept I (portalRules hashRaw j) h) {t : Token}
    (hw : .inl (.inl (.insertToken t)) ∈ pendOf h) :
    (∃ a, ActsAs hashRaw j h a ∧ a.id = t.userId ∧ (t.purpose = .agent → a.role = .admin)) ∧
      (t.purpose = .session → (∃ body wantsHtml, j = .callback body wantsHtml) ∧
        ∃ raw, .draw raw ∈ h ∧ t.jti = hashRaw raw) := by
  obtain ⟨s, b, q, snap, cur, h₀, -, hc, hpre, hw⟩ := origin_broker hk hw nofun
  obtain ⟨new, rfl, rfl, -⟩ := writes_insertToken hw
  obtain ⟨⟨a, ha, hid, hadmin⟩, hopens⟩ := hpre
  refine ⟨⟨a, ha.mono hc, hid, hadmin⟩, fun hsession => ?_⟩
  obtain ⟨hjob, raw, hraw, hjti⟩ := hopens hsession
  exact ⟨hjob, raw, hc.1.subset hraw, hjti⟩

theorem writes_insertAudit {s : Stmt} {b : ℤ} {q : Seqs} {snap cur : Store} {x : AuditLog}
    (h : .insertAudit x ∈ (s.exec b q snap cur).2.1) : s = .insertAudit x.entry := by
  cases s with
  | insertAudit e =>
    simp only [Stmt.exec] at h
    split at h
    · exact absurd h List.not_mem_nil
    · cases List.mem_singleton.mp h
      rfl
  | insertReservation userId hostId s e =>
    rcases exec_insertReservation userId hostId s e b q snap cur with
      ⟨row, -, -, -, -, -, -, -, hx⟩ | ⟨err, hx⟩ <;> simp [hx] at h
  | insertToken =>
    simp only [Stmt.exec] at h
    split at h <;> simp at h
  | _ => simp [Stmt.exec] at h

theorem pending_audit_acts (hk : Kept I (portalRules hashRaw j) h) {x : AuditLog}
    (hw : .inl (.inl (.insertAudit x)) ∈ pendOf h) {userId : ℤ} (hid : x.entry.actorUserId = some userId) :
    ∃ a, ActsAs hashRaw j h a ∧ a.id = userId := by
  obtain ⟨s, b, q, snap, cur, h₀, -, hc, hpre, hw⟩ := origin_broker hk hw nofun
  obtain rfl := writes_insertAudit hw
  obtain ⟨a, ha, hid⟩ := hpre userId hid
  exact ⟨a, ha.mono hc, hid⟩

theorem MayStrike.mono {h h' : CampusLog} (hs : h <:+ h') {id : ℤ} {a : Account} (hm : MayStrike h id a) :
    MayStrike h' id a := by
  obtain ⟨b, q, snap, cur, hmem, hr⟩ := hm
  exact ⟨b, q, snap, cur, hs.subset hmem, hr⟩

theorem pending_cancel_acts (hk : Kept I (portalRules hashRaw j) h) {ids : List ℤ} {t : ℤ}
    (hw : .inl (.inl (.cancelReservations ids t)) ∈ pendOf h) :
    ∀ id ∈ ids, ∃ a, ActsAs hashRaw j h a ∧ MayStrike h id a := by
  obtain ⟨s, b, q, snap, cur, h₀, -, hc, hpre, hw⟩ := origin_broker hk hw nofun
  obtain ⟨id, rfl, rfl⟩ := writes_cancelReservations hw
  obtain ⟨a, ha, hmay⟩ := hpre
  intro id' hid'
  obtain ⟨⟨x, -, hx, rfl⟩, -⟩ := mem_hits.mp hid'
  exact ⟨a, ha.mono hc, beq_iff_eq.mp hx ▸ hmay.mono hc.1⟩

/-- No commit leaves an empty range. -/
theorem rangesKept_applyAll (hk : Kept I (portalRules hashRaw j) h) {db : campus.Store} (hdb : RangesKept db) :
    RangesKept (campus.applyAll db (pendOf h)) := by
  intro r hr
  change r ∈ campusReservations.rows _ at hr
  rw [campusReservations.rows_applyAll] at hr
  rcases List.mem_append.mp hr with hr | hr
  · obtain ⟨x, hx, rfl⟩ := List.mem_map.mp hr
    rw [(campusReservations_versions.updAll _ x).timeRange]
    exact hdb x hx
  · obtain ⟨w, hw, x, hx, ws', -, rfl⟩ := campusReservations.mem_newAll hr
    rw [(campusReservations_versions.updAll _ x).timeRange]
    exact (pending_reservation_acts hk (eq_insertReservation hx ▸ hw)).1

/-- **All requests keep the rules, in every interleaving.** -/
theorem portal_keeps : Keeps (portal auth cfg hashRaw) RangesKept (portalRules hashRaw) (portalAnswers hashRaw) where
  ok := portal_ok
  stmt_lost _ _ _ _ := trivial
  commit_lost _ _ _ := trivial
  inv _ _ _ hk _ hdb := rangesKept_applyAll hk hdb

end

end SmartClassroom
