/-
  What the broker answers is so.

  `Store.Confirms st j reply`: the committed store `st` has what the reply tells
  the request `j`.  `Told`: what an answered request leaves in its history, route
  by route (`handle_told`).  In any interleaving the committed store confirms each
  reply, from the answer on, and a request that failed has committed nothing
  (`replies_confirmed`).
-/
import SmartClassroom.AuditTrail
import SmartClassroom.Gate
import SmartClassroom.HostCommits
import SmartClassroom.CalendarCells
import SmartClassroom.Lib.Timeline

namespace SmartClassroom

open Txn Prog

variable (hashRaw : String → String)

/-! ## What a store confirms -/

/-- `read` shows a version of the row `x`. -/
def ReservationRead.Shows (read : ReservationRead) (x : Reservation) : Prop :=
  ∃ r, toRead r = .ok read ∧ r.Evolves x

/-- `t` is the row of a connect token that is issued to the user for `x`. -/
structure Issues (user : User) (x : Reservation) (raw : String) (t : Token) : Prop where
  jti : t.jti = hashRaw raw
  purpose : t.purpose = .connect
  userId : t.userId = user.id
  hostId : t.hostId = some x.hostId
  reservationId : t.reservationId = some x.id
  expiresAt : t.expiresAt = x.timeRange.upper

/-- `t` is the row of the token in the response. -/
structure ConnectTokenResponse.Grants (response : ConnectTokenResponse) (user : User) (x : Reservation) (t : Token) : Prop
    extends Issues hashRaw user x response.token t where
  bound : response.reservationId = x.id
  lasts : response.expiresAt = .utc t.expiresAt

/-- `t` is the row of the token that was verified. -/
structure TokenVerifyResponse.Describes (response : TokenVerifyResponse) (raw : String) (t : Token) : Prop where
  jti : t.jti = hashRaw raw
  purpose : t.purpose = .connect
  userId : response.userId = some t.userId
  hostId : response.hostId = t.hostId
  reservationId : response.reservationId = t.reservationId
  expiresAt : response.expiresAt = some t.expiresAt

/-- `t` is the row of the new token of the host. -/
structure HostWithAgentToken.Grants (response : HostWithAgentToken) (admin : User) (hostId : ℤ) (t : Token) : Prop where
  jti : t.jti = hashRaw response.agentToken
  purpose : t.purpose = .agent
  userId : t.userId = admin.id
  hostId : t.hostId = some hostId

/-- The token of the response is there, and its host. -/
def Store.Hands (st : Store) (user : User) (x : Reservation) (response : ConnectTokenResponse) : Prop :=
  (∃ t ∈ st.tokens, response.Grants hashRaw user x t) ∧
    ∃ host ∈ st.hosts, host.id = x.hostId ∧ response.host = .ofHost host

/-- The viewer may see the row. -/
def Reservation.openTo (x : Reservation) (viewer : User) : Prop := viewer.role = .admin ∨ x.userId = viewer.id

def Store.Confirms (st : Store) : Job → Reply → Prop
  | .create user hostId startsAt endsAt, .reservation read => ∃ x ∈ st.reservations, read.Shows x ∧
      x.userId = user.id ∧ x.hostId = hostId ∧ x.timeRange.lower = startsAt.instant ∧
      x.timeRange.upper = endsAt.instant
  | .instant user hostId, .connectToken response => ∃ x ∈ st.reservations, x.userId = user.id ∧ x.hostId = hostId ∧
      st.Hands hashRaw user x response
  | .connect user id _, .connectToken response => ∃ x ∈ st.reservations, x.id = id ∧ x.openTo user ∧
      st.Hands hashRaw user x response
  | .get user id, .reservation read => ∃ x ∈ st.reservations, read.Shows x ∧ x.id = id ∧ x.openTo user
  | .list viewer _ _ hostId _, .reservations reads => ∀ read ∈ reads, ∃ x ∈ st.reservations, read.Shows x ∧
      x.openTo viewer ∧ ∀ id ∈ hostId, x.hostId = id
  | .calendar viewer _ _ _, .calendar matrix => ∀ slot ∈ matrix.slots, ∀ id ∈ slot.reservationId,
      ∃ x ∈ st.reservations, x.id = id ∧ x.hostId = slot.hostId ∧ ∀ u ∈ slot.userId, x.userId = u ∧ x.openTo viewer
  | .cancel _ id, .noContent => ∃ x ∈ st.reservations, x.id = id ∧ x.status = .canceled
  | .verify raw consume, .verified response => response.valid = true → ∃ t ∈ st.tokens,
      response.Describes hashRaw raw t ∧ (consume = true → t.consumedAt.isSome = true)
  | .available _ _, .available hosts => ∀ shown ∈ hosts, ∃ host ∈ st.hosts, ∃ until_, shown = .ofHost host until_
  | .rotateAgentToken admin hostId, .agentToken response => response.id = hostId ∧
      ∃ t ∈ st.tokens, response.Grants hashRaw admin hostId t
  | _, _ => False

/-! ## What is left in the history -/

/-- The response of `issue_connect_token` to the user, for the row `r`; `ws` has the
    INSERT of its token. -/
def Handed (h : History) (ws : List Write) (user : User) (r : Reservation) (response : ConnectTokenResponse) : Prop :=
  (∃ t, .insertToken t ∈ ws ∧ response.Grants hashRaw user r t) ∧
    ∃ s snap cur, Ran h s snap cur ∧ ∃ host ∈ snap.hosts, host.id = r.hostId ∧ response.host = .ofHost host

/-- The rows of a committed store that the request has seen. -/
def Found (h : History) (r : Reservation) : Prop := ∃ s snap cur, Ran h s snap cur ∧ r ∈ snap.reservations

/-- The request has seen the reservation, and its UPDATE after that is pending. -/
def Struck (h : History) (id : ℤ) : Prop :=
  ∃ now b q snap cur h₁ r, .stmt (Stmt.cancelReservation id now) b q snap cur :: h₁ <:+ h ∧ Found h₁ r ∧ r.id = id ∧
    .cancelReservations (Stmt.hits Reservation.id (·.id == id) snap.reservations cur.reservations) now ∈ pendOf h

def Told (j : Job) (h : History) (reply : Reply) : Prop :=
  match j, reply with
  | .create user hostId startsAt endsAt, .reservation read => ∃ y r, .insertReservation y ∈ doneOf h ∧
      FoundAs h y r ∧ toRead r = .ok read ∧ y.userId = user.id ∧ y.hostId = hostId ∧
      y.timeRange.lower = startsAt.instant ∧ y.timeRange.upper = endsAt.instant
  | .instant user hostId, .connectToken response => ∃ y r, .insertReservation y ∈ doneOf h ∧ FoundAs h y r ∧
      y.userId = user.id ∧ y.hostId = hostId ∧ Handed hashRaw h (doneOf h) user r response
  | .connect user id _, .connectToken response => ∃ r, Found h r ∧ r.id = id ∧ r.openTo user ∧
      Handed hashRaw h (doneOf h) user r response
  | .get user id, .reservation read => ∃ r, Found h r ∧ toRead r = .ok read ∧ r.id = id ∧ r.openTo user
  | .list viewer _ _ hostId _, .reservations reads => ∀ read ∈ reads, ∃ r, Found h r ∧ toRead r = .ok read ∧
      r.openTo viewer ∧ ∀ id ∈ hostId, r.hostId = id
  | .calendar viewer _ _ _, .calendar matrix => ∀ slot ∈ matrix.slots, ∀ id ∈ slot.reservationId,
      ∃ r, Found h r ∧ r.id = id ∧ r.hostId = slot.hostId ∧ ∀ u ∈ slot.userId, r.userId = u ∧ r.openTo viewer
  | .cancel _ id, .noContent => (∃ r, Found h r ∧ r.id = id ∧ r.status = .canceled) ∨
      ∃ h₁, .commit :: h₁ <:+ h ∧ Struck h₁ id
  | .verify raw consume, .verified response => response.valid = true → ∃ now snap cur t,
      Ran h (.tokenByJti .connect (hashRaw raw) now) snap cur ∧ t ∈ snap.tokens ∧ response.Describes hashRaw raw t ∧
        (consume = true → ∃ h₂ now', .commit :: h₂ <:+ h ∧ Ran h₂ (.tokenByJti .connect (hashRaw raw) now) snap cur ∧
          .consumeTokens [t.id] now' ∈ pendOf h₂)
  | .available _ _, .available hosts => ∀ shown ∈ hosts, ∃ s snap cur, Ran h s snap cur ∧
      ∃ host ∈ snap.hosts, ∃ until_, shown = .ofHost host until_
  | .rotateAgentToken admin hostId, .agentToken response => response.id = hostId ∧
      ∃ t, .insertToken t ∈ doneOf h ∧ response.Grants hashRaw admin hostId t
  | _, _ => False

/-! ## Services -/

/-- What of a host is for good. -/
def Host.Keeps (x y : Host) : Prop := y = { x with status := y.status }

/-- `hosts`. -/
def hostRows : Table broker Host := ⟨Store.hosts, Write.onHost, fun _ => [], fun _ _ => (List.append_nil _).symm⟩

theorem hostRows_versions : Versions hostRows Host.Keeps where
  refl _ := rfl
  trans h h' := by rw [Host.Keeps, h', h]
  upd w x := by
    change w.onHost x = { x with status := (w.onHost x).status }
    unfold Write.onHost
    split
    · split_ifs <;> rfl
    · rfl

section
variable {cfg : Settings} {I : Store → Prop} {h : History} {α : Type}

variable {hashRaw}

theorem Ran.of_extends {h h' : History} (x : Extends h h') {s : Stmt} {snap cur : Store} (hr : Ran h s snap cur) :
    Ran h' s snap cur := hr.mono x.suffix

/-- SELECTs leave nothing pending. -/
theorem selects_told {p : Service α} (hp : p.Uses fun s : Stmt => s.selects = true) (hpend : pendOf h = []) :
    p.Ok I Rules.none (fun h' _ => Extends h h' ∧ pendOf h' = []) h := by
  refine hp.ok (K := fun h' => Extends h h' ∧ pendOf h' = []) ?_ ?_ ?_ ?_ ⟨.refl h, hpend⟩
  · exact fun h' t x => ⟨x.1.trans (.now h' t), x.2⟩
  · exact fun h' n x => ⟨x.1.trans (.draw h' n), x.2⟩
  · refine fun h' s x hs => ⟨trivial, fun b q snap cur => ⟨x.1.trans (.stmt h' s b q snap cur), ?_⟩⟩
    rw [pendOf_stmt, x.2, execOn_eq, writes_of_selects hs, List.append_nil]
  · exact fun _ _ _ => trivial

/-- The booking of the user, as it is pending and as its route reads it back. -/
structure Entered (h : History) (user : User) (hostId : ℤ) (s e : DateTime) (y r : Reservation) : Prop where
  pend : .insertReservation y ∈ pendOf h
  found : FoundAs h y r
  userId : y.userId = user.id
  hostId : y.hostId = hostId
  lower : y.timeRange.lower = s.instant
  upper : y.timeRange.upper = e.instant

theorem book_told (hpend : pendOf h = []) (user : User) (hostId : ℤ) (s e : DateTime) (instant : Bool) :
    (book user hostId s e instant).Ok I Rules.none (fun h' r => ∃ y, Entered h' user hostId s e y r) h := by
  refine Ok.bind (Q := fun (h' : History) id => ∃ y : Reservation, pendOf h' = [.insertReservation y] ∧ y.id = id ∧
    y.userId = user.id ∧ y.hostId = hostId ∧ y.timeRange.lower = s.instant ∧ y.timeRange.upper = e.instant) ?_ ?_
  · refine ok_bind.mpr ⟨trivial, fun b q snap cur _ _ => ?_⟩
    rw [execOn_eq]
    rcases exec_insertReservation user.id hostId s.instant e.instant b q (broker.applyAll snap (pendOf h))
      (broker.applyAll cur (pendOf h)) with ⟨y, hl, hu, huser, hhost, -, -, -, hexec⟩ | ⟨err, hexec⟩
    · rw [hexec]
      refine ⟨y, ?_, rfl, huser, hhost, hl, hu⟩
      rw [pendOf_stmt, execOn_eq, hexec, hpend]
      rfl
    · rw [hexec]
      cases err with
      | data => trivial
      | integrity c =>
        change Ok _ _ _ (if _ then _ else _) _
        split_ifs <;> trivial
  · rintro h₁ id ⟨y, hp, rfl, huser, hhost, hl, hu⟩
    refine ok_bind.mpr ⟨trivial, fun b q snap cur _ _ => ?_⟩
    have x₁ : Extends h₁ _ := .stmt h₁ (Stmt.getReservation y.id) b q snap cur
    have hran : Ran _ _ snap cur := .head h₁ (Stmt.getReservation y.id) b q snap cur
    generalize hfound : (broker.execOn (pendOf h₁) (Stmt.getReservation y.id) b q snap cur).2.2 = found
    cases (found : Option Reservation) with
    | none => trivial
    | some r =>
      have hid : r.id = y.id := by simpa using List.find?_some hfound
      have hmem : r ∈ snap.reservations ∨ r = y := by
        have hmem := List.mem_of_find?_eq_some hfound
        rw [reservations_applyAll, hp] at hmem
        simpa [reservationTable, Table.updAll, Table.newAll, Write.onReservation, Write.newReservations] using hmem
      refine ((writeAudit_uses _).extends _).bind fun h₂ _ x₂ => ⟨y, ?_, ?_, huser, hhost, hl, hu⟩
      · exact x₂.mem (x₁.mem (hp ▸ List.mem_cons_self))
      · exact (hmem.symm.imp id fun hmem => ⟨hid, _, snap, cur, hran.of_extends x₂, hmem⟩)

theorem execute_selects {s : Stmt} (hs : s.selects = true) : (execute s).Uses fun s : Stmt => s.selects = true :=
  uses_query (D := broker) hs

theorem validateWindow_selects (s e : DateTime) : (validateWindow cfg s e).Uses fun s : Stmt => s.selects = true :=
  (uses_lift _).bind fun _ => now_uses.bind fun _ => uses_lift _

theorem validateHostExists_selects (hostId : ℤ) : (validateHostExists hostId).Uses fun s : Stmt => s.selects = true :=
  (execute_selects (s := .getHost hostId) rfl).bind fun host => by cases host <;> trivial

theorem nextReservationStart_selects (hostId : ℤ) (after : DateTime) :
    (nextReservationStart hostId after).Uses fun s : Stmt => s.selects = true :=
  (execute_selects (s := .nextStart ..) rfl).bind fun _ => uses_pure _

theorem validateQuota_selects (user : User) (s e : DateTime) :
    (validateQuota cfg user s e).Uses fun s : Stmt => s.selects = true :=
  now_uses.bind fun _ => (execute_selects (s := .countConcurrent ..) rfl).bind fun _ => (uses_lift _).bind fun _ =>
    (execute_selects (s := .dailyRanges ..) rfl).bind fun _ => uses_lift _

theorem createReservation_told (hpend : pendOf h = []) (user : User) (hostId : ℤ) (s e : DateTime) :
    (createReservation cfg user hostId s e).Ok I Rules.none (fun h' r => ∃ y, Entered h' user hostId s e y r) h := by
  refine (selects_told (validateWindow_selects s e) hpend).bind fun h₁ _ hp₁ => ?_
  refine (selects_told (validateHostExists_selects hostId) hp₁.2).bind fun h₂ _ hp₂ => ?_
  refine (selects_told (validateQuota_selects user s e) hp₂.2).bind fun h₃ _ hp₃ => ?_
  exact book_told hp₃.2 user hostId s e false

theorem createInstantReservation_told (hpend : pendOf h = []) (user : User) (hostId : ℤ) :
    (createInstantReservation cfg user hostId).Ok I Rules.none
      (fun h' r => ∃ s e y, Entered h' user hostId s e y r) h := by
  refine (selects_told now_uses hpend).bind fun h₀ now hp₀ => ?_
  refine (selects_told (validateHostExists_selects hostId) hp₀.2).bind fun h₁ host hp₁ => ?_
  refine (selects_told (uses_lift _) hp₁.2).bind fun h₂ _ hp₂ => ?_
  refine (selects_told (nextReservationStart_selects hostId now) hp₂.2).bind fun h₃ next hp₃ => ?_
  refine (selects_told (validateQuota_selects user _ _) hp₃.2).bind fun h₄ _ hp₄ => ?_
  exact (book_told hp₄.2 user hostId _ _ true).mono fun _ _ hy => ⟨_, _, hy⟩

/-! ### Tokens -/

/-- The INSERT of a token, and what follows it. -/
theorem insertToken_told (new : NewToken) {f : Token → Service α} {Q : History → α → Prop}
    (hf : ∀ h' id, Extends h h' → .insertToken (new.row id) ∈ pendOf h' → (f (new.row id)).Ok I Rules.none Q h') :
    (execute (.insertToken new) >>= fun res => orRaise res >>= f).Ok I Rules.none Q h := by
  refine ok_bind.mpr ⟨trivial, fun b q snap cur _ _ => ?_⟩
  have x : Extends h (.stmt (Stmt.insertToken new) b q snap cur :: h) := .stmt h (Stmt.insertToken new) b q snap cur
  rw [execOn_eq]
  rcases exec_insertToken new b q (broker.applyAll snap (pendOf h)) (broker.applyAll cur (pendOf h)) with
    hexec | ⟨err, hexec⟩
  · rw [hexec]
    refine hf _ q.token x ?_
    rw [pendOf_stmt, execOn_eq, hexec]
    exact List.mem_append_right _ List.mem_cons_self
  · rw [hexec]
    trivial

theorem issueConnectToken_told (user : User) (r : Reservation) : (issueConnectToken cfg hashRaw user r).Ok I Rules.none
    (fun h' issued => Extends h h' ∧ .insertToken issued.2.1 ∈ pendOf h' ∧
      Issues hashRaw user r issued.1 issued.2.1) h := by
  refine ok_bind.mpr (.lift (fun bounds hgate => ?_) fun _ _ => trivial)
  obtain ⟨-, -, -, rfl⟩ := connectGate_eq_ok.mp hgate
  refine (Uses.extends (P := fun _ => True) now_uses h).bind fun h₁ now x₁ => ?_
  refine ok_bind.mpr (.lift (fun _ _ => ?_) fun _ _ => trivial)
  have hrevoke : (revokeActiveTokensForReservation r.id).Uses fun _ => True :=
    now_uses.bind fun _ => uses_query (D := broker) (s := .revokeConnectTokens ..) trivial
  refine (hrevoke.extends h₁).bind fun h₂ revoked x₂ => ?_
  refine (Uses.extends (P := fun _ => True) (tokenUrlsafe_uses) h₂).bind fun h₃ raw x₃ => ?_
  exact insertToken_told _ fun h₄ id x₄ hmem =>
    ⟨((x₁.trans x₂).trans x₃).trans x₄, hmem, rfl, rfl, rfl, rfl, rfl, DateTime.instant_utc _⟩

theorem exists_host {snap : Store} {ws : List Write} {host : Host} (hhost : host ∈ (broker.applyAll snap ws).hosts) :
    ∃ host₀ ∈ snap.hosts, host₀.Keeps host := by
  change host ∈ hostRows.rows (broker.applyAll snap ws) at hhost
  rw [hostRows.rows_applyAll] at hhost
  rcases List.mem_append.mp hhost with hhost | hhost
  · obtain ⟨host₀, hmem, rfl⟩ := List.mem_map.mp hhost
    exact ⟨host₀, hmem, hostRows_versions.updAll ws host₀⟩
  · obtain ⟨w, -, p, hp, -⟩ := hostRows.mem_newAll hhost
    exact absurd hp List.not_mem_nil

theorem Host.Keeps.ofHost {x y : Host} (hxy : x.Keeps y) : HostConnectionInfo.ofHost y = .ofHost x := by rw [hxy]; rfl

theorem issueConnectTokenResponse_told (user : User) (r : Reservation) (client : Option String) :
    (issueConnectTokenResponse cfg hashRaw user r client).Ok I Rules.none
      (fun h' response => Extends h h' ∧ Handed hashRaw h' (pendOf h') user r response) h := by
  refine ok_bind.mpr ⟨trivial, fun b q snap cur _ _ => ?_⟩
  have x₁ : Extends h _ := .stmt h (Stmt.getHost r.hostId) b q snap cur
  have hran : Ran _ _ snap cur := .head h (Stmt.getHost r.hostId) b q snap cur
  generalize hfound : (broker.execOn (pendOf h) (Stmt.getHost r.hostId) b q snap cur).2.2 = host
  cases (host : Option Host) with
  | none => trivial
  | some host =>
    have hid : host.id = r.hostId := by simpa using List.find?_some hfound
    obtain ⟨host₀, hmem, hkeeps⟩ := exists_host (List.mem_of_find?_eq_some hfound)
    refine (issueConnectToken_told user r).bind ?_
    rintro h₂ issued ⟨x₂, ht, hissues⟩
    refine ((auditRevoked_uses user r _).extends h₂).bind fun h₃ _ x₃ => ?_
    refine ((writeAudit_uses _).extends h₃).bind fun h₄ _ x₄ => ⟨((x₁.trans x₂).trans x₃).trans x₄, ?_, ?_⟩
    · exact ⟨issued.2.1, x₄.mem (x₃.mem ht), hissues, rfl, rfl⟩
    · refine ⟨_, snap, cur, hran.of_extends ((x₂.trans x₃).trans x₄), host₀, hmem, ?_, hkeeps.ofHost⟩
      rw [← hid, hkeeps]

theorem Handed.commit {h h' : History} {user : User} {r : Reservation} {response : ConnectTokenResponse}
    (hh : Handed hashRaw h (pendOf h) user r response) (x : Extends h h') :
    Handed hashRaw (.commit :: h') (doneOf (.commit :: h')) user r response := by
  obtain ⟨⟨t, ht, hgrants⟩, s, snap, cur, hran, hhost⟩ := hh
  exact ⟨⟨t, x.mem_doneOf ht, hgrants⟩, s, snap, cur, (hran.of_extends x).mono (List.suffix_cons _ _), hhost⟩

/-! ## Routes -/

/-- The rows that the members of a mapped list come from. -/
theorem exists_of_mapM_eq_ok {β : Type} {f : α → Except BrokerError β} : ∀ {xs : List α} {ys : List β},
    xs.mapM f = .ok ys → ∀ y ∈ ys, ∃ x ∈ xs, f x = .ok y := by
  intro xs
  induction xs with
  | nil =>
    intro ys h y hy
    rw [List.mapM_nil] at h
    cases h
    exact absurd hy List.not_mem_nil
  | cons x xs ih =>
    intro ys h y hy
    rw [List.mapM_cons] at h
    obtain ⟨b, hb, h⟩ := bind_eq_ok.mp h
    obtain ⟨bs, hbs, h⟩ := bind_eq_ok.mp h
    cases h
    rcases List.mem_cons.mp hy with rfl | hy
    · exact ⟨x, List.mem_cons_self, hb⟩
    · obtain ⟨x', hx', hfx'⟩ := ih hbs y hy
      exact ⟨x', List.mem_cons_of_mem _ hx', hfx'⟩

/-- A handler that only raises. -/
theorem try_told {p : Service Reservation} {g : BrokerError → Service Reservation} {Q : History → Reservation → Prop}
    (hg : ∀ e, ∃ e', g e = throw e') (hp : p.Ok I Rules.none Q h) : (tryCatch p g).Ok I Rules.none Q h := by
  refine Ok.tryCatch (X := fun _ _ => True) (fun h e _ => ?_) hp
  obtain ⟨e', he⟩ := hg e
  rw [he]
  trivial

theorem commit_told {f : Unit → Service α} {Q : History → α → Prop} (hf : (f ()).Ok I Rules.none Q (.commit :: h)) :
    (commit >>= f).Ok I Rules.none Q h := ⟨trivial, hf⟩

theorem hostNotFoundAsWindow_throws (hostId : ℤ) (e : BrokerError) : ∃ e', hostNotFoundAsWindow hostId e = throw e' := by
  cases e <;> exact ⟨_, rfl⟩

theorem instantErrors_throws (hostId : ℤ) (e : BrokerError) : ∃ e', instantErrors hostId e = throw e' := by
  cases e <;> exact ⟨_, rfl⟩

theorem notFoundAs404_throws (e : BrokerError) : ∃ e', notFoundAs404 e = throw e' := by
  cases e <;> exact ⟨_, rfl⟩

theorem create_told (user : User) (hostId : ℤ) (s e : DateTime) :
    (createReservationEndpoint cfg user hostId s e).Ok I Rules.none (Told hashRaw (.create user hostId s e)) [] := by
  refine ok_bind.mpr (.lift (fun payload hv => ?_) fun _ _ => trivial)
  obtain ⟨rfl, rfl, rfl⟩ : payload.hostId = hostId ∧ payload.startsAt = s ∧ payload.endsAt = e := by
    unfold ReservationCreate.validate at hv
    split_ifs at hv
    obtain rfl := Except.ok.inj hv
    exact ⟨rfl, rfl, rfl⟩
  refine (try_told (hostNotFoundAsWindow_throws _) (createReservation_told rfl user _ _ _)).bind ?_
  rintro h r ⟨y, hy⟩
  refine commit_told (ok_bind.mpr (.lift (fun read hread => ?_) fun _ _ => trivial))
  exact ⟨y, r, (Extends.refl h).mem_doneOf hy.pend, hy.found.mono (List.suffix_cons _ _), hread, hy.userId, hy.hostId,
    hy.lower, hy.upper⟩

theorem instant_told (user : User) (hostId : ℤ) : (instantReservationEndpoint cfg hashRaw user hostId).Ok I Rules.none
    (Told hashRaw (.instant user hostId)) [] := by
  refine ok_bind.mpr (.lift (fun _ _ => ?_) fun _ _ => trivial)
  refine (try_told (instantErrors_throws hostId) (createInstantReservation_told rfl user hostId)).bind ?_
  rintro h₁ r ⟨s, e, y, hy⟩
  refine (issueConnectTokenResponse_told user r _).bind ?_
  rintro h₂ response ⟨x₂, hhanded⟩
  refine ((markInUse_uses r).extends h₂).bind fun h₃ _ x₃ => ⟨trivial, ?_⟩
  exact ⟨y, r, (x₂.trans x₃).mem_doneOf hy.pend, hy.found.mono ((x₂.trans x₃).suffix.trans (List.suffix_cons _ _)),
    hy.userId, hy.hostId, hhanded.commit x₃⟩

theorem getReservation_told (hpend : pendOf h = []) (user : User) (id : ℤ) : (getReservation user id).Ok I Rules.none
    (fun h' r => Extends h h' ∧ pendOf h' = [] ∧ Found h' r ∧ r.id = id ∧ r.openTo user) h := by
  refine ok_bind.mpr ⟨trivial, fun b q snap cur _ _ => ?_⟩
  have hran : Ran _ _ snap cur := .head h (Stmt.getReservation id) b q snap cur
  have hpend₁ : pendOf (.stmt (Stmt.getReservation id) b q snap cur :: h : History) = [] := by
    rw [pendOf_stmt, hpend]
    rfl
  generalize hfound : (broker.execOn (pendOf h) (Stmt.getReservation id) b q snap cur).2.2 = found
  rw [hpend] at hfound
  cases (found : Option Reservation) with
  | none => trivial
  | some r =>
    refine ok_bind.mpr (.lift (fun _ ha => ⟨.stmt h _ b q snap cur, hpend₁, ⟨_, snap, cur, hran, ?_⟩, ?_, ?_⟩)
      fun _ _ => trivial)
    · exact List.mem_of_find?_eq_some hfound
    · simpa using List.find?_some hfound
    · exact assertCanAccess_eq_ok.mp ha

theorem get_told (user : User) (id : ℤ) :
    (getReservationEndpoint user id).Ok I Rules.none (Told hashRaw (.get user id)) [] := by
  refine (try_told notFoundAs404_throws (getReservation_told rfl user id)).bind ?_
  rintro h r ⟨-, -, hfound, hid, hopen⟩
  exact ok_bind.mpr (.lift (fun read hread => ⟨r, hfound, hread, hid, hopen⟩) fun _ _ => trivial)

theorem connect_told (user : User) (id : ℤ) (client : Option String) :
    (connectTokenEndpoint cfg hashRaw user id client).Ok I Rules.none (Told hashRaw (.connect user id client)) [] := by
  refine ok_bind.mpr (.lift (fun _ _ => ?_) fun _ _ => trivial)
  refine (try_told notFoundAs404_throws (getReservation_told rfl user id)).bind ?_
  rintro h₁ r ⟨-, -, ⟨s, snap, cur, hran, hmem⟩, hid, hopen⟩
  refine (issueConnectTokenResponse_told user r client).bind ?_
  rintro h₂ response ⟨x₂, hhanded⟩
  exact ⟨trivial, r, ⟨s, snap, cur, (hran.of_extends x₂).mono (List.suffix_cons _ _), hmem⟩, hid, hopen,
    hhanded.commit (.refl h₂)⟩

theorem list_told (viewer : User) (from_ to_ : Option DateTime) (hostId userId : Option ℤ) :
    (listReservationsEndpoint viewer from_ to_ hostId userId).Ok I Rules.none
      (Told hashRaw (.list viewer from_ to_ hostId userId)) [] := by
  refine ok_bind.mpr ⟨trivial, fun b q snap cur _ _ => ?_⟩
  refine ok_bind.mpr (.lift (fun reads hreads => ?_) fun _ _ => trivial)
  intro read hread
  obtain ⟨r, hr, hshows⟩ := exists_of_mapM_eq_ok hreads read hread
  have hr : r ∈ snap.reservations.filter _ := (List.mem_insertionSort _).mp hr
  obtain ⟨hmem, haccepts⟩ := List.mem_filter.mp hr
  simp only [ReservationFilter.accepts, Bool.and_eq_true] at haccepts
  refine ⟨r, ⟨_, snap, cur, .head [] _ b q snap cur, hmem⟩, hshows, ?_, fun id hid => ?_⟩
  · by_cases hadmin : viewer.role = .admin
    · exact .inl hadmin
    · have huser := haccepts.1.1.1.2
      rw [if_neg hadmin, Option.all_some, beq_iff_eq] at huser
      exact .inr huser.symm
  · have hhost := haccepts.1.1.2
    rw [Option.mem_def.mp hid, Option.all_some, beq_iff_eq] at hhost
    exact hhost.symm

theorem rotate_told (admin : User) (hostId : ℤ) : (rotateAgentTokenEndpoint cfg hashRaw admin hostId).Ok I Rules.none
    (Told hashRaw (.rotateAgentToken admin hostId)) [] := by
  refine ok_bind.mpr (.lift (fun _ _ => ?_) fun _ _ => trivial)
  refine ok_bind.mpr ⟨trivial, fun b q snap cur _ _ => ?_⟩
  generalize hfound : (broker.execOn (pendOf []) (Stmt.getHost hostId) b q snap cur).2.2 = host
  cases (host : Option Host) with
  | none => trivial
  | some host =>
    have hid : host.id = hostId := by simpa using List.find?_some hfound
    have hissue : (issueAgentToken cfg hashRaw host admin).Ok I Rules.none (fun h' issued =>
        .insertToken issued.2.1 ∈ pendOf h' ∧ issued.2.1.jti = hashRaw issued.1 ∧ issued.2.1.purpose = .agent ∧
          issued.2.1.userId = admin.id ∧ issued.2.1.hostId = some hostId)
        (.stmt (Stmt.getHost hostId) b q snap cur :: []) := by
      have hrevoke : (revokeActiveAgentTokens host.id).Uses fun _ => True :=
        now_uses.bind fun _ => uses_query (D := broker) (s := .revokeAgentTokens ..) trivial
      refine (hrevoke.extends _).bind fun h₁ revoked _ => ?_
      refine (Uses.extends (P := fun _ => True) now_uses h₁).bind fun h₂ now _ => ?_
      refine (Uses.extends (P := fun _ => True) tokenUrlsafe_uses h₂).bind fun h₃ raw _ => ?_
      exact insertToken_told _ fun h₄ id _ hmem => ⟨hmem, rfl, rfl, rfl, congrArg some hid⟩
    refine hissue.bind ?_
    rintro h₁ issued ⟨ht, hjti, hpurpose, huser, hhost⟩
    exact ⟨trivial, hid, issued.2.1, (Extends.refl h₁).mem_doneOf ht, hjti, hpurpose, huser, hhost⟩

theorem Found.of_extends {h h' : History} (x : Extends h h') {r : Reservation} (hr : Found h r) : Found h' r := by
  obtain ⟨s, snap, cur, hran, hmem⟩ := hr
  exact ⟨s, snap, cur, hran.of_extends x, hmem⟩

theorem Struck.of_extends {h h' : History} (x : Extends h h') {id : ℤ} (hs : Struck h id) : Struck h' id := by
  obtain ⟨now, b, q, snap, cur, h₁, r, hsuf, hr, hid, hmem⟩ := hs
  exact ⟨now, b, q, snap, cur, h₁, r, hsuf.trans x.suffix, hr, hid, x.mem hmem⟩

theorem cancelReservation_told (user : User) (id : ℤ) : (cancelReservation user id).Ok I Rules.none
    (fun h _ => (∃ r, Found h r ∧ r.id = id ∧ r.status = .canceled) ∨ Struck h id) [] := by
  refine (getReservation_told rfl user id).bind ?_
  rintro h₁ r ⟨-, hpend, hfound, hid, -⟩
  by_cases hst : r.status = .canceled
  · rw [if_pos hst]
    exact .inl ⟨r, hfound, hid, hst⟩
  · rw [if_neg hst]
    refine ok_bind.mpr fun now => ok_bind.mpr ⟨trivial, fun b q snap cur _ _ => ?_⟩
    rw [DateTime.instant_utc, hid]
    have hstruck : Struck (.stmt (Stmt.cancelReservation id now) b q snap cur :: .now now :: h₁) id := by
      refine ⟨now, b, q, snap, cur, _, r, List.suffix_rfl, hfound.of_extends (.now h₁ now), hid, ?_⟩
      rw [pendOf_stmt, pendOf_now, hpend]
      exact List.mem_singleton_self _
    refine ((refresh_uses r).extends _).bind fun h₂ r' x₂ => ?_
    refine ((writeAudit_uses _).extends h₂).bind fun h₃ _ x₃ => .inr (hstruck.of_extends (x₂.trans x₃))

theorem cancel_told (user : User) (id : ℤ) :
    (cancelReservationEndpoint user id).Ok I Rules.none (Told hashRaw (.cancel user id)) [] := by
  refine (try_told notFoundAs404_throws (cancelReservation_told user id)).bind fun h₁ r hdone => ?_
  refine ((releaseHost_uses r).extends h₁).bind fun h₂ _ x₂ => commit_told ?_
  rcases hdone with ⟨r, hr, hid, hst⟩ | hstruck
  · obtain ⟨s, snap, cur, hran, hmem⟩ := hr.of_extends x₂
    exact .inl ⟨r, ⟨s, snap, cur, hran.mono (List.suffix_cons _ _), hmem⟩, hid, hst⟩
  · exact .inr ⟨h₂, List.suffix_rfl, hstruck.of_extends x₂⟩

/-- The verification that found the row. -/
structure Looked (hashRaw : String → String) (raw : String) (h : History) (now : ℤ) (snap cur : Store) (t : Token) : Prop where
  ran : Ran h (.tokenByJti .connect (hashRaw raw) now) snap cur
  mem : t ∈ snap.tokens
  valid : Stmt.valid .connect (hashRaw raw) now t = true

theorem Looked.of_suffix {h h' : History} (hsuf : h <:+ h') {raw : String} {now : ℤ} {snap cur : Store} {t : Token}
    (hl : Looked hashRaw raw h now snap cur t) : Looked hashRaw raw h' now snap cur t :=
  ⟨hl.ran.mono hsuf, hl.mem, hl.valid⟩

theorem verifyConnectToken_told (raw : String) : (verifyConnectToken hashRaw raw).Ok I Rules.none
    (fun h res => ∀ t ∈ res, ∃ now snap cur, Looked hashRaw raw h now snap cur t) [] := by
  unfold verifyConnectToken
  split_ifs
  · exact ok_pure.mpr (by simp)
  · refine ok_bind.mpr fun now => ⟨trivial, fun b q snap cur _ _ t ht => ?_⟩
    rw [DateTime.instant_utc] at ht ⊢
    exact ⟨now, snap, cur, .head _ _ b q snap cur, List.mem_of_find?_eq_some ht, List.find?_some ht⟩

theorem Looked.describes {raw : String} {h : History} {now : ℤ} {snap cur : Store} {t : Token}
    (hl : Looked hashRaw raw h now snap cur t) : TokenVerifyResponse.Describes hashRaw
      ⟨true, none, some t.userId, t.hostId, t.reservationId, some t.expiresAt⟩ raw t := by
  have hvalid := hl.valid
  simp only [Stmt.valid, Bool.and_eq_true, beq_iff_eq] at hvalid
  exact ⟨hvalid.1.1.1, hvalid.1.1.2, rfl, rfl, rfl, rfl⟩

theorem answerVerify_told {action : String} {targetId : Option ℤ} {detail : Detail} {response : TokenVerifyResponse}
    {Q : History → Reply → Prop} (hQ : ∀ h', Extends h h' → Q (.commit :: h') (.verified response)) :
    (answerVerify action targetId detail response).Ok I Rules.none Q h :=
  ((writeAudit_uses _).extends h).bind fun h' _ x => commit_told (hQ h' x)

theorem markConsumed_told (token : Token) : (markConsumed token).Ok I Rules.none
    (fun h' consumed => Extends h h' ∧ (consumed = true → ∃ now, .consumeTokens [token.id] now ∈ pendOf h')) h := by
  refine ok_bind.mpr fun now => ok_bind.mpr ⟨trivial, fun b q snap cur _ _ => ⟨?_, fun hone => ⟨now, ?_⟩⟩⟩
  · exact (Extends.now h now).trans (.stmt _ _ b q snap cur)
  · rw [DateTime.instant_utc, execOn_eq] at hone
    rw [DateTime.instant_utc, pendOf_stmt, execOn_eq]
    obtain ⟨id, hid⟩ := List.length_eq_one_iff.mp (beq_iff_eq.mp hone)
    obtain ⟨⟨x, -, hx, rfl⟩, -⟩ := mem_hits.mp (hid ▸ List.mem_singleton_self id)
    simp only [Stmt.consumable, Bool.and_eq_true, beq_iff_eq] at hx
    refine List.mem_append_right _ ?_
    change _ ∈ [Write.consumeTokens _ now]
    rw [hid, hx.1]
    exact List.mem_singleton_self _

theorem verify_told (raw : String) (consume : Bool) :
    (verifyTokenEndpoint hashRaw raw consume).Ok I Rules.none (Told hashRaw (.verify raw consume)) [] := by
  refine ok_bind.mpr (.lift (fun _ _ => ?_) fun _ _ => trivial)
  refine (verifyConnectToken_told raw).bind fun h₁ res hres => ?_
  cases res with
  | none => exact answerVerify_told fun _ _ => nofun
  | some t =>
    obtain ⟨now, snap, cur, hlooked⟩ := hres t rfl
    cases consume with
    | false =>
      refine answerVerify_told fun h₂ x₂ _ => ⟨now, snap, cur, t, ?_, hlooked.mem, hlooked.describes, nofun⟩
      exact (hlooked.ran.of_extends x₂).mono (List.suffix_cons _ _)
    | true =>
      refine (markConsumed_told t).bind ?_
      rintro h₂ consumed ⟨x₂, hcons⟩
      cases consumed with
      | false => exact answerVerify_told fun _ _ => nofun
      | true =>
        obtain ⟨now', hmem⟩ := hcons rfl
        refine answerVerify_told fun h₃ x₃ _ => ⟨now, snap, cur, t, ?_, hlooked.mem, hlooked.describes, fun _ => ?_⟩
        · exact (hlooked.ran.of_extends (x₂.trans x₃)).mono (List.suffix_cons _ _)
        · exact ⟨h₃, now', List.suffix_rfl, hlooked.ran.of_extends (x₂.trans x₃), x₃.mem hmem⟩

theorem calendar_told (viewer : User) (from_ to_ : DateTime) (hostId : Option ℤ) :
    (calendarEndpoint cfg viewer from_ to_ hostId).Ok I Rules.none (Told hashRaw (.calendar viewer from_ to_ hostId)) [] := by
  have hhosts : (calendarHosts hostId).Uses fun s : Stmt => s.selects = true := by
    cases hostId with
    | none => exact execute_selects (s := .hostIds) rfl
    | some id => trivial
  refine ok_bind.mpr (ok_bind.mpr (.lift (fun _ _ => ?_) fun _ _ => trivial))
  refine (selects_told hhosts rfl).bind fun h ids hp => ok_bind.mpr ⟨trivial, fun b q snap cur _ _ => ?_⟩
  intro slot hslot id hid
  rw [execOn_eq, hp.2] at hslot
  obtain ⟨hid₀, -, hslot⟩ := List.mem_flatMap.mp hslot
  obtain ⟨cursor, -, rfl⟩ := List.mem_map.mp hslot
  unfold calendarCell at hid ⊢
  split at hid
  · cases hid
  · rename_i r hr
    obtain ⟨hmem, hfills⟩ := lookup_some hr
    refine ⟨r, ⟨_, snap, cur, (Ran.head h _ b q snap cur), (List.mem_filter.mp hmem).1⟩, Option.some.inj hid, hfills.1, ?_⟩
    intro u hu
    by_cases hown : viewer.role = .admin ∨ r.userId = viewer.id
    · rw [if_pos hown] at hu
      exact ⟨Option.some.inj hu, hown⟩
    · rw [if_neg hown] at hu
      cases hu

/-- A host of a committed store that the request has seen. -/
def FoundHost (h : History) (host : Host) : Prop := ∃ s snap cur, Ran h s snap cur ∧ host ∈ snap.hosts

theorem withAvailableUntil_told (now : DateTime) : ∀ (rows : List (ℤ × Option ℤ)) {h : History}, pendOf h = [] →
    (withAvailableUntil now rows).Ok I Rules.none (fun h' shown => Extends h h' ∧ ∀ row ∈ shown, FoundHost h' row.1) h
  | [], h, _ => ok_pure.mpr ⟨.refl h, by simp⟩
  | (id, next) :: rows, h, hpend => by
    refine ok_bind.mpr ⟨trivial, fun b q snap cur _ _ => ?_⟩
    have x₁ : Extends h (.stmt (Stmt.getHost id) b q snap cur :: h) := .stmt h (Stmt.getHost id) b q snap cur
    have hpend₁ : pendOf (.stmt (Stmt.getHost id) b q snap cur :: h : History) = [] := by
      rw [pendOf_stmt, hpend]
      rfl
    refine (withAvailableUntil_told now rows hpend₁).bind fun h₂ rest hrest => ?_
    rw [hpend]
    generalize hfound : (broker.execOn [] (Stmt.getHost id) b q snap cur).2.2 = host
    cases (host : Option Host) with
    | none => exact ⟨x₁.trans hrest.1, hrest.2⟩
    | some host =>
      refine ⟨x₁.trans hrest.1, List.forall_mem_cons.mpr ⟨?_, hrest.2⟩⟩
      exact ⟨_, snap, cur, (Ran.head h _ b q snap cur).of_extends hrest.1, List.mem_of_find?_eq_some hfound⟩

theorem available_told (from_ to_ : Option DateTime) :
    (listAvailableHostsEndpoint from_ to_).Ok I Rules.none (Told hashRaw (.available from_ to_)) [] := by
  cases from_ with
  | none =>
    cases to_ with
    | none =>
      refine ok_bind.mpr fun now => ok_bind.mpr ⟨trivial, fun b q snap cur _ _ => ?_⟩
      refine (withAvailableUntil_told _ _ rfl).mono fun h rows hrows => ?_
      intro shown hshown
      obtain ⟨row, hrow, rfl⟩ := List.mem_map.mp hshown
      obtain ⟨s, snap, cur, hran, hmem⟩ := hrows.2 row hrow
      exact ⟨s, snap, cur, hran, row.1, hmem, _, rfl⟩
    | some to_ => trivial
  | some from_ =>
    cases to_ with
    | none => trivial
    | some to_ =>
      refine ok_bind.mpr (.lift (fun _ _ => ?_) fun _ _ => trivial)
      refine ok_bind.mpr (.lift (fun _ _ => ?_) fun _ _ => trivial)
      refine ok_bind.mpr (.lift (fun _ _ => ?_) fun _ _ => trivial)
      refine ok_bind.mpr ⟨trivial, fun b q snap cur _ _ => ?_⟩
      intro shown hshown
      obtain ⟨host, hhost, rfl⟩ := List.mem_map.mp hshown
      have hmem := (List.mem_filter.mp ((List.mem_insertionSort _).mp hhost)).1
      exact ⟨_, snap, cur, .head [] _ b q snap cur, host, hmem, _, rfl⟩

/-- **What each route leaves when it answers.** -/
theorem handle_told (j : Job) : (handle cfg hashRaw j).Ok I Rules.none (Told hashRaw j) [] := by
  cases j with
  | create user hostId s e => exact create_told user hostId s e
  | instant user hostId => exact instant_told user hostId
  | list viewer from_ to_ hostId userId => exact list_told viewer from_ to_ hostId userId
  | calendar viewer from_ to_ hostId => exact calendar_told viewer from_ to_ hostId
  | get user id => exact get_told user id
  | cancel user id => exact cancel_told user id
  | connect user id client => exact connect_told user id client
  | verify raw consume => exact verify_told raw consume
  | available from_ to_ => exact available_told from_ to_
  | rotateAgentToken admin hostId => exact rotate_told admin hostId

end

/-! ## Runs -/

section
variable {cfg : Settings} {hashRaw : String → String} {C : System → Label Job ℤ String → Prop} {db : Store}
  {aux : Seqs} {clock : ℤ} {s : System} {r : Req broker Job BrokerError Reply}

/-- A row that the request has seen is there, in its latest version. -/
theorem Found.latest (h : Reach (app cfg hashRaw) C ⟨db, aux, clock, []⟩ s) (hr : r ∈ s.reqs) {x : Reservation}
    (hx : Found r.log x) : ∃ z ∈ s.db.reservations, x.Evolves z := by
  obtain ⟨st, snap, cur, ⟨b, q, hran⟩, hmem⟩ := hx
  obtain ⟨hsnap, hcur⟩ := (h.timeline Store.grows rfl r hr).before _ hran
  obtain ⟨y, hy, hxy⟩ := hsnap.reservations x hmem
  obtain ⟨z, hz, hyz⟩ := hcur.reservations y hy
  exact ⟨z, hz, hxy.trans hyz⟩

/-- A booking and the row read back for it are the same row of the store. -/
theorem FoundAs.latest (hdb : Consistent db) (h : Reach (app cfg hashRaw) C ⟨db, aux, clock, []⟩ s) (hr : r ∈ s.reqs)
    {y x : Reservation} (hy : .insertReservation y ∈ doneOf r.log) (hx : FoundAs r.log y x) :
    ∃ z ∈ s.db.reservations, y.Evolves z ∧ x.Evolves z := by
  obtain ⟨z, hz, hyz⟩ := h.row_of_done reservations_versions (by simp) r hr _ hy y (List.mem_singleton_self y)
  rcases hx with rfl | ⟨hid, hfound⟩
  · exact ⟨z, hz, hyz, hyz⟩
  · obtain ⟨z', hz', hxz'⟩ := Found.latest h hr hfound
    obtain rfl := (consistent_of_reach hdb h).reservation_eq hz hz' (by rw [hyz.id, hxz'.id, hid])
    exact ⟨z, hz, hyz, hxz'⟩

/-- A host that the request has seen is there. -/
theorem FoundHost.latest (h : Reach (app cfg hashRaw) C ⟨db, aux, clock, []⟩ s) (hr : r ∈ s.reqs) {host : Host}
    (hhost : FoundHost r.log host) : ∃ host' ∈ s.db.hosts, host.Keeps host' := by
  obtain ⟨st, snap, cur, ⟨b, q, hran⟩, hmem⟩ := hhost
  obtain ⟨hsnap, hcur⟩ := (h.timeline hostRows_versions.grows rfl r hr).before _ hran
  obtain ⟨y, hy, hxy⟩ := hsnap host hmem
  obtain ⟨z, hz, hyz⟩ := hcur y hy
  exact ⟨z, hz, hostRows_versions.trans hxy hyz⟩

theorem Issues.evolves {user : User} {x z : Reservation} {raw : String} {t t' : Token}
    (hi : Issues hashRaw user x raw t) (hx : x.Evolves z) (ht : t.Evolves t') : Issues hashRaw user z raw t' where
  jti := ht.jti.trans hi.jti
  purpose := ht.purpose.trans hi.purpose
  userId := ht.userId.trans hi.userId
  hostId := by rw [ht.hostId, hi.hostId, hx.hostId]
  reservationId := by rw [ht.reservationId, hi.reservationId, hx.id]
  expiresAt := by rw [ht.expiresAt, hi.expiresAt, hx.timeRange]

theorem Handed.latest (h : Reach (app cfg hashRaw) C ⟨db, aux, clock, []⟩ s) (hr : r ∈ s.reqs) {user : User}
    {x z : Reservation} (hxz : x.Evolves z) {response : ConnectTokenResponse}
    (hh : Handed hashRaw r.log (doneOf r.log) user x response) : s.db.Hands hashRaw user z response := by
  obtain ⟨⟨t, ht, hgrants⟩, st, snap, cur, hran, host, hmem, hid, hinfo⟩ := hh
  obtain ⟨t', ht', htt'⟩ := h.row_of_done tokens_versions (by simp) r hr _ ht t (List.mem_singleton_self t)
  obtain ⟨host', hhost', hkeeps⟩ := FoundHost.latest h hr ⟨st, snap, cur, hran, hmem⟩
  refine ⟨⟨t', ht', hgrants.toIssues.evolves hxz htt', hgrants.bound.trans hxz.id.symm, ?_⟩, host', hhost', ?_, ?_⟩
  · rw [htt'.expiresAt, hgrants.lasts]
  · rw [hkeeps, hxz.hostId, ← hid]
  · rw [hkeeps.ofHost, hinfo]

/-- A cancellation that is committed has cancelled the row. -/
theorem Struck.latest (h : Reach (app cfg hashRaw) C ⟨db, aux, clock, []⟩ s) (hr : r ∈ s.reqs) {h₁ : History}
    (hsuf : .commit :: h₁ <:+ r.log) {id : ℤ} (hs : Struck h₁ id) :
    ∃ z ∈ s.db.reservations, z.id = id ∧ z.status = .canceled := by
  obtain ⟨now, b, q, snap, cur, h₂, x, hsuf₂, ⟨st, snap₀, cur₀, ⟨b₀, q₀, hran⟩, hmem⟩, rfl, hpend⟩ := hs
  have hlog := hsuf₂.trans ((List.suffix_cons _ _).trans hsuf)
  have hin := h.timeline Store.grows rfl r hr
  -- the row is in the snapshot of the UPDATE, and in its latest version
  obtain ⟨hsnap₀, hcur₀⟩ := (List.pairwise_cons.mp (hin.timeline.sublist hlog.sublist)).1 _ hran
  obtain ⟨x₁, hx₁, hev₁⟩ := hsnap₀.reservations x hmem
  obtain ⟨x₂, hx₂, hev₂⟩ := hcur₀.reservations x₁ hx₁
  obtain ⟨hsnapcur, -⟩ := hin.before _ (hlog.subset List.mem_cons_self)
  obtain ⟨x₃, hx₃, hev₃⟩ := hsnapcur.reservations x₂ hx₂
  have hid₂ : x₂.id = x.id := (hev₁.trans hev₂).id
  have hhit : x.id ∈ Stmt.hits Reservation.id (·.id == x.id) snap.reservations cur.reservations :=
    mem_hits.mpr ⟨⟨x₃, hx₃, beq_iff_eq.mpr (hev₃.id.trans hid₂), hev₃.id.trans hid₂⟩, x₂, hx₂, beq_iff_eq.mpr hid₂, hid₂⟩
  obtain ⟨i, hi⟩ := List.mem_iff_getElem?.mp hr
  have hupd : ∀ y, x.Evolves y → (reservationTable.upd (.cancelReservations (Stmt.hits Reservation.id (·.id == x.id)
      snap.reservations cur.reservations) now) y).status = .canceled := by
    intro y hy
    change (Write.onReservation _ y).status = _
    rw [Write.onReservation, if_pos (List.contains_iff_mem.mpr (hy.id ▸ hhit))]
  obtain ⟨z, hz, hxz, hcanceled⟩ := h.row_updated_of_saw reservations_versions rfl
    (P := fun z : Reservation => z.status = .canceled) hupd (fun hy hyy' => hyy'.status.elim (fun e => e.trans hy) id)
    i r hi h₁ _ hsuf hpend (hsuf₂.subset (List.mem_cons_of_mem _ hran)) fun st hst => by
      obtain ⟨y, hy, hxy⟩ := hst.1 x hmem
      obtain ⟨z, hz, hyz⟩ := hst.2 y hy
      exact ⟨z, hz, hxy.trans hyz⟩
  exact ⟨z, hz, hxz.id, hcanceled⟩

/-- A token that was found and is consumed by a commit is consumed. -/
theorem consumed_latest (h : Reach (app cfg hashRaw) C ⟨db, aux, clock, []⟩ s) (hr : r ∈ s.reqs) {h₁ : History}
    (hsuf : .commit :: h₁ <:+ r.log) {st : Stmt} {snap cur : Store} (hran : Ran h₁ st snap cur) {t : Token}
    (hmem : t ∈ snap.tokens) {now : ℤ} (hpend : .consumeTokens [t.id] now ∈ pendOf h₁) :
    ∃ t' ∈ s.db.tokens, t.Evolves t' ∧ t'.consumedAt.isSome = true := by
  obtain ⟨b, q, hran⟩ := hran
  have hupd : ∀ y, t.Evolves y → (tokenTable.upd (.consumeTokens [t.id] now) y).consumedAt.isSome = true := by
    intro y hy
    change (Write.onToken _ y).consumedAt.isSome = true
    rw [Write.onToken, if_pos (List.contains_iff_mem.mpr (hy.id ▸ List.mem_cons_self))]
    rfl
  obtain ⟨i, hi⟩ := List.mem_iff_getElem?.mp hr
  refine h.row_updated_of_saw tokens_versions rfl (P := fun z : Token => z.consumedAt.isSome = true) hupd
    (fun hy hyy' => hyy'.consumed hy) i r hi h₁ _ hsuf hpend hran fun st hst => ?_
  obtain ⟨y, hy, hty⟩ := hst.1 t hmem
  obtain ⟨z, hz, hyz⟩ := hst.2 y hy
  exact ⟨z, hz, hty.trans hyz⟩

/-- A token that the request has seen is there. -/
theorem token_latest (h : Reach (app cfg hashRaw) C ⟨db, aux, clock, []⟩ s) (hr : r ∈ s.reqs) {st : Stmt}
    {snap cur : Store} (hran : Ran r.log st snap cur) {t : Token} (hmem : t ∈ snap.tokens) :
    ∃ t' ∈ s.db.tokens, t.Evolves t' := by
  obtain ⟨b, q, hran⟩ := hran
  obtain ⟨hsnap, hcur⟩ := (h.timeline Store.grows rfl r hr).before _ hran
  obtain ⟨y, hy, hty⟩ := hsnap.tokens t hmem
  obtain ⟨z, hz, hyz⟩ := hcur.tokens y hy
  exact ⟨z, hz, hty.trans hyz⟩

theorem TokenVerifyResponse.Describes.evolves {response : TokenVerifyResponse} {raw : String} {t t' : Token}
    (hd : response.Describes hashRaw raw t) (ht : t.Evolves t') : response.Describes hashRaw raw t' where
  jti := ht.jti.trans hd.jti
  purpose := ht.purpose.trans hd.purpose
  userId := by rw [hd.userId, ht.userId]
  hostId := by rw [hd.hostId, ht.hostId]
  reservationId := by rw [hd.reservationId, ht.reservationId]
  expiresAt := by rw [hd.expiresAt, ht.expiresAt]

theorem Reservation.openTo.evolves {x z : Reservation} {viewer : User} (hx : x.openTo viewer) (hxz : x.Evolves z) :
    z.openTo viewer := hx.imp_right fun hid => hxz.userId.trans hid

theorem HostAvailable.ofHost_keeps {x y : Host} (hxy : x.Keeps y) (until_ : Option DateTime) :
    HostAvailable.ofHost y until_ = .ofHost x until_ := by rw [hxy]; rfl

/-- What a request leaves when it answers is what the store confirms. -/
theorem Told.confirms (hdb : Consistent db) (h : Reach (app cfg hashRaw) C ⟨db, aux, clock, []⟩ s) (hr : r ∈ s.reqs)
    {j : Job} {reply : Reply} (ht : Told hashRaw j r.log reply) : s.db.Confirms hashRaw j reply := by
  cases j <;> cases reply <;> try exact ht
  case create.reservation =>
    obtain ⟨y, x, hy, hfound, hread, huser, hhost, hlo, hup⟩ := ht
    obtain ⟨z, hz, hyz, hxz⟩ := hfound.latest hdb h hr hy
    exact ⟨z, hz, ⟨x, hread, hxz⟩, hyz.userId.trans huser, hyz.hostId.trans hhost, by rw [hyz.timeRange, hlo],
      by rw [hyz.timeRange, hup]⟩
  case instant.connectToken =>
    obtain ⟨y, x, hy, hfound, huser, hhost, hhanded⟩ := ht
    obtain ⟨z, hz, hyz, hxz⟩ := hfound.latest hdb h hr hy
    exact ⟨z, hz, hyz.userId.trans huser, hyz.hostId.trans hhost, hhanded.latest h hr hxz⟩
  case connect.connectToken =>
    obtain ⟨x, hfound, hid, hopen, hhanded⟩ := ht
    obtain ⟨z, hz, hxz⟩ := hfound.latest h hr
    exact ⟨z, hz, hxz.id.trans hid, hopen.evolves hxz, hhanded.latest h hr hxz⟩
  case get.reservation =>
    obtain ⟨x, hfound, hread, hid, hopen⟩ := ht
    obtain ⟨z, hz, hxz⟩ := hfound.latest h hr
    exact ⟨z, hz, ⟨x, hread, hxz⟩, hxz.id.trans hid, hopen.evolves hxz⟩
  case list.reservations =>
    intro read hread
    obtain ⟨x, hfound, hshows, hopen, hhost⟩ := ht read hread
    obtain ⟨z, hz, hxz⟩ := hfound.latest h hr
    exact ⟨z, hz, ⟨x, hshows, hxz⟩, hopen.evolves hxz, fun id hid => hxz.hostId.trans (hhost id hid)⟩
  case calendar.calendar =>
    intro slot hslot id hid
    obtain ⟨x, hfound, hxid, hhost, howner⟩ := ht slot hslot id hid
    obtain ⟨z, hz, hxz⟩ := hfound.latest h hr
    exact ⟨z, hz, hxz.id.trans hxid, hxz.hostId.trans hhost, fun u hu =>
      ⟨hxz.userId.trans (howner u hu).1, (howner u hu).2.evolves hxz⟩⟩
  case cancel.noContent =>
    rcases ht with ⟨x, hfound, hid, hst⟩ | ⟨h₁, hsuf, hstruck⟩
    · obtain ⟨z, hz, hxz⟩ := hfound.latest h hr
      exact ⟨z, hz, hxz.id.trans hid, hxz.status.elim (fun e => e.trans hst) id⟩
    · exact hstruck.latest h hr hsuf
  case verify.verified raw consume response =>
    intro hvalid
    obtain ⟨now, snap, cur, t, hran, hmem, hdesc, hcons⟩ := ht hvalid
    cases consume with
    | false =>
      obtain ⟨t', ht', htt'⟩ := token_latest h hr hran hmem
      exact ⟨t', ht', hdesc.evolves htt', nofun⟩
    | true =>
      obtain ⟨h₁, now', hsuf, hran₁, hpend⟩ := hcons rfl
      obtain ⟨t', ht', htt', hconsumed⟩ := consumed_latest h hr hsuf hran₁ hmem hpend
      exact ⟨t', ht', hdesc.evolves htt', fun _ => hconsumed⟩
  case available.available =>
    intro shown hshown
    obtain ⟨st, snap, cur, hran, host, hmem, until_, rfl⟩ := ht shown hshown
    obtain ⟨host', hhost', hkeeps⟩ := FoundHost.latest h hr ⟨st, snap, cur, hran, hmem⟩
    exact ⟨host', hhost', until_, (HostAvailable.ofHost_keeps hkeeps until_).symm⟩
  case rotateAgentToken.agentToken =>
    obtain ⟨hid, t, hdone, hgrants⟩ := ht
    obtain ⟨t', ht', htt'⟩ := h.row_of_done tokens_versions (by simp) r hr _ hdone t (List.mem_singleton_self t)
    exact ⟨hid, t', ht', htt'.jti.trans hgrants.jti, htt'.purpose.trans hgrants.purpose, htt'.userId.trans hgrants.userId,
      htt'.hostId.trans hgrants.hostId⟩

/-- Without a commit nothing is committed. -/
theorem doneOf_of_open {h : History} (ho : Open h) : doneOf h = [] := by
  rw [List.eq_nil_iff_forall_not_mem]
  intro w hw
  obtain ⟨h₁, hsuf, -⟩ := mem_doneOf.mp hw
  exact ho (hsuf.subset List.mem_cons_self)

/-- **What the broker answers is so**: in any interleaving the committed store
    confirms the replies given so far, and what has failed has committed nothing. -/
theorem replies_confirmed (hdb : Consistent db) (h : Reach (app cfg hashRaw) C ⟨db, aux, clock, []⟩ s)
    (hr : r ∈ s.reqs) : (∀ reply, r.prog = .ret reply → s.db.Confirms hashRaw r.job reply) ∧
      ∀ e, r.prog = .raise e → doneOf r.log = [] := by
  obtain ⟨i, hi⟩ := List.mem_iff_getElem?.mp hr
  have hok := ((sound_and_of_reach (W := fun _ => Rules.none) (Q := Told hashRaw) (fun j => handle_told j)
    (fun _ _ => trivial) hdb h).req i r hi).ok
  constructor
  · intro reply hret
    rw [hret] at hok
    exact Told.confirms hdb h hr hok.2
  · intro e hraise
    rw [hraise] at hok
    exact doneOf_of_open hok.1

end

/-- The answer of request `i`, when it is that of `/tokens/verify`. -/
def verifiedReply (s : System) (i : ℕ) : Option TokenVerifyResponse :=
  match s.reqs[i]? with
  | some ⟨.verify _ _, .ret (.verified response), _, _, _⟩ => some response
  | _ => none

theorem verifiedReply_eq_some {s : System} {i : ℕ} {response : TokenVerifyResponse}
    (h : verifiedReply s i = some response) : ∃ r ∈ s.reqs, r.prog = .ret (.verified response) := by
  unfold verifiedReply at h
  split at h
  · rename_i hq
    cases h
    exact ⟨_, List.mem_of_getElem? hq, rfl⟩
  · cases h

theorem replies_confirmed_verified : ∃ s : System, ∃ r ∈ s.reqs, ∃ response : TokenVerifyResponse,
    r.prog = .ret (.verified response) ∧ response.valid = true ∧ s.db.Confirms id r.job (.verified response) := by
  have hrun : (play (app {} id) Any ⟨room, {}, 0, []⟩
      [.arrive (.instant ⟨1, .user, "mock"⟩ 1), .steps 0 "a-token-of-sixteen" 60,
        .arrive (.verify "a-token-of-sixteen" true), .steps 1 "" 20]).any
      (fun s => (verifiedReply s 1).any (·.valid)) = true := by decide
  obtain ⟨s, hs, hout⟩ := Reach.of_play_any hrun
  obtain ⟨response, hreply, hvalid⟩ := (Option.any_eq_true _ _).mp hout
  obtain ⟨r, hr, hret⟩ := verifiedReply_eq_some hreply
  exact ⟨s, r, hr, response, hret, hvalid, (replies_confirmed room_consistent hs hr).1 _ hret⟩

end SmartClassroom
