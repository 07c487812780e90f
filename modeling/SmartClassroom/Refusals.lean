/-
  A refusal has its reason.

  `Refused cfg w j err`: why the request `j` is refused with `err`, in terms of what
  it has met (`w`).  `handle_refused`: what a route raises, it has seen a reason for.
  In any interleaving the reason held at a moment when the request was under way
  (`refusals_justified`).  An internal error needs no reason.
-/
import SmartClassroom.Lib.Sight
import SmartClassroom.QuotaError
import SmartClassroom.Replies

namespace SmartClassroom

open Txn Prog

/-! ## Reasons -/

/-- An exception without a handler of its own: the answer is `internal_error`. -/
def BrokerError.internal : BrokerError → Bool
  | .reservationConflict | .reservationQuota .. | .invalidReservationWindow .. | .invalidConnectWindow ..
  | .http .. | .requestValidation _ => false
  | _ => true

/-- A statement that the database rejects, or a row that is not as it has to be. -/
def BrokerError.faulty : BrokerError → Bool
  | .sql _ | .runtime _ => true
  | _ => false

theorem BrokerError.internal_of_faulty {err : BrokerError} (h : err.faulty = true) : err.internal = true := by
  cases err <;> first | rfl | cases h

/-- `HostNotFoundError`, as both bookings answer it. -/
def noSuchHost (hostId : ℤ) : BrokerError :=
  .invalidReservationWindow "지정한 host_id에 해당하는 호스트가 없습니다" [("host_id", .int hostId)]

/-- `ReservationNotFoundError` and `NotOwnerError`, as the routes answer them. -/
def noSuchReservation : BrokerError := .http 404 [("detail", .str "예약을 찾을 수 없습니다")]

/-- The window of instant use on the store `st`. -/
def Store.instantWindow (st : Store) (hostId now : ℤ) : DateTime × DateTime :=
  SmartClassroom.instantWindow (.utc now) ((Stmt.nextStartOf st hostId now).map .utc)

section
variable (cfg : Settings) (w : Sight broker)

def HostMissing (hostId : ℤ) : Prop := ∃ st, w.store st ∧ ∀ host ∈ st.hosts, host.id ≠ hostId

/-- There was no such reservation, or none that the user may see. -/
def ReservationHidden (user : User) (id : ℤ) : Prop :=
  ∃ st, w.store st ∧ ∀ x ∈ st.reservations, x.id = id → ¬x.openTo user

/-- The quota of the user, or another booking, is in the way. -/
inductive Unbookable (user : User) (hostId : ℤ) (s e : DateTime) : BrokerError → Prop
  | concurrent {now : ℤ} {st : Store} (hnow : w.time now) (hst : w.store st) {count : ℕ}
      (hcount : count = st.reservations.countP (Stmt.concurrent user.id now))
      (h : cfg.maxConcurrentReservations ≤ count) :
      Unbookable user hostId s e (.reservationQuota s!"동시 활성 예약은 최대 {cfg.maxConcurrentReservations}건입니다"
        ((⟨.concurrent, count, cfg.maxConcurrentReservations⟩ : Compared).detail (wholeMinutes (e - s))))
  | daily {st : Store} (hst : w.store st)
      (h : cfg.maxReservationHoursPerDay * 60 < usedOfDay st user.id s + wholeMinutes (e - s)) :
      Unbookable user hostId s e (.reservationQuota s!"하루 최대 {cfg.maxReservationHoursPerDay}시간까지 예약할 수 있습니다"
        ((⟨.dailyMinutes, usedOfDay st user.id s, cfg.maxReservationHoursPerDay * 60⟩ : Compared).detail
          (wholeMinutes (e - s))))
  | overlap {st : Store} (hst : w.store st) {x : Reservation} (hx : x ∈ st.reservations) (hhost : x.hostId = hostId)
      (hactive : x.status.active = true) (h : x.timeRange.overlaps s.instant e.instant = true) :
      Unbookable user hostId s e .reservationConflict

/-- The request is refused as it is, whatever there is. -/
inductive Malformed : Job → BrokerError → Prop
  | create {user hostId s e err} (h : ReservationCreate.validate hostId s e = .error err) :
      Malformed (.create user hostId s e) err
  | window {user hostId s e err} (h : validateShape cfg s e = .error err) : Malformed (.create user hostId s e) err
  | instant {user hostId} (h : hostId ≤ 0) :
      Malformed (.instant user hostId) (.requestValidation ["Input should be greater than 0"])
  | calendar {viewer from_ to_ hostId err} (h : validateCalendar cfg from_ to_ = .error err) :
      Malformed (.calendar viewer from_ to_ hostId) err
  | connect {user id client} (h : 32 < (client.getD "").length) :
      Malformed (.connect user id client) (.requestValidation ["String should have at most 32 characters"])
  | verify {raw consume} (h : raw.length < 16) :
      Malformed (.verify raw consume) (.requestValidation ["String should have at least 16 characters"])
  | availableGrid {from_ to_ dt err} (hdt : dt = from_ ∨ dt = to_) (h : ensureGridAligned dt = .error err) :
      Malformed (.available (some from_) (some to_)) err
  | availableOrder {from_ to_} (h : to_ ≤ from_) : Malformed (.available (some from_) (some to_))
      (.invalidReservationWindow "from_은 to보다 이전이어야 합니다" [])
  | availableHalf {from_ to_} (h : from_.isSome ≠ to_.isSome) : Malformed (.available from_ to_)
      (.invalidReservationWindow "from_과 to는 함께 지정해야 합니다"
        [("from", .ofDateTime? from_), ("to", .ofDateTime? to_)])
  | rotate {admin hostId} (h : admin.role ≠ .admin) :
      Malformed (.rotateAgentToken admin hostId) (.http 403 [("detail", .str "관리자 권한 필요")])

inductive Refused : Job → BrokerError → Prop
  | malformed {j err} (h : Malformed cfg j err) : Refused j err
  /-- the window is past, or too far ahead -/
  | start {user hostId s e err now} (hnow : w.time now) (h : validateStart cfg s (.utc now) = .error err) :
      Refused (.create user hostId s e) err
  | createHost {user hostId s e} (h : HostMissing w hostId) : Refused (.create user hostId s e) (noSuchHost hostId)
  | create {user hostId s e err} (h : Unbookable cfg w user hostId s e err) : Refused (.create user hostId s e) err
  | instantHost {user hostId} (h : HostMissing w hostId) : Refused (.instant user hostId) (noSuchHost hostId)
  | instantBusy {user hostId st} {host : Host} (hst : w.store st) (hhost : host ∈ st.hosts) (hid : host.id = hostId)
      (h : host.status ≠ .idle) : Refused (.instant user hostId) (.http 409 [("error", .str "host_not_available"),
        ("message", .str "이 PC는 지금 즉시 사용할 수 없어요"), ("host_id", .int hostId)])
  | instant {user hostId st now err} (hnow : w.time now) (hst : w.store st)
      (h : Unbookable cfg w user hostId (st.instantWindow hostId now).1 (st.instantWindow hostId now).2 err) :
      Refused (.instant user hostId) err
  /-- the window was over before its token was issued -/
  | instantWindow {user hostId st now now' err} (hnow : w.time now) (hst : w.store st) (hnow' : w.time now')
      (h : connectWindow cfg (.utc (st.instantWindow hostId now).1.instant)
        (.utc (st.instantWindow hostId now).2.instant) (.utc now') = .error err) : Refused (.instant user hostId) err
  | get {user id} (h : ReservationHidden w user id) : Refused (.get user id) noSuchReservation
  | cancel {user id} (h : ReservationHidden w user id) : Refused (.cancel user id) noSuchReservation
  | connect {user id client} (h : ReservationHidden w user id) : Refused (.connect user id client) noSuchReservation
  | connectStatus {user id client st} {x : Reservation} (hst : w.store st) (hx : x ∈ st.reservations) (hid : x.id = id)
      (hopen : x.openTo user) (h : x.status ≠ .confirmed) : Refused (.connect user id client)
        (.invalidConnectWindow "예약이 활성 상태가 아닙니다"
          [("reason", .str "reservation_not_active"), ("status", .str x.status.name)])
  | connectWindow {user id client st} {x : Reservation} {now err} (hst : w.store st) (hx : x ∈ st.reservations)
      (hid : x.id = id) (hopen : x.openTo user) (hnow : w.time now)
      (h : connectWindow cfg (.utc x.timeRange.lower) (.utc x.timeRange.upper) (.utc now) = .error err) :
      Refused (.connect user id client) err
  | rotateHost {admin hostId} (h : HostMissing w hostId) : Refused (.rotateAgentToken admin hostId)
      (.http 404 [("error", .str "host_not_found"), ("host_id", .int hostId)])
  /-- may come at any time -/
  | internal {j err} (h : err.internal = true) : Refused j err

end

section
variable {cfg : Settings} {w w' : Sight broker}

theorem HostMissing.mono (hw : w ≤ w') {hostId : ℤ} (h : HostMissing w hostId) : HostMissing w' hostId := by
  obtain ⟨st, hst, h⟩ := h
  exact ⟨st, hw.1 st hst, h⟩

theorem ReservationHidden.mono (hw : w ≤ w') {user : User} {id : ℤ} (h : ReservationHidden w user id) :
    ReservationHidden w' user id := by
  obtain ⟨st, hst, h⟩ := h
  exact ⟨st, hw.1 st hst, h⟩

theorem Unbookable.mono (hw : w ≤ w') {user : User} {hostId : ℤ} {s e : DateTime} {err : BrokerError}
    (h : Unbookable cfg w user hostId s e err) : Unbookable cfg w' user hostId s e err := by
  cases h with
  | concurrent hnow hst hcount h => exact .concurrent (hw.2 _ hnow) (hw.1 _ hst) hcount h
  | daily hst h => exact .daily (hw.1 _ hst) h
  | overlap hst hx hhost hactive h => exact .overlap (hw.1 _ hst) hx hhost hactive h

/-- A reason stays one when more is met. -/
theorem Refused.mono (hw : w ≤ w') {j : Job} {err : BrokerError} (h : Refused cfg w j err) : Refused cfg w' j err := by
  cases h with
  | malformed h => exact .malformed h
  | start hnow h => exact .start (hw.2 _ hnow) h
  | createHost h => exact .createHost (h.mono hw)
  | create h => exact .create (h.mono hw)
  | instantHost h => exact .instantHost (h.mono hw)
  | instantBusy hst hhost hid h => exact .instantBusy (hw.1 _ hst) hhost hid h
  | instant hnow hst h => exact .instant (hw.2 _ hnow) (hw.1 _ hst) (h.mono hw)
  | instantWindow hnow hst hnow' h => exact .instantWindow (hw.2 _ hnow) (hw.1 _ hst) (hw.2 _ hnow') h
  | get h => exact .get (h.mono hw)
  | cancel h => exact .cancel (h.mono hw)
  | connect h => exact .connect (h.mono hw)
  | connectStatus hst hx hid hopen h => exact .connectStatus (hw.1 _ hst) hx hid hopen h
  | connectWindow hst hx hid hopen hnow h => exact .connectWindow (hw.1 _ hst) hx hid hopen (hw.2 _ hnow) h
  | rotateHost h => exact .rotateHost (h.mono hw)
  | internal h => exact .internal h

end

/-! ## Exceptions of the services -/

section
variable {cfg : Settings} {I : Store → Prop} {h : History} {α : Type}

/-- What a SELECT has read. -/
theorem sight_head (h : History) (s : Stmt) (b : ℤ) (q : Seqs) (snap cur : Store) :
    (Sight.of (.stmt s b q snap cur :: h)).store snap := Sight.of_snap List.mem_cons_self

theorem writeAudit_raises (e : AuditEntry) : (writeAudit e).Raises (·.faulty = true) :=
  (raises_query (D := broker) (.insertAudit e)).bind fun res => by cases res <;> trivial

theorem transitionHost_raises (host : Host) (status : HostStatus) (reason : String) :
    (transitionHost host status reason).Raises (·.faulty = true) := by
  unfold transitionHost
  split_ifs
  · trivial
  · exact (raises_query (D := broker) (.setHostStatus host.id status)).bind fun _ =>
      (writeAudit_raises _).bind fun _ => trivial

theorem markInUse_raises (r : Reservation) : (markInUse r).Raises (·.faulty = true) := by
  refine (raises_query (D := broker) (.getHost r.hostId)).bind fun host => ?_
  cases host with
  | none => trivial
  | some host => exact fun _ => (transitionHost_raises ..).bind fun _ => trivial

theorem releaseHost_raises (r : Reservation) : (releaseHost r).Raises (·.faulty = true) := by
  refine (raises_query (D := broker) (.getHost r.hostId)).bind fun host => ?_
  cases host with
  | none => trivial
  | some host =>
    dsimp only
    split_ifs
    · refine fun now => (raises_query (D := broker) (.activeReservation host.id now)).bind fun active => ?_
      cases active with
      | none => exact (transitionHost_raises ..).bind fun _ => trivial
      | some _ => trivial
    · trivial

theorem auditRevoked_raises (user : User) (r : Reservation) (n : ℕ) :
    (auditRevoked user r n).Raises (·.faulty = true) := by
  unfold auditRevoked
  split_ifs
  · exact writeAudit_raises _
  · trivial

theorem revokeActiveTokensForReservation_raises (id : ℤ) :
    (revokeActiveTokensForReservation id).Raises (·.faulty = true) :=
  fun now => raises_query (D := broker) (.revokeConnectTokens id now)

/-- Exceptions that have no handler. -/
theorem faulty_refused {R : History → BrokerError → Prop} {p : Service α} (hp : p.Raises (·.faulty = true))
    (hR : ∀ h err, err.internal = true → R h err) : p.Ok I (Rules.raising R) (fun _ _ => True) h :=
  hp.ok.raising fun h err hf => hR h err (BrokerError.internal_of_faulty hf)

/-- SELECTs raise for their reasons, and leave nothing pending. -/
theorem selects_refused {R : History → BrokerError → Prop} {Q : History → α → Prop} {p : Service α}
    (hs : p.Uses fun s : Stmt => s.selects = true) (hpend : pendOf h = []) (hp : p.Ok I (Rules.raising R) Q h) :
    p.Ok I (Rules.raising R) (fun h' a => Q h' a ∧ Extends h h' ∧ pendOf h' = []) h :=
  (hp.and (selects_told hs hpend)).rules (fun _ _ _ => trivial) (fun _ _ => trivial) fun _ _ => And.left

theorem validateWindow_refused (s e : DateTime) : (validateWindow cfg s e).Ok I
    (Rules.raising fun h' err => validateShape cfg s e = .error err ∨
      ∃ now, (Sight.of h').time now ∧ validateStart cfg s (.utc now) = .error err)
    (fun _ _ => True) h := by
  refine ok_bind.mpr (.lift (fun _ _ => fun now => ?_) fun err herr => .inl herr)
  exact .lift (fun _ _ => trivial) fun err herr => .inr ⟨now, List.mem_cons_self, herr⟩

theorem validateHostExists_refused (hpend : pendOf h = []) (hostId : ℤ) : (validateHostExists hostId).Ok I
    (Rules.raising fun h' err => err.kind = .hostNotFound ∧ HostMissing (Sight.of h') hostId)
    (fun h' host => ∃ st, (Sight.of h').store st ∧ host ∈ st.hosts ∧ host.id = hostId) h := by
  refine ok_bind.mpr ⟨trivial, fun b q snap cur _ _ => ?_⟩
  generalize hfound : (broker.execOn (pendOf h) (Stmt.getHost hostId) b q snap cur).2.2 = host
  rw [hpend] at hfound
  cases (host : Option Host) with
  | none =>
    refine ⟨rfl, snap, sight_head h _ b q snap cur, fun host hhost hid => ?_⟩
    simpa [hid] using List.find?_eq_none.mp hfound host hhost
  | some host =>
    exact ⟨snap, sight_head h _ b q snap cur, List.mem_of_find?_eq_some hfound, by simpa using List.find?_some hfound⟩

theorem validateQuota_refused (hpend : pendOf h = []) (user : User) (hostId : ℤ) (s e : DateTime) :
    (validateQuota cfg user s e).Ok I
      (Rules.raising fun h' err => Unbookable cfg (Sight.of h') user hostId s e err)
      (fun _ _ => True) h := by
  refine ok_bind.mpr fun now => ok_bind.mpr ⟨trivial, fun b q snap cur _ _ => ?_⟩
  have hread : (Sight.of (.stmt (Stmt.countConcurrent user.id now) b q snap cur :: .now now :: h : History)).time now :=
    List.mem_cons_of_mem _ List.mem_cons_self
  rw [DateTime.instant_utc, pendOf_now, hpend]
  change (lift (D := broker) _ >>= fun _ => _).Ok I _ _ _
  refine ok_bind.mpr (.lift (fun _ _ => ?_) fun err herr => ?_)
  · refine ok_bind.mpr ⟨trivial, fun b' q' snap' cur' _ _ => ?_⟩
    rw [pendOf_stmt, pendOf_now, hpend]
    change (lift (D := broker) _).Ok I _ _ _
    refine .lift (fun _ _ => trivial) fun err herr => ?_
    obtain ⟨h', rfl⟩ := raiseIf_eq_error.mp herr
    exact .daily (sight_head _ _ b' q' snap' cur') h'
  · obtain ⟨h', rfl⟩ := raiseIf_eq_error.mp herr
    exact .concurrent hread (sight_head _ _ b q snap cur) rfl h'

/-- A violation of `reservations_no_overlap`. -/
theorem overlap_of_violated {st : Store} {r : Reservation}
    (h : st.violatedByReservation r = some .reservationsNoOverlap) : ∃ x ∈ st.reservations, x.excludes r = true := by
  by_cases hex : (st.reservations.any fun x => x.excludes r) = true
  · exact List.any_eq_true.mp hex
  · unfold Store.violatedByReservation at h
    rw [if_neg hex] at h
    split_ifs at h <;> cases h

/-- The INSERT that another booking is in the way of. -/
theorem exec_insertReservation_overlap {userId hostId s e b : ℤ} {q : Seqs} {snap cur : Store}
    (h : ((Stmt.insertReservation userId hostId s e).exec b q snap cur).2.2 =
      .error (.integrity .reservationsNoOverlap)) :
    ∃ x ∈ cur.reservations, x.hostId = hostId ∧ x.status.active = true ∧ x.timeRange.overlaps s e = true := by
  simp only [Stmt.exec] at h
  split at h
  · cases h
  · rename_i range hrange
    split at h
    · rename_i c hc
      obtain rfl : c = .reservationsNoOverlap := by cases h; rfl
      obtain ⟨x, hx, hex⟩ := overlap_of_violated hc
      simp only [Reservation.excludes, Bool.and_eq_true, beq_iff_eq] at hex
      unfold tstzrange at hrange
      split_ifs at hrange
      cases hrange
      exact ⟨x, hx, hex.1.2, hex.1.1.1, hex.2⟩
    · cases h

/-- A row like the one that a booking inserts. -/
structure Reservation.BookedAs (r : Reservation) (user : User) (s e : DateTime) : Prop where
  userId : r.userId = user.id
  status : r.status = .confirmed
  lower : r.timeRange.lower = s.instant
  upper : r.timeRange.upper = e.instant

/-- A statement has read a committed row that has the id of a pending one. -/
def Shadowed (h : History) : Prop := ∃ s b q snap cur h₁, Ev.stmt (D := broker) s b q snap cur :: h₁ <:+ h ∧
  ∃ y, Write.insertReservation y ∈ pendOf h₁ ∧ ∃ r ∈ snap.reservations, r.id = y.id

variable (cfg) in
theorem book_refused (hpend : pendOf h = []) (user : User) (hostId : ℤ) (s e : DateTime) (instant : Bool) :
    (book user hostId s e instant).Ok I
      (Rules.raising fun h' err => err.faulty = true ∨ Unbookable cfg (Sight.of h') user hostId s e err)
      (fun h' r => r.BookedAs user s e ∨ Shadowed h') h := by
  refine Ok.bind (Q := fun (h' : History) id => ∃ y : Reservation, pendOf h' = [.insertReservation y] ∧ y.id = id ∧
    y.BookedAs user s e) ?_ ?_
  · refine ok_bind.mpr ⟨trivial, fun b q snap cur _ _ => ?_⟩
    have hcur : (Sight.of (.stmt (Stmt.insertReservation user.id hostId s.instant e.instant) b q snap cur :: h :
        History)).store cur := Sight.of_cur List.mem_cons_self
    rw [hpend, execOn_eq]
    rcases exec_insertReservation user.id hostId s.instant e.instant b q (broker.applyAll snap [])
      (broker.applyAll cur []) with ⟨y, hl, hu, huser, hhost, hst, -, -, hexec⟩ | ⟨err, hexec⟩
    · rw [hexec]
      refine ⟨y, ?_, rfl, huser, hst, hl, hu⟩
      rw [pendOf_stmt, execOn_eq, hpend, hexec]
      rfl
    · have hres := congrArg (·.2.2) hexec
      rw [hexec]
      cases err with
      | data => exact .inl rfl
      | integrity c =>
        change Ok _ _ _ (if _ then _ else _) _
        split_ifs with hc
        · rw [hc] at hres
          obtain ⟨x, hx, hxhost, hactive, hover⟩ := exec_insertReservation_overlap hres
          obtain ⟨st, b', aux', snap', cur', he, hst⟩ := hcur
          exact .inr (.overlap ⟨st, b', aux', snap', cur', List.mem_cons_of_mem _ he, hst⟩ hx hxhost hactive hover)
        · exact .inl rfl
  · rintro h₁ id ⟨y, hp, rfl, hy⟩
    refine ok_bind.mpr ⟨trivial, fun b q snap cur _ _ => ?_⟩
    generalize hfound : (broker.execOn (pendOf h₁) (Stmt.getReservation y.id) b q snap cur).2.2 = found
    cases (found : Option Reservation) with
    | none => exact .inl rfl
    | some r =>
      have hid : r.id = y.id := by simpa using List.find?_some hfound
      have hmem : r ∈ snap.reservations ∨ r = y := by
        have hmem := List.mem_of_find?_eq_some hfound
        rw [reservations_applyAll, hp] at hmem
        simpa [reservationTable, Table.updAll, Table.newAll, Write.onReservation, Write.newReservations] using hmem
      refine Ok.bind ((((writeAudit_uses _).extends _).raises (writeAudit_raises _)).raising fun _ _ => .inl)
        fun h₂ _ x₂ => ?_
      rcases hmem with hmem | rfl
      · exact .inr ⟨_, b, q, snap, cur, h₁, x₂.suffix, y, hp ▸ List.mem_cons_self, r, hmem, hid⟩
      · exact .inl hy

/-- What the checks of a window raise. -/
theorem validateShape_ne_hostNotFound {s e : DateTime} {err : BrokerError} (h : validateShape cfg s e = .error err) :
    err.kind ≠ .hostNotFound := by
  have haligned {d : DateTime} {slot : ℕ} (h : isGridAligned d slot = .error err) : err.kind ≠ .hostNotFound := by
    unfold isGridAligned at h
    split_ifs at h
    cases h
    simp [BrokerError.kind]
  simp only [validateShape, bind_eq_error, raiseIf_eq_error] at h
  rcases h with ⟨-, rfl⟩ | ⟨_, -, h | ⟨_, -, ⟨-, rfl⟩ | ⟨_, -, h | ⟨_, -, ⟨-, rfl⟩ | ⟨_, -, ⟨-, rfl⟩ |
    ⟨_, -, -, rfl⟩⟩⟩⟩⟩⟩
  all_goals first | exact haligned h | simp [BrokerError.kind]

theorem validateStart_error {s now : DateTime} {err : BrokerError} (h : validateStart cfg s now = .error err) :
    err.kind = .invalidReservationWindow := by
  simp only [validateStart, bind_eq_error, raiseIf_eq_error] at h
  rcases h with ⟨-, rfl⟩ | ⟨_, -, -, rfl⟩ <;> rfl

theorem Unbookable.kind {w : Sight broker} {user : User} {hostId : ℤ} {s e : DateTime} {err : BrokerError}
    (h : Unbookable cfg w user hostId s e err) : err.kind = .reservationQuota ∨ err.kind = .reservationConflict := by
  cases h with
  | concurrent | daily => exact .inl rfl
  | overlap => exact .inr rfl

/-- Why `create_reservation` raises. -/
def Uncreated (cfg : Settings) (w : Sight broker) (user : User) (hostId : ℤ) (s e : DateTime) (err : BrokerError) : Prop :=
  err.kind = .hostNotFound ∧ HostMissing w hostId ∨
    err.kind ≠ .hostNotFound ∧ Refused cfg w (.create user hostId s e) err

theorem BrokerError.kind_of_faulty {err : BrokerError} (h : err.faulty = true) :
    err.kind ≠ .hostNotFound ∧ err.kind ≠ .hostNotAvailable := by
  cases err <;> simp_all [BrokerError.faulty, BrokerError.kind]

theorem createReservation_refused (user : User) (hostId : ℤ) (s e : DateTime) :
    (createReservation cfg user hostId s e).Ok I
      (Rules.raising fun h' err => Uncreated cfg (Sight.of h') user hostId s e err) (fun _ _ => True) [] := by
  refine (selects_refused (validateWindow_selects s e) rfl ((validateWindow_refused s e).raising ?_)).bind
    fun h₁ _ ⟨_, _, hp₁⟩ => ?_
  · rintro h err (hshape | ⟨now, hnow, hstart⟩)
    · exact .inr ⟨validateShape_ne_hostNotFound hshape, .malformed (.window hshape)⟩
    · exact .inr ⟨by rw [validateStart_error hstart]; nofun, .start hnow hstart⟩
  refine (selects_refused (validateHostExists_selects hostId) hp₁
    ((validateHostExists_refused hp₁ hostId).raising fun h err => .inl)).bind fun h₂ host ⟨_, _, hp₂⟩ => ?_
  have hunbookable (h : History) (err : BrokerError) (hun : Unbookable cfg (Sight.of h) user hostId s e err) :
      Uncreated cfg (Sight.of h) user hostId s e err :=
    .inr ⟨by rcases hun.kind with hk | hk <;> rw [hk] <;> nofun, .create hun⟩
  refine (selects_refused (validateQuota_selects user s e) hp₂
    ((validateQuota_refused hp₂ user hostId s e).raising hunbookable)).bind fun h₃ _ ⟨_, _, hp₃⟩ => ?_
  refine ((book_refused cfg hp₃ user hostId s e false).raising fun h err hraise => ?_).mono fun _ _ _ => trivial
  rcases hraise with hf | hun
  · exact .inr ⟨(BrokerError.kind_of_faulty hf).1, .internal (BrokerError.internal_of_faulty hf)⟩
  · exact hunbookable h err hun

/-- Why `create_instant_reservation` raises. -/
def UncreatedInstant (cfg : Settings) (w : Sight broker) (user : User) (hostId : ℤ) (err : BrokerError) : Prop :=
  err.kind = .hostNotFound ∧ HostMissing w hostId ∨
    err.kind = .hostNotAvailable ∧
      (∃ st, w.store st ∧ ∃ host ∈ st.hosts, host.id = hostId ∧ host.status ≠ .idle) ∨
    err.kind ≠ .hostNotFound ∧ err.kind ≠ .hostNotAvailable ∧ Refused cfg w (.instant user hostId) err

/-- The row of an instant reservation, as it is read back. -/
def InstantRow (h : History) (user : User) (hostId : ℤ) (r : Reservation) : Prop :=
  (∃ now st, (Sight.of h).time now ∧ (Sight.of h).store st ∧
    r.BookedAs user (st.instantWindow hostId now).1 (st.instantWindow hostId now).2) ∨ Shadowed h

theorem createInstantReservation_refused (user : User) (hostId : ℤ) : (createInstantReservation cfg user hostId).Ok I
    (Rules.raising fun h' err => UncreatedInstant cfg (Sight.of h') user hostId err)
    (fun h' r => InstantRow h' user hostId r) [] := by
  refine ok_bind.mpr fun now => ?_
  change (validateHostExists hostId >>= fun _ => _).Ok I _ _ (.now now :: [])
  refine (selects_refused (validateHostExists_selects hostId) rfl
    ((validateHostExists_refused rfl hostId).raising fun h err => .inl)).bind ?_
  rintro h₁ host ⟨⟨st₁, hst₁, hhost, hid⟩, x₁, hp₁⟩
  refine ok_bind.mpr (.lift (fun _ _ => ?_) fun err herr => ?_)
  swap
  · obtain ⟨hidle, rfl⟩ := raiseIf_eq_error.mp herr
    exact .inr (.inl ⟨rfl, st₁, hst₁, host, hhost, hid, hidle⟩)
  have hnext : (nextReservationStart hostId (.utc now)).Ok I
      (Rules.raising fun h' err => UncreatedInstant cfg (Sight.of h') user hostId err)
      (fun h' next => ∃ st, (Sight.of h').store st ∧
        SmartClassroom.instantWindow (.utc now) next = st.instantWindow hostId now) h₁ := by
    refine ok_bind.mpr ⟨trivial, fun b q snap cur _ _ => ?_⟩
    rw [hp₁, DateTime.instant_utc]
    refine ⟨snap, sight_head h₁ _ b q snap cur, ?_⟩
    rw [execOn_eq]
    simp only [Stmt.exec, DateTime.orTz_utc]
    rfl
  refine (selects_refused (nextReservationStart_selects hostId _) hp₁ hnext).bind ?_
  rintro h₂ next ⟨⟨st, hst, hwindow⟩, x₂, hp₂⟩
  dsimp only
  rw [hwindow]
  have hnow₂ : (Sight.of h₂).time now := (x₁.trans x₂).suffix.subset List.mem_cons_self
  -- the quota and the INSERT are of this window
  have hunbookable (h : History) (hsuf : h₂ <:+ h) (err : BrokerError)
      (hun : Unbookable cfg (Sight.of h) user hostId (st.instantWindow hostId now).1 (st.instantWindow hostId now).2 err) :
      UncreatedInstant cfg (Sight.of h) user hostId err := by
    have hne : err.kind ≠ .hostNotFound ∧ err.kind ≠ .hostNotAvailable := by
      rcases hun.kind with hk | hk <;> simp [hk]
    exact .inr (.inr ⟨hne.1, hne.2, .instant ((Sight.of_mono hsuf).2 _ hnow₂) ((Sight.of_mono hsuf).1 _ hst) hun⟩)
  refine (selects_refused (validateQuota_selects user _ _) hp₂
    (((validateQuota_refused hp₂ user hostId _ _).raising_later hunbookable).mono fun _ _ => And.right)).bind ?_
  rintro h₃ _ ⟨_, x₃, hp₃⟩
  refine ((book_refused cfg hp₃ user hostId _ _ true).raising_later fun h hsuf err hraise => ?_).mono ?_
  · rcases hraise with hf | hun
    · obtain ⟨hne, hne'⟩ := BrokerError.kind_of_faulty hf
      exact .inr (.inr ⟨hne, hne', .internal (BrokerError.internal_of_faulty hf)⟩)
    · exact hunbookable h (x₃.suffix.trans hsuf) err hun
  · rintro h r ⟨hsuf, hbooked | hshadowed⟩
    · have hle := Sight.of_mono (x₃.suffix.trans hsuf)
      exact .inl ⟨now, st, hle.2 _ hnow₂, hle.1 _ hst, hbooked⟩
    · exact .inr hshadowed

/-! ## Tokens -/

theorem connectGate_error {user : User} {r : Reservation} {err : BrokerError} (h : connectGate user r = .error err) :
    err.internal = true ∨ (user.role = .admin ∨ r.userId = user.id) ∧ r.status ≠ .confirmed ∧
      err = .invalidConnectWindow "예약이 활성 상태가 아닙니다"
        [("reason", .str "reservation_not_active"), ("status", .str r.status.name)] := by
  simp only [connectGate, bind_eq_error, raiseIf_eq_error] at h
  rcases h with h | ⟨_, ha, ⟨hst, rfl⟩ | ⟨_, -, h⟩⟩
  · unfold assertCanAccess at h
    split_ifs at h
    cases h
    exact .inl rfl
  · exact .inr ⟨assertCanAccess_eq_ok.mp ha, hst, rfl⟩
  · unfold reservationBounds at h
    split at h
    · cases h
    · cases h
      exact .inl rfl

/-- Why no token is issued to the user for the row. -/
def Unissued (cfg : Settings) (w : Sight broker) (user : User) (r : Reservation) (err : BrokerError) : Prop :=
  err.internal = true ∨
    (r.openTo user ∧ r.status ≠ .confirmed ∧ err = .invalidConnectWindow "예약이 활성 상태가 아닙니다"
      [("reason", .str "reservation_not_active"), ("status", .str r.status.name)]) ∨
    r.openTo user ∧ ∃ now, w.time now ∧
      connectWindow cfg (.utc r.timeRange.lower) (.utc r.timeRange.upper) (.utc now) = .error err

theorem issueConnectTokenResponse_refused (hashRaw : String → String) (user : User) (r : Reservation)
    (client : Option String) : (issueConnectTokenResponse cfg hashRaw user r client).Ok I
      (Rules.raising fun h' err => Unissued cfg (Sight.of h') user r err) (fun _ _ => True) h := by
  refine ok_bind.mpr ⟨trivial, fun b q snap cur _ _ => ?_⟩
  generalize (broker.execOn (pendOf h) (Stmt.getHost r.hostId) b q snap cur).2.2 = host
  cases (host : Option Host) with
  | none => exact .inl rfl
  | some host =>
    refine Ok.bind (Q := fun _ _ => True) ?_ fun h₂ issued _ => ?_
    · refine ok_bind.mpr (.lift (fun bounds hgate => ?_) fun err herr => ?_)
      · obtain ⟨hopen, -, -, rfl⟩ := connectGate_eq_ok.mp hgate
        refine ok_bind.mpr fun now => ?_
        change (lift (D := broker) _ >>= fun _ => _).Ok I _ _ _
        refine ok_bind.mpr (.lift (fun _ _ => ?_) fun err herr => ?_)
        · refine faulty_refused ?_ fun _ _ => .inl
          refine (revokeActiveTokensForReservation_raises r.id).bind fun _ => Raises.bind (fun _ => trivial) fun raw =>
            (raises_query (D := broker) (.insertToken _)).bind fun res => Raises.bind ?_ fun _ => trivial
          cases res <;> trivial
        · exact .inr (.inr ⟨hopen, now, List.mem_cons_self, herr⟩)
      · rcases connectGate_error herr with hint | hst
        · exact .inl hint
        · exact .inr (.inl hst)
    · refine faulty_refused ?_ fun _ _ => .inl
      exact (auditRevoked_raises user r _).bind fun _ => (writeAudit_raises _).bind fun _ => trivial

/-! ## Routes -/

theorem toRead_error {r : Reservation} {err : BrokerError} (h : toRead r = .error err) : err.faulty = true := by
  rcases bind_eq_error.mp h with h | ⟨bounds, -, h⟩
  · unfold reservationBounds at h
    split at h <;> cases h
    rfl
  · cases h

theorem toRead_raises (r : Reservation) {f : ReservationRead → Service Reply} (hf : ∀ read, (f read).Raises (·.faulty = true)) :
    ((lift (toRead r) : Service ReservationRead) >>= f).Raises (·.faulty = true) :=
  Raises.bind (raises_lift fun _ => toRead_error) hf

theorem hostNotFoundAsWindow_refused {hostId : ℤ} {err : BrokerError} :
    hostNotFoundAsWindow hostId err = throw (if err.kind = .hostNotFound then noSuchHost hostId else err) := by
  cases err <;> rfl

theorem create_refused (user : User) (hostId : ℤ) (s e : DateTime) : (createReservationEndpoint cfg user hostId s e).Ok I
    (Rules.raising fun h err => Refused cfg (Sight.of h) (.create user hostId s e) err) (fun _ _ => True) [] := by
  refine ok_bind.mpr (.lift (fun payload hv => ?_) fun err herr => .malformed (.create herr))
  obtain ⟨rfl, rfl, rfl⟩ : payload.hostId = hostId ∧ payload.startsAt = s ∧ payload.endsAt = e := by
    unfold ReservationCreate.validate at hv
    split_ifs at hv
    obtain rfl := Except.ok.inj hv
    exact ⟨rfl, rfl, rfl⟩
  refine (Ok.rethrow (fun h err herr => ⟨_, hostNotFoundAsWindow_refused, ?_⟩)
    (createReservation_refused user payload.hostId payload.startsAt payload.endsAt)).bind fun h r _ => ?_
  · rcases herr with ⟨hk, hno⟩ | ⟨hk, hr⟩
    · rw [if_pos hk]
      exact .createHost hno
    · rw [if_neg hk]
      exact hr
  · refine faulty_refused ?_ fun _ _ => .internal
    exact toRead_raises r fun _ => trivial

theorem instantErrors_refused {hostId : ℤ} {err : BrokerError} : instantErrors hostId err =
    throw (if err.kind = .hostNotFound then noSuchHost hostId else if err.kind = .hostNotAvailable then
      .http 409 [("error", .str "host_not_available"), ("message", .str "이 PC는 지금 즉시 사용할 수 없어요"),
        ("host_id", .int hostId)] else err) := by
  cases err <;> rfl

theorem instant_refused (hashRaw : String → String) (user : User) (hostId : ℤ) :
    (instantReservationEndpoint cfg hashRaw user hostId).Ok I
      (Rules.raising fun h err => Refused cfg (Sight.of h) (.instant user hostId) err ∨ Shadowed h) (fun _ _ => True) [] := by
  refine ok_bind.mpr (.lift (fun _ _ => ?_) fun err herr => ?_)
  swap
  · obtain ⟨hle, rfl⟩ := raiseIf_eq_error.mp herr
    exact .inl (.malformed (.instant hle))
  refine (Ok.rethrow (fun h err herr => ⟨_, instantErrors_refused, ?_⟩)
    (createInstantReservation_refused user hostId)).bind fun h₁ r hrow => ?_
  · refine .inl ?_
    rcases herr with ⟨hk, hno⟩ | ⟨hk, st, hst, host, hhost, hid, hbusy⟩ | ⟨hk, hk', hr⟩
    · rw [if_pos hk]
      exact .instantHost hno
    · rw [if_neg (by rw [hk]; nofun), if_pos hk]
      exact .instantBusy hst hhost hid hbusy
    · rw [if_neg hk, if_neg hk']
      exact hr
  refine Ok.bind ((issueConnectTokenResponse_refused hashRaw user r _).raising_later fun h hsuf err herr => ?_)
    fun h₂ response _ => faulty_refused ((markInUse_raises r).bind fun _ => trivial) fun _ _ hint => .inl (.internal hint)
  rcases hrow with ⟨now, st, hnow, hst, hbooked⟩ | hshadowed
  · have hle := Sight.of_mono hsuf
    rcases herr with hint | ⟨-, hstatus, -⟩ | ⟨-, now', hnow', hclosed⟩
    · exact .inl (.internal hint)
    · exact absurd hbooked.status hstatus
    · rw [hbooked.lower, hbooked.upper] at hclosed
      exact .inl (.instantWindow (hle.2 _ hnow) (hle.1 _ hst) hnow' hclosed)
  · obtain ⟨s, b, q, snap, cur, h₀, hsuf₀, hmem⟩ := hshadowed
    exact .inr ⟨s, b, q, snap, cur, h₀, hsuf₀.trans hsuf, hmem⟩

theorem notFoundAs404_refused {err : BrokerError} : notFoundAs404 err =
    throw (if err.kind = .reservationNotFound ∨ err.kind = .notOwner then noSuchReservation else err) := by
  cases err <;> rfl

/-- Why `get_reservation` raises. -/
def Unfound (w : Sight broker) (user : User) (id : ℤ) (err : BrokerError) : Prop :=
  (err.kind = .reservationNotFound ∨ err.kind = .notOwner) ∧ ReservationHidden w user id

theorem getReservation_refused (hpend : pendOf h = []) (user : User) (id : ℤ) : (getReservation user id).Ok Consistent
    (Rules.raising fun h' err => Unfound (Sight.of h') user id err)
    (fun h' r => h <:+ h' ∧ ∃ st, (Sight.of h').store st ∧ r ∈ st.reservations ∧ r.id = id ∧ r.openTo user) h := by
  refine ok_bind.mpr ⟨trivial, fun b q snap cur hsnap _ => ?_⟩
  have hst := sight_head h (Stmt.getReservation id) b q snap cur
  generalize hfound : (broker.execOn (pendOf h) (Stmt.getReservation id) b q snap cur).2.2 = found
  rw [hpend] at hfound
  cases (found : Option Reservation) with
  | none =>
    refine ⟨.inl rfl, snap, hst, fun x hx hid => ?_⟩
    simpa [hid] using List.find?_eq_none.mp hfound x hx
  | some r =>
    have hmem : r ∈ snap.reservations := List.mem_of_find?_eq_some hfound
    have hid : r.id = id := by simpa using List.find?_some hfound
    refine ok_bind.mpr (.lift (fun _ ha => ?_) fun err herr => ?_)
    · exact ⟨List.suffix_cons _ _, snap, hst, hmem, hid, assertCanAccess_eq_ok.mp ha⟩
    · have hclosed : ¬r.openTo user := fun hopen => by
        rw [assertCanAccess_eq_ok (u := ()).mpr hopen] at herr
        cases herr
      unfold assertCanAccess at herr
      split_ifs at herr
      cases herr
      exact ⟨.inr rfl, snap, hst, fun x hx hxid => hsnap.reservation_eq hmem hx (hid.trans hxid.symm) ▸ hclosed⟩

/-- The reservation of a route that answers 404 where there is none. -/
theorem found_refused {j : Job} (user : User) (id : ℤ)
    (hj : ∀ w, ReservationHidden w user id → Refused cfg w j noSuchReservation) {p : Service Reservation}
    {Q : History → Reservation → Prop}
    (hp : p.Ok Consistent (Rules.raising fun h' err => Unfound (Sight.of h') user id err ∨ err.faulty = true) Q []) :
    (tryCatch p notFoundAs404).Ok Consistent (Rules.raising fun h' err => Refused cfg (Sight.of h') j err) Q [] := by
  refine hp.rethrow fun h err herr => ⟨_, notFoundAs404_refused, ?_⟩
  rcases herr with ⟨hk, hno⟩ | hf
  · rw [if_pos hk]
    exact hj _ hno
  · rw [if_neg (by cases err <;> simp_all [BrokerError.faulty, BrokerError.kind])]
    exact .internal (BrokerError.internal_of_faulty hf)

theorem get_refused (user : User) (id : ℤ) : (getReservationEndpoint user id).Ok Consistent
    (Rules.raising fun h err => Refused cfg (Sight.of h) (.get user id) err) (fun _ _ => True) [] := by
  refine (found_refused user id (fun _ => .get) ((getReservation_refused rfl user id).raising fun _ _ => .inl)).bind
    fun h r _ => faulty_refused (toRead_raises r fun _ => trivial) fun _ _ => .internal

theorem cancel_refused (user : User) (id : ℤ) : (cancelReservationEndpoint user id).Ok Consistent
    (Rules.raising fun h err => Refused cfg (Sight.of h) (.cancel user id) err) (fun _ _ => True) [] := by
  refine (found_refused user id (fun _ => .cancel) (Q := fun _ _ => True) ?_).bind fun h r _ =>
    faulty_refused ((releaseHost_raises r).bind fun _ => trivial) fun _ _ => .internal
  refine ((getReservation_refused rfl user id).raising fun _ _ => .inl).bind fun h r _ => ?_
  refine Ok.raising (fun _ _ => .inr) (Raises.ok ?_)
  by_cases hst : r.status = .canceled
  · rw [if_pos hst]
    trivial
  · rw [if_neg hst]
    refine fun now => (raises_query (D := broker) (.cancelReservation r.id now)).bind fun _ => Raises.bind ?_ fun r' =>
      (writeAudit_raises _).bind fun _ => trivial
    refine (raises_query (D := broker) (.getReservation r.id)).bind fun found => ?_
    cases found <;> trivial

theorem connect_refused (hashRaw : String → String) (user : User) (id : ℤ) (client : Option String) :
    (connectTokenEndpoint cfg hashRaw user id client).Ok Consistent
      (Rules.raising fun h err => Refused cfg (Sight.of h) (.connect user id client) err) (fun _ _ => True) [] := by
  refine ok_bind.mpr (.lift (fun _ _ => ?_) fun err herr => ?_)
  swap
  · obtain ⟨hlong, rfl⟩ := raiseIf_eq_error.mp herr
    exact .malformed (.connect hlong)
  refine (found_refused user id (fun _ => .connect) ((getReservation_refused rfl user id).raising fun _ _ => .inl)).bind ?_
  rintro h r ⟨-, st, hst, hmem, hid, hopen⟩
  refine Ok.bind ((issueConnectTokenResponse_refused hashRaw user r client).raising_later fun h' hsuf err herr => ?_)
    fun _ _ _ => ⟨trivial, trivial⟩
  have hle := Sight.of_mono hsuf
  rcases herr with hint | ⟨-, hstatus, rfl⟩ | ⟨-, now, hnow, hclosed⟩
  · exact .internal hint
  · exact .connectStatus (hle.1 _ hst) hmem hid hopen hstatus
  · exact .connectWindow (hle.1 _ hst) hmem hid hopen hnow hclosed

/-- Where a mapped list raises. -/
theorem exists_of_mapM_eq_error {β : Type} {f : α → Except BrokerError β} {err : BrokerError} : ∀ {xs : List α},
    xs.mapM f = .error err → ∃ x ∈ xs, f x = .error err := by
  intro xs
  induction xs with
  | nil => exact fun h => by cases h
  | cons x xs ih =>
    intro h
    rw [List.mapM_cons] at h
    rcases bind_eq_error.mp h with h | ⟨b, -, h⟩
    · exact ⟨x, List.mem_cons_self, h⟩
    · rcases bind_eq_error.mp h with h | ⟨bs, -, h⟩
      · obtain ⟨x', hx', hfx'⟩ := ih h
        exact ⟨x', List.mem_cons_of_mem _ hx', hfx'⟩
      · cases h

theorem list_raises (viewer : User) (from_ to_ : Option DateTime) (hostId userId : Option ℤ) :
    (listReservationsEndpoint viewer from_ to_ hostId userId).Raises (·.faulty = true) := by
  refine (raises_query (D := broker) (.reservations _)).bind fun items => Raises.bind (raises_lift fun err herr => ?_)
    fun _ => trivial
  obtain ⟨r, -, hr⟩ := exists_of_mapM_eq_error herr
  exact toRead_error hr

theorem calendar_refused (viewer : User) (from_ to_ : DateTime) (hostId : Option ℤ) :
    (calendarEndpoint cfg viewer from_ to_ hostId).Ok I
      (Rules.raising fun h err => Refused cfg (Sight.of h) (.calendar viewer from_ to_ hostId) err) (fun _ _ => True) [] := by
  refine Ok.bind (Q := fun _ _ => True) ?_ fun _ _ _ => trivial
  refine ok_bind.mpr (.lift (fun _ _ => ?_) fun err herr => .malformed (.calendar herr))
  have hhosts : (calendarHosts hostId).Raises (·.faulty = true) := by cases hostId <;> first | trivial | exact fun _ => trivial
  exact faulty_refused (hhosts.bind fun ids => (raises_query (D := broker) (.calendar _ _ hostId)).bind
    fun _ => trivial) fun _ _ => .internal

theorem verify_refused (hashRaw : String → String) (raw : String) (consume : Bool) :
    (verifyTokenEndpoint hashRaw raw consume).Ok I
      (Rules.raising fun h err => Refused cfg (Sight.of h) (.verify raw consume) err) (fun _ _ => True) [] := by
  refine ok_bind.mpr (.lift (fun _ _ => ?_) fun err herr => ?_)
  · refine faulty_refused ?_ fun _ _ => .internal
    have hanswer (action : String) (targetId : Option ℤ) (detail : Detail) (response : TokenVerifyResponse) :
        (answerVerify action targetId detail response).Raises (·.faulty = true) :=
      (writeAudit_raises _).bind fun _ => trivial
    have hverify : (verifyConnectToken hashRaw raw).Raises (·.faulty = true) := by
      unfold verifyConnectToken
      split_ifs
      · trivial
      · exact fun now => raises_query (D := broker) (.tokenByJti ..)
    refine hverify.bind fun found => ?_
    cases found with
    | none => exact hanswer _ _ _ _
    | some token =>
      cases consume with
      | false => exact hanswer _ _ _ _
      | true =>
        refine Raises.bind (fun now => (raises_query (D := broker) (.consumeToken token.id now)).bind fun _ => trivial)
          fun consumed => ?_
        cases consumed <;> exact hanswer _ _ _ _
  · obtain ⟨hshort, rfl⟩ := raiseIf_eq_error.mp herr
    exact .malformed (.verify hshort)

theorem withAvailableUntil_raises (now : DateTime) : ∀ rows, (withAvailableUntil now rows).Raises (·.faulty = true)
  | [] => trivial
  | (id, next) :: rows => by
    refine (raises_query (D := broker) (.getHost id)).bind fun host => ?_
    refine (withAvailableUntil_raises now rows).bind fun rest => ?_
    cases host <;> trivial

theorem available_refused (from_ to_ : Option DateTime) : (listAvailableHostsEndpoint from_ to_).Ok I
    (Rules.raising fun h err => Refused cfg (Sight.of h) (.available from_ to_) err) (fun _ _ => True) [] := by
  cases from_ with
  | none =>
    cases to_ with
    | none =>
      refine faulty_refused (Raises.bind (fun now => ?_) fun _ => trivial) fun _ _ => .internal
      exact (raises_query (D := broker) (.instantHosts now)).bind fun rows => withAvailableUntil_raises _ rows
    | some to_ => exact .malformed (.availableHalf (by simp))
  | some from_ =>
    cases to_ with
    | none => exact .malformed (.availableHalf (by simp))
    | some to_ =>
      refine ok_bind.mpr (.lift (fun _ _ => ?_) fun err herr => .malformed (.availableGrid (.inl rfl) herr))
      refine ok_bind.mpr (.lift (fun _ _ => ?_) fun err herr => .malformed (.availableGrid (.inr rfl) herr))
      refine ok_bind.mpr (.lift (fun _ _ => ?_) fun err herr => ?_)
      · exact faulty_refused ((raises_query (D := broker) (.idleHosts ..)).bind fun _ => trivial) fun _ _ => .internal
      · obtain ⟨horder, rfl⟩ := raiseIf_eq_error.mp herr
        exact .malformed (.availableOrder horder)

theorem rotate_refused (hashRaw : String → String) (admin : User) (hostId : ℤ) :
    (rotateAgentTokenEndpoint cfg hashRaw admin hostId).Ok I
      (Rules.raising fun h err => Refused cfg (Sight.of h) (.rotateAgentToken admin hostId) err) (fun _ _ => True) [] := by
  refine ok_bind.mpr (.lift (fun _ _ => ?_) fun err herr => ?_)
  swap
  · obtain ⟨hrole, rfl⟩ := raiseIf_eq_error.mp herr
    exact .malformed (.rotate hrole)
  refine ok_bind.mpr ⟨trivial, fun b q snap cur _ _ => ?_⟩
  generalize hfound : (broker.execOn (pendOf []) (Stmt.getHost hostId) b q snap cur).2.2 = host
  cases (host : Option Host) with
  | none =>
    refine .rotateHost ⟨snap, sight_head [] _ b q snap cur, fun host hhost hid => ?_⟩
    simpa [hid] using List.find?_eq_none.mp hfound host hhost
  | some host =>
    refine faulty_refused (Raises.bind ?_ fun _ => trivial) fun _ _ => .internal
    refine Raises.bind (fun now => raises_query (D := broker) (.revokeAgentTokens host.id now)) fun _ => fun now raw =>
      (raises_query (D := broker) (.insertToken _)).bind fun res => Raises.bind ?_ fun _ => trivial
    cases res <;> trivial

/-- A route has seen a reason for each exception. -/
theorem handle_refused (hashRaw : String → String) (j : Job) : (handle cfg hashRaw j).Ok Consistent
    (Rules.raising fun h err => Refused cfg (Sight.of h) j err ∨ Shadowed h) (fun _ _ => True) [] := by
  cases j with
  | create user hostId s e => exact (create_refused user hostId s e).raising fun _ _ => .inl
  | instant user hostId => exact instant_refused hashRaw user hostId
  | list viewer from_ to_ hostId userId =>
    exact faulty_refused (list_raises viewer from_ to_ hostId userId) fun _ _ hint => .inl (.internal hint)
  | calendar viewer from_ to_ hostId => exact (calendar_refused viewer from_ to_ hostId).raising fun _ _ => .inl
  | get user id => exact (get_refused user id).raising fun _ _ => .inl
  | cancel user id => exact (cancel_refused user id).raising fun _ _ => .inl
  | connect user id client => exact (connect_refused hashRaw user id client).raising fun _ _ => .inl
  | verify raw consume => exact (verify_refused hashRaw raw consume).raising fun _ _ => .inl
  | available from_ to_ => exact (available_refused from_ to_).raising fun _ _ => .inl
  | rotateAgentToken admin hostId => exact (rotate_refused hashRaw admin hostId).raising fun _ _ => .inl

end

/-! ## Tokens that are not valid -/

section
variable (hashRaw : String → String)

/-- Why a token is answered as not valid, and with which `reason`. -/
inductive Declined (w : Sight broker) (raw : String) (consume : Bool) : Option String → Prop
  | unknown {now st} (hnow : w.time now) (hst : w.store st)
      (h : ∀ t ∈ st.tokens, Stmt.valid .connect (hashRaw raw) now t = false) :
      Declined w raw consume (some "invalid_or_expired")
  | consumed {st} {t : Token} (hst : w.store st) (ht : t ∈ st.tokens) (hjti : t.jti = hashRaw raw)
      (hpurpose : t.purpose = .connect) (h : t.active = false) (hconsume : consume = true) :
      Declined w raw consume (some "already_consumed")

/-- The UPDATE has missed the token that the verification before it has found. -/
def Missed (h : History) (raw : String) : Prop := ∃ now b q snap cur h₁ t now' snap' cur',
  .stmt (Stmt.consumeToken t.id now) b q snap cur :: h₁ <:+ h ∧ Looked hashRaw raw h₁ now' snap' cur' t ∧
    Consistent cur ∧ (Stmt.hits Token.id (Stmt.consumable t.id) snap.tokens cur.tokens).length ≠ 1

/-- What a negative answer leaves. -/
def Denied (j : Job) (h : History) (reply : Reply) : Prop :=
  ∀ raw consume response, j = .verify raw consume → reply = .verified response → response.valid = false →
    Declined hashRaw (Sight.of h) raw consume response.reason ∨
      (consume = true ∧ response.reason = some "already_consumed" ∧ Missed hashRaw h raw)

variable {hashRaw} {I : Store → Prop} {h : History}

theorem Declined.mono {w w' : Sight broker} (hw : w ≤ w') {raw : String} {consume : Bool} {reason : Option String}
    (hd : Declined hashRaw w raw consume reason) : Declined hashRaw w' raw consume reason := by
  cases hd with
  | unknown hnow hst h => exact .unknown (hw.2 _ hnow) (hw.1 _ hst) h
  | consumed hst ht hjti hpurpose h hconsume => exact .consumed (hw.1 _ hst) ht hjti hpurpose h hconsume

theorem verify_denied (raw : String) (consume : Bool) :
    (verifyTokenEndpoint hashRaw raw consume).Ok Consistent Rules.none (Denied hashRaw (.verify raw consume)) [] := by
  have hvalid {action : String} {t : Token} {h : History} :
      (answerValid action t).Ok Consistent Rules.none (Denied hashRaw (.verify raw consume)) h := by
    refine answerVerify_told fun h' _ => ?_
    rintro _ _ _ - heq hfalse
    cases heq
    cases hfalse
  refine ok_bind.mpr (.lift (fun _ hlong => ?_) fun _ _ => trivial)
  have hne : raw ≠ "" := by
    rintro rfl
    exact absurd (raiseIf_eq_ok.mp hlong) (by decide)
  unfold verifyConnectToken
  rw [if_neg hne]
  refine ok_bind.mpr fun now => ⟨trivial, fun b q snap cur _ _ => ?_⟩
  rw [DateTime.instant_utc]
  generalize hfound : (broker.execOn (pendOf _) (Stmt.tokenByJti .connect (hashRaw raw) now) b q snap cur).2.2 = found
  cases (found : Option Token) with
  | none =>
    refine answerVerify_told fun h' x => ?_
    rintro _ _ _ hj hreply -
    cases hj
    cases hreply
    have hle := Sight.of_mono (x.suffix.trans (List.suffix_cons .commit h'))
    refine .inl (.unknown (hle.2 now (List.mem_cons_of_mem _ List.mem_cons_self)) (hle.1 snap (sight_head _ _ b q snap cur))
      fun t ht => ?_)
    simpa using List.find?_eq_none.mp hfound t ht
  | some t =>
    have hlooked : Looked hashRaw raw (.stmt (Stmt.tokenByJti .connect (hashRaw raw) now) b q snap cur :: .now now :: [])
        now snap cur t :=
      ⟨.head _ _ b q snap cur, List.mem_of_find?_eq_some hfound, List.find?_some hfound⟩
    cases consume with
    | false => exact hvalid
    | true =>
      refine ok_bind.mpr (ok_bind.mpr fun now' => ok_bind.mpr ⟨trivial, fun b' q' snap' cur' _ hcur' => ?_⟩)
      rw [DateTime.instant_utc]
      change (if (_ : Bool) = true then _ else _ : Service Reply).Ok _ _ _ _
      split_ifs with hone
      · exact hvalid
      · refine answerVerify_told fun h' x => ?_
        rintro _ _ _ hj hreply -
        cases hj
        cases hreply
        refine .inr ⟨rfl, rfl, now', b', q', snap', cur', _, t, now, snap, cur, x.suffix.trans (List.suffix_cons _ _),
          hlooked.of_suffix (List.suffix_cons _ _), hcur', fun hlen => hone (beq_iff_eq.mpr hlen)⟩

/-- A negative answer has a reason too. -/
theorem handle_denied {cfg : Settings} (j : Job) :
    (handle cfg hashRaw j).Ok Consistent Rules.none (Denied hashRaw j) [] := by
  have hfree (hj : ∀ raw consume, j ≠ .verify raw consume) :
      (handle cfg hashRaw j).Ok Consistent Rules.none (Denied hashRaw j) [] := by
    refine ok_of_free ?_ ?_ ?_ ?_ _ _
    · exact fun _ _ => trivial
    · exact fun _ => trivial
    · exact fun _ _ => trivial
    · exact fun _ _ raw consume _ heq => absurd heq (hj raw consume)
  cases j with
  | verify raw consume => exact verify_denied raw consume
  | _ => exact hfree nofun

end

/-! ## Runs -/

section
variable {cfg : Settings} {hashRaw : String → String} {C : System → Label Job ℤ String → Prop}
  {db : Store} {aux : Seqs} {clock : ℤ} {s : System} {r : Req broker Job BrokerError Reply} {i : ℕ}

/-- The id of a new row is new. -/
theorem not_shadowed (hdb : Consistent db) (h : Reach (app cfg hashRaw) C ⟨db, aux, clock, []⟩ s)
    (hi : s.reqs[i]? = some r) : ¬Shadowed r.log := by
  rintro ⟨st, b, q, snap, cur, h₁, hsuf, y, hy, x, hx, hid⟩
  obtain ⟨ws, -, hnew⟩ := reservationTable.exists_mem_newAll hy (List.mem_singleton_self y)
  refine (h.snap_apart (reservations_guarded cfg) app_keeps Store.grows (.init hdb.ranges)
    ⟨hdb.reservations, by simp, by simp, by simp⟩ rfl i r hi).2 st b q snap cur h₁ hsuf _ hnew x hx (.inl ?_)
  rw [(updAll_reservation_evolves ws y).id, hid]

/-- An UPDATE of a row that is active in both stores hits it. -/
theorem length_hits_consumable {snap cur : Store} (hcur : Consistent cur) {y z : Token} (hy : y ∈ snap.tokens)
    (hz : z ∈ cur.tokens) (hid : z.id = y.id) (hya : y.active = true) (hza : z.active = true) :
    (Stmt.hits Token.id (Stmt.consumable y.id) snap.tokens cur.tokens).length = 1 := by
  have hmem : y.id ∈ Stmt.hits Token.id (Stmt.consumable y.id) snap.tokens cur.tokens :=
    mem_hits.mpr ⟨⟨z, hz, by simp [Stmt.consumable, hid, hza], hid⟩, y, hy, by simp [Stmt.consumable, hya], rfl⟩
  have hall : ∀ id ∈ Stmt.hits Token.id (Stmt.consumable y.id) snap.tokens cur.tokens, id = y.id := by
    intro id hid
    obtain ⟨-, x, -, hx, rfl⟩ := mem_hits.mp hid
    simp only [Stmt.consumable, Bool.and_eq_true, beq_iff_eq] at hx
    exact hx.1
  have hnd := hits_nodup (Stmt.consumable y.id) snap.tokens hcur.tokens_nodup
  rw [List.eq_replicate_of_mem hall, List.nodup_replicate] at hnd
  exact le_antisymm hnd (List.length_pos_of_mem hmem)

/-- A token that an UPDATE has missed is consumed or revoked. -/
theorem Missed.declined (h : Reach (app cfg hashRaw) C ⟨db, aux, clock, []⟩ s) (hi : s.reqs[i]? = some r) {raw : String}
    (hm : Missed hashRaw r.log raw) : Declined hashRaw (Sight.of r.log) raw true (some "already_consumed") := by
  obtain ⟨now, b, q, snap, cur, h₁, t, now', snap', cur', hsuf, ⟨⟨b', q', hran⟩, hmem, hvalid⟩, hcons, hlen⟩ := hm
  have htime := h.timeline Store.grows rfl r (List.mem_of_getElem? hi)
  have he : Ev.stmt (D := broker) (.consumeToken t.id now) b q snap cur ∈ r.log := hsuf.subset List.mem_cons_self
  -- the row that the verification has found, at the begin and at the end of the UPDATE
  obtain ⟨hfound, hsnap⟩ := (List.pairwise_cons.mp (htime.timeline.sublist hsuf.sublist)).1 _ hran
  obtain ⟨x, hx, htx⟩ := hfound.tokens t hmem
  obtain ⟨y, hy, hxy⟩ := hsnap.tokens x hx
  obtain ⟨z, hz, hyz⟩ := (htime.before _ he).1.tokens y hy
  have hty := htx.trans hxy
  simp only [Stmt.valid, Bool.and_eq_true, beq_iff_eq] at hvalid
  refine .consumed (Sight.of_cur he) hz ?_ ?_ (Bool.eq_false_iff.mpr fun hza => hlen ?_) rfl
  · rw [hyz.jti, hty.jti, hvalid.1.1.1]
  · rw [hyz.purpose, hty.purpose, hvalid.1.1.2]
  · rw [← hty.id]
    exact length_hits_consumable hcons hy hz hyz.id (hyz.active hza) hza

/-- **A refusal has its reason**: in any interleaving, whatever a request is refused
    with, unless it is an internal error, held at a moment when it was under way; and
    so for a token that is not valid. -/
theorem refusals_justified (hdb : Consistent db) (h : Reach (app cfg hashRaw) C ⟨db, aux, clock, []⟩ s)
    (hi : s.reqs[i]? = some r) :
    (∀ err, r.prog = .raise err →
      Refused cfg (Sight.during (app cfg hashRaw) C ⟨db, aux, clock, []⟩ s i) r.job err) ∧
    ∀ raw consume response, r.job = .verify raw consume → r.prog = .ret (.verified response) → response.valid = false →
      Declined hashRaw (Sight.during (app cfg hashRaw) C ⟨db, aux, clock, []⟩ s i) raw consume response.reason := by
  have hle := h.sight_le rfl hi
  constructor
  · intro err hraise
    have hok := ((sound_and_of_reach (W := fun j => Rules.raising fun h err => Refused cfg (Sight.of h) j err ∨ Shadowed h)
      (Q := fun _ _ _ => True) (fun j => handle_refused hashRaw j) (fun _ _ => .inl (.internal rfl)) hdb h).req i r hi).ok
    rw [hraise] at hok
    exact (hok.2.resolve_right (not_shadowed hdb h hi)).mono hle
  · intro raw consume response hj hret hfalse
    have hok := ((sound_and_of_reach (W := fun _ => Rules.none) (Q := Denied hashRaw) (fun j => handle_denied j)
      (fun _ _ => trivial) hdb h).req i r hi).ok
    rw [hret] at hok
    rcases hok.2 raw consume response hj rfl hfalse with hd | ⟨rfl, hreason, hm⟩
    · exact hd.mono hle
    · rw [hreason]
      exact (hm.declined h hi).mono hle

end

/-- The exception that request `i` has ended with. -/
def raisedBy (s : System) (i : ℕ) : Option BrokerError :=
  match s.reqs[i]? with
  | some ⟨_, .raise err, _, _, _⟩ => some err
  | _ => none

theorem raisedBy_eq_some {s : System} {i : ℕ} {err : BrokerError} (h : raisedBy s i = some err) :
    ∃ r, s.reqs[i]? = some r ∧ r.prog = .raise err := by
  unfold raisedBy at h
  split at h
  · rename_i hq
    cases h
    exact ⟨_, hq, rfl⟩
  · cases h

/-- Two users book the same hour, one after the other. -/
theorem refusals_justified_overlap : ∃ s : System, ∃ r, s.reqs[1]? = some r ∧ r.prog = .raise .reservationConflict ∧
    Refused {} (Sight.during (app {} id) Any ⟨room, {}, 0, []⟩ s 1) r.job .reservationConflict := by
  have hrun : (play (app {} id) Any ⟨room, {}, 0, []⟩
      [.arrive (bookFor 1 1 1 60), .steps 0 "" 30, .arrive (bookFor 2 1 1 60), .steps 1 "" 30]).any
      (fun s => raisedBy s 1 == some .reservationConflict) = true := by decide
  obtain ⟨s, hs, hout⟩ := Reach.of_play_any hrun
  obtain ⟨r, hr, hraise⟩ := raisedBy_eq_some (beq_iff_eq.mp hout)
  exact ⟨s, r, hr, hraise, (refusals_justified room_consistent hs hr).1 _ hraise⟩

end SmartClassroom
