/-
  Cancelling one reservation, by any number of requests at once.

  `cancel_reservation` reads the status first, and its UPDATE finds the row by
  its primary key alone: a request that read CONFIRMED cancels the row again
  after another one has committed (`canceled_twice`).  In every interleaving
  where no request commits its UPDATE on a row that is CANCELED by then
  (`FirstCancel`), the row is canceled once, with one audit row
  (`cancel_of_reach`).

  * `Holds`: the row and the users that the requests rely on, never deleted.
  * `Canceling`: what such a request has pending before its commit.
-/
import SmartClassroom.Constraints

namespace SmartClassroom

open Txn Prog

/-! ## The row and its audit rows -/

/-- `db.get(Reservation, id)`. -/
def Store.reservation? (st : Store) (id : ℤ) : Option Reservation := st.reservations.find? fun r => r.id == id

/-- The row of a cancellation. -/
def AuditLog.cancels (id : ℤ) (a : AuditLog) : Bool :=
  a.entry.action == "reservation_cancel" && a.entry.targetKind == some "reservation" && a.entry.targetId == some id

def Store.cancelAudits (st : Store) (id : ℤ) : ℕ := st.auditLogs.countP (·.cancels id)

theorem reservation?_applyAll {st : Store} {id : ℤ} {r : Reservation} (h : st.reservation? id = some r)
    (ws : List Write) : (broker.applyAll st ws).reservation? id = some (reservationTable.updAll ws r) := by
  have hid : (fun x => (reservationTable.updAll ws x).id == id) = fun x : Reservation => x.id == id :=
    funext fun x => by rw [(updAll_reservation_evolves ws x).id]
  rw [Store.reservation?, reservations_applyAll, List.find?_append, List.find?_map]
  change ((st.reservations.find? fun x => (reservationTable.updAll ws x).id == id).map _).or _ = _
  rw [hid, show st.reservations.find? (fun x => x.id == id) = some r from h]
  rfl

theorem auditLogs_applyAll (ws : List Write) : ∀ st : Store,
    (broker.applyAll st ws).auditLogs = st.auditLogs ++ ws.flatMap Write.newAuditLogs := by
  induction ws with
  | nil => exact fun st => (List.append_nil _).symm
  | cons w ws ih =>
    intro st
    rw [List.flatMap_cons, ← List.append_assoc]
    exact ih (st.apply w)

/-- The row exists and is the owner's; the users stay. -/
structure Holds (users : List User) (id owner : ℤ) (st : Store) : Prop where
  users : st.users = users
  row : ∃ r, st.reservation? id = some r ∧ r.userId = owner

/-- A request to cancel the reservation by its owner or an admin. -/
def CancelOf (users : List User) (id owner : ℤ) : Job → Prop
  | .cancel user id' => id' = id ∧ user ∈ users ∧ (user.role = .admin ∨ user.id = owner)
  | _ => False

instance (users : List User) (id owner : ℤ) : DecidablePred (CancelOf users id owner)
  | .cancel user id' =>
    inferInstanceAs (Decidable (id' = id ∧ user ∈ users ∧ (user.role = .admin ∨ user.id = owner)))
  | .create .. | .instant .. | .list .. | .calendar .. | .get .. | .connect .. | .verify .. | .available ..
  | .rotateAgentToken .. => inferInstanceAs (Decidable False)

section
variable {cfg : Settings} {hashRaw : String → String} {users : List User} {id owner : ℤ}

theorem Holds.applyAll {st : Store} (h : Holds users id owner st) (ws : List Write) :
    Holds users id owner (broker.applyAll st ws) where
  users := (users_applyAll ws st).trans h.users
  row := by
    obtain ⟨r, hr, howner⟩ := h.row
    exact ⟨_, reservation?_applyAll hr ws, (updAll_reservation_evolves ws r).userId.trans howner⟩

/-! ## What a request does -/

/-- No part in a cancellation of `id`. -/
def Write.Spares (id : ℤ) (w : Write) : Prop :=
  w.updatedReservations = [] ∧ ∀ a ∈ w.newAuditLogs, a.cancels id = false

/-- The request has read the row as canceled. -/
def SawCanceled (id : ℤ) (h : History) : Prop :=
  ∃ snap cur r, Ran h (.getReservation id) snap cur ∧ snap.reservation? id = some r ∧ r.status = .canceled

/-- It has seen the row canceled, or cancels it with one audit row. -/
def Canceling (id : ℤ) (h : History) : Prop :=
  (SawCanceled id h ∧ ∀ w ∈ pendOf h, w.Spares id) ∨
    ∃ ids now a rest, pendOf h = .cancelReservations ids now :: .insertAudit a :: rest ∧ id ∈ ids ∧
      a.cancels id = true ∧ ∀ w ∈ rest, w.Spares id

/-- A request commits what `Canceling` says, and raises only what the database
    makes it. -/
def cancelRules (users : List User) (id owner : ℤ) (j : Job) : Rules broker BrokerError where
  stmt _ _ := True
  commit h := CancelOf users id owner j → Canceling id h
  raise _ e := CancelOf users id owner j → e = .databaseLost

/-- An answer comes after the commit. -/
def cancelAnswers (users : List User) (id owner : ℤ) (j : Job) (h : History) (reply : Reply) : Prop :=
  CancelOf users id owner j → reply = .noContent ∧ .commit ∈ h

theorem SawCanceled.mono {h h' : History} (hs : h <:+ h') (hc : SawCanceled id h) : SawCanceled id h' := by
  obtain ⟨snap, cur, r, hran, hr⟩ := hc
  exact ⟨snap, cur, r, hran.mono hs, hr⟩

/-- More writes that spare the row. -/
theorem Canceling.of_append {h h' : History} (hc : Canceling id h) (hs : h <:+ h') {ws : List Write}
    (hpend : pendOf h' = pendOf h ++ ws) (hws : ∀ w ∈ ws, w.Spares id) : Canceling id h' := by
  rcases hc with ⟨hsaw, hw⟩ | ⟨ids, now, a, rest, hp, hid, ha, hw⟩
  · refine .inl ⟨hsaw.mono hs, fun w hmem => ?_⟩
    rw [hpend] at hmem
    exact (List.mem_append.1 hmem).elim (hw w) (hws w)
  · refine .inr ⟨ids, now, a, rest ++ ws, by rw [hpend, hp]; rfl, hid, ha, fun w hmem => ?_⟩
    exact (List.mem_append.1 hmem).elim (hw w) (hws w)

/-! ### The steps of the endpoint -/

section
variable {W : Rules broker BrokerError} (hstmt : ∀ h s, W.stmt h s) {user : User} {h : History}
include hstmt

theorem getReservation_found (huser : user.role = .admin ∨ user.id = owner) (hp : pendOf h = []) :
    (getReservation user id).Ok (Holds users id owner) W (fun h' r => pendOf h' = [] ∧ r.id = id ∧
      (r.status = .canceled → SawCanceled id h')) h := by
  refine ok_bind.2 ⟨hstmt _ _, fun b aux snap cur hsnap _ => ?_⟩
  obtain ⟨r, hr, howner⟩ := hsnap.row
  have hres : (broker.execOn (pendOf h) (.getReservation id) b aux snap cur).2.2 = some r := by
    rw [hp]
    exact hr
  have haccess : assertCanAccess r user = .ok () := by
    rw [assertCanAccess]
    rcases huser with hrole | hid
    · rw [if_pos hrole]
    · split_ifs with hrole hown
      · rfl
      · rfl
      · exact absurd (howner.trans hid.symm) hown
  have hid : r.id = id := by simpa using List.find?_some hr
  rw [hres]
  change (lift (assertCanAccess r user) >>= fun _ => (pure r : Service Reservation)).Ok _ _ _ _
  rw [haccess]
  exact ⟨by rw [pendOf_stmt, hp]; rfl, hid, fun hst => ⟨snap, cur, r, .head _ _ _ _ _ _, hr, hst⟩⟩

/-- An audit row of a user of the table, or of the system. -/
theorem writeAudit_ok {e : AuditEntry} (hactor : e.actorUserId.all fun i => users.any fun u => u.id == i) :
    (writeAudit e).Ok (Holds users id owner) W (fun h' _ => h <:+ h' ∧ ∃ a : AuditLog, a.entry = e ∧
      pendOf h' = pendOf h ++ [.insertAudit a]) h := by
  refine ok_bind.2 ⟨hstmt _ _, fun b aux snap cur _ hcur => ?_⟩
  have hnone : (broker.applyAll cur (pendOf h)).violatedByAudit e = none := by
    rw [Store.violatedByAudit, users_applyAll, hcur.users, if_pos hactor]
  have hexec : broker.execOn (pendOf h) (.insertAudit e) b aux snap cur =
      ({ aux with auditLog := aux.auditLog + 1 }, [.insertAudit ⟨aux.auditLog, b, e⟩], .ok ()) := by
    rw [execOn_eq]
    simp only [Stmt.exec, hnone]
  have hres : (broker.execOn (pendOf h) (.insertAudit e) b aux snap cur).2.2 = .ok () := by rw [hexec]
  rw [hres]
  exact ⟨List.suffix_cons _ _, ⟨aux.auditLog, b, e⟩, rfl, by rw [pendOf_stmt, hexec]⟩

theorem refresh_ok {r : Reservation} (hid : r.id = id) :
    (refresh r).Ok (Holds users id owner) W (fun h' r' => h <:+ h' ∧ pendOf h' = pendOf h ∧ r'.id = id) h := by
  refine ok_bind.2 ⟨hstmt _ _, fun b aux snap cur hsnap _ => ?_⟩
  obtain ⟨r', hr', -⟩ := (hsnap.applyAll (pendOf h)).row
  have hres : (broker.execOn (pendOf h) (.getReservation r.id) b aux snap cur).2.2 = some r' := by
    rw [hid]
    exact hr'
  have hid' : r'.id = id := by simpa using List.find?_some hr'
  rw [hres]
  exact ⟨List.suffix_cons _ _, by rw [pendOf_stmt]; exact List.append_nil _, hid'⟩

theorem cancelReservation_ok (hmem : user ∈ users) (huser : user.role = .admin ∨ user.id = owner)
    (hp : pendOf h = []) : (cancelReservation user id).Ok (Holds users id owner) W
      (fun h' r => r.id = id ∧ Canceling id h') h := by
  refine (getReservation_found hstmt huser hp).bind fun h₁ r ⟨hp₁, hid, hsaw⟩ => ?_
  by_cases hst : r.status = .canceled
  · rw [if_pos hst]
    refine ⟨hid, .inl ⟨hsaw hst, fun w hw => ?_⟩⟩
    rw [hp₁] at hw
    cases hw
  rw [if_neg hst]
  intro now
  refine ⟨hstmt _ _, fun b aux snap cur hsnap hcur => ?_⟩
  -- the UPDATE finds the row in the snapshot, and its latest version again
  have hp₂ : pendOf (.now now :: h₁) = [] := hp₁
  obtain ⟨x, hx, -⟩ := hcur.row
  obtain ⟨y, hy, -⟩ := hsnap.row
  have hhits : id ∈ Stmt.hits Reservation.id (·.id == r.id) snap.reservations cur.reservations := by
    rw [hid]
    have hxid : x.id = id := by simpa using List.find?_some hx
    have hyid : y.id = id := by simpa using List.find?_some hy
    exact mem_hits.2 ⟨⟨x, List.mem_of_find?_eq_some hx, beq_iff_eq.2 hxid, hxid⟩,
      y, List.mem_of_find?_eq_some hy, beq_iff_eq.2 hyid, hyid⟩
  generalize hh₂ : (Ev.stmt (D := broker) (.cancelReservation r.id (DateTime.utc now).instant) b aux snap cur ::
    .now now :: h₁) = h₂
  have hp₃ : pendOf h₂ = [.cancelReservations
      (Stmt.hits Reservation.id (·.id == r.id) snap.reservations cur.reservations) (DateTime.utc now).instant] := by
    rw [← hh₂, pendOf_stmt, hp₂]
    rfl
  refine (refresh_ok hstmt hid).bind fun h₃ r' ⟨_, hp₄, hid'⟩ => ?_
  refine (writeAudit_ok hstmt ?_).bind fun h₄ _ ⟨_, a, ha, hp₅⟩ => ?_
  · exact List.any_eq_true.2 ⟨user, hmem, beq_self_eq_true _⟩
  · refine ⟨hid', .inr ⟨_, _, a, [], by rw [hp₅, hp₄, hp₃]; rfl, hhits, ?_, by simp⟩⟩
    simp [AuditLog.cancels, ha, hid']

omit hstmt in
theorem Canceling.stmt (hc : Canceling id h) {s : Stmt} {b : ℤ} {q : Seqs} {snap cur : Store}
    (hws : ∀ w ∈ (broker.execOn (pendOf h) s b q snap cur).2.1, w.Spares id) :
    Canceling id (.stmt s b q snap cur :: h) := hc.of_append (List.suffix_cons _ _) (pendOf_stmt ..) hws

omit hstmt in
theorem Canceling.select (hc : Canceling id h) {s : Stmt} {b : ℤ} {q : Seqs} {snap cur : Store}
    (hw : (broker.execOn (pendOf h) s b q snap cur).2.1 = []) : Canceling id (.stmt s b q snap cur :: h) :=
  hc.stmt fun _ hmem => absurd (hw ▸ hmem) List.not_mem_nil

omit hstmt in
theorem Canceling.now (hc : Canceling id h) (t : ℤ) : Canceling id (.now t :: h) :=
  hc.of_append (List.suffix_cons _ _) (List.append_nil _).symm fun _ hw => absurd hw List.not_mem_nil

theorem transitionHost_canceling (hc : Canceling id h) (host : Host) (status : HostStatus) (reason : String) :
    (transitionHost host status reason).Ok (Holds users id owner) W (fun h' _ => Canceling id h') h := by
  unfold transitionHost
  split_ifs
  · exact hc
  refine ok_bind.2 ⟨hstmt _ _, fun b aux snap cur _ _ => ?_⟩
  have hset : Canceling id (.stmt (.setHostStatus host.id status) b aux snap cur :: h) := by
    refine hc.stmt fun w hw => ?_
    obtain rfl := List.mem_singleton.1 hw
    exact ⟨rfl, fun _ ha => absurd ha List.not_mem_nil⟩
  refine (writeAudit_ok hstmt rfl).bind fun h₁ _ ⟨hs, a, ha, hp⟩ => hset.of_append hs hp fun w hw => ?_
  obtain rfl := List.mem_singleton.1 hw
  refine ⟨rfl, fun a' ha' => ?_⟩
  obtain rfl := List.mem_singleton.1 ha'
  simp [AuditLog.cancels, ha]

theorem releaseHost_canceling (hc : Canceling id h) (r : Reservation) :
    (releaseHost r).Ok (Holds users id owner) W (fun h' _ => Canceling id h') h := by
  refine ok_bind.2 ⟨hstmt _ _, fun b aux snap cur _ _ => ?_⟩
  have hc₁ : Canceling id (.stmt (.getHost r.hostId) b aux snap cur :: h) := hc.select rfl
  generalize Ev.stmt (D := broker) (.getHost r.hostId) b aux snap cur :: h = h₁ at hc₁ ⊢
  cases (broker.execOn (pendOf h) (.getHost r.hostId) b aux snap cur).2.2 with
  | none => exact hc₁
  | some host =>
    change Ok _ _ _ (if host.status = .inUse then _ else _ : Service Unit) _
    split_ifs
    · intro now
      refine ok_bind.2 ⟨hstmt _ _, fun b aux snap cur _ _ => ?_⟩
      have hc₂ : Canceling id (.stmt (.activeReservation host.id (DateTime.utc now).instant) b aux snap cur ::
          .now now :: h₁) := (hc₁.now now).select rfl
      generalize (broker.execOn (pendOf (.now now :: h₁))
        (.activeReservation host.id (DateTime.utc now).instant) b aux snap cur).2.2 = active
      cases active with
      | some _ => exact hc₂
      | none => exact (transitionHost_canceling hstmt hc₂ host .idle _).bind fun _ _ hc₃ => hc₃
    · exact hc₁

end

/-- The requests keep their rules. -/
theorem handle_cancel_ok (j : Job) : (handle cfg hashRaw j).Ok (Holds users id owner) (cancelRules users id owner j)
    (cancelAnswers users id owner j) [] := by
  by_cases hj : CancelOf users id owner j
  · cases j with
    | cancel user id' =>
      obtain ⟨rfl, hmem, huser⟩ := hj
      refine Ok.bind (Ok.tryCatch (X := fun _ _ => False) (fun _ _ h => h.elim)
        (cancelReservation_ok (fun _ _ => trivial) hmem huser rfl)) fun h₁ r ⟨_, hc₁⟩ => ?_
      refine (releaseHost_canceling (fun _ _ => trivial) hc₁ r).bind fun h₂ _ hc₂ => ?_
      exact ⟨fun _ => hc₂, fun _ => ⟨rfl, List.mem_cons_self⟩⟩
    | _ => exact hj.elim
  · exact ok_of_free (fun _ _ => trivial) (fun _ h => absurd h hj) (fun _ _ h => absurd h hj)
      (fun _ _ h => absurd h hj) _ _

theorem cancel_keeps : Keeps (app cfg hashRaw) (Holds users id owner) (cancelRules users id owner)
    (cancelAnswers users id owner) where
  ok := handle_cancel_ok
  stmt_lost _ _ _ _ _ := rfl
  commit_lost _ _ _ _ := rfl
  inv _ h _ _ _ hI := hI.applyAll (pendOf h)

/-! ## Runs -/

/-- A canceled row stays canceled. -/
def StaysCanceled (id : ℤ) (st st' : Store) : Prop :=
  ∀ r, st.reservation? id = some r → r.status = .canceled → ∃ r', st'.reservation? id = some r' ∧ r'.status = .canceled

theorem staysCanceled_grows : Grows (D := broker) (StaysCanceled id) where
  refl _ r hr hst := ⟨r, hr, hst⟩
  trans h h' r hr hst := by
    obtain ⟨r', hr', hst'⟩ := h r hr hst
    exact h' r' hr' hst'
  apply st w r hr hst := by
    refine ⟨_, reservation?_applyAll hr [w], ?_⟩
    rcases (updAll_reservation_evolves [w] r).status with e | e
    · exact e.trans hst
    · exact e

/-- No request commits its UPDATE of the row when the row is canceled by then. -/
def FirstCancel (id : ℤ) : System → Label Job ℤ String → Prop
  | s, .act i .commit => ∀ q ∈ s.reqs[i]?, (∃ w ∈ pendOf q.log, id ∈ w.updatedReservations) →
    ∀ r ∈ s.db.reservation? id, r.status ≠ .canceled
  | _, _ => True

instance (id : ℤ) (s : System) : ∀ l, Decidable (FirstCancel id s l)
  | .act i .commit => inferInstanceAs (Decidable (∀ q ∈ s.reqs[i]?, (∃ w ∈ pendOf q.log, id ∈ w.updatedReservations) →
    ∀ r ∈ s.db.reservation? id, r.status ≠ .canceled))
  | .act _ .start | .act _ .finish | .act _ .now | .act _ (.draw _) | .act _ .rollback | .act _ .fail
  | .arrive _ | .tick _ => isTrue trivial

/-- Requests of the owner and of admins only, and `FirstCancel`. -/
def OneCancel (users : List User) (id owner : ℤ) (s : System) (l : Label Job ℤ String) : Prop :=
  Arrivals (CancelOf users id owner) s l ∧ FirstCancel id s l

instance (users : List User) (id owner : ℤ) (s : System) (l : Label Job ℤ String) :
    Decidable (OneCancel users id owner s l) := inferInstanceAs (Decidable (_ ∧ _))

/-- What the commit of `ws` does to the row and its audit rows. -/
inductive Commits (db : Store) (ws : List Write) (id : ℤ) (r : Reservation) : Prop where
  | keeps (hst : r.status = .canceled) (hrow : (broker.applyAll db ws).reservation? id = some r)
      (haudit : (broker.applyAll db ws).cancelAudits id = db.cancelAudits id)
  | cancels (now : ℤ) (hupd : ∃ w ∈ ws, id ∈ w.updatedReservations)
      (hrow : (broker.applyAll db ws).reservation? id = some { r with status := .canceled, canceledAt := some now })
      (haudit : (broker.applyAll db ws).cancelAudits id = db.cancelAudits id + 1)

theorem commits_of_canceling {h : History} (hc : Canceling id h) {db : Store} {r : Reservation}
    (hr : db.reservation? id = some r) (hsaw : SawCanceled id h → r.status = .canceled) :
    Commits db (pendOf h) id r := by
  have hid : r.id = id := by simpa using List.find?_some hr
  have hrow := reservation?_applyAll hr (pendOf h)
  have hkeep : ∀ {ws : List Write} {x : Reservation}, (∀ w ∈ ws, w.Spares id) → reservationTable.updAll ws x = x :=
    fun hws => updAll_reservation_eq_self fun w hw => by rw [(hws w hw).1]; exact List.not_mem_nil
  have hcount : ∀ {ws : List Write}, (∀ w ∈ ws, w.Spares id) →
      (ws.flatMap Write.newAuditLogs).countP (·.cancels id) = 0 := by
    intro ws hws
    refine List.countP_eq_zero.2 fun a ha => ?_
    obtain ⟨w, hw, haw⟩ := List.mem_flatMap.1 ha
    simp [(hws w hw).2 a haw]
  rcases hc with ⟨hsee, hws⟩ | ⟨ids, now, a, rest, hp, hmem, ha, hws⟩
  · refine .keeps (hsaw hsee) (by rw [hrow, hkeep hws]) ?_
    rw [Store.cancelAudits, auditLogs_applyAll, List.countP_append, hcount hws]
    rfl
  · rw [hp] at hrow ⊢
    refine .cancels now ⟨_, List.mem_cons_self, hmem⟩ ?_ ?_
    · rw [hrow]
      change some (reservationTable.updAll rest ((Write.cancelReservations ids now).onReservation r)) = _
      rw [hkeep hws, Write.onReservation, hid, if_pos (List.contains_iff_mem.2 hmem)]
    · rw [Store.cancelAudits, auditLogs_applyAll, List.countP_append]
      change _ + (a :: rest.flatMap Write.newAuditLogs).countP _ = _
      rw [List.countP_cons_of_pos ha, hcount hws]
      rfl

/-- The row is canceled once: one audit row, and every request that has committed
    leaves it canceled. -/
structure CanceledOnce (id : ℤ) (s : System) : Prop where
  audits : ∀ r, s.db.reservation? id = some r → s.db.cancelAudits id = if r.status = .canceled then 1 else 0
  done : ∀ q ∈ s.reqs, .commit ∈ q.log → ∀ r, s.db.reservation? id = some r → r.status = .canceled

variable {db : Store} {aux : Seqs} {clock : ℤ} {s s' : System}

theorem cancel_sound (hdb : Holds users id owner db)
    (h : Reach (app cfg hashRaw) (OneCancel users id owner) ⟨db, aux, clock, []⟩ s) :
    s.Sound (Holds users id owner) (cancelRules users id owner) (cancelAnswers users id owner) (StaysCanceled id) :=
  h.sound cancel_keeps staysCanceled_grows (.init hdb)

/-- The commit of a request of the run. -/
theorem commits_of_reach (hdb : Holds users id owner db)
    (h : Reach (app cfg hashRaw) (OneCancel users id owner) ⟨db, aux, clock, []⟩ s) {i : ℕ}
    {q : Req broker Job BrokerError Reply} (hq : s.reqs[i]? = some q) {k : Service Reply} (hk : q.prog = .commit k)
    {r : Reservation} (hr : s.db.reservation? id = some r) :
    Commits s.db (pendOf q.log) id r := by
  have hs := (cancel_sound hdb h).req i q hq
  have hjob : CancelOf users id owner q.job := h.job (fun _ _ hC => hC.1) (by simp) i q hq
  have hok := hs.ok
  rw [hk] at hok
  refine commits_of_canceling (hok.1 hjob) hr ?_
  rintro ⟨snap, cur, r₀, ⟨b, aux, hran⟩, hr₀, hst₀⟩
  obtain ⟨-, hsnap, hcur⟩ := hs.past _ hran
  obtain ⟨r', hr', hst'⟩ := staysCanceled_grows.trans hsnap hcur r₀ hr₀ hst₀
  rw [hr] at hr'
  exact Option.some.inj hr' ▸ hst'

/-- A row that is canceled stays as it is. -/
theorem row_of_canceled (hdb : Holds users id owner db)
    (h : Reach (app cfg hashRaw) (OneCancel users id owner) ⟨db, aux, clock, []⟩ s) {r : Reservation}
    (hr : s.db.reservation? id = some r) (hst : r.status = .canceled)
    (h' : Reach (app cfg hashRaw) (OneCancel users id owner) s s') : s'.db.reservation? id = some r := by
  induction h' with
  | refl => exact hr
  | @tail s₁ s₂ h₁ hstep ih =>
    obtain ⟨l, hl, hstep⟩ := hstep
    cases step_cases hstep with
    | arrive | tick => exact ih
    | act hq ha _ =>
      rcases Req.move_db ha with rfl | ⟨rfl, k, hk, rfl⟩
      · exact ih
      · cases commits_of_reach hdb (h.trans h₁) hq hk ih with
        | keeps _ hrow => exact hrow
        | cancels now hupd => exact absurd hst (hl.2 _ hq hupd r ih)

/-- Every step leaves the row canceled once. -/
theorem canceledOnce_of_reach (hdb : Holds users id owner db)
    (h0 : ∀ r, db.reservation? id = some r → db.cancelAudits id = if r.status = .canceled then 1 else 0)
    (h : Reach (app cfg hashRaw) (OneCancel users id owner) ⟨db, aux, clock, []⟩ s) : CanceledOnce id s := by
  induction h with
  | refl => exact ⟨h0, by simp⟩
  | @tail s₁ s₂ h₁ hstep ih =>
    obtain ⟨l, hl, hstep⟩ := hstep
    obtain ⟨r, hr, -⟩ := (cancel_sound hdb h₁).inv.row
    cases step_cases hstep with
    | arrive j =>
      refine ⟨ih.audits, fun q hq hcommit => ?_⟩
      rcases List.mem_append.1 hq with hq | hq
      · exact ih.done q hq hcommit
      · obtain rfl := List.mem_singleton.1 hq
        cases hcommit
    | tick => exact ⟨ih.audits, ih.done⟩
    | @act i a q q' db' aux' hq ha _ =>
      rcases Req.move_cases ha with ⟨rfl, hlog⟩ | ⟨rfl, k, hk, rfl⟩
      · refine ⟨ih.audits, fun p hp hcommit => ?_⟩
        rcases List.mem_or_eq_of_mem_set hp with hp | rfl
        · exact ih.done p hp hcommit
        · exact ih.done q (List.mem_of_getElem? hq) (hlog hcommit)
      · have haudits := ih.audits r hr
        cases commits_of_reach hdb h₁ hq hk hr with
        | keeps hst hrow haudit =>
          refine ⟨fun r' hr' => ?_, fun _ _ _ r' hr' => ?_⟩
          · obtain rfl := Option.some.inj (hrow.symm.trans hr')
            exact haudit.trans haudits
          · exact Option.some.inj (hrow.symm.trans hr') ▸ hst
        | cancels now hupd hrow haudit =>
          rw [if_neg (hl.2 _ hq hupd r hr)] at haudits
          refine ⟨fun r' hr' => ?_, fun _ _ _ r' hr' => ?_⟩
          · obtain rfl := Option.some.inj (hrow.symm.trans hr')
            exact haudit.trans (congrArg (· + 1) haudits)
          · exact Option.some.inj (hrow.symm.trans hr') ▸ rfl

/-- **One reservation, any number of cancellations**: where no request commits its
    UPDATE on a canceled row, the row is canceled once, with one audit row, and is
    not changed again; every request that was not lost leaves it canceled. -/
theorem cancel_of_reach {r₀ : Reservation} (hr₀ : db.reservation? id = some r₀)
    (h0 : db.cancelAudits id = if r₀.status = .canceled then 1 else 0)
    (h : Reach (app cfg hashRaw) (OneCancel db.users id r₀.userId) ⟨db, aux, clock, []⟩ s) :
    ∃ r, s.db.reservation? id = some r ∧ s.db.cancelAudits id = (if r.status = .canceled then 1 else 0) ∧
      (∀ q ∈ s.reqs, q.ended = true →
        q.prog = .raise .databaseLost ∨ q.prog = .ret .noContent ∧ r.status = .canceled) ∧
      ∀ s', Reach (app cfg hashRaw) (OneCancel db.users id r₀.userId) s s' → r.status = .canceled →
        s'.db.reservation? id = some r := by
  have hdb : Holds db.users id r₀.userId db := ⟨rfl, r₀, hr₀, rfl⟩
  have hsound := cancel_sound hdb h
  obtain ⟨r, hr, -⟩ := hsound.inv.row
  have honce : CanceledOnce id s := by
    refine canceledOnce_of_reach hdb (fun r' hr' => ?_) h
    exact Option.some.inj (hr₀.symm.trans hr') ▸ h0
  refine ⟨r, hr, honce.audits r hr, fun q hq hended => ?_, fun s' h' hst => row_of_canceled hdb h hr hst h'⟩
  obtain ⟨i, hi⟩ := List.mem_iff_getElem?.1 hq
  have hok := (hsound.req i q hi).ok
  have hjob : CancelOf db.users id r₀.userId q.job := h.job (fun _ _ hC => hC.1) (by simp) i q hi
  cases hp : q.prog with
  | ret a =>
    rw [hp] at hok
    obtain ⟨rfl, hcommit⟩ := hok hjob
    exact .inr ⟨rfl, honce.done q hq hcommit r hr⟩
  | raise e =>
    rw [hp] at hok
    exact .inl (congrArg _ (hok hjob))
  | now | draw | stmt | commit | rollback => simp [Req.ended, hp] at hended

end

/-! ## A reservation of the first user -/

def oneBooked : Store :=
  { room with users := [⟨1, .user, "mock"⟩, ⟨3, .admin, "mock"⟩]
              reservations := [⟨1, 1, 1, ⟨0, hourUs, hourUs_nonneg⟩, .confirmed, 0, none⟩] }

/-- The owner cancels, and then an admin: the row is canceled once. -/
theorem cancel_of_reach_two : ∃ s : System, s.reqs.length = 2 ∧ s.db.cancelAudits 1 = 1 := by
  have hrun : (play (app {} id) (OneCancel oneBooked.users 1 1) ⟨oneBooked, {}, 0, []⟩
      [.arrive (.cancel ⟨1, .user, "mock"⟩ 1), .steps 0 "" 40, .tick minuteUs,
        .arrive (.cancel ⟨3, .admin, "mock"⟩ 1), .steps 1 "" 40]).any
      (fun s => s.reqs.length == 2 && (s.db.reservation? 1).any fun r => r.status == .canceled) = true := by decide
  obtain ⟨s, hs, hp⟩ := Reach.of_play_any hrun
  rw [Bool.and_eq_true, beq_iff_eq] at hp
  obtain ⟨r, hr, haudits, -⟩ := cancel_of_reach (show oneBooked.reservation? 1 = some _ from rfl) rfl hs
  rw [hr] at hp
  rw [if_pos (by simpa using hp.2)] at haudits
  exact ⟨s, hp.1, haudits⟩

/-- Both read the row before either commits: the row is canceled twice, with two
    audit rows, and its `canceled_at` changes. -/
theorem canceled_twice : ∃ s s' : System,
    Reach (app {} id) (Arrivals (CancelOf oneBooked.users 1 1)) ⟨oneBooked, {}, 0, []⟩ s ∧
    Reach (app {} id) (Arrivals (CancelOf oneBooked.users 1 1)) s s' ∧
    (s.db.reservation? 1).map (·.canceledAt) = some (some 0) ∧ (∀ q ∈ s'.reqs, q.ended = true) ∧
    s'.db.cancelAudits 1 = 2 ∧ (s'.db.reservation? 1).map (·.canceledAt) = some (some minuteUs) := by
  have hrun : (play (app {} id) (Arrivals (CancelOf oneBooked.users 1 1)) ⟨oneBooked, {}, 0, []⟩
      [.arrive (.cancel ⟨1, .user, "mock"⟩ 1), .arrive (.cancel ⟨3, .admin, "mock"⟩ 1), .steps 0 "" 2,
        .steps 1 "" 2, .steps 0 "" 40]).any (fun s =>
      (s.db.reservation? 1).map (·.canceledAt) == some (some 0) &&
        (play (app {} id) (Arrivals (CancelOf oneBooked.users 1 1)) s [.tick minuteUs, .steps 1 "" 40]).any fun s' =>
          s'.reqs.all (·.ended) && s'.db.cancelAudits 1 == 2 &&
            (s'.db.reservation? 1).map (·.canceledAt) == some (some minuteUs)) = true := by decide
  obtain ⟨s, hs, hp⟩ := Reach.of_play_any hrun
  rw [Bool.and_eq_true, beq_iff_eq] at hp
  obtain ⟨s', hs', hp'⟩ := Reach.of_play_any hp.2
  simp only [Bool.and_eq_true, List.all_eq_true, beq_iff_eq] at hp'
  exact ⟨s, s', hs, hs', hp.1, hp'.1.1, hp'.1.2, hp'.2⟩

end SmartClassroom
