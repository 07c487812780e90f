/-
  Stores that a booking finds in order.

  `Ready`: besides the constraints of the tables, all bounds are whole seconds,
  the sequence gives fresh ids, and host ids are unique.  It stays so in every
  interleaving (`ready_of_reach`).  In such a store, a booking whose checks pass
  is rejected iff an active reservation of the host overlaps it.
-/
import SmartClassroom.Serving

namespace SmartClassroom

open Txn

/-- Its bounds are full seconds. -/
def Reservation.OnSeconds (r : Reservation) : Prop :=
  secondUs ∣ r.timeRange.lower ∧ secondUs ∣ r.timeRange.upper

structure Ready (st : Store) (q : Seqs) : Prop extends Consistent st where
  seconds : ∀ r ∈ st.reservations, r.OnSeconds
  fresh : ∀ r ∈ st.reservations, r.id < q.reservation
  hosts : (st.hosts.map (·.id)).Nodup

/-! ## Runs -/

/-- The sequence goes on, past the row that a statement inserts. -/
theorem exec_reservation_seq (s : Stmt) (b : ℤ) (q : Seqs) (snap cur : Store) :
    q.reservation ≤ (s.exec b q snap cur).1.reservation ∧
      ∀ x, .insertReservation x ∈ (s.exec b q snap cur).2.1 →
        x.id < (s.exec b q snap cur).1.reservation := by
  cases s with
  | insertReservation userId hostId s e =>
    rcases exec_insertReservation userId hostId s e b q snap cur with
      ⟨row, -, -, -, -, -, -, hid, hx⟩ | ⟨err, hx⟩
    · rw [hx]
      refine ⟨by simp, fun x hmem => ?_⟩
      obtain rfl : x = row := by simpa using hmem
      simp [hid]
    · simp [hx]
  | insertToken | insertAudit =>
    simp only [Stmt.exec]
    split <;> simp
  | _ => simp [Stmt.exec]

/-- Every id, committed or pending, is below the next one. -/
structure IdsBelow (s : System) : Prop where
  db : ∀ x ∈ s.db.reservations, x.id < s.aux.reservation
  pend : ∀ (i : ℕ) r, s.reqs[i]? = some r → ∀ x, .insertReservation x ∈ pendOf r.log →
    x.id < s.aux.reservation

/-- A step of a request keeps the ids below the next one. -/
theorem IdsBelow.move {lost : BrokerError} {s : System} (hs : IdsBelow s) {i : ℕ}
    {r r' : Req broker Job BrokerError Reply} (hr : s.reqs[i]? = some r) {db' aux'}
    (hm : Move lost s i r r' db' aux') : s.aux.reservation ≤ aux'.reservation ∧
      (∀ x ∈ db'.reservations, x.id < aux'.reservation) ∧
      ∀ x, .insertReservation x ∈ pendOf r'.log → x.id < aux'.reservation := by
  have hpend := hs.pend i r hr
  cases hm with
  | start | now | draw | fail => exact ⟨le_rfl, hs.db, hpend⟩
  | rollback => exact ⟨le_rfl, hs.db, by simp⟩
  | @finish st k snap _ _ _ =>
    obtain ⟨hle, hnew⟩ := exec_reservation_seq st (r.began.getD s.clock) s.aux
      (broker.applyAll snap (pendOf r.log)) (broker.applyAll s.db (pendOf r.log))
    refine ⟨hle, fun x hx => (hs.db x hx).trans_le hle, fun x hx => ?_⟩
    rcases List.mem_append.mp hx with hx | hx
    · exact (hpend x hx).trans_le hle
    · exact hnew x hx
  | commit =>
    refine ⟨le_rfl, fun x hx => ?_, by simp⟩
    rw [reservations_applyAll] at hx
    rcases List.mem_append.mp hx with hx | hx
    · obtain ⟨y, hy, rfl⟩ := List.mem_map.mp hx
      exact (updAll_reservation_evolves _ y).id ▸ hs.db y hy
    · obtain ⟨y, hy, hev⟩ := mem_newReservations hx
      exact hev.id ▸ hpend y hy

theorem idsBelow_of_reach {V : Txn.Service broker Job BrokerError Reply}
    {C : System → Label Job ℤ String → Prop} {s s' : System} (h : Reach V C s s')
    (h0 : IdsBelow s) : IdsBelow s' := by
  refine h.inv (fun s l s' hs _ hst => ?_) h0
  cases hst with
  | tick => exact ⟨hs.db, hs.pend⟩
  | arrive j =>
    refine ⟨hs.db, fun i r hr x hx => ?_⟩
    rcases getElem?_arrive_cases hr with hr | ⟨_, rfl⟩
    · exact hs.pend i r hr x hx
    · simp at hx
  | act hr _ hm =>
    obtain ⟨hle, hdb, hnew⟩ := hs.move hr hm
    refine ⟨hdb, fun j q hq x hx => ?_⟩
    rcases getElem?_set_cases hq with ⟨_, rfl⟩ | ⟨_, hq⟩
    · exact hnew x hx
    · exact (hs.pend j q hq x hx).trans_le hle

theorem hosts_applyAll (ws : List Write) : ∀ st : Store,
    (broker.applyAll st ws).hosts.map (·.id) = st.hosts.map (·.id) := by
  induction ws with
  | nil => exact fun _ => rfl
  | cons w ws ih =>
    intro st
    refine (ih (st.apply w)).trans ?_
    simp [Store.apply, Function.comp_def]

theorem secondUs_dvd_of_minute {i : ℤ} (h : minuteUs ∣ i) : secondUs ∣ i :=
  Int.dvd_trans (by decide) h

/-- The bounds of instant use are full seconds where those of the reservations
    are. -/
theorem instantWindow_seconds {st : Store} (hsec : ∀ r ∈ st.reservations, r.OnSeconds) (hostId now : ℤ) :
    secondUs ∣ (windowAt st hostId now).1.instant ∧ secondUs ∣ (windowAt st hostId now).2.instant := by
  rw [windowAt, instantWindow_fst, instantWindow_snd, DateTime.instant_utc, DateTime.instant_utc]
  have hend : secondUs ∣ slotEnd now := by
    simp only [slotEnd, secondUs]
    omega
  refine ⟨Int.dvd_self_sub_emod, ?_⟩
  cases hn : Stmt.nextStartOf st hostId now with
  | none => exact hend
  | some n =>
    obtain ⟨⟨r, hr, -, rfl⟩, -⟩ := nextStartOf_eq_some.mp hn
    rcases min_choice r.timeRange.lower (slotEnd now) with e | e
    · simpa [e] using (hsec r hr).1
    · simpa [e] using hend

section
variable {cfg : Settings} {hashRaw : String → String} {C : System → Label Job ℤ String → Prop}
  {db : Store} {aux : Seqs} {clock : ℤ} {s : System}

/-- A pending row is on full seconds. -/
theorem pending_seconds (hs : s.Sound RangesNonempty (rules cfg) (answers hashRaw) Store.Evolves)
    (hsec : ∀ r ∈ s.db.reservations, r.OnSeconds) {i : ℕ} {r : Req broker Job BrokerError Reply}
    (hr : s.reqs[i]? = some r) {x : Reservation} (hx : .insertReservation x ∈ pendOf r.log) :
    x.OnSeconds := by
  obtain ⟨-, startsAt, endsAt, hl, hu, hb, -⟩ := pending_reservation (hs.req i r hr).kept hx
  rw [Reservation.OnSeconds, hl, hu]
  cases hjob : r.job with
  | create user hostId s e =>
    rw [hjob] at hb
    obtain ⟨-, -, rfl, rfl, hv, -⟩ := hb
    obtain ⟨h1, h2, -⟩ := validateShape_eq_ok.mp hv
    exact ⟨secondUs_dvd_of_minute h1.minute_dvd, secondUs_dvd_of_minute h2.minute_dvd⟩
  | instant user hostId =>
    rw [hjob] at hb
    obtain ⟨-, -, now, snap, cur, -, hran, e⟩ := hb
    obtain rfl : startsAt = _ := congrArg Prod.fst e
    obtain rfl : endsAt = _ := congrArg Prod.snd e
    refine instantWindow_seconds (fun y hy => ?_) hostId now
    obtain ⟨y', hy', hev⟩ := (hran.evolves (hs.req i r hr).past).reservations y hy
    rw [Reservation.OnSeconds, ← hev.timeRange]
    exact hsec y' hy'
  | _ =>
    rw [hjob] at hb
    exact hb.elim

/-- **Every interleaving keeps the store in order.** -/
theorem ready_of_reach (h0 : Ready db aux)
    (h : Reach (app cfg hashRaw) C ⟨db, aux, clock, []⟩ s) : Ready s.db s.aux where
  toConsistent := consistent_of_reach h0.toConsistent h
  seconds := by
    refine h.store_inv (P := fun _ (st : Store) => ∀ r ∈ st.reservations, r.OnSeconds)
      (fun _ _ _ _ h => h) (fun s₁ i r k h₁ _ hr _ ih x hx => ?_) h0.seconds
    rw [reservations_applyAll] at hx
    rcases List.mem_append.mp hx with hx | hx
    · obtain ⟨y, hy, rfl⟩ := List.mem_map.mp hx
      rw [Reservation.OnSeconds, (updAll_reservation_evolves _ y).timeRange]
      exact ih y hy
    · obtain ⟨y, hy, hev⟩ := mem_newReservations hx
      rw [Reservation.OnSeconds, hev.timeRange]
      exact pending_seconds (sound_of_reach h0.toConsistent h₁) ih hr hy
  fresh := (idsBelow_of_reach h ⟨h0.fresh, by simp⟩).db
  hosts := h.store_inv (P := fun _ (st : Store) => (st.hosts.map (·.id)).Nodup)
    (fun _ _ _ _ h => h) (fun _ _ _ _ _ _ _ _ ih => by rwa [hosts_applyAll]) h0.hosts

end

/-! ## Bookings in order -/

section
variable {st : Store} {q : Seqs} {user : User} {hostId began s e : ℤ}

/-- An active reservation of the host overlaps `[s, e)`. -/
def Store.Occupied (st : Store) (hostId s e : ℤ) : Prop :=
  ∃ x ∈ st.reservations, x.status.active = true ∧ x.hostId = hostId ∧ x.timeRange.overlaps s e = true

theorem Reservation.excludes_new {x : Reservation} {id userId : ℤ} {range : TsRange} :
    x.excludes (Stmt.newReservation id userId hostId range began) = true ↔
      x.status.active = true ∧ x.hostId = hostId ∧
        x.timeRange.overlaps range.lower range.upper = true := by
  simp only [excludes, Stmt.newReservation, ReservationStatus.active, Bool.and_true, Bool.and_eq_true,
    beq_iff_eq, and_assoc]

theorem Ready.bookOutcome_ok (hst : Ready st q) (hle : s ≤ e) (hfree : ¬st.Occupied hostId s e)
    (hu : ∃ u ∈ st.users, u.id = user.id) (hh : ∃ h ∈ st.hosts, h.id = hostId) :
    bookOutcome st q.reservation began user hostId s e =
      .ok (Stmt.newReservation q.reservation user.id hostId ⟨s, e, hle⟩ began) := by
  refine bookOutcome_eq_ok.mpr ⟨hle, rfl, violatedByReservation_eq_none.mpr ⟨?_, hu, hh⟩⟩
  rintro x hx (hid | hex)
  · exact (hst.fresh x hx).ne hid
  · exact hfree ⟨x, hx, Reservation.excludes_new.mp hex⟩

theorem Ready.bookOutcome_conflict (hst : Ready st q) (hle : s ≤ e) (hocc : st.Occupied hostId s e) :
    bookOutcome st q.reservation began user hostId s e = .error .reservationConflict := by
  obtain ⟨x, hx, hex⟩ := hocc
  have hid : ¬st.reservations.any (fun y => y.id == q.reservation) = true := by
    simpa using fun y hy => (hst.fresh y hy).ne
  have hviol : st.violatedByReservation
      (Stmt.newReservation q.reservation user.id hostId ⟨s, e, hle⟩ began) =
        some .reservationsNoOverlap :=
    (if_neg hid).trans (if_pos (List.any_eq_true.mpr ⟨x, hx, Reservation.excludes_new.mpr hex⟩))
  rw [bookOutcome, tstzrange, dif_pos hle]
  simp only [hviol, if_true]

end

end SmartClassroom
