/-
  The lists of available hosts against the bookings they announce.

  The two listings, the two bookings and `reservations_no_overlap` each have a
  notion of a free host.  On reachable stores these agree: what a listing shows
  can be booked, up to the end it announces, and an idle host it leaves out is
  rejected with a conflict (`listed_iff_bookable`).
-/
import Mathlib.Data.List.Nodup
import SmartClassroom.Ready

namespace SmartClassroom

open Txn Prog

variable {cfg : Settings} {E : Env ℤ String} {c : Ctx broker} {st : Store} {q : Seqs}

/-! ## The listings -/

/-- A reservation that instant use takes for the current one of the host. -/
def Store.Covered (st : Store) (hostId t : ℤ) : Prop :=
  ∃ r ∈ st.reservations, r.hostId = hostId ∧ r.status.active = true ∧ r.timeRange.covers t = true

theorem not_covered {hostId t : ℤ} : (st.reservations.any fun r =>
    r.hostId == hostId && r.status.active && r.timeRange.covers t) = false ↔ ¬st.Covered hostId t := by
  simp [Store.Covered, and_assoc]

/-- On consistent stores, active is confirmed. -/
theorem not_occupied (hst : Consistent st) {hostId s e : ℤ} : (st.reservations.any fun r =>
    r.hostId == hostId && r.status == .confirmed && r.timeRange.overlaps s e) = false ↔
      ¬st.Occupied hostId s e := by
  have hact : ∀ r ∈ st.reservations, r.status = .confirmed ↔ r.status.active = true := by
    intro r hr
    have := hst.status r hr
    cases hs : r.status <;> simp_all [ReservationStatus.active]
  simp only [Store.Occupied, List.any_eq_false, Bool.and_eq_true, beq_iff_eq, not_exists, not_and]
  refine forall₂_congr fun r hr => ?_
  rw [hact r hr, and_imp]
  exact forall_comm

theorem find?_host (hst : Ready st q) {h : Host} (hh : h ∈ st.hosts) :
    st.hosts.find? (fun x => x.id == h.id) = some h := by
  cases hf : st.hosts.find? fun x => x.id == h.id with
  | none => exact absurd (List.find?_eq_none.mp hf h hh) (by simp)
  | some x =>
    have hid : x.id = h.id := by simpa using List.find?_some hf
    rw [List.inj_on_of_nodup_map hst.hosts (List.mem_of_find?_eq_some hf) hh hid]

theorem run_withAvailableUntil (now : DateTime) : ∀ rows, (withAvailableUntil now rows).run E c =
    (.ok (rows.filterMap fun row => (c.view.hosts.find? fun h => h.id == row.1).map fun host =>
      (host, (instantWindow now (row.2.map .utc)).2)), c)
  | [] => rfl
  | (hostId, next) :: rows => by
    rw [withAvailableUntil, run_select rfl, run_bind, run_withAvailableUntil now rows]
    simp only [Stmt.exec, List.filterMap_cons]
    cases c.view.hosts.find? fun h => h.id == hostId with
    | none => rfl
    | some host => simp

/-- What the list of instant use shows. -/
theorem run_listInstantAvailableHosts (hst : Ready c.view q) : ∃ rows,
    (listInstantAvailableHosts.run E c).1 = .ok rows ∧ ∀ host until_, (host, until_) ∈ rows ↔
      host ∈ c.view.hosts ∧ host.status = .idle ∧ ¬c.view.Covered host.id (E.now c.reads) ∧
        until_ = (windowAt c.view host.id (E.now c.reads)).2 := by
  rw [listInstantAvailableHosts, run_now, run_select rfl, run_withAvailableUntil]
  refine ⟨_, rfl, fun host until_ => ?_⟩
  simp only [Stmt.exec, view_reads, DateTime.instant_utc, List.mem_filterMap, List.mem_map,
    List.mem_insertionSort, List.mem_filter, Bool.and_eq_true, beq_iff_eq, Bool.not_eq_true']
  constructor
  · rintro ⟨_, ⟨h, ⟨hh, hidle, hcov⟩, rfl⟩, hrow⟩
    rw [find?_host hst hh] at hrow
    obtain ⟨rfl, rfl⟩ := Prod.mk.inj (Option.some.inj hrow)
    exact ⟨hh, hidle, not_covered.mp hcov, rfl⟩
  · rintro ⟨hh, hidle, hcov, rfl⟩
    refine ⟨_, ⟨host, ⟨hh, hidle, not_covered.mpr hcov⟩, rfl⟩, ?_⟩
    rw [find?_host hst hh]
    rfl

/-- What the list of a slot shows. -/
theorem run_listAvailableHosts (hst : Consistent c.view) {from_ to_ : DateTime} {reply : Reply}
    (hok : ((listAvailableHostsEndpoint (some from_) (some to_)).run E c).1 = .ok reply) :
    from_.instant < to_.instant ∧ ∃ hosts, reply = .available hosts ∧
      ∀ id, (∃ h ∈ hosts, h.id = id) ↔ ∃ h ∈ c.view.hosts, h.id = id ∧ h.status = .idle ∧
        ¬c.view.Occupied id from_.instant to_.instant := by
  simp only [listAvailableHostsEndpoint, run_lift_bind, bind_eq_ok, raiseIf_eq_ok,
    DateTime.not_le_iff] at hok
  obtain ⟨-, -, -, -, -, hlt, hrun⟩ := hok
  rw [run_select rfl] at hrun
  obtain rfl := Except.ok.inj hrun
  refine ⟨hlt, _, rfl, fun id => ?_⟩
  simp only [Stmt.exec, List.mem_map, List.mem_insertionSort, List.mem_filter, Bool.and_eq_true,
    beq_iff_eq, Bool.not_eq_true', not_occupied hst, exists_exists_and_eq_and]
  constructor
  · rintro ⟨h, ⟨hh, hidle, hocc⟩, rfl⟩
    exact ⟨h, hh, rfl, hidle, hocc⟩
  · rintro ⟨h, hh, rfl, hidle, hocc⟩
    exact ⟨h, ⟨hh, hidle, hocc⟩, rfl⟩

/-! ## The window of instant use -/

theorem windowAt_fst (hostId t : ℤ) : (windowAt st hostId t).1.instant = t - t % secondUs := by
  rw [windowAt, instantWindow_fst, DateTime.instant_utc]

theorem windowAt_snd (hostId t : ℤ) : (windowAt st hostId t).2.instant =
    (Stmt.nextStartOf st hostId t).elim (slotEnd t) (min · (slotEnd t)) := by
  rw [windowAt, instantWindow_snd, DateTime.instant_utc]

/-- The next reservation starts later. -/
theorem lt_nextStartOf {hostId t n : ℤ} (hn : Stmt.nextStartOf st hostId t = some n) : t < n := by
  obtain ⟨⟨r, -, hup, rfl⟩, -⟩ := nextStartOf_eq_some.mp hn
  simp only [Stmt.upcoming, TsRange.startsAfter, Bool.and_eq_true, decide_eq_true_eq] at hup
  exact hup.2.2

variable (st) in
theorem windowAt_fst_le (hostId t : ℤ) : (windowAt st hostId t).1.instant ≤ t := by
  rw [windowAt_fst, secondUs]
  omega

variable (st) in
theorem lt_windowAt_snd (hostId t : ℤ) : t < (windowAt st hostId t).2.instant := by
  rw [windowAt_snd]
  have hend := lt_slotEnd t
  cases hn : Stmt.nextStartOf st hostId t with
  | none => exact hend
  | some n => exact lt_min (lt_nextStartOf hn) hend

/-- The window ends before the reservations to come. -/
theorem windowAt_snd_le (hst : Consistent st) {r : Reservation} (hr : r ∈ st.reservations)
    (hact : r.status.active = true) {t : ℤ} (ht : t < r.timeRange.lower) :
    (windowAt st r.hostId t).2.instant ≤ r.timeRange.lower := by
  have hup : Stmt.upcoming r.hostId t r = true := by
    have hne := hst.ranges r hr
    have hcon : r.status = .confirmed := by
      have := hst.status r hr
      cases hs : r.status <;> simp_all [ReservationStatus.active]
    simp [Stmt.upcoming, TsRange.startsAfter, hcon, hne, ht]
  rw [windowAt_snd]
  cases hn : Stmt.nextStartOf st r.hostId t with
  | none => simp [nextStartOf_eq_none.mp hn r hr] at hup
  | some n => exact (min_le_left _ _).trans ((nextStartOf_eq_some.mp hn).2 r hr hup)

/-- Until its end, the window ends no earlier. -/
theorem windowAt_snd_mono (hst : Consistent st) {hostId t t' : ℤ} (hle : t ≤ t')
    (hlt : t' < (windowAt st hostId t).2.instant) :
    (windowAt st hostId t).2.instant ≤ (windowAt st hostId t').2.instant := by
  rw [windowAt_snd hostId t']
  have hend : (windowAt st hostId t).2.instant ≤ slotEnd t := instantWindow_snd_le_slotEnd t _
  cases hn : Stmt.nextStartOf st hostId t' with
  | none => exact hend.trans (slotEnd_mono hle)
  | some n =>
    obtain ⟨⟨r, hr, hup, rfl⟩, -⟩ := nextStartOf_eq_some.mp hn
    simp only [Stmt.upcoming, TsRange.startsAfter, Bool.and_eq_true, beq_iff_eq,
      decide_eq_true_eq] at hup
    obtain ⟨⟨rfl, hcon⟩, -, hlow⟩ := hup
    refine le_min (windowAt_snd_le hst hr ?_ (hle.trans_lt hlow)) (hend.trans (slotEnd_mono hle))
    rw [hcon]
    rfl

/-- A host that is free at `t` is free in the windows up to the end of its own. -/
theorem not_occupied_windowAt (hst : Ready st q) {hostId t t' : ℤ} (hfree : ¬st.Covered hostId t)
    (hle : t ≤ t') (hlt : t' < (windowAt st hostId t).2.instant) :
    ¬st.Occupied hostId (windowAt st hostId t').1.instant (windowAt st hostId t').2.instant := by
  rintro ⟨r, hr, hact, rfl, hov⟩
  simp only [TsRange.overlaps, Bool.and_eq_true, decide_eq_true_eq] at hov
  obtain ⟨⟨⟨-, -⟩, hlow⟩, hup⟩ := hov
  rcases lt_or_ge t r.timeRange.lower with hlater | hearlier
  · -- a later reservation: the window ends before it
    have hnext := windowAt_snd_le hst.toConsistent hr hact hlater
    exact absurd hlow (not_lt.mpr
      (windowAt_snd_le hst.toConsistent hr hact (hlt.trans_le hnext)))
  · -- an earlier one: it is over at `t`, and at a full second
    have hover : r.timeRange.upper ≤ t := by
      by_contra hlt
      exact hfree ⟨r, hr, rfl, hact, by simp [TsRange.covers, hearlier, not_le.mp hlt]⟩
    obtain ⟨-, hsec⟩ := hst.seconds r hr
    rw [windowAt_fst] at hup
    simp only [secondUs] at hup hsec
    omega

/-- A host that is in use at `t` is occupied in the window. -/
theorem occupied_windowAt {hostId t : ℤ} (hcov : st.Covered hostId t) :
    st.Occupied hostId (windowAt st hostId t).1.instant (windowAt st hostId t).2.instant := by
  obtain ⟨r, hr, rfl, hact, hcov⟩ := hcov
  have h1 := windowAt_fst_le st r.hostId t
  have h2 := lt_windowAt_snd st r.hostId t
  simp only [TsRange.covers, Bool.and_eq_true, decide_eq_true_eq] at hcov
  refine ⟨r, hr, hact, rfl, ?_⟩
  simp only [TsRange.overlaps, Bool.and_eq_true, decide_eq_true_eq]
  omega

/-! ## The promise -/

/-- The booking `[a, b)` passes the checks of its window and the quotas. -/
structure Passes (cfg : Settings) (st : Store) (userId : ℤ) (a b : DateTime) (t : ℤ) : Prop where
  shape : validateShape cfg a b = .ok ()
  start : validateStart cfg a (.utc t) = .ok ()
  quota : WithinQuota cfg st userId a b t

/-- Instant use of an idle host, within the quotas. -/
theorem serve_createInstantReservation (hst : Ready st q) {user : User} {host : Host}
    (hh : host ∈ st.hosts) (hidle : host.status = .idle) (t : ℤ) (nonce : ℕ → String)
    (hq : WithinQuota cfg st user.id (windowAt st host.id t).1 (windowAt st host.id t).2 t) :
    kindOf (serve (Env.at t nonce) (createInstantReservation cfg user host.id) st q).1 =
      kindOf (bookOutcome st q.reservation t user host.id (windowAt st host.id t).1.instant
        (windowAt st host.id t).2.instant) := by
  exact (run_createInstantReservation (c := ⟨st, [], q, 0, 0⟩) rfl user host.id).kind.trans
    (instantKind_eq (find?_host hst hh) hidle hq)

/-- A booking whose checks pass. -/
theorem serve_createReservation (hst : Ready st q) {user : User} {host : Host} (hh : host ∈ st.hosts)
    {a b : DateTime} (t : ℤ) (nonce : ℕ → String) (hp : Passes cfg st user.id a b t) :
    kindOf (serve (Env.at t nonce) (createReservation cfg user host.id a b) st q).1 =
      kindOf (bookOutcome st q.reservation t user host.id a.instant b.instant) := by
  exact (run_createReservation (c := ⟨st, [], q, 0, 0⟩) cfg rfl user host.id a b).kind.trans
    (createKind_eq hp.shape hp.start (congrArg Option.isSome (find?_host hst hh)) hp.quota)

section
variable {hashRaw : String → String} {C : System → Label Job ℤ String → Prop} {db : Store} {aux : Seqs}
  {clock : ℤ} {s : System}

/-- A host listed for instant use can be used at once until the end listed. -/
theorem instant_of_listed (hst : Ready st q) {user : User} (hu : ∃ u ∈ st.users, u.id = user.id)
    {host : Host} (hh : host ∈ st.hosts) (hidle : host.status = .idle) {t t' : ℤ}
    (hfree : ¬st.Covered host.id t) (hle : t ≤ t') (hlt : t' < (windowAt st host.id t).2.instant)
    (nonce : ℕ → String)
    (hq : WithinQuota cfg st user.id (windowAt st host.id t').1 (windowAt st host.id t').2 t') :
    ∃ r, (serve (Env.at t' nonce) (createInstantReservation cfg user host.id) st q).1 = .ok r ∧
      r.timeRange.lower ≤ t' ∧ t' < r.timeRange.upper ∧
      (windowAt st host.id t).2.instant ≤ r.timeRange.upper := by
  have hlow := windowAt_fst_le st host.id t'
  have hup := lt_windowAt_snd st host.id t'
  have hkind := serve_createInstantReservation hst hh hidle t' nonce hq
  rw [hst.bookOutcome_ok (hlow.trans hup.le) (not_occupied_windowAt hst hfree hle hlt) hu
    ⟨host, hh, rfl⟩] at hkind
  exact ⟨_, kindOf_eq_ok hkind, hlow, hup, windowAt_snd_mono hst.toConsistent hle hlt⟩

/-- An idle host that is in use at the moment is rejected with a conflict. -/
theorem conflict_of_covered (hst : Ready st q) {user : User} {host : Host} (hh : host ∈ st.hosts)
    (hidle : host.status = .idle) {t : ℤ} (hcov : st.Covered host.id t) (nonce : ℕ → String)
    (hq : WithinQuota cfg st user.id (windowAt st host.id t).1 (windowAt st host.id t).2 t) :
    (serve (Env.at t nonce) (createInstantReservation cfg user host.id) st q).1 =
      .error .reservationConflict := by
  have hle : (windowAt st host.id t).1.instant ≤ (windowAt st host.id t).2.instant :=
    (windowAt_fst_le st host.id t).trans (lt_windowAt_snd st host.id t).le
  have hkind := serve_createInstantReservation hst hh hidle t nonce hq
  rw [hst.bookOutcome_conflict hle (occupied_windowAt hcov)] at hkind
  exact kindOf_eq_conflict hkind

/-- **The lists of available hosts keep their promise**, in every reachable
    store, for both kinds of booking. -/
theorem listed_iff_bookable (h0 : Ready db aux)
    (h : Reach (app cfg hashRaw) C ⟨db, aux, clock, []⟩ s) {user : User}
    (hu : ∃ u ∈ s.db.users, u.id = user.id) (nonce : ℕ → String) :
    (∀ t, ∃ rows, (serve (Env.at t nonce) listInstantAvailableHosts s.db s.aux).1 = .ok rows ∧
      (∀ host until_ t', (host, until_) ∈ rows → t ≤ t' → t' < until_.instant →
        WithinQuota cfg s.db user.id (windowAt s.db host.id t').1 (windowAt s.db host.id t').2 t' →
        ∃ r, (serve (Env.at t' nonce) (createInstantReservation cfg user host.id) s.db s.aux).1 = .ok r ∧
          r.timeRange.lower ≤ t' ∧ t' < r.timeRange.upper ∧ until_.instant ≤ r.timeRange.upper) ∧
      ∀ host ∈ s.db.hosts, host.status = .idle → (∀ until_, (host, until_) ∉ rows) →
        WithinQuota cfg s.db user.id (windowAt s.db host.id t).1 (windowAt s.db host.id t).2 t →
        (serve (Env.at t nonce) (createInstantReservation cfg user host.id) s.db s.aux).1 =
          .error .reservationConflict) ∧
    ∀ from_ to_ t reply,
      (serve (Env.at t nonce) (listAvailableHostsEndpoint (some from_) (some to_)) s.db s.aux).1 =
        .ok reply → ∃ hosts, reply = .available hosts ∧
      ∀ a b t', a.instant = from_.instant → b.instant = to_.instant → Passes cfg s.db user.id a b t' →
        (∀ x ∈ hosts, ∃ r,
          (serve (Env.at t' nonce) (createReservation cfg user x.id a b) s.db s.aux).1 = .ok r ∧
            r.timeRange.lower = from_.instant ∧ r.timeRange.upper = to_.instant) ∧
        ∀ host ∈ s.db.hosts, host.status = .idle → (∀ x ∈ hosts, x.id ≠ host.id) →
          (serve (Env.at t' nonce) (createReservation cfg user host.id a b) s.db s.aux).1 =
            .error .reservationConflict := by
  have hst := ready_of_reach h0 h
  refine ⟨fun t => ?_, fun from_ to_ t reply hreply => ?_⟩
  · obtain ⟨rows, hrows, hmem⟩ := run_listInstantAvailableHosts (E := Env.at t nonce)
      (c := ⟨s.db, [], s.aux, 0, 0⟩) hst
    refine ⟨rows, hrows, fun host until_ t' hrow hle hlt hq => ?_, fun host hh hidle hno hq => ?_⟩
    · obtain ⟨hh, hidle, hfree, rfl⟩ := (hmem host until_).mp hrow
      exact instant_of_listed hst hu hh hidle hfree hle hlt nonce hq
    · by_cases hcov : s.db.Covered host.id t
      · exact conflict_of_covered hst hh hidle hcov nonce hq
      · exact absurd ((hmem host _).mpr ⟨hh, hidle, hcov, rfl⟩) (hno _)
  · obtain ⟨hlt, hosts, rfl, hmem⟩ := run_listAvailableHosts (E := Env.at t nonce)
      (c := ⟨s.db, [], s.aux, 0, 0⟩) hst.toConsistent hreply
    refine ⟨hosts, rfl, fun a b t' ha hb hp => ⟨fun x hx => ?_, fun host hh hidle hno => ?_⟩⟩
    · obtain ⟨host, hh, hid, -, hfree⟩ := (hmem x.id).mp ⟨x, hx, rfl⟩
      have hkind := serve_createReservation hst hh t' nonce hp
      rw [ha, hb, hst.bookOutcome_ok hlt.le (hid ▸ hfree) hu ⟨host, hh, rfl⟩] at hkind
      exact ⟨_, hid ▸ kindOf_eq_ok hkind, rfl, rfl⟩
    · have hocc : s.db.Occupied host.id from_.instant to_.instant := by
        by_contra hfree
        obtain ⟨x, hx, hid⟩ := (hmem host.id).mpr ⟨host, hh, rfl, hidle, hfree⟩
        exact hno x hx hid
      have hkind := serve_createReservation hst hh t' nonce hp
      rw [ha, hb, hst.bookOutcome_conflict hlt.le hocc] at hkind
      exact kindOf_eq_conflict hkind

end

theorem room_ready : Ready room {} where
  toConsistent := room_consistent
  seconds := by simp [room]
  fresh := by simp [room]
  hosts := by decide

/-- A host listed until the reservation at 2 o'clock is used at 1 o'clock. -/
theorem listed_iff_bookable_room : ∃ (s : System) (r : Reservation), s.db.reservations.length = 1 ∧
    (serve (Env.at hourUs fun _ => "") (createInstantReservation {} ⟨1, .user, "mock"⟩ 1) s.db s.aux).1 =
      .ok r ∧ r.timeRange.lower ≤ hourUs ∧ 2 * hourUs ≤ r.timeRange.upper := by
  have hrun : (play (app {} id) Any ⟨room, {}, 0, []⟩
      [.arrive (bookFor 2 1 2 60), .steps 0 "" 30]).any (fun s =>
        s.db.reservations.length == 1 && s.db.users.any (·.id == 1) &&
        decide (WithinQuota {} s.db 1 (windowAt s.db 1 hourUs).1 (windowAt s.db 1 hourUs).2 hourUs) &&
        (serve (Env.at 0 fun _ => "") listInstantAvailableHosts s.db s.aux).1.toOption.any fun rows =>
          rows.any fun row => row.1.id == 1 && row.2 == .utc (2 * hourUs)) = true := by decide
  obtain ⟨s, hs, hp⟩ := Reach.of_play_any hrun
  simp only [Bool.and_eq_true, beq_iff_eq, decide_eq_true_eq, Option.any_eq_true, List.any_eq_true] at hp
  obtain ⟨⟨⟨hlen, hu⟩, hq⟩, rows', hrows', ⟨host, until_⟩, hrow, hid, rfl⟩ := hp
  have hu : ∃ u ∈ s.db.users, u.id = (⟨1, .user, "mock"⟩ : User).id := hu
  obtain ⟨rows, hrows, hbook, -⟩ := (listed_iff_bookable room_ready hs hu fun _ => "").1 0
  rw [hrows] at hrows'
  obtain rfl := Option.some.inj hrows'
  have hbook := hbook host _ hourUs hrow (by decide) (by decide)
  rw [show host.id = 1 from hid] at hbook
  obtain ⟨r, hr, hlow, -, hup⟩ := hbook hq
  exact ⟨s, r, hlen, hr, hlow, hup⟩

end SmartClassroom
