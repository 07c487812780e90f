/-
  The limit on concurrent reservations.

  `_validate_quota` counts in one statement, and the INSERT comes later: two
  bookings on different hosts can both count before either commits
  (`concurrent_exceeded`).  The limit holds in every interleaving whose bookings
  commit only after counting all the open reservations of their user
  (`concurrent_le`).
-/
import Mathlib.Data.List.Perm.Subperm
import SmartClassroom.Constraints

namespace SmartClassroom

open Txn

/-- A confirmed reservation of the user that is not over at `t`. -/
def Reservation.isOpen (userId t : ℤ) (r : Reservation) : Bool :=
  r.userId == userId && r.status == .confirmed && decide (t < r.timeRange.upper)

/-- How many reservations of the user are confirmed and not over at `t`. -/
def Store.openCount (st : Store) (userId t : ℤ) : ℕ := st.reservations.countP (·.isOpen userId t)

/-- If the event is a count of the reservations of `userId`, it has seen all
    that are open now. -/
def Counted (db : Store) (t userId : ℤ) : Ev broker → Prop
  | .stmt (.countConcurrent user _) _ _ snap _ => user = userId →
    ∀ y ∈ db.reservations, y.isOpen userId t = true → y.id ∈ snap.reservations.map (·.id)
  | _ => True

/-- A booking commits only if its count has seen every reservation of its user
    that is open by then. -/
def CountedAll : System → Label Job ℤ String → Prop
  | s, .act i .commit => ∀ r ∈ s.reqs[i]?, ∀ x ∈ reservationTable.newAll (pendOf r.log),
    ∀ e ∈ r.log, Counted s.db s.clock x.userId e
  | _, _ => True

instance (db : Store) (t userId : ℤ) : ∀ e, Decidable (Counted db t userId e)
  | .stmt s .. => by cases s <;> unfold Counted <;> infer_instance
  | .now _ | .draw _ | .commit | .rollback => isTrue trivial

instance (s : System) : ∀ l, Decidable (CountedAll s l)
  | .act i .commit => by unfold CountedAll; infer_instance
  | .act _ .start | .act _ .finish | .act _ .now | .act _ (.draw _) | .act _ .rollback | .act _ .fail
  | .arrive _ | .tick _ => isTrue trivial

/-- An injection of rows by their ids bounds a count. -/
theorem countP_le_of_ids {l l' : List Reservation} {p q : Reservation → Bool}
    (hl : l.Pairwise fun a b => a.id ≠ b.id)
    (h : ∀ y ∈ l, p y = true → ∃ z ∈ l', q z = true ∧ z.id = y.id) : l.countP p ≤ l'.countP q := by
  have hnodup : ((l.filter p).map (·.id)).Nodup :=
    List.pairwise_map.mpr (hl.sublist List.filter_sublist)
  have hsub : (l.filter p).map (·.id) ⊆ (l'.filter q).map (·.id) := by
    intro id hid
    obtain ⟨y, hy, rfl⟩ := List.mem_map.mp hid
    obtain ⟨hy, hpy⟩ := List.mem_filter.mp hy
    obtain ⟨z, hz, hqz, e⟩ := h y hy hpy
    exact List.mem_map.mpr ⟨z, List.mem_filter.mpr ⟨hz, hqz⟩, e⟩
  simpa [List.countP_eq_length_filter] using (hnodup.subperm hsub).length_le

/-- A row that is open now was open before. -/
theorem Reservation.Evolves.isOpen {r r' : Reservation} (h : r.Evolves r') {userId t : ℤ}
    (ho : r'.isOpen userId t = true) : r.isOpen userId t = true := by
  simp only [Reservation.isOpen, Bool.and_eq_true, beq_iff_eq] at ho ⊢
  rw [← h.userId, ← h.timeRange, ← h.active (by rw [ho.1.2]; rfl)]
  exact ho

theorem openCount_tick {st : Store} {userId t t' : ℤ} (h : t ≤ t') :
    st.openCount userId t' ≤ st.openCount userId t := by
  refine List.countP_mono_left fun r _ hr => ?_
  simp only [Reservation.isOpen, Bool.and_eq_true, decide_eq_true_eq] at hr ⊢
  exact ⟨hr.1, h.trans_lt hr.2⟩

/-- After a commit: the open reservations of before, and those inserted. -/
theorem openCount_applyAll (db : Store) (ws : List Write) (userId t : ℤ) :
    (broker.applyAll db ws).openCount userId t ≤
      db.openCount userId t + (reservationTable.newAll ws).countP (·.isOpen userId t) := by
  rw [Store.openCount, reservations_applyAll, List.countP_append, List.countP_map]
  exact Nat.add_le_add_right
    (List.countP_mono_left fun r _ hr => (updAll_reservation_evolves ws r).isOpen hr) _

section
variable {cfg : Settings} {hashRaw : String → String} {db : Store} {aux : Seqs} {clock : ℤ}
  {s : System}

/-- The reservations a count has seen are as many as it counted, or fewer now. -/
theorem openCount_le_of_counted
    (hs : s.Sound RangesNonempty (rules cfg) (answers hashRaw) Store.Evolves) (hc : Consistent s.db)
    {i : ℕ} {r : Req broker Job BrokerError Reply} (hr : s.reqs[i]? = some r) {userId now : ℤ}
    {snap cur : Store} (hnow : Read r.log now)
    (hran : Ran r.log (.countConcurrent userId now) snap cur)
    (hseen : ∀ e ∈ r.log, Counted s.db s.clock userId e) :
    s.db.openCount userId s.clock ≤ snap.reservations.countP (Stmt.concurrent userId now) := by
  have hle : now ≤ s.clock := (hs.req i r hr).past _ hnow
  have hsnap := hran.evolves (hs.req i r hr).past
  obtain ⟨b, q, hran⟩ := hran
  refine countP_le_of_ids (hc.reservations.imp fun h e => h (.inl e)) fun y hy ho => ?_
  obtain ⟨z, hz, hid⟩ := List.mem_map.mp (hseen _ hran rfl y hy ho)
  obtain ⟨z', hz', hev⟩ := hsnap.reservations z hz
  obtain rfl := hc.reservation_eq hz' hy (hev.id.trans hid)
  refine ⟨z, hz, ?_, hid⟩
  have hlt := hc.ranges z' hy
  have hz := hev.isOpen ho
  rw [hev.timeRange] at hlt
  simp only [Reservation.isOpen, Bool.and_eq_true, beq_iff_eq, decide_eq_true_eq] at hz
  simp only [Stmt.concurrent, TsRange.endsAfter, Bool.and_eq_true, beq_iff_eq, decide_eq_true_eq]
  exact ⟨⟨hz.1.1, by rw [hz.1.2]; rfl⟩, hlt, hle.trans_lt hz.2⟩

/-- **The limit on concurrent reservations**, where every booking has counted
    what is committed before it. -/
theorem concurrent_le (hdb : Consistent db) {userId : ℤ}
    (h0 : db.openCount userId clock ≤ cfg.maxConcurrentReservations)
    (h : Reach (app cfg hashRaw) CountedAll ⟨db, aux, clock, []⟩ s) :
    s.db.openCount userId s.clock ≤ cfg.maxConcurrentReservations := by
  refine h.store_inv (P := fun t (st : Store) => st.openCount userId t ≤ cfg.maxConcurrentReservations)
    (fun _ _ _ hle ih => (openCount_tick hle).trans ih) (fun s₁ i r k h₁ hC hr _ ih => ?_) h0
  have hs := sound_of_reach hdb h₁
  have hk := (hs.req i r hr).kept
  refine (openCount_applyAll s₁.db (pendOf r.log) userId s₁.clock).trans ?_
  rcases Nat.eq_zero_or_pos
    ((reservationTable.newAll (pendOf r.log)).countP (·.isOpen userId s₁.clock)) with hz | hpos
  · rw [hz]
    exact ih
  -- the transaction books for the user, so it has counted
  obtain ⟨x, hx, hopen⟩ := List.countP_pos_iff.mp hpos
  obtain ⟨y, hy, hev⟩ := mem_newReservations hx
  obtain rfl : x.userId = userId := by
    simp only [Reservation.isOpen, Bool.and_eq_true, beq_iff_eq] at hopen
    exact hopen.1.1
  obtain ⟨-, s, e, -, -, -, ⟨now, snap, cur, hnow, hran, hlt⟩, -⟩ := pending_reservation hk hy
  rw [← hev.userId] at hran hlt
  have hle := openCount_le_of_counted hs (consistent_of_reach hdb h₁) hr hnow hran (hC r hr x hx)
  have hone : (reservationTable.newAll (pendOf r.log)).countP (·.isOpen x.userId s₁.clock) ≤ 1 :=
    List.countP_le_length.trans (newReservations_le_one hk)
  omega

end

/-- Bookings and cancellations of one user. -/
def BookingOf (userId : ℤ) : Job → Prop
  | .create user .. | .instant user _ | .cancel user _ => user.id = userId
  | _ => False

instance (userId : ℤ) : DecidablePred (BookingOf userId) := fun j => by
  cases j <;> unfold BookingOf <;> infer_instance

/-- One booking after the other: five are accepted, the sixth is not. -/
theorem concurrent_le_serial : ∃ s : System, s.db.reservations.length = 5 ∧
    s.db.openCount 1 s.clock ≤ 5 := by
  have hrun : (play (app {} id) CountedAll ⟨room, {}, 0, []⟩
      ((List.range 6).flatMap fun (k : ℕ) => [.arrive (bookFor 1 1 (k + 1) 30), .steps k "" 30])).any
      (fun s => s.db.reservations.length == 5) = true := by decide
  obtain ⟨s, hs, hlen⟩ := Reach.of_play_any hrun
  exact ⟨s, beq_iff_eq.mp hlen, concurrent_le room_consistent (by decide) hs⟩

/-- Four bookings, and then two at once: both count four. -/
theorem concurrent_exceeded : ¬∀ s : System,
    Reach (app {} id) (Arrivals (BookingOf 1)) ⟨room, {}, 0, []⟩ s → s.db.openCount 1 s.clock ≤ 5 := by
  have hrun : (play (app {} id) (Arrivals (BookingOf 1)) ⟨room, {}, 0, []⟩
      (((List.range 4).flatMap fun (k : ℕ) => [.arrive (bookFor 1 1 (k + 1) 30), .steps k "" 30]) ++
        [.arrive (bookFor 1 2 5 30), .arrive (bookFor 1 3 5 30), .steps 4 "" 8, .steps 5 "" 8,
          .steps 4 "" 20, .steps 5 "" 20])).any
      (fun s => s.db.openCount 1 s.clock == 6) = true := by decide
  obtain ⟨s, hs, hcount⟩ := Reach.of_play_any hrun
  intro hall
  have := hall s hs
  rw [beq_iff_eq.mp hcount] at this
  exact absurd this (by decide)

end SmartClassroom
