/-
  The daily limit.

  `_validate_quota` charges a new reservation, in full, to the UTC day it starts
  on, and adds what the others use of that day.  So the limit holds for what is
  booked no later than a reservation that starts on the day (`daily_le`); a
  reservation that runs into the day from the day before is not measured against
  it (`daily_exceeded`).
-/
import Mathlib.Algebra.BigOperators.Group.List.Basic
import Mathlib.Algebra.Order.BigOperators.Group.List
import SmartClassroom.Concurrent

namespace SmartClassroom

open Txn

/-! ## Time used -/

/-- Whether the reservation counts for the user. -/
def Reservation.confirmedFor (userId : ℤ) (r : Reservation) : Bool :=
  r.userId == userId && r.status == .confirmed

/-- What the confirmed reservations of the user among `rows` use of `[d, d')`. -/
def usedOn (userId d d' : ℤ) (rows : List Reservation) : ℤ :=
  (rows.map fun r => if r.confirmedFor userId then r.timeRange.overlapUs d d' else 0).sum

@[simp] theorem usedOn_nil (userId d d' : ℤ) : usedOn userId d d' [] = 0 := rfl

@[simp] theorem usedOn_cons (userId d d' : ℤ) (r : Reservation) (rows : List Reservation) :
    usedOn userId d d' (r :: rows) =
      (if r.confirmedFor userId then r.timeRange.overlapUs d d' else 0) + usedOn userId d d' rows := by
  simp [usedOn]

@[simp] theorem usedOn_append (userId d d' : ℤ) (rows rows' : List Reservation) :
    usedOn userId d d' (rows ++ rows') = usedOn userId d d' rows + usedOn userId d d' rows' := by
  simp [usedOn]

/-- A confirmed row was confirmed before. -/
theorem Reservation.Evolves.confirmedFor {r r' : Reservation} (h : r.Evolves r') {userId : ℤ}
    (hc : r'.confirmedFor userId = true) : r.confirmedFor userId = true := by
  simp only [Reservation.confirmedFor, Bool.and_eq_true, beq_iff_eq] at hc ⊢
  rw [← h.userId, ← h.active (by rw [hc.2]; rfl)]
  exact hc

/-- Updates do not add to what is used. -/
theorem usedOn_map_le {f : Reservation → Reservation} (hf : ∀ r : Reservation, r.Evolves (f r))
    (userId d d' : ℤ) (rows : List Reservation) : usedOn userId d d' (rows.map f) ≤ usedOn userId d d' rows := by
  induction rows with
  | nil => exact le_rfl
  | cons r rows ih =>
    rw [List.map_cons, usedOn_cons, usedOn_cons, (hf r).timeRange]
    refine add_le_add ?_ ih
    split_ifs with h h' h'
    · exact le_rfl
    · exact absurd ((hf r).confirmedFor h) h'
    · exact r.timeRange.overlapUs_nonneg d d'
    · exact le_rfl

/-- The reservation starts on the day from `d` on. -/
def Reservation.startsOn (d : ℤ) (r : Reservation) : Prop :=
  d ≤ r.timeRange.lower ∧ r.timeRange.lower < d + dayUs

/-- Its bounds are full minutes. -/
def Reservation.OnMinutes (r : Reservation) : Prop :=
  minuteUs ∣ r.timeRange.lower ∧ minuteUs ∣ r.timeRange.upper

/-- For each confirmed reservation that starts on a UTC day: it and those booked
    before it use no more of the day than the limit. -/
def WithinDaily (cfg : Settings) (rows : List Reservation) : Prop :=
  ∀ userId d, dayUs ∣ d → ∀ (i : ℕ) r, rows[i]? = some r → r.confirmedFor userId = true →
    r.startsOn d → usedOn userId d (d + dayUs) (rows.take (i + 1)) ≤
      cfg.maxReservationHoursPerDay * hourUs

/-- Where nothing runs into the day from before, the limit is one of the day. -/
theorem WithinDaily.day {cfg : Settings} {rows : List Reservation} (h : WithinDaily cfg rows)
    {userId d : ℤ} (hd : dayUs ∣ d)
    (hinto : ∀ r ∈ rows, r.confirmedFor userId = true → r.timeRange.lower < d → r.timeRange.upper ≤ d) :
    usedOn userId d (d + dayUs) rows ≤ cfg.maxReservationHoursPerDay * hourUs := by
  induction rows using List.reverseRecOn with
  | nil => simp only [usedOn_nil, hourUs]; omega
  | append_singleton rows r ih =>
    by_cases hr : r.confirmedFor userId = true ∧ r.startsOn d
    · have := h userId d hd rows.length r (by simp) hr.1 hr.2
      rwa [List.take_of_length_le (by simp)] at this
    · -- the last one uses nothing of the day
      have hzero : (if r.confirmedFor userId then r.timeRange.overlapUs d (d + dayUs) else 0) = 0 := by
        split_ifs with hc
        · have hle := r.timeRange.le
          have hlt := hinto r (by simp) hc
          have hst : ¬r.startsOn d := fun h => hr ⟨hc, h⟩
          simp only [Reservation.startsOn, not_and, not_lt] at hst
          simp only [TsRange.overlapUs]
          omega
        · rfl
      rw [usedOn_append, usedOn_cons, hzero, usedOn_nil]
      simp only [add_zero]
      refine ih (fun u d hd i x hx hc hs => ?_) fun x hx => hinto x (List.mem_append_left _ hx)
      have hi : i < rows.length := (List.getElem?_eq_some_iff.mp hx).1
      have := h u d hd i x (by rw [List.getElem?_append_left hi, hx]) hc hs
      rwa [List.take_append_of_le_length hi] at this

/-- Updates keep the limit. -/
theorem WithinDaily.map {cfg : Settings} {rows : List Reservation} (h : WithinDaily cfg rows)
    {f : Reservation → Reservation} (hf : ∀ r : Reservation, r.Evolves (f r)) :
    WithinDaily cfg (rows.map f) := by
  intro userId d hd i x hx hc hst
  rw [List.getElem?_map, Option.map_eq_some_iff] at hx
  obtain ⟨y, hy, rfl⟩ := hx
  rw [← List.map_take]
  refine (usedOn_map_le hf _ _ _ _).trans (h userId d hd i y hy ((hf y).confirmedFor hc) ?_)
  rwa [Reservation.startsOn, ← (hf y).timeRange]

/-- So does a row that the day it starts on has room for. -/
theorem WithinDaily.concat {cfg : Settings} {rows : List Reservation} (h : WithinDaily cfg rows)
    {x : Reservation} (hroom : ∀ d, dayUs ∣ d → x.startsOn d →
      usedOn x.userId d (d + dayUs) rows + x.timeRange.overlapUs d (d + dayUs) ≤
        cfg.maxReservationHoursPerDay * hourUs) : WithinDaily cfg (rows ++ [x]) := by
  intro userId d hd i y hy hc hst
  by_cases hi : i < rows.length
  · rw [List.getElem?_append_left hi] at hy
    rw [List.take_append_of_le_length hi]
    exact h userId d hd i y hy hc hst
  · have hlen := (List.getElem?_eq_some_iff.mp hy).1
    rw [List.length_append, List.length_singleton] at hlen
    obtain rfl : i = rows.length := by omega
    obtain rfl : x = y := by simpa using hy
    obtain rfl : x.userId = userId := by
      simp only [Reservation.confirmedFor, Bool.and_eq_true, beq_iff_eq] at hc
      exact hc.1
    rw [List.take_of_length_le (by simp), usedOn_append, usedOn_cons, usedOn_nil, if_pos hc, add_zero]
    exact hroom d hd hst

/-! ## What the quota has added up -/

/-- What is used of a day is at most what `_validate_quota` finds. -/
theorem usedOn_le_usedMinutes {st : Store} (hmin : ∀ r ∈ st.reservations, r.OnMinutes) (userId : ℤ)
    (tz : Option ℤ) {dayStart dayEnd : DateTime} (hs : minuteUs ∣ dayStart.instant)
    (he : minuteUs ∣ dayEnd.instant) :
    usedOn userId dayStart.instant dayEnd.instant st.reservations ≤ minuteUs *
      usedMinutes tz dayStart dayEnd (dayRanges st userId dayStart.instant dayEnd.instant) := by
  rw [usedMinutes_eq_sum, dayRanges]
  generalize st.reservations = rows at hmin
  induction rows with
  | nil => simp
  | cons r rows ih =>
    have ih := ih fun x hx => hmin x (List.mem_cons_of_mem _ hx)
    have hov := r.timeRange.overlapUs_nonneg dayStart.instant dayEnd.instant
    have hdvd : minuteUs ∣ r.timeRange.overlapUs dayStart.instant dayEnd.instant := by
      obtain ⟨hl, hu⟩ := hmin r List.mem_cons_self
      simp only [TsRange.overlapUs, minuteUs] at *
      omega
    rw [usedOn_cons, List.filter_cons]
    by_cases hd : Stmt.daily userId dayStart.instant dayEnd.instant r = true
    · have hwhole : minuteUs * wholeMinutes (r.timeRange.overlapUs dayStart.instant dayEnd.instant) =
          r.timeRange.overlapUs dayStart.instant dayEnd.instant := Int.mul_ediv_cancel' hdvd
      simp only [hd, if_true, List.map_cons, List.sum_cons, Int.mul_add, hwhole]
      refine add_le_add ?_ ih
      split_ifs
      · exact le_rfl
      · exact hov
    · rw [if_neg hd]
      have hzero : (if r.confirmedFor userId then
          r.timeRange.overlapUs dayStart.instant dayEnd.instant else 0) = 0 := by
        split_ifs with hc
        · refine TsRange.overlapUs_of_not_overlaps ?_
          simp only [Reservation.confirmedFor, Bool.and_eq_true, beq_iff_eq] at hc
          simpa [Stmt.daily, hc.1, hc.2, ReservationStatus.active] using hd
        · rfl
      rw [hzero, zero_add]
      exact ih

/-- In UTC, the day of a datetime is the one its instant lies in. -/
theorem dayStartOf_instant {s : DateTime} (hs : s.tzinfo = some 0) {d : ℤ} (hd : dayUs ∣ d)
    (hle : d ≤ s.instant) (hlt : s.instant < d + dayUs) : (dayStartOf s).instant = d := by
  rw [dayStartOf, DateTime.instant_replace_midnight]
  simp only [DateTime.instant, hs, Option.getD_some, Int.zero_mul, sub_zero, dayUs] at *
  omega

/-! ## Runs -/

/-- The bookings are in UTC, and of a given interval. -/
def IsUtcBooking : Job → Prop
  | .create _ _ startsAt endsAt => startsAt.tzinfo = some 0 ∧ endsAt.tzinfo = some 0
  | .instant .. => False
  | _ => True

instance : DecidablePred IsUtcBooking
  | .create .. => inferInstanceAs (Decidable (_ ∧ _))
  | .instant .. => isFalse id
  | .list .. | .calendar .. | .get .. | .cancel .. | .connect .. | .verify .. | .available ..
  | .rotateAgentToken .. => isTrue trivial

/-- What the rows satisfy throughout. -/
structure DailyStore (cfg : Settings) (st : Store) : Prop where
  minutes : ∀ r ∈ st.reservations, r.OnMinutes
  within : WithinDaily cfg st.reservations

theorem dailyStore_room {cfg : Settings} : DailyStore cfg room where
  minutes := by simp [room]
  within _ _ _ i r hr := by simp [room] at hr

section
variable {cfg : Settings} {hashRaw : String → String} {db : Store} {aux : Seqs} {clock : ℤ}
  {s : System}

/-- A booking in UTC: its bounds, and what the quota has found in the store. -/
theorem utc_booking (hs : s.Sound RangesNonempty (rules cfg) (answers hashRaw) Store.Evolves)
    (ha : Alone s) {i : ℕ} {r : Req broker Job BrokerError Reply} (hr : s.reqs[i]? = some r)
    (he : r.ended = false) (hopen : Open r.log) (hj : IsUtcBooking r.job) {x : Reservation}
    (hx : .insertReservation x ∈ pendOf r.log) : x.OnMinutes ∧ ∃ startsAt endsAt : DateTime,
      startsAt.tzinfo = some 0 ∧ x.timeRange.lower = startsAt.instant ∧
      x.timeRange.upper = endsAt.instant ∧
      usedMinutes startsAt.tzinfo (dayStartOf startsAt) (dayStartOf startsAt + dayUs)
        (dayRanges s.db x.userId (dayStartOf startsAt).instant (dayStartOf startsAt + dayUs).instant) +
        wholeMinutes (endsAt - startsAt) ≤ cfg.maxReservationHoursPerDay * 60 := by
  obtain ⟨-, startsAt, endsAt, hl, hu, hb, -, snap, cur, ⟨b, q, hran⟩, hle⟩ :=
    pending_reservation (hs.req i r hr).kept hx
  obtain ⟨rfl, -⟩ := (ha.saw i r hr he hopen).1 _ _ _ _ _ hran
  cases hjob : r.job with
  | create user hostId startsAt' endsAt' =>
    rw [hjob] at hb hj
    obtain ⟨-, -, rfl, rfl, hv, -⟩ := hb
    obtain ⟨h1, h2, -⟩ := validateShape_eq_ok.mp hv
    exact ⟨⟨hl ▸ h1.minute_dvd, hu ▸ h2.minute_dvd⟩, startsAt, endsAt, hj.1, hl, hu, hle⟩
  | instant => exact absurd hj (by rw [hjob]; exact id)
  | _ =>
    rw [hjob] at hb
    exact hb.elim

/-- The quota has charged a booking to the day it starts on, and added the others. -/
theorem booking_within
    (hs : s.Sound RangesNonempty (rules cfg) (answers hashRaw) Store.Evolves) (ha : Alone s) {i : ℕ}
    {r : Req broker Job BrokerError Reply} (hr : s.reqs[i]? = some r) (he : r.ended = false)
    (hopen : Open r.log) (hj : IsUtcBooking r.job) (hdb : DailyStore cfg s.db) {x : Reservation}
    (hx : .insertReservation x ∈ pendOf r.log) {d : ℤ} (hd : dayUs ∣ d) (hst : x.startsOn d) :
    usedOn x.userId d (d + dayUs) s.db.reservations + x.timeRange.overlapUs d (d + dayUs) ≤
      cfg.maxReservationHoursPerDay * hourUs := by
  obtain ⟨⟨h1, h2⟩, startsAt, endsAt, htz, hl, hu, hle⟩ := utc_booking hs ha hr he hopen hj hx
  rw [Reservation.startsOn, hl] at hst
  have hday := dayStartOf_instant htz hd hst.1 hst.2
  have hdvd : minuteUs ∣ d := Dvd.dvd.trans (by decide) hd
  have hend : minuteUs ∣ (dayStartOf startsAt + dayUs).instant := by
    rw [DateTime.instant_add, hday]
    exact Int.dvd_add hdvd (by decide)
  have hused := usedOn_le_usedMinutes hdb.minutes x.userId startsAt.tzinfo (hday ▸ hdvd) hend
  rw [DateTime.instant_add, hday] at hused hle
  have hov : x.timeRange.overlapUs d (d + dayUs) ≤ endsAt.instant - startsAt.instant := by
    have := x.timeRange.le
    simp only [TsRange.overlapUs]
    omega
  have hwhole : minuteUs * wholeMinutes (endsAt - startsAt) = endsAt.instant - startsAt.instant :=
    Int.mul_ediv_cancel' (Int.dvd_sub (hu ▸ h2) (hl ▸ h1))
  simp only [minuteUs, hourUs] at *
  omega

/-- A commit keeps the daily limit. -/
theorem dailyStore_commit
    (hs : s.Sound RangesNonempty (rules cfg) (answers hashRaw) Store.Evolves) (ha : Alone s) {i : ℕ}
    {r : Req broker Job BrokerError Reply} (hr : s.reqs[i]? = some r) (he : r.ended = false)
    (hopen : Open r.log) (hj : IsUtcBooking r.job) (hdb : DailyStore cfg s.db) :
    DailyStore cfg (broker.applyAll s.db (pendOf r.log)) := by
  have hupd := updAll_reservation_evolves (pendOf r.log)
  have hnew : ∀ x ∈ reservationTable.newAll (pendOf r.log), ∃ y, .insertReservation y ∈ pendOf r.log ∧
      y.Evolves x := fun _ => mem_newReservations
  have hone := newReservations_le_one (hs.req i r hr).kept
  constructor
  · intro x hx
    rw [reservations_applyAll] at hx
    rcases List.mem_append.mp hx with hx | hx
    · obtain ⟨y, hy, rfl⟩ := List.mem_map.mp hx
      rw [Reservation.OnMinutes, (hupd y).timeRange]
      exact hdb.minutes y hy
    · obtain ⟨y, hy, hev⟩ := hnew x hx
      rw [Reservation.OnMinutes, hev.timeRange]
      exact (utc_booking hs ha hr he hopen hj hy).1
  · rw [reservations_applyAll]
    have hold := hdb.within.map hupd
    generalize reservationTable.newAll (pendOf r.log) = rows at hnew hone
    cases rows with
    | nil => rwa [List.append_nil]
    | cons x rows =>
      obtain rfl : rows = [] := by simpa using hone
      refine hold.concat fun d hd hst => ?_
      obtain ⟨y, hy, hev⟩ := hnew x (.head _)
      rw [Reservation.startsOn, hev.timeRange] at hst
      rw [hev.userId, hev.timeRange]
      exact (Int.add_le_add_right (usedOn_map_le hupd _ _ _ _) _).trans
        (booking_within hs ha hr he hopen hj hdb hy hd hst)

theorem dailyStore_of_reach (hdb : Consistent db) (h0 : DailyStore cfg db)
    (h : Reach (app cfg hashRaw) (SerialOf IsUtcBooking) ⟨db, aux, clock, []⟩ s) :
    DailyStore cfg s.db := by
  refine h.store_inv (P := fun _ => DailyStore cfg) (fun _ _ _ _ h => h)
    (fun s₁ i r k h₁ hC hr hp ih => ?_) h0
  have hs := sound_of_reach hdb h₁
  refine dailyStore_commit hs (h₁.alone (fun _ _ h => h.1) (.init _ _ _)) hr (by simp [Req.ended, hp]) ?_
    (h₁.job (fun _ _ h => h.2) (by simp) i r hr) ih
  have hok := (hs.req i r hr).ok
  rw [hp] at hok
  exact hok.1

/-- **The daily limit** of what is booked no later than a reservation that
    starts on the day; and of the whole day, if nothing runs into it. -/
theorem daily_le (hdb : Consistent db) (h0 : DailyStore cfg db)
    (h : Reach (app cfg hashRaw) (SerialOf IsUtcBooking) ⟨db, aux, clock, []⟩ s) (userId : ℤ) {d : ℤ}
    (hd : dayUs ∣ d) :
    (∀ (i : ℕ) r, s.db.reservations[i]? = some r → r.confirmedFor userId = true → r.startsOn d →
      usedOn userId d (d + dayUs) (s.db.reservations.take (i + 1)) ≤
        cfg.maxReservationHoursPerDay * hourUs) ∧
    ((∀ r ∈ s.db.reservations, r.confirmedFor userId = true → r.timeRange.lower < d →
      r.timeRange.upper ≤ d) →
      usedOn userId d (d + dayUs) s.db.reservations ≤ cfg.maxReservationHoursPerDay * hourUs) := by
  have hwithin := (dailyStore_of_reach hdb h0 h).within
  exact ⟨fun i r hr hc hst => hwithin userId d hd i r hr hc hst, hwithin.day hd⟩

end

/-- Two reservations of four hours fill the second day; a third is rejected. -/
theorem daily_le_full : ∃ s : System, s.db.reservations.length = 2 ∧
    usedOn 1 dayUs (dayUs + dayUs) s.db.reservations ≤ 8 * hourUs := by
  have hrun : (play (app {} id) (SerialOf IsUtcBooking) ⟨room, {}, 0, []⟩
      [.arrive (bookFor 1 1 26 240), .steps 0 "" 30, .arrive (bookFor 1 1 30 240), .steps 1 "" 30,
        .arrive (bookFor 1 1 34 30), .steps 2 "" 30]).any
      (fun s => s.db.reservations.length == 2 && s.db.reservations.all fun r =>
        decide (dayUs ≤ r.timeRange.lower)) = true := by decide
  obtain ⟨s, hs, hp⟩ := Reach.of_play_any hrun
  obtain ⟨hlen, hall⟩ := Bool.and_eq_true_iff.mp hp
  refine ⟨s, beq_iff_eq.mp hlen, (daily_le room_consistent dailyStore_room hs 1 (d := dayUs)
    dvd_rfl).2 fun r hr _ hlt => ?_⟩
  exact absurd (of_decide_eq_true (List.all_eq_true.mp hall r hr)) (not_le.mpr hlt)

/-- Eight hours on the third day, and then four hours from 22:00 of the second
    on: two of them are on the third day as well. -/
theorem daily_exceeded : ¬∀ s : System,
    Reach (app {} id) (SerialOf fun j => BookingOf 1 j ∧ IsUtcBooking j) ⟨room, {}, 0, []⟩ s →
      ∀ d, dayUs ∣ d → usedOn 1 d (d + dayUs) s.db.reservations ≤
        ({} : Settings).maxReservationHoursPerDay * hourUs := by
  have hrun : (play (app {} id) (SerialOf fun j => BookingOf 1 j ∧ IsUtcBooking j) ⟨room, {}, 0, []⟩
      [.arrive (bookFor 1 1 50 240), .steps 0 "" 30, .arrive (bookFor 1 1 54 240), .steps 1 "" 30,
        .arrive (bookFor 1 1 46 240), .steps 2 "" 30]).any
      (fun s => usedOn 1 (2 * dayUs) (2 * dayUs + dayUs) s.db.reservations == 10 * hourUs) = true := by
    decide
  obtain ⟨s, hs, hused⟩ := Reach.of_play_any hrun
  intro hall
  have := hall s hs (2 * dayUs) (dvd_mul_left dayUs 2)
  rw [beq_iff_eq.mp hused] at this
  exact absurd this (by decide)

end SmartClassroom
