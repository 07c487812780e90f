/-
  The daily limit as a limit of use.

  `elapsed` is charged to the passing of time: how much of a day passes while
  confirmed reservations of a user run.  The quota measures what is confirmed
  now, so a cancellation gives back also what has run of the reservation
  (`forgotten`), and the time used exceeds the limit by no more than that
  (`elapsed_le`); by that it may (`elapsed_exceeded`).
-/
import Mathlib.Algebra.Group.Prod
import SmartClassroom.Lib.Tally
import SmartClassroom.Daily

namespace SmartClassroom

open Txn

/-! ## Time used up to a moment -/

theorem TsRange.overlapUs_mono (r : TsRange) (s : ℤ) {e e' : ℤ} (h : e ≤ e') :
    r.overlapUs s e ≤ r.overlapUs s e' := by
  simp only [overlapUs]
  omega

/-- What is used up to `t`, from what is used up to `c` on. -/
theorem TsRange.overlapUs_add_le (r : TsRange) (d e : ℤ) {c t : ℤ} (h : c ≤ t) :
    r.overlapUs (max c d) (min t e) + r.overlapUs d (min c e) ≤ r.overlapUs d (min t e) := by
  have := r.le
  simp only [overlapUs]
  omega

theorem usedOn_nonneg (userId d d' : ℤ) (rows : List Reservation) : 0 ≤ usedOn userId d d' rows := by
  refine List.sum_nonneg fun x hx => ?_
  obtain ⟨r, -, rfl⟩ := List.mem_map.mp hx
  split_ifs
  · exact r.timeRange.overlapUs_nonneg d d'
  · exact le_rfl

theorem usedOn_mono (userId d : ℤ) {e e' : ℤ} (h : e ≤ e') (rows : List Reservation) :
    usedOn userId d e rows ≤ usedOn userId d e' rows := by
  refine List.sum_le_sum fun r _ => ?_
  split_ifs
  · exact r.timeRange.overlapUs_mono d h
  · exact le_rfl

theorem usedOn_add_le (userId d e : ℤ) {c t : ℤ} (h : c ≤ t) (rows : List Reservation) :
    usedOn userId (max c d) (min t e) rows + usedOn userId d (min c e) rows ≤
      usedOn userId d (min t e) rows := by
  induction rows with
  | nil => exact le_rfl
  | cons r rows ih =>
    have := r.timeRange.overlapUs_add_le d e h
    simp only [usedOn_cons]
    split_ifs <;> omega

/-- An update splits what is used into what stays and what is canceled. -/
theorem usedOn_eq_add {f : Reservation → Reservation} (hf : ∀ r : Reservation, r.Evolves (f r))
    (userId d e : ℤ) (rows : List Reservation) :
    usedOn userId d e rows = usedOn userId d e (rows.map f) +
      usedOn userId d e (rows.filter fun r => !(f r).confirmedFor userId) := by
  induction rows with
  | nil => rfl
  | cons r rows ih =>
    rw [List.map_cons, List.filter_cons, usedOn_cons, usedOn_cons, (hf r).timeRange, ih]
    cases hc : (f r).confirmedFor userId with
    | true =>
      simp only [(hf r).confirmedFor hc, Bool.not_true, Bool.false_eq_true, if_true, if_false]
      omega
    | false =>
      simp only [Bool.not_false, Bool.false_eq_true, if_true, if_false, usedOn_cons]
      omega

/-! ## Charges -/

/-- How much of the day from `d` on passes in the step while confirmed
    reservations of the user run. -/
def elapsed (userId d : ℤ) (s : System) : Label Job ℤ String → ℤ
  | .tick t => usedOn userId (max s.clock d) (min t (d + dayUs)) s.db.reservations
  | _ => 0

/-- What has run, of the day, of the user's reservations that the step cancels. -/
def forgotten (userId d : ℤ) (s : System) : Label Job ℤ String → ℤ
  | .act i .commit => s.reqs[i]?.elim 0 fun r =>
    usedOn userId d (min s.clock (d + dayUs)) (s.db.reservations.filter fun x =>
      !(reservationTable.updAll (pendOf r.log) x).confirmedFor userId)
  | _ => 0

theorem forgotten_nonneg (userId d : ℤ) (s : System) (l : Label Job ℤ String) :
    0 ≤ forgotten userId d s l := by
  unfold forgotten
  split
  · rename_i i
    cases s.reqs[i]? with
    | none => exact le_rfl
    | some r => exact usedOn_nonneg ..
  · exact le_rfl

/-- A step adds no more to what has elapsed than to what is used, and what the
    step has canceled. -/
theorem elapsed_step {V : Txn.Service broker Job BrokerError Reply} {s s' : System}
    {l : Label Job ℤ String} (h : Step V s l s') (userId d : ℤ) :
    elapsed userId d s l + usedOn userId d (min s.clock (d + dayUs)) s.db.reservations ≤
      usedOn userId d (min s'.clock (d + dayUs)) s'.db.reservations + forgotten userId d s l := by
  cases h with
  | arrive => simp [elapsed, forgotten]
  | tick t ht => simpa [elapsed, forgotten] using usedOn_add_le userId d (d + dayUs) ht _
  | @act i a r r' db' aux' hr ha hm =>
    simp only [elapsed, zero_add]
    rcases Req.move_db ha with rfl | ⟨rfl, k, -, rfl⟩
    · have := forgotten_nonneg userId d s (.act i a)
      omega
    · have hnew := usedOn_nonneg userId d (min s.clock (d + dayUs))
        (reservationTable.newAll (pendOf r.log))
      rw [reservations_applyAll, usedOn_append,
        usedOn_eq_add (updAll_reservation_evolves (pendOf r.log))]
      simp only [forgotten, hr, Option.elim_some]
      omega

/-! ## Runs -/

/-- The reservation lies inside one UTC day. -/
def Reservation.InOneDay (r : Reservation) : Prop :=
  r.timeRange.upper ≤ r.timeRange.lower / dayUs * dayUs + dayUs

/-- The bookings are in UTC, and each inside one UTC day. -/
def IsDayBooking : Job → Prop
  | .create _ _ startsAt endsAt => startsAt.tzinfo = some 0 ∧ endsAt.tzinfo = some 0 ∧
    endsAt.instant ≤ startsAt.instant / dayUs * dayUs + dayUs
  | .instant .. => False
  | _ => True

instance : DecidablePred IsDayBooking
  | .create .. => inferInstanceAs (Decidable (_ ∧ _ ∧ _))
  | .instant .. => isFalse id
  | .list .. | .calendar .. | .get .. | .cancel .. | .connect .. | .verify .. | .available ..
  | .rotateAgentToken .. => isTrue trivial

theorem IsDayBooking.utc : ∀ j, IsDayBooking j → IsUtcBooking j
  | .create .., h => ⟨h.1, h.2.1⟩
  | .instant .., h => h
  | .list .., _ | .calendar .., _ | .get .., _ | .cancel .., _ | .connect .., _ | .verify .., _
  | .available .., _ | .rotateAgentToken .., _ => trivial

section
variable {cfg : Settings} {hashRaw : String → String} {db : Store} {aux : Seqs} {clock : ℤ}
  {s : System}

theorem inOneDay_of_reach (hdb : Consistent db) (hday : ∀ r ∈ db.reservations, r.InOneDay)
    (h : Reach (app cfg hashRaw) (SerialOf IsDayBooking) ⟨db, aux, clock, []⟩ s) :
    ∀ r ∈ s.db.reservations, r.InOneDay := by
  refine h.store_inv (P := fun _ (st : Store) => ∀ r ∈ st.reservations, r.InOneDay)
    (fun _ _ _ _ h => h) (fun s₁ i r k h₁ _ hr _ ih x hx => ?_) hday
  rw [reservations_applyAll] at hx
  rcases List.mem_append.mp hx with hx | hx
  · obtain ⟨y, hy, rfl⟩ := List.mem_map.mp hx
    rw [Reservation.InOneDay, (updAll_reservation_evolves _ y).timeRange]
    exact ih y hy
  · obtain ⟨y, hy, hev⟩ := mem_newReservations hx
    obtain ⟨-, startsAt, endsAt, hl, hu, hb, -⟩ :=
      pending_reservation ((sound_of_reach hdb h₁).req i r hr).kept hy
    have hj := h₁.job (fun _ _ h => h.2) (by simp) i r hr
    rw [Reservation.InOneDay, hev.timeRange, hl, hu]
    cases hjob : r.job with
    | create user hostId s e =>
      rw [hjob] at hb hj
      obtain ⟨-, -, rfl, rfl, -⟩ := hb
      exact hj.2.2
    | instant => exact absurd hj (by rw [hjob]; exact id)
    | _ =>
      rw [hjob] at hb
      exact hb.elim

/-- **The daily limit of use**, but for what canceled reservations have run. -/
theorem elapsed_le (hdb : Consistent db) (h0 : DailyStore cfg db)
    (hday : ∀ r ∈ db.reservations, r.InOneDay) (userId : ℤ) {d : ℤ} (hd : dayUs ∣ d) {x : ℤ × ℤ}
    (h : Tally (app cfg hashRaw) (SerialOf IsDayBooking)
      (fun s l => (elapsed userId d s l, forgotten userId d s l)) ⟨db, aux, clock, []⟩ s x) :
    x.1 ≤ cfg.maxReservationHoursPerDay * hourUs + x.2 := by
  have hused : x.1 ≤ usedOn userId d (min s.clock (d + dayUs)) s.db.reservations + x.2 := by
    refine h.inv (P := fun (s : System) (x : ℤ × ℤ) =>
      x.1 ≤ usedOn userId d (min s.clock (d + dayUs)) s.db.reservations + x.2) ?_ ?_
    · have := usedOn_nonneg userId d (min clock (d + dayUs)) db.reservations
      simpa using this
    · intro s₁ x l s₂ _ _ hst hx
      have := elapsed_step hst userId d
      simp only [Prod.fst_add, Prod.snd_add]
      omega
  have hwithin := (dailyStore_of_reach hdb h0
    (h.reach.mono fun _ _ h => h.mono IsDayBooking.utc)).within
  have hlimit : usedOn userId d (d + dayUs) s.db.reservations ≤
      cfg.maxReservationHoursPerDay * hourUs := by
    refine hwithin.day hd fun r hr _ hlt => ?_
    have := inOneDay_of_reach hdb hday h.reach r hr
    simp only [Reservation.InOneDay, dayUs] at *
    omega
  have := usedOn_mono userId d (min_le_right s.clock (d + dayUs)) s.db.reservations
  omega

end

/-- Two reservations of four hours run to their ends; of a third, canceled half an
    hour before its end, three and a half hours have run as well. -/
theorem elapsed_le_full : ∃ (s : System) (x : ℤ × ℤ), x = (11 * hourUs + 30 * minuteUs, 3 * hourUs + 30 * minuteUs) ∧
    Tally (app {} id) (SerialOf IsDayBooking)
      (fun s l => (elapsed 1 dayUs s l, forgotten 1 dayUs s l)) ⟨room, {}, 0, []⟩ s x ∧
    x.1 ≤ 8 * hourUs + x.2 := by
  have hrun : (tally (app {} id) (SerialOf IsDayBooking)
      (fun s l => (elapsed 1 dayUs s l, forgotten 1 dayUs s l)) (⟨room, {}, 0, []⟩, 0)
      [.arrive (bookFor 1 1 24 240), .steps 0 "" 30, .arrive (bookFor 1 2 28 240), .steps 1 "" 30,
        .tick (27 * hourUs + 30 * minuteUs), .arrive (.cancel ⟨1, .user, "mock"⟩ 1), .steps 2 "" 30,
        .arrive (bookFor 1 1 34 240), .steps 3 "" 30, .tick (48 * hourUs)]).any
      (fun p => p.2 == (11 * hourUs + 30 * minuteUs, 3 * hourUs + 30 * minuteUs)) = true := by decide
  obtain ⟨⟨s, x⟩, hs, hx⟩ := (Option.any_eq_true _ _).mp hrun
  obtain rfl : x = (11 * hourUs + 30 * minuteUs, 3 * hourUs + 30 * minuteUs) := beq_iff_eq.mp hx
  have hs : Tally _ _ _ _ s _ := Tally.of_tally .refl hs
  have hle := elapsed_le room_consistent dailyStore_room (by simp [room]) 1 dvd_rfl hs
  exact ⟨s, _, rfl, hs, hle⟩

/-- Eight hours on the second day; the first four are canceled half an hour
    before their end, and four others are booked in their place. -/
theorem elapsed_exceeded : ¬∀ (s : System) (x : ℤ),
    Tally (app {} id) (SerialOf fun j => BookingOf 1 j ∧ IsDayBooking j) (elapsed 1 dayUs)
      ⟨room, {}, 0, []⟩ s x → x ≤ ({} : Settings).maxReservationHoursPerDay * hourUs := by
  have hrun : (tally (app {} id) (SerialOf fun j => BookingOf 1 j ∧ IsDayBooking j)
      (elapsed 1 dayUs) (⟨room, {}, 0, []⟩, 0)
      [.arrive (bookFor 1 1 24 240), .steps 0 "" 30, .arrive (bookFor 1 2 28 240), .steps 1 "" 30,
        .tick (27 * hourUs + 30 * minuteUs), .arrive (.cancel ⟨1, .user, "mock"⟩ 1),
        .steps 2 "" 30, .arrive (bookFor 1 1 34 240), .steps 3 "" 30,
        .tick (48 * hourUs)]).any (fun p => p.2 == 11 * hourUs + 30 * minuteUs) = true := by decide
  obtain ⟨⟨s, x⟩, hs, hx⟩ := (Option.any_eq_true _ _).mp hrun
  intro hall
  obtain rfl : x = 11 * hourUs + 30 * minuteUs := beq_iff_eq.mp hx
  have hle : 11 * hourUs + 30 * minuteUs ≤ ({} : Settings).maxReservationHoursPerDay * hourUs :=
    hall s _ (Tally.of_tally .refl hs)
  exact absurd hle (by decide)

end SmartClassroom
