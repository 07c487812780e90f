/-
  The calendar over whole runs.

  Where all datetimes carry offsets of whole half hours, every end of a
  reservation is on the half-hour grid, however the requests interleave
  (`slotted_of_reach`): an instant booking is cut by a later booking only, what
  starts later than the clock starts on the grid, and a booking that is cut by
  one that has started since does not pass the gate.  So no two active
  reservations of a host share a cell, the order of the reservations does not
  matter to the calendar, and it shows the reservations that an admin's list has
  (`calendar_of_reach`).
-/
import SmartClassroom.CalendarCells
import SmartClassroom.Gate
import SmartClassroom.Ready

namespace SmartClassroom

open Txn Prog

/-- A cell of the calendar, in microseconds. -/
abbrev halfHourUs : ℤ := 1800000000

/-- The offset is a multiple of 30 minutes. -/
def HalfHourOffset (d : DateTime) : Prop := 30 ∣ d.tzinfo.getD 0

instance (d : DateTime) : Decidable (HalfHourOffset d) := inferInstanceAs (Decidable (_ ∣ _))

/-- The datetimes of a booking have such offsets. -/
def HalfHourOffsets : Job → Prop
  | .create _ _ startsAt endsAt => HalfHourOffset startsAt ∧ HalfHourOffset endsAt
  | _ => True

instance : DecidablePred HalfHourOffsets
  | .create .. => inferInstanceAs (Decidable (_ ∧ _))
  | .instant .. | .list .. | .calendar .. | .get .. | .cancel .. | .connect .. | .verify ..
  | .available .. | .rotateAgentToken .. => isTrue trivial

theorem HalfHourOffset.dvd {d : DateTime} (h : HalfHourOffset d) (ha : Aligned 30 d) :
    halfHourUs ∣ d.instant := by
  have hf := (aligned_iff ha.aware).mp ha
  simp only [HalfHourOffset] at h
  simp only [DateTime.minute, DateTime.second, DateTime.microsecond, minuteUs, secondUs] at hf
  simp only [DateTime.instant, minuteUs, halfHourUs]
  omega

theorem halfHourUs_dvd_slotEnd (now : ℤ) : halfHourUs ∣ slotEnd now := by
  simp only [slotEnd, halfHourUs]
  omega

/-! ## Ends on the grid -/

/-- The reservation starts on the grid, or not after `t`. -/
def StartsBy (t : ℤ) (r : Reservation) : Prop := halfHourUs ∣ r.timeRange.lower ∨ r.timeRange.lower ≤ t

theorem StartsBy.mono {t t' : ℤ} {r : Reservation} (h : StartsBy t r) (ht : t ≤ t') : StartsBy t' r :=
  h.imp_right (·.trans ht)

/-- What was seen before a reading of the clock starts on the grid, or not after
    the reading. -/
def Timely (h : History) : Prop :=
  ∀ t h₀, .now t :: h₀ <:+ h → ∀ st snap cur, Ran h₀ st snap cur → ∀ x ∈ snap.reservations, StartsBy t x

theorem Timely.cons {h : History} (hh : Timely h) {e : Ev broker}
    (he : ∀ t, e = .now t → ∀ st snap cur, Ran h st snap cur → ∀ x ∈ snap.reservations, StartsBy t x) :
    Timely (e :: h) := by
  intro t h₀ hsuf
  rcases List.suffix_cons_iff.mp hsuf with heq | hsuf
  · obtain ⟨rfl, rfl⟩ := List.cons.inj heq
    exact he t rfl
  · exact hh t h₀ hsuf

/-- Every reservation ends on the grid and starts there, or not after the clock;
    and what a request has seen, not after its next reading of the clock. -/
structure Slotted (s : System) : Prop where
  ends : ∀ x ∈ s.db.reservations, halfHourUs ∣ x.timeRange.upper
  starts : ∀ x ∈ s.db.reservations, StartsBy s.clock x
  timely : ∀ (i : ℕ) r, s.reqs[i]? = some r → Timely r.log

section
variable {cfg : Settings} (hcfg : cfg.reservationSlotMinutes = 30) {hashRaw : String → String}
  {C : System → Label Job ℤ String → Prop} {db : Store} {aux : Seqs} {clock : ℤ} {s : System}

/-- A reading of the clock comes after the start of all that is committed off the grid. -/
theorem Slotted.timely_move {lost : BrokerError} (hs : Slotted s) {i : ℕ}
    {r r' : Req broker Job BrokerError Reply} (hr : s.reqs[i]? = some r)
    (hpast : ∀ e ∈ r.log, e.Past Store.Evolves s.db s.clock) {db' aux'}
    (hm : Move lost s i r r' db' aux') : Timely r'.log := by
  have hlog := hs.timely i r hr
  cases hm with
  | start | fail => exact hlog
  | finish | draw | commit | rollback => exact hlog.cons nofun
  | now =>
    refine hlog.cons fun t ht => ?_
    cases ht
    intro st snap cur hran x hx
    obtain ⟨x', hx', hev⟩ := (hran.evolves hpast).reservations x hx
    rw [StartsBy, ← hev.timeRange]
    exact hs.starts x' hx'

include hcfg in
/-- What a booking commits. -/
theorem Slotted.booked (hs : Slotted s) (hdb : Consistent db)
    (h : Reach (app cfg hashRaw) C ⟨db, aux, clock, []⟩ s) {i : ℕ} {r : Req broker Job BrokerError Reply}
    (hr : s.reqs[i]? = some r) {k : Service Reply} (hp : r.prog = .commit k) (hjob : HalfHourOffsets r.job)
    {y : Reservation} (hy : .insertReservation y ∈ pendOf r.log) :
    halfHourUs ∣ y.timeRange.upper ∧ StartsBy s.clock y := by
  have hreq := (sound_of_reach hdb h).req i r hr
  cases hj : r.job with
  | create user hostId startsAt endsAt =>
    obtain ⟨-, s, e, hl, hu, hb, -⟩ := pending_reservation hreq.kept hy
    rw [hj] at hb hjob
    obtain ⟨-, -, rfl, rfl, hv, -⟩ := hb
    obtain ⟨hstart, hend, -, -⟩ := validateShape_eq_ok.1 hv
    rw [hcfg] at hstart hend
    rw [StartsBy, hl, hu]
    exact ⟨hjob.2.dvd hend, .inl (hjob.1.dvd hstart)⟩
  | instant user hostId =>
    obtain ⟨h₀, t, hsuf, hy₀, hlt⟩ := gate_of_reach hdb h hr hj hp hy
    have hsuf₀ : h₀ <:+ r.log := (List.suffix_cons _ _).trans hsuf
    obtain ⟨-, startsAt, endsAt, hl, hu, hb, -⟩ := pending_reservation (hreq.kept.suffix hsuf₀) hy₀
    rw [hj] at hb
    obtain ⟨-, -, now, snap, cur, hread, hran, hw⟩ := hb
    obtain rfl : startsAt = _ := congrArg Prod.fst hw
    obtain rfl : endsAt = _ := congrArg Prod.snd hw
    rw [instantWindow_fst, DateTime.instant_utc] at hl
    rw [instantWindow_snd, DateTime.instant_utc] at hu
    refine ⟨?_, .inr ?_⟩
    · cases hn : Stmt.nextStartOf snap hostId now with
      | none =>
        rw [hu, hn]
        exact halfHourUs_dvd_slotEnd now
      | some n =>
        obtain ⟨⟨x, hx, -, rfl⟩, -⟩ := nextStartOf_eq_some.mp hn
        rw [hn, Option.elim_some] at hu
        rcases min_choice x.timeRange.lower (slotEnd now) with e | e
        · -- the gate is open before the end only, so the next booking was still to start
          rw [e] at hu
          rw [hu] at hlt ⊢
          exact (hs.timely i r hr t h₀ hsuf _ _ _ hran x hx).resolve_right (not_le.mpr hlt)
        · rw [hu, e]
          exact halfHourUs_dvd_slotEnd now
    · have hpast : now ≤ s.clock := hreq.past _ (hread.mono hsuf₀)
      simp only [secondUs] at hl
      omega
  | _ =>
    obtain ⟨-, _, _, -, -, hb, -⟩ := pending_reservation hreq.kept hy
    rw [hj] at hb
    exact hb.elim

include hcfg in
theorem slotted_of_reach (hdb : Consistent db) (h0 : db.reservations = [])
    (h : Reach (app cfg hashRaw) (Arrivals HalfHourOffsets) ⟨db, aux, clock, []⟩ s) : Slotted s := by
  induction h with
  | refl => exact ⟨by simp [h0], by simp [h0], by simp⟩
  | @tail s s' h hst ih =>
    obtain ⟨l, hl, hst⟩ := hst
    have hjobs := Reach.job (fun _ _ h => h) h (by simp)
    cases step_cases hst with
    | tick t ht => exact ⟨ih.ends, fun x hx => (ih.starts x hx).mono ht, ih.timely⟩
    | arrive j =>
      refine ⟨ih.ends, ih.starts, fun i r hr => ?_⟩
      rcases getElem?_arrive_cases hr with hr | ⟨-, rfl⟩
      · exact ih.timely i r hr
      · exact fun t h₀ hsuf => absurd (List.suffix_nil.mp hsuf) (List.cons_ne_nil _ _)
    | @act i a r r' db' aux' hr hact hm =>
      have htimely : ∀ (j : ℕ) q, (s.reqs.set i r')[j]? = some q → Timely q.log := by
        intro j q hq
        rcases getElem?_set_cases hq with ⟨rfl, rfl⟩ | ⟨-, hq⟩
        · exact ih.timely_move hr ((sound_of_reach hdb h).req i r hr).past hm
        · exact ih.timely j q hq
      have hrow : ∀ x ∈ db'.reservations, halfHourUs ∣ x.timeRange.upper ∧ StartsBy s.clock x := by
        rcases Req.move_db hact with rfl | ⟨rfl, k, hp, rfl⟩
        · exact fun x hx => ⟨ih.ends x hx, ih.starts x hx⟩
        · intro x hx
          rw [reservations_applyAll] at hx
          rcases List.mem_append.mp hx with hx | hx
          · obtain ⟨y, hy, rfl⟩ := List.mem_map.mp hx
            rw [StartsBy, (updAll_reservation_evolves _ y).timeRange]
            exact ⟨ih.ends y hy, ih.starts y hy⟩
          · obtain ⟨y, hy, hev⟩ := mem_newReservations hx
            rw [StartsBy, hev.timeRange]
            exact ih.booked hcfg hdb h hr hp (hjobs i r hr) hy
      exact ⟨fun x hx => (hrow x hx).1, fun x hx => (hrow x hx).2, htimely⟩

/-- The hosts stay the same. -/
theorem hosts_of_reach (h : Reach (app cfg hashRaw) C ⟨db, aux, clock, []⟩ s) :
    s.db.hosts.map (·.id) = db.hosts.map (·.id) :=
  h.store_inv (P := fun _ (st : Store) => st.hosts.map (·.id) = db.hosts.map (·.id))
    (fun _ _ _ _ h => h) (fun _ _ _ _ _ _ _ _ ih => by rwa [hosts_applyAll]) rfl

/-- Every reservation is one of a host in the table. -/
theorem hosts_known_of_reach (hdb : Consistent db) (h0 : db.reservations = [])
    (h : Reach (app cfg hashRaw) C ⟨db, aux, clock, []⟩ s) :
    ∀ x ∈ s.db.reservations, x.hostId ∈ s.db.hosts.map (·.id) := by
  rw [hosts_of_reach h]
  refine h.store_inv (P := fun _ (st : Store) => ∀ x ∈ st.reservations, x.hostId ∈ db.hosts.map (·.id))
    (fun _ _ _ _ h => h) (fun s₁ i r k h₁ _ hr _ ih x hx => ?_) (by simp [h0])
  rw [reservations_applyAll] at hx
  rcases List.mem_append.mp hx with hx | hx
  · obtain ⟨y, hy, rfl⟩ := List.mem_map.mp hx
    rw [(updAll_reservation_evolves _ y).hostId]
    exact ih y hy
  · obtain ⟨y, hy, hev⟩ := mem_newReservations hx
    obtain ⟨st, b, q, snap, cur, h₀, hsuf, -, -, -, hw, -⟩ :=
      ((sound_of_reach hdb h₁).req i r hr).kept.origin hy
    -- the foreign key was checked on the hosts of an earlier state
    have hcur := ((h₁.saw (P := fun st : Store => st.hosts.map (·.id) = db.hosts.map (·.id))
      (fun _ h => hosts_of_reach h) (Nat.zero_le i) hr).1 _ _ _ _ _ (hsuf.subset List.mem_cons_self)).2
    obtain ⟨-, -, -, hviol⟩ := writes_insertReservation hw
    obtain ⟨-, -, host, hhost, hid⟩ := violatedByReservation_eq_none.mp hviol
    rw [← hcur, ← hosts_applyAll (pendOf h₀), hev.hostId, ← hid]
    exact List.mem_map_of_mem hhost

end

/-! ## One reservation a cell -/

/-- No two active reservations of a host share a cell of the grid. -/
def CellsDisjoint (rows : List Reservation) : Prop :=
  ∀ r ∈ rows, ∀ r' ∈ rows, ∀ hid k : ℤ, Occupies hid (k * halfHourUs) ((k + 1) * halfHourUs) r →
    Occupies hid (k * halfHourUs) ((k + 1) * halfHourUs) r' → r = r'

theorem cellsDisjoint {st : Store} (hst : Consistent st)
    (hends : ∀ x ∈ st.reservations, halfHourUs ∣ x.timeRange.upper) : CellsDisjoint st.reservations := by
  rintro r hr r' hr' hid k ⟨hact, rfl, hov⟩ ⟨hact', hh, hov'⟩
  refine eq_of_clash Reservation.Clashes.symm hst.reservations hr hr' (.inr ?_)
  have hends' := hends r' hr'
  have hends := hends r hr
  simp only [Reservation.excludes, Bool.and_eq_true, beq_iff_eq]
  refine ⟨⟨⟨hact, hact'⟩, hh.symm⟩, ?_⟩
  rw [overlaps_iff] at hov hov' ⊢
  simp only [halfHourUs] at *
  omega

/-- The active reservations of the host that the window shows. -/
theorem occupies_grid {from_ to_ : DateTime} (hfrom : halfHourUs ∣ from_.instant)
    (hto : halfHourUs ∣ to_.instant) {k : ℕ} (hk : k < turnsOf halfHourUs from_ to_) (hid : ℤ)
    (r : Reservation) : Occupies hid (cursorAt halfHourUs from_ k).instant
        (Min.min ((cursorAt halfHourUs from_ k).instant + halfHourUs) to_.instant) r ↔
      Occupies hid ((from_.instant / halfHourUs + k) * halfHourUs)
        ((from_.instant / halfHourUs + k + 1) * halfHourUs) r := by
  rw [lt_turnsOf (by decide), DateTime.lt_iff] at hk
  rw [instant_cursorAt] at hk ⊢
  simp only [halfHourUs] at *
  have h1 : from_.instant + k * 1800000000 = (from_.instant / 1800000000 + k) * 1800000000 := by omega
  have h2 : Min.min (from_.instant + k * 1800000000 + 1800000000) to_.instant =
      (from_.instant / 1800000000 + k + 1) * 1800000000 := by omega
  rw [h2, h1]

section
variable {from_ to_ : DateTime} (hfrom : halfHourUs ∣ from_.instant) (hto : halfHourUs ∣ to_.instant)
  {rows : List Reservation} (hrows : CellsDisjoint rows) {hostId : Option ℤ} {viewer : User} {hid : ℤ}
  (hh : hostId.all (· == hid) = true)
include hfrom hto hrows hh

/-- The entry of a cell does not depend on the order of the rows. -/
theorem lookup_perm {rows' : List Reservation} (hperm : rows'.Perm rows) {k : ℕ}
    (hk : k < turnsOf halfHourUs from_ to_) :
    List.lookup (hid, (cursorAt halfHourUs from_ k).instant)
        ((rows'.filter (inWindow from_ to_ hostId)).foldl (occupy from_ to_ halfHourUs) []) =
      List.lookup (hid, (cursorAt halfHourUs from_ k).instant)
        ((rows.filter (inWindow from_ to_ hostId)).foldl (occupy from_ to_ halfHourUs) []) := by
  have hmem : ∀ r, r ∈ rows'.filter (inWindow from_ to_ hostId) ↔
      r ∈ rows.filter (inWindow from_ to_ hostId) := fun r => (hperm.filter _).mem_iff
  have hocc : ∀ r ∈ rows.filter (inWindow from_ to_ hostId),
      Fills from_ to_ halfHourUs hid (cursorAt halfHourUs from_ k).instant r →
        r ∈ rows ∧ Occupies hid ((from_.instant / halfHourUs + k) * halfHourUs)
          ((from_.instant / halfHourUs + k + 1) * halfHourUs) r := by
    intro r hr hfill
    obtain ⟨hr, hwin⟩ := List.mem_filter.1 hr
    exact ⟨hr, (occupies_grid hfrom hto hk hid r).1 ((fills_iff (by decide) hh hk r).1 ⟨hwin, hfill⟩)⟩
  cases hcell' : List.lookup (hid, (cursorAt halfHourUs from_ k).instant)
      ((rows'.filter (inWindow from_ to_ hostId)).foldl (occupy from_ to_ halfHourUs) []) with
  | none =>
    cases hcell : List.lookup (hid, (cursorAt halfHourUs from_ k).instant)
        ((rows.filter (inWindow from_ to_ hostId)).foldl (occupy from_ to_ halfHourUs) []) with
    | none => rfl
    | some r =>
      obtain ⟨hr, hfill⟩ := lookup_some hcell
      exact absurd hfill (lookup_none hcell' ((hmem r).2 hr))
  | some r' =>
    obtain ⟨hr', hfill'⟩ := lookup_some hcell'
    cases hcell : List.lookup (hid, (cursorAt halfHourUs from_ k).instant)
        ((rows.filter (inWindow from_ to_ hostId)).foldl (occupy from_ to_ halfHourUs) []) with
    | none => exact absurd hfill' (lookup_none hcell ((hmem r').1 hr'))
    | some r =>
      obtain ⟨hr, hfill⟩ := lookup_some hcell
      obtain ⟨hmr, hor⟩ := hocc r hr hfill
      obtain ⟨hmr', hor'⟩ := hocc r' ((hmem r').1 hr') hfill'
      rw [hrows r' hmr' r hmr hid _ hor' hor]

/-- Neither does the row of a host. -/
theorem calendarRow_perm {rows' : List Reservation} (hperm : rows'.Perm rows) :
    calendarRow viewer halfHourUs from_ to_ (rows'.filter (inWindow from_ to_ hostId)) hid =
      calendarRow viewer halfHourUs from_ to_ (rows.filter (inWindow from_ to_ hostId)) hid := by
  rw [calendarRow, calendarRow, cursorsFrom_eq (by decide), List.map_map, List.map_map]
  refine List.map_congr_left fun k hk => ?_
  have hcell := lookup_perm hfrom hto hrows hh hperm (List.mem_range.1 hk)
  simp only [Function.comp_apply, calendarCell, hcell]

variable (viewer) in
/-- The row of a host shows the reservations of the host in the window. -/
theorem shown_iff (id : ℤ) :
    (∃ cell ∈ calendarRow viewer halfHourUs from_ to_ (rows.filter (inWindow from_ to_ hostId)) hid,
      cell.reservationId = some id) ↔
    ∃ r ∈ rows, r.id = id ∧ Occupies hid from_.instant to_.instant r := by
  have hd : 0 < halfHourUs := by decide
  have hcells : ∀ cell, cell ∈ calendarRow viewer halfHourUs from_ to_
      (rows.filter (inWindow from_ to_ hostId)) hid ↔ ∃ k < turnsOf halfHourUs from_ to_,
        calendarCell viewer halfHourUs ((rows.filter (inWindow from_ to_ hostId)).foldl
          (occupy from_ to_ halfHourUs) []) hid (cursorAt halfHourUs from_ k) = cell := by
    intro cell
    rw [calendarRow, cursorsFrom_eq hd, List.map_map, List.mem_map]
    simp only [List.mem_range, Function.comp_apply]
  simp only [hcells]
  constructor
  · rintro ⟨_, ⟨k, hk, rfl⟩, hid'⟩
    have hexact := calendarCell_exact hd viewer hh rows hk
    obtain ⟨r, hr, ⟨hact, hhost, hov⟩, hshown, -⟩ := hexact.shown (hexact.occupied_of_id hid')
    rw [hshown] at hid'
    refine ⟨r, hr, Option.some.inj hid', hact, hhost, ?_⟩
    rw [startsAt_calendarCell, endsAt_calendarCell] at hov
    rw [overlaps_iff, DateTime.instant_add, instant_cursorAt] at hov
    rw [overlaps_iff]
    simp only [halfHourUs] at hov
    omega
  · rintro ⟨r, hr, rfl, hact, hhost, hov⟩
    -- the first cell that the reservation overlaps
    obtain ⟨k, hk⟩ : ∃ k : ℕ, (k : ℤ) = (Max.max r.timeRange.lower from_.instant - from_.instant) / halfHourUs :=
      ⟨_, Int.toNat_of_nonneg (Int.ediv_nonneg (by omega) (by decide))⟩
    rw [overlaps_iff] at hov
    have hturn : k < turnsOf halfHourUs from_ to_ := by
      rw [lt_turnsOf hd, DateTime.lt_iff, instant_cursorAt]
      simp only [halfHourUs] at hk ⊢
      omega
    have hocc : Occupies hid (cursorAt halfHourUs from_ k).instant
        (Min.min ((cursorAt halfHourUs from_ k).instant + halfHourUs) to_.instant) r := by
      refine ⟨hact, hhost, ?_⟩
      rw [overlaps_iff, instant_cursorAt]
      simp only [halfHourUs] at hk ⊢
      omega
    have hexact := calendarCell_exact hd viewer hh rows hturn
    have hfull := hexact.occupied.2 ⟨r, hr, by simpa using hocc⟩
    obtain ⟨r', hr', hocc', hshown, -⟩ := hexact.shown hfull
    rw [startsAt_calendarCell, endsAt_calendarCell, DateTime.instant_add] at hocc'
    rw [occupies_grid hfrom hto hturn] at hocc hocc'
    rw [hrows r' hr' r hr hid _ hocc' hocc] at hshown
    exact ⟨_, ⟨k, hturn, rfl⟩, hshown⟩

omit hfrom hto hrows hh in
theorem shownHosts_perm {st st' : Store} (h : st'.hosts.Perm st.hosts) :
    (shownHosts st' hostId).Perm (shownHosts st hostId) := by
  cases hostId with
  | none => exact h.map _
  | some hostId => exact .refl _

omit hrows hh in
/-- The order of the reservations does not matter, and that of the hosts is the
    order of their rows. -/
theorem calendarSlots_congr {st st' : Store} (hdisj : CellsDisjoint st.reservations)
    (hrows : st'.reservations.Perm st.reservations) : calendarSlots halfHourUs from_ to_ hostId viewer st' =
      (shownHosts st' hostId).flatMap
        (calendarRow viewer halfHourUs from_ to_ (st.reservations.filter (inWindow from_ to_ hostId))) :=
  List.flatMap_congr fun _ hhid => calendarRow_perm hfrom hto hdisj (all_of_mem_shownHosts hhid) hrows

omit hrows hh in
variable (viewer) in
/-- The calendar shows the active reservations of the window. -/
theorem calendarSlots_shown_iff {st : Store} (hdisj : CellsDisjoint st.reservations)
    (hknown : ∀ r ∈ st.reservations, r.hostId ∈ st.hosts.map (·.id)) (hlt : from_ < to_) (id : ℤ) :
    (∃ cell ∈ calendarSlots halfHourUs from_ to_ hostId viewer st, cell.reservationId = some id) ↔
      ∃ r, (r ∈ st.reservations ∧ r.status.active = true ∧ hostId.all (· == r.hostId) = true ∧
        r.timeRange.endsAfter from_.instant = true ∧ r.timeRange.startsBefore to_.instant = true) ∧
          r.id = id := by
  simp only [calendarSlots, List.mem_flatMap]
  constructor
  · rintro ⟨cell, ⟨hid, hhid, hcell⟩, hshown⟩
    have hh := all_of_mem_shownHosts hhid
    obtain ⟨r, hr, hid', hact, rfl, hov⟩ := (shown_iff hfrom hto hdisj viewer hh id).1 ⟨cell, hcell, hshown⟩
    rw [overlaps_iff] at hov
    refine ⟨r, ⟨hr, hact, hh, ?_, ?_⟩, hid'⟩
    · simp [TsRange.endsAfter, hov]
    · simp [TsRange.startsBefore, hov]
  · rintro ⟨r, ⟨hr, hact, hh, hend, hstart⟩, rfl⟩
    simp only [TsRange.endsAfter, TsRange.startsBefore, Bool.and_eq_true, decide_eq_true_eq] at hend hstart
    have hhid : r.hostId ∈ shownHosts st hostId := by
      cases hostId with
      | none => exact hknown r hr
      | some hostId => exact List.mem_singleton.2 (beq_iff_eq.1 hh).symm
    have hocc : Occupies r.hostId from_.instant to_.instant r :=
      ⟨hact, rfl, overlaps_iff.2 ⟨hend.1, hlt, hstart.2, hend.2⟩⟩
    obtain ⟨cell, hcell, hshown⟩ :=
      (shown_iff hfrom hto hdisj viewer hh r.id).2 ⟨r, hr, rfl, hocc⟩
    exact ⟨cell, ⟨r.hostId, hhid, hcell⟩, hshown⟩

end

/-! ## Runs -/

/-- What `list_reservations` returns to an admin. -/
theorem run_listReservations {admin : User} (hadmin : admin.role = .admin) (from_ to_ : DateTime)
    (hostId : Option ℤ) (E : Env ℤ String) (c : Ctx broker) : ∃ rows,
    ((listReservations admin (some from_) (some to_) hostId none).run E c).1 = .ok rows ∧
      ∀ r, r ∈ rows ↔ r ∈ c.view.reservations ∧ r.status.active = true ∧
        hostId.all (· == r.hostId) = true ∧ r.timeRange.endsAfter from_.instant = true ∧
        r.timeRange.startsBefore to_.instant = true := by
  refine ⟨_, rfl, fun r => ?_⟩
  simp [Stmt.exec, hadmin, List.mem_insertionSort, ReservationFilter.accepts, and_assoc]

/-- **The calendar in every interleaving**: what is booked ends on the grid and has its
    cells to itself, each host has the same row of cells in whatever order the
    reservations are read, the order of the hosts is that of their rows, and the ids
    shown are those of the list. -/
theorem calendar_of_reach (cfg : Settings) (hcfg : cfg.reservationSlotMinutes = 30)
    (hashRaw : String → String) {db : Store} {aux : Seqs} {clock : ℤ} {s : System}
    (hdb : Consistent db) (h0 : db.reservations = [])
    (h : Reach (app cfg hashRaw) (Arrivals HalfHourOffsets) ⟨db, aux, clock, []⟩ s) :
    (∀ r ∈ s.db.reservations, r.status.active = true → halfHourUs ∣ r.timeRange.upper) ∧
    CellsDisjoint s.db.reservations ∧
    ∀ (from_ to_ : DateTime) (hostId : Option ℤ) (viewer admin : User) (E : Env ℤ String) (q : Seqs),
      HalfHourOffset from_ → HalfHourOffset to_ → validateCalendar cfg from_ to_ = .ok () →
      admin.role = .admin →
      ∃ (m : CalendarMatrix) (row : ℤ → List CalendarSlot),
        (serve E (buildCalendarMatrix cfg from_ to_ hostId viewer) s.db q).1 = .ok m ∧
        m.slots = (shownHosts s.db hostId).flatMap row ∧
        (∀ st' : Store, st'.reservations.Perm s.db.reservations →
          (serve E (buildCalendarMatrix cfg from_ to_ hostId viewer) st' q).1 =
            .ok { m with slots := (shownHosts st' hostId).flatMap row } ∧
          (st'.hosts.Perm s.db.hosts → (shownHosts st' hostId).Perm (shownHosts s.db hostId))) ∧
        ∃ rows, (serve E (listReservations admin (some from_) (some to_) hostId none) s.db q).1 =
            .ok rows ∧
          ∀ id, (∃ cell ∈ m.slots, cell.reservationId = some id) ↔ ∃ r ∈ rows, r.id = id := by
  have hslotted := slotted_of_reach hcfg hdb h0 h
  have hdisj := cellsDisjoint (consistent_of_reach hdb h) hslotted.ends
  have hknown := hosts_known_of_reach hdb h0 h
  refine ⟨fun r hr _ => hslotted.ends r hr, hdisj, ?_⟩
  intro from_ to_ hostId viewer admin E q hfrom hto hval hadmin
  obtain ⟨hafrom, hato, hlt⟩ := validateCalendar_eq_ok.1 hval
  have hdelta : (cfg.reservationSlotMinutes : ℤ) * minuteUs = halfHourUs := by rw [hcfg]; rfl
  rw [hcfg] at hafrom hato
  have hfrom := hfrom.dvd hafrom
  have hto := hto.dvd hato
  have hrun : ∀ st : Store, (serve E (buildCalendarMatrix cfg from_ to_ hostId viewer) st q).1 = .ok {
      from_, to_, slotMinutes := cfg.reservationSlotMinutes
      slots := calendarSlots halfHourUs from_ to_ hostId viewer st } := by
    intro st
    rw [← hdelta]
    exact congrArg Prod.fst (run_buildCalendarMatrix hval)
  refine ⟨_, calendarRow viewer halfHourUs from_ to_ (s.db.reservations.filter (inWindow from_ to_ hostId)), hrun _, rfl,
    fun st' hrows => ⟨?_, shownHosts_perm⟩, ?_⟩
  · rw [hrun, calendarSlots_congr hfrom hto hdisj hrows]
  · obtain ⟨rows, hrun, hmem⟩ := run_listReservations hadmin from_ to_ hostId E ⟨s.db, [], q, 0, 0⟩
    refine ⟨rows, hrun, fun id => ?_⟩
    rw [calendarSlots_shown_iff hfrom hto viewer hdisj hknown hlt id]
    simp only [hmem]
    rfl

/-- An instant booking and one of an hour: the calendar of the day shows both. -/
theorem calendar_of_reach_day : ∃ s : System, s.db.reservations.length = 2 ∧
    ∃ m rows, (serve (Env.at 0 fun _ => "") (buildCalendarMatrix {} (.utc 0) (.utc dayUs) none ⟨1, .user, "mock"⟩)
        s.db {}).1 = .ok m ∧
      (serve (Env.at 0 fun _ => "") (listReservations ⟨9, .admin, "mock"⟩ (some (.utc 0)) (some (.utc dayUs))
        none none) s.db {}).1 = .ok rows ∧
      ∀ id, (∃ cell ∈ m.slots, cell.reservationId = some id) ↔ ∃ r ∈ rows, r.id = id := by
  have hrun : (play (app {} id) (Arrivals HalfHourOffsets) ⟨room, {}, 0, []⟩
      [.tick (5 * secondUs), .arrive (.instant ⟨1, .user, "mock"⟩ 1), .steps 0 "a" 60,
        .arrive (bookFor 2 1 4 60), .steps 1 "b" 60]).any
      (fun s => s.db.reservations.length == 2) = true := by decide
  obtain ⟨s, hs, hlen⟩ := Reach.of_play_any hrun
  obtain ⟨-, -, hcal⟩ := calendar_of_reach {} rfl id room_consistent rfl hs
  obtain ⟨m, -, hm, -, -, rows, hrows, hids⟩ := hcal (.utc 0) (.utc dayUs) none ⟨1, .user, "mock"⟩
    ⟨9, .admin, "mock"⟩ (Env.at 0 fun _ => "") {} (by decide) (by decide) (by decide) rfl
  exact ⟨s, beq_iff_eq.mp hlen, m, rows, hm, hrows, hids⟩

/-- With the rows of the hosts in another order, the calendar is another one. -/
theorem calendar_of_other_rows : ∃ hosts : List Host, hosts.Perm room.hosts ∧
    (serve (Env.at 0 fun _ => "") (buildCalendarMatrix {} (.utc 0) (.utc hourUs) none ⟨1, .user, "mock"⟩)
        { room with hosts } {}).1 ≠
      (serve (Env.at 0 fun _ => "") (buildCalendarMatrix {} (.utc 0) (.utc hourUs) none ⟨1, .user, "mock"⟩)
        room {}).1 :=
  ⟨room.hosts.reverse, List.reverse_perm _, by decide⟩

end SmartClassroom
