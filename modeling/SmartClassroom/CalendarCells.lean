/-
  Which cells `build_calendar_matrix` fills.

  Both of its loops step through a grid: the values of `cursor` are the grid
  points before the stop (`cursorsFrom_eq`).  A reservation fills the cells that
  it overlaps (`fills_iff`), so the matrix is exact (`buildCalendarMatrix_exact`).
-/
import Mathlib.Data.List.Range
import SmartClassroom.Serving
import SmartClassroom.Window

namespace SmartClassroom

open Txn Prog

/-! ## The loops -/

/-- The number of grid points from `start` on that lie before `stop`. -/
def turnsOf (delta : ℤ) (start stop : DateTime) : ℕ := ((stop - start + delta - 1) / delta).toNat

/-- The `k`-th value of `cursor`. -/
def cursorAt (delta : ℤ) (start : DateTime) (k : ℕ) : DateTime := start + ((k : ℤ) * delta)

section
variable {delta : ℤ} {start stop : DateTime}

@[simp] theorem instant_cursorAt (k : ℕ) : (cursorAt delta start k).instant = start.instant + k * delta :=
  DateTime.instant_add _ _

theorem add_zero_eq (d : DateTime) : d + (0 : ℤ) = d := congrArg (DateTime.mk · d.tzinfo) (Int.add_zero _)

theorem add_add_eq (d : DateTime) (a b : ℤ) : d + a + b = d + (a + b) :=
  congrArg (DateTime.mk · d.tzinfo) (Int.add_assoc _ _ _)

@[simp] theorem cursorAt_zero : cursorAt delta start 0 = start := by
  rw [cursorAt, Nat.cast_zero, Int.zero_mul, add_zero_eq]

theorem cursorAt_succ (k : ℕ) : cursorAt delta start (k + 1) = cursorAt delta start k + delta := by
  rw [cursorAt, cursorAt, add_add_eq, Nat.cast_succ, Int.add_mul, Int.one_mul]

theorem cursorAt_add (k : ℕ) : cursorAt delta (start + delta) k = cursorAt delta start (k + 1) := by
  rw [cursorAt, cursorAt, add_add_eq, Nat.cast_succ, Int.add_mul, Int.one_mul, Int.add_comm]

variable (hd : 0 < delta)
include hd

theorem lt_turnsOf {k : ℕ} : k < turnsOf delta start stop ↔ cursorAt delta start k < stop := by
  rw [DateTime.lt_iff, instant_cursorAt, turnsOf, Int.lt_toNat, ← Int.add_one_le_iff,
    Int.le_ediv_iff_mul_le hd, DateTime.sub_def, Int.add_mul]
  omega

theorem turnsOf_add (h : start < stop) : turnsOf delta start stop = turnsOf delta (start + delta) stop + 1 := by
  have hlt : ∀ k, k < turnsOf delta (start + delta) stop ↔ k + 1 < turnsOf delta start stop := by
    intro k
    rw [lt_turnsOf hd, lt_turnsOf hd, cursorAt_add]
  have hpos : 0 < turnsOf delta start stop := by rwa [lt_turnsOf hd, cursorAt_zero]
  have h1 := hlt (turnsOf delta (start + delta) stop)
  have h2 := hlt (turnsOf delta start stop - 1)
  omega

/-- Given turns enough, the loop runs through the grid points before its stop. -/
theorem cursors_eq : ∀ {fuel : ℕ} {start : DateTime}, turnsOf delta start stop ≤ fuel →
    cursors delta stop fuel start = (List.range (turnsOf delta start stop)).map (cursorAt delta start)
  | 0, start, h => by
    rw [Nat.le_zero.mp h]
    rfl
  | fuel + 1, start, h => by
    rw [cursors]
    split_ifs with hlt
    · rw [turnsOf_add hd hlt] at h ⊢
      rw [cursors_eq (Nat.le_of_succ_le_succ h), List.range_succ_eq_map, List.map_cons, List.map_map,
        cursorAt_zero]
      exact congrArg _ (List.map_congr_left fun k _ => cursorAt_add k)
    · have hzero : ¬0 < turnsOf delta start stop := by rwa [lt_turnsOf hd, cursorAt_zero]
      rw [Nat.eq_zero_of_not_pos hzero]
      rfl

/-- The turns allowed are enough. -/
theorem turnsOf_le_turns : turnsOf delta start stop ≤ turns delta start stop := by
  have h : ∀ d : ℤ, (d + delta - 1) / delta ≤ d / delta + 1 := fun d => calc
    (d + delta - 1) / delta ≤ (d + 1 * delta) / delta := Int.ediv_le_ediv hd (by omega)
    _ = d / delta + 1 := Int.add_mul_ediv_right _ 1 hd.ne'
  have h := h (stop - start)
  rw [turnsOf, turns]
  generalize stop - start = d at h ⊢
  omega

theorem cursorsFrom_eq : cursorsFrom delta start stop =
    (List.range (turnsOf delta start stop)).map (cursorAt delta start) :=
  cursors_eq hd (turnsOf_le_turns hd)

/-- The loop ends: more turns do not change it. -/
theorem cursors_stable {fuel : ℕ} (h : turns delta start stop ≤ fuel) :
    cursors delta stop fuel start = cursorsFrom delta start stop := by
  rw [cursorsFrom_eq hd, cursors_eq hd ((turnsOf_le_turns hd).trans h)]

theorem mem_cursorsFrom {c : DateTime} : c ∈ cursorsFrom delta start stop ↔
    ∃ k : ℕ, cursorAt delta start k = c ∧ c < stop := by
  rw [cursorsFrom_eq hd, List.mem_map]
  constructor
  · rintro ⟨k, hk, rfl⟩
    exact ⟨k, rfl, (lt_turnsOf hd).1 (List.mem_range.1 hk)⟩
  · rintro ⟨k, rfl, hlt⟩
    exact ⟨k, List.mem_range.2 ((lt_turnsOf hd).2 hlt), rfl⟩

end

/-! ## The cells of a reservation -/

/-- The cell of `hid` at the instant `t` is among those the reservation fills. -/
def Fills (from_ to_ : DateTime) (delta hid t : ℤ) (r : Reservation) : Prop :=
  r.hostId = hid ∧ ∃ cursor ∈ cellsOf from_ to_ delta r, cursor.instant = t

/-- The reservation is an active one of the host and overlaps `[a, b)`. -/
def Occupies (hid a b : ℤ) (r : Reservation) : Prop :=
  r.status.active = true ∧ r.hostId = hid ∧ r.timeRange.overlaps a b = true

/-- The rows of the calendar's query. -/
def inWindow (from_ to_ : DateTime) (hostId : Option ℤ) (r : Reservation) : Bool :=
  r.status.active && r.timeRange.overlaps from_.instant to_.instant && hostId.all (· == r.hostId)

theorem overlaps_iff {r : TsRange} {a b : ℤ} :
    r.overlaps a b = true ↔ r.lower < r.upper ∧ a < b ∧ r.lower < b ∧ a < r.upper := by
  simp [TsRange.overlaps, and_assoc]

/-- The loop of a reservation starts in the cell of its start, or at `from_`. -/
theorem cellsOf_eq {r : Reservation} (hne : r.timeRange.lower < r.timeRange.upper) (delta : ℤ)
    (from_ to_ : DateTime) : ∃ start stop, cellsOf from_ to_ delta r = cursorsFrom delta start stop ∧
      start.instant = from_.instant +
        (Max.max r.timeRange.lower from_.instant - from_.instant) / delta * delta ∧
      stop.instant = Min.min r.timeRange.upper to_.instant := by
  have hempty : r.timeRange.isEmpty = false := by
    simp only [TsRange.isEmpty, beq_eq_false_iff_ne]
    exact hne.ne
  simp only [cellsOf, TsRange.lower?, TsRange.upper?, hempty, Bool.false_eq_true, if_false]
  refine ⟨_, _, rfl, ?_, by simp⟩
  have hfloor : Max.max r.timeRange.lower from_.instant -
      (Max.max r.timeRange.lower from_.instant - from_.instant) % delta = from_.instant +
        (Max.max r.timeRange.lower from_.instant - from_.instant) / delta * delta := by
    have := Int.emod_add_ediv_mul (Max.max r.timeRange.lower from_.instant - from_.instant) delta
    omega
  have hmax : (((DateTime.utc r.timeRange.lower).orTz (some 0)).max from_).instant =
      Max.max r.timeRange.lower from_.instant := by simp
  have hsub : ((DateTime.utc r.timeRange.lower).orTz (some 0)).max from_ - from_ =
      Max.max r.timeRange.lower from_.instant - from_.instant := by rw [DateTime.sub_def, hmax]
  split_ifs with hoff
  · rw [DateTime.instant_sub, hmax, hsub, hfloor]
  · rw [hsub, ne_eq, not_not] at hoff
    rw [hmax, ← hfloor, hoff, Int.sub_zero]

section
variable {delta : ℤ} {from_ to_ : DateTime} (hd : 0 < delta)
include hd

/-- So its cells are those of the window that it overlaps. -/
theorem mem_cellsOf {r : Reservation} (hne : r.timeRange.lower < r.timeRange.upper) {k : ℕ} :
    (∃ cursor ∈ cellsOf from_ to_ delta r, cursor.instant = (cursorAt delta from_ k).instant) ↔
      r.timeRange.lower < (cursorAt delta from_ k).instant + delta ∧
        (cursorAt delta from_ k).instant < Min.min r.timeRange.upper to_.instant := by
  obtain ⟨start, stop, hcells, hstart, hstop⟩ := cellsOf_eq hne delta from_ to_
  rw [hcells]
  simp only [mem_cursorsFrom hd, DateTime.lt_iff, hstop]
  set q := (Max.max r.timeRange.lower from_.instant - from_.instant) / delta with hqdef
  have hq : 0 ≤ q := Int.ediv_nonneg (by omega) hd.le
  -- the start of the loop is the `q`-th grid point of the window
  have hgrid : r.timeRange.lower < (cursorAt delta from_ k).instant + delta ↔ q ≤ k := by
    have hk : 0 ≤ (k : ℤ) * delta := Int.mul_nonneg (Int.natCast_nonneg k) hd.le
    rw [← Int.lt_add_one_iff, hqdef, Int.ediv_lt_iff_lt_mul hd, Int.add_mul, instant_cursorAt]
    omega
  rw [hgrid]
  constructor
  · rintro ⟨cursor, ⟨j, rfl, hlt⟩, hj⟩
    rw [instant_cursorAt, instant_cursorAt, hstart, Int.add_assoc, ← Int.add_mul] at hj
    have := Int.eq_of_mul_eq_mul_right hd.ne' (Int.add_left_cancel hj)
    refine ⟨by omega, ?_⟩
    rwa [instant_cursorAt, ← this, Int.add_mul, ← Int.add_assoc, ← hstart, ← instant_cursorAt]
  · rintro ⟨hle, hlt⟩
    have heq : (cursorAt delta start (k - q.toNat)).instant = (cursorAt delta from_ k).instant := by
      rw [instant_cursorAt, instant_cursorAt, hstart, Int.add_assoc, ← Int.add_mul]
      congr 2
      omega
    exact ⟨_, ⟨k - q.toNat, rfl, by rwa [heq]⟩, heq⟩

/-- A row of the query fills the cells of the window that it overlaps. -/
theorem fills_iff {hostId : Option ℤ} {hid : ℤ} (hh : hostId.all (· == hid) = true) {k : ℕ}
    (hk : k < turnsOf delta from_ to_) (r : Reservation) :
    (inWindow from_ to_ hostId r = true ∧ Fills from_ to_ delta hid (cursorAt delta from_ k).instant r) ↔
      Occupies hid (cursorAt delta from_ k).instant
        (Min.min ((cursorAt delta from_ k).instant + delta) to_.instant) r := by
  rw [lt_turnsOf hd, DateTime.lt_iff] at hk
  have hfrom : from_.instant ≤ (cursorAt delta from_ k).instant := by
    rw [instant_cursorAt]
    exact Int.le_add_of_nonneg_right (Int.mul_nonneg (Int.natCast_nonneg k) hd.le)
  simp only [inWindow, Bool.and_eq_true, overlaps_iff, Fills, Occupies]
  constructor
  · rintro ⟨⟨⟨hact, hne, -, hlo, hhi⟩, -⟩, hid, hcell⟩
    obtain ⟨hlt, hmin⟩ := (mem_cellsOf hd hne).1 hcell
    exact ⟨hact, hid, hne, by omega, by omega, by omega⟩
  · rintro ⟨hact, rfl, hne, -, hlo, hhi⟩
    exact ⟨⟨⟨hact, hne, by omega, by omega, by omega⟩, hh⟩, rfl,
      (mem_cellsOf hd hne).2 ⟨by omega, by omega⟩⟩

end

/-! ## The map -/

section
variable {from_ to_ : DateTime} {delta : ℤ}

theorem mem_occupy {occupied : Occupied} {r : Reservation} {x : (ℤ × ℤ) × Reservation} :
    x ∈ occupy from_ to_ delta occupied r ↔
      x ∈ occupied ∨ x.2 = r ∧ Fills from_ to_ delta x.1.1 x.1.2 r := by
  rw [occupy, Fills]
  induction cellsOf from_ to_ delta r generalizing occupied with
  | nil => simp
  | cons cursor cells ih =>
    rw [List.foldl_cons, ih, List.mem_cons]
    obtain ⟨⟨hid, t⟩, r'⟩ := x
    simp only [Prod.mk.injEq, List.exists_mem_cons_iff]
    grind

theorem mem_occupied {rows : List Reservation} {occupied : Occupied} {x : (ℤ × ℤ) × Reservation} :
    x ∈ rows.foldl (occupy from_ to_ delta) occupied ↔
      x ∈ occupied ∨ x.2 ∈ rows ∧ Fills from_ to_ delta x.1.1 x.1.2 x.2 := by
  induction rows generalizing occupied with
  | nil => simp
  | cons r rows ih =>
    rw [List.foldl_cons, ih, mem_occupy, List.mem_cons]
    grind

/-- The entry of a cell is a row that fills it. -/
theorem lookup_some {rows : List Reservation} {hid t : ℤ} {r : Reservation}
    (h : (rows.foldl (occupy from_ to_ delta) []).lookup (hid, t) = some r) :
    r ∈ rows ∧ Fills from_ to_ delta hid t r := by
  obtain ⟨l₁, l₂, heq, -⟩ := List.lookup_eq_some_iff.1 h
  have hmem : ((hid, t), r) ∈ rows.foldl (occupy from_ to_ delta) [] := by simp [heq]
  simpa using mem_occupied.1 hmem

theorem lookup_none {rows : List Reservation} {hid t : ℤ}
    (h : (rows.foldl (occupy from_ to_ delta) []).lookup (hid, t) = none) {r : Reservation} (hr : r ∈ rows) :
    ¬Fills from_ to_ delta hid t r := by
  intro hf
  have hmem : ((hid, t), r) ∈ rows.foldl (occupy from_ to_ delta) [] := mem_occupied.2 (.inr ⟨hr, hf⟩)
  simpa using List.lookup_eq_none_iff.1 h _ hmem

end

/-! ## The matrix -/

section
variable (viewer : User) (delta : ℤ) (occupied : Occupied) (hid : ℤ) (cursor : DateTime)

@[simp] theorem startsAt_calendarCell : (calendarCell viewer delta occupied hid cursor).startsAt = cursor := by
  unfold calendarCell
  split <;> rfl

@[simp] theorem endsAt_calendarCell :
    (calendarCell viewer delta occupied hid cursor).endsAt = cursor + delta := by
  unfold calendarCell
  split <;> rfl

end

/-- The owner of a reservation, for the viewer. -/
def shownOwner (viewer : User) (r : Reservation) : Option ℤ :=
  if viewer.role = .admin ∨ r.userId = viewer.id then some r.userId else none

/-- A cell of the host, against the reservations that overlap the part of it
    before `to_`. -/
structure CellExact (reservations : List Reservation) (viewer : User) (hid : ℤ) (to_ : DateTime)
    (cell : CalendarSlot) : Prop where
  hostId : cell.hostId = hid
  occupied : cell.status = .occupied ↔ ∃ r ∈ reservations,
    Occupies hid cell.startsAt.instant (Min.min cell.endsAt.instant to_.instant) r
  shown : cell.status = .occupied → ∃ r ∈ reservations,
    Occupies hid cell.startsAt.instant (Min.min cell.endsAt.instant to_.instant) r ∧
      cell.reservationId = some r.id ∧ cell.userId = shownOwner viewer r
  free : cell.status = .open_ → cell.reservationId = none ∧ cell.userId = none

/-- A cell with an id is occupied. -/
theorem CellExact.occupied_of_id {reservations : List Reservation} {viewer : User} {hid : ℤ}
    {to_ : DateTime} {cell : CalendarSlot} (h : CellExact reservations viewer hid to_ cell) {id : ℤ}
    (hid' : cell.reservationId = some id) : cell.status = .occupied := by
  cases hst : cell.status with
  | occupied => rfl
  | open_ => exact absurd ((h.free hst).1.symm.trans hid') nofun

/-- The row of a host: its cells start at `from_`, follow each other, and
    reach `to_` with the last one. -/
structure RowExact (reservations : List Reservation) (viewer : User) (delta : ℤ) (from_ to_ : DateTime)
    (hid : ℤ) (row : List CalendarSlot) : Prop where
  start : ∃ first ∈ row.head?, first.startsAt = from_
  chain : row.IsChain fun cell next => next.startsAt = cell.endsAt
  length : ∀ cell ∈ row, cell.endsAt = cell.startsAt + delta
  before : ∀ cell ∈ row, cell.startsAt < to_
  reach : ∀ last ∈ row.getLast?, to_ ≤ last.endsAt
  cells : ∀ cell ∈ row, CellExact reservations viewer hid to_ cell

/-- The row of a host, from the reservations of the window. -/
def calendarRow (viewer : User) (delta : ℤ) (from_ to_ : DateTime) (rows : List Reservation) (hid : ℤ) :
    List CalendarSlot :=
  (cursorsFrom delta from_ to_).map
    (calendarCell viewer delta (rows.foldl (occupy from_ to_ delta) []) hid)

section
variable {delta : ℤ} {from_ to_ : DateTime} (hd : 0 < delta) {hostId : Option ℤ} (viewer : User) {hid : ℤ}
  (hh : hostId.all (· == hid) = true) (reservations : List Reservation)
include hd hh

theorem calendarCell_exact {k : ℕ} (hk : k < turnsOf delta from_ to_) :
    CellExact reservations viewer hid to_ (calendarCell viewer delta
      ((reservations.filter (inWindow from_ to_ hostId)).foldl (occupy from_ to_ delta) []) hid
      (cursorAt delta from_ k)) := by
  have hfills := fills_iff hd hh hk
  unfold calendarCell
  cases hcell : List.lookup (hid, (cursorAt delta from_ k).instant)
      ((reservations.filter (inWindow from_ to_ hostId)).foldl (occupy from_ to_ delta) []) with
  | none =>
    have hnone : ¬∃ r ∈ reservations, Occupies hid (cursorAt delta from_ k).instant
        (Min.min ((cursorAt delta from_ k).instant + delta) to_.instant) r := by
      rintro ⟨r, hr, hocc⟩
      obtain ⟨hwin, hfill⟩ := (hfills r).2 hocc
      exact lookup_none hcell (List.mem_filter.2 ⟨hr, hwin⟩) hfill
    exact {
      hostId := rfl
      occupied := by simpa using hnone
      shown := by simp
      free := by simp }
  | some r =>
    obtain ⟨hr, hfill⟩ := lookup_some hcell
    obtain ⟨hr, hwin⟩ := List.mem_filter.1 hr
    have hocc := (hfills r).1 ⟨hwin, hfill⟩
    rw [← DateTime.instant_add] at hocc
    exact {
      hostId := rfl
      occupied := iff_of_true rfl ⟨r, hr, hocc⟩
      shown := fun _ => ⟨r, hr, hocc, rfl, rfl⟩
      free := by simp }

theorem row_exact (hlt : from_ < to_) : RowExact reservations viewer delta from_ to_ hid
    (calendarRow viewer delta from_ to_ (reservations.filter (inWindow from_ to_ hostId)) hid) := by
  obtain ⟨n, hn⟩ : ∃ n, turnsOf delta from_ to_ = n + 1 := ⟨_, turnsOf_add hd hlt⟩
  rw [calendarRow, cursorsFrom_eq hd, List.map_map]
  have hmem : ∀ {p : CalendarSlot → Prop} {f : ℕ → CalendarSlot},
      (∀ k < turnsOf delta from_ to_, p (f k)) →
        ∀ cell ∈ (List.range (turnsOf delta from_ to_)).map f, p cell := by
    intro p f hp cell hcell
    obtain ⟨k, hk, rfl⟩ := List.mem_map.1 hcell
    exact hp k (List.mem_range.1 hk)
  refine ⟨?_, ?_, hmem fun k _ => by simp, hmem fun k hk => ?_, ?_,
    hmem fun k hk => calendarCell_exact hd viewer hh reservations hk⟩
  · rw [hn, List.range_succ_eq_map]
    simp
  · rw [hn, List.isChain_map, List.isChain_range_succ]
    intro k _
    simp [cursorAt_succ]
  · simpa using (lt_turnsOf hd).1 hk
  · rw [hn, List.range_succ]
    have hstop : ¬cursorAt delta from_ (n + 1) < to_ := by
      rw [← lt_turnsOf hd, hn]
      exact Nat.lt_irrefl _
    simpa [cursorAt_succ, DateTime.not_lt_iff] using hstop

end

theorem isGridAligned_zero {d : DateTime} : isGridAligned d 0 ≠ .ok true := by
  by_cases htz : d.tzinfo = none <;> simp [isGridAligned, htz]

theorem validateCalendar_eq_ok {cfg : Settings} {from_ to_ : DateTime} {u : Unit} :
    validateCalendar cfg from_ to_ = .ok u ↔ Aligned cfg.reservationSlotMinutes from_ ∧
      Aligned cfg.reservationSlotMinutes to_ ∧ from_ < to_ := by
  simp only [validateCalendar, bind_eq_ok, raiseIf_eq_ok, exists_const, not_or, Bool.not_eq_false,
    DateTime.not_le_iff]
  constructor
  · rintro ⟨-, b, hfrom, b', hto, rfl, hlt⟩
    cases b with
    | true => exact ⟨hfrom, hto, hlt⟩
    | false => cases hto
  · rintro ⟨hfrom, hto, hlt⟩
    exact ⟨⟨hfrom.aware, hto.aware⟩, true, hfrom, true, hto, rfl, hlt⟩

/-- The hosts shown, in the store `st`. -/
def shownHosts (st : Store) (hostId : Option ℤ) : List ℤ := hostId.elim (st.hosts.map (·.id)) ([·])

/-- The cells of all hosts. -/
def calendarSlots (delta : ℤ) (from_ to_ : DateTime) (hostId : Option ℤ) (viewer : User) (st : Store) :
    List CalendarSlot :=
  (shownHosts st hostId).flatMap
    (calendarRow viewer delta from_ to_ (st.reservations.filter (inWindow from_ to_ hostId)))

theorem all_of_mem_shownHosts {st : Store} {hostId : Option ℤ} {hid : ℤ} (h : hid ∈ shownHosts st hostId) :
    hostId.all (· == hid) = true := by
  cases hostId with
  | none => rfl
  | some hostId =>
    obtain rfl := List.mem_singleton.1 h
    exact beq_self_eq_true hid

section
variable {cfg : Settings} {from_ to_ : DateTime} (h : validateCalendar cfg from_ to_ = .ok ())
  {hostId : Option ℤ} {viewer : User} {E : Env ℤ String} {c : Ctx broker}
include h

theorem calendarDelta_pos : (0 : ℤ) < cfg.reservationSlotMinutes * minuteUs := by
  have hfrom := (validateCalendar_eq_ok.1 h).1
  have hslot : cfg.reservationSlotMinutes ≠ 0 := by
    intro h0
    rw [Aligned, h0] at hfrom
    exact isGridAligned_zero hfrom
  simp only [minuteUs]
  omega

theorem run_buildCalendarMatrix : (buildCalendarMatrix cfg from_ to_ hostId viewer).run E c = (.ok {
    from_, to_, slotMinutes := cfg.reservationSlotMinutes
    slots := calendarSlots (cfg.reservationSlotMinutes * minuteUs) from_ to_ hostId viewer c.view }, c) := by
  rw [buildCalendarMatrix, h]
  cases hostId with
  | some hostId =>
    change (execute (.calendar from_.instant to_.instant (some hostId)) >>= _).run E c = _
    rw [run_select rfl]
    rfl
  | none =>
    change (execute .hostIds >>= _).run E c = _
    rw [run_select rfl, run_select rfl]
    rfl

end

/-- **The calendar is exact**: both of its loops end, and the row of each host
    is. -/
theorem buildCalendarMatrix_exact (cfg : Settings) (from_ to_ : DateTime) (hostId : Option ℤ)
    (viewer : User) (E : Env ℤ String) (c : Ctx broker) (h : validateCalendar cfg from_ to_ = .ok ()) :
    let delta := cfg.reservationSlotMinutes * minuteUs
    (∀ start stop : DateTime, ∃ n, ∀ fuel ≥ n,
      cursors delta stop fuel start = cursorsFrom delta start stop) ∧
    ∃ row : ℤ → List CalendarSlot,
      (buildCalendarMatrix cfg from_ to_ hostId viewer).run E c = (.ok {
        from_, to_, slotMinutes := cfg.reservationSlotMinutes
        slots := (shownHosts c.view hostId).flatMap row }, c) ∧
      ∀ hid ∈ shownHosts c.view hostId,
        RowExact c.view.reservations viewer delta from_ to_ hid (row hid) := by
  have hd := calendarDelta_pos h
  refine ⟨fun start stop => ⟨_, fun fuel hfuel => cursors_stable hd hfuel⟩, _,
    run_buildCalendarMatrix h, fun hid hhid => row_exact hd viewer (all_of_mem_shownHosts hhid) _
      (validateCalendar_eq_ok.1 h).2.2⟩

/-- A host with a booking of ten minutes, from 00:25 on. -/
def acrossTwoCells : Store where
  hosts := [⟨1, "pc-1", "PC 1", none, none, 47990, .idle, none⟩]
  reservations := [Stmt.newReservation 1 7 1 ⟨25 * minuteUs, 35 * minuteUs, by decide⟩ 0]

theorem buildCalendarMatrix_exact_hour : validateCalendar {} (.utc 0) (.utc hourUs) = .ok () ∧
    ∃ row : ℤ → List CalendarSlot, ∀ hid ∈ [1], RowExact acrossTwoCells.reservations ⟨8, .user, "local"⟩
      (30 * minuteUs) (.utc 0) (.utc hourUs) hid (row hid) := by
  have h : validateCalendar {} (.utc 0) (.utc hourUs) = .ok () := by decide
  obtain ⟨-, row, -, hrow⟩ := buildCalendarMatrix_exact {} (.utc 0) (.utc hourUs) none ⟨8, .user, "local"⟩
    ⟨0, fun _ => 0, fun _ => ""⟩ ⟨acrossTwoCells, [], {}, 0, 0⟩ h
  exact ⟨h, row, hrow⟩

end SmartClassroom
