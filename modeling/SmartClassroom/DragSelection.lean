/-
  The drag selection of `CalendarGrid.tsx`, and what `ReservationModal.tsx`
  books of it.

  A drag from an anchor to an end column selects `effectiveDragSpan`; releasing
  the mouse opens the modal with the first cell and a length in minutes; from
  these the modal derives the booking, and the grid the cells it keeps blue.
  `dragSpan_spec`: the selection is the longest one allowed, and all three agree.
-/
import Mathlib.Data.List.Chain
import SmartClassroom.KstTime
import SmartClassroom.Reservation

namespace SmartClassroom

/-! ## `CalendarGrid.tsx` -/

def MAX_SPAN_MINUTES : ℤ := 240

def MAX_SPAN_CELLS : ℕ := (MAX_SPAN_MINUTES / SLOT_MINUTES).toNat

structure DragRange where
  startCol : ℤ
  endCol : ℤ

/-- `slots[c]`, which is undefined outside of the row. -/
def slotAt (slots : List CalendarSlot) (c : ℤ) : Option CalendarSlot :=
  if 0 ≤ c then slots[c.toNat]? else none

/-- `slot && slot.status === 'OPEN'`. -/
def isOpen (slots : List CalendarSlot) (c : ℤ) : Bool := (slotAt slots c).any (·.status == .open_)

/-- The loop of `effectiveDragSpan`: the value of `last`, with `left` cells to go
    up to `MAX_SPAN_CELLS`. -/
def extend (slots : List CalendarSlot) (minReservableCol endCol dir c last : ℤ) : ℕ → ℤ
  | 0 => last
  | left + 1 =>
    if (if 0 < dir then c ≤ endCol else endCol ≤ c) then
      if c < minReservableCol then last
      else if isOpen slots c then extend slots minReservableCol endCol dir (c + dir) c left
      else last
    else last

def effectiveDragSpan (range : DragRange) (slots : List CalendarSlot) (minReservableCol : ℤ) : ℤ × ℤ :=
  let dir := if range.startCol ≤ range.endCol then 1 else -1
  let last := extend slots minReservableCol range.endCol dir (range.startCol + dir) range.startCol
    (MAX_SPAN_CELLS - 1)
  (min range.startCol last, max range.startCol last)

/-- What `onCellActivate` is called with. -/
structure CalendarCell where
  hostId : ℤ
  slot : CalendarSlot
  isMine : Bool
  spanMinutes : Option ℤ

/-- `onUp`, in the row of a host. -/
def onUp (hostId : ℤ) (range : DragRange) (slots : List CalendarSlot) (minReservableCol : ℤ) : Option CalendarCell :=
  let span := effectiveDragSpan range slots minReservableCol
  (slotAt slots span.1).map fun firstSlot =>
    { hostId, slot := firstSlot, isMine := false, spanMinutes := some ((span.2 - span.1 + 1) * SLOT_MINUTES) }

/-! ## `CalendarPage.tsx` -/

structure SelectedCell where
  hostId : ℤ
  startsAt : DateTime
  durationMinutes : Option ℤ

/-- `onCellActivate`. -/
def CalendarCell.selected (cell : CalendarCell) : SelectedCell :=
  ⟨cell.hostId, cell.slot.startsAt, cell.spanMinutes⟩

structure SelectedRange where
  hostId : ℤ
  startsAt : DateTime
  minutes : ℤ

/-- `selectedRange`. -/
def SelectedCell.range (cell : SelectedCell) : SelectedRange :=
  ⟨cell.hostId, cell.startsAt, cell.durationMinutes.getD SLOT_MINUTES⟩

/-- `Math.round(minutes / SLOT_MINUTES)`. -/
def roundSlots (minutes : ℤ) : ℤ := (2 * minutes + SLOT_MINUTES) / (2 * SLOT_MINUTES)

/-- `selectedSpan`: the row and the columns of the selected range. -/
def selectedSpan (hosts : List ℤ) (slotsByHost : ℤ → List CalendarSlot) (range : SelectedRange) : Option (ℕ × ℤ × ℤ) :=
  match hosts.findIdx? (· == range.hostId), (slotsByHost range.hostId).findIdx? (·.startsAt == range.startsAt) with
  | some row, some lo => some (row, lo, lo + roundSlots range.minutes - 1)
  | _, _ => none

/-! ## `ReservationModal.tsx` -/

def MAX_DURATION_MINUTES : ℤ := 240

/-- `durationMinutes`. -/
def modalMinutes (durationProp : Option ℤ) : ℤ :=
  min (max (roundSlots (durationProp.getD SLOT_MINUTES) * SLOT_MINUTES) SLOT_MINUTES) MAX_DURATION_MINUTES

structure CreateReservationPayload where
  hostId : ℤ
  startsAt : DateTime
  endsAt : DateTime
deriving DecidableEq

/-- `onSubmit`. -/
def submit (cell : SelectedCell) : CreateReservationPayload where
  hostId := cell.hostId
  startsAt := toIsoWithOffset (newDate cell.startsAt)
  endsAt := toIsoWithOffset (addMinutes (newDate cell.startsAt) (modalMinutes cell.durationMinutes))

/-! ## Rows -/

/-- A row of the grid: cells of 30 minutes, each from the end of the one before
    on.  The server sends cells of its grid, so on full seconds. -/
structure SlotRow where
  slots : List CalendarSlot
  length : ∀ s ∈ slots, s.endsAt.instant = s.startsAt.instant + SLOT_MINUTES * minuteUs
  contiguous : slots.IsChain fun s s' => s'.startsAt.instant = s.endsAt.instant
  seconds : ∀ s ∈ slots, secondUs ∣ s.startsAt.instant

/-- A selection that is allowed. -/
structure AllowedSpan (slots : List CalendarSlot) (minReservableCol : ℤ) (range : DragRange) (lo hi : ℤ) : Prop where
  anchor : lo ≤ range.startCol ∧ range.startCol ≤ hi
  between : min range.startCol range.endCol ≤ lo ∧ hi ≤ max range.startCol range.endCol
  short : hi - lo + 1 ≤ MAX_SPAN_CELLS
  cells : ∀ c, lo ≤ c → c ≤ hi → isOpen slots c = true ∧ minReservableCol ≤ c

/-! ## The selection -/

section
variable {slots : List CalendarSlot} {minReservableCol endCol dir : ℤ}

/-- The loop may go on to the cell. -/
def Reachable (slots : List CalendarSlot) (minReservableCol endCol dir c : ℤ) : Prop :=
  (if 0 < dir then c ≤ endCol else endCol ≤ c) ∧ minReservableCol ≤ c ∧ isOpen slots c = true

/-- The loop goes on as long as it may. -/
theorem extend_spec : ∀ (left : ℕ) (last : ℤ), ∃ m : ℕ, m ≤ left ∧
    extend slots minReservableCol endCol dir (last + dir) last left = last + dir * m ∧
    (∀ i : ℕ, 1 ≤ i → i ≤ m → Reachable slots minReservableCol endCol dir (last + dir * i)) ∧
    (m = left ∨ ¬Reachable slots minReservableCol endCol dir (last + dir * (m + 1)))
  | 0, last => ⟨0, le_rfl, by simp [extend], fun i h1 h0 => by omega, .inl rfl⟩
  | left + 1, last => by
    by_cases hreach : Reachable slots minReservableCol endCol dir (last + dir)
    · obtain ⟨m, hm, hlast, hall, hstop⟩ := extend_spec left (last + dir)
      have hshift : ∀ i : ℤ, last + dir + dir * i = last + dir * (i + 1) := fun i => by
        rw [Int.mul_add, Int.mul_one]
        omega
      refine ⟨m + 1, by omega, ?_, fun i h1 him => ?_, ?_⟩
      · rw [extend, if_pos hreach.1, if_neg (not_lt.2 hreach.2.1), if_pos hreach.2.2, hlast, hshift]
        rfl
      · obtain _ | i := i
        · omega
        obtain _ | i := i
        · simpa using hreach
        · have := hall (i + 1) (by omega) (by omega)
          rwa [hshift] at this
      · refine hstop.imp (congrArg (· + 1)) fun h => ?_
        rwa [hshift] at h
    · refine ⟨0, by omega, ?_, fun i h1 h0 => by omega, .inr (by simpa using hreach)⟩
      simp only [Int.ofNat_zero, Int.mul_zero, Int.add_zero, extend]
      by_cases h1 : if 0 < dir then last + dir ≤ endCol else endCol ≤ last + dir
      · rw [if_pos h1]
        by_cases h2 : last + dir < minReservableCol
        · rw [if_pos h2]
        · rw [if_neg h2, if_neg fun h3 => hreach ⟨h1, not_lt.1 h2, h3⟩]
      · rw [if_neg h1]

end

section
variable {slots : List CalendarSlot} {minReservableCol a e : ℤ} (hopen : isOpen slots a = true)
  (hmin : minReservableCol ≤ a)
include hopen hmin

/-- Dragging to the right. -/
theorem effectiveDragSpan_right (hdir : a ≤ e) :
    ∃ m : ℕ, effectiveDragSpan ⟨a, e⟩ slots minReservableCol = (a, a + m) ∧
      AllowedSpan slots minReservableCol ⟨a, e⟩ a (a + m) ∧
      ¬AllowedSpan slots minReservableCol ⟨a, e⟩ a (a + m + 1) := by
  have hcells : MAX_SPAN_CELLS = 8 := rfl
  obtain ⟨m, hm, hlast, hall, hstop⟩ := @extend_spec slots minReservableCol e 1 (MAX_SPAN_CELLS - 1) a
  have hspan : effectiveDragSpan ⟨a, e⟩ slots minReservableCol = (min a (a + m), max a (a + m)) := by
    rw [Int.one_mul] at hlast
    rw [← hlast]
    simp only [effectiveDragSpan, if_pos hdir]
  rw [min_eq_left (by omega), max_eq_right (by omega)] at hspan
  have hcell : ∀ c, a ≤ c → c ≤ a + m → c ≤ e ∧ minReservableCol ≤ c ∧ isOpen slots c = true := by
    intro c hc hc'
    rcases hc.eq_or_lt with rfl | hlt
    · exact ⟨hdir, hmin, hopen⟩
    · have h := hall (c - a).toNat (by omega) (by omega)
      rwa [show a + 1 * ((c - a).toNat : ℤ) = c by omega] at h
  refine ⟨m, hspan, ⟨⟨le_rfl, by dsimp only; omega⟩, ⟨min_le_left a e, ?_⟩, by omega, fun c hc hc' => ?_⟩,
    fun h => ?_⟩
  · exact (hcell (a + m) (by omega) le_rfl).1.trans (le_max_right a e)
  · exact ⟨(hcell c hc hc').2.2, (hcell c hc hc').2.1⟩
  · -- the loop has stopped at the next cell, or after eight
    have hlast := h.cells (a + m + 1) (by omega) le_rfl
    have hup : a + m + 1 ≤ e := h.between.2.trans_eq (max_eq_right hdir)
    have hshort := h.short
    rcases hstop with hstop | hstop
    · omega
    · exact hstop ⟨by simpa [Int.add_assoc] using hup, by omega, by simpa [Int.add_assoc] using hlast.1⟩

/-- Dragging to the left. -/
theorem effectiveDragSpan_left (hdir : e < a) :
    ∃ m : ℕ, effectiveDragSpan ⟨a, e⟩ slots minReservableCol = (a - m, a) ∧
      AllowedSpan slots minReservableCol ⟨a, e⟩ (a - m) a ∧
      ¬AllowedSpan slots minReservableCol ⟨a, e⟩ (a - m - 1) a := by
  have hcells : MAX_SPAN_CELLS = 8 := rfl
  obtain ⟨m, hm, hlast, hall, hstop⟩ := @extend_spec slots minReservableCol e (-1) (MAX_SPAN_CELLS - 1) a
  have hspan : effectiveDragSpan ⟨a, e⟩ slots minReservableCol = (min a (a - m), max a (a - m)) := by
    rw [show a + -1 * (m : ℤ) = a - m by omega] at hlast
    rw [← hlast]
    simp only [effectiveDragSpan, if_neg (not_le.2 hdir)]
  rw [min_eq_right (by omega), max_eq_left (by omega)] at hspan
  have hcell : ∀ c, a - m ≤ c → c ≤ a → e ≤ c ∧ minReservableCol ≤ c ∧ isOpen slots c = true := by
    intro c hc hc'
    rcases hc'.eq_or_lt with rfl | hlt
    · exact ⟨by omega, hmin, hopen⟩
    · have h := hall (a - c).toNat (by omega) (by omega)
      rwa [show a + -1 * ((a - c).toNat : ℤ) = c by omega] at h
  refine ⟨m, hspan, ⟨⟨by dsimp only; omega, le_rfl⟩, ⟨?_, le_max_left a e⟩, by omega, fun c hc hc' => ?_⟩,
    fun h => ?_⟩
  · exact (min_le_right a e).trans (hcell (a - m) le_rfl (by omega)).1
  · exact ⟨(hcell c hc hc').2.2, (hcell c hc hc').2.1⟩
  · have hlast := h.cells (a - m - 1) le_rfl (by omega)
    have hlow : e ≤ a - m - 1 := (min_eq_right hdir.le).symm.trans_le h.between.1
    have hshort := h.short
    rcases hstop with hstop | hstop
    · omega
    · rw [show a + -1 * ((m : ℤ) + 1) = a - m - 1 by omega] at hstop
      exact hstop ⟨by simpa using hlow, hlast.2, hlast.1⟩

end

/-- **The selection is allowed**, and cannot be extended. -/
theorem effectiveDragSpan_spec {slots : List CalendarSlot} {minReservableCol : ℤ} {range : DragRange}
    (hopen : isOpen slots range.startCol = true) (hmin : minReservableCol ≤ range.startCol) :
    let span := effectiveDragSpan range slots minReservableCol
    AllowedSpan slots minReservableCol range span.1 span.2 ∧
      (range.startCol ≤ range.endCol → ¬AllowedSpan slots minReservableCol range span.1 (span.2 + 1)) ∧
      (range.endCol ≤ range.startCol → ¬AllowedSpan slots minReservableCol range (span.1 - 1) span.2) := by
  obtain ⟨a, e⟩ := range
  by_cases hdir : a ≤ e
  · obtain ⟨m, hspan, hallowed, hmax⟩ := effectiveDragSpan_right hopen hmin hdir
    rw [hspan]
    refine ⟨hallowed, fun _ => hmax, fun h h' => ?_⟩
    have hlow := h'.between.1
    dsimp only at hlow h
    omega
  · obtain ⟨m, hspan, hallowed, hmax⟩ := effectiveDragSpan_left hopen hmin (not_le.1 hdir)
    rw [hspan]
    exact ⟨hallowed, fun h => absurd h hdir, fun _ => hmax⟩

/-! ## The booking -/

/-- A printed time of full seconds is the one it was read from. -/
theorem instant_toIsoWithOffset {iso : DateTime} (h : secondUs ∣ iso.instant) (minutes : ℤ) :
    (toIsoWithOffset (addMinutes (newDate iso) minutes)).instant = iso.instant + minutes * minuteUs := by
  simp only [toIsoWithOffset, addMinutes, newDate, kst]
  simp only [DateTime.instant, Option.getD_some, hourMs, secondMs, minuteMs, minuteUs, secondUs] at *
  omega

theorem addMinutes_zero (date : ℤ) : addMinutes date 0 = date := by simp [addMinutes]

theorem modalMinutes_span {n : ℤ} (h1 : 1 ≤ n) (h8 : n ≤ 8) :
    modalMinutes (some (n * SLOT_MINUTES)) = n * SLOT_MINUTES := by
  simp only [modalMinutes, roundSlots, Option.getD_some, SLOT_MINUTES, MAX_DURATION_MINUTES]
  omega

theorem roundSlots_span (n : ℤ) : roundSlots (n * SLOT_MINUTES) = n := by
  simp only [roundSlots, SLOT_MINUTES]
  omega

namespace SlotRow
variable (row : SlotRow)

/-- The starts of a row, cell by cell. -/
theorem startsAt_add {i : ℕ} {s : CalendarSlot} (hs : row.slots[i]? = some s) : ∀ {k : ℕ} {s' : CalendarSlot},
    row.slots[i + k]? = some s' → s'.startsAt.instant = s.startsAt.instant + k * (SLOT_MINUTES * minuteUs)
  | 0, s', hs' => by
    rw [Nat.add_zero, hs] at hs'
    simp [Option.some.inj hs']
  | k + 1, s', hs' => by
    obtain ⟨hlt, rfl⟩ := List.getElem?_eq_some_iff.1 hs'
    have hlt' : i + k < row.slots.length := by omega
    have ih := startsAt_add hs (List.getElem?_eq_getElem hlt')
    have hnext := (List.isChain_iff_getElem.1 row.contiguous) (i + k) hlt
    rw [row.length _ (List.getElem_mem hlt'), ih] at hnext
    refine hnext.trans ?_
    push_cast
    simp only [SLOT_MINUTES, minuteUs]
    omega

/-- The first cell with the start of a cell is that cell. -/
theorem findIdx?_startsAt {i : ℕ} {s : CalendarSlot} (hs : row.slots[i]? = some s) :
    row.slots.findIdx? (·.startsAt == s.startsAt) = some i := by
  obtain ⟨hi, rfl⟩ := List.getElem?_eq_some_iff.1 hs
  refine List.findIdx?_eq_some_iff_getElem.2 ⟨hi, by simp, fun j hj => ?_⟩
  have hj' : j < row.slots.length := by omega
  have hi' : row.slots[j + (i - j)]? = some row.slots[i] := by
    rw [Nat.add_sub_cancel' hj.le]
    exact hs
  have h := row.startsAt_add (List.getElem?_eq_getElem hj') hi'
  rw [Bool.not_eq_true, beq_eq_false_iff_ne]
  intro heq
  rw [heq] at h
  simp only [SLOT_MINUTES, minuteUs] at h
  omega

end SlotRow

theorem slotAt_of_isOpen {slots : List CalendarSlot} {c : ℤ} (h : isOpen slots c = true) :
    ∃ s, slotAt slots c = some s ∧ 0 ≤ c ∧ slots[c.toNat]? = some s := by
  obtain ⟨s, hs, -⟩ := (Option.any_eq_true ..).1 h
  unfold slotAt at hs ⊢
  split_ifs at hs ⊢ with hc
  exact ⟨s, hs, hc, hs⟩

/-- **What is selected is what is booked**, and what stays blue. -/
theorem dragSpan_spec (row : SlotRow) {range : DragRange} {minReservableCol : ℤ}
    (hopen : isOpen row.slots range.startCol = true) (hmin : minReservableCol ≤ range.startCol)
    {hosts : List ℤ} (hnd : hosts.Nodup) {r : ℕ} {hostId : ℤ} (hhost : hosts[r]? = some hostId)
    {slotsByHost : ℤ → List CalendarSlot} (hslots : slotsByHost hostId = row.slots) :
    let span := effectiveDragSpan range row.slots minReservableCol
    AllowedSpan row.slots minReservableCol range span.1 span.2 ∧
      (range.startCol ≤ range.endCol → ¬AllowedSpan row.slots minReservableCol range span.1 (span.2 + 1)) ∧
      (range.endCol ≤ range.startCol → ¬AllowedSpan row.slots minReservableCol range (span.1 - 1) span.2) ∧
      ∃ first last cell, slotAt row.slots span.1 = some first ∧ slotAt row.slots span.2 = some last ∧
        onUp hostId range row.slots minReservableCol = some cell ∧
        (submit cell.selected).hostId = hostId ∧
        (submit cell.selected).startsAt.instant = first.startsAt.instant ∧
        (submit cell.selected).endsAt.instant = last.endsAt.instant ∧
        selectedSpan hosts slotsByHost cell.selected.range = some (r, span) := by
  intro span
  obtain ⟨hallowed, hup, hlow⟩ := effectiveDragSpan_spec hopen hmin
  refine ⟨hallowed, hup, hlow, ?_⟩
  change AllowedSpan row.slots minReservableCol range span.1 span.2 at hallowed
  have hle : span.1 ≤ span.2 := hallowed.anchor.1.trans hallowed.anchor.2
  obtain ⟨first, hfirst, hlo, hlo'⟩ := slotAt_of_isOpen (hallowed.cells span.1 le_rfl hle).1
  obtain ⟨last, hlast, hhi, hhi'⟩ := slotAt_of_isOpen (hallowed.cells span.2 hle le_rfl).1
  have hshort : span.2 - span.1 + 1 ≤ 8 := hallowed.short
  have hseconds := row.seconds first (List.mem_of_getElem? hlo')
  have hend : last.endsAt.instant = first.startsAt.instant + (span.2 - span.1 + 1) * SLOT_MINUTES * minuteUs := by
    have hk : span.1.toNat + (span.2 - span.1).toNat = span.2.toNat := by omega
    have h := row.startsAt_add hlo' (hk ▸ hhi')
    rw [row.length last (List.mem_of_getElem? hhi'), h]
    simp only [SLOT_MINUTES, minuteUs]
    omega
  refine ⟨first, last, ⟨hostId, first, false, some ((span.2 - span.1 + 1) * SLOT_MINUTES)⟩, hfirst, hlast, ?_, rfl, ?_,
    ?_, ?_⟩
  · show (slotAt row.slots span.1).map _ = _
    rw [hfirst]
    rfl
  · have h := instant_toIsoWithOffset hseconds 0
    rw [addMinutes_zero] at h
    exact h.trans (by simp)
  · refine (instant_toIsoWithOffset hseconds _).trans ?_
    rw [CalendarCell.selected, modalMinutes_span (by omega) hshort, hend]
  · have hrow : hosts.findIdx? (· == hostId) = some r := by
      obtain ⟨hr, rfl⟩ := List.getElem?_eq_some_iff.1 hhost
      refine List.findIdx?_eq_some_iff_getElem.2 ⟨hr, by simp, fun j hj => ?_⟩
      simpa using fun h => hj.ne ((List.Nodup.getElem_inj_iff hnd).1 h)
    simp only [selectedSpan, CalendarCell.selected, SelectedCell.range, Option.getD_some, hslots, hrow,
      row.findIdx?_startsAt hlo', roundSlots_span]
    rw [Int.toNat_of_nonneg hlo]
    refine congrArg some (congrArg (Prod.mk r) (Prod.ext rfl ?_))
    dsimp only
    omega

/-- Two open cells and an occupied one. -/
def shortRow : SlotRow where
  slots := [⟨.utc 0, .utc (30 * minuteUs), 1, none, none, .open_⟩,
    ⟨.utc (30 * minuteUs), .utc (60 * minuteUs), 1, none, none, .open_⟩,
    ⟨.utc (60 * minuteUs), .utc (90 * minuteUs), 1, some 1, none, .occupied⟩]
  length := by decide
  contiguous := by decide
  seconds := by decide

/-- A drag to the left books both open cells. -/
theorem dragSpan_spec_short : ∃ cell, onUp 1 ⟨1, 0⟩ shortRow.slots 0 = some cell ∧
    (submit cell.selected).endsAt.instant = 60 * minuteUs ∧
    selectedSpan [1] (fun _ => shortRow.slots) cell.selected.range = some (0, 0, 1) := by
  obtain ⟨-, -, -, first, last, cell, -, hlast, hup, -, -, hend, hspan⟩ := @dragSpan_spec shortRow ⟨1, 0⟩ 0
    (by decide) (by decide) [1] (by decide) 0 1 rfl (fun _ => shortRow.slots) rfl
  obtain rfl : _ = last := Option.some.inj hlast
  exact ⟨cell, hup, hend, hspan⟩

end SmartClassroom
