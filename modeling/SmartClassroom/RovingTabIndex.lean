/-
  Keyboard focus in the calendar grid: `hooks/useRovingTabIndex.ts` and the cells
  of `CalendarGrid.tsx`.

  The hook keeps a position; the cell there is the one with tab index 0.  It is
  clamped to the grid when a key is pressed, and never when the grid changes.

  * `Leads`: the cell that a key should lead to, from the rows of the grid alone.
  * `keyboardReachable_iff`: a run keeps the grid reachable iff its keys lead to
    cells that take focus, and each change leaves such a cell where the last key
    has led.
-/
import SmartClassroom.DragSelection

namespace SmartClassroom

/-! ## `useRovingTabIndex.ts` -/

structure RovingPosition where
  row : ℤ
  col : ℤ
deriving DecidableEq

/-- `event.key`, as far as the hook tells keys apart. -/
inductive Key where
  | arrowRight
  | arrowLeft
  | arrowDown
  | arrowUp
  | home
  | end_
  | pageUp
  | pageDown
  | other
deriving DecidableEq

def clamp (rowCount colCount : ℤ) (pos : RovingPosition) : RovingPosition where
  row := max 0 (min (rowCount - 1) pos.row)
  col := max 0 (min (colCount - 1) pos.col)

/-- `next` of `onKeyDown`, in the cell `(row, col)`. -/
def nextPosition (rowCount colCount : ℤ) (row col : ℤ) : Key → Option RovingPosition
  | .arrowRight => some (clamp rowCount colCount ⟨row, col + 1⟩)
  | .arrowLeft => some (clamp rowCount colCount ⟨row, col - 1⟩)
  | .arrowDown => some (clamp rowCount colCount ⟨row + 1, col⟩)
  | .arrowUp => some (clamp rowCount colCount ⟨row - 1, col⟩)
  | .home => some (clamp rowCount colCount ⟨row, 0⟩)
  | .end_ => some (clamp rowCount colCount ⟨row, colCount - 1⟩)
  | .pageUp => some (clamp rowCount colCount ⟨0, col⟩)
  | .pageDown => some (clamp rowCount colCount ⟨rowCount - 1, col⟩)
  | .other => none

/-! ## `CalendarGrid.tsx` -/

/-- The slots of each visible host, and the user. -/
structure GridProps where
  rows : List (List CalendarSlot)
  currentUserId : Option ℤ

namespace GridProps
variable (props : GridProps)

def rowCount : ℤ := props.rows.length

/-- The columns are those of the first host. -/
def colCount : ℤ := (props.rows.head?.getD []).length

/-- The slot of a cell that is rendered: without hosts or columns there is none. -/
def cell? (pos : RovingPosition) : Option CalendarSlot :=
  if props.rowCount = 0 ∨ props.colCount = 0 ∨ pos.row < 0 then none
  else props.rows[pos.row.toNat]?.bind (slotAt · pos.col)

/-- The cell of another user's reservation is disabled. -/
def disabled (slot : CalendarSlot) : Bool :=
  slot.status == .occupied && !(slot.userId.isSome && slot.userId == props.currentUserId)

/-- The cell is rendered and takes focus. -/
def takesFocus (pos : RovingPosition) : Bool := (props.cell? pos).any fun slot => !props.disabled slot

end GridProps

structure GridState where
  focused : RovingPosition
  props : GridProps

/-- A key is pressed in a cell, or the grid is rendered with other props. -/
inductive GridStep where
  | key (key : Key) (row col : ℤ)
  | change (props : GridProps)

namespace GridState

/-- The grid is mounted. -/
def mount (props : GridProps) : GridState := ⟨⟨0, 0⟩, props⟩

variable (s : GridState)

/-- `onKeyDown`, with the counts that `CalendarGrid` gives the hook. -/
def onKeyDown (key : Key) (row col : ℤ) : Option RovingPosition :=
  nextPosition (max s.props.rowCount 1) (max s.props.colCount 1) row col key

def next : GridStep → GridState
  | .key key row col => { s with focused := (s.onKeyDown key row col).getD s.focused }
  | .change props => { s with props }

def run (steps : List GridStep) : GridState := steps.foldl next s

def tabIndex (pos : RovingPosition) : ℤ := if s.focused = pos then 0 else -1

/-- Exactly one rendered cell has the tab index 0, and it takes focus. -/
def KeyboardReachable : Prop :=
  ∃ pos slot, s.props.cell? pos = some slot ∧ s.tabIndex pos = 0 ∧ s.props.disabled slot = false ∧
    ∀ pos' slot', s.props.cell? pos' = some slot' → s.tabIndex pos' = 0 → pos' = pos

theorem tabIndex_eq_zero {pos : RovingPosition} : s.tabIndex pos = 0 ↔ s.focused = pos := by
  simp [tabIndex]

theorem keyboardReachable_iff_takesFocus : s.KeyboardReachable ↔ s.props.takesFocus s.focused = true := by
  simp only [KeyboardReachable, tabIndex_eq_zero, GridProps.takesFocus, Option.any_eq_true]
  constructor
  · rintro ⟨pos, slot, hcell, rfl, hen, -⟩
    exact ⟨slot, hcell, by simp [hen]⟩
  · rintro ⟨slot, hcell, hen⟩
    exact ⟨s.focused, slot, hcell, rfl, by simpa using hen, fun _ _ _ h => h.symm⟩

end GridState

/-! ## Where the keys lead -/

namespace GridProps
variable (props : GridProps)

/-- The rows and columns of the grid. -/
def Within (pos : RovingPosition) : Prop :=
  (0 ≤ pos.row ∧ pos.row < props.rowCount) ∧ 0 ≤ pos.col ∧ pos.col < props.colCount

/-- What a key points to from a cell: a neighbour, which may lie outside the grid,
    or an end of the row or the column. -/
def points (row col : ℤ) : Key → Option RovingPosition
  | .arrowRight => some ⟨row, col + 1⟩
  | .arrowLeft => some ⟨row, col - 1⟩
  | .arrowDown => some ⟨row + 1, col⟩
  | .arrowUp => some ⟨row - 1, col⟩
  | .home => some ⟨row, 0⟩
  | .end_ => some ⟨row, props.colCount - 1⟩
  | .pageUp => some ⟨0, col⟩
  | .pageDown => some ⟨props.rowCount - 1, col⟩
  | .other => none

/-- The steps from one position to another. -/
def distance (pos pos' : RovingPosition) : ℕ := (pos.row - pos'.row).natAbs + (pos.col - pos'.col).natAbs

/-- The position of the grid that is nearest to `pos`. -/
def Nearest (pos target : RovingPosition) : Prop :=
  props.Within target ∧ ∀ pos', props.Within pos' → distance pos target ≤ distance pos pos'

/-- From `pos` on, every key leads to a cell that takes focus, and every change of
    the grid leaves such a cell where the last key has led. -/
def Leads (props : GridProps) (pos : RovingPosition) : List GridStep → Prop
  | [] => True
  | .change props' :: steps => props'.takesFocus pos = true ∧ Leads props' pos steps
  | .key key row col :: steps =>
    match props.points row col key with
    | none => Leads props pos steps
    | some pointed => ∃ target, props.Nearest pointed target ∧ props.takesFocus target = true ∧ Leads props target steps

variable {props}

/-- A grid with a cell has rows and columns. -/
theorem counts_pos {pos : RovingPosition} (h : props.takesFocus pos = true) : 1 ≤ props.rowCount ∧ 1 ≤ props.colCount := by
  obtain ⟨slot, hcell, -⟩ := (Option.any_eq_true _ _).1 h
  unfold cell? at hcell
  split_ifs at hcell with hempty
  have hrow : 0 ≤ props.rowCount := Int.natCast_nonneg _
  have hcol : 0 ≤ props.colCount := Int.natCast_nonneg _
  omega

/-- `clamp` is what brings a position to the grid. -/
theorem nearest_iff (hrow : 1 ≤ props.rowCount) (hcol : 1 ≤ props.colCount) {pos target : RovingPosition} :
    props.Nearest pos target ↔ target = clamp props.rowCount props.colCount pos := by
  have hwithin : props.Within (clamp props.rowCount props.colCount pos) := by
    simp only [Within, clamp]
    omega
  have hleast {pos' : RovingPosition} (h : props.Within pos') :
      distance pos (clamp props.rowCount props.colCount pos) ≤ distance pos pos' := by
    simp only [Within, distance, clamp] at *
    omega
  constructor
  · rintro ⟨htarget, hle⟩
    have heq := hle _ hwithin
    obtain ⟨row, col⟩ := target
    simp only [Within, distance, clamp, RovingPosition.mk.injEq] at *
    omega
  · rintro rfl
    exact ⟨hwithin, fun pos' => hleast⟩

end GridProps

namespace GridState
variable (s : GridState)

/-- The hook leads to the nearest position. -/
theorem onKeyDown_eq (hrow : 1 ≤ s.props.rowCount) (hcol : 1 ≤ s.props.colCount) (key : Key) (row col : ℤ) :
    s.onKeyDown key row col = (s.props.points row col key).map (clamp s.props.rowCount s.props.colCount) := by
  rw [onKeyDown, max_eq_left hrow, max_eq_left hcol]
  cases key <;> rfl

/-- The states of a run are those of its first step, and those of the rest. -/
theorem forall_prefix_cons {P : GridState → Prop} {step : GridStep} {steps : List GridStep} :
    (∀ pre, pre <+: step :: steps → P (s.run pre)) ↔ P s ∧ ∀ pre, pre <+: steps → P ((s.next step).run pre) := by
  constructor
  · intro hall
    exact ⟨hall [] List.nil_prefix, fun pre hpre => hall (step :: pre) (List.cons_prefix_cons.2 ⟨rfl, hpre⟩)⟩
  · rintro ⟨h, hall⟩ pre hpre
    cases pre with
    | nil => exact h
    | cons step' pre =>
      obtain ⟨rfl, hpre'⟩ := List.cons_prefix_cons.1 hpre
      exact hall pre hpre'

/-- A run, from a state on. -/
theorem leads_iff : ∀ {steps : List GridStep} {s : GridState}, s.KeyboardReachable →
    ((∀ pre, pre <+: steps → (s.run pre).KeyboardReachable) ↔ s.props.Leads s.focused steps)
  | [], s, h => by simpa [GridProps.Leads, run] using h
  | .change props :: steps, s, h => by
    have hnext : (s.next (.change props)).KeyboardReachable ↔ props.takesFocus s.focused = true :=
      keyboardReachable_iff_takesFocus _
    rw [forall_prefix_cons, and_iff_right h, GridProps.Leads]
    constructor
    · intro hall
      have hreach := hall [] List.nil_prefix
      exact ⟨hnext.1 hreach, (leads_iff hreach).1 hall⟩
    · rintro ⟨hfocus, hleads⟩
      exact (leads_iff (hnext.2 hfocus)).2 hleads
  | .key key row col :: steps, s, h => by
    obtain ⟨hrow, hcol⟩ := GridProps.counts_pos ((keyboardReachable_iff_takesFocus s).1 h)
    have hkey := s.onKeyDown_eq hrow hcol key row col
    rw [forall_prefix_cons, and_iff_right h, GridProps.Leads]
    cases hpoint : s.props.points row col key with
    | none =>
      have hstay : s.next (.key key row col) = s := by simp [next, hkey, hpoint]
      rw [hstay]
      exact leads_iff h
    | some pointed =>
      -- the press moves the focus to the clamped position, which is the nearest one
      have hmove : s.next (.key key row col) = ⟨clamp s.props.rowCount s.props.colCount pointed, s.props⟩ := by
        simp [next, hkey, hpoint]
      have hnext := keyboardReachable_iff_takesFocus ⟨clamp s.props.rowCount s.props.colCount pointed, s.props⟩
      simp only [hmove, GridProps.nearest_iff hrow hcol, exists_eq_left]
      constructor
      · intro hall
        have hreach := hall [] List.nil_prefix
        exact ⟨hnext.1 hreach, (leads_iff hreach).1 hall⟩
      · rintro ⟨hfocus, hleads⟩
        exact (leads_iff (hnext.2 hfocus)).2 hleads

/-- **The grid is reachable by keyboard throughout a run** iff its first cell
    takes focus when it is mounted, its keys lead to cells that do, and each change
    leaves such a cell where the last key has led. -/
theorem keyboardReachable_iff (props : GridProps) (steps : List GridStep) :
    (∀ pre, pre <+: steps → ((mount props).run pre).KeyboardReachable) ↔
      props.takesFocus ⟨0, 0⟩ = true ∧ props.Leads ⟨0, 0⟩ steps := by
  have hmount : (mount props).KeyboardReachable ↔ props.takesFocus ⟨0, 0⟩ = true :=
    keyboardReachable_iff_takesFocus _
  constructor
  · intro hall
    have h := hall [] List.nil_prefix
    exact ⟨hmount.1 h, (leads_iff h).1 hall⟩
  · rintro ⟨h, hleads⟩
    exact (leads_iff (hmount.2 h)).2 hleads

end GridState

/-- A grid of two hosts with an open slot each, and the first host alone. -/
def twoHosts : GridProps := ⟨[shortRow.slots.take 1, shortRow.slots.take 1], none⟩
def oneHost : GridProps := ⟨[shortRow.slots.take 1], none⟩

/-- A key moves to the second row; then the second host is filtered out. -/
theorem not_keyboardReachable : twoHosts.takesFocus ⟨0, 0⟩ = true ∧ oneHost.takesFocus ⟨0, 0⟩ = true ∧
    ¬((GridState.mount twoHosts).run [.key .arrowDown 0 0, .change oneHost]).KeyboardReachable := by
  rw [GridState.keyboardReachable_iff_takesFocus]
  decide

end SmartClassroom
