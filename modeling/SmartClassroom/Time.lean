/-
  `datetime` values as the broker uses them.

  A datetime is a local time in microseconds with a UTC offset in whole
  minutes, or without one (naive).  Aware datetimes are ordered and subtracted
  as instants; `replace` changes local fields and keeps the offset.  The
  database returns instants, as datetimes in UTC.
-/
import Mathlib.Data.Nat.Notation
import Mathlib.Data.Int.Notation
import Mathlib.Order.Lattice
import Mathlib.Algebra.Order.Group.Unbundled.Int

namespace SmartClassroom

/-! ## Durations, in microseconds -/

abbrev secondUs : ℤ := 1000000
abbrev minuteUs : ℤ := 60000000
abbrev hourUs : ℤ := 3600000000
abbrev dayUs : ℤ := 86400000000

theorem hourUs_nonneg : 0 ≤ hourUs := by decide

/-- `int(delta.total_seconds() // 60)`. -/
def wholeMinutes (delta : ℤ) : ℤ := delta / minuteUs

structure DateTime where
  /-- the local time, from 1970-01-01T00:00 on -/
  wall : ℤ
  /-- the UTC offset in minutes -/
  tzinfo : Option ℤ
deriving DecidableEq, Repr

namespace DateTime

/-- `datetime.fromtimestamp(i, UTC)`. -/
def utc (i : ℤ) : DateTime := ⟨i, some 0⟩

/-- The instant of an aware datetime; a naive one is read as UTC, the time zone
    of the database session. -/
def instant (d : DateTime) : ℤ := d.wall - d.tzinfo.getD 0 * minuteUs

instance : LT DateTime := ⟨fun a b => a.instant < b.instant⟩
instance : LE DateTime := ⟨fun a b => a.instant ≤ b.instant⟩
instance (a b : DateTime) : Decidable (a < b) := inferInstanceAs (Decidable (a.instant < b.instant))
instance (a b : DateTime) : Decidable (a ≤ b) := inferInstanceAs (Decidable (a.instant ≤ b.instant))

instance : HAdd DateTime ℤ DateTime := ⟨fun d delta => { d with wall := d.wall + delta }⟩
instance : HSub DateTime ℤ DateTime := ⟨fun d delta => { d with wall := d.wall - delta }⟩
instance : HSub DateTime DateTime ℤ := ⟨fun a b => a.instant - b.instant⟩

theorem lt_iff {a b : DateTime} : a < b ↔ a.instant < b.instant := Iff.rfl
theorem le_iff {a b : DateTime} : a ≤ b ↔ a.instant ≤ b.instant := Iff.rfl
theorem not_lt_iff {a b : DateTime} : ¬a < b ↔ b ≤ a := Int.not_lt
theorem not_le_iff {a b : DateTime} : ¬a ≤ b ↔ b < a := Int.not_le
theorem sub_def (a b : DateTime) : a - b = a.instant - b.instant := rfl

@[simp] theorem instant_utc (i : ℤ) : (utc i).instant = i := by simp [utc, instant]

@[simp] theorem instant_add (d : DateTime) (delta : ℤ) : (d + delta).instant = d.instant + delta :=
  add_sub_right_comm d.wall delta _

@[simp] theorem instant_sub (d : DateTime) (delta : ℤ) : (d - delta).instant = d.instant - delta :=
  sub_right_comm d.wall delta _

/-! ## Fields -/

def hour (d : DateTime) : ℤ := d.wall / hourUs % 24
def minute (d : DateTime) : ℤ := d.wall / minuteUs % 60
def second (d : DateTime) : ℤ := d.wall / secondUs % 60
def microsecond (d : DateTime) : ℤ := d.wall % secondUs

/-- `d.replace(hour, minute, second, microsecond)`. -/
def replace (d : DateTime) (hour minute second microsecond : ℤ) : DateTime :=
  { d with wall := d.wall / dayUs * dayUs + hour * hourUs + minute * minuteUs +
      second * secondUs + microsecond }

/-- `d.replace(tzinfo=tz)` where `d` is naive. -/
def orTz (d : DateTime) (tz : Option ℤ) : DateTime :=
  if d.tzinfo = none then { d with tzinfo := tz } else d

/-- Python's `max`, which keeps the first of two equal values. -/
def max (a b : DateTime) : DateTime := if a < b then b else a

/-- Python's `min`, which keeps the first of two equal values. -/
def min (a b : DateTime) : DateTime := if b < a then b else a

@[simp] theorem orTz_utc (i : ℤ) (tz : Option ℤ) : (utc i).orTz tz = utc i := rfl

@[simp] theorem instant_max (a b : DateTime) :
    (a.max b).instant = Max.max a.instant b.instant := by
  rw [max]
  split_ifs with h
  · exact (max_eq_right (lt_iff.mp h).le).symm
  · exact (max_eq_left (not_lt.mp h)).symm

@[simp] theorem instant_min (a b : DateTime) :
    (a.min b).instant = Min.min a.instant b.instant := by
  rw [min]
  split_ifs with h
  · exact (min_eq_right (lt_iff.mp h).le).symm
  · exact (min_eq_left (not_lt.mp h)).symm

/-- The instant of local midnight. -/
theorem instant_replace_midnight (d : DateTime) :
    (d.replace 0 0 0 0).instant = d.instant - d.wall % dayUs := by
  simp only [replace, instant, dayUs, hourUs, minuteUs, secondUs]
  omega

/-- Without its microseconds. -/
theorem wall_replace_microsecond (d : DateTime) :
    (d.replace d.hour d.minute d.second 0).wall = d.wall - d.wall % secondUs := by
  simp only [replace, hour, minute, second, dayUs, hourUs, minuteUs, secondUs]
  omega

/-- The full minute `m` of the hour of `d`. -/
theorem wall_replace_minute (d : DateTime) (m : ℤ) :
    (d.replace d.hour m 0 0).wall = d.wall - d.wall % hourUs + m * minuteUs := by
  simp only [replace, hour, dayUs, hourUs, minuteUs, secondUs]
  omega

end DateTime

end SmartClassroom
