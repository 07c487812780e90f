/-
  `lib/time.ts`, and the calendar window of `CalendarPage.tsx`.

  A `Date` is its milliseconds since 1970-01-01T00:00Z.  The browser shows it in
  a zone of a fixed offset; KST is UTC+09:00.  `kstStartOfDay` and `kstWindowEnd`
  go through the fields of the browser and convert to KST again: the window they
  give is the selected date and the next iff the browser is not east of KST
  (`calendarWindow_eq_iff`).
-/
import SmartClassroom.Time

namespace SmartClassroom

abbrev secondMs : ℤ := 1000
abbrev minuteMs : ℤ := 60000
abbrev hourMs : ℤ := 3600000
abbrev dayMs : ℤ := 86400000

/-- The offset of `Asia/Seoul`. -/
def kst : ℤ := 9 * hourMs

def SLOT_MINUTES : ℤ := 30

/-- `new Date(iso)`. -/
def newDate (iso : DateTime) : ℤ := iso.instant / 1000

/-- `addMinutes` of date-fns. -/
def addMinutes (date : ℤ) (minutes : ℤ) : ℤ := date + minutes * minuteMs

/-- `formatInTimeZone(date, KST, "yyyy-MM-dd'T'00:00:00XXX")`. -/
def formatKstMidnight (date : ℤ) : DateTime := ⟨(date + kst) / dayMs * dayUs, some 540⟩

/-- `formatInTimeZone(date, KST, "yyyy-MM-dd'T'HH:mm:ssXXX")`. -/
def toIsoWithOffset (date : ℤ) : DateTime := ⟨(date + kst) / secondMs * secondUs, some 540⟩

section
variable (browser : ℤ)

/-- `toZonedTime(date, KST)`: the `Date` whose fields in the browser are those of
    the given one in KST. -/
def toZonedTime (date : ℤ) : ℤ := date + kst - browser

/-- `date.setHours(0, 0, 0, 0)`. -/
def setMidnight (date : ℤ) : ℤ := (date + browser) / dayMs * dayMs - browser

/-- `date.setDate(date.getDate() + days)`. -/
def addDays (date : ℤ) (days : ℤ) : ℤ := (date + browser + days * dayMs) - browser

def kstStartOfDay (date : ℤ) : ℤ :=
  let zoned := setMidnight browser (toZonedTime browser date)
  newDate (formatKstMidnight zoned)

def kstWindowEnd (date : ℤ) (days : ℤ := 2) : ℤ :=
  let zoned := setMidnight browser (toZonedTime browser date)
  let last := addDays browser zoned days
  newDate (formatKstMidnight last)

/-- `Date.UTC` of the selected date, the `day`-th from 1970-01-01 on. -/
def dateUTC (day : ℤ) : ℤ := day * dayMs

/-- `fromIso` and `toIso`. -/
def calendarWindow (day : ℤ) : DateTime × DateTime :=
  (toIsoWithOffset (kstStartOfDay browser (dateUTC day)), toIsoWithOffset (kstWindowEnd browser (dateUTC day)))

end

/-- The beginning of a date in KST. -/
def kstMidnight (day : ℤ) : DateTime := ⟨day * dayUs, some 540⟩

section
variable {browser : ℤ}

theorem setMidnight_toZonedTime (day : ℤ) : setMidnight browser (toZonedTime browser (dateUTC day)) =
    day * dayMs - browser := by
  simp only [setMidnight, toZonedTime, dateUTC, kst, dayMs, hourMs]
  omega

/-- A date of the fields of KST, read again in KST. -/
theorem toIso_formatKstMidnight (day : ℤ) : toIsoWithOffset (newDate (formatKstMidnight (day * dayMs - browser))) =
    kstMidnight (day + (kst - browser) / dayMs) := by
  simp only [toIsoWithOffset, newDate, formatKstMidnight, kstMidnight, DateTime.instant, kst, dayMs, hourMs, dayUs,
    secondMs, secondUs, minuteUs, Option.getD_some, DateTime.mk.injEq, and_true]
  omega

/-- Both ends of the window are off by the same number of days. -/
theorem calendarWindow_eq (day : ℤ) : calendarWindow browser day =
    (kstMidnight (day + (kst - browser) / dayMs), kstMidnight (day + 2 + (kst - browser) / dayMs)) := by
  have hlast : addDays browser (day * dayMs - browser) 2 = (day + 2) * dayMs - browser := by
    simp only [addDays, dayMs]
    omega
  simp only [calendarWindow, kstStartOfDay, kstWindowEnd, setMidnight_toZonedTime, hlast, toIso_formatKstMidnight]

/-- **The requested window is the selected date and the next** iff the browser is
    not east of KST. -/
theorem calendarWindow_eq_iff (hwest : -12 * hourMs ≤ browser) (heast : browser ≤ 14 * hourMs) (day : ℤ) :
    calendarWindow browser day = (kstMidnight day, kstMidnight (day + 2)) ↔ browser ≤ kst := by
  rw [calendarWindow_eq]
  simp only [kstMidnight, Prod.mk.injEq, DateTime.mk.injEq, and_true, kst, dayMs, hourMs, dayUs] at *
  omega

end

/-- A browser in Seoul. -/
theorem calendarWindow_eq_iff_seoul : calendarWindow kst 20586 = (kstMidnight 20586, kstMidnight 20588) :=
  (calendarWindow_eq_iff (by decide) (by decide) 20586).2 le_rfl

/-- In UTC+10:00 the window begins a day early. -/
theorem calendarWindow_east : calendarWindow (10 * hourMs) 20586 = (kstMidnight 20585, kstMidnight 20587) ∧
    calendarWindow (10 * hourMs) 20586 ≠ (kstMidnight 20586, kstMidnight 20588) := by decide

end SmartClassroom
