/-
  A quota error on its way to the user: `_reservation_quota` of `core/errors.py`,
  `parseApiError` of `lib/errors.ts`, `describeQuota` of `ReservationModal.tsx`.

  The detail of a failed concurrent check has the fields `current` and `max`
  that the modal reads.  That of a failed daily check has `used_minutes` and
  `max_minutes`, so the modal shows placeholders (`shows_iff`).
-/
import SmartClassroom.Serving

namespace SmartClassroom

open Txn Prog

/-! ## The checks of `_validate_quota` -/

inductive QuotaLimit where
  | concurrent
  | dailyMinutes
deriving DecidableEq

/-- A failed check: its usage and its limit. -/
structure Compared where
  limit : QuotaLimit
  usage : ℤ
  max : ℤ
deriving DecidableEq

/-- What the user has used of the day of `s`, in minutes. -/
def usedOfDay (st : Store) (userId : ℤ) (s : DateTime) : ℤ :=
  usedMinutes s.tzinfo (dayStartOf s) (dayStartOf s + dayUs)
    (dayRanges st userId (dayStartOf s).instant (dayStartOf s + dayUs).instant)

/-- The check that fails first. -/
def failedCheck (cfg : Settings) (st : Store) (userId : ℤ) (s e : DateTime) (now : ℤ) :
    Option Compared :=
  let count := st.reservations.countP (Stmt.concurrent userId now)
  if cfg.maxConcurrentReservations ≤ count then
    some ⟨.concurrent, count, cfg.maxConcurrentReservations⟩
  else if cfg.maxReservationHoursPerDay * 60 < usedOfDay st userId s + wholeMinutes (e - s) then
    some ⟨.dailyMinutes, usedOfDay st userId s, cfg.maxReservationHoursPerDay * 60⟩
  else none

/-- The detail of the error, for a booking of `requested` minutes. -/
def Compared.detail (x : Compared) (requested : ℤ) : Detail :=
  match x.limit with
  | .concurrent => [("limit", .str "concurrent"), ("current", .int x.usage), ("max", .int x.max)]
  | .dailyMinutes => [("limit", .str "daily_minutes"), ("used_minutes", .int x.usage),
      ("requested_minutes", .int requested), ("max_minutes", .int x.max)]

section
variable {E : Env ℤ String} {c : Ctx broker}

/-- `_validate_quota` raises the error of the check that fails first. -/
theorem validateQuota_error (cfg : Settings) (user : User) (s e : DateTime) {err : BrokerError}
    (h : ((validateQuota cfg user s e).run E c).1 = .error err) :
    ∃ x message, failedCheck cfg c.view user.id s e (E.now c.reads) = some x ∧
      err = .reservationQuota message (x.detail (wholeMinutes (e - s))) := by
  rw [validateQuota, run_now, run_select rfl] at h
  simp only [Stmt.exec, DateTime.instant_utc, view_reads] at h
  rw [run_raiseIf] at h
  rw [failedCheck]
  by_cases hcount : cfg.maxConcurrentReservations ≤ c.view.reservations.countP
      (Stmt.concurrent user.id (E.now c.reads))
  · rw [if_pos hcount] at h ⊢
    cases h
    exact ⟨_, _, rfl, rfl⟩
  · rw [if_neg hcount, run_select rfl] at h
    simp only [Stmt.exec, view_reads, run_lift, raiseIf] at h
    change (if _ < usedOfDay c.view user.id s + _ then _ else _) = _ at h
    rw [if_neg hcount]
    by_cases hdaily : cfg.maxReservationHoursPerDay * 60 <
        usedOfDay c.view user.id s + wholeMinutes (e - s)
    · rw [if_pos hdaily] at h ⊢
      cases h
      exact ⟨_, _, rfl, rfl⟩
    · rw [if_neg hdaily] at h
      cases h

end

/-! ## `core/errors.py` -/

structure ErrorResponse where
  error : String
  message : String
  requestId : Option String := none
  detail : Option Detail := none

/-- `_reservation_quota`; the other exceptions have handlers of their own. -/
def reservationQuota (requestId : Option String) : BrokerError → Option (ℤ × ErrorResponse)
  | .reservationQuota message detail =>
    some (429, {
      error := "reservation_quota_exceeded"
      message, requestId
      detail := if detail = [] then none else some detail })
  | _ => none

/-! ## `lib/errors.ts` -/

/-- What `parseApiError` tells apart.  A body has the shape of `ApiErrorBody`
    or is not an object with an `error`. -/
inductive Thrown where
  | axios (message : String) (status : Option ℤ) (body : Option ErrorResponse)
  | error (message : String)
  | other

structure ParsedApiError where
  status : Option ℤ := none
  code : String := "unknown_error"
  message : String := "알 수 없는 오류가 발생했습니다"
  requestId : Option String := none
  detail : Option Detail := none

/-- `a || b` of two texts. -/
def orElseText (a b : String) : String := if a = "" then b else a

def parseApiError : Thrown → ParsedApiError
  | .axios message status (some body) => {
      status
      code := orElseText body.error "unknown_error"
      message := orElseText body.message (orElseText message "알 수 없는 오류가 발생했습니다")
      requestId := body.requestId
      detail := body.detail }
  | .axios message status none => {
      status
      message := orElseText message "알 수 없는 오류가 발생했습니다" }
  | .error message => { message }
  | .other => {}

def isReservationQuotaExceeded (parsed : ParsedApiError) : Bool :=
  parsed.status == some 429 && parsed.code == "reservation_quota_exceeded"

/-! ## `ReservationModal.tsx` -/

/-- `typeof detail.key === 'number' ? detail.key : null`. -/
def numberField (detail : Detail) (key : String) : Option ℤ :=
  match detail.lookup key with
  | some (.int n) => some n
  | _ => none

/-- `${n ?? '?'}`. -/
def numberText : Option ℤ → String
  | some n => toString n
  | none => "?"

def describeQuota : Option Detail → String
  | none => "예약 한도를 초과했습니다"
  | some detail =>
    let limit := detail.lookup "limit"
    let current := numberText (numberField detail "current")
    let max := numberText (numberField detail "max")
    if limit = some (.str "daily_minutes") then s!"오늘 누적 {current}분 / 한도 {max}분을 초과합니다"
    else if limit = some (.str "concurrent") then
      s!"현재 활성 예약 {current}건 / 한도 {max}건을 초과합니다"
    else "예약 한도를 초과했습니다"

/-- The toast that `onError` shows for a quota error. -/
def quotaToast (thrown : Thrown) : Option String :=
  let parsed := parseApiError thrown
  if isReservationQuotaExceeded parsed then some (describeQuota parsed.detail) else none

/-- What the user sees of an exception of the broker. -/
def shownText (requestId : Option String) (axiosMessage : String) (err : BrokerError) : Option String :=
  (reservationQuota requestId err).bind fun (status, body) =>
    quotaToast (.axios axiosMessage (some status) (some body))

/-! ## The whole way -/

/-- The text contains both numbers of the failed check, and no placeholder. -/
structure Shows (text : String) (x : Compared) : Prop where
  usage : (toString x.usage).toList <:+: text.toList
  max : (toString x.max).toList <:+: text.toList
  plain : '?' ∉ text.toList

theorem question_not_mem_toString (n : ℤ) : '?' ∉ (toString n).toList := by
  have hdigits : ∀ m : ℕ, '?' ∉ (Nat.repr m).toList := by
    intro m h
    rw [Nat.toList_repr] at h
    have := Nat.isDigit_of_mem_toDigits (by decide) (by decide) h
    exact absurd this (by decide)
  rw [Int.toString_eq_repr, Int.repr_eq_if]
  split_ifs
  · exact hdigits _
  · simpa using hdigits _

theorem describeQuota_concurrent (usage max requested : ℤ) :
    describeQuota (some ((⟨.concurrent, usage, max⟩ : Compared).detail requested)) =
      s!"현재 활성 예약 {toString usage}건 / 한도 {toString max}건을 초과합니다" := rfl

theorem describeQuota_daily (usage max requested : ℤ) :
    describeQuota (some ((⟨.dailyMinutes, usage, max⟩ : Compared).detail requested)) =
      "오늘 누적 ?분 / 한도 ?분을 초과합니다" := rfl

/-- The text of one check: `current` and `max` are the fields of the other. -/
theorem shows_iff (x : Compared) (requested : ℤ) :
    Shows (describeQuota (some (x.detail requested))) x ↔ x.limit = .concurrent := by
  obtain ⟨limit, usage, max⟩ := x
  cases limit with
  | concurrent =>
    rw [describeQuota_concurrent]
    have hlist : ∀ u m : String, (s!"현재 활성 예약 {u}건 / 한도 {m}건을 초과합니다").toList =
        "현재 활성 예약 ".toList ++ (u.toList ++ ("건 / 한도 ".toList ++ (m.toList ++
          "건을 초과합니다".toList))) := by
      intro u m
      simp only [String.toList_append, List.append_assoc]
      rfl
    refine iff_of_true ⟨?_, ?_, ?_⟩ rfl
    · rw [hlist]
      exact ⟨_, _, by rw [List.append_assoc]⟩
    · rw [hlist]
      exact ⟨"현재 활성 예약 ".toList ++ (toString usage).toList ++ "건 / 한도 ".toList,
        "건을 초과합니다".toList, by simp only [List.append_assoc]⟩
    · rw [hlist]
      have husage := question_not_mem_toString usage
      have hmax := question_not_mem_toString max
      simp only [List.mem_append, husage, hmax]
      decide
  | dailyMinutes =>
    rw [describeQuota_daily]
    exact iff_of_false (fun h => h.plain (by decide)) (by simp)

/-- **A quota error shows its numbers** iff the concurrent limit is the one
    exceeded. -/
theorem quotaToast_shows_iff (cfg : Settings) (user : User) (s e : DateTime) (E : Env ℤ String)
    (c : Ctx broker) (requestId : Option String) (axiosMessage : String) (err : BrokerError)
    (h : ((validateQuota cfg user s e).run E c).1 = .error err) :
    ∃ x text, failedCheck cfg c.view user.id s e (E.now c.reads) = some x ∧
      shownText requestId axiosMessage err = some text ∧
      (Shows text x ↔ cfg.maxConcurrentReservations ≤
        c.view.reservations.countP (Stmt.concurrent user.id (E.now c.reads))) := by
  obtain ⟨x, message, hx, rfl⟩ := validateQuota_error cfg user s e h
  refine ⟨x, describeQuota (some (x.detail (wholeMinutes (e - s)))), hx, ?_, ?_⟩
  · have hdetail : x.detail (wholeMinutes (e - s)) ≠ [] := by
      obtain ⟨_ | _, usage, max⟩ := x <;> exact List.cons_ne_nil _ _
    simp [shownText, reservationQuota, quotaToast, parseApiError, isReservationQuotaExceeded,
      orElseText, hdetail]
  · rw [shows_iff]
    rw [failedCheck] at hx
    split_ifs at hx with hcount hdaily
    · exact iff_of_true (by cases hx; rfl) hcount
    · exact iff_of_false (by cases hx; simp) hcount

/-! ### A student at each limit -/

def quotaUser : User := ⟨7, .user, "local"⟩

/-- Two bookings of four hours each. -/
def fullDay : Store where
  reservations := [
    Stmt.newReservation 1 7 1 ⟨0, 4 * hourUs, by decide⟩ 0,
    Stmt.newReservation 2 7 1 ⟨4 * hourUs, 8 * hourUs, by decide⟩ 0]

/-- The student asks for another half hour of the day, at midnight. -/
def quotaRun (cfg : Settings) : Except BrokerError Unit :=
  ((validateQuota cfg quotaUser (.utc (8 * hourUs)) (.utc (8 * hourUs + 30 * minuteUs))).run
    ⟨0, fun _ => 0, fun _ => ""⟩ ⟨fullDay, [], {}, 0, 0⟩).1

/-- With room for two bookings only, the modal shows both numbers. -/
theorem quotaToast_shows_iff_two : ∃ err, quotaRun { maxConcurrentReservations := 2 } = .error err ∧
    ∃ x text, failedCheck { maxConcurrentReservations := 2 } fullDay 7 (.utc (8 * hourUs))
        (.utc (8 * hourUs + 30 * minuteUs)) 0 = some x ∧
      shownText none "" err = some text ∧ (Shows text x ↔ 2 ≤ 2) :=
  ⟨_, rfl, quotaToast_shows_iff { maxConcurrentReservations := 2 } quotaUser _ _
    ⟨0, fun _ => 0, fun _ => ""⟩ ⟨fullDay, [], {}, 0, 0⟩ none "" _ rfl⟩

/-- With the default settings it shows none: eight hours are used up. -/
theorem not_quotaToast_shows : ∃ err x text, quotaRun {} = .error err ∧
    failedCheck {} fullDay 7 (.utc (8 * hourUs)) (.utc (8 * hourUs + 30 * minuteUs)) 0 = some x ∧
    shownText none "" err = some text ∧ text = "오늘 누적 ?분 / 한도 ?분을 초과합니다" ∧ ¬Shows text x :=
  ⟨_, ⟨.dailyMinutes, 480, 480⟩, _, rfl, by decide, rfl, rfl, fun h => h.plain (by decide)⟩

end SmartClassroom
