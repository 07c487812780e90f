/-
  The pure parts of the services: when the checks of `_validate_window` and of
  `issue_connect_token` pass, what `_instant_window` computes
  (`instantWindow_spec`), and what the loop of `_validate_quota` sums up.
-/
import Mathlib.Algebra.Ring.Int.Defs
import Mathlib.Order.Bounds.Defs
import SmartClassroom.TokenService

namespace SmartClassroom

/-! ## Checks -/

@[simp] theorem raiseIf_eq_ok {c : Prop} [Decidable c] {e : BrokerError} {u : Unit} :
    raiseIf c e = .ok u ↔ ¬c := by
  unfold raiseIf
  split_ifs with h <;> simp [h]

theorem bind_eq_ok {α β : Type} {x : Except BrokerError α} {f : α → Except BrokerError β} {b : β} :
    (x >>= f) = .ok b ↔ ∃ a, x = .ok a ∧ f a = .ok b := by
  cases x with
  | error e => exact ⟨nofun, nofun⟩
  | ok a => exact ⟨fun h => ⟨a, rfl, h⟩, fun ⟨_, h, h'⟩ => Except.ok.inj h ▸ h'⟩

theorem raiseIf_eq_error {c : Prop} [Decidable c] {e e' : BrokerError} :
    raiseIf c e = .error e' ↔ c ∧ e = e' := by
  unfold raiseIf
  split_ifs with h <;> simp [h]

theorem bind_eq_error {α β : Type} {x : Except BrokerError α} {f : α → Except BrokerError β}
    {e : BrokerError} :
    (x >>= f) = .error e ↔ x = .error e ∨ ∃ a, x = .ok a ∧ f a = .error e := by
  cases x with
  | error e' =>
    refine ⟨fun h => .inl (congrArg _ (Except.error.inj h)), ?_⟩
    rintro (h | ⟨_, h, -⟩) <;> cases h
    rfl
  | ok a =>
    refine ⟨fun h => .inr ⟨a, rfl, h⟩, ?_⟩
    rintro (h | ⟨_, h, h'⟩) <;> cases h
    exact h'

/-- The datetime is aware and on the grid of `slot` minutes. -/
def Aligned (slot : ℕ) (d : DateTime) : Prop := isGridAligned d slot = .ok true

instance (slot : ℕ) (d : DateTime) : Decidable (Aligned slot d) :=
  inferInstanceAs (Decidable (_ = _))

theorem Aligned.aware {slot : ℕ} {d : DateTime} (h : Aligned slot d) : d.tzinfo ≠ none := by
  intro hd
  simp [Aligned, isGridAligned, hd] at h

theorem aligned_iff {d : DateTime} (hd : d.tzinfo ≠ none) :
    Aligned 30 d ↔ (d.minute = 0 ∨ d.minute = 30) ∧ d.second = 0 ∧ d.microsecond = 0 := by
  simp [Aligned, isGridAligned, hd]

theorem validateShape_eq_ok {cfg : Settings} {s e : DateTime} {u : Unit} :
    validateShape cfg s e = .ok u ↔
      Aligned cfg.reservationSlotMinutes s ∧ Aligned cfg.reservationSlotMinutes e ∧ s < e ∧
        e - s ≤ (cfg.maxReservationDurationMinutes : ℤ) * minuteUs := by
  simp only [validateShape, bind_eq_ok, raiseIf_eq_ok, exists_const, not_lt, not_or,
    Bool.not_eq_false, DateTime.not_le_iff]
  constructor
  · rintro ⟨-, _, hs, rfl, _, he, rfl, hlt, hd⟩
    exact ⟨hs, he, hlt, hd⟩
  · rintro ⟨hs, he, hlt, hd⟩
    exact ⟨⟨hs.aware, he.aware⟩, true, hs, rfl, true, he, rfl, hlt, hd⟩

theorem validateStart_eq_ok {cfg : Settings} {s now : DateTime} {u : Unit} :
    validateStart cfg s now = .ok u ↔
      now ≤ s ∧ s ≤ now + (cfg.reservationLookaheadDays : ℤ) * dayUs := by
  simp only [validateStart, bind_eq_ok, raiseIf_eq_ok, exists_const, DateTime.not_lt_iff]

/-- Offsets are whole minutes, so the grid is one of instants. -/
theorem Aligned.minute_dvd {slot : ℕ} {d : DateTime} (h : Aligned slot d) :
    minuteUs ∣ d.instant := by
  have hf : d.second = 0 ∧ d.microsecond = 0 := by
    simp only [Aligned, isGridAligned] at h
    split_ifs at h <;> simp_all
  simp only [DateTime.second, DateTime.microsecond, secondUs] at hf
  simp only [DateTime.instant, minuteUs]
  omega

/-! ## The gate of connect tokens -/

theorem assertCanAccess_eq_ok {r : Reservation} {user : User} {u : Unit} :
    assertCanAccess r user = .ok u ↔ user.role = .admin ∨ r.userId = user.id := by
  unfold assertCanAccess
  split_ifs with h1 h2 <;> simp [*]

theorem reservationBounds_eq_ok {r : Reservation} {bounds : DateTime × DateTime} :
    reservationBounds r = .ok bounds ↔ r.timeRange.lower < r.timeRange.upper ∧
      bounds = (.utc r.timeRange.lower, .utc r.timeRange.upper) := by
  have hle := r.timeRange.le
  simp only [reservationBounds, TsRange.lower?, TsRange.upper?, TsRange.isEmpty, beq_iff_eq]
  split_ifs with he
  · simp [he]
  · simp only [DateTime.orTz_utc, Except.ok.injEq, eq_comm (a := bounds), iff_and_self]
    omega

theorem connectGate_eq_ok {user : User} {r : Reservation} {bounds : DateTime × DateTime} :
    connectGate user r = .ok bounds ↔ (user.role = .admin ∨ r.userId = user.id) ∧
      r.status = .confirmed ∧ r.timeRange.lower < r.timeRange.upper ∧
        bounds = (.utc r.timeRange.lower, .utc r.timeRange.upper) := by
  simp only [connectGate, bind_eq_ok, raiseIf_eq_ok, assertCanAccess_eq_ok, exists_const, not_not,
    reservationBounds_eq_ok]

theorem connectWindow_eq_ok {cfg : Settings} {s e now : DateTime} {u : Unit} :
    connectWindow cfg s e now = .ok u ↔
      s.instant - cfg.connectTokenGraceSeconds * secondUs ≤ now.instant ∧
        now.instant < e.instant := by
  simp only [connectWindow, bind_eq_ok, raiseIf_eq_ok, exists_const, DateTime.le_iff,
    DateTime.lt_iff, DateTime.instant_sub, not_lt, not_le]

/-! ## The window of instant use -/

/-- The end of the 30-minute slot that `now + INSTANT_USE_DURATION` lies in. -/
def slotEnd (now : ℤ) : ℤ := (now + INSTANT_USE_DURATION) / 1800000000 * 1800000000 + 1800000000

theorem instantWindow_fst (now : ℤ) (next : Option DateTime) :
    (instantWindow (.utc now) next).1 = .utc (now - now % secondUs) := by
  have h : ((DateTime.utc now).replace (DateTime.utc now).hour (DateTime.utc now).minute
      (DateTime.utc now).second 0) = .utc (now - now % secondUs) := by
    rw [DateTime.utc, DateTime.mk.injEq]
    exact ⟨DateTime.wall_replace_microsecond _, rfl⟩
  cases next <;> exact h

theorem instantWindow_none (now : ℤ) : (instantWindow (.utc now) none).2 = .utc (slotEnd now) := by
  have hw : (DateTime.utc now + INSTANT_USE_DURATION).wall = now + INSTANT_USE_DURATION := rfl
  have hm := DateTime.wall_replace_minute (DateTime.utc now + INSTANT_USE_DURATION)
    ((DateTime.utc now + INSTANT_USE_DURATION).minute / 30 * 30)
  show ((DateTime.utc now + INSTANT_USE_DURATION).replace
      (DateTime.utc now + INSTANT_USE_DURATION).hour
      ((DateTime.utc now + INSTANT_USE_DURATION).minute / 30 * 30) 0 0) + 30 * minuteUs = _
  refine (DateTime.mk.injEq _ _ _ _).mpr ⟨?_, rfl⟩
  rw [hm, DateTime.minute, hw]
  simp only [slotEnd, INSTANT_USE_DURATION, minuteUs, hourUs]
  omega

theorem instantWindow_some (now : ℤ) (n : DateTime) :
    (instantWindow (.utc now) (some n)).2 =
      if n.instant < slotEnd now then n else .utc (slotEnd now) := by
  have h : (instantWindow (.utc now) (some n)).2 = if n < (instantWindow (.utc now) none).2
      then n else (instantWindow (.utc now) none).2 := rfl
  rw [h, instantWindow_none]
  simp only [DateTime.lt_iff, DateTime.instant_utc]

theorem instantWindow_snd (now : ℤ) (next : Option ℤ) :
    (instantWindow (.utc now) (next.map .utc)).2 =
      .utc (next.elim (slotEnd now) (min · (slotEnd now))) := by
  cases next with
  | none => exact instantWindow_none now
  | some n =>
    rw [Option.map_some, instantWindow_some, DateTime.instant_utc, Option.elim_some]
    split_ifs with hn
    · rw [min_eq_left hn.le]
    · rw [min_eq_right (not_lt.mp hn)]

theorem instant_instantWindow_snd (now : ℤ) (next : Option DateTime) :
    (instantWindow (.utc now) next).2.instant =
      next.elim (slotEnd now) (min ·.instant (slotEnd now)) := by
  cases next with
  | none => rw [instantWindow_none, DateTime.instant_utc, Option.elim_none]
  | some n =>
    rw [instantWindow_some, Option.elim_some]
    split_ifs with hn
    · exact (min_eq_left hn.le).symm
    · rw [DateTime.instant_utc, min_eq_right (not_lt.mp hn)]

theorem lt_slotEnd (now : ℤ) : now < slotEnd now := by
  simp only [slotEnd, INSTANT_USE_DURATION]
  omega

/-- Both ends of the slot are full seconds: the part of a second that the start
    drops is never missing at the end. -/
theorem slotEnd_le (now : ℤ) : slotEnd now ≤ now - now % secondUs + 3 * hourUs := by
  simp only [slotEnd, INSTANT_USE_DURATION, secondUs, hourUs]
  omega

theorem slotEnd_mono {s t : ℤ} (h : s ≤ t) : slotEnd s ≤ slotEnd t := by
  simp only [slotEnd, INSTANT_USE_DURATION]
  omega

theorem aligned_utc_iff {t : ℤ} : Aligned 30 (.utc t) ↔ 30 * minuteUs ∣ t := by
  rw [aligned_iff (by simp [DateTime.utc])]
  simp only [DateTime.utc, DateTime.minute, DateTime.second, DateTime.microsecond, minuteUs,
    secondUs]
  omega

/-- The slot of `now + INSTANT_USE_DURATION` ends at the first point of the
    grid after it. -/
theorem slotEnd_isLeast (now : ℤ) :
    IsLeast {g | Aligned 30 (.utc g) ∧ now + INSTANT_USE_DURATION < g} (slotEnd now) := by
  constructor
  · refine ⟨aligned_utc_iff.mpr ?_, ?_⟩ <;> simp only [slotEnd, minuteUs] <;> omega
  · rintro g ⟨hg, hlt⟩
    have hg := aligned_utc_iff.mp hg
    simp only [slotEnd, minuteUs] at *
    omega

/-- The next reservation starts before the slot ends. -/
def IsCut (now : ℤ) (next : Option DateTime) : Prop :=
  ∃ n ∈ next, n < (instantWindow (.utc now) none).2

/-- What a window of instant use keeps, where the next reservation of the host
    starts at `next`. -/
structure InstantUse (now : ℤ) (next : Option DateTime) (window : DateTime × DateTime) :
    Prop where
  lt_start : now - secondUs < window.1.instant
  start_le : window.1.instant ≤ now
  lt_end : now < window.2.instant
  end_le : window.2.instant ≤ window.1.instant + 3 * hourUs
  end_le_next : ∀ n ∈ next, window.2 ≤ n
  uncut : ¬IsCut now next →
    IsLeast {g | Aligned 30 (.utc g) ∧ now + INSTANT_USE_DURATION < g} window.2.instant

theorem isCut_iff {now : ℤ} {next : Option DateTime} :
    IsCut now next ↔ ∃ n ∈ next, n.instant < slotEnd now := by
  simp only [IsCut, instantWindow_none, DateTime.lt_iff, DateTime.instant_utc]

theorem instantWindow_snd_le_slotEnd (now : ℤ) (next : Option DateTime) :
    (instantWindow (.utc now) next).2.instant ≤ slotEnd now := by
  rw [instant_instantWindow_snd]
  cases next with
  | none => exact le_rfl
  | some n => exact min_le_right _ _

theorem InstantUse.of_later {now : ℤ} {next : Option DateTime}
    (h : ∀ n ∈ next, DateTime.utc now < n) : InstantUse now next (instantWindow (.utc now) next) := by
  have hstart : (instantWindow (.utc now) next).1.instant = now - now % secondUs := by
    rw [instantWindow_fst, DateTime.instant_utc]
  have hend := instant_instantWindow_snd now next
  have hslot := instantWindow_snd_le_slotEnd now next
  have hsec : 0 ≤ now % secondUs ∧ now % secondUs < secondUs := by
    simp only [secondUs]
    omega
  constructor
  · omega
  · omega
  · -- the next reservation starts later, and so does the next slot
    cases next with
    | none => exact hend ▸ lt_slotEnd now
    | some n =>
      have hn := h n rfl
      rw [DateTime.lt_iff, DateTime.instant_utc] at hn
      exact hend ▸ lt_min hn (lt_slotEnd now)
  · have hle := slotEnd_le now
    omega
  · rintro n rfl
    exact hend.trans_le (min_le_left _ _)
  · intro hcut
    have huncut : (instantWindow (.utc now) next).2.instant = slotEnd now := by
      cases next with
      | none => exact hend
      | some n =>
        have hle : slotEnd now ≤ n.instant :=
          not_lt.mp fun hlt => hcut (isCut_iff.mpr ⟨n, rfl, hlt⟩)
        exact hend.trans (min_eq_right hle)
    exact huncut ▸ slotEnd_isLeast now

theorem instantWindow_mono (next : Option DateTime) {s t : ℤ} (hst : s ≤ t) :
    (instantWindow (.utc s) next).2 ≤ (instantWindow (.utc t) next).2 := by
  rw [DateTime.le_iff, instant_instantWindow_snd, instant_instantWindow_snd]
  cases next with
  | none => exact slotEnd_mono hst
  | some n => exact min_le_min_left _ (slotEnd_mono hst)

/-- Every window of instant use, where the next reservation starts after `now`. -/
theorem instantWindow_spec {now : ℤ} {next : Option DateTime}
    (h : ∀ n ∈ next, DateTime.utc now < n) :
    InstantUse now next (instantWindow (.utc now) next) ∧
      ∀ s t : ℤ, s ≤ t → (instantWindow (.utc s) next).2 ≤ (instantWindow (.utc t) next).2 :=
  ⟨.of_later h, fun _ _ hst => instantWindow_mono next hst⟩

/-- At 14:37:00.25, with a reservation from 15:00 on. -/
theorem instantWindow_spec_room :
    (∀ n ∈ some (DateTime.utc 54000000000), DateTime.utc 52620250000 < n) ∧
      instantWindow (.utc 52620250000) (some (.utc 54000000000)) =
        (.utc 52620000000, .utc 54000000000) ∧
      InstantUse 52620250000 (some (.utc 54000000000))
        (instantWindow (.utc 52620250000) (some (.utc 54000000000))) := by
  have hlater : ∀ n ∈ some (DateTime.utc 54000000000), DateTime.utc 52620250000 < n := by decide
  exact ⟨hlater, by decide, (instantWindow_spec hlater).1⟩

/-! ## The minutes used of a day -/

/-- How much of the range lies in `[s, e)`. -/
def TsRange.overlapUs (r : TsRange) (s e : ℤ) : ℤ := max 0 (min r.upper e - max r.lower s)

theorem TsRange.overlapUs_nonneg (r : TsRange) (s e : ℤ) : 0 ≤ r.overlapUs s e := le_max_left ..

/-- A range that does not overlap a day uses nothing of it. -/
theorem TsRange.overlapUs_of_not_overlaps {r : TsRange} {s e : ℤ} (h : r.overlaps s e = false) :
    r.overlapUs s e = 0 := by
  have hle := r.le
  simp only [overlaps, Bool.and_eq_false_iff, decide_eq_false_iff_not, not_lt] at h
  simp only [overlapUs]
  omega

theorem usedMinutes_eq_sum (tz : Option ℤ) (dayStart dayEnd : DateTime) (rows : List TsRange) :
    usedMinutes tz dayStart dayEnd rows =
      (rows.map fun r => wholeMinutes (r.overlapUs dayStart.instant dayEnd.instant)).sum := by
  have turn : ∀ used (r : TsRange), addClipped tz dayStart dayEnd used r =
      used + wholeMinutes (r.overlapUs dayStart.instant dayEnd.instant) := by
    intro used r
    have hle := r.le
    simp only [addClipped, TsRange.lower?, TsRange.upper?, TsRange.isEmpty, beq_iff_eq]
    split_ifs with he
    · have : r.overlapUs dayStart.instant dayEnd.instant = 0 := by
        simp only [TsRange.overlapUs]; omega
      simp [this, wholeMinutes]
    · simp only [DateTime.orTz_utc, DateTime.lt_iff, DateTime.instant_max, DateTime.instant_min,
        DateTime.instant_utc, DateTime.sub_def, TsRange.overlapUs]
      split_ifs with hlt
      · rw [max_eq_right (sub_nonneg.mpr hlt.le)]
      · rw [max_eq_left (sub_nonpos.mpr (not_lt.mp hlt))]; simp [wholeMinutes]
  have loop : ∀ used, rows.foldl (addClipped tz dayStart dayEnd) used =
      used + (rows.map fun r => wholeMinutes (r.overlapUs dayStart.instant dayEnd.instant)).sum := by
    induction rows with
    | nil => simp
    | cons r rows ih =>
      intro used
      rw [List.foldl_cons, ih, turn, List.map_cons, List.sum_cons, add_assoc]
  exact (loop 0).trans (zero_add _)

end SmartClassroom
