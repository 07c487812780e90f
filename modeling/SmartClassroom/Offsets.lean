/-
  One booking written with different UTC offsets.

  Two pairs of datetimes that denote the same instants differ for
  `POST /reservations` in two places: the grid, which is one of the local
  minutes, and the day of the daily limit, which is the local day of
  `starts_at`.  Where the two pairs agree on the grid, they come to the same,
  but for the daily limit (`sameOutcome_of_grid`); off it they need not
  (`grid_differs`).
-/
import SmartClassroom.Serving

namespace SmartClassroom

open Txn Prog

variable {cfg : Settings} {E : Env ℤ String} {c : Ctx broker}

/-! ## Outcomes -/

/-- What a request comes to: its reply or the class of its error, and the
    reservations after it. -/
def outcome (x : Except BrokerError Reply × Store × Seqs) : Except ErrorKind Reply × List Reservation :=
  (kindOf x.1, x.2.1.reservations)

/-- Both requests are rejected with the same kind of error, or both succeed and
    leave the same reservations. -/
def SameOutcome (o o' : Except ErrorKind Reply × List Reservation) : Prop :=
  (∃ k, o.1 = .error k ∧ o'.1 = .error k) ∨
    (∃ r, o.1 = .ok r) ∧ (∃ r, o'.1 = .ok r) ∧ o.2 = o'.2

theorem sameOutcome_of_eq {o o' : Except ErrorKind Reply × List Reservation} (h : o = o') :
    SameOutcome o o' := by
  subst h
  cases hx : o.1 with
  | error k => exact .inl ⟨k, hx, hx⟩
  | ok r => exact .inr ⟨⟨r, hx⟩, ⟨r, hx⟩, rfl⟩

/-- What `POST /reservations` makes of a booking. -/
def createReply : Except ErrorKind Reservation → Except ErrorKind Reply
  | .ok row => kindOf ((toRead row).map .reservation)
  | .error .hostNotFound => .error .invalidReservationWindow
  | .error k => .error k

/-- What the route does with a booking, up to its commit and answer. -/
theorem Books.reply {p : Service Reservation} {k : Except ErrorKind Reservation}
    (hb : Books c k (p.run E c)) (hostId : ℤ) :
    let r := (do
      let reservation ← tryCatch p (hostNotFoundAsWindow hostId)
      commit
      let read ← lift (toRead reservation)
      pure (.reservation read) : Service Reply).run E c
    kindOf r.1 = createReply k ∧ r.2.db.reservations = c.db.reservations ++ bookedRow k := by
  dsimp only
  rw [run_bind, run_tryCatch]
  generalize p.run E c = r at hb
  obtain ⟨x, c'⟩ := r
  obtain ⟨hkind, hrows, hdb⟩ := hb
  subst hkind
  change c'.db = c.db at hdb
  cases x with
  | ok row =>
    refine ⟨?_, ?_⟩
    · change _ = kindOf ((toRead row).map Reply.reservation)
      cases hread : toRead row <;> simp [commit, run_bind, Prog.run, hread, Except.map]
    · refine Eq.trans ?_ hrows
      cases hread : toRead row <;> simp [commit, run_bind, Prog.run, hread]
  | error err =>
    have hsame : c'.db.reservations = c.db.reservations ++ [] := by rw [hdb, List.append_nil]
    cases err <;> exact ⟨rfl, hsame⟩

/-- The validators of `ReservationCreate`. -/
theorem validate_cases (hostId : ℤ) (s e : DateTime) :
    if 0 < hostId ∧ onGrid s ∧ onGrid e ∧ s < e then
      ∃ payload, ReservationCreate.validate hostId s e = .ok payload ∧ payload.hostId = hostId ∧
        payload.startsAt = s ∧ payload.endsAt = e
    else ∃ err, ReservationCreate.validate hostId s e = .error err ∧ err.kind = .requestValidation := by
  unfold ReservationCreate.validate
  by_cases h : 0 < hostId ∧ onGrid s ∧ onGrid e
  · by_cases hlt : s < e
    · rw [if_pos ⟨h.1, h.2.1, h.2.2, hlt⟩, dif_pos h, dif_pos hlt]
      exact ⟨_, rfl, rfl, rfl, rfl⟩
    · rw [if_neg fun h => hlt h.2.2.2, dif_pos h, dif_neg hlt]
      exact ⟨_, rfl, rfl⟩
  · rw [if_neg fun h' => h ⟨h'.1, h'.2.1, h'.2.2.1⟩, dif_neg h]
    exact ⟨_, rfl, rfl⟩

/-- `POST /reservations`: the validators, the checks and the INSERT. -/
theorem outcome_create (user : User) (hostId : ℤ) (s e : DateTime) (db : Store) (q : Seqs) :
    outcome (serve E (createReservationEndpoint cfg user hostId s e) db q) =
      if 0 < hostId ∧ onGrid s ∧ onGrid e ∧ s < e then
        (createReply (createKind cfg db q.reservation E.began (E.now 0) (E.now 1) user hostId s e),
          db.reservations ++
            bookedRow (createKind cfg db q.reservation E.began (E.now 0) (E.now 1) user hostId s e))
      else (.error .requestValidation, db.reservations) := by
  have hval := validate_cases hostId s e
  split_ifs at hval ⊢ with h
  · obtain ⟨payload, hp, rfl, rfl, rfl⟩ := hval
    have hb := (run_createReservation (E := E) (c := ⟨db, [], q, 0, 0⟩) cfg rfl user
      payload.hostId payload.startsAt payload.endsAt).reply payload.hostId
    rw [createReservationEndpoint, hp]
    exact Prod.ext hb.1 hb.2
  · obtain ⟨err, herr, hkind⟩ := hval
    rw [createReservationEndpoint, herr]
    exact Prod.ext (congrArg Except.error hkind) rfl

/-! ## Two spellings -/

/-- The aware pairs `(s, e)` and `(s', e')` denote the same two instants. -/
structure Respelled (s e s' e' : DateTime) : Prop where
  aware : (s.tzinfo ≠ none ∧ e.tzinfo ≠ none) ∧ s'.tzinfo ≠ none ∧ e'.tzinfo ≠ none
  starts : s.instant = s'.instant
  ends : e.instant = e'.instant

/-- Both pairs pass, or neither does, where the validators of `ReservationCreate`
    and `_validate_window` look at the grid. -/
structure GridAlike (cfg : Settings) (s e s' e' : DateTime) : Prop where
  create : onGrid s ∧ onGrid e ↔ onGrid s' ∧ onGrid e'
  window : Aligned cfg.reservationSlotMinutes s ∧ Aligned cfg.reservationSlotMinutes e ↔
    Aligned cfg.reservationSlotMinutes s' ∧ Aligned cfg.reservationSlotMinutes e'

/-- Two checks with one class of errors agree if they pass together. -/
theorem kindOf_congr {x y : Except BrokerError Unit} {k : ErrorKind}
    (hx : ∀ err, x = .error err → err.kind = k) (hy : ∀ err, y = .error err → err.kind = k)
    (h : x = .ok () ↔ y = .ok ()) : kindOf x = kindOf y := by
  cases x with
  | ok u => rw [h.mp rfl]
  | error err =>
    cases y with
    | ok u => exact absurd (h.mpr rfl) nofun
    | error err' => rw [kindOf_error, kindOf_error, hx _ rfl, hy _ rfl]

theorem validateStart_kind {s now : DateTime} {err : BrokerError}
    (h : validateStart cfg s now = .error err) : err.kind = .invalidReservationWindow := by
  simp only [validateStart, bind_eq_error, raiseIf_eq_error] at h
  obtain ⟨-, rfl⟩ | ⟨-, -, -, rfl⟩ := h <;> rfl

theorem isGridAligned_aware {d : DateTime} (hd : d.tzinfo ≠ none) (slot : ℕ) :
    if slot = 0 then isGridAligned d slot = .error .zeroDivision
    else ∃ b, isGridAligned d slot = .ok b := by
  unfold isGridAligned
  split_ifs with h0 h30 h30
  · subst h0; cases h30
  · rfl
  · exact ⟨_, rfl⟩
  · exact ⟨_, rfl⟩

theorem validateShape_kind {s e : DateTime} (hs : s.tzinfo ≠ none) (he : e.tzinfo ≠ none)
    {err : BrokerError} (h : validateShape cfg s e = .error err) : err.kind =
      if cfg.reservationSlotMinutes = 0 then .zeroDivision else .invalidReservationWindow := by
  have hgs := isGridAligned_aware hs cfg.reservationSlotMinutes
  have hge := isGridAligned_aware he cfg.reservationSlotMinutes
  simp only [validateShape, bind_eq_error, raiseIf_eq_error, hs, he, or_self, false_and, false_or] at h
  split_ifs at hgs hge ⊢ with h0
  · rw [hgs] at h
    obtain ⟨-, -, herr | ⟨_, hok, -⟩⟩ := h
    · cases herr
      rfl
    · cases hok
  · obtain ⟨b, hgs⟩ := hgs
    obtain ⟨b', hge⟩ := hge
    rw [hgs, hge] at h
    obtain ⟨-, -, h | ⟨-, -, ⟨-, rfl⟩ | ⟨-, -, h | ⟨-, -, ⟨-, rfl⟩ | ⟨-, -, ⟨-, rfl⟩ | ⟨-, -, -, rfl⟩⟩⟩⟩⟩⟩ := h
    all_goals first | rfl | cases h

theorem error_bind {α : Type} (k : ErrorKind) (f : Unit → Except ErrorKind α) :
    (Except.error k >>= f) = .error k := rfl

section
variable {s e s' e' : DateTime} (h : Respelled s e s' e')
include h

theorem Respelled.sub : e - s = e' - s' := by
  rw [DateTime.sub_def, DateTime.sub_def, h.starts, h.ends]

theorem Respelled.lt_iff : s < e ↔ s' < e' := by
  rw [DateTime.lt_iff, DateTime.lt_iff, h.starts, h.ends]

/-- The grid is all that `_validate_window` sees of an offset. -/
theorem Respelled.shape (hg : GridAlike cfg s e s' e') :
    kindOf (validateShape cfg s e) = kindOf (validateShape cfg s' e') := by
  obtain ⟨⟨hs, he⟩, hs', he'⟩ := h.aware
  refine kindOf_congr (fun _ => validateShape_kind hs he) (fun _ => validateShape_kind hs' he') ?_
  rw [validateShape_eq_ok, validateShape_eq_ok, ← and_assoc, hg.window, and_assoc, h.lt_iff, h.sub]

theorem Respelled.start (cfg : Settings) (now : DateTime) :
    kindOf (validateStart cfg s now) = kindOf (validateStart cfg s' now) := by
  refine kindOf_congr (fun _ => validateStart_kind) (fun _ => validateStart_kind) ?_
  rw [validateStart_eq_ok, validateStart_eq_ok]
  simp only [DateTime.le_iff, h.starts]

/-- The two bookings differ in the daily limit at most. -/
theorem Respelled.create (hg : GridAlike cfg s e s' e') (st : Store) (id began now now' : ℤ)
    (user : User) (hostId : ℤ) :
    let k := createKind cfg st id began now now' user hostId s e
    let k' := createKind cfg st id began now now' user hostId s' e'
    ((WithinDay cfg st user.id s e ↔ WithinDay cfg st user.id s' e') → k = k') ∧
      (k = k' ∨ k = .error .reservationQuota ∧ ¬WithinDay cfg st user.id s e ∨
        k' = .error .reservationQuota ∧ ¬WithinDay cfg st user.id s' e') := by
  unfold createKind
  dsimp only
  simp only [withinQuota_iff]
  rw [h.shape hg, h.start, h.starts, h.ends]
  refine ⟨fun hday => by simp only [require, hday], ?_⟩
  -- both come to the quotas, or end before them alike
  cases kindOf (validateShape cfg s' e') with
  | error k => exact .inl (by simp only [error_bind])
  | ok _ => ?_
  cases kindOf (validateStart cfg s' (.utc now)) with
  | error k => exact .inl (by simp only [error_bind])
  | ok _ => ?_
  cases require (st.hosts.find? (·.id == hostId)).isSome .hostNotFound with
  | error k => exact .inl (by simp only [error_bind])
  | ok _ => ?_
  by_cases hd : WithinDay cfg st user.id s e
  · by_cases hd' : WithinDay cfg st user.id s' e'
    · simp only [require, hd, hd', true_or]
    · exact .inr (.inr ⟨by rw [require_of_not fun h => hd' h.2]; rfl, hd'⟩)
  · exact .inr (.inl ⟨by rw [require_of_not fun h => hd h.2]; rfl, hd⟩)

/-- **Two spellings of one booking that the grid treats alike come to the same**,
    if the daily limit has room for both or for neither; else it rejects one. -/
theorem sameOutcome_of_grid (hg : GridAlike cfg s e s' e') (user : User) (hostId : ℤ) (db : Store)
    (q : Seqs) :
    let o := outcome (serve E (createReservationEndpoint cfg user hostId s e) db q)
    let o' := outcome (serve E (createReservationEndpoint cfg user hostId s' e') db q)
    ((WithinDay cfg db user.id s e ↔ WithinDay cfg db user.id s' e') → SameOutcome o o') ∧
      (SameOutcome o o' ∨ o.1 = .error .reservationQuota ∧ ¬WithinDay cfg db user.id s e ∨
        o'.1 = .error .reservationQuota ∧ ¬WithinDay cfg db user.id s' e') := by
  have hpass : 0 < hostId ∧ onGrid s ∧ onGrid e ∧ s < e ↔
      0 < hostId ∧ onGrid s' ∧ onGrid e' ∧ s' < e' := by
    rw [← and_assoc (a := onGrid s), hg.create, and_assoc, h.lt_iff]
  obtain ⟨hsame, hquota⟩ := h.create hg db q.reservation E.began (E.now 0) (E.now 1) user hostId
  dsimp only
  rw [outcome_create, outcome_create]
  by_cases hp : 0 < hostId ∧ onGrid s ∧ onGrid e ∧ s < e
  · rw [if_pos hp, if_pos (hpass.mp hp)]
    refine ⟨fun hday => sameOutcome_of_eq (by rw [hsame hday]), ?_⟩
    rcases hquota with hk | ⟨hk, hd⟩ | ⟨hk, hd⟩
    · exact .inl (sameOutcome_of_eq (by rw [hk]))
    · exact .inr (.inl ⟨by rw [hk]; rfl, hd⟩)
    · exact .inr (.inr ⟨by rw [hk]; rfl, hd⟩)
  · rw [if_neg hp, if_neg (hpass.not.mp hp)]
    exact ⟨fun _ => sameOutcome_of_eq rfl, .inl (sameOutcome_of_eq rfl)⟩

end

/-- Offsets that differ by whole half hours keep the place in the half hour. -/
theorem minute_emod_congr {a b : DateTime} (h : a.instant = b.instant)
    (hk : (30 : ℤ) ∣ a.tzinfo.getD 0 - b.tzinfo.getD 0) :
    a.minute % 30 = b.minute % 30 ∧ a.second = b.second ∧ a.microsecond = b.microsecond := by
  simp only [DateTime.instant, DateTime.minute, DateTime.second, DateTime.microsecond, minuteUs,
    secondUs] at *
  omega

/-- So the grid of half hours treats them alike. -/
theorem onGrid_congr {a b : DateTime} (ha : a.tzinfo ≠ none) (hb : b.tzinfo ≠ none)
    (h : a.instant = b.instant) (hk : (30 : ℤ) ∣ a.tzinfo.getD 0 - b.tzinfo.getD 0) :
    (onGrid a ↔ onGrid b) ∧ (Aligned 30 a ↔ Aligned 30 b) := by
  obtain ⟨hm, hs, hu⟩ := minute_emod_congr h hk
  have hminute : a.minute = 0 ∨ a.minute = 30 ↔ b.minute = 0 ∨ b.minute = 30 := by
    simp only [DateTime.minute] at hm ⊢
    omega
  constructor
  · simp [onGrid, ha, hb, hminute, hs, hu]
  · rw [aligned_iff ha, aligned_iff hb, hminute, hs, hu]

/-- The first user books the first host at 0 o'clock. -/
def bookAt (db : Store) (s e : DateTime) : Except ErrorKind Reply × List Reservation :=
  outcome (serve (Env.at 0 fun _ => "") (createReservationEndpoint {} ⟨1, .user, "mock"⟩ 1 s e) db {})

/-- 10:00+09:00 is 01:00+00:00. -/
theorem sameOutcome_of_grid_room : SameOutcome
    (bookAt room ⟨10 * hourUs, some 540⟩ ⟨11 * hourUs, some 540⟩)
    (bookAt room (.utc hourUs) (.utc (2 * hourUs))) := by
  have hs := onGrid_congr (a := ⟨10 * hourUs, some 540⟩) (b := .utc hourUs) (by decide) (by decide)
    (by decide) (by decide)
  have he := onGrid_congr (a := ⟨11 * hourUs, some 540⟩) (b := .utc (2 * hourUs)) (by decide)
    (by decide) (by decide) (by decide)
  exact (sameOutcome_of_grid ⟨by decide, by decide, by decide⟩
    ⟨and_congr hs.1 he.1, and_congr hs.2 he.2⟩ ⟨1, .user, "mock"⟩ 1 room {}).1 (by decide)

theorem not_sameOutcome {o o' : Except ErrorKind Reply × List Reservation}
    (h : o.1.toOption.isSome ∧ o'.1.toOption.isNone) : ¬SameOutcome o o' := by
  rintro (⟨k, hk, -⟩ | ⟨-, ⟨r, hr⟩, -⟩)
  · simp [hk, Except.toOption] at h
  · simp [hr, Except.toOption] at h

/-- The first user has five hours of the first day. -/
def busyRoom : Store :=
  { room with reservations := [⟨-1, 1, 2, ⟨hourUs, 5 * hourUs, by decide⟩, .confirmed, 0, none⟩,
    ⟨0, 1, 2, ⟨5 * hourUs, 6 * hourUs, by decide⟩, .confirmed, 0, none⟩] }

/-- 04:15+00:00 is off the grid, and 10:00+05:45 is not.  20:00+00:00 is on the
    first day, and 05:00+09:00 on the second. -/
theorem grid_differs :
    (¬∀ s e s' e', Respelled s e s' e' → SameOutcome (bookAt room s e) (bookAt room s' e')) ∧
      ¬∀ s e s' e', Respelled s e s' e' → GridAlike {} s e s' e' →
        SameOutcome (bookAt busyRoom s e) (bookAt busyRoom s' e') := by
  constructor
  · intro hall
    refine not_sameOutcome ?_ (hall ⟨10 * hourUs, some 345⟩ ⟨11 * hourUs, some 345⟩
      (.utc (4 * hourUs + 15 * minuteUs)) (.utc (5 * hourUs + 15 * minuteUs)) ⟨?_, ?_, ?_⟩) <;> decide
  · intro hall
    refine not_sameOutcome ?_ (hall ⟨29 * hourUs, some 540⟩ ⟨33 * hourUs, some 540⟩
      (.utc (20 * hourUs)) (.utc (24 * hourUs)) ⟨?_, ?_, ?_⟩ ⟨?_, ?_⟩) <;> decide

end SmartClassroom
