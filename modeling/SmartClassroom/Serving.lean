/-
  One request served alone.

  * `bookOutcome`: what the INSERT of a booking and what follows it come to.
  * `run_createReservation`: `create_reservation` as its checks in their order,
    with what `_validate_quota` finds as `WithinQuota`.
-/
import SmartClassroom.Constraints

namespace SmartClassroom

open Txn Prog

variable {α β : Type} {cfg : Settings} {E : Env ℤ String} {c : Ctx broker}

/-! ## Statements -/

/-- Statements without writes. -/
def Stmt.selects : Stmt → Bool
  | .getHost _ | .getReservation _ | .countConcurrent .. | .dailyRanges .. | .nextStart ..
  | .activeReservation .. | .reservations _ | .hostIds | .calendar .. | .idleHosts ..
  | .instantHosts _ | .tokenByJti .. => true
  | _ => false

/-- A SELECT leaves the state of the run as it is. -/
theorem after_select {b : ℤ} {s : Stmt} (hs : s.selects = true) : c.after b s = c := by
  cases s <;> first | exact absurd hs Bool.false_ne_true | simp [Ctx.after, Stmt.exec]

theorem run_execute (s : Stmt) (f : s.Res → Service β) : (execute s >>= f).run E c =
    (f (s.exec E.began c.aux c.view c.view).2.2).run E (c.after E.began s) := rfl

theorem run_select {s : Stmt} (hs : s.selects = true) (f : s.Res → Service β) :
    (execute s >>= f).run E c = (f (s.exec E.began c.aux c.view c.view).2.2).run E c := by
  rw [run_execute, after_select hs]

@[simp] theorem view_reads (n : ℕ) : Ctx.view { c with reads := n } = c.view := rfl

theorem run_now (f : DateTime → Service β) : (_now >>= f).run E c =
    (f (.utc (E.now c.reads))).run E { c with reads := c.reads + 1 } := rfl

theorem view_after (b : ℤ) (s : Stmt) : (c.after b s).view =
    broker.applyAll c.view (s.exec b c.aux c.view c.view).2.1 := Db.applyAll_append _ _ _

/-- Calm writes leave the reservations as they are. -/
theorem reservations_of_calm {ws : List Write} (hw : ∀ w ∈ ws, w.Calm) : ∀ st : Store,
    (broker.applyAll st ws).reservations = st.reservations := by
  induction ws with
  | nil => exact fun _ => rfl
  | cons w ws ih =>
    intro st
    refine (ih (fun w hw' => hw w (List.mem_cons_of_mem _ hw')) (st.apply w)).trans ?_
    obtain ⟨hn, hup, -, -⟩ := hw w List.mem_cons_self
    simp [Store.apply, hn, funext (onReservation_eq_self hup)]

theorem reservations_after_calm {b : ℤ} {s : Stmt} (hs : s.calm) :
    (c.after b s).view.reservations = c.view.reservations := by
  rw [view_after, reservations_of_calm (hs.writes _ _ _ _)]

theorem run_lift_bind (x : Except BrokerError α) (f : α → Service β) :
    ((lift x >>= f).run E c).1 = x >>= fun a => ((f a).run E c).1 := by
  cases x <;> rfl

theorem run_raiseIf (p : Prop) [Decidable p] (e : BrokerError) (f : Unit → Service β) :
    (lift (raiseIf p e) >>= f).run E c = if p then (.error e, c) else (f ()).run E c := by
  unfold raiseIf
  split_ifs <;> rfl

/-- The error of a computation, by its class. -/
def kindOf (x : Except BrokerError α) : Except ErrorKind α := x.mapError BrokerError.kind

@[simp] theorem kindOf_ok (a : α) : kindOf (.ok a) = .ok a := rfl

@[simp] theorem kindOf_error (e : BrokerError) : kindOf (.error e : Except BrokerError α) = .error e.kind :=
  rfl

theorem kindOf_eq_ok {x : Except BrokerError α} {a : α} (h : kindOf x = .ok a) : x = .ok a := by
  cases x with
  | ok b => exact congrArg _ (Except.ok.inj h)
  | error e => cases h

theorem kindOf_eq_conflict {x : Except BrokerError α} (h : kindOf x = .error .reservationConflict) :
    x = .error .reservationConflict := by
  cases x with
  | ok b => cases h
  | error e => cases e <;> first | rfl | cases h

theorem kindOf_raiseIf (p : Prop) [Decidable p] (e : BrokerError) :
    kindOf (raiseIf p e) = if p then .error e.kind else .ok () := by
  unfold raiseIf
  split_ifs <;> rfl

/-! ## Booking -/

/-- What the INSERT of the booking `[s, e)` and what follows it come to, where
    `id` is the next value of the sequence. -/
def bookOutcome (st : Store) (id began : ℤ) (user : User) (hostId s e : ℤ) :
    Except BrokerError Reservation :=
  match tstzrange s e with
  | none => .error (.sql .data)
  | some range =>
    match st.violatedByReservation (Stmt.newReservation id user.id hostId range began) with
    | some con =>
      .error (if con = .reservationsNoOverlap then .reservationConflict else .sql (.integrity con))
    | none => .ok (Stmt.newReservation id user.id hostId range began)

/-- The row that was inserted. -/
def bookedRow {ε : Type} : Except ε Reservation → List Reservation
  | .ok r => [r]
  | .error _ => []

theorem bookOutcome_eq_ok {st : Store} {id began : ℤ} {user : User} {hostId s e : ℤ}
    {row : Reservation} : bookOutcome st id began user hostId s e = .ok row ↔
      ∃ h : s ≤ e, row = Stmt.newReservation id user.id hostId ⟨s, e, h⟩ began ∧
        st.violatedByReservation row = none := by
  unfold bookOutcome tstzrange
  by_cases h : s ≤ e
  · rw [dif_pos h]
    dsimp only
    cases hv : st.violatedByReservation (Stmt.newReservation id user.id hostId ⟨s, e, h⟩ began) with
    | none =>
      refine ⟨fun hr => ⟨h, (Except.ok.inj hr).symm, Except.ok.inj hr ▸ hv⟩, ?_⟩
      rintro ⟨_, rfl, -⟩
      rfl
    | some con =>
      refine ⟨nofun, ?_⟩
      rintro ⟨_, rfl, hrow⟩
      rw [hv] at hrow
      cases hrow
  · rw [dif_neg h]
    exact ⟨nofun, fun hr => absurd hr.1 h⟩

/-- The store after the INSERT of `row`. -/
theorem reservations_apply_insert (st : Store) (row : Reservation) :
    (st.apply (.insertReservation row)).reservations = st.reservations ++ [row] := by
  rw [Store.apply, show (Write.insertReservation row).onReservation = id from
    funext (onReservation_eq_self rfl), List.map_id]
  rfl

theorem run_insertConfirmed (hp : c.pend = []) (user : User) (hostId : ℤ) (s e : DateTime) :
    match bookOutcome c.db c.aux.reservation E.began user hostId s.instant e.instant with
    | .ok row => (insertConfirmed user hostId s e).run E c = (.ok row.id, { c with
        aux := { c.aux with reservation := c.aux.reservation + 1 }
        pend := [.insertReservation row] })
    | .error err => ∃ c', (insertConfirmed user hostId s e).run E c = (.error err, c') ∧
        c'.view = c.db ∧ c'.db = c.db := by
  have hv : c.view = c.db := by rw [Ctx.view, hp]; rfl
  unfold insertConfirmed bookOutcome
  rw [run_execute, Ctx.after, hv, hp]
  simp only [Stmt.exec]
  cases tstzrange s.instant e.instant with
  | none => exact ⟨_, rfl, rfl, rfl⟩
  | some range =>
    dsimp only
    cases hviol : c.db.violatedByReservation
      (Stmt.newReservation c.aux.reservation user.id hostId range E.began) with
    | none => rfl
    | some con =>
      dsimp only
      by_cases hcon : con = .reservationsNoOverlap
      · rw [if_pos hcon, if_pos hcon]
        exact ⟨_, rfl, rfl, rfl⟩
      · rw [if_neg hcon, if_neg hcon]
        exact ⟨_, rfl, rfl, rfl⟩

/-- The audit row of an existing user, or of none. -/
theorem run_writeAudit {e : AuditEntry} (he : c.view.violatedByAudit e = none) (f : Unit → Service β) :
    (writeAudit e >>= f).run E c = (f ()).run E (c.after E.began (.insertAudit e)) := by
  rw [run_bind, writeAudit, run_execute]
  simp only [Stmt.exec, he]
  rfl

/-- The run `r` of a booking from `c` on comes to `k`. -/
structure Books (c : Ctx broker) (k : Except ErrorKind Reservation)
    (r : Except BrokerError Reservation × Ctx broker) : Prop where
  kind : kindOf r.1 = k
  rows : r.2.view.reservations = c.db.reservations ++ bookedRow k
  db : r.2.db = c.db

theorem Books.error {c' : Ctx broker} {err : BrokerError} (hv : c'.view = c.db) (hdb : c'.db = c.db) :
    Books c (.error err.kind) (.error err, c') :=
  ⟨rfl, by simp [hv, bookedRow], hdb⟩

/-- A run that raises before its INSERT. -/
theorem Books.early (hp : c.pend = []) (err : BrokerError) (n : ℕ) :
    Books c (.error err.kind) (.error err, { c with reads := n }) :=
  .error (by rw [view_reads, Ctx.view, hp]; rfl) rfl

theorem run_book (hp : c.pend = []) (user : User) (hostId : ℤ) (s e : DateTime) (instant : Bool) :
    Books c (kindOf (bookOutcome c.db c.aux.reservation E.began user hostId s.instant e.instant))
      ((book user hostId s e instant).run E c) := by
  have hins := run_insertConfirmed (E := E) hp user hostId s e
  cases hout : bookOutcome c.db c.aux.reservation E.began user hostId s.instant e.instant with
  | error err =>
    rw [hout] at hins
    obtain ⟨c', hrun, hview, hdb⟩ := hins
    rw [book, run_bind, hrun]
    exact .error hview hdb
  | ok row =>
    rw [hout] at hins
    obtain ⟨hle, hrow, hviol⟩ := bookOutcome_eq_ok.mp hout
    obtain ⟨hfree, ⟨u, hu, hid⟩, -⟩ := violatedByReservation_eq_none.mp hviol
    rw [show row.userId = user.id from hrow ▸ rfl] at hid
    have hrows := reservations_apply_insert c.db row
    have hfind : (c.db.apply (.insertReservation row)).reservations.find? (fun r => r.id == row.id) =
        some row := by
      rw [hrows, List.find?_append, List.find?_eq_none.mpr, Option.none_or]
      · simp
      · exact fun x hx hid => hfree x hx (.inl (beq_iff_eq.mp hid))
    rw [book, run_bind, hins]
    dsimp only
    rw [run_select rfl]
    simp only [Stmt.exec, Ctx.view, Db.applyAll, List.foldl_cons, List.foldl_nil, hfind]
    rw [run_writeAudit]
    · exact ⟨rfl, (reservations_after_calm (s := .insertAudit _) trivial).trans hrows, rfl⟩
    · have hany : c.db.users.any (fun u => u.id == user.id) = true :=
        List.any_eq_true.mpr ⟨u, hu, beq_iff_eq.mpr hid⟩
      exact if_pos hany

/-! ## The checks before it -/

/-- The daily limit leaves room for `[s, e)` in the local day of `s`. -/
def WithinDay (cfg : Settings) (st : Store) (userId : ℤ) (s e : DateTime) : Prop :=
  usedMinutes s.tzinfo (dayStartOf s) (dayStartOf s + dayUs)
      (dayRanges st userId (dayStartOf s).instant (dayStartOf s + dayUs).instant) +
    wholeMinutes (e - s) ≤ cfg.maxReservationHoursPerDay * 60

/-- Both quotas leave room for `[s, e)`. -/
structure WithinQuota (cfg : Settings) (st : Store) (userId : ℤ) (s e : DateTime) (now : ℤ) : Prop where
  concurrent : st.reservations.countP (Stmt.concurrent userId now) < cfg.maxConcurrentReservations
  daily : WithinDay cfg st userId s e

instance (st : Store) (userId : ℤ) (s e : DateTime) : Decidable (WithinDay cfg st userId s e) :=
  inferInstanceAs (Decidable (_ ≤ _))

theorem withinQuota_iff {st : Store} {userId now : ℤ} {s e : DateTime} :
    WithinQuota cfg st userId s e now ↔
      st.reservations.countP (Stmt.concurrent userId now) < cfg.maxConcurrentReservations ∧
        WithinDay cfg st userId s e :=
  ⟨fun h => ⟨h.1, h.2⟩, fun h => ⟨h.1, h.2⟩⟩

instance (st : Store) (userId : ℤ) (s e : DateTime) (now : ℤ) :
    Decidable (WithinQuota cfg st userId s e now) := decidable_of_iff _ withinQuota_iff.symm

variable (cfg) in
theorem run_validateQuota (user : User) (s e : DateTime) :
    kindOf ((validateQuota cfg user s e).run E c).1 =
        (if WithinQuota cfg c.view user.id s e (E.now c.reads) then .ok ()
          else .error .reservationQuota) ∧
      ((validateQuota cfg user s e).run E c).2 = { c with reads := c.reads + 1 } := by
  rw [validateQuota, run_now, run_select rfl]
  simp only [Stmt.exec, DateTime.instant_utc, view_reads]
  rw [run_raiseIf]
  by_cases hcount : cfg.maxConcurrentReservations ≤ c.view.reservations.countP
      (Stmt.concurrent user.id (E.now c.reads))
  · rw [if_pos hcount, if_neg fun h : WithinQuota .. => absurd h.concurrent (not_lt.mpr hcount)]
    exact ⟨rfl, rfl⟩
  · rw [if_neg hcount, run_select rfl]
    simp only [Stmt.exec, view_reads, run_lift, and_true, withinQuota_iff, not_le.mp hcount, true_and,
      WithinDay, dayRanges, ← not_lt, ite_not]
    exact kindOf_raiseIf _ _

theorem run_validateWindow (s e : DateTime) : (validateWindow cfg s e).run E c =
    match validateShape cfg s e with
    | .ok _ => (validateStart cfg s (.utc (E.now c.reads)), { c with reads := c.reads + 1 })
    | .error err => (.error err, c) := by
  rw [validateWindow, run_bind, run_lift]
  cases validateShape cfg s e with
  | error err => rfl
  | ok u => exact run_lift _ _ _

theorem run_validateHostExists (hostId : ℤ) : ∃ message, (validateHostExists hostId).run E c =
    match c.view.hosts.find? (fun h => h.id == hostId) with
    | some host => (.ok host, c)
    | none => (.error (.hostNotFound message), c) := by
  rw [validateHostExists, run_select rfl]
  simp only [Stmt.exec]
  cases c.view.hosts.find? fun h => h.id == hostId with
  | none => exact ⟨_, rfl⟩
  | some host => exact ⟨"", rfl⟩

/-- `if not p: raise` an error of the class `k`. -/
def require (p : Prop) [Decidable p] (k : ErrorKind) : Except ErrorKind Unit :=
  if p then .ok () else .error k

theorem require_of {p : Prop} [Decidable p] {k : ErrorKind} (h : p) : require p k = .ok () := if_pos h

theorem require_of_not {p : Prop} [Decidable p] {k : ErrorKind} (h : ¬p) : require p k = .error k :=
  if_neg h

/-- The checks and the INSERT of `create_reservation`, in their order. -/
def createKind (cfg : Settings) (st : Store) (id began now now' : ℤ) (user : User) (hostId : ℤ)
    (s e : DateTime) : Except ErrorKind Reservation := do
  kindOf (validateShape cfg s e)
  kindOf (validateStart cfg s (.utc now))
  require (st.hosts.find? (·.id == hostId)).isSome .hostNotFound
  require (WithinQuota cfg st user.id s e now') .reservationQuota
  kindOf (bookOutcome st id began user hostId s.instant e.instant)

theorem createKind_eq {st : Store} {id began now now' : ℤ} {user : User} {hostId : ℤ} {s e : DateTime}
    (hs : validateShape cfg s e = .ok ()) (hn : validateStart cfg s (.utc now) = .ok ())
    (hh : (st.hosts.find? (·.id == hostId)).isSome) (hq : WithinQuota cfg st user.id s e now') :
    createKind cfg st id began now now' user hostId s e =
      kindOf (bookOutcome st id began user hostId s.instant e.instant) := by
  rw [createKind, hs, hn, require_of hh, require_of hq]
  rfl

theorem run_quota_book (hp : c.pend = []) (user : User) (hostId : ℤ) (s e : DateTime)
    (instant : Bool) (n : ℕ) :
    Books c (do
      require (WithinQuota cfg c.db user.id s e (E.now n)) .reservationQuota
      kindOf (bookOutcome c.db c.aux.reservation E.began user hostId s.instant e.instant))
      ((do
        validateQuota cfg user s e
        book user hostId s e instant).run E { c with reads := n }) := by
  have hv : c.view = c.db := by rw [Ctx.view, hp]; rfl
  obtain ⟨hkind, hctx⟩ := run_validateQuota (E := E) (c := { c with reads := n }) cfg user s e
  rw [view_reads, hv] at hkind
  rw [run_bind, require]
  generalize (validateQuota cfg user s e).run E { c with reads := n } = r at hkind hctx
  obtain ⟨x, c'⟩ := r
  obtain rfl : c' = _ := hctx
  cases x with
  | ok u =>
    have hq : WithinQuota cfg c.db user.id s e (E.now n) := by
      by_contra hq
      rw [if_neg hq] at hkind
      cases hkind
    rw [if_pos hq]
    have hbook := run_book (E := E) (c := { c with reads := n + 1 }) hp user hostId s e instant
    exact ⟨hbook.kind, hbook.rows, hbook.db⟩
  | error err =>
    have hq : ¬WithinQuota cfg c.db user.id s e (E.now n) := by
      intro hq
      rw [if_pos hq] at hkind
      cases hkind
    rw [if_neg hq] at hkind ⊢
    rw [← Except.error.inj hkind]
    exact .early hp err (n + 1)

variable (cfg) in
theorem run_createReservation (hp : c.pend = []) (user : User) (hostId : ℤ) (s e : DateTime) :
    Books c (createKind cfg c.db c.aux.reservation E.began (E.now c.reads) (E.now (c.reads + 1)) user
      hostId s e) ((createReservation cfg user hostId s e).run E c) := by
  have hv : c.view = c.db := by rw [Ctx.view, hp]; rfl
  rw [createReservation, run_bind, run_validateWindow, createKind]
  cases hshape : validateShape cfg s e with
  | error err => exact .early hp err c.reads
  | ok u =>
    dsimp only
    cases hstart : validateStart cfg s (.utc (E.now c.reads)) with
    | error err => exact .early hp err _
    | ok u =>
      obtain ⟨message, hhost⟩ := run_validateHostExists (E := E)
        (c := { c with reads := c.reads + 1 }) hostId
      dsimp only
      rw [run_bind, hhost, view_reads, hv]
      cases c.db.hosts.find? fun h => h.id == hostId with
      | none => exact .early hp (.hostNotFound message) _
      | some host => exact run_quota_book hp user hostId s e false (c.reads + 1)

/-- The window of instant use on the host. -/
def windowAt (st : Store) (hostId now : ℤ) : DateTime × DateTime :=
  instantWindow (.utc now) ((Stmt.nextStartOf st hostId now).map .utc)

/-- The checks and the INSERT of `create_instant_reservation`, in their order. -/
def instantKind (cfg : Settings) (st : Store) (id began now now' : ℤ) (user : User) (hostId : ℤ) :
    Except ErrorKind Reservation := do
  let window := windowAt st hostId now
  require (st.hosts.find? (·.id == hostId)).isSome .hostNotFound
  require ((st.hosts.find? (·.id == hostId)).any (·.status == .idle)) .hostNotAvailable
  require (WithinQuota cfg st user.id window.1 window.2 now') .reservationQuota
  kindOf (bookOutcome st id began user hostId window.1.instant window.2.instant)

theorem instantKind_eq {st : Store} {id began now now' : ℤ} {user : User} {hostId : ℤ} {host : Host}
    (hh : st.hosts.find? (·.id == hostId) = some host) (hidle : host.status = .idle)
    (hq : WithinQuota cfg st user.id (windowAt st hostId now).1 (windowAt st hostId now).2 now') :
    instantKind cfg st id began now now' user hostId = kindOf (bookOutcome st id began user hostId
      (windowAt st hostId now).1.instant (windowAt st hostId now).2.instant) := by
  have hany : (some host).any (·.status == .idle) = true := beq_iff_eq.mpr hidle
  unfold instantKind
  dsimp only
  rw [hh, require_of hq, require_of Option.isSome_some, require_of hany]
  rfl

theorem run_nextReservationStart (hostId : ℤ) (after : DateTime) (f : Option DateTime → Service β) :
    (nextReservationStart hostId after >>= f).run E c =
      (f ((Stmt.nextStartOf c.view hostId after.instant).map .utc)).run E c := by
  rw [run_bind, nextReservationStart, run_select rfl]
  rfl

theorem run_createInstantReservation (hp : c.pend = []) (user : User) (hostId : ℤ) :
    Books c (instantKind cfg c.db c.aux.reservation E.began (E.now c.reads) (E.now (c.reads + 1)) user
      hostId) ((createInstantReservation cfg user hostId).run E c) := by
  have hv : c.view = c.db := by rw [Ctx.view, hp]; rfl
  obtain ⟨message, hhost⟩ := run_validateHostExists (E := E)
    (c := { c with reads := c.reads + 1 }) hostId
  rw [createInstantReservation, run_now, run_bind, hhost, view_reads, hv, instantKind]
  cases c.db.hosts.find? fun h => h.id == hostId with
  | none => exact .early hp (.hostNotFound message) _
  | some host =>
    dsimp only
    rw [run_raiseIf]
    by_cases hidle : host.status = .idle
    · rw [if_neg (not_not.mpr hidle), run_nextReservationStart, view_reads, hv, DateTime.instant_utc]
      have hany : (some host).any (·.status == .idle) = true := beq_iff_eq.mpr hidle
      rw [require_of hany]
      exact run_quota_book hp user hostId (windowAt c.db hostId (E.now c.reads)).1
        (windowAt c.db hostId (E.now c.reads)).2 true (c.reads + 1)
    · rw [if_pos hidle]
      have hany : ¬(some host).any (·.status == .idle) = true := fun h => hidle (beq_iff_eq.mp h)
      rw [require_of_not hany]
      exact .early hp (.hostNotAvailable _) _

end SmartClassroom
