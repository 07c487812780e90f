/-
  What every request of the broker keeps to, whatever others commit between
  its statements.

  * `rules`: before its one commit a request may raise; each INSERT and UPDATE
    of a reservation or a token comes after the checks the source makes for
    it, on what the request has seen (`Booked`, `Quota`, `Issued`).
  * `app_keeps`: all routes keep the rules.
  * A verification that answers `valid` has seen the token, and has consumed
    it if it was asked to (`answers`).
-/
import SmartClassroom.Endpoints
import SmartClassroom.Tables
import SmartClassroom.Window

namespace SmartClassroom

open Txn

abbrev History := List (Ev broker)

/-- The statement `s` was executed in `h`, on these committed stores. -/
def Ran (h : History) (s : Stmt) (snap cur : Store) : Prop :=
  ∃ b q, Ev.stmt (D := broker) s b q snap cur ∈ h

/-- The clock read `now`. -/
def Read (h : History) (now : ℤ) : Prop := Ev.now (D := broker) now ∈ h

/-- Not yet committed. -/
def Open (h : History) : Prop := Ev.commit (D := broker) ∉ h

/-- No reservation has an empty range. -/
def RangesNonempty (st : Store) : Prop :=
  ∀ r ∈ st.reservations, r.timeRange.lower < r.timeRange.upper

/-! ## The rules -/

section
variable (cfg : Settings)

/-- The interval of a booking: validated, or computed from the clock and the
    next reservation of the host. -/
def Booked (j : Job) (h : History) (userId hostId : ℤ) (startsAt endsAt : DateTime) : Prop :=
  match j with
  | .create user hid s e =>
    userId = user.id ∧ hostId = hid ∧ startsAt = s ∧ endsAt = e ∧
      validateShape cfg s e = .ok () ∧ ∃ now, Read h now ∧ validateStart cfg s (.utc now) = .ok ()
  | .instant user hid =>
    userId = user.id ∧ hostId = hid ∧ ∃ now snap cur, Read h now ∧
      Ran h (.nextStart hid now) snap cur ∧
      (startsAt, endsAt) = instantWindow (.utc now) ((Stmt.nextStartOf snap hid now).map .utc)
  | _ => False

/-- The rows that `dailyRanges` answers with. -/
def dayRanges (st : Store) (userId from_ to_ : ℤ) : List TsRange :=
  (st.reservations.filter (Stmt.daily userId from_ to_)).map (·.timeRange)

/-- Both quotas were checked. -/
def Quota (h : History) (userId : ℤ) (startsAt endsAt : DateTime) : Prop :=
  (∃ now snap cur, Read h now ∧ Ran h (.countConcurrent userId now) snap cur ∧
    snap.reservations.countP (Stmt.concurrent userId now) < cfg.maxConcurrentReservations) ∧
  ∃ snap cur, Ran h (.dailyRanges userId (dayStartOf startsAt).instant
      (dayStartOf startsAt + dayUs).instant) snap cur ∧
    usedMinutes startsAt.tzinfo (dayStartOf startsAt) (dayStartOf startsAt + dayUs)
      (dayRanges snap userId (dayStartOf startsAt).instant (dayStartOf startsAt + dayUs).instant) +
      wholeMinutes (endsAt - startsAt) ≤ cfg.maxReservationHoursPerDay * 60

/-- The request has seen the reservation `r`, or inserted it. -/
def Seen (h : History) (r : Reservation) : Prop :=
  (∃ snap cur, Ran h (.getReservation r.id) snap cur ∧ r ∈ snap.reservations) ∨
    Write.insertReservation r ∈ pendOf h

/-- The gate of `issue_connect_token`, and the revocation before the INSERT. -/
def ConnectIssued (h : History) (t : NewToken) : Prop :=
  ∃ r, Seen h r ∧ r.status = .confirmed ∧ t.reservationId = some r.id ∧
    t.hostId = some r.hostId ∧ t.expiresAt = r.timeRange.upper ∧
    (∃ now, Read h now ∧ r.timeRange.lower - cfg.connectTokenGraceSeconds * secondUs ≤ now ∧
      now < r.timeRange.upper) ∧
    ∃ now snap cur, Ran h (.revokeConnectTokens r.id now) snap cur ∧
      Write.revokeTokens (Stmt.hits Token.id (Stmt.connectTokenOf r.id) snap.tokens cur.tokens) now ∈
        pendOf h

/-- The revocation before the INSERT of an agent token. -/
def AgentIssued (h : History) (t : NewToken) : Prop :=
  ∃ hostId, t.reservationId = none ∧ t.hostId = some hostId ∧
    ∃ now snap cur, Ran h (.revokeAgentTokens hostId now) snap cur ∧
      Write.revokeTokens (Stmt.hits Token.id (Stmt.agentTokenOf hostId) snap.tokens cur.tokens) now ∈
        pendOf h

/-- What comes before the INSERT of a token. -/
def Issued (h : History) (t : NewToken) : Prop :=
  match t.purpose with
  | .connect => ConnectIssued cfg h t
  | .agent => AgentIssued h t
  | .session => False

/-- The request may cancel the reservation: it is active, and the user's own or
    the user an admin. -/
def MayCancel (j : Job) (h : History) (id : ℤ) : Prop :=
  ∃ user r snap cur, j = .cancel user id ∧ Ran h (.getReservation id) snap cur ∧
    r ∈ snap.reservations ∧ r.id = id ∧ r.status ≠ .canceled ∧
    (user.role = .admin ∨ r.userId = user.id)

/-- The tokens and the committed reservations are as committed. -/
def Untouched (h : History) : Prop :=
  ∀ w ∈ pendOf h, w.newTokens = [] ∧ w.updatedTokens = [] ∧ w.updatedReservations = []

/-- What comes before a statement. -/
def pre (j : Job) (h : History) : Stmt → Prop
  | .countConcurrent .. | .dailyRanges .. | .nextStart .. | .tokenByJti .. => pendOf h = []
  | .insertReservation userId hostId s e =>
    pendOf h = [] ∧ ∃ startsAt endsAt : DateTime, s = startsAt.instant ∧ e = endsAt.instant ∧
      Booked cfg j h userId hostId startsAt endsAt ∧ Quota cfg h userId startsAt endsAt
  | .cancelReservation id now => pendOf h = [] ∧ Read h now ∧ MayCancel j h id
  | .insertToken t =>
    (∀ w ∈ pendOf h, w.newTokens = [] ∧ w.updatedReservations = []) ∧ Issued cfg h t
  | .revokeConnectTokens .. | .revokeAgentTokens .. => Untouched h
  | .consumeToken id _ =>
    pendOf h = [] ∧ ∃ raw, j = .verify raw true ∧ ∃ purpose jti now snap cur t,
      Ran h (.tokenByJti purpose jti now) snap cur ∧ t ∈ snap.tokens ∧ t.id = id
  | _ => True

/-- A request commits once, and raises only before that. -/
def rules (j : Job) : Rules broker BrokerError where
  stmt h s := Open h ∧ pre cfg j h s
  commit h := Open h
  raise h _ := Open h

end

/-- What a verification that answers `valid` has seen and done. -/
def Verified (hashRaw : String → String) (raw : String) (consume : Bool) (h : History) : Prop :=
  ∃ now snap cur t, Ran h (.tokenByJti .connect (hashRaw raw) now) snap cur ∧ t ∈ snap.tokens ∧
    Stmt.valid .connect (hashRaw raw) now t = true ∧
    (consume = true → ∃ ids now', Write.consumeTokens ids now' ∈ doneOf h ∧ t.id ∈ ids)

/-- What an answer says of the history of its request. -/
def answers (hashRaw : String → String) (j : Job) (h : History) (reply : Reply) : Prop :=
  match j, reply with
  | .verify raw consume, .verified response =>
    response.valid = true → Verified hashRaw raw consume h
  | _, _ => True

/-- A booked interval is not empty. -/
theorem Booked.lt {cfg : Settings} {j : Job} {h : History} {userId hostId : ℤ}
    {startsAt endsAt : DateTime} (hb : Booked cfg j h userId hostId startsAt endsAt) :
    startsAt.instant < endsAt.instant := by
  cases j with
  | create user hid s e =>
    obtain ⟨-, -, rfl, rfl, hv, -⟩ := hb
    exact (validateShape_eq_ok.mp hv).2.2.1
  | instant user hid =>
    obtain ⟨-, -, now, snap, cur, -, -, e⟩ := hb
    obtain rfl : startsAt = _ := congrArg Prod.fst e
    obtain rfl : endsAt = _ := congrArg Prod.snd e
    rw [instantWindow_fst, instantWindow_snd, DateTime.instant_utc, DateTime.instant_utc]
    have hend := lt_slotEnd now
    cases hn : Stmt.nextStartOf snap hid now with
    | none => simp only [Option.elim_none, secondUs]; omega
    | some n =>
      obtain ⟨⟨r, -, hup, rfl⟩, -⟩ := nextStartOf_eq_some.mp hn
      have hup : now < r.timeRange.lower := by
        simp only [Stmt.upcoming, TsRange.startsAfter, Bool.and_eq_true, decide_eq_true_eq] at hup
        exact hup.2.2
      simp only [Option.elim_some, secondUs]
      omega
  | _ => exact hb.elim

/-! ## Calm statements -/

/-- Statements that neither write nor depend on reservations and tokens. -/
def Stmt.calm : Stmt → Prop
  | .getHost _ | .getReservation _ | .activeReservation .. | .reservations _ | .hostIds
  | .calendar .. | .idleHosts .. | .instantHosts _ | .setHostStatus .. | .insertAudit _ => True
  | _ => False

/-- Writes of neither reservations nor tokens. -/
structure Write.Calm (w : Write) : Prop where
  newReservations : w.newReservations = []
  updatedReservations : w.updatedReservations = []
  newTokens : w.newTokens = []
  updatedTokens : w.updatedTokens = []

theorem Write.Calm.untouched {w : Write} (h : w.Calm) :
    w.newTokens = [] ∧ w.updatedTokens = [] ∧ w.updatedReservations = [] :=
  ⟨h.newTokens, h.updatedTokens, h.updatedReservations⟩

theorem Stmt.calm.writes {s : Stmt} (hs : s.calm) (b : ℤ) (q : Seqs) (snap cur : Store) :
    ∀ w ∈ (s.exec b q snap cur).2.1, w.Calm := by
  cases s <;> first | exact hs.elim | skip
  case setHostStatus => simpa [Stmt.exec] using ⟨rfl, rfl, rfl, rfl⟩
  case insertAudit e =>
    simp only [Stmt.exec]
    split
    · simp
    · simpa using ⟨rfl, rfl, rfl, rfl⟩
  all_goals simp [Stmt.exec]

/-- `h'` goes on from `h` with calm writes. -/
structure After (h h' : History) : Prop where
  suffix : h <:+ h'
  isOpen : Open h'
  pend : ∃ ws, pendOf h' = pendOf h ++ ws ∧ ∀ w ∈ ws, w.Calm

theorem After.refl {h : History} (ho : Open h) : After h h :=
  ⟨List.suffix_refl h, ho, [], by simp, by simp⟩

theorem After.trans {h h' h'' : History} (a : After h h') (a' : After h' h'') : After h h'' := by
  obtain ⟨ws, e, hw⟩ := a.pend
  obtain ⟨ws', e', hw'⟩ := a'.pend
  refine ⟨a.suffix.trans a'.suffix, a'.isOpen, ws ++ ws', by rw [e', e, List.append_assoc], ?_⟩
  exact fun w hw'' => (List.mem_append.mp hw'').elim (hw w) (hw' w)

theorem Open.cons {h : History} (ho : Open h) {e : Ev broker} (he : .commit ≠ e) :
    Open (e :: h) := by simp [Open, he, show .commit ∉ h from ho]

theorem Open.now {h : History} (ho : Open h) (t : ℤ) : Open (.now t :: h) := ho.cons nofun

theorem Open.draw {h : History} (ho : Open h) (n : String) : Open (.draw n :: h) := ho.cons nofun

theorem Open.stmt {h : History} (ho : Open h) (s : Stmt) (b : ℤ) (q : Seqs) (snap cur : Store) :
    Open (.stmt s b q snap cur :: h) := ho.cons nofun

theorem After.now {h h' : History} (a : After h h') (t : ℤ) : After h (.now t :: h') :=
  ⟨a.suffix.trans (List.suffix_cons _ _), a.isOpen.cons nofun, a.pend⟩

theorem After.draw {h h' : History} (a : After h h') (n : String) : After h (.draw n :: h') :=
  ⟨a.suffix.trans (List.suffix_cons _ _), a.isOpen.cons nofun, a.pend⟩

theorem After.stmt {h h' : History} (a : After h h') {s : Stmt} {b : ℤ} {q : Seqs}
    {snap cur : Store} (hw : ∀ w ∈ (broker.execOn (pendOf h') s b q snap cur).2.1, w.Calm) :
    After h (.stmt s b q snap cur :: h') := by
  refine (a.trans ⟨List.suffix_cons _ _, a.isOpen.cons nofun, _, rfl, hw⟩)

theorem pre_of_calm {cfg : Settings} {j : Job} {h : History} {s : Stmt} (hs : s.calm) :
    pre cfg j h s := by
  cases s <;> first | exact hs.elim | trivial

variable {cfg : Settings} {hashRaw : String → String} {j : Job} {h : History} {α β : Type}

/-- What is left of a program after `h`. -/
abbrev OkFor (cfg : Settings) (j : Job) (p : Service α) (Q : History → α → Prop) (h : History) : Prop :=
  p.Ok RangesNonempty (rules cfg j) Q h

theorem calm_ok {p : Service α} (hp : p.Uses Stmt.calm) (ho : Open h) :
    OkFor cfg j p (fun h' _ => After h h') h := by
  refine Prog.Uses.ok (K := After h) ?_ ?_ ?_ ?_ hp (.refl ho)
  · exact fun _ t a => a.now t
  · exact fun _ n a => a.draw n
  · exact fun _ _ a hs => ⟨⟨a.isOpen, pre_of_calm hs⟩, fun _ _ _ _ => a.stmt (hs.writes _ _ _ _)⟩
  · exact fun _ _ a => a.isOpen

/-! ### Calm programs -/

section
variable {P : Stmt → Prop}

theorem now_uses : _now.Uses P := fun _ => trivial

theorem orRaise_uses (x : Except SqlError α) : (orRaise x).Uses P := by cases x <;> trivial

theorem writeAudit_uses (e : AuditEntry) : (writeAudit e).Uses Stmt.calm :=
  (Prog.uses_query (D := broker) (s := .insertAudit e) trivial).bind fun _ => orRaise_uses _

theorem getReservation_uses (user : User) (id : ℤ) : (getReservation user id).Uses Stmt.calm := by
  refine (Prog.uses_query (D := broker) (s := .getReservation id) trivial).bind fun r => ?_
  cases r with
  | none => trivial
  | some r => exact (Prog.uses_lift _).bind fun _ => trivial

theorem refresh_uses (r : Reservation) : (refresh r).Uses Stmt.calm := by
  refine (Prog.uses_query (D := broker) (s := .getReservation r.id) trivial).bind fun r => ?_
  cases r <;> trivial

theorem transitionHost_uses (host : Host) (status : HostStatus) (reason : String) :
    (transitionHost host status reason).Uses Stmt.calm := by
  unfold transitionHost
  split_ifs
  · trivial
  · exact (Prog.uses_query (D := broker) (s := .setHostStatus host.id status) trivial).bind fun _ =>
      (writeAudit_uses _).bind fun _ => trivial

theorem markInUse_uses (r : Reservation) : (markInUse r).Uses Stmt.calm := by
  refine (Prog.uses_query (D := broker) (s := .getHost r.hostId) trivial).bind fun host => ?_
  cases host with
  | none => trivial
  | some host => exact now_uses.bind fun _ => (transitionHost_uses _ _ _).bind fun _ => trivial

theorem releaseHost_uses (r : Reservation) : (releaseHost r).Uses Stmt.calm := by
  refine (Prog.uses_query (D := broker) (s := .getHost r.hostId) trivial).bind fun host => ?_
  cases host with
  | none => trivial
  | some host =>
    dsimp only
    split_ifs
    · refine now_uses.bind fun now => (Prog.uses_query (D := broker)
        (s := .activeReservation host.id now.instant) trivial).bind fun active => ?_
      cases active with
      | none => exact (transitionHost_uses _ _ _).bind fun _ => trivial
      | some _ => trivial
    · trivial

theorem auditRevoked_uses (user : User) (r : Reservation) (n : ℕ) :
    (auditRevoked user r n).Uses Stmt.calm := by
  unfold auditRevoked
  split_ifs
  · exact writeAudit_uses _
  · trivial

theorem withAvailableUntil_uses (now : DateTime) :
    ∀ rows, (withAvailableUntil now rows).Uses Stmt.calm
  | [] => trivial
  | (id, next) :: rows => by
    refine (Prog.uses_query (D := broker) (s := .getHost id) trivial).bind fun host => ?_
    refine (withAvailableUntil_uses now rows).bind fun rest => ?_
    cases host <;> trivial

theorem listInstantAvailableHosts_uses : listInstantAvailableHosts.Uses Stmt.calm :=
  now_uses.bind fun now => (Prog.uses_query (D := broker) (s := .instantHosts now.instant)
    trivial).bind fun _ => withAvailableUntil_uses _ _

theorem buildCalendarMatrix_uses (from_ to_ : DateTime) (hostId : Option ℤ) (viewer : User) :
    (buildCalendarMatrix cfg from_ to_ hostId viewer).Uses Stmt.calm := by
  refine (Prog.uses_lift _).bind fun _ => Prog.Uses.bind ?_ fun ids =>
    (Prog.uses_query (D := broker) (s := .calendar _ _ hostId) trivial).bind fun _ =>
      Prog.uses_pure _
  cases hostId with
  | none => exact Prog.uses_query (D := broker) (s := .hostIds) trivial
  | some id => trivial

theorem notFoundAs404_uses (e : BrokerError) : (notFoundAs404 e).Uses P := by
  cases e <;> trivial

/-- The routes that only read. -/
theorem handle_uses_of_read {j : Job}
    (hj : match j with | .list .. | .calendar .. | .get .. | .available .. => True | _ => False) :
    (handle cfg hashRaw j).Uses Stmt.calm := by
  cases j <;> try exact hj.elim
  case list viewer from_ to_ hostId userId =>
    exact (Prog.uses_query (D := broker) (s := .reservations _) trivial).bind fun _ =>
      (Prog.uses_lift _).bind fun _ => trivial
  case calendar viewer from_ to_ hostId =>
    exact (buildCalendarMatrix_uses _ _ _ _).bind fun _ => trivial
  case get user id =>
    exact ((getReservation_uses user id).tryCatch notFoundAs404_uses).bind fun _ =>
      (Prog.uses_lift _).bind fun _ => trivial
  case available from_ to_ =>
    cases from_ with
    | none =>
      cases to_ with
      | none => exact listInstantAvailableHosts_uses.bind fun _ => trivial
      | some to_ => trivial
    | some from_ =>
      cases to_ with
      | none => trivial
      | some to_ =>
        exact (Prog.uses_lift _).bind fun _ => (Prog.uses_lift _).bind fun _ =>
          (Prog.uses_lift _).bind fun _ =>
            (Prog.uses_query (D := broker) (s := .idleHosts _ _) trivial).bind fun _ => trivial

end

/-! ## The routes keep the rules -/

/-- What was seen stays seen. -/
theorem Ran.mono {h h' : History} (hs : h <:+ h') {s : Stmt} {snap cur : Store}
    (hr : Ran h s snap cur) : Ran h' s snap cur := by
  obtain ⟨b, q, hr⟩ := hr
  exact ⟨b, q, hs.subset hr⟩

theorem Read.mono {h h' : History} (hs : h <:+ h') {t : ℤ} (hr : Read h t) : Read h' t :=
  hs.subset hr

theorem Booked.mono {h h' : History} (hs : h <:+ h') {userId hostId : ℤ}
    {startsAt endsAt : DateTime} (hb : Booked cfg j h userId hostId startsAt endsAt) :
    Booked cfg j h' userId hostId startsAt endsAt := by
  cases j with
  | create =>
    obtain ⟨h1, h2, h3, h4, h5, now, h6, h7⟩ := hb
    exact ⟨h1, h2, h3, h4, h5, now, h6.mono hs, h7⟩
  | instant =>
    obtain ⟨h1, h2, now, snap, cur, h3, h4, h5⟩ := hb
    exact ⟨h1, h2, now, snap, cur, h3.mono hs, h4.mono hs, h5⟩
  | _ => exact hb.elim

/-- `h'` goes on from `h` without a write. -/
structure Quiet (h h' : History) : Prop where
  suffix : h <:+ h'
  isOpen : Open h'
  pend : pendOf h' = pendOf h

theorem Quiet.refl (ho : Open h) : Quiet h h := ⟨List.suffix_refl h, ho, rfl⟩

theorem Quiet.trans {h h' h'' : History} (q : Quiet h h') (q' : Quiet h' h'') : Quiet h h'' :=
  ⟨q.suffix.trans q'.suffix, q'.isOpen, q'.pend.trans q.pend⟩

theorem Quiet.now (ho : Open h) (t : ℤ) : Quiet h (.now t :: h) :=
  ⟨List.suffix_cons _ _, ho.cons nofun, rfl⟩

/-- A statement without writes. -/
theorem Quiet.stmt (ho : Open h) {s : Stmt} {b : ℤ} {q : Seqs} {snap cur : Store}
    (hw : (broker.execOn (pendOf h) s b q snap cur).2.1 = []) :
    Quiet h (.stmt s b q snap cur :: h) :=
  ⟨List.suffix_cons _ _, ho.cons nofun, by rw [pendOf_stmt, hw, List.append_nil]⟩

theorem Ran.head (h : History) (s : Stmt) (b : ℤ) (q : Seqs) (snap cur : Store) :
    Ran (.stmt s b q snap cur :: h) s snap cur := ⟨b, q, List.mem_cons_self⟩

theorem execOn_eq (ws : List Write) (s : Stmt) (b : ℤ) (q : Seqs) (snap cur : Store) :
    broker.execOn ws s b q snap cur =
      s.exec b q (broker.applyAll snap ws) (broker.applyAll cur ws) := rfl

/-- A sequence whose first part has a specification. -/
theorem seq_ok {p : Service α} {f : α → Service β} {Q : History → α → Prop}
    {Q' : History → β → Prop} (hp : OkFor cfg j p Q h)
    (hf : ∀ h' a, Q h' a → OkFor cfg j (f a) Q' h') : OkFor cfg j (p >>= f) Q' h :=
  Prog.Ok.bind hp hf

theorem lift_ok (ho : Open h) {x : Except BrokerError α} {Q : History → α → Prop}
    (hx : ∀ a, x = .ok a → Q h a) : OkFor cfg j (Prog.lift x) Q h :=
  Prog.Ok.lift hx fun _ _ => ho

theorem lift_then (ho : Open h) {x : Except BrokerError α} {f : α → Service β}
    {Q : History → β → Prop} (hf : ∀ a, x = .ok a → OkFor cfg j (f a) Q h) :
    OkFor cfg j (Prog.lift x >>= f) Q h :=
  Prog.ok_bind.mpr (lift_ok ho hf)

theorem now_then {f : DateTime → Service β} {Q : History → β → Prop}
    (hf : ∀ t, OkFor cfg j (f (.utc t)) Q (.now t :: h)) : OkFor cfg j (_now >>= f) Q h := hf

theorem draw_then {f : String → Service β} {Q : History → β → Prop}
    (hf : ∀ n, OkFor cfg j (f n) Q (.draw n :: h)) : OkFor cfg j (tokenUrlsafe >>= f) Q h := hf

theorem execute_then (ho : Open h) {s : Stmt} (hs : pre cfg j h s) {f : s.Res → Service β}
    {Q : History → β → Prop} (hf : ∀ b q snap cur, RangesNonempty snap → RangesNonempty cur →
      OkFor cfg j (f (broker.execOn (pendOf h) s b q snap cur).2.2) Q (.stmt s b q snap cur :: h)) :
    OkFor cfg j (execute s >>= f) Q h := ⟨⟨ho, hs⟩, hf⟩

theorem calm_then {p : Service α} (hp : p.Uses Stmt.calm) (ho : Open h) {f : α → Service β}
    {Q : History → β → Prop} (hf : ∀ h' a, After h h' → OkFor cfg j (f a) Q h') :
    OkFor cfg j (p >>= f) Q h :=
  seq_ok (calm_ok hp ho) hf

/-! ### Booking -/

theorem validateWindow_ok (ho : Open h) (s e : DateTime) :
    OkFor cfg j (validateWindow cfg s e) (fun h' _ => Quiet h h' ∧ validateShape cfg s e = .ok () ∧
      ∃ now, Read h' now ∧ validateStart cfg s (.utc now) = .ok ()) h := by
  refine lift_then ho fun _ hv => now_then fun now => ?_
  have q : Quiet h (.now now :: h) := .now ho now
  exact lift_ok q.isOpen fun _ hs => ⟨q, hv, now, List.mem_cons_self, hs⟩

theorem validateHostExists_ok (ho : Open h) (hostId : ℤ) :
    OkFor cfg j (validateHostExists hostId) (fun h' _ => Quiet h h') h := by
  refine execute_then ho ?_ fun b q snap cur _ _ => ?_
  · trivial
  have hq : Quiet h (.stmt (.getHost hostId) b q snap cur :: h) := .stmt ho rfl
  split
  · exact hq.isOpen
  · exact hq

theorem validateQuota_ok (ho : Open h) (hp : pendOf h = []) (user : User) (s e : DateTime) :
    OkFor cfg j (validateQuota cfg user s e)
      (fun h' _ => Quiet h h' ∧ Quota cfg h' user.id s e) h := by
  refine now_then fun now => ?_
  have q0 : Quiet h (.now now :: h) := .now ho now
  rw [DateTime.instant_utc]
  refine execute_then q0.isOpen ?_ fun b q snap cur _ _ => ?_
  · exact hp
  have q1 : Quiet h (.stmt (.countConcurrent user.id now) b q snap cur :: _) :=
    q0.trans (.stmt q0.isOpen rfl)
  dsimp only
  refine lift_then q1.isOpen fun _ hcount => ?_
  refine execute_then q1.isOpen ?_ fun b' q' snap' cur' _ _ => ?_
  · exact q1.pend.trans hp
  have q2 : Quiet h (.stmt (.dailyRanges user.id (dayStartOf s).instant
      (dayStartOf s + dayUs).instant) b' q' snap' cur' :: _) := q1.trans (.stmt q1.isOpen rfl)
  refine lift_ok q2.isOpen fun _ hday => ⟨q2, ⟨now, snap, cur, ?_, ?_, ?_⟩, snap', cur', ?_, ?_⟩
  · exact List.mem_cons_of_mem _ (List.mem_cons_of_mem _ List.mem_cons_self)
  · exact (Ran.head _ _ b q snap cur).mono (List.suffix_cons _ _)
  · have hcount := not_le.mp (raiseIf_eq_ok.mp hcount)
    rw [execOn_eq, q0.pend, hp] at hcount
    exact hcount
  · exact Ran.head _ _ b' q' snap' cur'
  · have hday := not_lt.mp (raiseIf_eq_ok.mp hday)
    rw [execOn_eq, q1.pend, hp] at hday
    exact hday

/-- The INSERT of a reservation: a new row, or an error without one. -/
theorem exec_insertReservation (userId hostId s e b : ℤ) (q : Seqs) (snap cur : Store) :
    (∃ row : Reservation, row.timeRange.lower = s ∧ row.timeRange.upper = e ∧
      row.userId = userId ∧ row.hostId = hostId ∧ row.status = .confirmed ∧
      cur.violatedByReservation row = none ∧ row.id = q.reservation ∧
      (Stmt.insertReservation userId hostId s e).exec b q snap cur =
        ({ q with reservation := q.reservation + 1 }, [.insertReservation row], .ok row.id)) ∨
    ∃ err, (Stmt.insertReservation userId hostId s e).exec b q snap cur =
      ({ q with reservation := q.reservation + 1 }, [], .error err) := by
  simp only [Stmt.exec]
  split
  · exact .inr ⟨_, rfl⟩
  · rename_i range hr
    obtain ⟨h, rfl⟩ : ∃ h : s ≤ e, range = ⟨s, e, h⟩ := by
      unfold tstzrange at hr
      split_ifs at hr with h
      exact ⟨h, (Option.some.inj hr).symm⟩
    split
    · exact .inr ⟨_, rfl⟩
    · rename_i hv
      exact .inl ⟨Stmt.newReservation q.reservation userId hostId ⟨s, e, h⟩ b, rfl, rfl, rfl, rfl, rfl,
        hv, rfl, rfl⟩

/-- After its INSERT a booking has one row pending, and not an empty one. -/
theorem insertConfirmed_ok (ho : Open h) (hp : pendOf h = []) {user : User} {hostId : ℤ}
    {s e : DateTime} (hb : Booked cfg j h user.id hostId s e) (hq : Quota cfg h user.id s e) :
    OkFor cfg j (insertConfirmed user hostId s e) (fun h' id => h <:+ h' ∧ Open h' ∧
      ∃ row, pendOf h' = [.insertReservation row] ∧ row.id = id ∧ row.status = .confirmed ∧
        row.timeRange.lower < row.timeRange.upper) h := by
  refine execute_then ho ?_ fun b q snap cur _ _ => ?_
  · exact ⟨hp, s, e, rfl, rfl, hb, hq⟩
  rw [execOn_eq, hp]
  have ho' : Open (.stmt (Stmt.insertReservation user.id hostId s.instant e.instant) b q snap cur :: h) :=
    ho.cons nofun
  rcases exec_insertReservation user.id hostId s.instant e.instant b q (broker.applyAll snap [])
    (broker.applyAll cur []) with ⟨row, hl, hu, -, -, hst, -, -, hexec⟩ | ⟨err, hexec⟩
  · rw [hexec]
    refine ⟨List.suffix_cons _ _, ho', row, ?_, rfl, hst, by rw [hl, hu]; exact hb.lt⟩
    rw [pendOf_stmt, execOn_eq, hp, hexec]
    rfl
  · rw [hexec]
    cases err with
    | data => exact ho'
    | integrity c =>
      change OkFor cfg j (if _ then _ else _) _ (.rollback :: _)
      split_ifs
      · exact ho'.cons nofun
      · exact ho'.cons nofun

/-- What a booking leaves to its route. -/
abbrev BookingDone (h : History) (r : Reservation) : Prop :=
  Open h ∧ Seen h r ∧ Untouched h ∧ r.timeRange.lower < r.timeRange.upper

/-- `r` is the row `y`, or a committed one with its id. -/
def FoundAs (h : History) (y r : Reservation) : Prop :=
  r = y ∨ r.id = y.id ∧ ∃ s snap cur, Ran h s snap cur ∧ r ∈ snap.reservations

/-- A booking ends with the row it has inserted, or one with the same id. -/
theorem book_ok (ho : Open h) (hp : pendOf h = []) {user : User} {hostId : ℤ} {s e : DateTime}
    (hb : Booked cfg j h user.id hostId s e) (hq : Quota cfg h user.id s e) (instant : Bool) :
    OkFor cfg j (book user hostId s e instant) (fun h' r => BookingDone h' r ∧
      ∀ y, .insertReservation y ∈ pendOf h' → FoundAs h' y r) h := by
  refine seq_ok (insertConfirmed_ok ho hp hb hq) ?_
  rintro h' id ⟨-, ho', row, hp', rfl, -, hlt⟩
  refine execute_then ho' ?_ fun b q snap cur hi _ => ?_
  · trivial
  have ho'' : Open (.stmt (Stmt.getReservation row.id) b q snap cur :: h') := ho'.cons nofun
  split
  · exact ho''
  rename_i r hr
  have hmem : r ∈ snap.reservations ∨ r = row := by
    have := List.mem_of_find?_eq_some hr
    rw [reservations_applyAll, hp'] at this
    simpa [reservationTable, Table.updAll, Table.newAll, Write.onReservation,
      Write.newReservations] using this
  have hid : r.id = row.id := by simpa using List.find?_some hr
  have hpend : pendOf (.stmt (Stmt.getReservation row.id) b q snap cur :: h') =
      [.insertReservation row] := by
    rw [pendOf_stmt, hp']
    rfl
  refine calm_then (writeAudit_uses _) ho'' fun h'' _ a => ⟨⟨a.isOpen, ?_, ?_, ?_⟩, ?_⟩
  · obtain ⟨ws, e, -⟩ := a.pend
    rcases hmem with hmem | rfl
    · exact .inl ⟨snap, cur, hid ▸ (Ran.head h' _ b q snap cur).mono a.suffix, hmem⟩
    · exact .inr (by rw [e, hpend]; exact List.mem_append_left _ (List.mem_singleton_self _))
  · obtain ⟨ws, e, hw⟩ := a.pend
    intro w hw'
    rw [e, hpend] at hw'
    rcases List.mem_append.mp hw' with hw' | hw'
    · obtain rfl := List.mem_singleton.mp hw'
      exact ⟨rfl, rfl, rfl⟩
    · exact (hw w hw').untouched
  · rcases hmem with hmem | rfl
    · exact hi r hmem
    · exact hlt
  · obtain ⟨ws, e, hw⟩ := a.pend
    intro y hy
    rw [e, hpend] at hy
    rcases List.mem_append.mp hy with hy | hy
    · obtain rfl : y = row := by simpa using hy
      rcases hmem with hmem | rfl
      · exact .inr ⟨hid, _, snap, cur, (Ran.head h' _ b q snap cur).mono a.suffix, hmem⟩
      · exact .inl rfl
    · cases (hw _ hy).newReservations

theorem Quota.mono {h h' : History} (hs : h <:+ h') {userId : ℤ} {s e : DateTime}
    (hq : Quota cfg h userId s e) : Quota cfg h' userId s e := by
  obtain ⟨⟨now, snap, cur, h1, h2, h3⟩, snap', cur', h4, h5⟩ := hq
  exact ⟨⟨now, snap, cur, h1.mono hs, h2.mono hs, h3⟩, snap', cur', h4.mono hs, h5⟩

theorem createReservation_ok (ho : Open h) (hp : pendOf h = []) {user : User} {hostId : ℤ}
    {s e : DateTime} (hj : j = .create user hostId s e) :
    OkFor cfg j (createReservation cfg user hostId s e) BookingDone h := by
  refine seq_ok (validateWindow_ok ho s e) ?_
  rintro h₁ - ⟨q₁, hv, now, hr, hs⟩
  refine seq_ok (validateHostExists_ok q₁.isOpen hostId) fun h₂ _ q₂ => ?_
  have hp₂ : pendOf h₂ = [] := q₂.pend.trans (q₁.pend.trans hp)
  refine seq_ok (validateQuota_ok q₂.isOpen hp₂ user s e) ?_
  rintro h₃ - ⟨q₃, hq⟩
  refine (book_ok q₃.isOpen (q₃.pend.trans hp₂) ?_ hq false).mono fun _ _ hdone => hdone.1
  subst hj
  exact ⟨rfl, rfl, rfl, rfl, hv, now, hr.mono (q₂.suffix.trans q₃.suffix), hs⟩

theorem createInstantReservation_ok (ho : Open h) (hp : pendOf h = []) {user : User} {hostId : ℤ}
    (hj : j = .instant user hostId) :
    OkFor cfg j (createInstantReservation cfg user hostId) (fun h' r => BookingDone h' r ∧
      ∀ y, .insertReservation y ∈ pendOf h' → FoundAs h' y r) h := by
  refine now_then fun now => ?_
  have q₀ : Quiet h (.now now :: h) := .now ho now
  refine seq_ok (validateHostExists_ok q₀.isOpen hostId) fun h₁ host q₁ => ?_
  refine lift_then q₁.isOpen fun _ _ => ?_
  have hp₁ : pendOf h₁ = [] := q₁.pend.trans (q₀.pend.trans hp)
  refine seq_ok (Q := fun h' next => Quiet h₁ h' ∧ ∃ snap cur,
    Ran h' (.nextStart hostId now) snap cur ∧
      next = (Stmt.nextStartOf snap hostId now).map .utc) ?_ ?_
  · unfold nextReservationStart
    rw [DateTime.instant_utc]
    refine execute_then q₁.isOpen ?_ fun b q snap cur _ _ => ⟨.stmt q₁.isOpen rfl, snap, cur,
      .head _ _ b q snap cur, ?_⟩
    · exact hp₁
    · rw [execOn_eq, hp₁]
      rfl
  · rintro h₂ next ⟨q₂, snap, cur, hran, rfl⟩
    have hp₂ : pendOf h₂ = [] := q₂.pend.trans hp₁
    refine seq_ok (validateQuota_ok q₂.isOpen hp₂ user _ _) ?_
    rintro h₃ - ⟨q₃, hq⟩
    refine book_ok q₃.isOpen (q₃.pend.trans hp₂) ?_ hq true
    subst hj
    refine ⟨rfl, rfl, now, snap, cur, ?_, hran.mono q₃.suffix, rfl⟩
    exact (show Read (.now now :: h) now from List.mem_cons_self).mono
      (q₁.suffix.trans (q₂.suffix.trans q₃.suffix))

/-! ### Tokens -/

theorem Seen.after {h h' : History} (a : After h h') {r : Reservation} (hr : Seen h r) :
    Seen h' r := by
  rcases hr with ⟨snap, cur, hran, hmem⟩ | hp
  · exact .inl ⟨snap, cur, hran.mono a.suffix, hmem⟩
  · obtain ⟨ws, e, -⟩ := a.pend
    exact .inr (by rw [e]; exact List.mem_append_left _ hp)

theorem Untouched.after {h h' : History} (a : After h h') (hu : Untouched h) :
    Untouched h' := by
  obtain ⟨ws, e, hw⟩ := a.pend
  intro w hw'
  rw [e] at hw'
  rcases List.mem_append.mp hw' with hw' | hw'
  · exact hu w hw'
  · exact (hw w hw').untouched

theorem onToken_eq_self {w : Write} (h : w.updatedTokens = []) (t : Token) : w.onToken t = t := by
  cases w <;> first | rfl | (obtain rfl := h; rfl)

theorem onReservation_eq_self {w : Write} (h : w.updatedReservations = []) (r : Reservation) :
    w.onReservation r = r := by
  cases w <;> first | rfl | (obtain rfl := h; rfl)

/-- Writes that touch no token leave the table as it is. -/
theorem tokens_of_untouched {ws : List Write}
    (hu : ∀ w ∈ ws, w.newTokens = [] ∧ w.updatedTokens = []) : ∀ st : Store,
    (broker.applyAll st ws).tokens = st.tokens := by
  induction ws with
  | nil => exact fun _ => rfl
  | cons w ws ih =>
    intro st
    refine (ih (fun w hw => hu w (List.mem_cons_of_mem _ hw)) (st.apply w)).trans ?_
    obtain ⟨hn, hup⟩ := hu w List.mem_cons_self
    simp [Store.apply, hn, funext (onToken_eq_self hup)]

/-- The UPDATE that revokes tokens, in an untouched table. -/
theorem revoke_pend {h : History} (hu : Untouched h) (s : Stmt) (p : Token → Bool) (now : ℤ)
    (hs : ∀ b q snap cur, (s.exec b q snap cur).2.1 =
      [.revokeTokens (Stmt.hits Token.id p snap.tokens cur.tokens) now]) (b : ℤ) (q : Seqs)
    (snap cur : Store) : pendOf (.stmt s b q snap cur :: h) =
      pendOf h ++ [.revokeTokens (Stmt.hits Token.id p snap.tokens cur.tokens) now] := by
  have hw : ∀ w ∈ pendOf h, w.newTokens = [] ∧ w.updatedTokens = [] :=
    fun w hw => ⟨(hu w hw).1, (hu w hw).2.1⟩
  rw [pendOf_stmt, execOn_eq, hs, tokens_of_untouched hw, tokens_of_untouched hw]

theorem orRaise_ok (ho : Open h) {x : Except SqlError α} {Q : History → α → Prop}
    (hQ : ∀ a, Q h a) : OkFor cfg j (orRaise x) Q h := by
  cases x with
  | ok a => exact hQ a
  | error e => exact ho

theorem issueConnectToken_ok (ho : Open h) (hu : Untouched h) {user : User} {r : Reservation}
    (hr : Seen h r) :
    OkFor cfg j (issueConnectToken cfg hashRaw user r) (fun h' _ => Open h') h := by
  refine lift_then ho fun bounds hgate => now_then fun now => ?_
  obtain ⟨-, hst, -, rfl⟩ := connectGate_eq_ok.mp hgate
  have ho₁ : Open (.now now :: h) := ho.now now
  refine lift_then ho₁ fun _ hwin => ?_
  obtain ⟨hgrace, hend⟩ := connectWindow_eq_ok.mp hwin
  simp only [DateTime.instant_utc] at hgrace hend
  refine seq_ok (Q := fun h' _ => Open h' ∧ h <:+ h' ∧ Read h' now ∧ ∃ t snap cur,
    Ran h' (.revokeConnectTokens r.id t) snap cur ∧ pendOf h' = pendOf h ++
      [.revokeTokens (Stmt.hits Token.id (Stmt.connectTokenOf r.id) snap.tokens cur.tokens) t]) ?_ ?_
  · refine now_then fun t => ?_
    rw [DateTime.instant_utc]
    refine ⟨⟨ho₁.now t, hu⟩, fun b q snap cur _ _ => ⟨(ho₁.now t).stmt _ b q snap cur, ?_, ?_, t,
      snap, cur, .head _ _ b q snap cur, revoke_pend hu _ _ t (fun _ _ _ _ => rfl) b q snap cur⟩⟩
    · exact (((List.suffix_cons _ _).trans (List.suffix_cons _ _)).trans (List.suffix_cons _ _))
    · exact List.mem_cons_of_mem _ (List.mem_cons_of_mem _ List.mem_cons_self)
  · rintro h' - ⟨ho', hsuf, hread, t, snap, cur, hran, hpend⟩
    refine draw_then fun raw => execute_then (ho'.draw raw) ?_ fun b q snap' cur' _ _ => ?_
    · refine ⟨fun w hw => ?_, r, ?_, hst, rfl, rfl, by simp, ⟨now, ?_, hgrace, hend⟩, t, snap, cur,
        ?_, ?_⟩
      · rw [pendOf_draw, hpend] at hw
        rcases List.mem_append.mp hw with hw | hw
        · exact ⟨(hu w hw).1, (hu w hw).2.2⟩
        · obtain rfl := List.mem_singleton.mp hw
          exact ⟨rfl, rfl⟩
      · rcases hr with ⟨snap₀, cur₀, h1, h2⟩ | h1
        · exact .inl ⟨snap₀, cur₀, h1.mono (hsuf.trans (List.suffix_cons _ _)), h2⟩
        · exact .inr (by rw [pendOf_draw, hpend]; exact List.mem_append_left _ h1)
      · exact hread.mono (List.suffix_cons _ _)
      · exact hran.mono (List.suffix_cons _ _)
      · rw [pendOf_draw, hpend]
        exact List.mem_append_right _ (List.mem_singleton_self _)
    · refine seq_ok (Q := fun h' _ => Open h') (orRaise_ok ?_ fun _ => ?_) fun _ _ h => h
      · exact (ho'.draw raw).stmt _ b q snap' cur'
      · exact (ho'.draw raw).stmt _ b q snap' cur'

theorem issueAgentToken_ok (ho : Open h) (hu : Untouched h) (host : Host) (admin : User) :
    OkFor cfg j (issueAgentToken cfg hashRaw host admin) (fun h' _ => Open h') h := by
  refine seq_ok (Q := fun h' _ => Open h' ∧ ∃ t snap cur,
    Ran h' (.revokeAgentTokens host.id t) snap cur ∧ pendOf h' = pendOf h ++
      [.revokeTokens (Stmt.hits Token.id (Stmt.agentTokenOf host.id) snap.tokens cur.tokens) t]) ?_ ?_
  · refine now_then fun t => ?_
    rw [DateTime.instant_utc]
    exact ⟨⟨ho.now t, hu⟩, fun b q snap cur _ _ => ⟨(ho.now t).stmt _ b q snap cur, t, snap, cur,
      .head _ _ b q snap cur, revoke_pend hu _ _ t (fun _ _ _ _ => rfl) b q snap cur⟩⟩
  · rintro h' - ⟨ho', t, snap, cur, hran, hpend⟩
    refine now_then fun now => draw_then fun raw => ?_
    refine execute_then ((ho'.now now).draw raw) ?_ fun b q snap' cur' _ _ => ?_
    · refine ⟨fun w hw => ?_, host.id, rfl, rfl, t, snap, cur, ?_, ?_⟩
      · rw [pendOf_draw, pendOf_now, hpend] at hw
        rcases List.mem_append.mp hw with hw | hw
        · exact ⟨(hu w hw).1, (hu w hw).2.2⟩
        · obtain rfl := List.mem_singleton.mp hw
          exact ⟨rfl, rfl⟩
      · exact hran.mono ((List.suffix_cons _ _).trans (List.suffix_cons _ _))
      · rw [pendOf_draw, pendOf_now, hpend]
        exact List.mem_append_right _ (List.mem_singleton_self _)
    · refine seq_ok (Q := fun h' _ => Open h') (orRaise_ok ?_ fun _ => ?_) fun _ _ h => h
      · exact ((ho'.now now).draw raw).stmt _ b q snap' cur'
      · exact ((ho'.now now).draw raw).stmt _ b q snap' cur'

theorem issueConnectTokenResponse_ok (ho : Open h) (hu : Untouched h) {user : User}
    {r : Reservation} (hr : Seen h r) (client : Option String) :
    OkFor cfg j (issueConnectTokenResponse cfg hashRaw user r client) (fun h' _ => Open h') h := by
  refine execute_then ho ?_ fun b q snap cur _ _ => ?_
  · trivial
  have a : After h (.stmt (Stmt.getHost r.hostId) b q snap cur :: h) := by
    refine (After.refl ho).stmt ?_
    simp [execOn_eq, Stmt.exec]
  split
  · exact a.isOpen
  refine seq_ok (issueConnectToken_ok a.isOpen (hu.after a) (hr.after a)) fun h₁ _ ho₁ => ?_
  refine calm_then (auditRevoked_uses _ _ _) ho₁ fun h₂ _ a₂ => ?_
  exact calm_then (writeAudit_uses _) a₂.isOpen fun h₃ _ a₃ => a₃.isOpen

/-! ### Routes -/

/-- The last step of a route that writes. -/
theorem commit_then (ho : Open h) {f : Unit → Service β} {Q : History → β → Prop}
    (hf : OkFor cfg j (f ()) Q (.commit :: h)) : OkFor cfg j (commit >>= f) Q h := ⟨ho, hf⟩

/-- The handler of a `try` that only raises. -/
theorem try_ok {p : Service α} {g : BrokerError → Service α} {Q : History → α → Prop}
    (hg : ∀ h e, Open h → OkFor cfg j (g e) Q h) (hp : OkFor cfg j p Q h) :
    OkFor cfg j (tryCatch p g) Q h :=
  Prog.Ok.tryCatch (X := fun h _ => Open h) hg hp

theorem hostNotFoundAsWindow_ok (hostId : ℤ) (e : BrokerError) (ho : Open h)
    {Q : History → Reservation → Prop} : OkFor cfg j (hostNotFoundAsWindow hostId e) Q h := by
  cases e <;> exact ho

theorem instantErrors_ok (hostId : ℤ) (e : BrokerError) (ho : Open h)
    {Q : History → Reservation → Prop} : OkFor cfg j (instantErrors hostId e) Q h := by
  cases e <;> exact ho

theorem notFoundAs404_ok (e : BrokerError) (ho : Open h)
    {Q : History → Reservation → Prop} : OkFor cfg j (notFoundAs404 e) Q h := by
  cases e <;> exact ho

theorem create_ok (user : User) (hostId : ℤ) (s e : DateTime) :
    OkFor cfg (.create user hostId s e) (createReservationEndpoint cfg user hostId s e)
      (answers hashRaw (.create user hostId s e)) [] := by
  have ho : Open [] := by simp [Open]
  refine lift_then ho fun payload hv => ?_
  have hpay : payload.hostId = hostId ∧ payload.startsAt = s ∧ payload.endsAt = e := by
    unfold ReservationCreate.validate at hv
    split_ifs at hv
    obtain rfl := Except.ok.inj hv
    exact ⟨rfl, rfl, rfl⟩
  obtain ⟨rfl, rfl, rfl⟩ := hpay
  refine seq_ok (try_ok (fun h e ho => hostNotFoundAsWindow_ok _ e ho)
    (createReservation_ok ho rfl rfl)) fun h r hr => ?_
  refine commit_then hr.1 ?_
  -- the row read back is not empty, so the answer cannot fail after the commit
  have hb : reservationBounds r = .ok _ := reservationBounds_eq_ok.mpr ⟨hr.2.2.2, rfl⟩
  simp only [toRead, hb]
  trivial

theorem instant_ok (user : User) (hostId : ℤ) :
    OkFor cfg (.instant user hostId) (instantReservationEndpoint cfg hashRaw user hostId)
      (answers hashRaw (.instant user hostId)) [] := by
  have ho : Open [] := by simp [Open]
  refine lift_then ho fun _ _ => ?_
  refine seq_ok (try_ok (fun h e ho => instantErrors_ok hostId e ho)
    (createInstantReservation_ok ho rfl rfl)) fun h r hr => ?_
  refine seq_ok (issueConnectTokenResponse_ok hr.1.1 hr.1.2.2.1 hr.1.2.1 _) fun h₁ _ ho₁ => ?_
  exact calm_then (markInUse_uses r) ho₁ fun h₂ _ a => commit_then a.isOpen trivial

/-- The row that `get_reservation` returns, for a request with nothing pending. -/
theorem getReservation_ok (ho : Open h) (hp : pendOf h = []) (user : User) (id : ℤ) :
    OkFor cfg j (getReservation user id) (fun h' r => Quiet h h' ∧
      (∃ snap cur, Ran h' (.getReservation id) snap cur ∧ r ∈ snap.reservations) ∧ r.id = id ∧
        (user.role = .admin ∨ r.userId = user.id)) h := by
  refine execute_then ho ?_ fun b q snap cur _ _ => ?_
  · trivial
  have hq : Quiet h (.stmt (Stmt.getReservation id) b q snap cur :: h) := .stmt ho rfl
  rw [execOn_eq, hp]
  split
  · exact hq.isOpen
  rename_i r hr
  refine lift_then hq.isOpen fun _ ha => ⟨hq, ⟨snap, cur, .head _ _ b q snap cur, ?_⟩, ?_, ?_⟩
  · exact List.mem_of_find?_eq_some hr
  · simpa using List.find?_some hr
  · exact assertCanAccess_eq_ok.mp ha

theorem cancel_ok (user : User) (id : ℤ) :
    OkFor cfg (.cancel user id) (cancelReservationEndpoint user id)
      (answers hashRaw (.cancel user id)) [] := by
  have ho : Open [] := by simp [Open]
  refine seq_ok (Q := fun h _ => Open h) (try_ok (fun h e ho => notFoundAs404_ok e ho) ?_)
    fun h r ho => ?_
  · refine seq_ok (getReservation_ok ho rfl user id) ?_
    rintro h r ⟨q, ⟨snap, cur, hran, hmem⟩, hid, hacc⟩
    split
    · exact q.isOpen
    rename_i hst
    refine now_then fun now => ?_
    rw [DateTime.instant_utc]
    have q₁ : Quiet h (.now now :: h) := .now q.isOpen now
    refine execute_then q₁.isOpen ?_ fun b q' snap' cur' _ _ => ?_
    · refine ⟨q₁.pend.trans q.pend, List.mem_cons_self, user, r, snap, cur, by rw [hid], ?_, hmem, rfl,
        hst, hacc⟩
      rw [hid]
      exact hran.mono q₁.suffix
    · refine calm_then (refresh_uses r) (q₁.isOpen.stmt _ b q' snap' cur') fun h₂ r₂ a₂ => ?_
      exact calm_then (writeAudit_uses _) a₂.isOpen fun h₃ _ a₃ => a₃.isOpen
  · exact calm_then (releaseHost_uses r) ho fun h₁ _ a => commit_then a.isOpen trivial

theorem connect_ok (user : User) (id : ℤ) (client : Option String) :
    OkFor cfg (.connect user id client) (connectTokenEndpoint cfg hashRaw user id client)
      (answers hashRaw (.connect user id client)) [] := by
  have ho : Open [] := by simp [Open]
  refine lift_then ho fun _ _ => ?_
  refine seq_ok (try_ok (fun h e ho => notFoundAs404_ok e ho) (getReservation_ok ho rfl user id)) ?_
  rintro h r ⟨q, ⟨snap, cur, hran, hmem⟩, rfl, -⟩
  have hp : pendOf h = [] := q.pend
  refine seq_ok (issueConnectTokenResponse_ok q.isOpen (by simp [Untouched, hp])
    (.inl ⟨snap, cur, hran, hmem⟩) client) fun h₁ _ ho₁ => ?_
  exact commit_then ho₁ trivial

theorem answerVerify_ok (ho : Open h) {action : String} {targetId : Option ℤ} {detail : Detail}
    {response : TokenVerifyResponse} {Q : History → Reply → Prop}
    (hQ : ∀ h', After h h' → Q (.commit :: h') (.verified response)) :
    OkFor cfg j (answerVerify action targetId detail response) Q h :=
  calm_then (writeAudit_uses _) ho fun h' _ a => commit_then a.isOpen (hQ h' a)

theorem answerInvalid_ok (ho : Open h) (reason : String) (targetId : Option ℤ) (raw : String)
    (consume : Bool) : OkFor cfg j (answerInvalid reason targetId)
      (answers hashRaw (.verify raw consume)) h :=
  answerVerify_ok ho fun _ _ => nofun

/-- The row that `verify_connect_token` returns. -/
theorem verifyConnectToken_ok (ho : Open h) (hp : pendOf h = []) (raw : String) :
    OkFor cfg j (verifyConnectToken hashRaw raw) (fun h' res => Quiet h h' ∧ ∀ t, res = some t →
      ∃ now snap cur, Ran h' (.tokenByJti .connect (hashRaw raw) now) snap cur ∧
        t ∈ snap.tokens ∧ Stmt.valid .connect (hashRaw raw) now t = true) h := by
  unfold verifyConnectToken
  split_ifs
  · exact Prog.ok_pure.mpr ⟨.refl ho, by simp⟩
  · refine now_then fun now => ?_
    have q₀ : Quiet h (.now now :: h) := .now ho now
    rw [DateTime.instant_utc]
    refine ⟨⟨q₀.isOpen, hp⟩, fun b q snap cur _ _ => ⟨q₀.trans (.stmt q₀.isOpen rfl), ?_⟩⟩
    intro t ht
    rw [execOn_eq, q₀.pend, hp] at ht
    exact ⟨now, snap, cur, .head _ _ b q snap cur, List.mem_of_find?_eq_some ht,
      List.find?_some ht⟩

/-- `mark_consumed` leaves the consumption pending exactly if it succeeds. -/
theorem markConsumed_ok (ho : Open h) (hp : pendOf h = []) {raw : String} (hj : j = .verify raw true)
    {token : Token} {now : ℤ} {snap cur : Store}
    (hran : Ran h (.tokenByJti .connect (hashRaw raw) now) snap cur) (hmem : token ∈ snap.tokens) :
    OkFor cfg j (markConsumed token) (fun h' consumed => h <:+ h' ∧ Open h' ∧
      (consumed = true → ∃ t, pendOf h' = [.consumeTokens [token.id] t])) h := by
  refine now_then fun t => ?_
  rw [DateTime.instant_utc]
  refine execute_then (ho.now t) ?_ fun b q snap' cur' _ _ => ⟨?_, (ho.now t).stmt _ b q snap' cur', ?_⟩
  · exact ⟨hp, raw, hj, _, _, now, snap, cur, token, hran.mono (List.suffix_cons _ _), hmem, rfl⟩
  · exact (List.suffix_cons _ _).trans (List.suffix_cons _ _)
  · intro hone
    refine ⟨t, ?_⟩
    rw [execOn_eq, pendOf_now, hp] at hone
    rw [pendOf_stmt, execOn_eq, pendOf_now, hp]
    change (_ == 1) = true at hone
    obtain ⟨id, hid⟩ := List.length_eq_one_iff.mp (beq_iff_eq.mp hone)
    have hx := (mem_hits.mp (hid ▸ List.mem_singleton_self id)).1
    obtain ⟨x, -, hx, rfl⟩ := hx
    obtain e : x.id = token.id := by
      simp only [Stmt.consumable, Bool.and_eq_true, beq_iff_eq] at hx
      exact hx.1
    change [Write.consumeTokens _ t] = _
    rw [hid, e]

theorem verify_ok (raw : String) (consume : Bool) :
    OkFor cfg (.verify raw consume) (verifyTokenEndpoint hashRaw raw consume)
      (answers hashRaw (.verify raw consume)) [] := by
  have ho : Open [] := by simp [Open]
  refine lift_then ho fun _ _ => ?_
  refine seq_ok (verifyConnectToken_ok ho rfl raw) fun h res hres => ?_
  obtain ⟨q, hres⟩ := hres
  cases res with
  | none => exact answerInvalid_ok q.isOpen _ _ raw consume
  | some token =>
    obtain ⟨now, snap, cur, hran, hmem, hvalid⟩ := hres token rfl
    cases consume with
    | false =>
      refine answerVerify_ok q.isOpen fun h' a _ => ⟨now, snap, cur, token, ?_, hmem, hvalid, nofun⟩
      exact (hran.mono a.suffix).mono (List.suffix_cons _ _)
    | true =>
      refine seq_ok (markConsumed_ok q.isOpen q.pend rfl hran hmem) ?_
      rintro h' consumed ⟨hsuf, ho', hcons⟩
      cases consumed with
      | false => exact answerInvalid_ok ho' _ _ raw true
      | true =>
        obtain ⟨t, hp⟩ := hcons rfl
        refine answerVerify_ok ho' fun h'' a _ => ⟨now, snap, cur, token, ?_, hmem, hvalid, fun _ => ?_⟩
        · exact hran.mono (hsuf.trans (a.suffix.trans (List.suffix_cons _ _)))
        · obtain ⟨ws, e, -⟩ := a.pend
          refine ⟨[token.id], t, ?_, List.mem_singleton_self _⟩
          rw [doneOf_commit, e, hp]
          exact List.mem_append_right _ (List.mem_append_left _ (List.mem_singleton_self _))

theorem rotate_ok (admin : User) (hostId : ℤ) :
    OkFor cfg (.rotateAgentToken admin hostId) (rotateAgentTokenEndpoint cfg hashRaw admin hostId)
      (answers hashRaw (.rotateAgentToken admin hostId)) [] := by
  have ho : Open [] := by simp [Open]
  refine lift_then ho fun _ _ => execute_then ho ?_ fun b q snap cur _ _ => ?_
  · trivial
  have hq : Quiet [] (.stmt (Stmt.getHost hostId) b q snap cur :: []) := .stmt ho rfl
  split
  · exact hq.isOpen
  · refine seq_ok (issueAgentToken_ok hq.isOpen (by simp [Untouched, hq.pend]) _ admin)
      fun h₁ _ ho₁ => commit_then ho₁ trivial

/-- **Every route keeps the rules.** -/
theorem handle_ok (j : Job) : OkFor cfg j (handle cfg hashRaw j) (answers hashRaw j) [] := by
  have ho : Open [] := by simp [Open]
  cases j with
  | create user hostId s e => exact create_ok user hostId s e
  | instant user hostId => exact instant_ok user hostId
  | cancel user id => exact cancel_ok user id
  | connect user id client => exact connect_ok user id client
  | verify raw consume => exact verify_ok raw consume
  | rotateAgentToken admin hostId => exact rotate_ok admin hostId
  | list | calendar | get | available =>
    exact (calm_ok (handle_uses_of_read trivial) ho).mono fun _ _ _ => trivial

end SmartClassroom
