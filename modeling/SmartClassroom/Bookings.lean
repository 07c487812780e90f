/-
  The bookings as a register.

  `Store.register`: what the table of reservations says, as a `Register`.  In any
  interleaving a commit leaves it or does one action that its request may do:
  a booking enters what was free, a cancellation strikes out an entry of its
  user, or any if he is an admin (`register_commit`).  So each run of the broker
  is a run of the register (`bookings_refine`), and what is not in force any more
  was cancelled by somebody entitled to (`cancelled_by`).
-/
import SmartClassroom.Constraints
import SmartClassroom.HostJobs
import SmartClassroom.Issue
import SmartClassroom.Lib.Register

namespace SmartClassroom

open Txn Register

def Reservation.entry (r : Reservation) : RegisterEntry ℤ ℤ ℤ :=
  ⟨r.hostId, r.userId, r.timeRange.lower, r.timeRange.upper, r.status.active⟩

def Store.register (st : Store) : Register ℤ ℤ ℤ ℤ :=
  fun id => (st.reservations.find? fun r => r.id == id).map Reservation.entry

/-- The actions on the register that a request may do. -/
def Job.mayDo : Job → Action ℤ ℤ ℤ ℤ → Prop
  | .create user hostId startsAt endsAt, .enter _ room who from_ until_ =>
    room = hostId ∧ who = user.id ∧ from_ = startsAt.instant ∧ until_ = endsAt.instant
  | .instant user hostId, .enter _ room who _ _ => room = hostId ∧ who = user.id
  | .cancel user id, .strike id' who manager => id' = id ∧ who = user.id ∧ manager = decide (user.role = .admin)
  | _, _ => False

/-! ## The table and the register -/

theorem register_eq_some {st : Store} (hst : Consistent st) {id : ℤ} {e : RegisterEntry ℤ ℤ ℤ} :
    st.register id = some e ↔ ∃ r ∈ st.reservations, r.id = id ∧ r.entry = e := by
  rw [Store.register, Option.map_eq_some_iff]
  constructor
  · rintro ⟨r, hr, rfl⟩
    exact ⟨r, List.mem_of_find?_eq_some hr, by simpa using List.find?_some hr, rfl⟩
  · rintro ⟨r, hr, rfl, rfl⟩
    obtain ⟨x, hx⟩ := Option.isSome_iff_exists.mp
      (List.find?_isSome (p := fun x : Reservation => x.id == r.id) |>.mpr ⟨r, hr, beq_self_eq_true _⟩)
    refine ⟨x, hx, ?_⟩
    have hid : x.id = r.id := by simpa using List.find?_some hx
    rw [hst.reservation_eq (List.mem_of_find?_eq_some hx) hr hid]

theorem register_eq_none {st : Store} {id : ℤ} : st.register id = none ↔ ∀ r ∈ st.reservations, r.id ≠ id := by
  simp [Store.register]

theorem not_collide_of_not_clashes {x y : Reservation} (hx : x.timeRange.lower < x.timeRange.upper)
    (hy : y.timeRange.lower < y.timeRange.upper) (h : ¬x.Clashes y) : ¬Collide x.entry y.entry := by
  rintro ⟨hax, hay, hroom, hlt, hlt'⟩
  refine h (.inr ?_)
  simp only [Reservation.entry] at hax hay hroom hlt hlt'
  simp [Reservation.excludes, TsRange.overlaps, hax, hay, hroom, hx, hy, hlt, hlt']

/-- The entries of a consistent store. -/
theorem register_sound {st : Store} (hst : Consistent st) : Sound st.register where
  apart id id' e e' hne he he' := by
    obtain ⟨x, hx, rfl, rfl⟩ := (register_eq_some hst).mp he
    obtain ⟨y, hy, rfl, rfl⟩ := (register_eq_some hst).mp he'
    refine not_collide_of_not_clashes (hst.ranges x hx) (hst.ranges y hy) ?_
    exact fun hc => hne (eq_of_clash Reservation.Clashes.symm hst.reservations hx hy hc ▸ rfl)
  nonempty id e he := by
    obtain ⟨x, hx, rfl, rfl⟩ := (register_eq_some hst).mp he
    exact hst.ranges x hx

/-! ## Commits -/

section
variable {cfg : Settings} {hashRaw : String → String} {j : Job} {h : History} {I : Store → Prop}

/-- A transaction books or cancels at most once, and first of all. -/
theorem pend_reservations (hk : Kept I (rules cfg j) h) :
    (∀ w ∈ pendOf h, w.newReservations = [] ∧ w.updatedReservations = []) ∨
      ∃ w ws, pendOf h = w :: ws ∧ (∀ w' ∈ ws, w'.newReservations = [] ∧ w'.updatedReservations = []) ∧
        ((∃ y, w = .insertReservation y) ∨ ∃ ids t, w = .cancelReservations ids t) := by
  have hone : (pendOf h).Pairwise fun _ w => w.newReservations = [] ∧ w.updatedReservations = [] := by
    refine pend_pairwise (fun h s b q snap cur hs w' hw' w hw => ?_) hk
    by_contra hne
    rw [not_and_or] at hne
    simp [pre_of_reservations hs hw' hne] at hw
  cases hp : pendOf h with
  | nil => exact .inl (by simp)
  | cons w ws =>
    rw [hp, List.pairwise_cons] at hone
    cases w with
    | insertReservation y => exact .inr ⟨_, ws, rfl, hone.1, .inl ⟨y, rfl⟩⟩
    | cancelReservations ids t => exact .inr ⟨_, ws, rfl, hone.1, .inr ⟨ids, t, rfl⟩⟩
    | _ => exact .inl (List.forall_mem_cons.mpr ⟨⟨rfl, rfl⟩, hone.1⟩)

/-- A pending cancellation: of the rows with one id, which the user has seen and
    may cancel. -/
theorem pending_cancel (hk : Kept I (rules cfg j) h) {ids : List ℤ} {t : ℤ}
    (hw : .cancelReservations ids t ∈ pendOf h) : ∃ id snap cur st, MayCancel j h id ∧ Ran h st snap cur ∧
      ids = Stmt.hits Reservation.id (·.id == id) snap.reservations cur.reservations := by
  obtain ⟨s, b, q, snap, cur, h₀, hsuf, ⟨-, hpre⟩, -, -, hw, -⟩ := hk.origin hw
  obtain ⟨id, rfl, rfl⟩ := writes_cancelReservations hw
  obtain ⟨hnil, -, hmay⟩ := hpre
  have hsuf' : h₀ <:+ h := (List.suffix_cons _ _).trans hsuf
  refine ⟨id, snap, cur, _, ?_, ⟨b, q, hsuf.subset List.mem_cons_self⟩, by rw [hnil]; rfl⟩
  obtain ⟨user, r, snap', cur', h1, h2, h3⟩ := hmay
  exact ⟨user, r, snap', cur', h1, h2.mono hsuf', h3⟩

/-- The reservations after a commit whose first write alone is about them. -/
theorem reservations_applyAll_cons (db : Store) {w : Write} {ws : List Write}
    (hws : ∀ w' ∈ ws, w'.newReservations = [] ∧ w'.updatedReservations = []) :
    (broker.applyAll db (w :: ws)).reservations = db.reservations.map w.onReservation ++ w.newReservations :=
  reservations_applyAll_spares hws (db.apply w)

theorem register_congr {st st' : Store} (h : st'.reservations = st.reservations) : st'.register = st.register := by
  unfold Store.register
  rw [h]

/-- A new row is a new entry. -/
theorem register_insert {db db' : Store} {y : Reservation} (hdb' : Consistent db')
    (h : db'.reservations = db.reservations ++ [y]) :
    db.register y.id = none ∧ db'.register = Function.update db.register y.id (some y.entry) := by
  have hnew : ∀ r ∈ db.reservations, r.id ≠ y.id := by
    intro r hr
    have hpw := hdb'.reservations
    rw [h, List.pairwise_append] at hpw
    exact fun hid => hpw.2.2 r hr y (List.mem_singleton_self y) (.inl hid)
  refine ⟨register_eq_none.mpr hnew, funext fun id => ?_⟩
  rw [Function.update_apply, Store.register, h, List.find?_append]
  split_ifs with hid
  · rw [List.find?_eq_none.mpr fun r hr => by simpa [hid] using hnew r hr]
    simp [hid]
  · have hne : ¬y.id = id := fun h => hid h.symm
    simp [hne, Store.register]

/-- The rows with the ids, struck out. -/
theorem register_cancel {db db' : Store} {ids : List ℤ} {t : ℤ}
    (h : db'.reservations = db.reservations.map (Write.cancelReservations ids t).onReservation) :
    db'.register = fun id => if id ∈ ids then (db.register id).map struck else db.register id := by
  funext id
  have hfind : (fun r : Reservation => r.id == id) ∘ (Write.cancelReservations ids t).onReservation =
      fun r => r.id == id := funext fun r => by simp
  rw [Store.register, h, List.find?_map, hfind, Option.map_map, Store.register]
  cases hr : db.reservations.find? fun r => r.id == id with
  | none => simp
  | some r =>
    have hid : r.id = id := by simpa using List.find?_some hr
    simp only [Option.map_some, Function.comp, Write.onReservation, List.contains_iff_mem, hid]
    split_ifs <;> rfl

end

section
variable {cfg : Settings} {hashRaw : String → String} {C : System → Label Job ℤ String → Prop} {db : Store}
  {aux : Seqs} {clock : ℤ} {s s' : System} {st st' : Store}

/-- A booking commits an entry that its request may make. -/
theorem enter_of_commit (hst' : Consistent st') {j : Job} {h : History} {I : Store → Prop}
    (hk : Kept I (rules cfg j) h) {y : Reservation} (hy : .insertReservation y ∈ pendOf h)
    (hrows : st'.reservations = st.reservations ++ [y]) :
    ∃ a, j.mayDo a ∧ Step a st.register st'.register := by
  obtain ⟨hconf, startsAt, endsAt, hlow, hup, hb, -⟩ := pending_reservation hk hy
  obtain ⟨hnew, hreg⟩ := register_insert hst' hrows
  have hsound := register_sound hst'
  have hentry : y.entry = ⟨y.hostId, y.userId, y.timeRange.lower, y.timeRange.upper, true⟩ := by
    rw [Reservation.entry, hconf]
    rfl
  refine ⟨.enter y.id y.hostId y.userId y.timeRange.lower y.timeRange.upper, ?_, hnew, ?_, fun id e he => ?_, ?_⟩
  · cases j with
    | create user hostId s e =>
      obtain ⟨h1, h2, rfl, rfl, -⟩ := hb
      exact ⟨h2, h1, hlow, hup⟩
    | instant user hostId => exact ⟨hb.2.1, hb.1⟩
    | _ => exact hb.elim
  · exact hsound.nonempty y.id y.entry (by simp [hreg])
  · have hne : id ≠ y.id := fun h => by simp [h, hnew] at he
    exact hentry ▸ hsound.apart y.id id y.entry e hne.symm (by simp [hreg]) (by simp [hreg, hne, he])
  · rw [hreg, hentry]

/-- A cancellation commits nothing new, or strikes out an entry that its user may. -/
theorem strike_of_commit (hst : Consistent st) {j : Job} {h : History} {I : Store → Prop}
    (hk : Kept I (rules cfg j) h) (hpast : ∀ e ∈ h, e.Past Store.Evolves st clock) {ids : List ℤ} {t : ℤ}
    (hw : .cancelReservations ids t ∈ pendOf h)
    (hrows : st'.reservations = st.reservations.map (Write.cancelReservations ids t).onReservation) :
    st'.register = st.register ∨ ∃ a, j.mayDo a ∧ Step a st.register st'.register := by
  obtain ⟨id, snap', cur', -, ⟨user, r, snap, cur, rfl, hran, hr, rfl, -, hmay⟩, -, hids⟩ := pending_cancel hk hw
  have hone : ∀ id ∈ ids, id = r.id := by
    intro id hid
    obtain ⟨⟨x, -, hx, rfl⟩, -⟩ := mem_hits.mp (hids ▸ hid)
    exact beq_iff_eq.mp hx
  obtain ⟨r', hr', hev⟩ := (hran.evolves hpast).reservations r hr
  have hat : st.register r.id = some r'.entry := (register_eq_some hst).mpr ⟨r', hr', hev.id, rfl⟩
  rw [register_cancel hrows]
  by_cases hmem : r.id ∈ ids
  · have hreg : (fun id => if id ∈ ids then (st.register id).map struck else st.register id) =
        Function.update st.register r.id (some (struck r'.entry)) := by
      funext id
      rw [Function.update_apply]
      by_cases hid : id = r.id
      · rw [if_pos (hid ▸ hmem), if_pos hid, hid, hat]
        rfl
      · rw [if_neg fun h => hid (hone id h), if_neg hid]
    rw [hreg]
    by_cases hforce : r'.entry.inForce = true
    · refine .inr ⟨.strike r.id user.id (decide (user.role = .admin)), ⟨rfl, rfl, rfl⟩, r'.entry, hat, hforce, ?_, rfl⟩
      exact hmay.imp decide_eq_true fun h => hev.userId.trans h
    · -- another request has cancelled it before
      have hsame : struck r'.entry = r'.entry := by
        rw [Bool.not_eq_true] at hforce
        rw [struck, ← hforce]
      exact .inl (by rw [hsame, ← hat, Function.update_eq_self])
  · exact .inl (funext fun id => if_neg fun h => hmem (hone id h ▸ h))

/-- **A commit leaves the register, or does one action of its request.** -/
theorem register_commit (hdb : Consistent db) (h : Reach (app cfg hashRaw) C ⟨db, aux, clock, []⟩ s) {i : ℕ}
    {r : Req broker Job BrokerError Reply} (hr : s.reqs[i]? = some r)
    (hs' : Consistent (broker.applyAll s.db (pendOf r.log))) :
    (broker.applyAll s.db (pendOf r.log)).register = s.db.register ∨
      ∃ a, r.job.mayDo a ∧ Step a s.db.register (broker.applyAll s.db (pendOf r.log)).register := by
  have hreq := (sound_of_reach hdb h).req i r hr
  have hs := consistent_of_reach hdb h
  rcases pend_reservations hreq.kept with hspares | ⟨w, ws, hpend, hws, ⟨y, rfl⟩ | ⟨ids, t, rfl⟩⟩
  · exact .inl (register_congr (reservations_applyAll_spares hspares s.db))
  · have hy : .insertReservation y ∈ pendOf r.log := hpend ▸ List.mem_cons_self
    have hrows := reservations_applyAll_cons s.db (w := .insertReservation y) hws
    exact .inr (enter_of_commit hs' hreq.kept hy (hpend ▸ hrows.trans (congrArg (· ++ [y]) (List.map_id _))))
  · have hw : .cancelReservations ids t ∈ pendOf r.log := hpend ▸ List.mem_cons_self
    have hrows := reservations_applyAll_cons s.db (w := .cancelReservations ids t) hws
    exact strike_of_commit hs hreq.kept hreq.past hw (hpend ▸ hrows.trans (List.append_nil _))

/-- A step leaves the register, or is the commit of a request under way that may do
    the action. -/
theorem register_step (hdb : Consistent db) (h : Reach (app cfg hashRaw) C ⟨db, aux, clock, []⟩ s)
    {l : Label Job ℤ String} (hl : C s l) (hst : step (app cfg hashRaw) s l = some s') :
    s'.db.register = s.db.register ∨ ∃ i r a, l = .act i .commit ∧ s.reqs[i]? = some r ∧ r.ended = false ∧
      r.job.mayDo a ∧ Step a s.db.register s'.db.register := by
  have hcons := consistent_of_reach hdb (h.tail ⟨l, hl, hst⟩)
  cases step_cases hst with
  | arrive | tick => exact .inl rfl
  | act hr ha _ =>
    rcases Req.move_db ha with rfl | ⟨rfl, k, hp, rfl⟩
    · exact .inl rfl
    · refine (register_commit hdb h hr hcons).imp id ?_
      rintro ⟨a, hmay, hstep⟩
      exact ⟨_, _, a, rfl, hr, by rw [Req.ended, hp], hmay, hstep⟩

/-- What the requests of `s` may do. -/
def System.mayDo (s : System) (a : Action ℤ ℤ ℤ ℤ) : Prop := ∃ r ∈ s.reqs, r.job.mayDo a

theorem runs_of_reach (hdb : Consistent db) (h : Reach (app cfg hashRaw) C ⟨db, aux, clock, []⟩ s)
    (h' : Reach (app cfg hashRaw) C s s') : Runs s'.mayDo s.db.register s'.db.register := by
  induction h' with
  | refl => exact .refl
  | @tail s₁ s₂ h₁ hst ih =>
    -- a request stays what it is
    have hlater : ∀ a, s₁.mayDo a → s₂.mayDo a := by
      rintro a ⟨r, hr, ha⟩
      obtain ⟨i, hi⟩ := List.mem_iff_getElem?.mp hr
      have hstep : Reach (app cfg hashRaw) C s₁ s₂ := .single hst
      obtain ⟨r', hr', hl⟩ := hstep.later hi
      exact ⟨r', List.mem_of_getElem? hr', hl.job.symm ▸ ha⟩
    have ih' : Runs s₂.mayDo s.db.register s₁.db.register :=
      Relation.ReflTransGen.mono (fun _ _ ⟨a, ha, hs⟩ => ⟨a, hlater a ha, hs⟩) _ _ ih
    obtain ⟨l, hl, hst⟩ := hst
    rcases register_step hdb (h.trans h₁) hl hst with hsame | ⟨i, r, a, -, hr, -, hmay, hstep⟩
    · exact (congrArg _ hsame).mpr ih'
    · exact ih'.tail ⟨a, hlater a ⟨r, List.mem_of_getElem? hr, hmay⟩, hstep⟩

/-- **Every run of the broker is a run of the register**: in any interleaving what
    is committed changes by actions that the requests may do, each one when its
    request commits, so nothing that is in force ever collides. -/
theorem bookings_refine (hdb : Consistent db) (h : Reach (app cfg hashRaw) Any ⟨db, aux, clock, []⟩ s) :
    Runs s.mayDo db.register s.db.register ∧ Sound s.db.register ∧
    ∀ l s', step (app cfg hashRaw) s l = some s' → s'.db.register = s.db.register ∨
      ∃ i r a, l = .act i .commit ∧ s.reqs[i]? = some r ∧ r.ended = false ∧ r.job.mayDo a ∧
        Step a s.db.register s'.db.register := by
  have hruns := runs_of_reach hdb .refl h
  exact ⟨hruns, hruns.sound (register_sound hdb), fun _ _ => register_step hdb h trivial⟩

/-- A booking, and its cancellation by another request: the commit strikes it out. -/
theorem bookings_refine_room : ∃ s s' : System, (s.db.register 1).map (·.inForce) = some true ∧
    (s'.db.register 1).map (·.inForce) = some false ∧ Runs s.mayDo room.register s.db.register ∧ Sound s.db.register ∧
    ∃ (i : ℕ) (r : Req broker Job BrokerError Reply) (a : Action ℤ ℤ ℤ ℤ), s.reqs[i]? = some r ∧ r.ended = false ∧
      r.job.mayDo a ∧ Step a s.db.register s'.db.register := by
  have hrun : (play (app {} id) Any ⟨room, {}, 0, []⟩
      [.arrive (bookFor 1 1 1 60), .steps 0 "" 30, .arrive (.cancel ⟨1, .user, "mock"⟩ 1), .steps 1 "" 11]).any
      (fun s => (s.db.register 1).map (·.inForce) == some true &&
        (step (app {} id) s (.act 1 .commit)).any fun s' => (s'.db.register 1).map (·.inForce) == some false) = true := by
    decide
  obtain ⟨s, hs, hout⟩ := Reach.of_play_any hrun
  rw [Bool.and_eq_true, beq_iff_eq, Option.any_eq_true] at hout
  obtain ⟨hbefore, s', hst, hafter⟩ := hout
  rw [beq_iff_eq] at hafter
  obtain ⟨hruns, hsound, hstep⟩ := bookings_refine room_consistent hs
  refine ⟨s, s', hbefore, hafter, hruns, hsound, ?_⟩
  rcases hstep _ s' hst with hsame | ⟨i, r, a, -, hr, hopen, hmay, hact⟩
  · rw [hsame, hbefore] at hafter
    cases hafter
  · exact ⟨i, r, a, hr, hopen, hmay, hact⟩

/-- **Only its user or an admin cancels a reservation**, in any interleaving: one
    that is not active any more was the target of such a request. -/
theorem cancelled_by (hdb : Consistent db) (h : Reach (app cfg hashRaw) Any ⟨db, aux, clock, []⟩ s)
    (h' : Reach (app cfg hashRaw) Any s s') {x : Reservation} (hx : x ∈ s.db.reservations)
    (hact : x.status.active = true) : ∃ x' ∈ s'.db.reservations, x.Evolves x' ∧ (x'.status.active = false →
      ∃ r ∈ s'.reqs, ∃ user, r.job = .cancel user x.id ∧ (user.role = .admin ∨ x.userId = user.id)) := by
  obtain ⟨x', hx', hev⟩ := (h'.grows Store.grows).reservations x hx
  refine ⟨x', hx', hev, fun hout => ?_⟩
  have hat : s.db.register x.id = some x.entry := (register_eq_some (consistent_of_reach hdb h)).mpr ⟨x, hx, rfl, rfl⟩
  have hat' : s'.db.register x.id = some x'.entry :=
    (register_eq_some (consistent_of_reach hdb (h.trans h'))).mpr ⟨x', hx', hev.id, rfl⟩
  obtain ⟨who, manager, ⟨r, hr, hmay⟩, hentitled⟩ := (runs_of_reach hdb h h').exists_strike hat hact hat' hout
  cases hjob : r.job with
  | cancel user id =>
    rw [hjob] at hmay
    obtain ⟨rfl, rfl, rfl⟩ := hmay
    exact ⟨r, hr, user, hjob, hentitled.imp of_decide_eq_true id⟩
  | _ =>
    rw [hjob] at hmay
    exact hmay.elim

end

/-- The user of a reservation cancels it. -/
theorem cancelled_by_user : ∃ s' : System, (∀ x ∈ s'.db.reservations, x.status.active = false) ∧
    ∃ r ∈ s'.reqs, ∃ user, r.job = .cancel user 1 ∧ (user.role = .admin ∨ 1 = user.id) := by
  have hrun : (play (app {} id) Any ⟨bookedRoom, {}, 0, []⟩
      [.arrive (.cancel ⟨1, .user, "mock"⟩ 1), .steps 0 "" 30]).any
      (fun s => s.db.reservations.all fun x => x.status == .canceled) = true := by decide
  obtain ⟨s', hs', hall⟩ := Reach.of_play_any hrun
  have hall : ∀ x ∈ s'.db.reservations, x.status.active = false := fun x hx => by
    rw [beq_iff_eq.mp (List.all_eq_true.mp hall x hx)]
    rfl
  obtain ⟨x', hx', -, hout⟩ := cancelled_by bookedRoom_consistent .refl hs' (x := ⟨1, 1, 1, _, .confirmed, 0, none⟩)
    (List.mem_singleton_self _) rfl
  exact ⟨s', hall, hout (hall x' hx')⟩

end SmartClassroom
