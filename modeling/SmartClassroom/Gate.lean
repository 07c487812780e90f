/-
  The gate of instant use.

  An instant booking issues its connect token in the same transaction, and
  `issue_connect_token` raises once the reservation has ended.  So the clock has
  not reached the end of what is committed, read after all that the booking has
  seen (`Gated`), whatever others commit in between (`gate_of_reach`).
-/
import SmartClassroom.Constraints
import SmartClassroom.Frames

namespace SmartClassroom

open Txn Prog

/-- The reservations inserted in `h` have passed the gate: the clock was read
    after their INSERT, and before their end. -/
def Gated (h : History) : Prop :=
  ∀ y, .insertReservation y ∈ pendOf h → ∃ h₀ t r, .now t :: h₀ <:+ h ∧
    .insertReservation y ∈ pendOf h₀ ∧ FoundAs h₀ y r ∧ t < r.timeRange.upper

/-- Instant use commits what has passed the gate. -/
def gateRules (j : Job) : Rules broker BrokerError where
  stmt _ _ := True
  commit h := match j with
    | .instant .. => Gated h
    | _ => True
  raise _ _ := True

/-! ## Statements that book nothing -/

def Stmt.booksNothing : Stmt → Prop
  | insertReservation .. => False
  | _ => True

theorem Stmt.spares.booksNothing {s : Stmt} (hs : s.spares) : s.booksNothing := by
  cases s <;> first | exact hs | trivial

theorem Stmt.calm.booksNothing {s : Stmt} (hs : s.calm) : s.booksNothing := by
  cases s <;> first | exact hs | trivial

/-- `h'` goes on from `h` and books nothing. -/
structure Onward (h h' : History) : Prop where
  suffix : h <:+ h'
  pend : ∀ y, .insertReservation y ∈ pendOf h' → .insertReservation y ∈ pendOf h

theorem Onward.refl (h : History) : Onward h h := ⟨List.suffix_refl h, fun _ hy => hy⟩

theorem Onward.trans {h h' h'' : History} (o : Onward h h') (o' : Onward h' h'') : Onward h h'' :=
  ⟨o.suffix.trans o'.suffix, fun y hy => o.pend y (o'.pend y hy)⟩

theorem Onward.now {h h' : History} (o : Onward h h') (t : ℤ) : Onward h (.now t :: h') :=
  ⟨o.suffix.trans (List.suffix_cons _ _), o.pend⟩

theorem Onward.draw {h h' : History} (o : Onward h h') (n : String) : Onward h (.draw n :: h') :=
  ⟨o.suffix.trans (List.suffix_cons _ _), o.pend⟩

theorem Onward.stmt {h h' : History} (o : Onward h h') {s : Stmt} (hs : s.booksNothing) (b : ℤ) (q : Seqs)
    (snap cur : Store) : Onward h (.stmt s b q snap cur :: h') := by
  refine ⟨o.suffix.trans (List.suffix_cons _ _), fun y hy => ?_⟩
  rw [pendOf_stmt] at hy
  rcases List.mem_append.mp hy with hy | hy
  · exact o.pend y hy
  · obtain ⟨rfl, -⟩ := writes_insertReservation hy
    exact hs.elim

theorem FoundAs.mono {h h' : History} (hs : h <:+ h') {y r : Reservation} (hr : FoundAs h y r) :
    FoundAs h' y r := by
  rcases hr with rfl | ⟨hid, s, snap, cur, hran, hmem⟩
  · exact .inl rfl
  · exact .inr ⟨hid, s, snap, cur, hran.mono hs, hmem⟩

/-! ## The routes -/

section
variable {cfg : Settings} {hashRaw : String → String} {j : Job} {I : Store → Prop} {h : History} {α : Type}

theorem onward_ok {p : Service α} (hp : p.Uses Stmt.booksNothing) :
    p.Ok I (gateRules j) (fun h' _ => Onward h h') h := by
  refine Uses.ok (K := Onward h) ?_ ?_ ?_ ?_ hp (.refl h)
  · exact fun _ t o => o.now t
  · exact fun _ n o => o.draw n
  · exact fun _ _ o hs => ⟨trivial, fun b q snap cur => o.stmt hs b q snap cur⟩
  · exact fun _ _ _ => trivial

/-- A token is issued after a reading of the clock before the end of the reservation. -/
theorem issueConnectToken_gate (user : User) (r : Reservation) :
    (issueConnectToken cfg hashRaw user r).Ok I (gateRules j)
      (fun h' _ => ∃ t, Onward (.now t :: h) h' ∧ t < r.timeRange.upper) h := by
  refine ok_bind.mpr (.lift (fun bounds hgate => ?_) fun _ _ => trivial)
  obtain ⟨-, -, -, rfl⟩ := connectGate_eq_ok.mp hgate
  change ∀ now : ℤ, Ok I (gateRules j) _ (lift (connectWindow cfg _ _ (.utc now)) >>= _) (.now now :: h)
  intro now
  refine ok_bind.mpr (.lift (fun _ hwin => ?_) fun _ _ => trivial)
  have hend := (connectWindow_eq_ok.mp hwin).2
  simp only [DateTime.instant_utc] at hend
  refine (onward_ok (Uses.mono ?_ fun _ => Stmt.spares.booksNothing)).mono fun _ _ o => ⟨now, o, hend⟩
  exact (revokeActiveTokensForReservation_spares _).bind fun _ => tokenUrlsafe_uses.bind fun _ =>
    insertToken_spares _ fun _ => uses_pure _

theorem issueConnectTokenResponse_gate (user : User) (r : Reservation) (client : Option String) :
    (issueConnectTokenResponse cfg hashRaw user r client).Ok I (gateRules j)
      (fun h' _ => ∃ h₀ t, Onward h h₀ ∧ Onward (.now t :: h₀) h' ∧ t < r.timeRange.upper) h := by
  refine ok_bind.mpr ⟨trivial, fun b q snap cur _ _ => ?_⟩
  have o : Onward h (.stmt (Stmt.getHost r.hostId) b q snap cur :: h) :=
    (Onward.refl h).stmt (s := .getHost r.hostId) trivial b q snap cur
  generalize (broker.execOn (pendOf h) (Stmt.getHost r.hostId) b q snap cur).2.2 = host
  cases (host : Option Host) with
  | none => trivial
  | some host =>
    refine (issueConnectToken_gate user r).bind ?_
    rintro h₁ issued ⟨t, o₁, hend⟩
    refine (onward_ok (Uses.mono ?_ fun _ => Stmt.spares.booksNothing)).mono
      fun _ _ o₂ => ⟨_, t, o, o₁.trans o₂, hend⟩
    exact (auditRevoked_spares _ _ _).bind fun _ => (writeAudit_spares _).bind fun _ => uses_pure _

theorem instant_gate (user : User) (hostId : ℤ) :
    (instantReservationEndpoint cfg hashRaw user hostId).Ok RangesNonempty
      (gateRules (.instant user hostId)) (fun _ _ => True) [] := by
  have ho : Open [] := by simp [Open]
  refine ok_bind.mpr (.lift (fun _ _ => ?_) fun _ _ => trivial)
  -- what the booking has pending is known from the rules of all routes
  have hbook : OkFor cfg (.instant user hostId)
      (tryCatch (createInstantReservation cfg user hostId) (instantErrors hostId))
      (fun h r => BookingDone h r ∧ ∀ y, .insertReservation y ∈ pendOf h → FoundAs h y r) [] :=
    try_ok (fun h e ho => instantErrors_ok hostId e ho) (createInstantReservation_ok ho rfl rfl)
  have hwithin : (tryCatch (createInstantReservation cfg user hostId) (instantErrors hostId)).Within
      Stmt.sparesHosts :=
    (createInstantReservation_sparesHosts user hostId).tryCatch fun e => by cases e <;> trivial
  refine (hwithin.ok (fun _ _ _ => trivial) (fun _ _ _ => trivial) hbook).bind ?_
  rintro h r ⟨-, hfound⟩
  refine (issueConnectTokenResponse_gate user r _).bind ?_
  rintro h₁ - ⟨h₀, t, o₀, o₁, hend⟩
  refine (onward_ok ((markInUse_uses r).mono fun _ => Stmt.calm.booksNothing)).bind fun h₂ _ o₂ => ⟨?_, trivial⟩
  intro y hy
  have hy₀ := (o₁.trans o₂).pend y hy
  exact ⟨h₀, t, r, (o₁.trans o₂).suffix, hy₀, (hfound y (o₀.pend y hy₀)).mono o₀.suffix, hend⟩

/-- The routes keep the rules of the gate besides their own. -/
theorem gate_keeps : Keeps (app cfg hashRaw) RangesNonempty (fun j => (rules cfg j).and (gateRules j))
    fun j h a => answers hashRaw j h a ∧ True := by
  refine app_keeps.and (fun j => ?_) (fun _ _ _ _ => trivial) fun _ _ _ => trivial
  cases j with
  | instant user hostId => exact instant_gate user hostId
  | _ => exact ok_of_free (fun _ _ => trivial) (fun _ => trivial) (fun _ _ => trivial) (fun _ _ => trivial) _ []

end

section
variable {cfg : Settings} {hashRaw : String → String} {C : System → Label Job ℤ String → Prop} {db : Store}
  {aux : Seqs} {clock : ℤ} {s : System}

/-- Once committed, the rows of one id are one row. -/
theorem FoundAs.timeRange {ws : List Write} (hcommit : Consistent (broker.applyAll db ws)) {h : History}
    (hpast : ∀ e ∈ h, e.Past Store.Evolves db clock) {y r : Reservation} (hr : FoundAs h y r)
    (hy : .insertReservation y ∈ ws) : r.timeRange = y.timeRange := by
  rcases hr with rfl | ⟨hid, st, snap, cur, hran, hmem⟩
  · rfl
  · obtain ⟨r', hr', hev⟩ := (Store.grows.trans (hran.evolves hpast)
      (Store.grows.applyAll ws db)).reservations r hmem
    obtain ⟨ws', -, hy'⟩ := reservationTable.exists_mem_newAll hy (List.mem_singleton_self y)
    have hev' := updAll_reservation_evolves ws' y
    have hrow : r' = reservationTable.updAll ws' y := by
      refine hcommit.reservation_eq hr' ?_ (hev.id.trans (hid.trans hev'.id.symm))
      rw [reservations_applyAll]
      exact List.mem_append_right _ hy'
    rw [← hev.timeRange, hrow, hev'.timeRange]

/-- **Instant use passes the gate, in every interleaving**: what it commits was
    pending when the clock was read before its end. -/
theorem gate_of_reach (hdb : Consistent db) (h : Reach (app cfg hashRaw) C ⟨db, aux, clock, []⟩ s) {i : ℕ}
    {r : Req broker Job BrokerError Reply} (hr : s.reqs[i]? = some r) {user : User} {hostId : ℤ}
    (hjob : r.job = .instant user hostId) {k : Service Reply} (hp : r.prog = .commit k) {y : Reservation}
    (hy : .insertReservation y ∈ pendOf r.log) : ∃ h₀ t, .now t :: h₀ <:+ r.log ∧
      .insertReservation y ∈ pendOf h₀ ∧ t < y.timeRange.upper := by
  have hok := ((h.sound gate_keeps Store.grows (.init hdb.ranges)).req i r hr).ok
  rw [hp, hjob] at hok
  obtain ⟨h₀, t, x, hsuf, hy₀, hfound, hlt⟩ := hok.1.2 y hy
  -- the commit is a step, to a store that is consistent again
  have hcommit : Reach (app cfg hashRaw) Any ⟨db, aux, clock, []⟩ ⟨broker.applyAll s.db (pendOf r.log),
      s.aux, s.clock, s.reqs.set i { r with prog := k, log := .commit :: r.log, began := none }⟩ :=
    (h.mono fun _ _ _ => trivial).tail ⟨.act i .commit, trivial, by simp [step, hr, Req.move, hp]⟩
  have hpast : ∀ e ∈ h₀, e.Past Store.Evolves s.db s.clock := fun e he =>
    ((sound_of_reach hdb h).req i r hr).past e (hsuf.subset (List.mem_cons_of_mem _ he))
  exact ⟨h₀, t, hsuf, hy₀, hfound.timeRange (consistent_of_reach hdb hcommit) hpast hy ▸ hlt⟩

end

end SmartClassroom
