/-
  What an accepted connect token stands for.

  A token is issued for a confirmed reservation of its host, from shortly before
  its begin on, and expires at its end.  A cancellation leaves the token as it
  is: `verify_connect_token` goes on accepting it (`accepted_after_cancel`).  In
  every serial run whose cancellations leave no token outstanding, an accepted
  token is bound to a confirmed reservation within its window
  (`accepted_token_bound`).
-/
import SmartClassroom.Issue

namespace SmartClassroom

open Txn

/-- A cancellation commits only if no connect token of the reservation is
    outstanding. -/
def NoneOutstanding : System → Label Job ℤ String → Prop
  | s, .act i .commit => ∀ r ∈ s.reqs[i]?, ∀ w ∈ pendOf r.log, ∀ id ∈ w.updatedReservations,
    s.db.liveCount (Stmt.connectTokenOf id) s.clock = 0
  | _, _ => True

instance (s : System) : ∀ l, Decidable (NoneOutstanding s l)
  | .act i .commit => by unfold NoneOutstanding; infer_instance
  | .act _ .start | .act _ .finish | .act _ .now | .act _ (.draw _) | .act _ .rollback | .act _ .fail
  | .arrive _ | .tick _ => isTrue trivial

/-- One request after the other, and no cancellation with a token outstanding. -/
def SerialNoneOutstanding (s : System) (l : Label Job ℤ String) : Prop :=
  Serial s l ∧ NoneOutstanding s l

instance (s : System) (l : Label Job ℤ String) : Decidable (SerialNoneOutstanding s l) :=
  inferInstanceAs (Decidable (_ ∧ _))

/-- The token is bound to a confirmed reservation of its host, and `t` comes
    after the window's begin. -/
def Token.Bound (cfg : Settings) (st : Store) (t : ℤ) (x : Token) : Prop :=
  ∃ r ∈ st.reservations, x.reservationId = some r.id ∧ r.status = .confirmed ∧
    x.hostId = some r.hostId ∧ x.expiresAt = r.timeRange.upper ∧
    r.timeRange.lower - cfg.connectTokenGraceSeconds * secondUs ≤ t

/-- All connect tokens that can still be accepted are bound. -/
def TokensBound (cfg : Settings) (t : ℤ) (st : Store) : Prop :=
  ∀ x ∈ st.tokens, x.purpose = .connect → x.active = true → t < x.expiresAt → x.Bound cfg st t

/-- What `verify_connect_token` returns at `t`. -/
def verifyAt (hashRaw : String → String) (st : Store) (t : ℤ) (raw : String) : Option Token :=
  match ((verifyConnectToken hashRaw raw).run (Env.at t fun _ => "") ⟨st, [], {}, 0, 0⟩).1 with
  | .ok token => token
  | .error _ => none

section
variable {cfg : Settings} {hashRaw : String → String} {db : Store} {aux : Seqs} {clock : ℤ}
  {s : System}

/-- In a serial run, a reservation that a request has seen before its commit is
    committed, or inserted by it. -/
theorem Seen.of_alone (ha : Alone s) {i : ℕ} {r : Req broker Job BrokerError Reply}
    (hr : s.reqs[i]? = some r) (he : r.ended = false) (hopen : Open r.log) {x : Reservation}
    (hx : Seen r.log x) : x ∈ s.db.reservations ∨ .insertReservation x ∈ pendOf r.log := by
  rcases hx with ⟨snap, cur, ⟨b, q, hran⟩, hmem⟩ | hx
  · obtain ⟨rfl, -⟩ := (ha.saw i r hr he hopen).1 _ _ _ _ _ hran
    exact .inl hmem
  · exact .inr hx

/-- The token that a request inserts is bound after its commit. -/
theorem new_token_bound (hs : s.Sound RangesNonempty (rules cfg) (answers hashRaw) Store.Evolves)
    (ha : Alone s) {i : ℕ} {r : Req broker Job BrokerError Reply} (hr : s.reqs[i]? = some r)
    (he : r.ended = false) (hopen : Open r.log) {x : Token}
    (hx : x ∈ tokenTable.newAll (pendOf r.log)) (hcon : x.purpose = .connect) :
    x.Bound cfg (broker.applyAll s.db (pendOf r.log)) s.clock := by
  have hk := (hs.req i r hr).kept
  obtain ⟨y, hy, ws', -, rfl⟩ := mem_newTokens hx
  have hcancel : ∀ w ∈ pendOf r.log, w.updatedReservations = [] :=
    fun w hw => pend_token_or_cancel hk _ hy w hw nofun
  obtain ⟨new, id, rfl, hissued⟩ := pending_token hk hy
  have hev := updAll_token_evolves ws' (new.row id)
  rw [Issued, show new.purpose = .connect from hev.purpose.symm.trans hcon] at hissued
  obtain ⟨res, hseen, hst, hres, hhost, hexp, ⟨now, hnow, hgrace, -⟩, -⟩ := hissued
  refine ⟨res, ?_, hev.reservationId.trans hres, hst, hev.hostId.trans hhost,
    hev.expiresAt.trans hexp, hgrace.trans ((hs.req i r hr).past _ hnow)⟩
  -- no write of the transaction cancels the reservation
  rw [reservations_applyAll]
  rcases hseen.of_alone ha hr he hopen with hmem | hins
  · refine List.mem_append_left _ (List.mem_map.mpr ⟨res, hmem, updAll_reservation_eq_self ?_⟩)
    exact fun w hw => by simp [hcancel w hw]
  · obtain ⟨ws'', hsub, hmem⟩ := reservationTable.exists_mem_newAll hins (List.mem_singleton_self res)
    rw [updAll_reservation_eq_self fun w hw => by simp [hcancel w (hsub.subset hw)]] at hmem
    exact List.mem_append_right _ hmem

/-- A bound token stays bound, unless its reservation is canceled. -/
theorem Token.Bound.applyAll {t : ℤ} {ws : List Write} {x x' : Token} (hx : x.Bound cfg db t)
    (hev : x.Evolves x') (hws : ∀ w ∈ ws, ∀ id ∈ w.updatedReservations, x.reservationId ≠ some id) :
    x'.Bound cfg (broker.applyAll db ws) t := by
  obtain ⟨r, hr, hid, hst, hhost, hexp, hle⟩ := hx
  refine ⟨r, ?_, hev.reservationId.trans hid, hst, hev.hostId.trans hhost, hev.expiresAt.trans hexp, hle⟩
  rw [reservations_applyAll]
  refine List.mem_append_left _ (List.mem_map.mpr ⟨r, hr, updAll_reservation_eq_self fun w hw h => ?_⟩)
  exact hws w hw r.id h hid

theorem tokensBound_of_reach (hdb : Consistent db) (h0 : TokensBound cfg clock db)
    (h : Reach (app cfg hashRaw) SerialNoneOutstanding ⟨db, aux, clock, []⟩ s) :
    TokensBound cfg s.clock s.db := by
  refine h.store_inv (P := TokensBound cfg) (fun c c' st hle ih x hx hcon hact hexp => ?_)
    (fun s₁ i r k h₁ hC hr hp ih x hx hcon hact hexp => ?_) h0
  · obtain ⟨r, hr, h1, h2, h3, h4, h5⟩ := ih x hx hcon hact (hle.trans_lt hexp)
    exact ⟨r, hr, h1, h2, h3, h4, h5.trans hle⟩
  have hs := sound_of_reach hdb h₁
  have he : r.ended = false := by simp [Req.ended, hp]
  have hopen : Open r.log := by
    have hok := (hs.req i r hr).ok
    rw [hp] at hok
    exact hok.1
  rw [tokens_applyAll] at hx
  rcases List.mem_append.mp hx with hx | hx
  · obtain ⟨y, hy, rfl⟩ := List.mem_map.mp hx
    have hev := updAll_token_evolves (pendOf r.log) y
    rw [hev.purpose] at hcon
    rw [hev.expiresAt] at hexp
    refine (ih y hy hcon (hev.active hact) hexp).applyAll hev fun w hw id hid hres => ?_
    -- a cancellation of its reservation would leave `y` outstanding
    refine List.countP_eq_zero.mp (hC.2 r hr w hw id hid) y hy ?_
    simp [Stmt.connectTokenOf, hres, hcon, hev.active hact, hexp]
  · exact new_token_bound hs (h₁.alone (fun _ _ h => h.1) (.init _ _ _)) hr he hopen hx hcon

/-- An accepted token is one that the WHERE clause finds. -/
theorem mem_of_verifyAt {raw : String} {t : ℤ} {token : Token}
    (h : verifyAt hashRaw db t raw = some token) :
    token ∈ db.tokens ∧ Stmt.valid .connect (hashRaw raw) t token = true := by
  unfold verifyAt verifyConnectToken at h
  split_ifs at h with hraw
  · cases h
  · change db.tokens.find? (Stmt.valid .connect (hashRaw raw) (DateTime.utc t).instant) = some token at h
    rw [DateTime.instant_utc] at h
    exact ⟨List.mem_of_find?_eq_some h, List.find?_some h⟩

/-- **An accepted token is bound to a confirmed reservation**, in serial runs
    without a cancellation that leaves a token outstanding. -/
theorem accepted_token_bound (hdb : Consistent db) (h0 : TokensBound cfg clock db)
    (h : Reach (app cfg hashRaw) SerialNoneOutstanding ⟨db, aux, clock, []⟩ s) {raw : String} {t : ℤ}
    (ht : s.clock ≤ t) {token : Token} (hv : verifyAt hashRaw s.db t raw = some token) :
    ∃ r ∈ s.db.reservations, token.reservationId = some r.id ∧ r.status = .confirmed ∧
      token.hostId = some r.hostId ∧
      r.timeRange.lower - cfg.connectTokenGraceSeconds * secondUs ≤ t ∧ t < r.timeRange.upper := by
  obtain ⟨hmem, hvalid⟩ := mem_of_verifyAt hv
  simp only [Stmt.valid, Bool.and_eq_true, beq_iff_eq, decide_eq_true_eq] at hvalid
  obtain ⟨⟨⟨-, hcon⟩, hact⟩, hexp⟩ := hvalid
  have hexp : t < token.expiresAt := hexp
  obtain ⟨r, hr, h1, h2, h3, h4, h5⟩ :=
    tokensBound_of_reach hdb h0 h token hmem hcon hact (ht.trans_lt hexp)
  exact ⟨r, hr, h1, h2, h3, h5.trans ht, h4 ▸ hexp⟩

end

/-- A token of instant use is accepted. -/
theorem accepted_token_bound_instant : ∃ (s : System) (token : Token),
    verifyAt id s.db s.clock "a-token-of-sixteen" = some token ∧
      ∃ r ∈ s.db.reservations, token.reservationId = some r.id ∧ r.status = .confirmed := by
  have hrun : (play (app {} id) SerialNoneOutstanding ⟨room, {}, 0, []⟩
      [.arrive (.instant ⟨1, .user, "mock"⟩ 1), .steps 0 "a-token-of-sixteen" 60]).any
      (fun s => (verifyAt id s.db s.clock "a-token-of-sixteen").isSome) = true := by decide
  obtain ⟨s, hs, hsome⟩ := Reach.of_play_any hrun
  obtain ⟨token, hv⟩ := Option.isSome_iff_exists.mp hsome
  obtain ⟨r, hr, h1, h2, -⟩ :=
    accepted_token_bound room_consistent (by simp [TokensBound, room]) hs le_rfl hv
  exact ⟨s, token, hv, r, hr, h1, h2⟩

/-- Bookings, cancellations, connect requests and consumptions. -/
def IsTokenJob : Job → Prop
  | .create .. | .instant .. | .cancel .. | .connect .. | .verify _ true => True
  | _ => False

instance : DecidablePred IsTokenJob
  | .create .. | .instant .. | .cancel .. | .connect .. | .verify _ true => isTrue trivial
  | .list .. | .calendar .. | .get .. | .verify _ false | .available .. | .rotateAgentToken .. =>
    isFalse id

/-- The same token after the reservation is canceled. -/
theorem accepted_after_cancel : ¬∀ s : System,
    Reach (app {} id) (SerialOf IsTokenJob) ⟨room, {}, 0, []⟩ s →
    ∀ (raw : String) (t : ℤ) (token : Token), s.clock ≤ t → verifyAt id s.db t raw = some token →
      ∃ r ∈ s.db.reservations, token.reservationId = some r.id ∧ r.status = .confirmed ∧
        token.hostId = some r.hostId ∧
        r.timeRange.lower - ({} : Settings).connectTokenGraceSeconds * secondUs ≤ t ∧
        t < r.timeRange.upper := by
  have hrun : (play (app {} id) (SerialOf IsTokenJob) ⟨room, {}, 0, []⟩
      [.arrive (.instant ⟨1, .user, "mock"⟩ 1), .steps 0 "a-token-of-sixteen" 60,
        .arrive (.cancel ⟨1, .user, "mock"⟩ 1), .steps 1 "" 40]).any
      (fun s => (verifyAt id s.db s.clock "a-token-of-sixteen").isSome &&
        s.db.reservations.all (·.status == .canceled)) = true := by decide
  obtain ⟨s, hs, hp⟩ := Reach.of_play_any hrun
  obtain ⟨hsome, hcanceled⟩ := Bool.and_eq_true_iff.mp hp
  obtain ⟨token, hv⟩ := Option.isSome_iff_exists.mp hsome
  intro hall
  obtain ⟨r, hr, -, hst, -⟩ := hall s hs _ _ token le_rfl hv
  have := List.all_eq_true.mp hcanceled r hr
  simp [hst] at this

end SmartClassroom
