/-
  One live token for a reservation and for a host.

  Issuing a token revokes the others in one statement and inserts in a later
  one: of two requests at once, neither revokes the token of the other
  (`two_live_tokens`).  There is one live token in every interleaving whose
  requests commit a new token only after their revocation has seen all live ones
  (`one_live_token`).
-/
import SmartClassroom.Consume

namespace SmartClassroom

open Txn

/-- How many tokens with `p` are not expired at `t`. -/
def Store.liveCount (st : Store) (p : Token → Bool) (t : ℤ) : ℕ :=
  st.tokens.countP fun x => p x && decide (t < x.expiresAt)

/-- The revocation with WHERE clause `p` has seen all tokens that are live now. -/
def SawLive (db : Store) (t : ℤ) (p : Token → Bool) (snap : Store) : Prop :=
  ∀ y ∈ db.tokens, p y = true → t < y.expiresAt → y.id ∈ snap.tokens.map (·.id)

instance (db : Store) (t : ℤ) (p : Token → Bool) (snap : Store) : Decidable (SawLive db t p snap) := by
  unfold SawLive
  infer_instance

/-- The WHERE clause of a revocation. -/
def Stmt.revokes : Stmt → Option (Token → Bool)
  | .revokeConnectTokens reservationId _ => some (connectTokenOf reservationId)
  | .revokeAgentTokens hostId _ => some (agentTokenOf hostId)
  | _ => none

/-- If the event is a revocation of the tokens like `x`, it has seen all that
    are live now. -/
def Revoked (db : Store) (t : ℤ) (x : Token) : Ev broker → Prop
  | .stmt s _ _ snap _ => ∀ p ∈ s.revokes, p x = true → SawLive db t p snap
  | _ => True

/-- A new token is committed only if its revocation has seen every token of the
    same reservation or host that is live by then. -/
def RevokedAll : System → Label Job ℤ String → Prop
  | s, .act i .commit => ∀ r ∈ s.reqs[i]?, ∀ x ∈ tokenTable.newAll (pendOf r.log),
    ∀ e ∈ r.log, Revoked s.db s.clock x e
  | _, _ => True

instance (db : Store) (t : ℤ) (x : Token) : ∀ e, Decidable (Revoked db t x e)
  | .stmt .. => by unfold Revoked; infer_instance
  | .now _ | .draw _ | .commit | .rollback => isTrue trivial

instance (s : System) : ∀ l, Decidable (RevokedAll s l)
  | .act i .commit => by unfold RevokedAll; infer_instance
  | .act _ .start | .act _ .finish | .act _ .now | .act _ (.draw _) | .act _ .rollback | .act _ .fail
  | .arrive _ | .tick _ => isTrue trivial

/-! ## Counting live tokens -/

theorem Token.Evolves.connectTokenOf {x x' : Token} (h : x.Evolves x') {reservationId : ℤ}
    (hx : Stmt.connectTokenOf reservationId x' = true) : Stmt.connectTokenOf reservationId x = true := by
  simp only [Stmt.connectTokenOf, Bool.and_eq_true] at hx ⊢
  rw [← h.reservationId, ← h.purpose]
  exact ⟨hx.1, h.active hx.2⟩

theorem Token.Evolves.agentTokenOf {x x' : Token} (h : x.Evolves x') {hostId : ℤ}
    (hx : Stmt.agentTokenOf hostId x' = true) : Stmt.agentTokenOf hostId x = true := by
  simp only [Stmt.agentTokenOf, Bool.and_eq_true] at hx ⊢
  rw [← h.hostId, ← h.purpose]
  exact ⟨hx.1, h.active hx.2⟩

theorem liveCount_tick {st : Store} {p : Token → Bool} {t t' : ℤ} (h : t ≤ t') :
    st.liveCount p t' ≤ st.liveCount p t := by
  refine List.countP_mono_left fun x _ hx => ?_
  simp only [Bool.and_eq_true, decide_eq_true_eq] at hx ⊢
  exact ⟨hx.1, h.trans_lt hx.2⟩

/-- A commit leaves one live token with `p`, if before a new one it has revoked
    the tokens that `p` found in an earlier store, and all live ones were there. -/
theorem liveCount_commit {p : Token → Bool} (hev : ∀ {x x'}, x.Evolves x' → p x' = true → p x = true)
    (hact : ∀ {x}, p x = true → x.active = true) {db : Store} (hc : Consistent db) {ws : List Write}
    (hone : (tokenTable.newAll ws).length ≤ 1) {t : ℤ} (hle : db.liveCount p t ≤ 1)
    (hrev : ∀ x ∈ tokenTable.newAll ws, p x = true → ∃ (snap cur : Store) (now : ℤ), snap.Evolves cur ∧
      cur.Evolves db ∧ .revokeTokens (Stmt.hits Token.id p snap.tokens cur.tokens) now ∈ ws ∧
      SawLive db t p snap) :
    (broker.applyAll db ws).liveCount p t ≤ 1 := by
  rw [Store.liveCount, tokens_applyAll, List.countP_append, List.countP_map]
  have hnew : (tokenTable.newAll ws).countP (fun x => p x && decide (t < x.expiresAt)) ≤ 1 :=
    List.countP_le_length.trans hone
  rcases Nat.eq_zero_or_pos ((tokenTable.newAll ws).countP fun x => p x && decide (t < x.expiresAt))
    with hz | hpos
  · -- nothing new: the live tokens were live before
    rw [hz, Nat.add_zero]
    refine le_trans (List.countP_mono_left fun x _ hx => ?_) hle
    have hx' := updAll_token_evolves ws x
    simp only [Function.comp_apply, Bool.and_eq_true, hx'.expiresAt] at hx ⊢
    exact ⟨hev hx' hx.1, hx.2⟩
  · obtain ⟨x, hx, hpx⟩ := List.countP_pos_iff.mp hpos
    obtain ⟨snap, cur, now, hsnap, hcur, hw, hsaw⟩ := hrev x hx (Bool.and_eq_true_iff.mp hpx).1
    have hold : db.tokens.countP ((fun x => p x && decide (t < x.expiresAt)) ∘ tokenTable.updAll ws) =
        0 := by
      refine List.countP_eq_zero.mpr fun y hy hlive => ?_
      have hy' := updAll_token_evolves ws y
      simp only [Function.comp_apply, Bool.and_eq_true, hy'.expiresAt, decide_eq_true_eq] at hlive
      -- the revocation has found `y`
      obtain ⟨z, hz, hid⟩ := List.mem_map.mp (hsaw y hy (hev hy' hlive.1) hlive.2)
      obtain ⟨z', hz', hzz⟩ := hsnap.tokens z hz
      obtain ⟨z'', hz'', hzz'⟩ := hcur.tokens z' hz'
      obtain rfl := hc.token_eq hz'' hy (.inl (hzz'.id.trans (hzz.id.trans hid)))
      have hp' := hev hzz' (hev hy' hlive.1)
      have hhit : z''.id ∈ Stmt.hits Token.id p snap.tokens cur.tokens :=
        mem_hits.mpr ⟨⟨z', hz', hp', hzz'.id.symm⟩, z, hz, hev hzz hp', hid⟩
      have hused := updAll_inactive (t := z'') hw hhit
      rw [hact hlive.1] at hused
      cases hused
    rw [hold, Nat.zero_add]
    exact hnew

section
variable {cfg : Settings} {hashRaw : String → String} {db : Store} {aux : Seqs} {clock : ℤ}
  {s : System}

/-- The revocation before a new connect token. -/
theorem connect_revoked (hs : s.Sound RangesNonempty (rules cfg) (answers hashRaw) Store.Evolves)
    {i : ℕ} {r : Req broker Job BrokerError Reply} (hr : s.reqs[i]? = some r) {reservationId : ℤ}
    {x : Token} (hx : x ∈ tokenTable.newAll (pendOf r.log))
    (hp : Stmt.connectTokenOf reservationId x = true)
    (hC : ∀ e ∈ r.log, Revoked s.db s.clock x e) : ∃ (snap cur : Store) (now : ℤ),
      snap.Evolves cur ∧ cur.Evolves s.db ∧
      .revokeTokens (Stmt.hits Token.id (Stmt.connectTokenOf reservationId) snap.tokens cur.tokens) now ∈
        pendOf r.log ∧ SawLive s.db s.clock (Stmt.connectTokenOf reservationId) snap := by
  obtain ⟨y, hy, ws', -, rfl⟩ := mem_newTokens hx
  obtain ⟨new, id, rfl, hissued⟩ := pending_token (hs.req i r hr).kept hy
  have hpx := (updAll_token_evolves ws' (new.row id)).connectTokenOf hp
  simp only [Stmt.connectTokenOf, Bool.and_eq_true, beq_iff_eq] at hpx
  rw [Issued, show new.purpose = .connect from hpx.1.2] at hissued
  obtain ⟨res, -, -, hres, -, -, -, now, snap, cur, ⟨b, q, hran⟩, hw⟩ := hissued
  obtain rfl : res.id = reservationId := Option.some.inj (hres.symm.trans hpx.1.1)
  obtain ⟨-, hsnap, hcur⟩ := (hs.req i r hr).past _ hran
  exact ⟨snap, cur, now, hsnap, hcur, hw, hC _ hran _ rfl hp⟩

/-- The revocation before a new agent token. -/
theorem agent_revoked (hs : s.Sound RangesNonempty (rules cfg) (answers hashRaw) Store.Evolves)
    {i : ℕ} {r : Req broker Job BrokerError Reply} (hr : s.reqs[i]? = some r) {hostId : ℤ}
    {x : Token} (hx : x ∈ tokenTable.newAll (pendOf r.log)) (hp : Stmt.agentTokenOf hostId x = true)
    (hC : ∀ e ∈ r.log, Revoked s.db s.clock x e) : ∃ (snap cur : Store) (now : ℤ),
      snap.Evolves cur ∧ cur.Evolves s.db ∧
      .revokeTokens (Stmt.hits Token.id (Stmt.agentTokenOf hostId) snap.tokens cur.tokens) now ∈
        pendOf r.log ∧ SawLive s.db s.clock (Stmt.agentTokenOf hostId) snap := by
  obtain ⟨y, hy, ws', -, rfl⟩ := mem_newTokens hx
  obtain ⟨new, id, rfl, hissued⟩ := pending_token (hs.req i r hr).kept hy
  have hpx := (updAll_token_evolves ws' (new.row id)).agentTokenOf hp
  simp only [Stmt.agentTokenOf, Bool.and_eq_true, beq_iff_eq] at hpx
  rw [Issued, show new.purpose = .agent from hpx.1.2] at hissued
  obtain ⟨host, -, hhost, now, snap, cur, ⟨b, q, hran⟩, hw⟩ := hissued
  obtain rfl : host = hostId := Option.some.inj (hhost.symm.trans hpx.1.1)
  obtain ⟨-, hsnap, hcur⟩ := (hs.req i r hr).past _ hran
  exact ⟨snap, cur, now, hsnap, hcur, hw, hC _ hran _ rfl hp⟩

/-- **One live token for each reservation and each host**, where every new
    token's revocation has seen what is committed before it. -/
theorem one_live_token (hdb : Consistent db)
    (hcon : ∀ reservationId, db.liveCount (Stmt.connectTokenOf reservationId) clock ≤ 1)
    (hag : ∀ hostId, db.liveCount (Stmt.agentTokenOf hostId) clock ≤ 1)
    (h : Reach (app cfg hashRaw) RevokedAll ⟨db, aux, clock, []⟩ s) :
    (∀ reservationId, s.db.liveCount (Stmt.connectTokenOf reservationId) s.clock ≤ 1) ∧
      ∀ hostId, s.db.liveCount (Stmt.agentTokenOf hostId) s.clock ≤ 1 := by
  refine ⟨fun reservationId => ?_, fun hostId => ?_⟩
  · refine h.store_inv (P := fun t (st : Store) =>
      st.liveCount (Stmt.connectTokenOf reservationId) t ≤ 1)
      (fun _ _ _ hle ih => (liveCount_tick hle).trans ih) (fun s₁ i r k h₁ hC hr _ ih => ?_)
      (hcon reservationId)
    have hs := sound_of_reach hdb h₁
    exact liveCount_commit (fun h hx => h.connectTokenOf hx)
      (tokenWhere_active (s := .revokeConnectTokens reservationId 0) rfl) (consistent_of_reach hdb h₁)
      (newTokens_le_one (hs.req i r hr).kept) ih fun x hx hp => connect_revoked hs hr hx hp (hC r hr x hx)
  · refine h.store_inv (P := fun t (st : Store) => st.liveCount (Stmt.agentTokenOf hostId) t ≤ 1)
      (fun _ _ _ hle ih => (liveCount_tick hle).trans ih) (fun s₁ i r k h₁ hC hr _ ih => ?_)
      (hag hostId)
    have hs := sound_of_reach hdb h₁
    exact liveCount_commit (fun h hx => h.agentTokenOf hx)
      (tokenWhere_active (s := .revokeAgentTokens hostId 0) rfl) (consistent_of_reach hdb h₁)
      (newTokens_le_one (hs.req i r hr).kept) ih fun x hx hp => agent_revoked hs hr hx hp (hC r hr x hx)

end

/-- The room with a reservation of host 1 for the first hour. -/
def bookedRoom : Store :=
  { room with reservations := [⟨1, 1, 1, ⟨0, hourUs, by decide⟩, .confirmed, 0, none⟩] }

theorem bookedRoom_consistent : Consistent bookedRoom :=
  ⟨List.pairwise_singleton _ _, .nil, by simp [RangesNonempty, bookedRoom, hourUs],
    by simp [bookedRoom]⟩

/-- Requests that issue tokens. -/
def IsIssue : Job → Prop
  | .connect .. | .rotateAgentToken .. => True
  | _ => False

instance : DecidablePred IsIssue
  | .connect .. | .rotateAgentToken .. => isTrue trivial
  | .create .. | .instant .. | .list .. | .calendar .. | .get .. | .cancel .. | .verify ..
  | .available .. => isFalse id

/-- One request after the other: the second token replaces the first. -/
theorem one_live_token_serial : ∃ s : System, s.db.tokens.length = 2 ∧
    s.db.liveCount (Stmt.connectTokenOf 1) s.clock ≤ 1 := by
  have hrun : (play (app {} id) RevokedAll ⟨bookedRoom, {}, 0, []⟩
      [.arrive (.connect ⟨1, .user, "mock"⟩ 1 none), .steps 0 "first" 40,
        .arrive (.connect ⟨1, .user, "mock"⟩ 1 none), .steps 1 "second" 40]).any
      (fun s => s.db.tokens.length == 2) = true := by decide
  obtain ⟨s, hs, hlen⟩ := Reach.of_play_any hrun
  exact ⟨s, beq_iff_eq.mp hlen,
    (one_live_token bookedRoom_consistent (fun _ => Nat.zero_le 1) (fun _ => Nat.zero_le 1) hs).1 1⟩

/-- Two requests at once, which both revoke before one of them inserts. -/
theorem two_live_tokens : ¬∀ s : System,
    Reach (app {} id) (Arrivals IsIssue) ⟨bookedRoom, {}, 0, []⟩ s →
      (∀ reservationId, s.db.liveCount (Stmt.connectTokenOf reservationId) s.clock ≤ 1) ∧
        ∀ hostId, s.db.liveCount (Stmt.agentTokenOf hostId) s.clock ≤ 1 := by
  have hrun : (play (app {} id) (Arrivals IsIssue) ⟨bookedRoom, {}, 0, []⟩
      [.arrive (.connect ⟨1, .user, "mock"⟩ 1 none), .arrive (.connect ⟨1, .user, "mock"⟩ 1 none),
        .steps 0 "first" 8, .steps 1 "second" 8, .steps 0 "first" 40, .steps 1 "second" 40]).any
      (fun s => s.db.liveCount (Stmt.connectTokenOf 1) s.clock == 2) = true := by decide
  obtain ⟨s, hs, hcount⟩ := Reach.of_play_any hrun
  intro hall
  have := (hall s hs).1 1
  rw [beq_iff_eq.mp hcount] at this
  exact absurd this (by decide)

end SmartClassroom
