/-
  Connect tokens in any interleaving.

  An UPDATE of `tokens` takes rows that are neither revoked nor consumed, and
  waits for a transaction that has updated one of them (`tokens_taken`).  Hence
  a connect token is consumed for one request only, a token that is consumed
  stays rejected, and no token is both consumed and revoked (`consumed_once`).
-/
import SmartClassroom.Constraints
import SmartClassroom.Lib.Once

namespace SmartClassroom

open Txn

/-! ## The rows an UPDATE takes -/

/-- A row of `tokens` with this id is active. -/
def HasActive (st : Store) (id : ℤ) : Prop := ∃ t ∈ st.tokens, t.id = id ∧ t.active = true

/-- A row of `tokens` with this id is not. -/
def HasUsed (st : Store) (id : ℤ) : Prop := ∃ t ∈ st.tokens, t.id = id ∧ t.active = false

/-- The write updates the token with this id. -/
def Write.TakesToken (w : Write) (id : ℤ) : Prop := id ∈ w.updatedTokens

theorem tokenWhere_active {s : Stmt} {p : Token → Bool} (hs : s.tokenWhere = some p) {t : Token}
    (ht : p t = true) : t.active = true := by
  cases s with
  | revokeConnectTokens | revokeAgentTokens | consumeToken =>
    obtain rfl := Option.some.inj hs
    simp only [Stmt.connectTokenOf, Stmt.agentTokenOf, Stmt.consumable, Bool.and_eq_true] at ht
    exact ht.2
  | _ => cases hs

theorem tokenWhere_waits {s : Stmt} {p : Token → Bool} (hs : s.tokenWhere = some p) (q : Seqs)
    (snap cur : Store) (w : Write) :
    s.waitsFor q snap cur w = Stmt.wants Token.id p snap.tokens w.updatedTokens := by
  cases s with
  | revokeConnectTokens | revokeAgentTokens | consumeToken =>
    obtain rfl := Option.some.inj hs
    rfl
  | _ => cases hs

/-- An UPDATE of `tokens` is the first of its transaction. -/
theorem tokenWhere_pre {cfg : Settings} {j : Job} {h : History} {s : Stmt} {p : Token → Bool}
    (hs : s.tokenWhere = some p) (hpre : pre cfg j h s) :
    ∀ w ∈ pendOf h, w.newTokens = [] ∧ w.updatedTokens = [] := by
  cases s with
  | revokeConnectTokens | revokeAgentTokens => exact fun w hw => ⟨(hpre w hw).1, (hpre w hw).2.1⟩
  | consumeToken => simp [hpre.1]
  | _ => cases hs

theorem onToken_inactive {w : Write} {t : Token} (h : w.TakesToken t.id) :
    (w.onToken t).active = false := by
  cases w with
  | revokeTokens ids now | consumeTokens ids now =>
    have hid : t.id ∈ ids := h
    simp [Write.onToken, hid, Token.active]
  | _ => exact absurd h List.not_mem_nil

theorem onToken_of_not_takes {w : Write} {t : Token} (h : ¬w.TakesToken t.id) : w.onToken t = t := by
  cases w with
  | revokeTokens ids now | consumeTokens ids now =>
    have hid : t.id ∉ ids := h
    simp [Write.onToken, hid]
  | _ => rfl

theorem updAll_of_not_takes {ws : List Write} : ∀ {t : Token},
    (∀ w ∈ ws, ¬w.TakesToken t.id) → tokenTable.updAll ws t = t := by
  induction ws with
  | nil => exact fun _ => rfl
  | cons w ws ih =>
    intro t h
    have hw : w.onToken t = t := onToken_of_not_takes (h w List.mem_cons_self)
    change tokenTable.updAll ws (w.onToken t) = t
    rw [hw]
    exact ih fun w' hw' => h w' (List.mem_cons_of_mem _ hw')

theorem updAll_inactive {ws : List Write} : ∀ {t : Token} {w : Write}, w ∈ ws →
    w.TakesToken t.id → (tokenTable.updAll ws t).active = false := by
  induction ws with
  | nil => simp
  | cons w' ws ih =>
    intro t w hw ht
    change (tokenTable.updAll ws (w'.onToken t)).active = false
    rcases List.mem_cons.mp hw with rfl | hw
    · by_contra hne
      have := (updAll_token_evolves ws _).active (Bool.not_eq_false _ ▸ hne)
      rw [onToken_inactive ht] at this
      cases this
    · exact ih hw ((w'.onToken_evolves t).id.symm ▸ ht)

/-- A token that one write at most has updated is not both consumed and revoked. -/
theorem updAll_not_both {ws : List Write}
    (hone : ws.Pairwise fun w w' => w.updatedTokens = [] ∨ w'.updatedTokens = []) :
    ∀ {t : Token}, t.active = true → (tokenTable.updAll ws t).consumedAt = none ∨
      (tokenTable.updAll ws t).revokedAt = none := by
  induction hone with
  | nil =>
    intro t ht
    simp only [Token.active, Bool.and_eq_true, Option.isNone_iff_eq_none] at ht
    exact .inl ht.2
  | @cons w ws hw _ ih =>
    intro t ht
    change (tokenTable.updAll ws (w.onToken t)).consumedAt = none ∨
      (tokenTable.updAll ws (w.onToken t)).revokedAt = none
    by_cases hnil : w.updatedTokens = []
    · rw [onToken_eq_self hnil]
      exact ih ht
    · -- the other writes update nothing
      rw [updAll_of_not_takes fun w' hw' => by simp [Write.TakesToken, (hw w' hw').resolve_left hnil]]
      simp only [Token.active, Bool.and_eq_true, Option.isNone_iff_eq_none] at ht
      cases w with
      | revokeTokens ids now =>
        simp only [Write.onToken]
        split_ifs <;> exact .inl ht.2
      | consumeTokens ids now =>
        simp only [Write.onToken]
        split_ifs <;> exact .inr ht.1
      | _ => exact absurd rfl hnil

/-- **An UPDATE of `tokens` takes active rows that nobody else has taken.** -/
theorem tokens_taken (cfg : Settings) :
    Takes (rules cfg) Write.TakesToken HasActive HasUsed where
  found {j h s b q snap cur w id} hs hw hid := by
    obtain ⟨p, hp, hhit⟩ := writes_updatedTokens hw hid
    rw [tokens_of_untouched (tokenWhere_pre hp hs.2)] at hhit
    obtain ⟨⟨x, hx, hpx, rfl⟩, -⟩ := mem_hits.mp hhit
    rw [tokens_of_untouched (tokenWhere_pre hp hs.2)] at hx
    exact ⟨x, hx, rfl, tokenWhere_active hp hpx⟩
  waits {j h s b q snap cur w id ws} _ hw hid hb w' hw' hid' := by
    obtain ⟨p, hp, hhit⟩ := writes_updatedTokens hw hid
    obtain ⟨-, y, hy, hpy, rfl⟩ := mem_hits.mp hhit
    have hb := List.any_eq_false.mp hb w' hw'
    rw [tokenWhere_waits hp] at hb
    exact hb (List.any_eq_true.mpr ⟨y, hy, by simpa [hpy, Write.TakesToken] using hid'⟩)
  keeps {db ws id} hdb hws := by
    obtain ⟨t, ht, rfl, hact⟩ := hdb
    refine ⟨t, ?_, rfl, hact⟩
    rw [tokens_applyAll]
    exact List.mem_append_left _ (List.mem_map.mpr ⟨t, ht, updAll_of_not_takes hws⟩)
  kills {db ws w id} hdb hw hid := by
    obtain ⟨t, ht, rfl, -⟩ := hdb
    refine ⟨tokenTable.updAll ws t, ?_, (updAll_token_evolves ws t).id, updAll_inactive hw hid⟩
    rw [tokens_applyAll]
    exact List.mem_append_left _ (List.mem_map_of_mem ht)
  stays {db ws id} hdb := by
    obtain ⟨t, ht, rfl, hused⟩ := hdb
    refine ⟨tokenTable.updAll ws t, ?_, (updAll_token_evolves ws t).id, ?_⟩
    · rw [tokens_applyAll]
      exact List.mem_append_left _ (List.mem_map_of_mem ht)
    · by_contra hne
      have := (updAll_token_evolves ws t).active (Bool.not_eq_false _ ▸ hne)
      rw [hused] at this
      cases this

/-! ## Interleavings -/

theorem Consistent.active_or_used {st : Store} (h : Consistent st) (id : ℤ) :
    HasActive st id → ¬HasUsed st id := by
  rintro ⟨t, ht, rfl, hact⟩ ⟨t', ht', hid, hused⟩
  obtain rfl := h.token_eq ht ht' (.inl hid.symm)
  simp [hact] at hused

/-- The request is a verification of the token `jti`, and was answered `valid`. -/
def AnsweredValid (hashRaw : String → String) (r : Req broker Job BrokerError Reply) (jti : String)
    (consume : Bool) : Prop :=
  ∃ raw response, r.job = .verify raw consume ∧ hashRaw raw = jti ∧
    r.prog = .ret (.verified response) ∧ response.valid = true

section
variable {cfg : Settings} {hashRaw : String → String} {C : System → Label Job ℤ String → Prop}
  {db : Store} {aux : Seqs} {clock : ℤ} {s s' : System}

theorem once_of_reach (hdb : Consistent db)
    (h : Reach (app cfg hashRaw) C ⟨db, aux, clock, []⟩ s) :
    Once Write.TakesToken HasActive HasUsed s :=
  h.once (tokens_taken cfg) app_keeps Store.grows (.init hdb.ranges)
    (fun _ h₁ id => (consistent_of_reach hdb h₁).active_or_used id) .init

/-- What a request answered `valid` has seen and done. -/
theorem AnsweredValid.verified (hs : s.Sound RangesNonempty (rules cfg) (answers hashRaw) Store.Evolves)
    {i : ℕ} {r : Req broker Job BrokerError Reply} (hr : s.reqs[i]? = some r) {jti : String}
    {consume : Bool} (ha : AnsweredValid hashRaw r jti consume) :
    ∃ now snap cur t, Ran r.log (.tokenByJti .connect jti now) snap cur ∧ t ∈ snap.tokens ∧
      t.jti = jti ∧ t.active = true ∧
      (consume = true → ∃ ids now', Write.consumeTokens ids now' ∈ doneOf r.log ∧ t.id ∈ ids) := by
  obtain ⟨raw, response, hj, rfl, hp, hvalid⟩ := ha
  have hok := (hs.req i r hr).ok
  rw [hp, hj] at hok
  obtain ⟨now, snap, cur, t, hran, ht, hv, hcons⟩ := hok hvalid
  simp only [Stmt.valid, Bool.and_eq_true, beq_iff_eq] at hv
  exact ⟨now, snap, cur, t, hran, ht, hv.1.1.1, hv.1.2, hcons⟩

/-- A token that a request has seen is still there. -/
theorem Ran.token (hs : s.Sound RangesNonempty (rules cfg) (answers hashRaw) Store.Evolves) {i : ℕ}
    {r : Req broker Job BrokerError Reply} (hr : s.reqs[i]? = some r) {st : Stmt} {snap cur : Store}
    (hran : Ran r.log st snap cur) {t : Token} (ht : t ∈ snap.tokens) :
    ∃ t' ∈ s.db.tokens, t.Evolves t' :=
  (hran.evolves (hs.req i r hr).past).tokens t ht

/-- Two requests are not both answered `valid` for consuming one token. -/
theorem answeredValid_unique (hdb : Consistent db)
    (h : Reach (app cfg hashRaw) C ⟨db, aux, clock, []⟩ s) {i k : ℕ}
    {r q : Req broker Job BrokerError Reply} (hr : s.reqs[i]? = some r) (hq : s.reqs[k]? = some q)
    {jti : String} (hri : AnsweredValid hashRaw r jti true) (hqk : AnsweredValid hashRaw q jti true) :
    i = k := by
  by_contra hik
  have hs := sound_of_reach hdb h
  obtain ⟨_, _, _, t, hran, ht, hjti, -, hcons⟩ := hri.verified hs hr
  obtain ⟨_, _, _, t', hran', ht', hjti', -, hcons'⟩ := hqk.verified hs hq
  -- both have consumed the row of the token, with the same id
  obtain ⟨x, hx, hev⟩ := hran.token hs hr ht
  obtain ⟨y, hy, hev'⟩ := hran'.token hs hq ht'
  obtain rfl : x = y := (consistent_of_reach hdb h).token_eq hx hy
    (.inr (by rw [hev.jti, hev'.jti, hjti, hjti']))
  obtain ⟨ids, now, hdone, hid⟩ := hcons rfl
  obtain ⟨ids', now', hdone', hid'⟩ := hcons' rfl
  exact (once_of_reach hdb h).once i k r q hik hr hq _ hdone _ hdone' t.id hid
    (show t.id ∈ ids' from hev.id.symm.trans hev'.id ▸ hid')

/-- A consumed token is not accepted by a request that arrives later. -/
theorem not_answeredValid_of_consumed (hdb : Consistent db)
    (h : Reach (app cfg hashRaw) C ⟨db, aux, clock, []⟩ s) (h' : Reach (app cfg hashRaw) C s s')
    {t : Token} (ht : t ∈ s.db.tokens) (hcons : t.consumedAt.isSome) {i : ℕ}
    {r : Req broker Job BrokerError Reply} (hi : s.reqs.length ≤ i) (hr : s'.reqs[i]? = some r)
    (consume : Bool) : ¬AnsweredValid hashRaw r t.jti consume := by
  intro ha
  obtain ⟨_, snap, cur, x, ⟨b, q, hran⟩, hx, hjti, hact, -⟩ :=
    ha.verified (sound_of_reach hdb (h.trans h')) hr
  -- its snapshot is a later store, in which the row of the token is consumed
  obtain ⟨⟨hsnap, t', ht', hev⟩, -⟩ := (h'.saw (P := fun st => Consistent st ∧
    ∃ t' ∈ st.tokens, t.Evolves t') (fun s₁ h₁ => ⟨consistent_of_reach hdb (h.trans h₁),
      (h₁.grows Store.grows).tokens t ht⟩) hi hr).1 _ _ _ _ _ hran
  obtain rfl := hsnap.token_eq hx ht' (.inr (hjti.trans hev.jti.symm))
  have := hev.active hact
  simp [Token.active, Option.isSome_iff_ne_none.mp hcons] at this

/-- No token is both consumed and revoked. -/
theorem consumed_or_revoked (hdb : Consistent db)
    (hboth : ∀ t ∈ db.tokens, t.consumedAt = none ∨ t.revokedAt = none)
    (h : Reach (app cfg hashRaw) C ⟨db, aux, clock, []⟩ s) :
    ∀ t ∈ s.db.tokens, t.consumedAt = none ∨ t.revokedAt = none := by
  refine h.store_inv (P := fun _ (st : Store) => ∀ t ∈ st.tokens, t.consumedAt = none ∨
    t.revokedAt = none) (fun _ _ _ _ h => h) (fun s₁ i r k h₁ _ hr hp ih x hx => ?_) hboth
  have hk := ((sound_of_reach hdb h₁).req i r hr).kept
  have hpend : r.pend = pendOf r.log := Req.pend_of_not_ended (by simp [Req.ended, hp])
  have hone : (pendOf r.log).Pairwise fun w w' => w.updatedTokens = [] ∨ w'.updatedTokens = [] := by
    refine pend_pairwise (fun h s b q snap cur hs w' hw' w hw => ?_) hk
    by_cases hnil : w'.updatedTokens = []
    · exact .inr hnil
    · obtain ⟨id, hid⟩ := List.exists_mem_of_ne_nil _ hnil
      obtain ⟨p, hp, -⟩ := writes_updatedTokens hw' hid
      exact .inl (tokenWhere_pre hp hs w hw).2
  rw [tokens_applyAll] at hx
  rcases List.mem_append.mp hx with hx | hx
  · obtain ⟨t, ht, rfl⟩ := List.mem_map.mp hx
    by_cases htakes : ∃ w ∈ pendOf r.log, w.TakesToken t.id
    · obtain ⟨w, hw, htakes⟩ := htakes
      obtain ⟨t', ht', hid, hact⟩ :=
        (once_of_reach hdb h₁).pend i r hr w (hpend ▸ hw) t.id htakes
      obtain rfl := (consistent_of_reach hdb h₁).token_eq ht' ht (.inl hid)
      exact updAll_not_both hone hact
    · rw [updAll_of_not_takes fun w hw h => htakes ⟨w, hw, h⟩]
      exact ih t ht
  · obtain ⟨y, hy, ws', hsub, rfl⟩ := mem_newTokens hx
    obtain ⟨new, id, rfl, -⟩ := pending_token hk hy
    exact updAll_not_both (hone.sublist hsub) rfl

/-- **Each connect token is consumed once, in any interleaving.** -/
theorem consumed_once (hdb : Consistent db)
    (hboth : ∀ t ∈ db.tokens, t.consumedAt = none ∨ t.revokedAt = none)
    (h : Reach (app cfg hashRaw) Any ⟨db, aux, clock, []⟩ s) :
    (∀ (jti : String) (i k : ℕ) r q, s.reqs[i]? = some r → s.reqs[k]? = some q →
      AnsweredValid hashRaw r jti true → AnsweredValid hashRaw q jti true → i = k) ∧
    (∀ t ∈ s.db.tokens, t.consumedAt.isSome → ∀ s', Reach (app cfg hashRaw) Any s s' →
      ∀ (i : ℕ) r, s.reqs.length ≤ i → s'.reqs[i]? = some r →
      ∀ consume, ¬AnsweredValid hashRaw r t.jti consume) ∧
    ∀ t ∈ s.db.tokens, t.consumedAt = none ∨ t.revokedAt = none :=
  ⟨fun _ _ _ _ _ hr hq h1 h2 => answeredValid_unique hdb h hr hq h1 h2,
    fun _ ht hcons _ h' _ _ hi hr consume =>
      not_answeredValid_of_consumed hdb h h' ht hcons hi hr consume,
    consumed_or_revoked hdb hboth h⟩

end

/-- Two verifications at once, which both find the token before one consumes it. -/
theorem consumed_once_race : ∃ s : System, (∃ t ∈ s.db.tokens, t.consumedAt.isSome) ∧
    ∀ t ∈ s.db.tokens, t.consumedAt = none ∨ t.revokedAt = none := by
  have hrun : (play (app {} id) Any ⟨room, {}, 0, []⟩
      [.arrive (.instant ⟨1, .user, "mock"⟩ 1), .steps 0 "a-token-of-sixteen" 60,
        .arrive (.verify "a-token-of-sixteen" true), .arrive (.verify "a-token-of-sixteen" true),
        .steps 1 "" 3, .steps 2 "" 3, .steps 1 "" 20, .steps 2 "" 20]).any
      (fun s => s.db.tokens.any (·.consumedAt.isSome)) = true := by decide
  obtain ⟨s, hs, ht⟩ := Reach.of_play_any hrun
  exact ⟨s, List.any_eq_true.mp ht,
    (consumed_once room_consistent (by simp [room]) hs).2.2⟩

end SmartClassroom
