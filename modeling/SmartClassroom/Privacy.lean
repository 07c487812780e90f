/-
  What one user sees of the others' reservations.

  * `Agree`: two stores agree on the hosts and on what the user `v` owns, and
    differ in the others' reservations and their tokens as they like.
  * `OthersKept`: what `v` does not own stays.

  Under the same clock and random tokens, what `v` lists, gets, cancels and
  connects to is answered alike in both, and leaves untouched what `v` does not
  own; and the calendar masks the other users (`unseen`).
-/
import Mathlib.Data.List.Find
import SmartClassroom.Calendar

namespace SmartClassroom

open Txn Prog

variable {cfg : Settings} {hashRaw : String → String} {E : Env ℤ String} {v : User}

/-! ## Two stores -/

/-- `v` owns the reservation with this id, and nobody else does. -/
structure OwnId (v : User) (st : Store) (id : ℤ) : Prop where
  own : ∃ r ∈ st.reservations, r.id = id ∧ r.userId = v.id
  only : ∀ r ∈ st.reservations, r.id = id → r.userId = v.id

/-- What `v` does not own is in `st'` as in `st`: the reservations of the other
    users, and the tokens bound to them. -/
structure OthersKept (v : User) (st st' : Store) : Prop where
  reservations : st'.reservations.filter (·.userId != v.id) = st.reservations.filter (·.userId != v.id)
  tokens : ∀ r ∈ st.reservations, r.userId ≠ v.id →
    st'.tokens.filter (·.reservationId == some r.id) = st.tokens.filter (·.reservationId == some r.id)

theorem OthersKept.refl (st : Store) : OthersKept v st st := ⟨rfl, fun _ _ _ => rfl⟩

/-- The primary keys. -/
structure Keyed (st : Store) : Prop where
  reservations : (st.reservations.map (·.id)).Nodup
  tokens : (st.tokens.map (·.id)).Nodup

/-- Two stores that differ in other users' reservations, and in the tokens that
    are not bound to those of `v`. -/
structure Agree (v : User) (st st' : Store) : Prop where
  hosts : st.hosts = st'.hosts
  account : (∃ u ∈ st.users, u.id = v.id) ↔ ∃ u ∈ st'.users, u.id = v.id
  own : st.reservations.filter (·.userId == v.id) = st'.reservations.filter (·.userId == v.id)
  tokens : ∀ r ∈ st.reservations, r.userId = v.id →
    st.tokens.filter (·.reservationId == some r.id) = st'.tokens.filter (·.reservationId == some r.id)

/-- A new token meets an existing one in both stores or in neither. -/
structure SameClashes (hashRaw : String → String) (E : Env ℤ String) (st : Store) (q : Seqs)
    (st' : Store) (q' : Seqs) : Prop where
  ids : (∃ t ∈ st.tokens, t.id = q.token) ↔ ∃ t ∈ st'.tokens, t.id = q'.token
  jtis : ∀ n, (∃ t ∈ st.tokens, t.jti = hashRaw (E.nonce n)) ↔
    ∃ t ∈ st'.tokens, t.jti = hashRaw (E.nonce n)

/-- Equal ids mean equal rows. -/
theorem Keyed.reservation_eq {st : Store} (h : Keyed st) {r r' : Reservation}
    (hr : r ∈ st.reservations) (hr' : r' ∈ st.reservations) (hid : r.id = r'.id) : r = r' :=
  List.inj_on_of_nodup_map h.reservations hr hr' hid

theorem Keyed.token_eq {st : Store} (h : Keyed st) {t t' : Token} (ht : t ∈ st.tokens)
    (ht' : t' ∈ st.tokens) (hid : t.id = t'.id) : t = t' :=
  List.inj_on_of_nodup_map h.tokens ht ht' hid

theorem Keyed.ownId {st : Store} (h : Keyed st) {r : Reservation} (hr : r ∈ st.reservations)
    (hown : r.userId = v.id) : OwnId v st r.id :=
  ⟨⟨r, hr, rfl, hown⟩, fun _ hr' hid => h.reservation_eq hr' hr hid ▸ hown⟩

/-- A reservation of `v` is in both tables or in neither. -/
theorem mem_own {rows rows' : List Reservation}
    (h : rows.filter (·.userId == v.id) = rows'.filter (·.userId == v.id)) {r : Reservation}
    (hown : r.userId = v.id) : r ∈ rows ↔ r ∈ rows' := by
  have hmem : r ∈ rows.filter (·.userId == v.id) ↔ r ∈ rows'.filter (·.userId == v.id) := by rw [h]
  simpa only [List.mem_filter, beq_iff_eq, hown, and_true] using hmem

/-! ## Writes -/

/-- An update that keeps the rows of `p`, and which rows those are. -/
theorem filter_map_of_fixed {α : Type} {p : α → Bool} {f : α → α} {l : List α}
    (hp : ∀ x ∈ l, p (f x) = p x) (hf : ∀ x ∈ l, p x = true → f x = x) :
    (l.map f).filter p = l.filter p := by
  induction l with
  | nil => rfl
  | cons x l ih =>
    rw [List.map_cons, List.filter_cons, List.filter_cons, hp x List.mem_cons_self,
      ih (fun y hy => hp y (List.mem_cons_of_mem _ hy)) fun y hy => hf y (List.mem_cons_of_mem _ hy)]
    split_ifs with hx
    · rw [hf x List.mem_cons_self hx]
    · rfl

/-- The same update of rows that `p` does not see change. -/
theorem filter_map_comm {α : Type} {p : α → Bool} {f : α → α} {l : List α}
    (hp : ∀ x ∈ l, p (f x) = p x) : (l.map f).filter p = (l.filter p).map f := by
  rw [List.filter_map]
  exact congrArg _ (List.filter_congr hp)

/-- A write of the user's own rows leaves the others. -/
theorem OthersKept.apply {st st' : Store} (h : OthersKept v st st') {w : Write}
    (hr : ∀ r ∈ st'.reservations, r.userId ≠ v.id → w.onReservation r = r)
    (hn : ∀ r ∈ w.newReservations, r.userId = v.id)
    (ht : ∀ r ∈ st.reservations, r.userId ≠ v.id → ∀ t ∈ st'.tokens, t.reservationId = some r.id →
      w.onToken t = t)
    (hm : ∀ r ∈ st.reservations, r.userId ≠ v.id → ∀ t ∈ w.newTokens, t.reservationId ≠ some r.id) :
    OthersKept v st (st'.apply w) where
  reservations := by
    have hnew : w.newReservations.filter (·.userId != v.id) = [] :=
      List.filter_eq_nil_iff.mpr fun r hr => by simp [hn r hr]
    rw [Store.apply, List.filter_append, hnew, List.append_nil, ← h.reservations]
    refine filter_map_of_fixed (fun r _ => ?_) fun r hmem hown => hr r hmem (by simpa using hown)
    rw [(w.onReservation_evolves r).userId]
  tokens r hmem hown := by
    have hnew : w.newTokens.filter (·.reservationId == some r.id) = [] :=
      List.filter_eq_nil_iff.mpr fun t ht => by simpa using hm r hmem hown t ht
    rw [Store.apply, List.filter_append, hnew, List.append_nil, ← h.tokens r hmem hown]
    refine filter_map_of_fixed (fun t _ => ?_) fun t hmem' hb => ht r hmem hown t hmem' (by simpa using hb)
    rw [(w.onToken_evolves t).reservationId]

/-- Only the reservations and the tokens matter. -/
theorem OthersKept.congr {st st' st'' : Store} (h : OthersKept v st st')
    (hr : st''.reservations = st'.reservations) (ht : st''.tokens = st'.tokens) :
    OthersKept v st st'' :=
  ⟨hr ▸ h.reservations, ht ▸ h.tokens⟩

theorem OthersKept.mem {st st' : Store} (h : OthersKept v st st') {r : Reservation}
    (hr : r ∈ st'.reservations) (hown : r.userId ≠ v.id) : r ∈ st.reservations := by
  have hmem : r ∈ st'.reservations.filter (·.userId != v.id) :=
    List.mem_filter.mpr ⟨hr, by simpa using hown⟩
  rw [h.reservations] at hmem
  exact (List.mem_filter.mp hmem).1

/-- The row with an id of `v` is one of `v`. -/
theorem OthersKept.own {st st' : Store} (h : OthersKept v st st') {r : Reservation} {id : ℤ}
    (hid : OwnId v st id) (hr : r ∈ st'.reservations) (he : r.id = id) : r.userId = v.id := by
  by_contra hown
  exact hown (hid.only r (h.mem hr hown) he)

/-! ## Two runs -/

/-- Both runs have left untouched what `v` does not own, in `st` and in `st'`. -/
structure Left (v : User) (st st' : Store) (c c' : Ctx broker) : Prop where
  db : OthersKept v st c.db ∧ OthersKept v st' c'.db
  view : OthersKept v st c.view ∧ OthersKept v st' c'.view

/-- And `v` exists in both or in neither. -/
structure Rest (v : User) (st st' : Store) (c c' : Ctx broker) : Prop extends Left v st st' c c' where
  account : (∃ u ∈ c.view.users, u.id = v.id) ↔ ∃ u ∈ c'.view.users, u.id = v.id

/-- And `v` sees the same in both. -/
structure Same (hashRaw : String → String) (E : Env ℤ String) (v : User) (st st' : Store)
    (c c' : Ctx broker) : Prop extends Rest v st st' c c' where
  reads : c.reads = c'.reads
  draws : c.draws = c'.draws
  hosts : c.view.hosts = c'.view.hosts
  own : c.view.reservations.filter (·.userId == v.id) = c'.view.reservations.filter (·.userId == v.id)
  ids : ∀ r ∈ c.view.reservations, r.userId = v.id → OwnId v st r.id ∧ OwnId v st' r.id
  tokens : ∀ id, OwnId v st id →
    c.view.tokens.filter (·.reservationId == some id) = c'.view.tokens.filter (·.reservationId == some id)
  keys : (∀ t ∈ c.view.tokens, ∀ t' ∈ c.view.tokens, t.id = t'.id → t.reservationId = t'.reservationId) ∧
    ∀ t ∈ c'.view.tokens, ∀ t' ∈ c'.view.tokens, t.id = t'.id → t.reservationId = t'.reservationId
  clashes : SameClashes hashRaw E c.view c.aux c'.view c'.aux

theorem Agree.same {st st' : Store} {q q' : Seqs} (h : Agree v st st') (hk : Keyed st) (hk' : Keyed st')
    (hc : SameClashes hashRaw E st q st' q') :
    Same hashRaw E v st st' ⟨st, [], q, 0, 0⟩ ⟨st', [], q', 0, 0⟩ where
  account := h.account
  db := ⟨.refl st, .refl st'⟩
  view := ⟨.refl st, .refl st'⟩
  reads := rfl
  draws := rfl
  hosts := h.hosts
  own := h.own
  ids r hr hown := ⟨hk.ownId hr hown, hk'.ownId ((mem_own h.own hown).mp hr) hown⟩
  tokens id hid := by
    obtain ⟨r, hr, rfl, hown⟩ := hid.own
    exact h.tokens r hr hown
  keys := ⟨fun t ht t' ht' hid => congrArg _ (hk.token_eq ht ht' hid),
    fun t ht t' ht' hid => congrArg _ (hk'.token_eq ht ht' hid)⟩
  clashes := hc

section
variable {st st' : Store} {c c' : Ctx broker}

theorem Same.ownId' (h : Same hashRaw E v st st' c c') {r : Reservation} (hr : r ∈ c'.view.reservations)
    (hown : r.userId = v.id) : OwnId v st r.id ∧ OwnId v st' r.id :=
  h.ids r ((mem_own h.own hown).mpr hr) hown

/-- Reading the clock, and drawing a token. -/
theorem Same.read (h : Same hashRaw E v st st' c c') : c.reads = c'.reads ∧
    Same hashRaw E v st st' { c with reads := c.reads + 1 } { c' with reads := c'.reads + 1 } :=
  ⟨h.reads, { h with reads := congrArg (· + 1) h.reads }⟩

theorem Same.drawn (h : Same hashRaw E v st st' c c') : c.draws = c'.draws ∧
    Same hashRaw E v st st' { c with draws := c.draws + 1 } { c' with draws := c'.draws + 1 } :=
  ⟨h.draws, { h with draws := congrArg (· + 1) h.draws }⟩

/-- An update of rows that `v` owns. -/
structure OwnUpdate (v : User) (st view : Store) (w : Write) : Prop where
  hosts : ∀ h, w.onHost h = h
  new : w.newReservations = [] ∧ w.newTokens = []
  reservations : ∀ r ∈ view.reservations, r.userId ≠ v.id → w.onReservation r = r
  tokens : ∀ r ∈ st.reservations, r.userId ≠ v.id → ∀ t ∈ view.tokens, t.reservationId = some r.id →
    w.onToken t = t

theorem OwnUpdate.othersKept {view : Store} {w : Write} (hw : OwnUpdate v st view w)
    (h : OthersKept v st view) : OthersKept v st (view.apply w) :=
  h.apply hw.reservations (by simp [hw.new.1]) hw.tokens (by simp [hw.new.2])

namespace OwnUpdate
variable {view : Store} {w : Write} (hw : OwnUpdate v st view w)
include hw

theorem reservations_apply : (view.apply w).reservations = view.reservations.map w.onReservation := by
  simp [Store.apply, hw.new.1]

theorem tokens_apply : (view.apply w).tokens = view.tokens.map w.onToken := by
  simp [Store.apply, hw.new.2]

theorem filter_own : (view.apply w).reservations.filter (·.userId == v.id) =
    (view.reservations.filter (·.userId == v.id)).map w.onReservation := by
  rw [hw.reservations_apply]
  exact filter_map_comm fun r _ => by rw [(w.onReservation_evolves r).userId]

theorem filter_bound (id : ℤ) : (view.apply w).tokens.filter (·.reservationId == some id) =
    (view.tokens.filter (·.reservationId == some id)).map w.onToken := by
  rw [hw.tokens_apply]
  exact filter_map_comm fun t _ => by rw [(w.onToken_evolves t).reservationId]

theorem exists_token {P : Token → Prop} (hP : ∀ t, P (w.onToken t) ↔ P t) :
    (∃ t ∈ (view.apply w).tokens, P t) ↔ ∃ t ∈ view.tokens, P t := by
  simp [hw.tokens_apply, hP]

theorem keys (h : ∀ t ∈ view.tokens, ∀ t' ∈ view.tokens, t.id = t'.id →
      t.reservationId = t'.reservationId) : ∀ t ∈ (view.apply w).tokens, ∀ t' ∈ (view.apply w).tokens,
    t.id = t'.id → t.reservationId = t'.reservationId := by
  simp only [hw.tokens_apply, List.forall_mem_map, Write.onToken_id]
  intro t ht t' ht' hid
  rw [(w.onToken_evolves t).reservationId, (w.onToken_evolves t').reservationId]
  exact h t ht t' ht' hid

end OwnUpdate

/-- The same update in both. -/
theorem Same.update (h : Same hashRaw E v st st' c c') {s : Stmt} {w w' : Write} {n n' : s.Res}
    (hs : s.exec E.began c.aux c.view c.view = (c.aux, [w], n))
    (hs' : s.exec E.began c'.aux c'.view c'.view = (c'.aux, [w'], n'))
    (hw : OwnUpdate v st c.view w) (hw' : OwnUpdate v st' c'.view w')
    (hr : ∀ r ∈ c.view.reservations, r.userId = v.id → w.onReservation r = w'.onReservation r)
    (ht : w.onToken = w'.onToken) :
    Same hashRaw E v st st' (c.after E.began s) (c'.after E.began s) := by
  have hview : (c.after E.began s).view = c.view.apply w := by rw [view_after, hs]; rfl
  have hview' : (c'.after E.began s).view = c'.view.apply w' := by rw [view_after, hs']; rfl
  have haux : (c.after E.began s).aux = c.aux := congrArg Prod.fst hs
  have haux' : (c'.after E.began s).aux = c'.aux := congrArg Prod.fst hs'
  refine { account := ?_, db := h.db, view := ?_, reads := h.reads, draws := h.draws, hosts := ?_,
           own := ?_, ids := ?_, tokens := ?_, keys := ?_, clashes := ⟨?_, fun n => ?_⟩ }
  all_goals simp only [hview, hview', haux, haux']
  · exact ⟨hw.othersKept h.view.1, hw'.othersKept h.view.2⟩
  · exact h.account
  · simp [Store.apply, funext hw.hosts, funext hw'.hosts, h.hosts]
  · rw [hw.filter_own, hw'.filter_own, ← h.own]
    refine List.map_congr_left fun r hmem => ?_
    obtain ⟨hmem, hown⟩ := List.mem_filter.mp hmem
    exact hr r hmem (beq_iff_eq.mp hown)
  · rw [hw.reservations_apply, List.forall_mem_map]
    intro r hmem hown
    rw [(w.onReservation_evolves r).userId] at hown
    rw [(w.onReservation_evolves r).id]
    exact h.ids r hmem hown
  · intro id hid
    rw [hw.filter_bound, hw'.filter_bound, h.tokens id hid, ht]
  · exact ⟨hw.keys h.keys.1, hw'.keys h.keys.2⟩
  · exact ((hw.exists_token fun t => by rw [Write.onToken_id]).trans h.clashes.ids).trans
      (hw'.exists_token fun t => by rw [Write.onToken_id]).symm
  · exact ((hw.exists_token fun t => by rw [(w.onToken_evolves t).jti]).trans (h.clashes.jtis n)).trans
      (hw'.exists_token fun t => by rw [(w'.onToken_evolves t).jti]).symm

/-- The cancellation of a reservation of `v`. -/
theorem ownUpdate_cancel {view : Store} (h : OthersKept v st view) {id : ℤ} (hid : OwnId v st id)
    (now : ℤ) : OwnUpdate v st view (.cancelReservations
      (Stmt.hits Reservation.id (·.id == id) view.reservations view.reservations) now) where
  hosts _ := rfl
  new := ⟨rfl, rfl⟩
  reservations r hr hown := by
    refine if_neg fun hmem => ?_
    obtain ⟨x, hx, hxid, hrid⟩ := mem_hits_self.mp (List.contains_iff_mem.mp hmem)
    exact hown (h.own hid hr (hrid.symm.trans (beq_iff_eq.mp hxid)))
  tokens _ _ _ _ _ _ := rfl

/-- The revocation of the tokens bound to a reservation of `v`. -/
theorem ownUpdate_revoke {view : Store} (hk : ∀ t ∈ view.tokens, ∀ t' ∈ view.tokens, t.id = t'.id →
      t.reservationId = t'.reservationId) {id : ℤ} (hid : OwnId v st id) (now : ℤ) :
    OwnUpdate v st view (.revokeTokens
      (Stmt.hits Token.id (Stmt.connectTokenOf id) view.tokens view.tokens) now) where
  hosts _ := rfl
  new := ⟨rfl, rfl⟩
  reservations _ _ _ := rfl
  tokens r hr hown t ht hb := by
    refine if_neg fun hmem => hown (hid.only r hr ?_)
    obtain ⟨x, hx, hxp, hxid⟩ := mem_hits_self.mp (List.contains_iff_mem.mp hmem)
    simp only [Stmt.connectTokenOf, Bool.and_eq_true, beq_iff_eq] at hxp
    have hbound := (hk x hx t ht hxid).symm.trans hxp.1.1
    exact Option.some.inj (hb.symm.trans hbound)

theorem twin_cancelReservation {F : BrokerError → BrokerError → Prop} {id : ℤ} (hid : OwnId v st id)
    (hid' : OwnId v st' id) (now : ℤ) : Twin E (Same hashRaw E v st st') (Same hashRaw E v st st')
      (fun _ _ => True) F (execute (.cancelReservation id now)) (execute (.cancelReservation id now)) := by
  refine Twin.query (D := broker) (s := .cancelReservation id now) fun c c' h => ⟨trivial, ?_⟩
  have hhit : ∀ (rows : List Reservation) (r : Reservation), r ∈ rows →
      ((Stmt.hits Reservation.id (·.id == id) rows rows).contains r.id = true ↔ r.id = id) := by
    intro rows r hr
    rw [List.contains_iff_mem, mem_hits_self]
    exact ⟨fun ⟨x, _, hx, hxr⟩ => hxr.symm.trans (beq_iff_eq.mp hx), fun e => ⟨r, hr, beq_iff_eq.mpr e, rfl⟩⟩
  refine h.update rfl rfl (ownUpdate_cancel h.view.1 hid now) (ownUpdate_cancel h.view.2 hid' now)
    (fun r hr hown => ?_) rfl
  have hr' := (mem_own h.own hown).mp hr
  simp only [Write.onReservation, hhit _ r hr, hhit _ r hr']

/-- In both runs the same tokens are revoked. -/
theorem twin_revokeConnectTokens {F : BrokerError → BrokerError → Prop} {id : ℤ} (hid : OwnId v st id)
    (hid' : OwnId v st' id) (now : ℤ) : Twin E (Same hashRaw E v st st') (Same hashRaw E v st st')
      (· = ·) F (execute (.revokeConnectTokens id now)) (execute (.revokeConnectTokens id now)) := by
  refine Twin.query (D := broker) (s := .revokeConnectTokens id now) fun c c' h => ?_
  have hsplit : ∀ tokens : List Token, tokens.filter (Stmt.connectTokenOf id) =
      (tokens.filter (·.reservationId == some id)).filter (Stmt.connectTokenOf id) := by
    intro tokens
    rw [List.filter_filter]
    refine List.filter_congr fun t _ => ?_
    cases hb : t.reservationId == some id <;> simp [Stmt.connectTokenOf, hb]
  have hhits : Stmt.hits Token.id (Stmt.connectTokenOf id) c.view.tokens c.view.tokens =
      Stmt.hits Token.id (Stmt.connectTokenOf id) c'.view.tokens c'.view.tokens := by
    rw [hits_self, hits_self, hsplit, h.tokens id hid, ← hsplit]
  refine ⟨congrArg List.length hhits, ?_⟩
  exact h.update rfl rfl (ownUpdate_revoke h.keys.1 hid now) (ownUpdate_revoke h.keys.2 hid' now)
    (fun _ _ _ => rfl) (by rw [hhits])

/-! ### What ends the agreement -/

theorem users_after (b : ℤ) (s : Stmt) : (c.after b s).view.users = c.view.users := by
  rw [view_after, users_applyAll]

theorem tokens_after_calm {b : ℤ} {s : Stmt} (hs : s.calm) :
    (c.after b s).view.tokens = c.view.tokens := by
  rw [view_after]
  exact tokens_of_untouched (fun w hw => ⟨(hs.writes _ _ _ _ w hw).newTokens,
    (hs.writes _ _ _ _ w hw).updatedTokens⟩) _

theorem OthersKept.calm (h : OthersKept v st c.view) {b : ℤ} {s : Stmt} (hs : s.calm) :
    OthersKept v st (c.after b s).view :=
  h.congr (reservations_after_calm hs) (tokens_after_calm hs)

theorem Rest.after (h : Rest v st st' c c') {b : ℤ} {s s' : Stmt}
    (hk : OthersKept v st (c.after b s).view) (hk' : OthersKept v st' (c'.after b s').view) :
    Rest v st st' (c.after b s) (c'.after b s') where
  db := h.db
  view := ⟨hk, hk'⟩
  account := by rw [users_after, users_after]; exact h.account

theorem run_writeAudit_eq (e : AuditEntry) : (writeAudit e).run E c =
    (match c.view.violatedByAudit e with
      | none => .ok ()
      | some con => .error (.sql (.integrity con)), c.after E.began (.insertAudit e)) := by
  rw [writeAudit, run_execute]
  simp only [Stmt.exec]
  cases c.view.violatedByAudit e <;> rfl

/-- An audit row of `v` is written in both or in neither. -/
theorem twin_writeAudit {e e' : AuditEntry} (he : e.actorUserId = some v.id)
    (he' : e'.actorUserId = some v.id) :
    Twin E (Rest v st st') (Rest v st st') (· = ·) (· = ·) (writeAudit e) (writeAudit e') := by
  intro c c' h
  have hviol : c.view.violatedByAudit e = c'.view.violatedByAudit e' := by
    have hany : c.view.users.any (·.id == v.id) = c'.view.users.any (·.id == v.id) := by
      rw [Bool.eq_iff_iff]
      simpa only [List.any_eq_true, beq_iff_eq] using h.account
    simp only [Store.violatedByAudit, he, he', Option.all_some, hany]
  have hafter := h.after (b := E.began) (h.view.1.calm (s := .insertAudit e) trivial)
    (h.view.2.calm (s := .insertAudit e') trivial)
  rw [run_writeAudit_eq, run_writeAudit_eq, hviol]
  cases c'.view.violatedByAudit e' with
  | none => exact .ok rfl hafter
  | some con => exact .error rfl hafter

theorem Same.violatedByToken (h : Same hashRaw E v st st' c c') {new : NewToken} {id : ℤ}
    (hid : OwnId v st id) (hid' : OwnId v st' id) (hb : new.reservationId = some id)
    (hu : new.userId = v.id) {n : ℕ} (hj : new.jti = hashRaw (E.nonce n)) :
    c.view.violatedByToken (new.row c.aux.token) = c'.view.violatedByToken (new.row c'.aux.token) := by
  have hids : c.view.tokens.any (·.id == c.aux.token) = c'.view.tokens.any (·.id == c'.aux.token) := by
    rw [Bool.eq_iff_iff]
    simpa only [List.any_eq_true, beq_iff_eq] using h.clashes.ids
  have hjtis : c.view.tokens.any (·.jti == new.jti) = c'.view.tokens.any (·.jti == new.jti) := by
    rw [Bool.eq_iff_iff, hj]
    simpa only [List.any_eq_true, beq_iff_eq] using h.clashes.jtis n
  have husers : c.view.users.any (·.id == new.userId) = c'.view.users.any (·.id == new.userId) := by
    rw [Bool.eq_iff_iff, hu]
    simpa only [List.any_eq_true, beq_iff_eq] using h.account
  have hrows : c.view.reservations.any (·.id == id) = c'.view.reservations.any (·.id == id) := by
    rw [Bool.eq_iff_iff]
    simp only [List.any_eq_true, beq_iff_eq]
    constructor
    · rintro ⟨r, hr, he⟩
      exact ⟨r, (mem_own h.own (h.view.1.own hid hr he)).mp hr, he⟩
    · rintro ⟨r, hr, he⟩
      exact ⟨r, (mem_own h.own (h.view.2.own hid' hr he)).mpr hr, he⟩
  simp only [Store.violatedByToken, NewToken.row, hids, hjtis, husers, h.hosts, hb, Option.all_some,
    hrows]

/-- The INSERT of a token: what it leaves pending, and what it answers. -/
theorem exec_insertToken_writes (new : NewToken) (b : ℤ) (q : Seqs) (snap cur : Store) :
    ((Stmt.insertToken new).exec b q snap cur).2.1 =
      ((cur.violatedByToken (new.row q.token)).elim [.insertToken (new.row q.token)] fun _ => []) := by
  simp only [Stmt.exec]
  cases cur.violatedByToken (new.row q.token) <;> rfl

theorem exec_insertToken_res (new : NewToken) (b : ℤ) (q : Seqs) (snap cur : Store) :
    ((Stmt.insertToken new).exec b q snap cur).2.2 =
      ((cur.violatedByToken (new.row q.token)).elim (.ok (new.row q.token))
        fun con => .error (.integrity con)) := by
  simp only [Stmt.exec]
  cases cur.violatedByToken (new.row q.token) <;> rfl

/-- The row of a token that is bound to a reservation of `v`. -/
theorem OthersKept.insertToken (h : OthersKept v st c.view) {new : NewToken} {id : ℤ}
    (hid : OwnId v st id) (hb : new.reservationId = some id) (b : ℤ) :
    OthersKept v st (c.after b (.insertToken new)).view := by
  rw [view_after, exec_insertToken_writes]
  cases c.view.violatedByToken (new.row c.aux.token) with
  | some con => exact h
  | none =>
    refine h.apply (fun _ _ _ => rfl) (List.forall_mem_nil _) (fun _ _ _ _ _ _ => rfl)
      fun r hr hown t ht => ?_
    obtain rfl := List.mem_singleton.mp ht
    intro he
    exact hown (hid.only r hr (Option.some.inj (he.symm.trans hb)))

/-- A new token of `v`: in both runs with the same expiry, or rejected. -/
theorem twin_insertToken {F : BrokerError → BrokerError → Prop} {new : NewToken} {id : ℤ}
    (hid : OwnId v st id) (hid' : OwnId v st' id) (hb : new.reservationId = some id)
    (hu : new.userId = v.id) {n : ℕ} (hj : new.jti = hashRaw (E.nonce n)) :
    Twin E (Same hashRaw E v st st') (Rest v st st')
      (fun res res' => res.map Token.expiresAt = res'.map Token.expiresAt) F
      (execute (.insertToken new)) (execute (.insertToken new)) := by
  refine Twin.query (D := broker) (s := .insertToken new) fun c c' h => ⟨?_, ?_⟩
  · rw [exec_insertToken_res, exec_insertToken_res, h.violatedByToken hid hid' hb hu hj]
    cases c'.view.violatedByToken (new.row c'.aux.token) <;> rfl
  · exact h.toRest.after (h.view.1.insertToken hid hb _) (h.view.2.insertToken hid' hb _)

/-! ## The services -/

/-- The row with an id of `v` is found among those of `v`. -/
theorem OthersKept.find?_own {view : Store} (h : OthersKept v st view) {id : ℤ} (hid : OwnId v st id) :
    view.reservations.find? (·.id == id) =
      (view.reservations.filter (·.userId == v.id)).find? (·.id == id) := by
  rw [List.find?_filter]
  refine List.find?_congr fun r hr => ?_
  cases hrid : r.id == id with
  | false => simp
  | true => simp [h.own hid hr (beq_iff_eq.mp hrid)]

theorem of_find?_id {rows : List Reservation} {id : ℤ} {r : Reservation}
    (h : rows.find? (·.id == id) = some r) : r ∈ rows ∧ r.id = id := by
  have hid := List.find?_some h
  exact ⟨List.mem_of_find?_eq_some h, beq_iff_eq.mp hid⟩

/-- `get_reservation` finds a reservation of `v`, or ends in what the routes
    answer by 404. -/
theorem run_getReservation (hv : v.role ≠ .admin) (h : OthersKept v st c.view)
    (hids : ∀ r ∈ c.view.reservations, r.userId = v.id → OwnId v st r.id) (id : ℤ) :
    (∃ r ∈ c.view.reservations, r.userId = v.id ∧
      (c.view.reservations.filter (·.userId == v.id)).find? (·.id == id) = some r ∧
        (getReservation v id).run E c = (.ok r, c)) ∨
    (c.view.reservations.filter (·.userId == v.id)).find? (·.id == id) = none ∧
      ∃ err, notFoundAs404 err = throw (.http 404 [("detail", .str "예약을 찾을 수 없습니다")]) ∧
        (getReservation v id).run E c = (.error err, c) := by
  rw [getReservation, run_select rfl]
  simp only [Stmt.exec]
  by_cases hown : ∃ r ∈ c.view.reservations, r.id = id ∧ r.userId = v.id
  · obtain ⟨x, hx, rfl, hxv⟩ := hown
    have hfind := h.find?_own (hids x hx hxv)
    have hsome : (c.view.reservations.find? (·.id == x.id)).isSome := by
      rw [List.find?_isSome]
      exact ⟨x, hx, beq_self_eq_true x.id⟩
    obtain ⟨r, hr⟩ := Option.isSome_iff_exists.mp hsome
    obtain ⟨hmem, hrid⟩ := of_find?_id hr
    have hrv := h.own (hids x hx hxv) hmem hrid
    refine .inl ⟨r, hmem, hrv, hfind ▸ hr, ?_⟩
    rw [hr]
    simp [assertCanAccess, hrv, run_bind]
  · refine .inr ⟨List.find?_eq_none.mpr fun r hr => ?_, ?_⟩
    · obtain ⟨hr, hrv⟩ := List.mem_filter.mp hr
      simpa using fun hid => hown ⟨r, hr, hid, beq_iff_eq.mp hrv⟩
    · cases hr : c.view.reservations.find? (·.id == id) with
      | none => exact ⟨_, rfl, rfl⟩
      | some r =>
        obtain ⟨hmem, hrid⟩ := of_find?_id hr
        have hrv : r.userId ≠ v.id := fun hrv => hown ⟨r, hmem, hrid, hrv⟩
        refine ⟨.notOwner, rfl, ?_⟩
        simp [assertCanAccess, hv, hrv, run_bind]

/-- Exceptions that the routes answer alike. -/
def Masked (e e' : BrokerError) : Prop := notFoundAs404 e = notFoundAs404 e'

/-- A reservation that `v` owns in both. -/
def OwnBoth (v : User) (st st' : Store) (r r' : Reservation) : Prop :=
  r = r' ∧ OwnId v st r.id ∧ OwnId v st' r.id

theorem twin_getReservation (hv : v.role ≠ .admin) (id : ℤ) :
    Twin E (Same hashRaw E v st st') (Same hashRaw E v st st') (OwnBoth v st st') Masked
      (getReservation v id) (getReservation v id) := by
  intro c c' h
  rcases run_getReservation (E := E) hv h.view.1 (fun r hr hown => (h.ids r hr hown).1) id with
    ⟨r, hr, hown, hfind, hrun⟩ | ⟨hfind, err, herr, hrun⟩ <;>
  rcases run_getReservation (E := E) hv h.view.2 (fun r hr hown => (h.ownId' hr hown).2) id with
    ⟨r', -, -, hfind', hrun'⟩ | ⟨hfind', err', herr', hrun'⟩ <;>
  rw [hrun, hrun'] <;> rw [h.own, hfind'] at hfind
  · obtain rfl := Option.some.inj hfind
    exact .ok ⟨rfl, h.ids _ hr hown⟩ h
  · cases hfind
  · cases hfind
  · exact .error (herr.trans herr'.symm) h

theorem twin_refresh {r : Reservation} (hid : OwnId v st r.id) (hid' : OwnId v st' r.id) :
    Twin E (Same hashRaw E v st st') (Same hashRaw E v st st') (fun _ _ => True) Masked
      (refresh r) (refresh r) := by
  refine .bind (Q := (· = ·)) (twin_select (s := .getReservation r.id) rfl fun c c' h => ?_)
    (fun row _ e => ?_) fun _ _ => id
  · simp only [Stmt.exec]
    rw [h.view.1.find?_own hid, h.view.2.find?_own hid', h.own]
  · subst e
    cases row with
    | none => exact .throw rfl
    | some row => exact .pure trivial

theorem twin_cancel (hv : v.role ≠ .admin) (id : ℤ) :
    Twin E (Same hashRaw E v st st') (Rest v st st') (fun _ _ => True) Masked
      (cancelReservation v id) (cancelReservation v id) := by
  refine .bind (twin_getReservation hv id) ?_ fun _ _ h => h.toRest
  rintro r _ ⟨rfl, hid, hid'⟩
  split_ifs with hc
  · exact (Twin.pure trivial).mono (fun _ _ h => h) (fun _ _ h => h.toRest) (fun _ _ h => h) fun _ _ h => h
  · refine .bind (twin_now fun c c' h => h.read) (fun now _ e => ?_) fun _ _ h => h.toRest
    subst e
    refine .bind (twin_cancelReservation hid hid' _) (fun _ _ _ => ?_) fun _ _ h => h.toRest
    refine .bind (twin_refresh hid hid') (fun row row' _ => ?_) fun _ _ h => h.toRest
    refine Twin.mono (R := Rest v st st') (F := (· = ·)) (Q := fun _ _ => True) ?_
      (fun _ _ h => h.toRest) (fun _ _ h => h) (fun _ _ h => h) fun _ _ he => congrArg notFoundAs404 he
    exact .bind (twin_writeAudit rfl rfl) (fun _ _ _ => .pure trivial) fun _ _ h => h

theorem twin_tokenUrlsafe {F : BrokerError → BrokerError → Prop} :
    Twin E (Same hashRaw E v st st') (Same hashRaw E v st st') (fun a a' => a = a' ∧ ∃ n, a = E.nonce n) F
      tokenUrlsafe tokenUrlsafe :=
  .draw (fun _ _ h => h.drawn) fun n => .pure ⟨rfl, n, rfl⟩

theorem twin_revokeActiveTokens {F : BrokerError → BrokerError → Prop} {id : ℤ} (hid : OwnId v st id)
    (hid' : OwnId v st' id) : Twin E (Same hashRaw E v st st') (Same hashRaw E v st st') (· = ·) F
      (revokeActiveTokensForReservation id) (revokeActiveTokensForReservation id) := by
  refine .bind (twin_now fun c c' h => h.read) (fun now _ e => ?_) fun _ _ h => h
  subst e
  exact twin_revokeConnectTokens hid hid' _

/-- In both the same raw token, with the same expiry, and as many revoked. -/
theorem twin_issueConnectToken {r : Reservation} (hid : OwnId v st r.id) (hid' : OwnId v st' r.id) :
    Twin E (Same hashRaw E v st st') (Rest v st st')
      (fun x x' => x.1 = x'.1 ∧ x.2.1.expiresAt = x'.2.1.expiresAt ∧ x.2.2 = x'.2.2) (· = ·)
      (issueConnectToken cfg hashRaw v r) (issueConnectToken cfg hashRaw v r) := by
  refine .bind (Q := (· = ·)) (.lift (fun _ _ => rfl) fun _ => rfl) (fun bounds _ e => ?_)
    fun _ _ h => h.toRest
  subst e
  refine .bind (twin_now fun c c' h => h.read) (fun now _ e => ?_) fun _ _ h => h.toRest
  subst e
  refine .bind (Q := fun _ _ => True) (.lift (fun _ _ => trivial) fun _ => rfl) (fun _ _ _ => ?_)
    fun _ _ h => h.toRest
  refine .bind (twin_revokeActiveTokens hid hid') (fun revoked _ e => ?_) fun _ _ h => h.toRest
  subst e
  refine .bind twin_tokenUrlsafe ?_ fun _ _ h => h.toRest
  rintro rawToken _ ⟨rfl, n, hraw⟩
  refine .bind (twin_insertToken hid hid' rfl rfl (congrArg hashRaw hraw)) (fun res res' hres => ?_)
    fun _ _ h => h
  cases res with
  | error err =>
    cases res' with
    | error err' => exact .throw (congrArg BrokerError.sql (Except.error.inj hres))
    | ok token' => cases hres
  | ok token =>
    cases res' with
    | error err' => cases hres
    | ok token' => exact .pure ⟨rfl, Except.ok.inj hres, rfl⟩

theorem twin_auditRevoked (r : Reservation) (n : ℕ) :
    Twin E (Rest v st st') (Rest v st st') (· = ·) (· = ·) (auditRevoked v r n) (auditRevoked v r n) := by
  unfold auditRevoked
  split_ifs
  · exact twin_writeAudit rfl rfl
  · exact .pure rfl

theorem twin_issueConnectTokenResponse {r : Reservation} (hid : OwnId v st r.id)
    (hid' : OwnId v st' r.id) (client : Option String) :
    Twin E (Same hashRaw E v st st') (Rest v st st') (· = ·) (· = ·)
      (issueConnectTokenResponse cfg hashRaw v r client)
      (issueConnectTokenResponse cfg hashRaw v r client) := by
  refine .bind (Q := (· = ·)) (twin_select (s := .getHost r.hostId) rfl fun c c' h => ?_)
    (fun host _ e => ?_) fun _ _ h => h.toRest
  · simp only [Stmt.exec, h.hosts]
  subst e
  cases host with
  | none => exact (Twin.throw rfl).mono (fun _ _ h => h.toRest) (fun _ _ h => h) (fun _ _ h => h) fun _ _ h => h
  | some host =>
    refine .bind (twin_issueConnectToken hid hid') ?_ fun _ _ h => h
    rintro ⟨raw, token, n⟩ ⟨_, token', _⟩ ⟨rfl, hexp, rfl⟩
    refine .bind (twin_auditRevoked r n) (fun _ _ _ => ?_) fun _ _ h => h
    refine .bind (twin_writeAudit rfl rfl) (fun _ _ _ => .pure ?_) fun _ _ h => h
    exact congrArg (fun t => ConnectTokenResponse.mk raw (.utc t) r.id (.ofHost host)) hexp

/-- Without writes to reservations and tokens, what `v` does not own stays. -/
theorem othersKept_of_uses {α : Type} {p : Service α} (hp : p.Uses Stmt.calm) : ∀ c : Ctx broker,
    OthersKept v st c.view → OthersKept v st (p.run E c).2.view := by
  induction p with
  | ret | raise => exact fun _ h => h
  | now k ih | draw k ih => exact fun c h => ih _ (hp _) _ h
  | stmt s k ih => exact fun c h => ih _ (hp.2 _) _ (h.calm hp.1)
  | commit k | rollback k => exact absurd hp fun h => h

/-- Whatever it finds, `releaseHost` does not raise. -/
theorem releaseHost_ok (r : Reservation) (c : Ctx broker) : ∃ c', (releaseHost r).run E c = (.ok (), c') := by
  have haudit : ∀ (e : AuditEntry) (c : Ctx broker), e.actorUserId = none → c.view.violatedByAudit e = none :=
    fun e c he => by simp [Store.violatedByAudit, he]
  rw [releaseHost, run_select rfl]
  simp only [Stmt.exec]
  cases c.view.hosts.find? (·.id == r.hostId) with
  | none => exact ⟨_, rfl⟩
  | some host =>
    dsimp only
    split_ifs with huse
    · rw [run_now, getActiveReservationForHost, run_select rfl]
      simp only [Stmt.exec]
      split
      · exact ⟨_, rfl⟩
      · have hidle : host.status ≠ .idle := by rw [huse]; decide
        rw [transitionHost, if_neg hidle, run_bind, run_execute, run_writeAudit (haudit _ _ rfl)]
        exact ⟨_, rfl⟩
    · exact ⟨_, rfl⟩

/-! ## The routes -/

/-- A request of `v` about reservations: the list, one of them, its
    cancellation, a connect token for it. -/
def Job.by (v : User) : Job → Prop
  | .list user .. | .get user _ | .cancel user _ | .connect user .. => user = v
  | _ => False

theorem twin_notFoundAs404 {R : Ctx broker → Ctx broker → Prop} {Q : Reservation → Reservation → Prop}
    {e e' : BrokerError} (h : Masked e e') :
    Twin E R R Q (· = ·) (notFoundAs404 e) (notFoundAs404 e') := by
  have hthrow : ∃ err, notFoundAs404 e' = throw err := by
    cases e' <;> exact ⟨_, rfl⟩
  obtain ⟨err, herr⟩ := hthrow
  rw [h.trans herr, herr]
  exact .throw rfl

theorem twin_commit {F : BrokerError → BrokerError → Prop} :
    Twin E (Left v st st') (Left v st st') (fun _ _ => True) F commit commit :=
  .commit (fun _ _ h => ⟨h.view, h.view⟩) (.pure trivial)

/-- What a route does last. -/
theorem twin_finish {r r' : Reply} (h : r = r') :
    Twin E (Rest v st st') (Left v st st') (· = ·) (· = ·)
      (do commit; pure r : Service Reply) (do commit; pure r') := by
  refine (Twin.bind twin_commit (fun _ _ _ => .pure h) fun _ _ h => h).mono ?_ (fun _ _ h => h)
    (fun _ _ h => h) fun _ _ h => h
  exact fun _ _ h => h.toLeft

theorem twin_releaseHost {R : Ctx broker → Ctx broker → Prop} {F : BrokerError → BrokerError → Prop}
    (hR : ∀ c c', R c c' → Left v st st' c c') (r r' : Reservation) :
    Twin E R (Left v st st') (fun _ _ => True) F (releaseHost r) (releaseHost r') := by
  intro c c' h
  have hkept := othersKept_of_uses (E := E) (releaseHost_uses r) c (hR c c' h).view.1
  have hkept' := othersKept_of_uses (E := E) (releaseHost_uses r') c' (hR c c' h).view.2
  have hdb := (releaseHost_uses r).db E c
  have hdb' := (releaseHost_uses r').db E c'
  obtain ⟨d, hd⟩ := releaseHost_ok (E := E) r c
  obtain ⟨d', hd'⟩ := releaseHost_ok (E := E) r' c'
  rw [hd] at hkept hdb ⊢
  rw [hd'] at hkept' hdb' ⊢
  refine .ok trivial ⟨?_, hkept, hkept'⟩
  rw [show d.db = c.db from hdb, show d'.db = c'.db from hdb']
  exact (hR c c' h).db

theorem filter_accepts {f : ReservationFilter} (hf : f.userId = some v.id) (rows : List Reservation) :
    rows.filter f.accepts = (rows.filter (·.userId == v.id)).filter f.accepts := by
  rw [List.filter_filter]
  refine List.filter_congr fun r _ => ?_
  cases hr : r.userId == v.id with
  | true => simp
  | false =>
    have hne : (v.id == r.userId) = false := by rw [BEq.comm, hr]
    simp [ReservationFilter.accepts, hf, hne]

theorem twin_list (hv : v.role ≠ .admin) (from_ to_ : Option DateTime) (hostId userId : Option ℤ) :
    Twin E (Same hashRaw E v st st') (Left v st st') (· = ·) (· = ·)
      (listReservationsEndpoint v from_ to_ hostId userId)
      (listReservationsEndpoint v from_ to_ hostId userId) := by
  refine .bind (Q := (· = ·)) (twin_select (s := .reservations _) rfl fun c c' h => ?_)
    (fun rows _ e => ?_) fun _ _ h => h.toLeft
  · simp only [Stmt.exec, if_neg hv]
    rw [filter_accepts rfl, h.own, ← filter_accepts rfl]
  subst e
  refine .bind (Q := (· = ·)) (.lift (fun _ _ => rfl) fun _ => rfl) (fun reads _ e => ?_)
    fun _ _ h => h.toLeft
  exact (Twin.pure (congrArg Reply.reservations e)).mono (fun _ _ h => h) (fun _ _ h => h.toLeft)
    (fun _ _ h => h) fun _ _ h => h

theorem twin_get (hv : v.role ≠ .admin) (id : ℤ) :
    Twin E (Same hashRaw E v st st') (Left v st st') (· = ·) (· = ·) (getReservationEndpoint v id)
      (getReservationEndpoint v id) := by
  refine .bind (.tryCatch (twin_getReservation hv id) fun _ _ => twin_notFoundAs404) ?_
    fun _ _ h => h.toLeft
  rintro r _ ⟨rfl, -⟩
  refine .bind (Q := (· = ·)) (.lift (fun _ _ => rfl) fun _ => rfl) (fun read _ e => ?_)
    fun _ _ h => h.toLeft
  exact (Twin.pure (congrArg Reply.reservation e)).mono (fun _ _ h => h) (fun _ _ h => h.toLeft)
    (fun _ _ h => h) fun _ _ h => h

theorem twin_cancelEndpoint (hv : v.role ≠ .admin) (id : ℤ) :
    Twin E (Same hashRaw E v st st') (Left v st st') (· = ·) (· = ·) (cancelReservationEndpoint v id)
      (cancelReservationEndpoint v id) := by
  refine .bind (.tryCatch (twin_cancel hv id) fun _ _ => twin_notFoundAs404) (fun r r' _ => ?_)
    fun _ _ h => h.toLeft
  refine .bind (twin_releaseHost (fun _ _ h => h.toLeft) r r') (fun _ _ _ => ?_) fun _ _ h => h
  exact .bind twin_commit (fun _ _ _ => .pure rfl) fun _ _ h => h

theorem twin_connect (hv : v.role ≠ .admin) (id : ℤ) (client : Option String) :
    Twin E (Same hashRaw E v st st') (Left v st st') (· = ·) (· = ·)
      (connectTokenEndpoint cfg hashRaw v id client) (connectTokenEndpoint cfg hashRaw v id client) := by
  refine .bind (Q := fun _ _ => True) (.lift (fun _ _ => trivial) fun _ => rfl) (fun _ _ _ => ?_)
    fun _ _ h => h.toLeft
  refine .bind (.tryCatch (twin_getReservation hv id) fun _ _ => twin_notFoundAs404) ?_
    fun _ _ h => h.toLeft
  rintro r _ ⟨rfl, hid, hid'⟩
  refine .bind (twin_issueConnectTokenResponse hid hid' client) (fun _ _ e => ?_) fun _ _ h => h.toLeft
  exact twin_finish (congrArg Reply.connectToken e)

theorem twin_handle (hv : v.role ≠ .admin) {job : Job} (hj : job.by v) :
    Twin E (Same hashRaw E v st st') (Left v st st') (· = ·) (· = ·) (handle cfg hashRaw job)
      (handle cfg hashRaw job) := by
  cases job with
  | list user from_ to_ hostId userId =>
    obtain rfl : user = v := hj
    exact twin_list hv from_ to_ hostId userId
  | get user id =>
    obtain rfl : user = v := hj
    exact twin_get hv id
  | cancel user id =>
    obtain rfl : user = v := hj
    exact twin_cancelEndpoint hv id
  | connect user id client =>
    obtain rfl : user = v := hj
    exact twin_connect hv id client
  | _ => exact hj.elim

end

/-- **Nobody but an admin sees who has reserved what**, and nobody but an admin
    changes what another has reserved. -/
theorem unseen (hv : v.role ≠ .admin) :
    (∀ st st' q, SameButOwners v st st' → ∀ from_ to_ hostId,
      (serve E (buildCalendarMatrix cfg from_ to_ hostId v) st q).1 =
        (serve E (buildCalendarMatrix cfg from_ to_ hostId v) st' q).1) ∧
    ∀ st st' q q', Agree v st st' → Keyed st → Keyed st' → SameClashes hashRaw E st q st' q' →
      ∀ job : Job, job.by v →
        (serve E (handle cfg hashRaw job) st q).1 = (serve E (handle cfg hashRaw job) st' q').1 ∧
          OthersKept v st (serve E (handle cfg hashRaw job) st q).2.1 ∧
          OthersKept v st' (serve E (handle cfg hashRaw job) st' q').2.1 := by
  refine ⟨fun st st' q h => calendar_eq hv h q, fun st st' q q' h hk hk' hc job hj => ?_⟩
  obtain ⟨heq, c, c', hleft, hdb, hdb'⟩ := (twin_handle hv hj).serve (h.same hk hk' hc)
  exact ⟨heq, hdb ▸ hleft.db.1, hdb' ▸ hleft.db.2⟩

theorem zero_le_hour : 0 ≤ hourUs := by decide

/-- The room, where the first user has a reservation, and others have `rows`. -/
def roomWith (rows : List Reservation) : Store :=
  { room with
    users := ⟨3, .user, "mock"⟩ :: room.users
    reservations := ⟨1, 1, 1, ⟨0, hourUs, zero_le_hour⟩, .confirmed, 0, none⟩ :: rows }

/-- The second or the third user has another reservation, or nobody. -/
theorem unseen_room :
    let v : User := ⟨1, .user, "mock"⟩
    let other : ℤ → List Reservation := fun userId =>
      [⟨2, userId, 1, ⟨hourUs, 2 * hourUs, by decide⟩, .confirmed, 0, none⟩]
    let E : Env ℤ String := Env.at 0 fun _ => "a-token"
    (serve E (buildCalendarMatrix {} (.utc 0) (.utc (2 * hourUs)) none v) (roomWith (other 2)) {}).1 =
        (serve E (buildCalendarMatrix {} (.utc 0) (.utc (2 * hourUs)) none v) (roomWith (other 3)) {}).1 ∧
      (serve E (handle {} id (.connect v 1 none)) (roomWith (other 2)) {}).1 =
        (serve E (handle {} id (.connect v 1 none)) (roomWith []) {}).1 := by
  intro v other E
  obtain ⟨hcalendar, hrequest⟩ := @unseen {} id E v (by decide)
  have hrows : List.Forall₂ (SameButOwner v) (roomWith (other 2)).reservations
      (roomWith (other 3)).reservations :=
    .cons ⟨rfl, fun _ => rfl⟩ (.cons ⟨rfl, by decide⟩ .nil)
  have hother : Keyed (roomWith (other 2)) := ⟨by decide, by decide⟩
  have hnone : Keyed (roomWith []) := ⟨by decide, by decide⟩
  have hagree : Agree v (roomWith (other 2)) (roomWith []) := ⟨rfl, Iff.rfl, rfl, fun _ _ _ => rfl⟩
  exact ⟨hcalendar (roomWith (other 2)) (roomWith (other 3)) {} ⟨rfl, rfl, hrows, rfl, rfl⟩ (.utc 0)
      (.utc (2 * hourUs)) none,
    (hrequest (roomWith (other 2)) (roomWith []) {} {} hagree hother hnone
      ⟨Iff.rfl, fun _ => Iff.rfl⟩ (.connect v 1 none) rfl).1⟩

end SmartClassroom
