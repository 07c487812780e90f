/-
  What a request commits.

  * Each pending row comes from one statement, and so from what the rules ask
    for before it (`pending_reservation`, `pending_token`).
  * A transaction inserts at most one reservation and one token, updates tokens
    once, and does not cancel a reservation it issues a token for.
  * `app_keeps`: all routes keep the rules, and no commit leaves an empty range.
-/
import SmartClassroom.Discipline
import SmartClassroom.Lib.Exclusion

namespace SmartClassroom

open Txn

/-! ## Where pending writes come from -/

theorem writes_insertReservation {s : Stmt} {b : ℤ} {q : Seqs} {snap cur : Store} {r : Reservation}
    (h : .insertReservation r ∈ (s.exec b q snap cur).2.1) :
    s = .insertReservation r.userId r.hostId r.timeRange.lower r.timeRange.upper ∧
      r.status = .confirmed ∧ r.id = q.reservation ∧ cur.violatedByReservation r = none := by
  cases s with
  | insertReservation userId hostId s e =>
    rcases exec_insertReservation userId hostId s e b q snap cur with
      ⟨row, rfl, rfl, rfl, rfl, hst, hv, hid, hx⟩ | ⟨err, hx⟩
    · rw [hx] at h
      obtain rfl : r = row := by simpa using h
      exact ⟨rfl, hst, hid, hv⟩
    · rw [hx] at h
      simp at h
  | insertToken | insertAudit =>
    simp only [Stmt.exec] at h
    split at h <;> simp at h
  | _ => simp [Stmt.exec] at h

theorem writes_cancelReservations {s : Stmt} {b : ℤ} {q : Seqs} {snap cur : Store} {ids : List ℤ}
    {t : ℤ} (h : .cancelReservations ids t ∈ (s.exec b q snap cur).2.1) :
    ∃ id, s = .cancelReservation id t ∧
      ids = Stmt.hits Reservation.id (·.id == id) snap.reservations cur.reservations := by
  cases s with
  | cancelReservation id now =>
    simp only [Stmt.exec, List.mem_singleton, Write.cancelReservations.injEq] at h
    obtain ⟨rfl, rfl⟩ := h
    exact ⟨id, rfl, rfl⟩
  | insertReservation userId hostId s e =>
    rcases exec_insertReservation userId hostId s e b q snap cur with
      ⟨row, -, -, -, -, -, -, -, hx⟩ | ⟨err, hx⟩ <;> simp [hx] at h
  | insertToken | insertAudit =>
    simp only [Stmt.exec] at h
    split at h <;> simp at h
  | _ => simp [Stmt.exec] at h

theorem writes_insertToken {s : Stmt} {b : ℤ} {q : Seqs} {snap cur : Store} {t : Token}
    (h : .insertToken t ∈ (s.exec b q snap cur).2.1) :
    ∃ new, s = .insertToken new ∧ t = new.row q.token ∧ cur.violatedByToken t = none := by
  cases s with
  | insertToken new =>
    simp only [Stmt.exec] at h
    split at h
    · simp at h
    · rename_i hv
      obtain rfl : t = _ := by simpa using h
      exact ⟨new, rfl, rfl, hv⟩
  | insertReservation userId hostId s e =>
    rcases exec_insertReservation userId hostId s e b q snap cur with
      ⟨row, -, -, -, -, -, -, -, hx⟩ | ⟨err, hx⟩ <;> simp [hx] at h
  | insertAudit =>
    simp only [Stmt.exec] at h
    split at h <;> simp at h
  | _ => simp [Stmt.exec] at h

theorem writes_consumeTokens {s : Stmt} {b : ℤ} {q : Seqs} {snap cur : Store} {ids : List ℤ} {t : ℤ}
    (h : .consumeTokens ids t ∈ (s.exec b q snap cur).2.1) :
    ∃ id, s = .consumeToken id t ∧ ids = Stmt.hits Token.id (Stmt.consumable id) snap.tokens cur.tokens := by
  cases s with
  | consumeToken id now =>
    simp only [Stmt.exec, List.mem_singleton, Write.consumeTokens.injEq] at h
    obtain ⟨rfl, rfl⟩ := h
    exact ⟨id, rfl, rfl⟩
  | insertReservation userId hostId s e =>
    rcases exec_insertReservation userId hostId s e b q snap cur with
      ⟨row, -, -, -, -, -, -, -, hx⟩ | ⟨err, hx⟩ <;> simp [hx] at h
  | insertToken | insertAudit =>
    simp only [Stmt.exec] at h
    split at h <;> simp at h
  | _ => simp [Stmt.exec] at h

/-- The WHERE clause of an UPDATE of `tokens`. -/
def Stmt.tokenWhere : Stmt → Option (Token → Bool)
  | .revokeConnectTokens reservationId _ => some (connectTokenOf reservationId)
  | .revokeAgentTokens hostId _ => some (agentTokenOf hostId)
  | .consumeToken id _ => some (consumable id)
  | _ => none

/-- The tokens updated by a statement: those its WHERE clause finds twice. -/
theorem writes_updatedTokens {s : Stmt} {b : ℤ} {q : Seqs} {snap cur : Store} {w : Write} {id : ℤ}
    (h : w ∈ (s.exec b q snap cur).2.1) (hid : id ∈ w.updatedTokens) :
    ∃ p, s.tokenWhere = some p ∧ id ∈ Stmt.hits Token.id p snap.tokens cur.tokens := by
  cases s with
  | revokeConnectTokens reservationId now =>
    obtain rfl : w = _ := by simpa [Stmt.exec] using h
    exact ⟨_, rfl, hid⟩
  | revokeAgentTokens hostId now =>
    obtain rfl : w = _ := by simpa [Stmt.exec] using h
    exact ⟨_, rfl, hid⟩
  | consumeToken id now =>
    obtain rfl : w = _ := by simpa [Stmt.exec] using h
    exact ⟨_, rfl, hid⟩
  | cancelReservation | setHostStatus =>
    obtain rfl : w = _ := by simpa [Stmt.exec] using h
    simp [Write.updatedTokens] at hid
  | insertReservation userId hostId s e =>
    rcases exec_insertReservation userId hostId s e b q snap cur with
      ⟨row, -, -, -, -, -, -, -, hx⟩ | ⟨err, hx⟩
    · obtain rfl : w = _ := by simpa [hx] using h
      simp [Write.updatedTokens] at hid
    · simp [hx] at h
  | insertToken | insertAudit =>
    simp only [Stmt.exec] at h
    split at h
    · simp at h
    · obtain rfl := List.mem_singleton.mp h
      simp [Write.updatedTokens] at hid
  | _ => simp [Stmt.exec] at h

/-- A statement leaves at most one write. -/
theorem exec_writes (s : Stmt) (b : ℤ) (q : Seqs) (snap cur : Store) :
    (s.exec b q snap cur).2.1 = [] ∨ ∃ w, (s.exec b q snap cur).2.1 = [w] := by
  cases s with
  | insertReservation userId hostId s e =>
    rcases exec_insertReservation userId hostId s e b q snap cur with
      ⟨row, -, -, -, -, -, -, -, hx⟩ | ⟨err, hx⟩ <;> simp [hx]
  | insertToken | insertAudit =>
    simp only [Stmt.exec]
    split <;> simp
  | _ => simp [Stmt.exec]

section
variable {cfg : Settings} {hashRaw : String → String} {j : Job} {h : History} {I : Store → Prop}

/-- Two writes of one transaction, of different statements. -/
theorem pend_pairwise {R : Write → Write → Prop}
    (hR : ∀ h s b q snap cur, pre cfg j h s → ∀ w' ∈ (broker.execOn (pendOf h) s b q snap cur).2.1,
      ∀ w ∈ pendOf h, R w w') (hk : Kept I (rules cfg j) h) : (pendOf h).Pairwise R := by
  refine hk.pend_induction .nil fun h s b q snap cur hs ih => ?_
  refine List.pairwise_append.mpr ⟨ih, ?_, fun w hw w' hw' => hR h s b q snap cur hs.2 w' hw' w hw⟩
  rw [execOn_eq]
  rcases exec_writes s b q (broker.applyAll snap (pendOf h)) (broker.applyAll cur (pendOf h)) with
    e | ⟨w, e⟩ <;> simp [e]

/-- The booking of a pending row. -/
theorem pending_reservation (hk : Kept I (rules cfg j) h) {r : Reservation}
    (hr : .insertReservation r ∈ pendOf h) : r.status = .confirmed ∧ ∃ startsAt endsAt : DateTime,
      r.timeRange.lower = startsAt.instant ∧ r.timeRange.upper = endsAt.instant ∧
      Booked cfg j h r.userId r.hostId startsAt endsAt ∧ Quota cfg h r.userId startsAt endsAt := by
  obtain ⟨s, b, q, snap, cur, h₀, hsuf, ⟨-, hpre⟩, -, -, hw, -⟩ := hk.origin hr
  obtain ⟨rfl, hst, -, -⟩ := writes_insertReservation hw
  obtain ⟨-, s, e, hs, he, hb, hq⟩ := hpre
  have hsuf : h₀ <:+ h := (List.suffix_cons _ _).trans hsuf
  exact ⟨hst, s, e, hs, he, hb.mono hsuf, hq.mono hsuf⟩

theorem Seen.mono {h h' : History} (hs : h <:+ h') (hp : pendOf h ⊆ pendOf h') {r : Reservation}
    (hr : Seen h r) : Seen h' r := by
  rcases hr with ⟨snap, cur, hran, hmem⟩ | hr
  · exact .inl ⟨snap, cur, hran.mono hs, hmem⟩
  · exact .inr (hp hr)

theorem Issued.mono {h h' : History} (hs : h <:+ h') (hp : pendOf h ⊆ pendOf h') {t : NewToken}
    (ht : Issued cfg h t) : Issued cfg h' t := by
  unfold Issued at ht ⊢
  cases hpurpose : t.purpose with
  | connect =>
    rw [hpurpose] at ht
    obtain ⟨r, hr, h1, h2, h3, h4, ⟨now, h5, h6⟩, t', snap, cur, h7, h8⟩ := ht
    exact ⟨r, hr.mono hs hp, h1, h2, h3, h4, ⟨now, h5.mono hs, h6⟩, t', snap, cur, h7.mono hs, hp h8⟩
  | agent =>
    rw [hpurpose] at ht
    obtain ⟨hostId, h1, h2, t', snap, cur, h7, h8⟩ := ht
    exact ⟨hostId, h1, h2, t', snap, cur, h7.mono hs, hp h8⟩
  | session =>
    rw [hpurpose] at ht
    exact ht.elim

/-- The gate and the revocation before a pending token. -/
theorem pending_token (hk : Kept I (rules cfg j) h) {t : Token} (ht : .insertToken t ∈ pendOf h) :
    ∃ new id, t = NewToken.row new id ∧ Issued cfg h new := by
  obtain ⟨s, b, q, snap, cur, h₀, hsuf, ⟨-, hpre⟩, -, -, hw, hp⟩ := hk.origin ht
  obtain ⟨new, rfl, rfl, -⟩ := writes_insertToken hw
  exact ⟨new, _, rfl, hpre.2.mono ((List.suffix_cons _ _).trans hsuf) hp.subset⟩

/-- Only a transaction with nothing else pending inserts a reservation or
    cancels one. -/
theorem pre_of_reservations {s : Stmt} {b : ℤ} {q : Seqs} {snap cur : Store} (hs : pre cfg j h s)
    {w : Write} (hw : w ∈ (s.exec b q snap cur).2.1)
    (hne : w.newReservations ≠ [] ∨ w.updatedReservations ≠ []) : pendOf h = [] := by
  cases w with
  | insertReservation r =>
    obtain ⟨rfl, -⟩ := writes_insertReservation hw
    exact hs.1
  | cancelReservations ids now =>
    obtain ⟨id, rfl, -⟩ := writes_cancelReservations hw
    exact hs.1
  | _ => simp [Write.newReservations, Write.updatedReservations] at hne

/-- A transaction that issues a token cancels nothing. -/
theorem pend_token_or_cancel (hk : Kept I (rules cfg j) h) : ∀ w ∈ pendOf h, ∀ w' ∈ pendOf h,
    w.newTokens ≠ [] → w'.updatedReservations = [] := by
  refine hk.pend_induction (P := fun ws : List Write => ∀ w ∈ ws, ∀ w' ∈ ws, w.newTokens ≠ [] →
    w'.updatedReservations = []) (by simp) fun h s b q snap cur hs ih w hw w' hw' ht => ?_
  rcases List.mem_append.mp hw with hw | hw
  · rcases List.mem_append.mp hw' with hw' | hw'
    · exact ih w hw w' hw' ht
    · by_contra hne
      rw [pre_of_reservations hs.2 hw' (.inr hne)] at hw
      simp at hw
  · cases w with
    | insertToken t =>
      obtain ⟨new, rfl, -⟩ := writes_insertToken hw
      rcases List.mem_append.mp hw' with hw' | hw'
      · exact (hs.2.1 w' hw').2
      · rcases exec_writes (.insertToken new) b q (broker.applyAll snap (pendOf h))
          (broker.applyAll cur (pendOf h)) with e | ⟨x, e⟩
        · simp [execOn_eq, e] at hw
        · rw [execOn_eq, e, List.mem_singleton] at hw hw'
          rw [hw', ← hw]
          rfl
    | _ => exact absurd rfl ht

/-- A transaction inserts at most one reservation. -/
theorem newReservations_le_one (hk : Kept I (rules cfg j) h) :
    (reservationTable.newAll (pendOf h)).length ≤ 1 := by
  refine hk.newAll_le_one (fun s b q snap cur => ?_) fun h s b q snap cur hs hne => ?_
  · rcases exec_writes s b q snap cur with e | ⟨w, e⟩
    · exact e ▸ Nat.zero_le 1
    · exact e ▸ by cases w <;> simp [Table.newAll, reservationTable, Write.newReservations]
  · obtain ⟨w, hw, hne⟩ := reservationTable.exists_of_newAll_ne_nil hne
    exact pre_of_reservations hs.2 hw (.inl hne) ▸ rfl

/-- A transaction inserts at most one token. -/
theorem newTokens_le_one (hk : Kept I (rules cfg j) h) :
    (tokenTable.newAll (pendOf h)).length ≤ 1 := by
  refine hk.newAll_le_one (fun s b q snap cur => ?_) fun h s b q snap cur hs hne => ?_
  · rcases exec_writes s b q snap cur with e | ⟨w, e⟩
    · exact e ▸ Nat.zero_le 1
    · exact e ▸ by cases w <;> simp [Table.newAll, tokenTable, Write.newTokens]
  · obtain ⟨w, hw, hne⟩ := tokenTable.exists_of_newAll_ne_nil hne
    cases w with
    | insertToken t =>
      obtain ⟨new, rfl, -⟩ := writes_insertToken hw
      exact tokenTable.newAll_eq_nil fun w' hw' => (hs.2.1 w' hw').1
    | _ => exact absurd rfl hne

/-- A row that a transaction inserts is an inserted one, or one since updated. -/
theorem mem_newReservations {ws : List Write} {r : Reservation}
    (hr : r ∈ reservationTable.newAll ws) : ∃ x, .insertReservation x ∈ ws ∧ x.Evolves r := by
  obtain ⟨w, hw, x, hx, ws', -, rfl⟩ := reservationTable.mem_newAll hr
  cases w with
  | insertReservation x' =>
    obtain rfl := List.mem_singleton.mp hx
    exact ⟨x, hw, updAll_reservation_evolves ws' x⟩
  | _ => exact absurd hx List.not_mem_nil

theorem mem_newTokens {ws : List Write} {t : Token} (ht : t ∈ tokenTable.newAll ws) :
    ∃ x, .insertToken x ∈ ws ∧ ∃ ws' : List Write, ws'.Sublist ws ∧ t = tokenTable.updAll ws' x := by
  obtain ⟨w, hw, x, hx, ws', hsub, rfl⟩ := tokenTable.mem_newAll ht
  cases w with
  | insertToken x' =>
    obtain rfl := List.mem_singleton.mp hx
    exact ⟨x, hw, ws', hsub, rfl⟩
  | _ => exact absurd hx List.not_mem_nil

/-- What was seen is an earlier state of the store. -/
theorem Ran.evolves {h : History} {db : Store} {clock : ℤ} (hpast : ∀ e ∈ h, e.Past Store.Evolves db clock)
    {st : Stmt} {snap cur : Store} (hran : Ran h st snap cur) : snap.Evolves db := by
  obtain ⟨b, q, hran⟩ := hran
  obtain ⟨-, hsnap, hcur⟩ := hpast _ hran
  exact Store.grows.trans hsnap hcur

/-! ## All routes -/

/-- No commit leaves an empty range. -/
theorem rangesNonempty_applyAll (hk : Kept I (rules cfg j) h) {db : Store} (hdb : RangesNonempty db) :
    RangesNonempty (broker.applyAll db (pendOf h)) := by
  intro r hr
  rw [reservations_applyAll] at hr
  rcases List.mem_append.mp hr with hr | hr
  · obtain ⟨x, hx, rfl⟩ := List.mem_map.mp hr
    rw [(updAll_reservation_evolves _ x).timeRange]
    exact hdb x hx
  · obtain ⟨x, hx, hev⟩ := mem_newReservations hr
    obtain ⟨-, s, e, hs, he, hb, -⟩ := pending_reservation hk hx
    rw [hev.timeRange, hs, he]
    exact hb.lt

/-- **All requests keep the rules, in every interleaving.** -/
theorem app_keeps : Keeps (app cfg hashRaw) RangesNonempty (rules cfg) (answers hashRaw) where
  ok := handle_ok
  stmt_lost _ _ _ hs := hs.1
  commit_lost _ _ ho := ho
  inv _ _ _ hk _ hdb := rangesNonempty_applyAll hk hdb

end

end SmartClassroom
