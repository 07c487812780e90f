/-
  The tables under their writes: how rows change, and what of them stays.
-/
import SmartClassroom.Database
import SmartClassroom.Lib.Versions

namespace SmartClassroom

open Txn

/-! ## Rows under one write -/

section
variable (w : Write)

@[simp] theorem Write.onReservation_id (r : Reservation) : (w.onReservation r).id = r.id := by
  unfold Write.onReservation; split <;> [split_ifs <;> rfl; rfl]

@[simp] theorem Write.onToken_id (t : Token) : (w.onToken t).id = t.id := by
  unfold Write.onToken; split <;> first | (split_ifs <;> rfl) | rfl

@[simp] theorem Write.onHost_id (h : Host) : (w.onHost h).id = h.id := by
  unfold Write.onHost; split <;> [split_ifs <;> rfl; rfl]

end

/-- What a row of `reservations` keeps: all but a cancellation. -/
structure Reservation.Evolves (r r' : Reservation) : Prop where
  id : r'.id = r.id
  userId : r'.userId = r.userId
  hostId : r'.hostId = r.hostId
  timeRange : r'.timeRange = r.timeRange
  createdAt : r'.createdAt = r.createdAt
  status : r'.status = r.status ∨ r'.status = .canceled

/-- What a row of `tokens` keeps: all but its consumption and revocation, which
    last. -/
structure Token.Evolves (t t' : Token) : Prop where
  id : t'.id = t.id
  jti : t'.jti = t.jti
  userId : t'.userId = t.userId
  hostId : t'.hostId = t.hostId
  reservationId : t'.reservationId = t.reservationId
  purpose : t'.purpose = t.purpose
  issuedAt : t'.issuedAt = t.issuedAt
  expiresAt : t'.expiresAt = t.expiresAt
  consumed : t.consumedAt.isSome → t'.consumedAt.isSome
  revoked : t.revokedAt.isSome → t'.revokedAt.isSome

theorem Reservation.Evolves.refl (r : Reservation) : r.Evolves r :=
  ⟨rfl, rfl, rfl, rfl, rfl, .inl rfl⟩

theorem Reservation.Evolves.trans {r r' r'' : Reservation} (h : r.Evolves r')
    (h' : r'.Evolves r'') : r.Evolves r'' where
  id := h'.id.trans h.id
  userId := h'.userId.trans h.userId
  hostId := h'.hostId.trans h.hostId
  timeRange := h'.timeRange.trans h.timeRange
  createdAt := h'.createdAt.trans h.createdAt
  status := by
    rcases h'.status with e | e
    · rw [e]; exact h.status
    · exact .inr e

/-- An active row was active before. -/
theorem Reservation.Evolves.active {r r' : Reservation} (h : r.Evolves r')
    (ha : r'.status.active = true) : r'.status = r.status := by
  rcases h.status with e | e
  · exact e
  · rw [e] at ha; cases ha

theorem Token.Evolves.refl (t : Token) : t.Evolves t :=
  ⟨rfl, rfl, rfl, rfl, rfl, rfl, rfl, rfl, fun h => h, fun h => h⟩

theorem Token.Evolves.trans {t t' t'' : Token} (h : t.Evolves t') (h' : t'.Evolves t'') :
    t.Evolves t'' where
  id := h'.id.trans h.id
  jti := h'.jti.trans h.jti
  userId := h'.userId.trans h.userId
  hostId := h'.hostId.trans h.hostId
  reservationId := h'.reservationId.trans h.reservationId
  purpose := h'.purpose.trans h.purpose
  issuedAt := h'.issuedAt.trans h.issuedAt
  expiresAt := h'.expiresAt.trans h.expiresAt
  consumed := h'.consumed ∘ h.consumed
  revoked := h'.revoked ∘ h.revoked

/-- An active token was active before. -/
theorem Token.Evolves.active {t t' : Token} (h : t.Evolves t') (ha : t'.active = true) :
    t.active = true := by
  simp only [Token.active, Bool.and_eq_true, Option.isNone_iff_eq_none] at ha ⊢
  constructor
  · by_contra hne
    have := h.revoked (Option.isSome_iff_ne_none.mpr hne)
    simp [ha.1] at this
  · by_contra hne
    have := h.consumed (Option.isSome_iff_ne_none.mpr hne)
    simp [ha.2] at this

theorem Write.onReservation_evolves (w : Write) (r : Reservation) :
    r.Evolves (w.onReservation r) := by
  unfold Write.onReservation
  split
  · split_ifs
    · exact ⟨rfl, rfl, rfl, rfl, rfl, .inr rfl⟩
    · exact .refl r
  · exact .refl r

theorem Write.onToken_evolves (w : Write) (t : Token) : t.Evolves (w.onToken t) := by
  unfold Write.onToken
  split
  · split_ifs
    · exact ⟨rfl, rfl, rfl, rfl, rfl, rfl, rfl, rfl, id, fun _ => rfl⟩
    · exact .refl t
  · split_ifs
    · exact ⟨rfl, rfl, rfl, rfl, rfl, rfl, rfl, rfl, fun _ => rfl, id⟩
    · exact .refl t
  · exact .refl t

/-! ## Tables -/

/-- `reservations`. -/
def reservationTable : Table broker Reservation :=
  ⟨Store.reservations, Write.onReservation, Write.newReservations, fun _ _ => rfl⟩

/-- `tokens`. -/
def tokenTable : Table broker Token :=
  ⟨Store.tokens, Write.onToken, Write.newTokens, fun _ _ => rfl⟩

theorem reservations_applyAll (st : Store) (ws : List Write) :
    (broker.applyAll st ws).reservations =
      st.reservations.map (reservationTable.updAll ws) ++ reservationTable.newAll ws :=
  reservationTable.rows_applyAll ws st

theorem tokens_applyAll (st : Store) (ws : List Write) :
    (broker.applyAll st ws).tokens =
      st.tokens.map (tokenTable.updAll ws) ++ tokenTable.newAll ws :=
  tokenTable.rows_applyAll ws st

@[simp] theorem users_applyAll (ws : List Write) : ∀ st : Store,
    (broker.applyAll st ws).users = st.users := by
  induction ws with
  | nil => exact fun _ => rfl
  | cons w ws ih => exact fun st => ih (st.apply w)

theorem reservations_versions : Versions reservationTable Reservation.Evolves :=
  ⟨.refl, .trans, Write.onReservation_evolves⟩

theorem tokens_versions : Versions tokenTable Token.Evolves := ⟨.refl, .trans, Write.onToken_evolves⟩

theorem updAll_reservation_evolves (ws : List Write) (r : Reservation) :
    r.Evolves (reservationTable.updAll ws r) :=
  reservations_versions.updAll ws r

theorem updAll_token_evolves (ws : List Write) (t : Token) : t.Evolves (tokenTable.updAll ws t) :=
  tokens_versions.updAll ws t

/-- A row that no write updates stays as it is. -/
theorem updAll_reservation_eq_self {ws : List Write} : ∀ {r : Reservation},
    (∀ w ∈ ws, r.id ∉ w.updatedReservations) → reservationTable.updAll ws r = r := by
  induction ws with
  | nil => exact fun _ => rfl
  | cons w ws ih =>
    intro r h
    have hw : w.onReservation r = r := by
      have := h w List.mem_cons_self
      cases w with
      | cancelReservations ids now =>
        have hid : r.id ∉ ids := this
        simp [Write.onReservation, hid]
      | _ => rfl
    change reservationTable.updAll ws (w.onReservation r) = r
    rw [hw]
    exact ih fun w' hw' => h w' (List.mem_cons_of_mem _ hw')

/-! ## The age of a store -/

/-- `st'` comes after `st`. -/
structure Store.Evolves (st st' : Store) : Prop where
  users : st'.users = st.users
  reservations : ∀ r ∈ st.reservations, ∃ r' ∈ st'.reservations, r.Evolves r'
  tokens : ∀ t ∈ st.tokens, ∃ t' ∈ st'.tokens, t.Evolves t'

theorem Store.grows : Grows (D := broker) Store.Evolves where
  refl st := ⟨rfl, fun r hr => ⟨r, hr, .refl r⟩, fun t ht => ⟨t, ht, .refl t⟩⟩
  trans h h' := by
    refine ⟨h'.users.trans h.users, fun r hr => ?_, fun t ht => ?_⟩
    · obtain ⟨r', hr', e⟩ := h.reservations r hr
      obtain ⟨r'', hr'', e'⟩ := h'.reservations r' hr'
      exact ⟨r'', hr'', e.trans e'⟩
    · obtain ⟨t', ht', e⟩ := h.tokens t ht
      obtain ⟨t'', ht'', e'⟩ := h'.tokens t' ht'
      exact ⟨t'', ht'', e.trans e'⟩
  apply st w := by
    refine ⟨rfl, fun r hr => ⟨w.onReservation r, ?_, w.onReservation_evolves r⟩,
      fun t ht => ⟨w.onToken t, ?_, w.onToken_evolves t⟩⟩
    · exact List.mem_append_left _ (List.mem_map_of_mem hr)
    · exact List.mem_append_left _ (List.mem_map_of_mem ht)

/-! ## What statements find -/

theorem nextStartOf_eq_some {st : Store} {hostId after n : ℤ} :
    Stmt.nextStartOf st hostId after = some n ↔
      (∃ r ∈ st.reservations, Stmt.upcoming hostId after r = true ∧ r.timeRange.lower = n) ∧
      ∀ r ∈ st.reservations, Stmt.upcoming hostId after r = true → n ≤ r.timeRange.lower := by
  simp only [Stmt.nextStartOf, List.min?_eq_some_iff, List.mem_map, List.mem_filter,
    forall_exists_index, and_imp, and_assoc]
  exact and_congr_right fun _ =>
    ⟨fun h r hr hu => h _ r hr hu rfl, fun h b r hr hu e => e ▸ h r hr hu⟩

theorem nextStartOf_eq_none {st : Store} {hostId after : ℤ} :
    Stmt.nextStartOf st hostId after = none ↔
      ∀ r ∈ st.reservations, Stmt.upcoming hostId after r = false := by
  simp only [Stmt.nextStartOf, List.min?_eq_none_iff, List.map_eq_nil_iff,
    List.filter_eq_nil_iff, Bool.not_eq_true]

theorem mem_hits {α : Type} {key : α → ℤ} {p : α → Bool} {snap cur : List α} {id : ℤ} :
    id ∈ Stmt.hits key p snap cur ↔
      (∃ x ∈ cur, p x = true ∧ key x = id) ∧ ∃ y ∈ snap, p y = true ∧ key y = id := by
  simp only [Stmt.hits, List.mem_map, List.mem_filter, List.any_eq_true, beq_iff_eq]
  constructor
  · rintro ⟨x, ⟨⟨hx, hpx⟩, y, ⟨hy, hpy⟩, e⟩, rfl⟩
    exact ⟨⟨x, hx, hpx, rfl⟩, y, hy, hpy, e⟩
  · rintro ⟨⟨x, hx, hpx, rfl⟩, y, hy, hpy, e⟩
    exact ⟨x, ⟨⟨hx, hpx⟩, y, ⟨hy, hpy⟩, e⟩, rfl⟩

theorem mem_hits_self {α : Type} {key : α → ℤ} {p : α → Bool} {xs : List α} {id : ℤ} :
    id ∈ Stmt.hits key p xs xs ↔ ∃ x ∈ xs, p x = true ∧ key x = id := by
  rw [mem_hits, and_self]

theorem hits_self {α : Type} (key : α → ℤ) (p : α → Bool) (xs : List α) :
    Stmt.hits key p xs xs = (xs.filter p).map key := by
  have hall : ∀ x ∈ xs.filter p, (xs.filter p).any (fun y => key y == key x) = true :=
    fun x hx => List.any_eq_true.mpr ⟨x, hx, beq_self_eq_true _⟩
  rw [Stmt.hits, List.filter_eq_self.mpr hall]

end SmartClassroom
