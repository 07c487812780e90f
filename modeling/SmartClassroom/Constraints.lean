/-
  The constraints of the tables, in every interleaving.

  * `Reservation.Clashes`, `Token.Clashes`: two rows that the constraints
    forbid to coexist.  The checks of the two INSERTs, with the waiting for
    uncommitted rows, keep such rows out (`reservations_guarded`,
    `tokens_guarded`).
  * `Consistent`: a store that satisfies the constraints, without empty ranges.
    It stays so from any consistent store on (`consistent_of_reach`).
-/
import SmartClassroom.Commits

namespace SmartClassroom

open Txn

/-! ## Clashes -/

/-- The primary key or `reservations_no_overlap` forbids both rows. -/
def Reservation.Clashes (a b : Reservation) : Prop := a.id = b.id ∨ a.excludes b = true

/-- The primary key or the unique `jti` forbids both rows. -/
def Token.Clashes (a b : Token) : Prop := a.id = b.id ∨ a.jti = b.jti

theorem TsRange.overlaps_comm (r q : TsRange) :
    r.overlaps q.lower q.upper = q.overlaps r.lower r.upper := by
  rw [Bool.eq_iff_iff]
  simp only [overlaps, Bool.and_eq_true, decide_eq_true_eq]
  tauto

theorem Reservation.excludes_comm (a b : Reservation) : a.excludes b = b.excludes a := by
  simp only [excludes, a.timeRange.overlaps_comm b.timeRange, BEq.comm (a := a.hostId),
    Bool.and_comm a.status.active]

theorem Reservation.Clashes.symm {a b : Reservation} (h : a.Clashes b) : b.Clashes a :=
  h.imp Eq.symm fun h => a.excludes_comm b ▸ h

/-- A row excludes what it has excluded all along. -/
theorem Reservation.Evolves.clashes {a a' b : Reservation} (h : a.Evolves a') (hx : a'.Clashes b) :
    a.Clashes b := by
  refine hx.imp (fun e => h.id.symm.trans e) fun hx => ?_
  have hst : a'.status = a.status := h.active (by
    simp only [excludes, Bool.and_eq_true] at hx
    exact hx.1.1.1)
  rwa [excludes, hst, h.hostId, h.timeRange] at hx

theorem Token.Evolves.clashes {a a' b : Token} (h : a.Evolves a') : a'.Clashes b ↔ a.Clashes b := by
  rw [Clashes, Clashes, h.id, h.jti]

theorem violatedByReservation_eq_none {st : Store} {r : Reservation} :
    st.violatedByReservation r = none ↔ (∀ x ∈ st.reservations, ¬x.Clashes r) ∧
      (∃ u ∈ st.users, u.id = r.userId) ∧ ∃ h ∈ st.hosts, h.id = r.hostId := by
  simp only [Store.violatedByReservation, Reservation.Clashes]
  split_ifs with h1 h2 h3 h4
  all_goals simp only [List.any_eq_true, beq_iff_eq, Bool.not_eq_true', List.any_eq_false] at *
  all_goals grind

theorem violatedByToken_eq_none {st : Store} {t : Token} (h : st.violatedByToken t = none) :
    ∀ x ∈ st.tokens, ¬x.Clashes t := by
  simp only [Store.violatedByToken, Token.Clashes] at *
  split_ifs at h with h1 h2
  simp only [List.any_eq_true, beq_iff_eq, not_exists, not_and] at h1 h2
  exact fun x hx hc => hc.elim (h1 x hx) (h2 x hx)

/-! ## Guarded tables -/

/-- A statement adds a row to `reservations` by one INSERT. -/
theorem mem_newAll_exec_reservation {s : Stmt} {b : ℤ} {q : Seqs} {snap cur : Store}
    {p : Reservation} (hp : p ∈ reservationTable.newAll (s.exec b q snap cur).2.1) :
    s = .insertReservation p.userId p.hostId p.timeRange.lower p.timeRange.upper ∧
      p.status = .confirmed ∧ p.id = q.reservation ∧ cur.violatedByReservation p = none := by
  have hw : .insertReservation p ∈ (s.exec b q snap cur).2.1 := by
    rcases exec_writes s b q snap cur with e | ⟨w, e⟩
    · simp [e, Table.newAll] at hp
    · rw [e] at hp ⊢
      cases w with
      | insertReservation r =>
        obtain rfl : p = r := List.mem_singleton.mp hp
        exact List.mem_singleton_self _
      | _ => exact absurd hp List.not_mem_nil
  exact writes_insertReservation hw

theorem mem_newAll_exec_token {s : Stmt} {b : ℤ} {q : Seqs} {snap cur : Store} {p : Token}
    (hp : p ∈ tokenTable.newAll (s.exec b q snap cur).2.1) :
    ∃ new, s = .insertToken new ∧ p = new.row q.token ∧ cur.violatedByToken p = none := by
  have hw : .insertToken p ∈ (s.exec b q snap cur).2.1 := by
    rcases exec_writes s b q snap cur with e | ⟨w, e⟩
    · simp [e, Table.newAll] at hp
    · rw [e] at hp ⊢
      cases w with
      | insertToken t =>
        obtain rfl : p = t := List.mem_singleton.mp hp
        exact List.mem_singleton_self _
      | _ => exact absurd hp List.not_mem_nil
  exact writes_insertToken hw

theorem pairwise_of_length_le_one {α : Type} {R : α → α → Prop} {l : List α} (h : l.length ≤ 1) :
    l.Pairwise R := by
  match l, h with
  | [], _ => exact .nil
  | [a], _ => exact List.pairwise_singleton R a

theorem reservations_guarded (cfg : Settings) :
    Guarded reservationTable (rules cfg) Reservation.Clashes where
  symm h := h.symm
  upd {w a _} h := (w.onReservation_evolves a).clashes h
  checked hp hr h := by
    obtain ⟨-, -, -, hv⟩ := mem_newAll_exec_reservation hp
    exact (violatedByReservation_eq_none.mp hv).1 _ hr h.symm
  one {s b q snap cur} := by
    rcases exec_writes s b q snap cur with e | ⟨w, e⟩
    · exact e ▸ .nil
    · refine pairwise_of_length_le_one (e ▸ ?_)
      cases w <;> simp [Table.newAll, reservationTable, Write.newReservations]
  waits {s b q snap cur p ws w x} hb hp hw hx h := by
    obtain ⟨rfl, hst, hid, -⟩ := mem_newAll_exec_reservation hp
    have hb := List.any_eq_false.mp hb w hw
    simp only [Stmt.waitsFor, Bool.or_eq_true, List.any_eq_true, not_or, not_exists, not_and] at hb
    obtain ⟨h1, h2⟩ := hb.1 x hx
    rcases h with h | h
    · exact h1 (beq_iff_eq.mpr (h.symm.trans hid))
    · rw [Reservation.excludes_comm] at h
      simp only [Reservation.excludes, Bool.and_eq_true] at h h2
      exact h2 ⟨⟨h.1.1.1, h.1.2⟩, h.2⟩
  keeps {j h s b q snap cur p} hs hp r hc := by
    obtain ⟨rfl, -⟩ := mem_newAll_exec_reservation hp
    rw [hs.2.1]
    exact hc

theorem tokens_guarded (cfg : Settings) : Guarded tokenTable (rules cfg) Token.Clashes where
  symm h := h.imp Eq.symm Eq.symm
  upd {w a _} h := (w.onToken_evolves a).clashes.mp h
  checked hp hr h := by
    obtain ⟨-, -, -, hv⟩ := mem_newAll_exec_token hp
    exact violatedByToken_eq_none hv _ hr (h.imp Eq.symm Eq.symm)
  one {s b q snap cur} := by
    rcases exec_writes s b q snap cur with e | ⟨w, e⟩
    · exact e ▸ .nil
    · refine pairwise_of_length_le_one (e ▸ ?_)
      cases w <;> simp [Table.newAll, tokenTable, Write.newTokens]
  waits {s b q snap cur p ws w x} hb hp hw hx h := by
    obtain ⟨new, rfl, rfl, -⟩ := mem_newAll_exec_token hp
    have hb := List.any_eq_false.mp hb w hw
    simp only [Stmt.waitsFor, List.any_eq_true, Bool.or_eq_true, beq_iff_eq, not_exists, not_and,
      not_or] at hb
    exact h.elim (fun h => (hb x hx).1 h.symm) fun h => (hb x hx).2 h.symm
  keeps {j h s b q snap cur p} _ _ r hc :=
    have hev := updAll_token_evolves (pendOf h) r
    (hc.imp Eq.symm Eq.symm : r.Clashes p) |> hev.clashes.mpr |>.imp Eq.symm Eq.symm

/-! ## Consistent stores -/

/-- The constraints hold, no range is empty, and no reservation has the status
    that nothing sets. -/
structure Consistent (st : Store) : Prop where
  reservations : st.reservations.Pairwise fun a b => ¬a.Clashes b
  tokens : st.tokens.Pairwise fun a b => ¬a.Clashes b
  ranges : RangesNonempty st
  status : ∀ r ∈ st.reservations, r.status ≠ .completed

/-- A room of two users and three hosts, before any booking. -/
def room : Store where
  users := [⟨1, .user, "mock"⟩, ⟨2, .user, "mock"⟩]
  hosts := [⟨1, "pc-01", "PC 1", none, none, 47984, .idle, none⟩,
    ⟨2, "pc-02", "PC 2", none, none, 47984, .idle, none⟩,
    ⟨3, "pc-03", "PC 3", none, none, 47984, .idle, none⟩]

/-- A booking of some minutes from a full hour on, in UTC. -/
def bookFor (userId hostId hour minutes : ℤ) : Job :=
  .create ⟨userId, .user, "mock"⟩ hostId (.utc (hour * hourUs)) (.utc (hour * hourUs + minutes * minuteUs))

theorem room_consistent : Consistent room :=
  ⟨.nil, .nil, by simp [RangesNonempty, room], by simp [room]⟩

/-- Rows that clash are the same row. -/
theorem eq_of_clash {α : Type} {R : α → α → Prop} (hsymm : ∀ {a b}, R a b → R b a) {l : List α}
    (h : l.Pairwise fun a b => ¬R a b) {a b : α} (ha : a ∈ l) (hb : b ∈ l) (hab : R a b) : a = b := by
  induction h with
  | nil => simp at ha
  | @cons x l hx _ ih =>
    rcases List.mem_cons.mp ha with rfl | ha'
    · rcases List.mem_cons.mp hb with rfl | hb'
      · rfl
      · exact absurd hab (hx b hb')
    · rcases List.mem_cons.mp hb with rfl | hb'
      · exact absurd (hsymm hab) (hx a ha')
      · exact ih ha' hb'

theorem Consistent.reservation_eq {st : Store} (h : Consistent st) {a b : Reservation}
    (ha : a ∈ st.reservations) (hb : b ∈ st.reservations) (hid : a.id = b.id) : a = b :=
  eq_of_clash Reservation.Clashes.symm h.reservations ha hb (.inl hid)

theorem Consistent.token_eq {st : Store} (h : Consistent st) {a b : Token} (ha : a ∈ st.tokens)
    (hb : b ∈ st.tokens) (hab : a.Clashes b) : a = b :=
  eq_of_clash (fun h => h.imp Eq.symm Eq.symm) h.tokens ha hb hab

section
variable {cfg : Settings} {hashRaw : String → String} {C : System → Label Job ℤ String → Prop}
  {db : Store} {aux : Seqs} {clock : ℤ} {s s' : System}

/-- Every history keeps the rules, in every interleaving. -/
theorem sound_of_reach (hdb : Consistent db)
    (h : Reach (app cfg hashRaw) C ⟨db, aux, clock, []⟩ s) :
    s.Sound RangesNonempty (rules cfg) (answers hashRaw) Store.Evolves :=
  h.sound app_keeps Store.grows (.init hdb.ranges)

/-- **Every interleaving keeps the store consistent.** -/
theorem consistent_of_reach (hdb : Consistent db)
    (h : Reach (app cfg hashRaw) C ⟨db, aux, clock, []⟩ s) : Consistent s.db where
  reservations :=
    (h.excl (reservations_guarded cfg) app_keeps Store.grows (.init hdb.ranges)
      ⟨hdb.reservations, by simp, by simp, by simp⟩).db
  tokens :=
    (h.excl (tokens_guarded cfg) app_keeps Store.grows (.init hdb.ranges)
      ⟨hdb.tokens, by simp, by simp, by simp⟩).db
  ranges := (sound_of_reach hdb h).inv
  status := by
    refine h.store_inv (P := fun _ (st : Store) => ∀ r ∈ st.reservations, r.status ≠ .completed)
      (fun _ _ _ _ h => h) (fun s₁ i r k h₁ _ hr _ ih x hx => ?_) hdb.status
    rw [reservations_applyAll] at hx
    rcases List.mem_append.mp hx with hx | hx
    · obtain ⟨y, hy, rfl⟩ := List.mem_map.mp hx
      rcases (updAll_reservation_evolves (pendOf r.log) y).status with e | e
      · exact e ▸ ih y hy
      · simp [e]
    · obtain ⟨y, hy, hev⟩ := mem_newReservations hx
      have hst := (pending_reservation ((sound_of_reach hdb h₁).req i r hr).kept hy).1
      rcases hev.status with e | e <;> simp [e, hst]

/-- Further rules, which the programs keep on consistent stores. -/
theorem sound_and_of_reach {W : Job → Rules broker BrokerError} {Q : Job → History → Reply → Prop}
    (hok : ∀ j, (handle cfg hashRaw j).Ok Consistent (W j) (Q j) [])
    (hlost : ∀ j h, (W j).raise h .databaseLost) (hdb : Consistent db)
    (h : Reach (app cfg hashRaw) C ⟨db, aux, clock, []⟩ s) :
    s.Sound Consistent (fun j => (rules cfg j).and (W j)) (fun j h a => answers hashRaw j h a ∧ Q j h a)
      Store.Evolves := by
  refine h.sound_of_inv (fun j => ?_) (fun j h hex => ?_) Store.grows
    (fun s₁ h₁ => consistent_of_reach hdb h₁) (.init hdb)
  · exact ((app_keeps.ok j).weaken fun _ hst => hst.ranges).and (hok j)
  · exact ⟨hex.elim (fun ⟨_, hst⟩ => hst.1.1) And.left, hlost j h⟩

end

end SmartClassroom
