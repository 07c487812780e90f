/-
  Bookings in any interleaving.

  In every state that any interleaving of requests reaches, the confirmed
  reservations of a host are disjoint half-open intervals and none is empty;
  a committed reservation keeps its user, host and interval, and changes only
  from CONFIRMED to CANCELED; and a request that ends in an exception has
  changed nothing (`bookings_kept`).
-/
import Mathlib
import SmartClassroom.Constraints

namespace SmartClassroom

open Txn

/-- The half-open interval of a reservation. -/
def Reservation.interval (r : Reservation) : Set ℤ := Set.Ico r.timeRange.lower r.timeRange.upper

/-- Confirmed reservations of one host that do not clash are disjoint. -/
theorem Reservation.disjoint_of_not_clashes {a b : Reservation} (h : ¬a.Clashes b)
    (ha : a.status = .confirmed) (hb : b.status = .confirmed) (hh : a.hostId = b.hostId) :
    Disjoint a.interval b.interval := by
  have ha' := a.timeRange.le
  have hb' := b.timeRange.le
  simp only [Clashes, excludes, ha, hb, hh, ReservationStatus.active, TsRange.overlaps, not_or,
    Bool.true_and, beq_self_eq_true, Bool.and_eq_true, decide_eq_true_eq] at h
  rw [interval, interval, Set.Ico_disjoint_Ico]
  omega

section
variable {cfg : Settings} {hashRaw : String → String} {C : System → Label Job ℤ String → Prop}
  {db : Store} {aux : Seqs} {clock : ℤ} {s s₁ s' : System}

/-- A committed reservation stays, and only its cancellation changes it. -/
theorem reservation_kept (hdb : Consistent db)
    (h : Reach (app cfg hashRaw) C ⟨db, aux, clock, []⟩ s) (h' : Reach (app cfg hashRaw) C s s')
    {r : Reservation} (hr : r ∈ s.db.reservations) : ∃ r' ∈ s'.db.reservations, r.Evolves r' ∧
      (r'.status = r.status ∨ r.status = .confirmed ∧ r'.status = .canceled) := by
  obtain ⟨r', hr', hev⟩ := (h'.grows Store.grows).reservations r hr
  refine ⟨r', hr', hev, ?_⟩
  rcases hev.status with e | e
  · exact .inl e
  cases hst : r.status with
  | confirmed => exact .inr ⟨rfl, e⟩
  | canceled => exact .inl e
  | completed => exact absurd hst ((consistent_of_reach hdb h).status r hr)

/-- No step of a request that ends in an exception changes the committed store. -/
theorem step_of_failed (hdb : Consistent db) (h : Reach (app cfg hashRaw) C ⟨db, aux, clock, []⟩ s)
    {i : ℕ} {a : Act String} (hst : step (app cfg hashRaw) s (.act i a) = some s₁)
    (hC : C s (.act i a)) (h' : Reach (app cfg hashRaw) C s₁ s') {r : Req broker Job BrokerError Reply}
    (hr : s'.reqs[i]? = some r) {e : BrokerError} (he : r.prog = .raise e) : s₁.db = s.db := by
  have hs' := sound_of_reach hdb ((h.tail ⟨_, hC, hst⟩).trans h')
  cases step_cases hst with
  | @act _ _ q q' db' aux' hq ha _ =>
    rcases Req.move_db ha with rfl | ⟨rfl, k, hp, -⟩
    · rfl
    -- a request that has committed does not raise
    have hq' : q'.log = .commit :: q.log := by
      simp only [Req.move, hp, Option.some.injEq, Prod.mk.injEq] at ha
      rw [← ha.1]
    obtain ⟨r', hr', hlater⟩ := h'.later (i := i) (r := q') (by
      simp [(List.getElem?_eq_some_iff.mp hq).1])
    obtain rfl : r' = r := Option.some.inj (hr'.symm.trans hr)
    have hopen : Open r'.log := by
      have hok := (hs'.req i r' hr).ok
      rw [he] at hok
      exact hok
    exact absurd (hlater.log.subset (hq' ▸ List.mem_cons_self)) hopen

/-- **Bookings in any interleaving.** -/
theorem bookings_kept (hdb : Consistent db)
    (h : Reach (app cfg hashRaw) Any ⟨db, aux, clock, []⟩ s) (h' : Reach (app cfg hashRaw) Any s s') :
    (s.db.reservations.Pairwise fun a b => a.status = .confirmed → b.status = .confirmed →
      a.hostId = b.hostId → Disjoint a.interval b.interval) ∧
    (∀ r ∈ s.db.reservations, r.interval.Nonempty) ∧
    (∀ r ∈ s.db.reservations, (∃ r' ∈ s'.db.reservations, r'.id = r.id) ∧
      ∀ r' ∈ s'.db.reservations, r'.id = r.id →
        r'.userId = r.userId ∧ r'.hostId = r.hostId ∧ r'.interval = r.interval ∧
        (r'.status = r.status ∨ r.status = .confirmed ∧ r'.status = .canceled)) ∧
    ∀ i a s₁ r e, step (app cfg hashRaw) s (.act i a) = some s₁ →
      Reach (app cfg hashRaw) Any s₁ s' → s'.reqs[i]? = some r → r.prog = .raise e →
      s₁.db = s.db := by
  have hs := consistent_of_reach hdb h
  refine ⟨hs.reservations.imp fun hab ha hb => Reservation.disjoint_of_not_clashes hab ha hb,
    fun r hr => Set.nonempty_Ico.mpr (hs.ranges r hr), fun r hr => ?_,
    fun i a s₁ r e hst h₁ hr he => step_of_failed hdb h hst trivial h₁ hr he⟩
  obtain ⟨r', hr', hev, hstatus⟩ := reservation_kept hdb h h' hr
  refine ⟨⟨r', hr', hev.id⟩, fun x hx hid => ?_⟩
  obtain rfl : x = r' :=
    (consistent_of_reach hdb (h.trans h')).reservation_eq hx hr' (hid.trans hev.id.symm)
  exact ⟨hev.userId, hev.hostId, by rw [Reservation.interval, hev.timeRange]; rfl, hstatus⟩

end

/-- Two bookings of one interval on one host at once: one of them fails. -/
theorem bookings_kept_race : ∃ s : System, s.db.reservations.length = 1 ∧
    ∀ r ∈ s.db.reservations, r.interval.Nonempty := by
  have hrun : (play (app {} id) Any ⟨room, {}, 0, []⟩
      [.arrive (bookFor 1 1 1 60), .arrive (bookFor 2 1 1 60), .steps 0 "" 10, .steps 1 "" 10,
        .steps 0 "" 20, .steps 1 "" 20]).any
      (fun s => s.db.reservations.length == 1) = true := by decide
  obtain ⟨s, hs, hlen⟩ := Reach.of_play_any hrun
  exact ⟨s, beq_iff_eq.mp hlen, (bookings_kept room_consistent hs .refl).2.1⟩

end SmartClassroom
