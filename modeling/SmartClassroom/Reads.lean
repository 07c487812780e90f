/-
  The routes that read once: one reservation, the list of reservations, the hosts
  that are free in a window, the calendar of a host.

  In any interleaving they answer, or refuse, as if they had run alone at a moment
  when they were under way (`reads_atomic`).
-/
import SmartClassroom.Constraints
import SmartClassroom.Lib.Atomic

namespace SmartClassroom

open Txn Prog

/-- The route issues one SELECT. -/
def Job.readsOnce : Job → Bool
  | .list .. | .get .. | .calendar _ _ _ (some _) => true
  | .available from_ to_ => from_.isSome || to_.isSome
  | _ => false

section
variable {cfg : Settings} {hashRaw : String → String}

theorem isRead_getReservation (id : ℤ) : broker.IsRead (Stmt.getReservation id) := ⟨_, fun _ _ _ _ => rfl⟩

theorem isRead_reservations (f : ReservationFilter) : broker.IsRead (Stmt.reservations f) := ⟨_, fun _ _ _ _ => rfl⟩

theorem isRead_calendar (from_ to_ : ℤ) (hostId : Option ℤ) : broker.IsRead (Stmt.calendar from_ to_ hostId) :=
  ⟨_, fun _ _ _ _ => rfl⟩

theorem isRead_idleHosts (from_ to_ : ℤ) : broker.IsRead (Stmt.idleHosts from_ to_) := ⟨_, fun _ _ _ _ => rfl⟩

theorem getReservationEndpoint_readsOnce (user : User) (id : ℤ) : (getReservationEndpoint user id).ReadsOnce := by
  have hget : (getReservation user id).ReadsOnce := by
    refine readsOnce_query (isRead_getReservation id) fun found => ?_
    cases found with
    | none => exact ends_throw _
    | some r => exact (ends_lift _).bind fun _ => ends_pure r
  have hcatch (e : BrokerError) : (notFoundAs404 e).Ends := by cases e <;> trivial
  exact (hget.tryCatch hcatch).bind fun _ => (ends_lift _).bind fun _ => ends_pure _

theorem listReservationsEndpoint_readsOnce (viewer : User) (from_ to_ : Option DateTime) (hostId userId : Option ℤ) :
    (listReservationsEndpoint viewer from_ to_ hostId userId).ReadsOnce :=
  readsOnce_query (isRead_reservations _) fun _ => (ends_lift _).bind fun _ => ends_pure _

theorem calendarEndpoint_readsOnce (viewer : User) (from_ to_ : DateTime) (hostId : ℤ) :
    (calendarEndpoint cfg viewer from_ to_ (some hostId)).ReadsOnce := by
  refine ReadsOnce.bind ((ends_lift _).bind_readsOnce fun _ => ?_) fun matrix => ends_pure _
  exact readsOnce_query (isRead_calendar ..) fun reservations => ends_pure _

theorem listAvailableHostsEndpoint_readsOnce {from_ to_ : Option DateTime} (h : (from_.isSome || to_.isSome) = true) :
    (listAvailableHostsEndpoint from_ to_).ReadsOnce := by
  cases from_ with
  | none =>
    cases to_ with
    | none => cases h
    | some to_ => trivial
  | some from_ =>
    cases to_ with
    | none => trivial
    | some to_ =>
      refine (ends_lift _).bind_readsOnce fun _ => (ends_lift _).bind_readsOnce fun _ => (ends_lift _).bind_readsOnce fun _ => ?_
      exact readsOnce_query (isRead_idleHosts ..) fun hosts => ends_pure _

theorem handle_readsOnce {j : Job} (hj : j.readsOnce = true) : (handle cfg hashRaw j).ReadsOnce := by
  cases j with
  | list viewer from_ to_ hostId userId => exact listReservationsEndpoint_readsOnce viewer from_ to_ hostId userId
  | get user id => exact getReservationEndpoint_readsOnce user id
  | available from_ to_ => exact listAvailableHostsEndpoint_readsOnce hj
  | calendar viewer from_ to_ hostId =>
    cases hostId with
    | none => cases hj
    | some hostId => exact calendarEndpoint_readsOnce viewer from_ to_ hostId
  | _ => cases hj

end

/-! ## Runs -/

section
variable {cfg : Settings} {hashRaw : String → String} {C : System → Label Job ℤ String → Prop}
  {db : Store} {aux : Seqs} {clock : ℤ} {s : System} {r : Req broker Job BrokerError Reply} {i : ℕ}

/-- **The routes that read once are atomic**: an answer, or a refusal, is that of the
    same request served alone at a moment when this one was under way. -/
theorem reads_atomic (hdb : Consistent db) (h : Reach (app cfg hashRaw) C ⟨db, aux, clock, []⟩ s)
    (hi : s.reqs[i]? = some r) (hj : r.job.readsOnce = true) :
    (∀ reply, r.prog = .ret reply → (handle cfg hashRaw r.job).AtOnce (.ok reply)
      (Sight.during (app cfg hashRaw) C ⟨db, aux, clock, []⟩ s i)) ∧
    ∀ err, r.prog = .raise err → err ≠ .databaseLost → (handle cfg hashRaw r.job).AtOnce (.error err)
      (Sight.during (app cfg hashRaw) C ⟨db, aux, clock, []⟩ s i) := by
  have hsound := sound_and_of_reach
    (W := fun j => Rules.raising fun h err => j.readsOnce = true → err ≠ .databaseLost →
      (handle cfg hashRaw j).AtOnce (.error err) (Sight.of h))
    (Q := fun j h reply => j.readsOnce = true → (handle cfg hashRaw j).AtOnce (.ok reply) (Sight.of h))
    (fun j => ?_) (fun _ _ _ hne => absurd rfl hne) hdb h
  · have hok := (hsound.req i r hi).ok
    constructor
    · intro reply hret
      rw [hret] at hok
      exact (hok.2 hj).mono (h.sight_le rfl hi)
    · intro err hraise hne
      rw [hraise] at hok
      exact (hok.2 hj hne).mono (h.sight_le rfl hi)
  · cases hj : j.readsOnce with
    | true =>
      exact ((handle_readsOnce hj).atomic.raising fun _ _ ha _ _ => ha).mono fun _ _ ha _ => ha
    | false =>
      refine ok_of_free ?_ ?_ ?_ ?_ _ _
      · exact fun _ _ => trivial
      · exact fun _ => trivial
      · exact fun _ _ => nofun
      · exact fun _ _ => nofun

end

/-- Request `i` reads once, and lists one reservation. -/
def listsOne (s : System) (i : ℕ) : Bool :=
  s.reqs[i]?.any fun r => r.job.readsOnce && match r.prog with
    | .ret reply => match reply with
      | .reservations [_] => true
      | _ => false
    | .raise _ | .now _ | .draw _ | .stmt .. | .commit _ | .rollback _ => false

theorem exists_list {s : System} {i : ℕ} (h : listsOne s i = true) :
    ∃ r read, s.reqs[i]? = some r ∧ r.job.readsOnce = true ∧ r.prog = .ret (.reservations [read]) := by
  obtain ⟨r, hr, hlists⟩ := (Option.any_eq_true _ _).1 h
  obtain ⟨hj, hret⟩ := Bool.and_eq_true_iff.mp hlists
  split at hret
  · split at hret
    · exact ⟨r, _, hr, hj, ‹_›⟩
    · cases hret
  all_goals cases hret

/-- A list that runs beside a booking: it arrives before, and reads after. -/
theorem reads_atomic_list : ∃ s : System, ∃ r read, s.reqs[0]? = some r ∧ r.prog = .ret (.reservations [read]) ∧
    (handle {} id r.job).AtOnce (.ok (.reservations [read])) (Sight.during (app {} id) Any ⟨room, {}, 0, []⟩ s 0) := by
  have hrun : (play (app {} id) Any ⟨room, {}, 0, []⟩
      [.arrive (.list ⟨1, .user, "mock"⟩ none none none none), .arrive (bookFor 1 1 1 60), .steps 1 "" 30,
        .steps 0 "" 30]).any (fun s => listsOne s 0) = true := by decide
  obtain ⟨s, hs, hout⟩ := Reach.of_play_any hrun
  obtain ⟨r, read, hr, hj, hret⟩ := exists_list hout
  exact ⟨s, r, read, hr, hret, (reads_atomic room_consistent hs hr hj).1 _ hret⟩

end SmartClassroom
