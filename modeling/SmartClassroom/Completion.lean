/-
  No request of `app` waits forever: bookings, cancellations, connect tokens and
  their verification, the reads, and the rotation of agent tokens.

  A statement takes all its locks at once, an INSERT under an EXCLUDE constraint
  among them; a transaction holds them to its end.  The statements that wait are
  ranked: those on reservations, the UPDATEs of tokens, the INSERT of a token, the
  UPDATE of a host.  A transaction issues them in this order (`locks_ranked`): by
  the rules of `Discipline`, and since no route locks a row after it has set the
  status of a host (`hostRules`).
-/
import SmartClassroom.Constraints
import SmartClassroom.HostJobs
import SmartClassroom.Issue
import SmartClassroom.Lib.Progress

namespace SmartClassroom

open Txn Prog

/-! ## Hosts come last -/

/-- The statements that may wait for another transaction. -/
def Stmt.locks : Stmt → Prop
  | insertReservation .. | cancelReservation .. | insertToken _ | revokeConnectTokens ..
  | revokeAgentTokens .. | consumeToken .. | setHostStatus .. => True
  | _ => False

/-- No host is updated yet. -/
def NoHost (h : History) : Prop := ∀ w ∈ pendOf h, w.updatedHosts = []

/-- Nothing is locked after a host. -/
def hostRules (_ : Job) : Rules broker BrokerError where
  stmt h s := s.locks → NoHost h
  commit _ := True
  raise _ _ := True

section
variable {cfg : Settings} {hashRaw : String → String} {j : Job} {h : History} {I : Store → Prop} {α : Type}

theorem NoHost.stmt (hK : NoHost h) {s : Stmt} (hs : s.sparesHosts) (b : ℤ) (q : Seqs) (snap cur : Store) :
    NoHost (.stmt s b q snap cur :: h) := by
  intro w hw
  rw [pendOf_stmt] at hw
  rcases List.mem_append.mp hw with hw | hw
  · exact hK w hw
  · exact writes_sparesHosts hs _ _ _ _ w hw

theorem NoHost.now (hK : NoHost h) (t : ℤ) : NoHost (.now t :: h) := hK

/-- A program that leaves the hosts alone. -/
theorem noHost_ok {p : Service α} (hp : p.Only Stmt.sparesHosts) (hK : NoHost h) :
    p.Ok I (hostRules j) (fun h _ => NoHost h) h := by
  refine hp.ok ?_ ?_ ?_ ?_ ?_ ?_ hK
  · exact fun _ _ hK => hK
  · exact fun _ _ hK => hK
  · exact fun _ _ hK hs => ⟨fun _ => hK, fun b q snap cur => hK.stmt hs b q snap cur⟩
  · exact fun _ _ => ⟨trivial, by simp [NoHost]⟩
  · exact fun _ _ => by simp [NoHost]
  · exact fun _ _ _ => trivial

/-- A program that locks nothing. -/
theorem free_ok {p : Service α} (hp : p.Uses fun s : Stmt => ¬s.locks) : p.Ok I (hostRules j) (fun _ _ => True) h := by
  refine Uses.ok (K := fun _ => True) ?_ ?_ ?_ ?_ hp trivial
  · exact fun _ _ _ => trivial
  · exact fun _ _ _ => trivial
  · exact fun _ _ _ hs => ⟨fun hl => absurd hl hs, fun _ _ _ _ => trivial⟩
  · exact fun _ _ _ => trivial

theorem transitionHost_host (hK : NoHost h) (host : Host) (status : HostStatus) (reason : String) :
    (transitionHost host status reason).Ok I (hostRules j) (fun _ _ => True) h := by
  unfold transitionHost
  split_ifs
  · trivial
  · refine ok_bind.mpr ⟨fun _ => hK, fun b q snap cur _ _ => free_ok (Uses.bind ?_ fun _ => uses_pure _)⟩
    exact (uses_query (D := broker) (s := .insertAudit _) id).bind fun _ => orRaise_uses _

theorem markInUse_host (hK : NoHost h) (r : Reservation) :
    (markInUse r).Ok I (hostRules j) (fun _ _ => True) h := by
  refine ok_bind.mpr ⟨fun _ => hK, fun b q snap cur _ _ => ?_⟩
  have hK' := hK.stmt (s := .getHost r.hostId) trivial b q snap cur
  generalize (broker.execOn (pendOf h) (Stmt.getHost r.hostId) b q snap cur).2.2 = host
  cases (host : Option Host) with
  | none => trivial
  | some host =>
    change ∀ t : ℤ, (transitionHost host .inUse "instant_use" >>= fun _ => pure ()).Ok I (hostRules j) _ (.now t :: _)
    exact fun t => ok_bind.mpr ((transitionHost_host (hK'.now t) _ _ _).mono fun _ _ _ => trivial)

theorem releaseHost_host (hK : NoHost h) (r : Reservation) :
    (releaseHost r).Ok I (hostRules j) (fun _ _ => True) h := by
  refine ok_bind.mpr ⟨fun _ => hK, fun b q snap cur _ _ => ?_⟩
  have hK' := hK.stmt (s := .getHost r.hostId) trivial b q snap cur
  generalize (broker.execOn (pendOf h) (Stmt.getHost r.hostId) b q snap cur).2.2 = host
  cases (host : Option Host) with
  | none => trivial
  | some host =>
    change (if host.status = .inUse then _ else pure () : Service Unit).Ok I (hostRules j) _ _
    split_ifs
    · change ∀ t : ℤ, (getActiveReservationForHost host.id (.utc t) >>= _).Ok I (hostRules j) _ (.now t :: _)
      refine fun t => ok_bind.mpr ⟨fun _ => hK', fun b q snap cur _ _ => ?_⟩
      have hK₂ := (hK'.now t).stmt (s := .activeReservation host.id (DateTime.utc t).instant) trivial b q snap cur
      generalize (broker.execOn _ _ b q snap cur).2.2 = active
      cases (active : Option Reservation) with
      | some _ => trivial
      | none => exact ok_bind.mpr ((transitionHost_host hK₂ _ _ _).mono fun _ _ _ => trivial)
    · trivial

theorem handle_host (j : Job) : (handle cfg hashRaw j).Ok I (hostRules j) (fun _ _ => True) [] := by
  have hK : NoHost [] := by simp [NoHost]
  by_cases hj : j.setsHost
  · cases j with
    | instant user hostId =>
      refine ok_bind.mpr ((noHost_ok (only_lift _) hK).mono fun h₁ _ hK₁ => ?_)
      refine ok_bind.mpr ((noHost_ok (Within.only ?_) hK₁).mono fun h₂ r hK₂ => ?_)
      · exact (createInstantReservation_sparesHosts user hostId).tryCatch fun e => by cases e <;> trivial
      refine ok_bind.mpr ((noHost_ok (Only.of_spares (issueConnectTokenResponse_spares _ _ _)) hK₂).mono
        fun h₃ _ hK₃ => ?_)
      exact ok_bind.mpr ((markInUse_host hK₃ r).mono fun _ _ _ => ⟨trivial, trivial⟩)
    | cancel user id =>
      refine ok_bind.mpr ((noHost_ok (Within.only ?_) hK).mono fun h₁ r hK₁ => ?_)
      · exact (cancelReservation_sparesHosts user id).tryCatch fun e =>
          Within.of_spares (notFoundAs404_spares e)
      exact ok_bind.mpr ((releaseHost_host hK₁ r).mono fun _ _ _ => ⟨trivial, trivial⟩)
    | _ => exact hj.elim
  · exact (noHost_ok (handle_sparesHosts hj) hK).mono fun _ _ _ => trivial

/-- The routes lock no row after a host, besides their own rules. -/
theorem host_keeps : Keeps (app cfg hashRaw) RangesNonempty (fun j => (rules cfg j).and (hostRules j))
    fun j h a => answers hashRaw j h a ∧ True :=
  app_keeps.and handle_host (fun _ _ _ _ => trivial) fun _ _ _ => trivial

end

/-! ## The ranks -/

def Stmt.rank : Stmt → ℕ
  | insertReservation .. | cancelReservation .. => 0
  | revokeConnectTokens .. | revokeAgentTokens .. | consumeToken .. => 1
  | insertToken _ => 2
  | setHostStatus .. => 3
  | _ => 4

/-- What a write holds: a host, a new token, tokens, or reservations. -/
def Write.rank (w : Write) : ℕ :=
  if w.updatedHosts ≠ [] then 3 else if w.newTokens ≠ [] then 2 else if w.updatedTokens ≠ [] then 1 else 0

theorem exists_of_wants {α : Type} {key : α → ℤ} {p : α → Bool} {xs : List α} {ids : List ℤ}
    (h : Stmt.wants key p xs ids = true) : ids ≠ [] := by
  rintro rfl
  simp [Stmt.wants] at h

/-- A statement waits for writes of its rank. -/
theorem rank_of_waitsFor {s : Stmt} {q : Seqs} {snap cur : Store} {w : Write}
    (h : s.waitsFor q snap cur w = true) : w.rank = s.rank := by
  cases s with
  | insertReservation =>
    simp only [Stmt.waitsFor, Bool.or_eq_true] at h
    rcases h with h | h
    · cases w <;> first | rfl | simp [Write.newReservations] at h
    · cases w <;> first | rfl | exact absurd rfl (exists_of_wants h)
  | cancelReservation => cases w <;> first | rfl | exact absurd rfl (exists_of_wants h)
  | insertToken => cases w <;> first | rfl | simp [Stmt.waitsFor, Write.newTokens] at h
  | revokeConnectTokens | revokeAgentTokens | consumeToken =>
    have hne := exists_of_wants h
    cases w <;> first | exact absurd rfl hne | exact (if_neg (by simp [Write.updatedHosts])).trans (if_pos hne)
  | setHostStatus =>
    have hne := exists_of_wants h
    cases w <;> first | exact absurd rfl hne | exact if_pos hne
  | _ => cases h

/-- Its transaction holds writes of lower ranks. -/
theorem rank_lt {cfg : Settings} {j : Job} {h : History} {s : Stmt}
    (hs : ((rules cfg j).and (hostRules j)).stmt h s) : ∀ w ∈ pendOf h, w.rank < s.rank := by
  obtain ⟨⟨-, hpre⟩, hhost⟩ := hs
  intro w hw
  cases s with
  | insertReservation | cancelReservation => simp [hpre.1] at hw
  | consumeToken => simp [hpre.1] at hw
  | revokeConnectTokens | revokeAgentTokens =>
    obtain ⟨h1, h2, -⟩ := hpre w hw
    simp [Write.rank, Stmt.rank, hhost trivial w hw, h1, h2]
  | insertToken =>
    have h1 := (hpre.1 w hw).1
    simp only [Write.rank, Stmt.rank, hhost trivial w hw, h1]
    split_ifs <;> simp_all
  | setHostStatus =>
    simp only [Write.rank, Stmt.rank, hhost trivial w hw]
    split_ifs <;> simp_all
  | _ =>
    simp only [Write.rank, Stmt.rank]
    split_ifs <;> simp

theorem locks_ranked (cfg : Settings) :
    Ranked (fun j => (rules cfg j).and (hostRules j)) 4 Stmt.rank Write.rank where
  waits h := by
    obtain ⟨w, hw, h⟩ := List.any_eq_true.mp h
    exact ⟨w, hw, rank_of_waitsFor h⟩
  holds hs := rank_lt hs
  le_top st := by cases st <;> simp [Stmt.rank]

/-! ## Every request comes to its end -/

section
variable {cfg : Settings} {hashRaw : String → String} {C : System → Label Job ℤ String → Prop} {db : Store}
  {aux : Seqs} {clock : ℤ} {s : System}

/-- **No request waits forever, in any interleaving**: as long as one has not
    ended, some request can go on without the help of the database; no run without
    arrivals is infinite; hence all requests under way can come to their ends. -/
theorem requests_complete (hdb : Consistent db) (h : Reach (app cfg hashRaw) C ⟨db, aux, clock, []⟩ s) :
    ((∃ r ∈ s.reqs, r.ended = false) → ∃ l s', Going s l ∧ step (app cfg hashRaw) s l = some s') ∧
    Acc (fun s₂ s₁ => ∃ l, Acts s₁ l ∧ step (app cfg hashRaw) s₁ l = some s₂) s ∧
    ∃ s', Reach (app cfg hashRaw) Going s s' ∧ ∀ r ∈ s'.reqs, r.ended = true := by
  have hs := h.sound host_keeps Store.grows (.init hdb.ranges)
  exact ⟨(locks_ranked cfg).exists_step hs, (wellFounded_acts _).apply s,
    (locks_ranked cfg).completes host_keeps Store.grows hs⟩

end

/-- Two cancellations of one reservation: the second waits for the first. -/
theorem requests_complete_waiting : ∃ s : System, s.reqs.all (fun r => !r.ended) = true ∧
    (s.reqs[1]?.any fun r => r.running.isSome) = true ∧
    ∃ s', Reach (app {} id) Going s s' ∧ ∀ r ∈ s'.reqs, r.ended = true := by
  have hrun : (play (app {} id) Any ⟨bookedRoom, {}, 0, []⟩
      [.arrive (.cancel ⟨1, .user, "mock"⟩ 1), .arrive (.cancel ⟨1, .user, "mock"⟩ 1), .steps 0 "" 5,
        .steps 1 "" 30]).any
      (fun s => s.reqs.all (fun r => !r.ended) && s.reqs[1]?.any fun r => r.running.isSome) = true := by decide
  obtain ⟨s, hs, hp⟩ := Reach.of_play_any hrun
  rw [Bool.and_eq_true] at hp
  exact ⟨s, hp.1, hp.2, (requests_complete bookedRoom_consistent hs).2.2⟩

end SmartClassroom
