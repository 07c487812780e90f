/-
  What each job does to the hosts, served at one instant.

  A heartbeat sets the row of its host to what `evaluateHostStatus` says
  (`post_heartbeatEndpoint`), a tick sets the stale rows to OFFLINE
  (`total_runOneTick`), an instant reservation its host to IN_USE
  (`post_instantReservationEndpoint`), and a cancellation a host in use without
  an active reservation to IDLE (`post_cancelReservationEndpoint`).
-/
import SmartClassroom.Available
import SmartClassroom.Frames
import SmartClassroom.Monitor

namespace SmartClassroom

open Txn Prog

variable {cfg : Settings} {policy : HostSettings} {hashRaw : String → String} {E : Env ℤ String}

theorem instant_cutoff (t : ℤ) :
    (policy.cutoff (.utc t)).instant = t - policy.hostOfflineAfterSeconds * secondUs := by
  rw [HostSettings.cutoff, DateTime.instant_sub, DateTime.instant_utc]

/-! ## The tables under a statement -/

/-- The row, with the status if it has the id. -/
def setStatus (id : ℤ) (status : HostStatus) (h : Host) : Host :=
  if h.id = id then { h with status := status } else h

@[simp] theorem setStatus_id (id : ℤ) (status : HostStatus) (h : Host) : (setStatus id status h).id = h.id := by
  unfold setStatus
  split_ifs <;> rfl

@[simp] theorem setStatus_lastHeartbeatAt (id : ℤ) (status : HostStatus) (h : Host) :
    (setStatus id status h).lastHeartbeatAt = h.lastHeartbeatAt := by
  unfold setStatus
  split_ifs <;> rfl

theorem contains_hits_id {hosts : List Host} {id : ℤ} {h : Host} (hh : h ∈ hosts) :
    (Stmt.hits Host.id (·.id == id) hosts hosts).contains h.id = true ↔ h.id = id := by
  rw [List.contains_iff_mem, mem_hits_self]
  exact ⟨fun ⟨x, _, hx, hid⟩ => hid.symm.trans (beq_iff_eq.1 hx), fun hid => ⟨h, hh, beq_iff_eq.2 hid, rfl⟩⟩

/-- The UPDATE of the status. -/
theorem hosts_setHostStatus (st : Store) (id : ℤ) (status : HostStatus) :
    (st.apply (.setHostStatus (Stmt.hits Host.id (·.id == id) st.hosts st.hosts) status)).hosts =
      st.hosts.map (setStatus id status) := by
  refine List.map_congr_left fun h hh => ?_
  simp only [Write.onHost, contains_hits_id hh, setStatus]

/-- A write that updates no host. -/
theorem Write.onHost_of_updatedHosts {w : Write} (hw : w.updatedHosts = []) (h : Host) : w.onHost h = h := by
  cases w with
  | setHostStatus ids status =>
    obtain rfl : ids = [] := hw
    rfl
  | _ => rfl

theorem hosts_applyAll_spares {ws : List Write} (hws : ∀ w ∈ ws, w.updatedHosts = []) : ∀ st : Store,
    (broker.applyAll st ws).hosts = st.hosts := by
  induction ws with
  | nil => exact fun _ => rfl
  | cons w ws ih =>
    rw [List.forall_mem_cons] at hws
    refine fun st => (ih hws.2 (st.apply w)).trans ?_
    simp [Store.apply, funext (Write.onHost_of_updatedHosts hws.1)]

theorem writes_sparesHosts {s : Stmt} (hs : s.sparesHosts) (b : ℤ) (q : Seqs) (snap cur : Store) :
    ∀ w ∈ (s.exec b q snap cur).2.1, w.updatedHosts = [] := by
  cases s with
  | setHostStatus => exact absurd hs id
  | insertReservation userId hostId s e =>
    rcases exec_insertReservation userId hostId s e b q snap cur with
      ⟨row, -, -, -, -, -, -, -, hx⟩ | ⟨err, hx⟩ <;> simp [hx, Write.updatedHosts]
  | insertToken | insertAudit =>
    simp only [Stmt.exec]
    split <;> simp [Write.updatedHosts]
  | _ => simp [Stmt.exec, Write.updatedHosts]

theorem writes_spares {s : Stmt} (hs : s.spares) (b : ℤ) (q : Seqs) (snap cur : Store) :
    ∀ w ∈ (s.exec b q snap cur).2.1, w.newReservations = [] ∧ w.updatedReservations = [] := by
  cases s with
  | setHostStatus | insertReservation | cancelReservation => exact absurd hs id
  | insertToken | insertAudit =>
    simp only [Stmt.exec]
    split <;> simp [Write.newReservations, Write.updatedReservations]
  | _ => simp [Stmt.exec, Write.newReservations, Write.updatedReservations]

theorem reservations_applyAll_spares {ws : List Write}
    (hws : ∀ w ∈ ws, w.newReservations = [] ∧ w.updatedReservations = []) : ∀ st : Store,
    (broker.applyAll st ws).reservations = st.reservations := by
  induction ws with
  | nil => exact fun _ => rfl
  | cons w ws ih =>
    rw [List.forall_mem_cons] at hws
    refine fun st => (ih hws.2 (st.apply w)).trans ?_
    simp [Store.apply, hws.1.1, funext (onReservation_eq_self hws.1.2)]

/-! ## Parts that leave the hosts alone -/

section
variable {α : Type} {p : Service α} {c : Ctx broker}

theorem post_spares (hp : p.Uses Stmt.spares) {Q : α → Ctx broker → Prop}
    (h : ∀ a c', c'.db = c.db → c'.view.hosts = c.view.hosts → c'.view.reservations = c.view.reservations →
      Q a c') : p.Post E c Q := by
  have hkeep : ∀ (s : Stmt) b aux (st : Store), s.spares → st.hosts = c.view.hosts ∧
      st.reservations = c.view.reservations →
      (broker.applyAll st (s.exec b aux st st).2.1).hosts = c.view.hosts ∧
        (broker.applyAll st (s.exec b aux st st).2.1).reservations = c.view.reservations := by
    intro s b aux st hs hst
    rw [hosts_applyAll_spares (writes_sparesHosts hs.hosts _ _ _ _),
      reservations_applyAll_spares (writes_spares hs _ _ _ _)]
    exact hst
  intro a c' hrun
  obtain ⟨hhosts, hres⟩ := hp.view (E := E) (I := fun st : Store => st.hosts = c.view.hosts ∧
    st.reservations = c.view.reservations) (fun s b aux st hs hst => hkeep s b aux st hs hst) (c := c) ⟨rfl, rfl⟩
  rw [hrun] at hhosts hres
  exact h a c' ((congrArg (·.2.db) hrun).symm.trans (hp.db E c)) hhosts hres

theorem hosts_of_sparesHosts {p : Service α} (hp : p.Only Stmt.sparesHosts) (hc : c.view.hosts = c.db.hosts) :
    (p.run E c).2.view.hosts = c.db.hosts ∧ (p.run E c).2.db.hosts = c.db.hosts := by
  refine hp.run (I := fun st : Store => st.hosts = c.db.hosts) (fun s b aux st hs hst => ?_) hc rfl
  rw [hosts_applyAll_spares (writes_sparesHosts hs b aux st st)]
  exact hst

end

/-! ## Instant use -/

section
variable {st : Store} {q : Seqs} {t : ℤ} {nonce : ℕ → String}

theorem require_bind_eq_ok {β : Type} {p : Prop} [Decidable p] {k : ErrorKind} {f : Unit → Except ErrorKind β}
    {b : β} : (require p k >>= f) = .ok b ↔ p ∧ f () = .ok b := by
  unfold require
  by_cases hp : p
  · rw [if_pos hp]
    exact (and_iff_right hp).symm
  · rw [if_neg hp]
    exact ⟨nofun, fun h => absurd h.1 hp⟩

theorem instantKind_eq_ok {id began now now' : ℤ} {user : User} {hostId : ℤ} {row : Reservation}
    (h : instantKind cfg st id began now now' user hostId = .ok row) :
    (∃ host, st.hosts.find? (·.id == hostId) = some host ∧ host.status = .idle) ∧
      ∃ hle : (windowAt st hostId now).1.instant ≤ (windowAt st hostId now).2.instant,
        row = Stmt.newReservation id user.id hostId ⟨_, _, hle⟩ began := by
  unfold instantKind at h
  dsimp only at h
  rw [require_bind_eq_ok, require_bind_eq_ok, require_bind_eq_ok] at h
  obtain ⟨hsome, hidle, -, h⟩ := h
  obtain ⟨host, hhost⟩ := Option.isSome_iff_exists.1 hsome
  rw [hhost] at hidle
  obtain ⟨hle, hrow, -⟩ := bookOutcome_eq_ok.1 (kindOf_eq_ok h)
  exact ⟨⟨host, hhost, beq_iff_eq.1 hidle⟩, hle, hrow⟩

/-- An instant reservation begins at once, on an idle host. -/
theorem post_createInstantReservation (user : User) (hostId : ℤ) :
    (createInstantReservation cfg user hostId).Post (Env.at t nonce) ⟨st, [], q, 0, 0⟩ fun row c' =>
      (∃ host, st.hosts.find? (·.id == hostId) = some host ∧ host.status = .idle) ∧ row.hostId = hostId ∧
        row.status = .confirmed ∧ row.timeRange.covers t = true ∧ c'.view.hosts = st.hosts ∧
        c'.view.reservations = st.reservations ++ [row] := by
  intro row c' hrun
  have hbooks := @run_createInstantReservation cfg (Env.at t nonce) ⟨st, [], q, 0, 0⟩ rfl user hostId
  have hhosts := @hosts_of_sparesHosts (Env.at t nonce) _ ⟨st, [], q, 0, 0⟩
    (createInstantReservation cfg user hostId) (createInstantReservation_sparesHosts user hostId).only rfl
  rw [hrun] at hbooks hhosts
  have hkind := hbooks.kind
  have hrows := hbooks.rows
  rw [← hkind] at hrows
  obtain ⟨hhost, hle, hrow⟩ := instantKind_eq_ok hkind.symm
  refine ⟨hhost, hrow ▸ rfl, hrow ▸ rfl, ?_, hhosts.1, hrows⟩
  have hlow := windowAt_fst_le st hostId t
  have hup := lt_windowAt_snd st hostId t
  rw [hrow, TsRange.covers, Bool.and_eq_true, decide_eq_true_eq, decide_eq_true_eq]
  exact ⟨hlow, hup⟩

end

/-! ## The changes of status without an event -/

section
variable {c : Ctx broker}

/-- `transition_host` sets the status of the row, unless it is the one read. -/
theorem post_transitionHost {host : Host} {status : HostStatus} {reason : String} {Q : Bool → Ctx broker → Prop}
    (hsame : host.status = status → Q false c)
    (hset : host.status ≠ status → ∀ c' : Ctx broker, c'.db = c.db →
      c'.view.hosts = c.view.hosts.map (setStatus host.id status) →
      c'.view.reservations = c.view.reservations → Q true c') :
    (transitionHost host status reason).Post E c Q := by
  unfold transitionHost
  by_cases hst : host.status = status
  · rw [if_pos hst]
    exact post_pure (hsame hst)
  · rw [if_neg hst]
    refine Post.bind (post_query (D := broker) (s := .setHostStatus ..) (Post.bind ?_))
    refine post_spares (writeAudit_spares _) fun _ c' hdb hhosts hres => post_pure (hset hst c' hdb ?_ ?_)
    · rw [hhosts, view_after]
      exact hosts_setHostStatus c.view host.id status
    · exact hres.trans (reservations_after_calm (s := .setHostStatus ..) trivial)

end

/-! ### Instant use -/

section
variable {st : Store} {q : Seqs} {t : ℤ} {nonce : ℕ → String}

/-- **An instant reservation**: an idle host is in use, by a reservation that
    covers the instant. -/
theorem post_instantReservationEndpoint (user : User) (hostId : ℤ) :
    (instantReservationEndpoint cfg hashRaw user hostId).Post (Env.at t nonce) ⟨st, [], q, 0, 0⟩ fun _ c' =>
      ∃ host row, st.hosts.find? (·.id == hostId) = some host ∧ host.status = .idle ∧ row.hostId = hostId ∧
        row.status = .confirmed ∧ row.timeRange.covers t = true ∧
        c'.db.reservations = st.reservations ++ [row] ∧ c'.db.hosts = st.hosts.map (setStatus hostId .inUse) := by
  refine Post.bind (post_lift fun _ _ => Post.bind (Post.tryCatch ?_ ?_))
  swap
  · intro e c
    cases e <;> exact post_throw _
  refine (post_createInstantReservation user hostId).mono fun row c₁ hrow => ?_
  obtain ⟨⟨host, hfind, hidle⟩, hhost, hconf, hcov, hhosts, hres⟩ := hrow
  refine Post.bind (post_spares (issueConnectTokenResponse_spares _ _ _) fun _ c₂ _ hhosts₂ hres₂ => ?_)
  refine Post.bind ?_
  unfold markInUse
  refine Post.bind (post_query (D := broker) (s := .getHost _) ?_)
  rw [after_select rfl]
  simp only [Stmt.exec, hhosts₂, hhosts, hhost, hfind]
  refine Post.bind (post_now (Post.bind (post_transitionHost (fun hin => ?_) fun _ c₃ hdb hhosts₃ hres₃ => ?_)))
  · rw [hidle] at hin
    cases hin
  · refine post_pure (post_commit (post_pure ⟨host, row, rfl, hidle, hhost, hconf, hcov, ?_, ?_⟩))
    · exact hres₃.trans (hres₂.trans hres)
    · have hid : host.id = hostId := by simpa using List.find?_some hfind
      exact hhosts₃.trans (by rw [hid]; exact congrArg _ (hhosts₂.trans hhosts))

/-! ### Cancellations -/

/-- The host has a reservation in progress. -/
def Store.inProgress (st : Store) (hostId t : ℤ) : Bool :=
  st.reservations.any fun r => r.hostId == hostId && r.status == .confirmed && r.timeRange.covers t

theorem find?_inProgress (st : Store) (hostId t : ℤ) :
    (st.reservations.find? fun r => r.hostId == hostId && r.status == .confirmed && r.timeRange.covers t).isSome =
      st.inProgress hostId t := by
  rw [Bool.eq_iff_iff, List.find?_isSome, Store.inProgress, List.any_eq_true]

/-- The hosts after a cancellation for the host `id`, if its reservation is in
    progress iff `busy`. -/
def released (id : ℤ) (busy : Bool) (hosts : List Host) : List Host :=
  hosts.map fun h => if h.status = .inUse ∧ busy = false then setStatus id .idle h else h

/-- A write that only cancels reservations leaves the others confirmed. -/
theorem mem_of_confirmed {rows : List Reservation} {w : Write} {x : Reservation}
    (hx : x ∈ rows.map w.onReservation) (hconf : x.status = .confirmed) : x ∈ rows := by
  obtain ⟨y, hy, rfl⟩ := List.mem_map.1 hx
  rcases (w.onReservation_evolves y).status with hst | hst
  · cases w with
    | cancelReservations ids now =>
      simp only [Write.onReservation] at hconf ⊢
      split_ifs at hconf ⊢ with hmem
      exact hy
    | _ => exact hy
  · rw [hst] at hconf
    cases hconf

theorem post_cancelReservation {c : Ctx broker} (user : User) (id : ℤ) :
    (cancelReservation user id).Post E c fun r c' =>
      (∃ r₀, c.view.reservations.find? (fun x => x.id == id) = some r₀ ∧ r.hostId = r₀.hostId) ∧
        c'.view.hosts = c.view.hosts ∧
        ∀ x ∈ c'.view.reservations, x.status = .confirmed → x ∈ c.view.reservations := by
  refine Post.bind (Post.bind (post_query (D := broker) (s := .getReservation id) ?_))
  rw [after_select rfl]
  simp only [Stmt.exec]
  cases hfind : c.view.reservations.find? fun r => r.id == id with
  | none => exact post_throw _
  | some r₀ =>
    have hid : r₀.id = id := by simpa using List.find?_some hfind
    refine Post.bind (post_lift fun _ _ => post_pure ?_)
    by_cases hcan : r₀.status = .canceled
    · rw [if_pos hcan]
      exact post_pure ⟨⟨r₀, rfl, rfl⟩, rfl, fun x hx _ => hx⟩
    · rw [if_neg hcan]
      refine Post.bind (post_now (Post.bind (post_query (D := broker) (s := .cancelReservation ..) ?_)))
      have hview := view_after (c := { c with reads := c.reads + 1 }) E.began
        (.cancelReservation r₀.id (DateTime.utc (E.now c.reads)).instant)
      generalize ({ c with reads := c.reads + 1 } : Ctx broker).after E.began
        (.cancelReservation r₀.id (DateTime.utc (E.now c.reads)).instant) = c₁ at hview ⊢
      generalize hw : Write.cancelReservations (Stmt.hits Reservation.id (·.id == r₀.id) c.view.reservations
        c.view.reservations) (DateTime.utc (E.now c.reads)).instant = w
      replace hview : c₁.view = c.view.apply w := hview.trans (by rw [← hw]; rfl)
      have hhosts : c₁.view.hosts = c.view.hosts := by
        rw [hview, ← hw]
        exact List.map_id _
      have hres : c₁.view.reservations = c.view.reservations.map w.onReservation := by
        rw [hview, ← hw]
        exact List.append_nil _
      have hfind' : c₁.view.reservations.find? (fun r => r.id == r₀.id) = some (w.onReservation r₀) := by
        simp only [hres, List.find?_map, Function.comp_def, Write.onReservation_id, hid, hfind, Option.map_some]
      refine Post.bind (Post.bind (post_query (D := broker) (s := .getReservation _) ?_))
      rw [after_select rfl]
      simp only [Stmt.exec, hfind']
      refine post_pure (Post.bind (post_spares (writeAudit_spares _) fun _ c₂ _ hhosts₂ hres₂ => post_pure ?_))
      refine ⟨⟨r₀, rfl, (w.onReservation_evolves r₀).hostId⟩, hhosts₂.trans hhosts, ?_⟩
      rw [hres₂, hres]
      exact fun x => mem_of_confirmed

theorem find?_host_id {hosts : List Host} {id : ℤ} {host : Host}
    (hfind : hosts.find? (fun x => x.id == id) = some host) : host.id = id := by
  simpa using List.find?_some hfind

theorem find?_host_eq {hosts : List Host} (hnd : (hosts.map (·.id)).Nodup) {id : ℤ} {host h : Host}
    (hfind : hosts.find? (fun x => x.id == id) = some host) (hh : h ∈ hosts) (hid : h.id = id) : h = host :=
  List.inj_on_of_nodup_map hnd hh (List.mem_of_find?_eq_some hfind) (hid.trans (find?_host_id hfind).symm)

theorem setStatus_of_ne {id : ℤ} {status : HostStatus} {h : Host} (hid : h.id ≠ id) : setStatus id status h = h :=
  if_neg hid

/-- Nothing is released while a reservation is in progress, or nobody uses the host. -/
theorem released_eq_self {id : ℤ} {busy : Bool} {hosts : List Host}
    (hbusy : ∀ h ∈ hosts, h.id = id → h.status = .inUse → busy = true) : released id busy hosts = hosts := by
  refine (List.map_congr_left fun h hh => ?_).trans (List.map_id _)
  by_cases hcond : h.status = .inUse ∧ busy = false
  · rw [if_pos hcond]
    refine setStatus_of_ne fun hid => ?_
    rw [hbusy h hh hid hcond.1] at hcond
    cases hcond.2
  · exact if_neg hcond

/-- A host in use that has no reservation in progress is idle then. -/
theorem released_of_idle {id : ℤ} {hosts : List Host} (hin : ∀ h ∈ hosts, h.id = id → h.status = .inUse) :
    released id false hosts = hosts.map (setStatus id .idle) := by
  refine List.map_congr_left fun h hh => ?_
  by_cases hid : h.id = id
  · rw [if_pos ⟨hin h hh hid, rfl⟩]
  · rw [setStatus_of_ne hid, ite_self]

/-- Who is in use after that has a reservation in progress. -/
theorem busy_of_released {id : ℤ} {busy : Bool} {hosts : List Host} {h : Host}
    (hh : h ∈ released id busy hosts) (hid : h.id = id) (hin : h.status = .inUse) : busy = true := by
  obtain ⟨x, -, hx⟩ := List.mem_map.1 hh
  by_cases hcond : x.status = .inUse ∧ busy = false
  · rw [if_pos hcond] at hx
    have hxid : x.id = id := by rw [← hid, ← hx, setStatus_id]
    rw [← hx, setStatus, if_pos hxid] at hin
    cases hin
  · rw [if_neg hcond] at hx
    exact Bool.eq_true_of_not_eq_false fun hfalse => hcond ⟨hx ▸ hin, hfalse⟩

/-- A host in use is idle after the last reservation, others stay. -/
theorem post_releaseHost {c : Ctx broker} (hnd : (c.view.hosts.map (·.id)).Nodup) (r : Reservation) :
    (releaseHost r).Post (Env.at t nonce) c fun _ c' =>
      c'.view.hosts = released r.hostId (c.view.inProgress r.hostId t) c.view.hosts ∧
        c'.view.reservations = c.view.reservations := by
  unfold releaseHost
  refine Post.bind (post_query (D := broker) (s := .getHost _) ?_)
  rw [after_select rfl]
  simp only [Stmt.exec]
  cases hfind : c.view.hosts.find? fun h => h.id == r.hostId with
  | none =>
    refine post_pure ⟨(released_eq_self fun h hh hid => ?_).symm, rfl⟩
    exact absurd (beq_iff_eq.2 hid) (List.find?_eq_none.1 hfind h hh)
  | some host =>
    have hone : ∀ h ∈ c.view.hosts, h.id = r.hostId → h = host := fun h hh => find?_host_eq hnd hfind hh
    have hid := find?_host_id hfind
    dsimp only
    by_cases hin : host.status = .inUse
    · rw [if_pos hin]
      refine Post.bind (post_now (Post.bind (post_query (D := broker) (s := .activeReservation ..) ?_)))
      rw [after_select rfl]
      simp only [Stmt.exec, view_reads, DateTime.instant_utc, Env.now_at]
      have hbusy := find?_inProgress c.view host.id t
      cases hact : c.view.reservations.find? fun x => x.hostId == host.id && x.status == .confirmed &&
          x.timeRange.covers t with
      | some x =>
        rw [hact, hid] at hbusy
        exact post_pure ⟨(released_eq_self fun _ _ _ _ => hbusy.symm).symm, rfl⟩
      | none =>
        rw [hact, hid] at hbusy
        refine Post.bind (post_transitionHost (fun hidle => ?_) fun _ c' _ hhosts hres => post_pure ⟨?_, hres⟩)
        · rw [hin] at hidle
          cases hidle
        · rw [hhosts, ← hbusy, hid]
          exact (released_of_idle fun h hh hid' => hone h hh hid' ▸ hin).symm
    · rw [if_neg hin]
      refine post_pure ⟨(released_eq_self fun h hh hid hstatus => ?_).symm, rfl⟩
      rw [hone h hh hid] at hstatus
      exact absurd hstatus hin

/-- **A cancellation**: it confirms nothing, and releases the host. -/
theorem post_cancelReservationEndpoint (hnd : (st.hosts.map (·.id)).Nodup) (user : User) (id : ℤ) :
    (cancelReservationEndpoint user id).Post (Env.at t nonce) ⟨st, [], q, 0, 0⟩ fun _ c' =>
      ∃ r₀, st.reservations.find? (fun x => x.id == id) = some r₀ ∧
        (∀ x ∈ c'.db.reservations, x.status = .confirmed → x ∈ st.reservations) ∧
        c'.db.hosts = released r₀.hostId (c'.db.inProgress r₀.hostId t) st.hosts := by
  refine Post.bind (Post.tryCatch ?_ ?_)
  swap
  · intro e c
    cases e <;> exact post_throw _
  refine (post_cancelReservation user id).mono fun r c₁ hr => ?_
  obtain ⟨⟨r₀, hfind, hhost⟩, hhosts, hconf⟩ := hr
  refine Post.bind ((post_releaseHost (hhosts ▸ hnd) r).mono fun _ c₂ hrel => ?_)
  refine post_commit (post_pure ⟨r₀, hfind, ?_, ?_⟩)
  · exact fun x hx => hconf x (hrel.2 ▸ hx)
  · show c₂.view.hosts = released r₀.hostId (c₂.view.inProgress r₀.hostId t) st.hosts
    rw [hrel.1, hhosts, hhost, Store.inProgress, Store.inProgress, hrel.2]
    rfl

end

/-! ## The changes of status with an event -/

section
variable {c : Ctx classroom}

/-- The row after the changes. -/
def applyChanges (changes : List StatusChange) (h : Host) : Host :=
  changes.foldl (fun h change => setStatus change.hostId change.new h) h

theorem total_flushStatuses : ∀ (changes : List StatusChange) {c : Ctx broker}, (flushStatuses changes).Total E c
    fun _ c' => c'.db = c.db ∧ c'.view.hosts = c.view.hosts.map (applyChanges changes) ∧
      c'.view.reservations = c.view.reservations
  | [], c => total_pure ⟨rfl, (List.map_id _).symm, rfl⟩
  | change :: changes, c => by
    refine Total.bind (total_query (D := broker) (s := .setHostStatus ..) ?_)
    refine (total_flushStatuses changes).mono fun _ c' h => ⟨h.1, ?_, ?_⟩
    · rw [h.2.1, view_after]
      exact (congrArg _ (hosts_setHostStatus c.view change.hostId change.new)).trans List.map_map
    · exact h.2.2.trans (reservations_after_calm (s := .setHostStatus ..) trivial)

theorem flushAudits_spares : ∀ changes, (flushAudits changes).Uses Stmt.spares
  | [] => trivial
  | _ :: changes => (writeAudit_spares _).bind fun _ => flushAudits_spares changes

/-- Their actor is the system, so no user is looked up. -/
theorem run_flushAudits : ∀ changes (c : Ctx broker), ∃ c', (flushAudits changes).run E c = (.ok (), c')
  | [], c => ⟨c, rfl⟩
  | change :: changes, c => by
    have hactor : c.view.violatedByAudit change.audit = none := if_pos rfl
    rw [flushAudits, run_writeAudit hactor]
    exact run_flushAudits changes _

theorem flush_uses (changes : List StatusChange) : (flush changes).Uses fun _ => True := by
  refine Uses.bind ?_ fun _ => (flushAudits_spares changes).mono fun _ _ => trivial
  induction changes with
  | nil => trivial
  | cons change changes ih => exact (uses_query (D := broker) (s := .setHostStatus ..) trivial).bind fun _ => ih

/-- A flush updates the rows of its changes. -/
theorem total_flush {c : Ctx classroom} (changes : List StatusChange) {Q : Unit → Ctx classroom → Prop}
    (h : ∀ c' : Ctx classroom, c'.db = c.db → c'.view.1.hosts = c.view.1.hosts.map (applyChanges changes) →
      c'.view.1.reservations = c.view.1.reservations → c'.view.2 = c.view.2 → Q () c') :
    (service (flush changes)).Total E c Q := by
  refine Total.embed (flush_uses changes) (Total.bind ((total_flushStatuses changes).mono fun _ c₁ h₁ => ?_))
  obtain ⟨c₂, hrun⟩ := run_flushAudits (E := E) changes c₁
  refine Post.total (post_spares (flushAudits_spares changes) fun _ c' hdb hhosts hres => ?_) hrun
  have hview : (c.outer c').view = (c'.view, c.view.2) := Ctx.view_outer (hdb.trans h₁.1)
  refine h _ rfl ?_ ?_ ?_
  · rw [hview]
    exact hhosts.trans h₁.2.1
  · rw [hview]
    exact hres.trans h₁.2.2
  · rw [hview]

/-- What `transition_host` leaves to the flush. -/
def changeTo (status : HostStatus) (reason : String) (h : Host) : Option StatusChange :=
  if h.status = status then none else some ⟨h.id, h.status, status, reason⟩

theorem total_transitionAndPublish {c : Ctx classroom} {host : Host} {status : HostStatus} {reason : String}
    {now : DateTime} {Q : Option StatusChange → Ctx classroom → Prop}
    (h : ∀ c' : Ctx classroom, c'.db = c.db → c'.view = c.view → Q (changeTo status reason host) c') :
    (transitionAndPublish host status reason now).Total E c Q := by
  unfold transitionAndPublish
  unfold changeTo at h
  split_ifs at h ⊢ with hst
  · exact total_pure (h c rfl rfl)
  · refine Total.bind (total_query (D := classroom) (s := .inr (.publish _)) (total_pure (h _ rfl ?_)))
    rw [view_perform]
    rfl

theorem total_transitionStale (current : DateTime) : ∀ (rows : List Host) {c : Ctx classroom},
    (transitionStale current rows).Total E c fun changes c' =>
      changes = rows.filterMap (changeTo .offline "heartbeat_stale") ∧ c'.db = c.db ∧ c'.view = c.view
  | [], c => total_pure ⟨rfl, rfl, rfl⟩
  | host :: rows, c => by
    refine Total.bind (total_transitionAndPublish fun c₁ hdb hview => Total.bind ?_)
    refine (total_transitionStale current rows).mono fun changes c₂ h => total_pure ⟨?_, ?_, ?_⟩
    · rw [h.1, List.filterMap_cons]
      cases changeTo .offline "heartbeat_stale" host <;> rfl
    · exact h.2.1.trans hdb
    · exact h.2.2.trans hview

theorem applyChanges_of_new {status : HostStatus} : ∀ {changes : List StatusChange},
    (∀ change ∈ changes, change.new = status) → ∀ h : Host, applyChanges changes h =
      if changes.any (·.hostId == h.id) then { h with status := status } else h
  | [], _, h => rfl
  | change :: changes, hnew, h => by
    rw [List.forall_mem_cons] at hnew
    refine (applyChanges_of_new hnew.2 (setStatus change.hostId change.new h)).trans ?_
    rw [setStatus_id, hnew.1, List.any_cons, setStatus]
    by_cases hid : h.id = change.hostId
    · simp [hid]
    · simp [hid, Ne.symm hid]

theorem changeTo_eq_some {status : HostStatus} {reason : String} {h : Host} {change : StatusChange} :
    changeTo status reason h = some change ↔ h.status ≠ status ∧ ⟨h.id, h.status, status, reason⟩ = change := by
  unfold changeTo
  split_ifs with hst <;> simp [hst]

/-- The row after a tick. -/
def ticked (cutoff : ℤ) (h : Host) : Host :=
  if MoreStmt.stale cutoff h then { h with status := .offline } else h

theorem applyChanges_stale {hosts : List Host} (hnd : (hosts.map (·.id)).Nodup) {cutoff : ℤ} {h : Host}
    (hh : h ∈ hosts) : applyChanges ((hosts.filter (MoreStmt.stale cutoff)).filterMap
      (changeTo .offline "heartbeat_stale")) h = ticked cutoff h := by
  rw [@applyChanges_of_new .offline, ticked]
  · refine if_congr ?_ rfl rfl
    rw [List.any_eq_true]
    constructor
    · rintro ⟨change, hmem, hid⟩
      obtain ⟨x, hx, hchange⟩ := List.mem_filterMap.1 hmem
      obtain ⟨hxh, hstale⟩ := List.mem_filter.1 hx
      obtain ⟨-, rfl⟩ := changeTo_eq_some.1 hchange
      rwa [← List.inj_on_of_nodup_map hnd hxh hh (beq_iff_eq.1 hid)]
    · intro hstale
      have hst : h.status ≠ .offline := by
        simp only [MoreStmt.stale, Bool.and_eq_true, bne_iff_ne] at hstale
        exact hstale.1
      refine ⟨⟨h.id, h.status, .offline, "heartbeat_stale"⟩, List.mem_filterMap.2 ⟨h, ?_, ?_⟩, beq_self_eq_true _⟩
      · exact List.mem_filter.2 ⟨hh, hstale⟩
      · exact changeTo_eq_some.2 ⟨hst, rfl⟩
  · intro change hmem
    obtain ⟨x, -, hchange⟩ := List.mem_filterMap.1 hmem
    obtain ⟨-, rfl⟩ := changeTo_eq_some.1 hchange
    rfl

/-- **A tick**: every stale row is OFFLINE, and no other row changes. -/
theorem total_runOneTick {c : Ctx classroom} (hp : c.pend = []) (hnd : (c.db.1.hosts.map (·.id)).Nodup) :
    (runOneTick policy).Total E c fun _ c' =>
      c'.db.1.hosts = c.db.1.hosts.map (ticked (policy.cutoff (.utc (E.now c.reads))).instant) ∧
        c'.db.1.reservations = c.db.1.reservations := by
  have hv : c.view = c.db := by rw [Ctx.view, hp]; rfl
  refine Total.bind (total_serviceNow (Total.bind (total_query (D := classroom) (s := .inr (.staleHosts _)) ?_)))
  refine Total.bind ((total_transitionStale _ _).mono fun changes c₁ h₁ => ?_)
  obtain ⟨hchanges, hdb, hview⟩ := h₁
  have hview₁ : c₁.view = c.db := hview.trans ((view_perform _ _).trans hv)
  generalize hcut : (policy.cutoff (.utc (E.now c.reads))).instant = cutoff at *
  have hrows : changes = (c.db.1.hosts.filter (MoreStmt.stale cutoff)).filterMap
      (changeTo .offline "heartbeat_stale") := by
    refine hchanges.trans ?_
    show List.filterMap _ (List.filter (MoreStmt.stale cutoff) c.view.1.hosts) = _
    rw [hv]
  have hticked : c.db.1.hosts.map (applyChanges changes) = c.db.1.hosts.map (ticked cutoff) :=
    List.map_congr_left fun h hh => hrows ▸ applyChanges_stale hnd hh
  by_cases hnil : changes = []
  · rw [if_pos hnil]
    refine total_pure ⟨?_, congrArg (·.1.reservations) hdb⟩
    rw [← hticked, hnil]
    exact (congrArg (·.1.hosts) hdb).trans (List.map_id _).symm
  · rw [if_neg hnil]
    refine Total.bind (total_flush changes fun c₂ _ hhosts hres _ => total_commit (total_pure ⟨?_, ?_⟩))
    · rw [← hticked, ← hview₁]
      exact hhosts
    · rw [← hview₁]
      exact hres

/-! ### Heartbeats -/

/-- A part of a transaction that only reads. -/
theorem run_of_selects {α : Type} {p : Service α} (hp : p.Uses fun s : Stmt => s.selects = true) : ∀ c : Ctx broker,
    ∃ n m, (p.run E c).2 = { c with reads := n, draws := m } := by
  induction p with
  | ret a => exact fun c => ⟨_, _, rfl⟩
  | raise e => exact fun c => ⟨_, _, rfl⟩
  | now k ih => exact fun c => ih _ (hp _) { c with reads := c.reads + 1 }
  | draw k ih => exact fun c => ih _ (hp _) { c with draws := c.draws + 1 }
  | stmt s k ih =>
    intro c
    have h := ih (s.exec E.began c.aux c.view c.view).2.2 (hp.2 _) (c.after E.began s)
    rw [after_select hp.1] at h
    show ∃ n m, ((k _).run E (c.after E.began s)).2 = _
    rw [after_select hp.1]
    exact h
  | commit k => exact absurd hp id
  | rollback k => exact absurd hp id

theorem post_selects {α : Type} {p : Service α} (hp : p.Uses fun s : Stmt => s.selects = true) {c : Ctx classroom}
    {Q : α → Ctx classroom → Prop}
    (h : ∀ a n m, (p.run E c.inner).1 = .ok a → Q a { c with reads := n, draws := m }) :
    (service p).Post E c Q := by
  refine Post.embed hp fun a c' hrun => ?_
  obtain ⟨n, m, hc⟩ := run_of_selects (E := E) hp c.inner
  rw [hrun] at hc
  have hout : c.outer c' = { c with reads := n, draws := m } := by
    rw [show c' = _ from hc]
    simp [Ctx.outer, Ctx.within, Ctx.inner]
  rw [hout]
  exact h a n m (by rw [hrun])

theorem verifyAgentToken_selects (raw : String) :
    (verifyAgentToken hashRaw raw).Uses fun s : Stmt => s.selects = true := by
  unfold verifyAgentToken
  split_ifs
  · trivial
  · exact now_uses.bind fun _ => uses_query (D := broker) (s := .tokenByJti ..) rfl

theorem getAgentHost_selects (authorization : String) :
    (getAgentHost hashRaw authorization).Uses fun s : Stmt => s.selects = true := by
  refine (uses_lift _).bind fun _ => (verifyAgentToken_selects _).bind fun token => ?_
  cases token with
  | none => trivial
  | some token =>
    refine Uses.bind ?_ fun host => by cases host <;> trivial
    cases token.hostId with
    | none => trivial
    | some hostId => exact uses_query (D := broker) (s := .getHost _) rfl

theorem view_inputs {D : Db ℤ String} (c : Ctx D) (n m : ℕ) :
    Ctx.view { c with reads := n, draws := m } = c.view := rfl

/-- The host of the token is one of the table. -/
theorem post_getAgentHost {c : Ctx broker} (authorization : String) :
    (getAgentHost hashRaw authorization).Post E c fun host _ => host ∈ c.view.hosts := by
  refine Post.bind (post_lift fun raw _ => Post.bind fun token c₁ hrun => ?_)
  obtain ⟨n, m, hc⟩ := @run_of_selects E _ _ (@verifyAgentToken_selects hashRaw raw) c
  rw [hrun] at hc
  obtain rfl : c₁ = { c with reads := n, draws := m } := hc
  cases token with
  | none => exact post_throw _
  | some token =>
    cases hid : token.hostId with
    | none =>
      simp only [hid]
      exact Post.bind (post_pure (post_throw _))
    | some hostId =>
      simp only [hid]
      refine Post.bind (post_query (D := broker) (s := .getHost _) ?_)
      rw [after_select rfl]
      simp only [Stmt.exec, view_inputs]
      cases hfind : c.view.hosts.find? fun h => h.id == hostId with
      | none => exact post_throw _
      | some host => exact post_pure (List.mem_of_find?_eq_some hfind)

/-- The row after a heartbeat of the host `id`. -/
def heard (policy : HostSettings) (st : Store) (t : ℤ) (metrics : Metrics) (id : ℤ) (h : Host) : Host :=
  if h.id = id then { h with
    lastHeartbeatAt := some t
    status := evaluateHostStatus policy (.utc t) (some (.utc t)) (st.inProgress id t) metrics.sunshineRunning
      (some metrics.cpuPct) (some metrics.memPct) }
  else h

theorem applyChanges_changeTo (status : HostStatus) (reason : String) (host h : Host) :
    applyChanges (changeTo status reason host).toList h =
      if host.status = status then h else setStatus host.id status h := by
  unfold changeTo
  split_ifs <;> rfl

/-- **A heartbeat**: the row of its host is what the state machine says. -/
theorem post_heartbeatEndpoint {db : classroom.Store} {aux : classroom.Aux}
    (hnd : (db.1.hosts.map (·.id)).Nodup) (authorization : String) (metrics : Metrics) :
    (heartbeatEndpoint policy hashRaw authorization metrics).Post (Env.at t nonce) ⟨db, [], aux, 0, 0⟩
      fun _ c' => ∃ host, (serve (Env.at t nonce) (getAgentHost hashRaw authorization) db.1 aux.1).1 = .ok host ∧
        c'.db.1.hosts = db.1.hosts.map (heard policy db.1 t metrics host.id) ∧
        c'.db.1.reservations = db.1.reservations := by
  refine Post.bind (post_selects (getAgentHost_selects authorization) fun host n m hserve => ?_)
  have hmem : host ∈ db.1.hosts :=
    post_getAgentHost (c := ⟨db.1, [], aux.1, 0, 0⟩) authorization host _ (Prod.ext hserve rfl)
  refine Post.bind (post_serviceNow (Post.bind (post_query (D := classroom) (s := .inr (.heartbeat ..)) ?_)))
  have hview := @view_perform ⟨db, [], aux, n + 1, m⟩ t
    (.heartbeat host.id (DateTime.utc t).instant metrics)
  generalize hc₁ : Ctx.after (D := classroom) ⟨db, [], aux, n + 1, m⟩ t
    (.inr (.heartbeat host.id (DateTime.utc t).instant metrics)) = c₁ at hview
  have hhosts : c₁.view.1.hosts = db.1.hosts.map fun h =>
      if h.id = host.id then { h with lastHeartbeatAt := some t } else h := by
    rw [hview]
    refine (List.append_nil _).trans (List.map_congr_left fun h hh => ?_)
    simp only [MoreWrite.onHost, DateTime.instant_utc]
    exact if_congr (contains_hits_id hh) rfl rfl
  have hres : c₁.view.1.reservations = db.1.reservations := congrArg (·.1.reservations) hview
  show Post _ _ (Ctx.after (D := classroom) ⟨db, [], aux, n + 1, m⟩ t
    (.inr (.heartbeat host.id (DateTime.utc t).instant metrics))) _
  rw [hc₁]
  refine Post.bind (post_selects (uses_query (D := broker) (s := .activeReservation ..) rfl) fun found n' m' hfound => ?_)
  have hbusy : found.isSome = db.1.inProgress host.id t := by
    rw [← Except.ok.inj hfound, ← find?_inProgress, ← hres]
    simp only [Stmt.exec, Env.now_at, DateTime.instant_utc]
    rfl
  refine Post.bind (Total.post (total_transitionAndPublish fun c₂ _ hview₂ => ?_))
  refine Post.bind (Total.post (total_flush _ fun c₃ _ hhosts₃ hres₃ _ => ?_))
  refine post_commit (post_pure ⟨host, hserve, ?_, ?_⟩)
  · refine hhosts₃.trans ?_
    rw [hview₂, view_inputs, hhosts, List.map_map]
    refine List.map_congr_left fun h hh => ?_
    rw [Function.comp_apply, applyChanges_changeTo, hbusy, heard]
    by_cases hid : h.id = host.id
    · obtain rfl : h = host := List.inj_on_of_nodup_map hnd hh hmem hid
      simp only [if_true, setStatus, Env.now_at]
      split_ifs with hst
      · rw [← hst]
      · rfl
    · simp only [if_neg hid, setStatus_of_ne hid, ite_self]
  · exact hres₃.trans (by rw [hview₂, view_inputs, hres])

end

/-! ## Requests that fail -/

theorem instantErrors_spares (hostId : ℤ) (e : BrokerError) : (instantErrors hostId e).Uses Stmt.spares := by
  cases e <;> trivial

theorem instantReservationEndpoint_closes (user : User) (hostId : ℤ) :
    (instantReservationEndpoint cfg hashRaw user hostId).Closes :=
  (uses_lift (P := Stmt.spares) _).bind_closes fun _ =>
    ((createInstantReservation_sparesHosts user hostId).tryCatch fun e =>
      Within.of_spares (instantErrors_spares hostId e)).bind_closes fun _ =>
        (issueConnectTokenResponse_spares _ _ _).bind_closes fun _ =>
          (markInUse_uses _).bind_closes fun _ => ⟨_, rfl⟩

theorem cancelReservationEndpoint_closes (user : User) (id : ℤ) : (cancelReservationEndpoint user id).Closes :=
  ((cancelReservation_sparesHosts user id).tryCatch fun e =>
    Within.of_spares (notFoundAs404_spares e)).bind_closes fun _ =>
      (releaseHost_uses _).bind_closes fun _ => ⟨_, rfl⟩

theorem transitionAndPublish_uses (host : Host) (status : HostStatus) (reason : String) (now : DateTime) :
    (transitionAndPublish host status reason now).Uses fun _ => True := by
  unfold transitionAndPublish
  split_ifs
  · trivial
  · exact ⟨trivial, fun _ => trivial⟩

theorem heartbeatEndpoint_closes (authorization : String) (metrics : Metrics) :
    (heartbeatEndpoint policy hashRaw authorization metrics).Closes :=
  (Uses.embed (P := fun _ => True) ((getAgentHost_selects authorization).mono fun _ _ => trivial)).bind_closes fun _ =>
    (Uses.embed (P := fun _ => True) now_uses).bind_closes fun _ =>
      (uses_query (P := fun _ => True) (D := classroom) (s := .inr (.heartbeat ..)) trivial).bind_closes fun _ =>
        (Uses.embed (P := fun _ => True)
          (uses_query (D := broker) (s := .activeReservation ..) trivial)).bind_closes fun _ =>
            (transitionAndPublish_uses _ _ _ _).bind_closes fun _ =>
              (Uses.embed (P := fun _ => True) (flush_uses _)).bind_closes fun _ => ⟨_, rfl⟩

/-! ## Registrations -/

theorem host_exec (s : Stmt ⊕ MoreStmt) (b : ℤ) (q : classroom.Aux) (snap cur : classroom.Store) :
    q.2.host ≤ (classroom.exec s b q snap cur).1.2.host := by
  cases s with
  | inl s => exact le_rfl
  | inr s =>
    cases s with
    | insertHost h =>
      simp only [Extension.execStmt, MoreStmt.exec]
      split <;> simp
    | _ => exact le_rfl

/-- No id is drawn again. -/
theorem host_run {α : Type} (p : Program α) (c : Ctx classroom) : c.aux.2.host ≤ (p.run E c).2.aux.2.host :=
  run_aux (R := fun q q' : classroom.Aux => q.2.host ≤ q'.2.host) (fun _ => le_rfl) (fun _ _ _ => le_trans)
    host_exec p c

/-- Statements of the whole database that do not write hosts. -/
def SparesHosts : Stmt ⊕ MoreStmt → Prop
  | .inl s => s.sparesHosts
  | .inr (.heartbeat ..) | .inr (.insertHost _) => False
  | .inr _ => True

theorem hosts_sparesHosts {s : Stmt ⊕ MoreStmt} (hs : SparesHosts s) (b : ℤ) (q : classroom.Aux)
    (st : classroom.Store) : (classroom.applyAll st (classroom.exec s b q st st).2.1).1.hosts = st.1.hosts := by
  cases s with
  | inl s =>
    show (classroom.applyAll st ((s.exec b q.1 st.1 st.1).2.1.map .inl)).1.hosts = _
    rw [more.applyAll_inl]
    exact hosts_applyAll_spares (writes_sparesHosts hs b q.1 st.1 st.1) st.1
  | inr s =>
    cases s with
    | heartbeat | insertHost => exact absurd hs id
    | sessionUser | staleHosts | publish => rfl
    | revokeSession | revokeSessionsOf => exact List.map_id _
    | setActive => exact (List.append_nil _).trans (List.map_id _)

/-- A host is inserted, and what follows leaves the hosts alone. -/
theorem hosts_insertHost {α : Type} {payload : NewHost} {k : Option Host → Program α} (db : classroom.Store)
    (aux : classroom.Aux) (hnone : ∀ c, ((k none).run E c).2.db = c.db) (hsome : ∀ host, (k (some host)).Only SparesHosts) :
    let out := serve E (perform (.insertHost payload) >>= k) db aux
    out.2.1.1.hosts = db.1.hosts ∨
      out.2.1.1.hosts = db.1.hosts ++ [payload.row aux.2.host] ∧ aux.2.host < out.2.2.2.host := by
  have hrun : (perform (.insertHost payload) : Program (Option Host)).run E ⟨db, [], aux, 0, 0⟩ =
      (.ok (MoreStmt.exec (.insertHost payload) E.began aux db db).2.2,
        ⟨db, (MoreStmt.exec (.insertHost payload) E.began aux db db).2.1,
          (MoreStmt.exec (.insertHost payload) E.began aux db db).1, 0, 0⟩) := rfl
  simp only [serve]
  rw [run_bind, hrun]
  by_cases htaken : db.1.hosts.any fun x => x.hostname == payload.hostname
  · simp only [MoreStmt.exec, if_pos htaken]
    exact .inl (congrArg (·.1.hosts) (hnone _))
  · simp only [MoreStmt.exec, if_neg htaken]
    refine (((hsome _).run (I := fun st : classroom.Store => st.1.hosts = db.1.hosts ∨
      st.1.hosts = db.1.hosts ++ [payload.row aux.2.host]) (fun s b q st hs hst => ?_) ?_ ?_).2).imp id fun h => ⟨h, ?_⟩
    · rw [hosts_sparesHosts hs]
      exact hst
    · exact .inr (congrArg (· ++ _) (List.map_id _))
    · exact .inl rfl
    · exact lt_of_lt_of_le (Int.lt_succ _) (host_run _ _)

/-- **A registration** adds an OFFLINE host of a new id, or changes no host. -/
theorem hosts_createHostEndpoint (admin : User) (payload : NewHost) (db : classroom.Store) (aux : classroom.Aux) :
    let out := serve E (createHostEndpoint cfg hashRaw admin payload) db aux
    out.2.1.1.hosts = db.1.hosts ∨
      out.2.1.1.hosts = db.1.hosts ++ [payload.row aux.2.host] ∧ aux.2.host < out.2.2.2.host := by
  by_cases hrole : admin.role ≠ .admin
  · refine .inl ?_
    simp only [createHostEndpoint, serve, raiseIf, if_pos hrole]
    rfl
  · simp only [createHostEndpoint, raiseIf, if_neg hrole]
    refine @hosts_insertHost E _ payload _ db aux (fun _ => rfl) fun host => ?_
    refine Only.bind (Only.embed (X := more) (Only.of_spares (issueAgentToken_spares host admin))) fun issued => ?_
    refine Only.bind (p := service commit) trivial fun _ => ?_
    refine Only.bind (p := service (execute (.getHost _))) ⟨trivial, fun _ => trivial⟩ fun host => ?_
    cases host <;> trivial

end SmartClassroom
