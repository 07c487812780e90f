/-
  The shortcuts of `reservations.py` against the state machine.

  An instant reservation sets its host to IN_USE, and a cancellation a host in
  use to IDLE, without asking `evaluateHostStatus`; the next heartbeat does.
  `evaluated` is what it would say at once, on the last heartbeat:
  `instant_agrees_iff` and `cancel_agrees_iff` say when the two agree.
-/
import SmartClassroom.HostRuns

namespace SmartClassroom

open Txn Prog

/-- What the state machine says of a host on its last heartbeat and metrics and
    the stored reservations; what was never reported does not run. -/
def evaluated (policy : HostSettings) (db : classroom.Store) (t : ℤ) (h : Host) : HostStatus :=
  evaluateHostStatus policy (.utc t) (h.lastHeartbeatAt.map .utc) (db.1.inProgress h.id t)
    ((db.2.metrics h.id).any (·.sunshineRunning)) ((db.2.metrics h.id).map (·.cpuPct))
    ((db.2.metrics h.id).map (·.memPct))

/-- Sunshine ran at the last heartbeat. -/
def streams (db : classroom.Store) (id : ℤ) : Bool := (db.2.metrics id).any (·.sunshineRunning)

/-- The load was over a threshold at the last heartbeat. -/
def overloaded (policy : HostSettings) (db : classroom.Store) (id : ℤ) : Bool :=
  (db.2.metrics id).any fun m =>
    decide (policy.hostDegradedCpuPct ≤ m.cpuPct) || decide (policy.hostDegradedMemPct ≤ m.memPct)

/-- The last heartbeat is missing or too old. -/
def tooOld (policy : HostSettings) (t : ℤ) (h : Host) : Bool :=
  h.lastHeartbeatAt.all fun t₀ => decide (policy.hostOfflineAfterSeconds * secondUs < t - t₀)

section
variable {cfg : Settings} {policy : HostSettings} {hashRaw : String → String} {p : SitePoint} {t : ℤ}
  {nonce : ℕ → String} {h : Host}

/-- The state machine, by cases. -/
theorem evaluated_eq (policy : HostSettings) (db : classroom.Store) (t : ℤ) (h : Host) :
    evaluated policy db t h = if tooOld policy t h then .offline
      else if db.1.inProgress h.id t then (if streams db h.id then .inUse else .degraded)
      else if overloaded policy db h.id then .degraded else .idle := by
  unfold evaluated tooOld streams overloaded evaluateHostStatus
  cases h.lastHeartbeatAt with
  | none => rfl
  | some t₀ =>
    simp only [Option.map_some, Option.all_some, DateTime.sub_def, DateTime.instant_utc, decide_eq_true_eq]
    cases db.2.metrics h.id with
    | none => simp
    | some m => simp [ite_or]

/-- A new reservation in progress, of a host that is idle for the state machine. -/
theorem evaluated_inUse_iff {db db' : classroom.Store} (hst : .idle = evaluated policy db t h) (hcols : db'.2 = db.2)
    (hbusy : db'.1.inProgress h.id t = true) {h' : Host} (hid : h'.id = h.id)
    (hlast : h'.lastHeartbeatAt = h.lastHeartbeatAt) :
    .inUse = evaluated policy db' t h' ↔ streams db h.id = true := by
  rw [evaluated_eq, hid, hbusy, streams, hcols, ← streams, show tooOld policy t h' = tooOld policy t h by
    rw [tooOld, tooOld, hlast]]
  rw [evaluated_eq] at hst
  by_cases hold : tooOld policy t h = true
  · simp [hold] at hst
  · cases streams db h.id <;> simp [hold]

/-- **An instant reservation**: its host is IN_USE, as the state machine says iff
    Sunshine ran at the last heartbeat. -/
theorem instant_agrees_iff (hnd : (p.db.1.hosts.map (·.id)).Nodup) (hh : h ∈ p.db.1.hosts)
    (hst : h.status = evaluated policy p.db t h) {user : User} {r : SiteReply}
    (hr : (p.served cfg policy hashRaw ⟨t, nonce, .booking (.instant user h.id)⟩).1 = .ok r) :
    let db' := (p.served cfg policy hashRaw ⟨t, nonce, .booking (.instant user h.id)⟩).2.1
    ∃ h' ∈ db'.1.hosts, h'.id = h.id ∧ h'.status = .inUse ∧
      (h'.status = evaluated policy db' t h' ↔ streams p.db h.id = true) := by
  have hserved := @served_booking cfg policy hashRaw p ⟨t, nonce, .booking (.instant user h.id)⟩ _ rfl
  generalize p.served cfg policy hashRaw ⟨t, nonce, .booking (.instant user h.id)⟩ = out at hr hserved ⊢
  subst hserved
  obtain ⟨reply, hout⟩ := map_eq_ok hr
  obtain ⟨c', ⟨host, row, hfind, hidle, hid, hconf, hcov, hrows, hhosts⟩, hdb, -⟩ :=
    (post_instantReservationEndpoint user h.id).serve hout
  obtain rfl : h = host := find?_host_eq hnd hfind hh rfl
  have hset : setStatus h.id .inUse h = { h with status := .inUse } := if_pos rfl
  have hbusy : c'.db.inProgress h.id t = true := hid ▸ inProgress_append hrows hconf hcov
  simp only [handle]
  rw [← hdb]
  have hidle' : .idle = evaluated policy p.db t h := hidle ▸ hst
  have hagree : .inUse = evaluated policy (c'.db, p.db.2) t { h with status := .inUse } ↔
      streams p.db h.id = true :=
    @evaluated_inUse_iff policy t h p.db (c'.db, p.db.2) hidle' rfl hbusy { h with status := .inUse } rfl rfl
  refine ⟨{ h with status := .inUse }, ?_, rfl, rfl, hagree⟩
  rw [hhosts, ← hset]
  exact List.mem_map_of_mem hh

/-- The reservations in progress after a cancellation were in progress before. -/
theorem inProgress_mono {st st' : Store} (hconf : ∀ x ∈ st'.reservations, x.status = .confirmed → x ∈ st.reservations)
    {id t : ℤ} (hbusy : st'.inProgress id t = true) : st.inProgress id t = true := by
  simp only [Store.inProgress, List.any_eq_true, Bool.and_eq_true, beq_iff_eq] at hbusy ⊢
  obtain ⟨x, hx, ⟨hid, hst⟩, hcov⟩ := hbusy
  exact ⟨x, hconf x hx hst, ⟨hid, hst⟩, hcov⟩

/-- The host after a cancellation. -/
theorem released_agrees_iff {db db' : classroom.Store} (hst : h.status = evaluated policy db t h) (hcols : db'.2 = db.2)
    (hmono : db'.1.inProgress h.id t = true → db.1.inProgress h.id t = true) :
    let h' := if h.status = .inUse ∧ db'.1.inProgress h.id t = false then setStatus h.id .idle h else h
    h'.id = h.id ∧ (h'.status = evaluated policy db' t h' ↔
      tooOld policy t h = true ∨ db'.1.inProgress h.id t = db.1.inProgress h.id t ∨
        streams db h.id = !overloaded policy db h.id) := by
  intro h'
  have hid : h'.id = h.id := by
    unfold h'
    split_ifs <;> simp
  have hlast : h'.lastHeartbeatAt = h.lastHeartbeatAt := by
    unfold h'
    split_ifs <;> simp
  have hstatus : h'.status = if h.status = .inUse ∧ db'.1.inProgress h.id t = false then .idle else h.status := by
    unfold h'
    split_ifs
    · rw [setStatus, if_pos rfl]
    · rfl
  refine ⟨hid, ?_⟩
  have hold : tooOld policy t h' = tooOld policy t h := by rw [tooOld, tooOld, hlast]
  have hstreams : streams db' h'.id = streams db h.id := by rw [streams, streams, hcols, hid]
  have hload : overloaded policy db' h'.id = overloaded policy db h.id := by rw [overloaded, overloaded, hcols, hid]
  rw [evaluated_eq] at hst
  rw [hstatus, evaluated_eq, hold, hstreams, hload, hid, hst]
  generalize tooOld policy t h = old, db.1.inProgress h.id t = busy, db'.1.inProgress h.id t = busy',
    streams db h.id = runs, overloaded policy db h.id = load at hmono ⊢
  revert hmono
  revert old busy busy' runs load
  decide

/-- **A cancellation**: its host has the status that the state machine says, iff
    the heartbeat is too old, no reservation in progress has ended, or Sunshine
    ran or the load was over a threshold, but not both. -/
theorem cancel_agrees_iff (hnd : (p.db.1.hosts.map (·.id)).Nodup) (hh : h ∈ p.db.1.hosts)
    (hst : h.status = evaluated policy p.db t h) {user : User} {id : ℤ} {row : Reservation}
    (hrow : p.db.1.reservations.find? (fun x => x.id == id) = some row) (hhost : row.hostId = h.id) {r : SiteReply}
    (hr : (p.served cfg policy hashRaw ⟨t, nonce, .booking (.cancel user id)⟩).1 = .ok r) :
    let db' := (p.served cfg policy hashRaw ⟨t, nonce, .booking (.cancel user id)⟩).2.1
    ∃ h' ∈ db'.1.hosts, h'.id = h.id ∧ (h'.status = evaluated policy db' t h' ↔
      tooOld policy t h = true ∨ db'.1.inProgress h.id t = p.db.1.inProgress h.id t ∨
        streams p.db h.id = !overloaded policy p.db h.id) := by
  have hserved := @served_booking cfg policy hashRaw p ⟨t, nonce, .booking (.cancel user id)⟩ _ rfl
  generalize p.served cfg policy hashRaw ⟨t, nonce, .booking (.cancel user id)⟩ = out at hr hserved ⊢
  subst hserved
  obtain ⟨reply, hout⟩ := map_eq_ok hr
  obtain ⟨c', ⟨r₀, hfind, hconf, hhosts⟩, hdb, -⟩ := (post_cancelReservationEndpoint hnd user id).serve hout
  obtain rfl : row = r₀ := Option.some.inj (hrow.symm.trans hfind)
  simp only [handle]
  rw [← hdb]
  rw [hhost, released] at hhosts
  refine ⟨_, ?_, released_agrees_iff hst rfl (inProgress_mono hconf)⟩
  rw [hhosts]
  exact List.mem_map_of_mem hh

/-- **When the shortcuts agree with the state machine.** -/
theorem shortcuts_agree_iff (hnd : (p.db.1.hosts.map (·.id)).Nodup) (hh : h ∈ p.db.1.hosts)
    (hst : h.status = evaluated policy p.db t h) (user : User) :
    (∀ r, (p.served cfg policy hashRaw ⟨t, nonce, .booking (.instant user h.id)⟩).1 = .ok r →
      let db' := (p.served cfg policy hashRaw ⟨t, nonce, .booking (.instant user h.id)⟩).2.1
      ∃ h' ∈ db'.1.hosts, h'.id = h.id ∧ h'.status = .inUse ∧
        (h'.status = evaluated policy db' t h' ↔ streams p.db h.id = true)) ∧
    ∀ id row, p.db.1.reservations.find? (fun x => x.id == id) = some row → row.hostId = h.id →
      ∀ r, (p.served cfg policy hashRaw ⟨t, nonce, .booking (.cancel user id)⟩).1 = .ok r →
        let db' := (p.served cfg policy hashRaw ⟨t, nonce, .booking (.cancel user id)⟩).2.1
        ∃ h' ∈ db'.1.hosts, h'.id = h.id ∧ (h'.status = evaluated policy db' t h' ↔
          tooOld policy t h = true ∨ db'.1.inProgress h.id t = p.db.1.inProgress h.id t ∨
            streams p.db h.id = !overloaded policy p.db h.id) :=
  ⟨fun _ hr => instant_agrees_iff hnd hh hst hr, fun _ _ hrow hhost _ hr => cancel_agrees_iff hnd hh hst hrow hhost hr⟩

end

/-- The host 1 is idle, as its heartbeat of the same instant says; Sunshine does
    not run. -/
def quietLab : SitePoint :=
  ⟨[], ({ users := [⟨1, .user, "mock"⟩], hosts := [⟨1, "pc-01", "PC 1", none, none, 47984, .idle, some 0⟩] },
    ⟨fun _ => true, fun _ => some ⟨false, 10, 10⟩⟩), ({}, {})⟩

/-- A host of the lab with a reservation in progress, and Sunshine running under
    full load. -/
def busyLab : SitePoint :=
  ⟨[], ({ users := [⟨1, .user, "mock"⟩], hosts := [⟨1, "pc-01", "PC 1", none, none, 47984, .inUse, some 0⟩],
          reservations := [⟨1, 1, 1, ⟨0, hourUs, hourUs_nonneg⟩, .confirmed, 0, none⟩] },
    ⟨fun _ => true, fun _ => some ⟨true, 100, 10⟩⟩), ({}, {})⟩

/-- The requests of both, at the instant 0. -/
def useNow : SiteCall := ⟨0, fun _ => "raw", .booking (.instant ⟨1, .user, "mock"⟩ 1)⟩
def cancelNow : SiteCall := ⟨0, fun _ => "", .booking (.cancel ⟨1, .user, "mock"⟩ 1)⟩

/-- Both shortcuts leave a status that the state machine does not say. -/
theorem not_shortcuts_agree :
    ((quietLab.served {} {} id useNow).1.isOk ∧
      (∀ h ∈ quietLab.db.1.hosts, h.status = evaluated {} quietLab.db 0 h) ∧
      ∀ h ∈ (quietLab.served {} {} id useNow).2.1.1.hosts,
        h.status ≠ evaluated {} (quietLab.served {} {} id useNow).2.1 0 h) ∧
    (busyLab.served {} {} id cancelNow).1.isOk ∧
      (∀ h ∈ busyLab.db.1.hosts, h.status = evaluated {} busyLab.db 0 h) ∧
      ∀ h ∈ (busyLab.served {} {} id cancelNow).2.1.1.hosts,
        h.status ≠ evaluated {} (busyLab.served {} {} id cancelNow).2.1 0 h := by
  decide +kernel

/-- The instant reservation of a host on which Sunshine does not run, and the end of
    one on a host that streams under full load. -/
theorem shortcuts_agree_iff_quiet :
    (∃ h' ∈ (quietLab.served {} {} id useNow).2.1.1.hosts, h'.status = .inUse ∧
      evaluated {} (quietLab.served {} {} id useNow).2.1 0 h' ≠ .inUse) ∧
    ∃ h' ∈ (busyLab.served {} {} id cancelNow).2.1.1.hosts,
      h'.status ≠ evaluated {} (busyLab.served {} {} id cancelNow).2.1 0 h' := by
  have hok : (∃ r, (quietLab.served {} {} id useNow).1 = .ok r) ∧ ∃ r, (busyLab.served {} {} id cancelNow).1 = .ok r :=
    ⟨⟨_, rfl⟩, _, rfl⟩
  obtain ⟨⟨r, hr⟩, r', hr'⟩ := hok
  constructor
  · obtain ⟨h', hmem, -, hin, hiff⟩ := (@shortcuts_agree_iff {} {} id quietLab 0 (fun _ => "raw")
      ⟨1, "pc-01", "PC 1", none, none, 47984, .idle, some 0⟩ (by decide) (.head _) (by decide +kernel)
      ⟨1, .user, "mock"⟩).1 r hr
    refine ⟨h', hmem, hin, fun heval => ?_⟩
    rw [hin] at hiff
    exact absurd (hiff.1 heval.symm) (by decide)
  · obtain ⟨h', hmem, -, hiff⟩ := (@shortcuts_agree_iff {} {} id busyLab 0 (fun _ => "")
      ⟨1, "pc-01", "PC 1", none, none, 47984, .inUse, some 0⟩ (by decide) (.head _) (by decide +kernel)
      ⟨1, .user, "mock"⟩).2 1 ⟨1, 1, 1, ⟨0, hourUs, hourUs_nonneg⟩, .confirmed, 0, none⟩ rfl rfl r' hr'
    exact ⟨h', hmem, fun heval => absurd (hiff.1 heval) (by decide +kernel)⟩

end SmartClassroom
