/-
  Which hosts are OFFLINE, over serial runs.

  A run serves registrations, heartbeats, ticks and reservation requests one
  after another, each at one instant (`SitePoint.after`), and keeps the history
  of heartbeats and ticks.

  * `Lapsed`: the history says that a host has never been heard, or was found
    stale since.
  * `Watched`: the rows of `hosts` say the same; every call keeps it
    (`watched_next`).
  * `reach_after`: a run is one of the interleavings of the requests.
  * `offline_iff_lapsed`: after every run.
-/
import SmartClassroom.HostJobs

namespace SmartClassroom

open Txn Prog

/-! ## Histories -/

inductive SiteEvent where
  | beat (hostId t : ℤ)
  | tick (t : ℤ)
deriving DecidableEq

/-- The heartbeat of a host, if the event is one. -/
def SiteEvent.beatOf (id : ℤ) : SiteEvent → Option ℤ
  | beat id' t => if id' = id then some t else none
  | tick _ => none

/-- The last heartbeat of a host. -/
def lastBeat (history : List SiteEvent) (id : ℤ) : Option ℤ := history.findSome? (SiteEvent.beatOf id)

/-- The host has never been heard, or some tick since its last heartbeat found
    that heartbeat too old. -/
def Lapsed (policy : HostSettings) (history : List SiteEvent) (id : ℤ) : Prop :=
  (∀ t, .beat id t ∉ history) ∨ ∃ h₂ t h₁, history = h₂ ++ .beat id t :: h₁ ∧ (∀ t', .beat id t' ∉ h₂) ∧
    ∃ t', .tick t' ∈ h₂ ∧ policy.hostOfflineAfterSeconds * secondUs < t' - t

section
variable {policy : HostSettings} {history : List SiteEvent} {id t : ℤ}

theorem SiteEvent.beatOf_eq_some {e : SiteEvent} : e.beatOf id = some t ↔ e = beat id t := by
  cases e <;> simp [beatOf]

theorem lastBeat_eq_none : lastBeat history id = none ↔ ∀ t, .beat id t ∉ history := by
  rw [lastBeat, List.findSome?_eq_none_iff]
  simp only [Option.eq_none_iff_forall_ne_some, ne_eq, SiteEvent.beatOf_eq_some]
  exact ⟨fun h t ht => h _ ht t rfl, fun h e he t ht => h t (ht ▸ he)⟩

theorem lastBeat_eq_some : lastBeat history id = some t ↔
    ∃ h₂ h₁, history = h₂ ++ .beat id t :: h₁ ∧ ∀ t', .beat id t' ∉ h₂ := by
  rw [lastBeat, List.findSome?_eq_some_iff]
  simp only [SiteEvent.beatOf_eq_some, Option.eq_none_iff_forall_ne_some, ne_eq]
  constructor
  · rintro ⟨h₂, e, h₁, rfl, rfl, h⟩
    exact ⟨h₂, h₁, rfl, fun t' ht' => h _ ht' t' rfl⟩
  · rintro ⟨h₂, h₁, rfl, h⟩
    exact ⟨h₂, _, h₁, rfl, rfl, fun e he t' ht' => h t' (ht' ▸ he)⟩

/-- A heartbeat at once ends a lapse. -/
theorem not_lapsed_beat : ¬Lapsed policy (.beat id t :: history) id := by
  rintro (h | ⟨h₂, t₀, h₁, heq, hnone, t', ht', -⟩)
  · exact h t (.head _)
  · cases h₂ with
    | nil => cases ht'
    | cons e h₂ =>
      obtain ⟨rfl, -⟩ := List.cons.inj heq
      exact hnone t (.head _)

/-- An event of another host. -/
theorem lapsed_cons_of_ne {e : SiteEvent} (he : e.beatOf id = none) (htick : ∀ t, e ≠ .tick t) :
    Lapsed policy (e :: history) id ↔ Lapsed policy history id := by
  have hbeat : ∀ t, e ≠ .beat id t := fun t h => by simp [h, SiteEvent.beatOf] at he
  refine or_congr (by simp [Ne.symm (hbeat _)]) ?_
  constructor
  · rintro ⟨h₂, t, h₁, heq, hnone, t', ht', hlt⟩
    cases h₂ with
    | nil => exact absurd (List.cons.inj heq).1 (hbeat t)
    | cons e' h₂ =>
      obtain ⟨rfl, rfl⟩ := List.cons.inj heq
      refine ⟨h₂, t, h₁, rfl, fun t' h => hnone t' (.tail _ h), t', ?_, hlt⟩
      exact (List.mem_cons.1 ht').resolve_left fun h => htick t' h.symm
  · rintro ⟨h₂, t, h₁, rfl, hnone, t', ht', hlt⟩
    refine ⟨e :: h₂, t, h₁, rfl, fun t' h => ?_, t', .tail _ ht', hlt⟩
    exact (List.mem_cons.1 h).elim (fun h => hbeat t' h.symm) (hnone t')

/-- A tick finds the last heartbeat too old, or it does not. -/
theorem lapsed_tick : Lapsed policy (.tick t :: history) id ↔
    Lapsed policy history id ∨ ∃ t₀, lastBeat history id = some t₀ ∧
      policy.hostOfflineAfterSeconds * secondUs < t - t₀ := by
  constructor
  · rintro (h | ⟨h₂, t₀, h₁, heq, hnone, t', ht', hlt⟩)
    · exact .inl (.inl fun t h' => h t (.tail _ h'))
    · cases h₂ with
      | nil => cases ht'
      | cons e h₂ =>
        obtain ⟨rfl, rfl⟩ := List.cons.inj heq
        have hnone' : ∀ t', .beat id t' ∉ h₂ := fun t' h => hnone t' (.tail _ h)
        rcases List.mem_cons.1 ht' with h | h
        · obtain rfl := SiteEvent.tick.inj h
          exact .inr ⟨t₀, lastBeat_eq_some.2 ⟨h₂, h₁, rfl, hnone'⟩, hlt⟩
        · exact .inl (.inr ⟨h₂, t₀, h₁, rfl, hnone', t', h, hlt⟩)
  · rintro ((h | ⟨h₂, t₀, h₁, rfl, hnone, t', ht', hlt⟩) | ⟨t₀, hlast, hlt⟩)
    · exact .inl fun t ht => h t (by simpa using ht)
    · exact .inr ⟨.tick t :: h₂, t₀, h₁, rfl, fun t' h => hnone t' (by simpa using h), t', .tail _ ht', hlt⟩
    · obtain ⟨h₂, h₁, rfl, hnone⟩ := lastBeat_eq_some.1 hlast
      exact .inr ⟨.tick t :: h₂, t₀, h₁, rfl, fun t' h => hnone t' (by simpa using h), t, .head _, hlt⟩

end

/-! ## Runs -/

/-- A request or a tick, served at the instant `t`. -/
structure SiteCall where
  t : ℤ
  nonce : ℕ → String
  job : SiteJob

/-- A point of a run: what has happened, newest first, and the database. -/
structure SitePoint where
  history : List SiteEvent
  db : classroom.Store
  aux : classroom.Aux

section
variable (cfg : Settings) (policy : HostSettings) (hashRaw : String → String)

namespace SitePoint

/-- What serving the call gives. -/
def served (p : SitePoint) (c : SiteCall) : Except BrokerError SiteReply × classroom.Store × classroom.Aux :=
  serve (Env.at c.t c.nonce) (serveSite cfg policy hashRaw c.job) p.db p.aux

/-- The host that the header of a heartbeat authenticates. -/
def agentHost (p : SitePoint) (c : SiteCall) (authorization : String) : Except BrokerError Host :=
  (serve (Env.at c.t c.nonce) (getAgentHost hashRaw authorization) p.db.1 p.aux.1).1

/-- What the call adds to the history: a tick, or a successful heartbeat. -/
def events (p : SitePoint) (c : SiteCall) : List SiteEvent :=
  match c.job with
  | .tick => [.tick c.t]
  | .heartbeat authorization _ =>
    match (p.served cfg policy hashRaw c).1, p.agentHost hashRaw c authorization with
    | .ok _, .ok host => [.beat host.id c.t]
    | _, _ => []
  | _ => []

/-- After a call. -/
def next (p : SitePoint) (c : SiteCall) : SitePoint :=
  ⟨p.events cfg policy hashRaw c ++ p.history, (p.served cfg policy hashRaw c).2.1,
    (p.served cfg policy hashRaw c).2.2⟩

/-- After a run. -/
def after (p : SitePoint) (calls : List SiteCall) : SitePoint :=
  calls.foldl (next cfg policy hashRaw) p

/-- The call concerns the host: its heartbeat, an instant reservation of it, or
    the cancellation of a reservation of it. -/
def Concerns (p : SitePoint) (c : SiteCall) (hostId : ℤ) : Prop :=
  match c.job with
  | .heartbeat authorization _ => ∃ host, p.agentHost hashRaw c authorization = .ok host ∧ host.id = hostId
  | .booking (.instant _ id) => id = hostId
  | .booking (.cancel _ id) =>
    ∃ r, p.db.1.reservations.find? (fun x => x.id == id) = some r ∧ r.hostId = hostId
  | _ => False

/-- Before the first call: hosts that have never been heard. -/
structure Unheard (p : SitePoint) : Prop where
  history : p.history = []
  nodup : (p.db.1.hosts.map (·.id)).Nodup
  fresh : ∀ h ∈ p.db.1.hosts, h.id < p.aux.2.host
  status : ∀ h ∈ p.db.1.hosts, h.status = .offline ∧ h.lastHeartbeatAt = none

end SitePoint

end

/-! ## One call -/

section
variable {cfg : Settings} {policy : HostSettings} {hashRaw : String → String} {p : SitePoint}

/-- The same host, with another status on the same side of OFFLINE. -/
structure SameSide (h h' : Host) : Prop where
  id : h'.id = h.id
  lastHeartbeatAt : h'.lastHeartbeatAt = h.lastHeartbeatAt
  offline : h'.status = .offline ↔ h.status = .offline

theorem SameSide.refl (h : Host) : SameSide h h := ⟨rfl, rfl, Iff.rfl⟩

theorem sameSide_setStatus {id : ℤ} {status : HostStatus} {h : Host}
    (hst : h.id = id → (status = .offline ↔ h.status = .offline)) : SameSide h (setStatus id status h) := by
  refine ⟨setStatus_id _ _ _, setStatus_lastHeartbeatAt _ _ _, ?_⟩
  unfold setStatus
  split_ifs with hid
  · exact hst hid
  · rfl

theorem served_booking {c : SiteCall} {j : Job} (hj : c.job = .booking j) :
    let out := serve (Env.at c.t c.nonce) (handle cfg hashRaw j) p.db.1 p.aux.1
    p.served cfg policy hashRaw c = (out.1.map .booking, (out.2.1, p.db.2), (out.2.2, p.aux.2)) := by
  rw [SitePoint.served, hj, serveSite, serve_bind_pure, serve_embed (handle cfg hashRaw j) p.db.1 p.db.2 p.aux.1 p.aux.2]

/-- **No reservation request moves a host into or out of OFFLINE.** -/
theorem booking_sameSide (hnd : (p.db.1.hosts.map (·.id)).Nodup) {c : SiteCall} {j : Job} (hj : c.job = .booking j) :
    ∃ f : Host → Host, (p.served cfg policy hashRaw c).2.1.1.hosts = p.db.1.hosts.map f ∧
      ∀ h ∈ p.db.1.hosts, SameSide h (f h) := by
  have hserved : (p.served cfg policy hashRaw c).2.1.1.hosts =
      (serve (Env.at c.t c.nonce) (handle cfg hashRaw j) p.db.1 p.aux.1).2.1.hosts := by
    rw [served_booking hj]
  rw [hserved]
  have hkeep : ∀ {hosts : List Host}, hosts = p.db.1.hosts → ∃ f : Host → Host, hosts = p.db.1.hosts.map f ∧
      ∀ h ∈ p.db.1.hosts, SameSide h (f h) :=
    fun h => ⟨id, h.trans (List.map_id _).symm, fun h _ => .refl h⟩
  by_cases hset : j.setsHost
  · cases j with
    | instant user hostId =>
      have hclose := @instantReservationEndpoint_closes cfg hashRaw user hostId
      cases hout : (serve (Env.at c.t c.nonce) (instantReservationEndpoint cfg hashRaw user hostId) p.db.1 p.aux.1).1 with
      | error e => exact hkeep (congrArg Store.hosts (hclose.serve_error hout))
      | ok a =>
        obtain ⟨c', ⟨host, row, hfind, hidle, -, -, -, -, hhosts⟩, hdb, -⟩ :=
          (post_instantReservationEndpoint user hostId).serve hout
        refine ⟨setStatus hostId .inUse, (congrArg Store.hosts hdb).symm.trans hhosts, fun h hh => ?_⟩
        refine sameSide_setStatus fun hid => ?_
        rw [find?_host_eq hnd hfind hh hid, hidle]
        decide
    | cancel user id =>
      have hclose := cancelReservationEndpoint_closes user id
      cases hout : (serve (Env.at c.t c.nonce) (cancelReservationEndpoint user id) p.db.1 p.aux.1).1 with
      | error e => exact hkeep (congrArg Store.hosts (hclose.serve_error hout))
      | ok a =>
        obtain ⟨c', ⟨r₀, -, -, hhosts⟩, hdb, -⟩ := (post_cancelReservationEndpoint hnd user id).serve hout
        refine ⟨_, (congrArg Store.hosts hdb).symm.trans hhosts, fun h _ => ?_⟩
        split_ifs with hin
        · refine sameSide_setStatus fun _ => ?_
          rw [hin.1]
          decide
        · exact .refl h
    | _ => exact absurd hset id
  · refine hkeep (Only.serve (I := fun st : Store => st.hosts = p.db.1.hosts) (fun s b q st hs hst => ?_)
      (handle_sparesHosts hset) rfl)
    rw [hosts_applyAll_spares (writes_sparesHosts hs b q st st)]
    exact hst

/-! ## The invariant -/

/-- The rows of `hosts` are what the history says. -/
structure Watched (policy : HostSettings) (p : SitePoint) : Prop where
  nodup : (p.db.1.hosts.map (·.id)).Nodup
  fresh : ∀ h ∈ p.db.1.hosts, h.id < p.aux.2.host
  beats : ∀ id t, .beat id t ∈ p.history → id < p.aux.2.host
  lastHeartbeatAt : ∀ h ∈ p.db.1.hosts, h.lastHeartbeatAt = lastBeat p.history h.id
  offline : ∀ h ∈ p.db.1.hosts, h.status = .offline ↔ Lapsed policy p.history h.id

theorem SitePoint.Unheard.watched (hp : p.Unheard) : Watched policy p where
  nodup := hp.nodup
  fresh := hp.fresh
  beats := by simp [hp.history]
  lastHeartbeatAt h hh := by simp [hp.history, lastBeat, (hp.status h hh).2]
  offline h hh := by simp [hp.history, Lapsed, (hp.status h hh).1]

/-- Every row changes as the new events say. -/
theorem Watched.map (hp : Watched policy p) (events : List SiteEvent) {db : classroom.Store} {aux : classroom.Aux}
    {f : Host → Host} (hhosts : db.1.hosts = p.db.1.hosts.map f) (haux : p.aux.2.host ≤ aux.2.host)
    (hid : ∀ h, (f h).id = h.id) (hbeats : ∀ id t, .beat id t ∈ events → id < p.aux.2.host)
    (hlast : ∀ h ∈ p.db.1.hosts, (f h).lastHeartbeatAt = lastBeat (events ++ p.history) h.id)
    (hoff : ∀ h ∈ p.db.1.hosts, (f h).status = .offline ↔ Lapsed policy (events ++ p.history) h.id) :
    Watched policy ⟨events ++ p.history, db, aux⟩ where
  nodup := by
    rw [hhosts, List.map_map, show (Host.id ∘ f) = Host.id from funext hid]
    exact hp.nodup
  fresh h hh := by
    rw [hhosts] at hh
    obtain ⟨x, hx, rfl⟩ := List.mem_map.1 hh
    rw [hid]
    exact (hp.fresh x hx).trans_le haux
  beats id t ht := ((List.mem_append.1 ht).elim (hbeats id t) (hp.beats id t)).trans_le haux
  lastHeartbeatAt h hh := by
    rw [hhosts] at hh
    obtain ⟨x, hx, rfl⟩ := List.mem_map.1 hh
    rw [hid]
    exact hlast x hx
  offline h hh := by
    rw [hhosts] at hh
    obtain ⟨x, hx, rfl⟩ := List.mem_map.1 hh
    rw [hid]
    exact hoff x hx

/-- No event, and every host on its side of OFFLINE. -/
theorem Watched.sameSide (hp : Watched policy p) {db : classroom.Store} {aux : classroom.Aux} {f : Host → Host}
    (hhosts : db.1.hosts = p.db.1.hosts.map f) (haux : p.aux.2.host ≤ aux.2.host)
    (hf : ∀ h ∈ p.db.1.hosts, SameSide h (f h)) : Watched policy ⟨p.history, db, aux⟩ := by
  have hhosts' : db.1.hosts = p.db.1.hosts.map fun h => if h ∈ p.db.1.hosts then f h else h :=
    hhosts.trans (List.map_congr_left fun h hh => (if_pos hh).symm)
  refine hp.map [] hhosts' haux (fun h => ?_) (fun _ _ => nofun) (fun h hh => ?_) fun h hh => ?_
  · split_ifs with hh
    · exact (hf h hh).id
    · rfl
  · rw [if_pos hh]
    exact (hf h hh).lastHeartbeatAt.trans (hp.lastHeartbeatAt h hh)
  · rw [if_pos hh]
    exact (hf h hh).offline.trans (hp.offline h hh)

/-- A new host has never been heard. -/
theorem Watched.create (hp : Watched policy p) {db : classroom.Store} {aux : classroom.Aux} {payload : NewHost}
    (hhosts : db.1.hosts = p.db.1.hosts ++ [payload.row p.aux.2.host]) (haux : p.aux.2.host < aux.2.host) :
    Watched policy ⟨p.history, db, aux⟩ := by
  have hnone : ∀ t, .beat p.aux.2.host t ∉ p.history := fun t ht => (hp.beats _ t ht).false
  have hmem : ∀ {h}, h ∈ db.1.hosts → h ∈ p.db.1.hosts ∨ h = payload.row p.aux.2.host := by
    intro h hh
    rw [hhosts] at hh
    simpa using hh
  refine ⟨?_, fun h hh => ?_, fun id t ht => (hp.beats id t ht).trans haux, fun h hh => ?_, fun h hh => ?_⟩
  · rw [hhosts, List.map_append, List.nodup_append]
    refine ⟨hp.nodup, by simp, fun a ha b hb => ?_⟩
    obtain ⟨h, hh, rfl⟩ := List.mem_map.1 ha
    obtain rfl : b = p.aux.2.host := by simpa [NewHost.row] using hb
    exact (hp.fresh h hh).ne
  · rcases hmem hh with hh | rfl
    · exact (hp.fresh h hh).trans haux
    · exact haux
  · rcases hmem hh with hh | rfl
    · exact hp.lastHeartbeatAt h hh
    · exact (lastBeat_eq_none.2 hnone).symm
  · rcases hmem hh with hh | rfl
    · exact hp.offline h hh
    · exact iff_of_true rfl (.inl hnone)

/-! ### Heartbeats and ticks -/

theorem lastBeat_beat {id id' t : ℤ} {history : List SiteEvent} : lastBeat (.beat id t :: history) id' =
    if id' = id then some t else lastBeat history id' := by
  by_cases hid : id' = id
  · simp [lastBeat, SiteEvent.beatOf, hid]
  · simp [lastBeat, SiteEvent.beatOf, hid, Ne.symm hid]

/-- The evaluator says OFFLINE iff the cutoff of a tick would. -/
theorem evaluateHostStatus_eq_offline {t : ℤ} {last : Option ℤ} {busy sunshine : Bool} {cpu mem : Option ℚ} :
    evaluateHostStatus policy (.utc t) (last.map .utc) busy sunshine cpu mem = .offline ↔
      ∀ t₀ ∈ last, policy.hostOfflineAfterSeconds * secondUs < t - t₀ := by
  cases last with
  | none => simp [evaluateHostStatus]
  | some t₀ =>
    simp only [evaluateHostStatus, Option.map_some, DateTime.sub_def, DateTime.instant_utc, Option.mem_some_iff,
      forall_eq']
    by_cases hold : policy.hostOfflineAfterSeconds * secondUs < t - t₀
    · simp [hold]
    · simp only [hold, if_false, iff_false]
      split_ifs <;> simp

/-- It says IN_USE only of a host with a reservation. -/
theorem busy_of_evaluate {now : DateTime} {last : Option DateTime} {busy sunshine : Bool} {cpu mem : Option ℚ}
    (h : evaluateHostStatus policy now last busy sunshine cpu mem = .inUse) : busy = true := by
  cases busy with
  | true => rfl
  | false =>
    cases last with
    | none => cases h
    | some last =>
      simp only [evaluateHostStatus, Bool.false_eq_true, if_false] at h
      split_ifs at h

/-- The rows a tick looks for are those that the evaluator calls OFFLINE. -/
theorem stale_iff {t : ℤ} {h : Host} (hst : h.status ≠ .offline) {busy sunshine : Bool} {cpu mem : Option ℚ} :
    MoreStmt.stale (policy.cutoff (.utc t)).instant h = true ↔
      evaluateHostStatus policy (.utc t) (h.lastHeartbeatAt.map .utc) busy sunshine cpu mem = .offline := by
  rw [evaluateHostStatus_eq_offline, MoreStmt.stale, instant_cutoff]
  cases h.lastHeartbeatAt with
  | none => simp [hst]
  | some t₀ =>
    simp [hst]
    omega

/-- After a tick. -/
theorem Watched.tick (hp : Watched policy p) {db : classroom.Store} {aux : classroom.Aux} {t : ℤ}
    (hhosts : db.1.hosts = p.db.1.hosts.map (ticked (policy.cutoff (.utc t)).instant))
    (haux : p.aux.2.host ≤ aux.2.host) : Watched policy ⟨.tick t :: p.history, db, aux⟩ := by
  refine hp.map [.tick t] hhosts haux (fun h => ?_) (fun id t' ht => ?_) (fun h hh => ?_) fun h hh => ?_
  · unfold ticked
    split_ifs <;> rfl
  · simp at ht
  · refine Eq.trans ?_ (hp.lastHeartbeatAt h hh)
    unfold ticked
    split_ifs <;> rfl
  · rw [List.singleton_append, lapsed_tick, ← hp.offline h hh, ← hp.lastHeartbeatAt h hh, ticked]
    by_cases hst : h.status = .offline
    · rw [if_neg (by simp [MoreStmt.stale, hst])]
      exact iff_of_true hst (.inl hst)
    · obtain ⟨t₀, ht₀⟩ : ∃ t₀, h.lastHeartbeatAt = some t₀ := by
        refine Option.ne_none_iff_exists'.1 fun hnone => hst ((hp.offline h hh).2 (.inl ?_))
        rw [hp.lastHeartbeatAt h hh] at hnone
        exact lastBeat_eq_none.1 hnone
      have hstale := @stale_iff policy t h hst false false none none
      rw [evaluateHostStatus_eq_offline] at hstale
      split_ifs with hs
      · exact iff_of_true rfl (.inr ⟨t₀, ht₀, hstale.1 hs t₀ ht₀⟩)
      · refine iff_of_false hst (not_or.2 ⟨hst, ?_⟩)
        rintro ⟨t₁, ht₁, hlt⟩
        refine hs (hstale.2 fun t₂ ht₂ => ?_)
        rw [Option.mem_def, ht₁] at ht₂
        exact Option.some.inj ht₂ ▸ hlt

/-- After a heartbeat. -/
theorem Watched.beat (hsecs : 0 ≤ policy.hostOfflineAfterSeconds) (hp : Watched policy p) {db : classroom.Store}
    {aux : classroom.Aux} {t : ℤ} {metrics : Metrics} {host : Host} (hhost : host ∈ p.db.1.hosts)
    (hhosts : db.1.hosts = p.db.1.hosts.map (heard policy p.db.1 t metrics host.id))
    (haux : p.aux.2.host ≤ aux.2.host) : Watched policy ⟨.beat host.id t :: p.history, db, aux⟩ := by
  refine hp.map [.beat host.id t] hhosts haux (fun h => ?_) (fun id t' ht => ?_) (fun h hh => ?_)
    fun h hh => ?_
  · unfold heard
    split_ifs <;> rfl
  · obtain ⟨rfl, -⟩ : id = host.id ∧ t' = t := by simpa using ht
    exact hp.fresh host hhost
  · rw [List.singleton_append, lastBeat_beat, heard]
    split_ifs with hid
    · rfl
    · exact hp.lastHeartbeatAt h hh
  · rw [List.singleton_append, heard]
    split_ifs with hid
    · rw [hid]
      refine iff_of_false (fun hoff => ?_) not_lapsed_beat
      have hlt := (@evaluateHostStatus_eq_offline policy t (some t) _ _ _ _).1 hoff t rfl
      have hpos : (0 : ℤ) ≤ policy.hostOfflineAfterSeconds * secondUs := Int.mul_nonneg hsecs (by decide)
      omega
    · rw [hp.offline h hh]
      exact (lapsed_cons_of_ne (by simp [SiteEvent.beatOf, Ne.symm hid]) (by simp)).symm

/-! ## Runs -/

theorem mem_agentHost {c : SiteCall} {authorization : String} {host : Host}
    (hserve : p.agentHost hashRaw c authorization = .ok host) : host ∈ p.db.1.hosts :=
  post_getAgentHost (E := Env.at c.t c.nonce) (c := ⟨p.db.1, [], p.aux.1, 0, 0⟩) authorization host _
    (Prod.ext hserve rfl)

theorem served_heartbeat {c : SiteCall} {authorization : String} {metrics : Metrics}
    (hj : c.job = .heartbeat authorization metrics) : p.served cfg policy hashRaw c =
      ((serve (Env.at c.t c.nonce) (heartbeatEndpoint policy hashRaw authorization metrics) p.db p.aux).1.map
        .heartbeat, (serve (Env.at c.t c.nonce) (heartbeatEndpoint policy hashRaw authorization metrics)
          p.db p.aux).2) := by
  rw [SitePoint.served, hj, serveSite, serve_bind_pure]

/-- **Every call keeps the rows what the history says.** -/
theorem watched_next (hsecs : 0 ≤ policy.hostOfflineAfterSeconds) (hp : Watched policy p) (c : SiteCall) :
    Watched policy (p.next cfg policy hashRaw c) := by
  have haux : p.aux.2.host ≤ (p.served cfg policy hashRaw c).2.2.2.host := host_run _ _
  unfold SitePoint.next SitePoint.events
  cases hj : c.job with
  | booking j =>
    obtain ⟨f, hhosts, hf⟩ := @booking_sameSide cfg policy hashRaw p hp.nodup c j hj
    exact hp.sameSide hhosts haux hf
  | createHost admin payload =>
    have hserved : (p.served cfg policy hashRaw c).2 =
        (serve (Env.at c.t c.nonce) (createHostEndpoint cfg hashRaw admin payload) p.db p.aux).2 := by
      rw [SitePoint.served, hj, serveSite, serve_bind_pure]
    rcases @hosts_createHostEndpoint cfg hashRaw (Env.at c.t c.nonce) admin payload p.db
      p.aux with hhosts | ⟨hhosts, hnext⟩
    · rw [← hserved] at hhosts
      exact hp.sameSide (hhosts.trans (List.map_id _).symm) haux fun h _ => .refl h
    · rw [← hserved] at hhosts hnext
      exact hp.create hhosts hnext
  | heartbeat authorization metrics =>
    have hserved := @served_heartbeat cfg policy hashRaw p c authorization metrics hj
    cases hout : (serve (Env.at c.t c.nonce) (heartbeatEndpoint policy hashRaw authorization metrics) p.db p.aux).1 with
    | error e =>
      have hdb := (heartbeatEndpoint_closes authorization metrics).serve_error hout
      rw [hserved, hout]
      rw [hserved] at haux
      exact hp.sameSide ((congrArg (·.1.hosts) hdb).trans (List.map_id _).symm) haux fun h _ => .refl h
    | ok r =>
      obtain ⟨c', ⟨host, hserve, hhosts, -⟩, hdb, -⟩ :=
        (post_heartbeatEndpoint hp.nodup authorization metrics).serve hout
      have hagent : p.agentHost hashRaw c authorization = .ok host := hserve
      rw [hserved, hout]
      rw [hserved] at haux
      simp only [hagent]
      have hmap : (serve (Env.at c.t c.nonce) (heartbeatEndpoint policy hashRaw authorization metrics) p.db
          p.aux).2.1.1.hosts = p.db.1.hosts.map (heard policy p.db.1 c.t metrics host.id) := hdb ▸ hhosts
      exact hp.beat hsecs (mem_agentHost hagent) hmap haux
  | tick =>
    have hserved : (p.served cfg policy hashRaw c).2 =
        (serve (Env.at c.t c.nonce) (runOneTick policy) p.db p.aux).2 := by
      rw [SitePoint.served, hj, serveSite, serve_bind_pure]
    obtain ⟨n, c', hrun, hhosts, -⟩ := @total_runOneTick policy (Env.at c.t c.nonce)
      ⟨p.db, [], p.aux, 0, 0⟩ rfl hp.nodup
    have hdb : (serve (Env.at c.t c.nonce) (runOneTick policy) p.db p.aux).2.1 = c'.db := by
      rw [serve, hrun]
    refine hp.tick ?_ haux
    rw [hserved, hdb]
    exact hhosts

theorem watched_after (hsecs : 0 ≤ policy.hostOfflineAfterSeconds) : ∀ (calls : List SiteCall) {p : SitePoint},
    Watched policy p → Watched policy (p.after cfg policy hashRaw calls)
  | [], _, hp => hp
  | c :: calls, _, hp => watched_after hsecs calls (watched_next hsecs hp c)

/-- **A run is one of the interleavings**, where time does not go back from one
    call to the next. -/
theorem reach_after : ∀ (calls : List SiteCall) (p : SitePoint) {s : SiteSystem},
    (∀ r ∈ s.reqs, r.ended = true) → s.db = p.db → s.aux = p.aux →
    (s.clock :: calls.map (·.t)).Pairwise (· ≤ ·) →
    ∃ s', Reach (site cfg policy hashRaw) Serial s s' ∧
      s'.db = (p.after cfg policy hashRaw calls).db ∧ s'.aux = (p.after cfg policy hashRaw calls).aux
  | [], _, s, _, hdb, haux, _ => ⟨s, .refl, hdb, haux⟩
  | c :: calls, p, s, hended, hdb, haux, htimes => by
    obtain ⟨hle, htimes⟩ := List.pairwise_cons.1 htimes
    obtain ⟨r, hreach, -, hprog⟩ := serve_reach (V := site cfg policy hashRaw) hended
      (hle c.t (.head _)) c.nonce c.job
    rw [hdb, haux] at hreach hprog
    have hr : r.ended = true := by
      rw [Req.ended, hprog]
      cases (serve (Env.at c.t c.nonce) ((site cfg policy hashRaw).prog c.job) p.db p.aux).1 <;> rfl
    obtain ⟨s', hreach', hdb', haux'⟩ := reach_after calls (p.next cfg policy hashRaw c)
      (s := ⟨_, _, c.t, s.reqs ++ [r]⟩)
      (fun q hq => (List.mem_append.1 hq).elim (hended q) fun hq => List.mem_singleton.1 hq ▸ hr)
      rfl rfl htimes
    exact ⟨s', hreach.trans hreach', hdb', haux'⟩

theorem map_eq_ok {α β : Type} {x : Except BrokerError α} {f : α → β} {b : β} (h : x.map f = .ok b) :
    ∃ a, x = .ok a := by
  cases x with
  | error e => cases h
  | ok a => exact ⟨a, rfl⟩

theorem inProgress_append {st : Store} {rows : List Reservation} {row : Reservation} {t : ℤ}
    (hrows : st.reservations = rows ++ [row]) (hconf : row.status = .confirmed) (hcov : row.timeRange.covers t = true) :
    st.inProgress row.hostId t = true := by
  rw [Store.inProgress, hrows, List.any_append]
  simp [hconf, hcov]

/-- **After a call that concerns a host**, it is in use by a reservation only. -/
theorem inProgress_of_inUse (hnd : (p.db.1.hosts.map (·.id)).Nodup) {c : SiteCall} {r : SiteReply}
    (hr : (p.served cfg policy hashRaw c).1 = .ok r) {h : Host} (hh : h ∈ (p.served cfg policy hashRaw c).2.1.1.hosts)
    (hc : p.Concerns hashRaw c h.id) (hin : h.status = .inUse) :
    (p.served cfg policy hashRaw c).2.1.1.inProgress h.id c.t = true := by
  unfold SitePoint.Concerns at hc
  cases hj : c.job with
  | booking j =>
    rw [served_booking hj] at hr hh ⊢
    obtain ⟨reply, hout⟩ := map_eq_ok hr
    cases j with
    | instant user hostId =>
      obtain rfl : hostId = h.id := by simpa [hj] using hc
      obtain ⟨c', ⟨host, row, -, -, hid, hconf, hcov, hrows, -⟩, hdb, -⟩ :=
        (post_instantReservationEndpoint user h.id).serve hout
      change (serve _ (instantReservationEndpoint cfg hashRaw user h.id) p.db.1 p.aux.1).2.1.inProgress _ _ = _
      rw [← hdb, ← hid]
      exact inProgress_append hrows hconf hcov
    | cancel user id =>
      obtain ⟨r, hfind, hid⟩ : ∃ r, p.db.1.reservations.find? (fun x => x.id == id) = some r ∧ r.hostId = h.id := by
        simpa [hj] using hc
      obtain ⟨c', ⟨r₀, hfind₀, -, hhosts⟩, hdb, -⟩ := (post_cancelReservationEndpoint hnd user id).serve hout
      obtain rfl : r = r₀ := Option.some.inj (hfind.symm.trans hfind₀)
      change h ∈ (serve _ (cancelReservationEndpoint user id) p.db.1 p.aux.1).2.1.hosts at hh
      change (serve _ (cancelReservationEndpoint user id) p.db.1 p.aux.1).2.1.inProgress _ _ = _
      rw [← hdb] at hh ⊢
      rw [hhosts, hid] at hh
      exact busy_of_released hh rfl hin
    | _ => simp [hj] at hc
  | heartbeat authorization metrics =>
    rw [served_heartbeat hj] at hr hh ⊢
    obtain ⟨reply, hout⟩ := map_eq_ok hr
    obtain ⟨c', ⟨host, hserve, hhosts, hres⟩, hdb, -⟩ :=
      (post_heartbeatEndpoint hnd authorization metrics).serve hout
    obtain ⟨host', hserve', hid⟩ : ∃ host, p.agentHost hashRaw c authorization = .ok host ∧ host.id = h.id := by
      simpa [hj] using hc
    obtain rfl : host = host' := Except.ok.inj (hserve.symm.trans hserve')
    rw [← hdb] at hh ⊢
    rw [hhosts] at hh
    obtain ⟨x, -, rfl⟩ := List.mem_map.1 hh
    rw [Store.inProgress, hres]
    have hxid : x.id = host.id := by
      rw [hid, heard]
      split_ifs <;> rfl
    rw [← hid]
    simp only [heard, if_pos hxid] at hin
    exact busy_of_evaluate hin
  | _ => simp [hj] at hc

/-- **Which hosts are OFFLINE, over every run**, and which are IN_USE right
    after a call that concerns them. -/
theorem offline_iff_lapsed (hsecs : 0 ≤ policy.hostOfflineAfterSeconds) (hp : p.Unheard) (calls : List SiteCall) :
    let q := p.after cfg policy hashRaw calls
    (∀ h ∈ q.db.1.hosts, h.status = .offline ↔ Lapsed policy q.history h.id) ∧
    (∀ h ∈ q.db.1.hosts, h.status ≠ .offline → ∀ t busy sunshine cpu mem,
      MoreStmt.stale (policy.cutoff (.utc t)).instant h = true ↔
        evaluateHostStatus policy (.utc t) (h.lastHeartbeatAt.map .utc) busy sunshine cpu mem = .offline) ∧
    (∀ c j, c.job = .booking j → ∀ h ∈ q.db.1.hosts, ∀ h' ∈ (q.next cfg policy hashRaw c).db.1.hosts, h'.id = h.id →
      (h'.status = .offline ↔ h.status = .offline)) ∧
    ∀ c r, (q.served cfg policy hashRaw c).1 = .ok r → ∀ h ∈ (q.next cfg policy hashRaw c).db.1.hosts,
      q.Concerns hashRaw c h.id → h.status = .inUse →
        (q.next cfg policy hashRaw c).db.1.inProgress h.id c.t = true := by
  intro q
  have hq : Watched policy q := watched_after hsecs calls hp.watched
  refine ⟨hq.offline, fun h _ hst t busy sunshine cpu mem => stale_iff hst, fun c j hj h hh h' hh' hid => ?_, ?_⟩
  · obtain ⟨f, hhosts, hf⟩ := @booking_sameSide cfg policy hashRaw q hq.nodup c j hj
    rw [SitePoint.next, hhosts] at hh'
    obtain ⟨x, hx, rfl⟩ := List.mem_map.1 hh'
    obtain rfl : x = h := List.inj_on_of_nodup_map hq.nodup hx hh ((hf x hx).id.symm.trans hid)
    exact (hf x hx).offline
  · intro c r hr h hh
    exact inProgress_of_inUse hq.nodup hr hh

end

/-- A registration and a heartbeat; the next tick comes after 200 s. -/
def silentRun : List SiteCall := [
  ⟨0, fun _ => "agent", .createHost ⟨1, .admin, "mock"⟩ ⟨"pc-101", "PC 101", none, none, 47989⟩⟩,
  ⟨0, fun _ => "", .heartbeat "Bearer agent" ⟨true, 10, 10⟩⟩,
  ⟨200 * secondUs, fun _ => "", .tick⟩]

/-- A room without hosts. -/
def emptyRoom : SitePoint :=
  ⟨[], ({ users := [⟨1, .admin, "mock"⟩] }, ⟨fun _ => true, fun _ => none⟩), ({}, {})⟩

/-- The host is used at once after its heartbeat. -/
def usedRun : List SiteCall := silentRun.take 2 ++
  [⟨0, fun _ => "raw", .booking (.instant ⟨1, .admin, "mock"⟩ 1)⟩]

/-- Its next heartbeat. -/
def beatInUse : SiteCall := ⟨secondUs, fun _ => "", .heartbeat "Bearer agent" ⟨true, 10, 10⟩⟩

/-- The host is found stale by the tick, and not before; where a heartbeat says that
    it is in use, a reservation is in progress. -/
theorem offline_iff_lapsed_silent : Lapsed {} (emptyRoom.after {} {} id silentRun).history 1 ∧
    ¬Lapsed {} (emptyRoom.after {} {} id (silentRun.take 2)).history 1 ∧
    ((emptyRoom.after {} {} id usedRun).next {} {} id beatInUse).db.1.inProgress 1 secondUs = true := by
  have hroom : emptyRoom.Unheard := ⟨rfl, .nil, List.forall_mem_nil _, List.forall_mem_nil _⟩
  have hall := fun calls => @offline_iff_lapsed {} {} id emptyRoom (by decide) hroom calls
  have hlate : (⟨1, "pc-101", "PC 101", none, none, 47989, .offline, some 0⟩ : Host) ∈
      (emptyRoom.after {} {} id silentRun).db.1.hosts := .head []
  have hheard : (⟨1, "pc-101", "PC 101", none, none, 47989, .idle, some 0⟩ : Host) ∈
      (emptyRoom.after {} {} id (silentRun.take 2)).db.1.hosts := .head []
  have hused : (⟨1, "pc-101", "PC 101", none, none, 47989, .inUse, some secondUs⟩ : Host) ∈
      ((emptyRoom.after {} {} id usedRun).next {} {} id beatInUse).db.1.hosts := .head []
  refine ⟨((hall silentRun).1 _ hlate).1 rfl, fun h => ?_, ?_⟩
  · cases ((hall (silentRun.take 2)).1 _ hheard).2 h
  · exact (hall usedRun).2.2.2 beatInUse _ rfl _ hused ⟨_, rfl, rfl⟩ rfl

end SmartClassroom
