/-
  Ticks against heartbeats.

  A tick finds the stale hosts with one statement, and sets them OFFLINE later by
  their primary keys alone: it does not see a heartbeat that commits in between
  (`offline_after_heartbeat`).  In every interleaving where a heartbeat commits
  for a host that an unfinished tick has found only if it is stale for this tick
  too (`InTime`), ticks set no other hosts OFFLINE than stale ones
  (`offlinesStale_of_reach`).
-/
import SmartClassroom.HostCommits

namespace SmartClassroom

open Txn Prog

/-! ## What a tick has found -/

/-- The rows that the statement finds stale, with the cutoff. -/
def foundBy (snap : classroom.Store) : Stmt ⊕ MoreStmt → List (ℤ × Host)
  | .inr (.staleHosts cutoff) => (snap.1.hosts.filter (MoreStmt.stale cutoff)).map (cutoff, ·)
  | _ => []

def foundIn : Ev classroom → List (ℤ × Host)
  | .stmt s _ _ snap _ => foundBy snap s
  | _ => []

/-- What the request has found stale, or is about to. -/
def foundOf (q : SiteReq) : List (ℤ × Host) :=
  (match q.prog, q.running with
    | .stmt s _, some snap => foundBy snap s
    | _, _ => []) ++ q.log.flatMap foundIn

theorem foundOf_of_idle {q : SiteReq} (hq : q.running = none) : foundOf q = q.log.flatMap foundIn := by
  rw [foundOf, hq]
  cases q.prog <;> rfl

theorem mem_foundBy {snap : classroom.Store} {s : Stmt ⊕ MoreStmt} {f : ℤ × Host} (hf : f ∈ foundBy snap s) :
    f.2 ∈ snap.1.hosts ∧ MoreStmt.stale f.1 f.2 = true := by
  cases s with
  | inl s => exact absurd hf List.not_mem_nil
  | inr s =>
    cases s with
    | staleHosts cutoff =>
      obtain ⟨x, hx, rfl⟩ := List.mem_map.1 hf
      exact List.mem_filter.1 hx
    | _ => exact absurd hf List.not_mem_nil

/-- A step finds nothing, or rows of the committed store. -/
theorem foundOf_move {lost : BrokerError} {s : SiteSystem} {i : ℕ} {q q' : SiteReq} {db' aux'}
    (hrun : q.running.isSome → ∃ st k, q.prog = .stmt st k) (h : Move lost s i q q' db' aux') {f : ℤ × Host}
    (hf : f ∈ foundOf q') :
    f ∈ foundOf q ∨ db' = s.db ∧ f.2 ∈ s.db.1.hosts ∧ MoreStmt.stale f.1 f.2 = true := by
  rcases h.idle hrun with hidle | ⟨st, k, hp, hr, rfl, rfl⟩
  · rw [foundOf_of_idle hidle] at hf
    refine .inl ?_
    cases h with
    | finish hp hr hb =>
      rw [foundOf, hp, hr]
      exact hf
    | _ => exact List.mem_append_right _ hf
  · rw [foundOf_of_idle hr]
    rw [foundOf, Req.started, hp] at hf
    exact (List.mem_append.1 hf).elim (fun hf => .inr ⟨rfl, mem_foundBy hf⟩) .inl

/-! ## What a tick commits -/

/-- The heartbeat that the write sets for the host. -/
def beatFor (id : ℤ) : Write ⊕ MoreWrite → Option ℤ
  | .inr (.heartbeat ids t _) => if ids.contains id then some t else none
  | _ => none

/-- The hosts that the write sets OFFLINE. -/
def offlines : Write ⊕ MoreWrite → List ℤ
  | .inl (.setHostStatus ids .offline) => ids
  | _ => []

/-- The readings of the clock. -/
def readings (h : SiteHistory) : List ℤ := h.filterMap fun
  | .now t => some t
  | _ => none

def SiteJob.isTick : SiteJob → Bool
  | .tick => true
  | _ => false

def committing (q : SiteReq) : Bool :=
  match q.prog with
  | .commit _ => true
  | _ => false

/-- A tick that commits next sets no host OFFLINE but one whose committed
    heartbeat is older than `hostOfflineAfterSeconds` at the reading of the tick. -/
def OfflinesStale (policy : HostSettings) (s : SiteSystem) : Prop :=
  ∀ q ∈ s.reqs, q.job.isTick = true → committing q = true → ∀ t ∈ readings q.log, ∀ w ∈ pendOf q.log,
    ∀ h ∈ s.db.1.hosts, h.id ∈ offlines w → ∀ last ∈ h.lastHeartbeatAt,
      policy.hostOfflineAfterSeconds * secondUs < t - last

instance (policy : HostSettings) (s : SiteSystem) : Decidable (OfflinesStale policy s) :=
  inferInstanceAs (Decidable (∀ q ∈ s.reqs, q.job.isTick = true → committing q = true → ∀ t ∈ readings q.log,
    ∀ w ∈ pendOf q.log, ∀ h ∈ s.db.1.hosts, h.id ∈ offlines w → ∀ last ∈ h.lastHeartbeatAt,
      policy.hostOfflineAfterSeconds * secondUs < t - last))

/-- A heartbeat commits for a host that an unfinished tick has found only if it
    is older than the cutoff of this tick. -/
def InTime : SiteSystem → Label SiteJob ℤ String → Prop
  | s, .act i .commit => ∀ q ∈ s.reqs[i]?, ∀ w ∈ pendOf q.log, ∀ p ∈ s.reqs, p.ended = false →
    ∀ f ∈ foundOf p, ∀ t ∈ beatFor f.2.id w, t < f.1
  | _, _ => True

instance (s : SiteSystem) : ∀ l, Decidable (InTime s l)
  | .act i .commit => inferInstanceAs (Decidable (∀ q ∈ s.reqs[i]?, ∀ w ∈ pendOf q.log, ∀ p ∈ s.reqs,
    p.ended = false → ∀ f ∈ foundOf p, ∀ t ∈ beatFor f.2.id w, t < f.1))
  | .act _ .start | .act _ .finish | .act _ .now | .act _ (.draw _) | .act _ .rollback | .act _ .fail
  | .arrive _ | .tick _ => isTrue trivial

/-- Heartbeats and ticks only, and `InTime`. -/
def Unraced (s : SiteSystem) (l : Label SiteJob ℤ String) : Prop := Arrivals SiteJob.Watches s l ∧ InTime s l

instance (s : SiteSystem) (l : Label SiteJob ℤ String) : Decidable (Unraced s l) :=
  inferInstanceAs (Decidable (_ ∧ _))

theorem lastHeartbeatAt_upd (w : Write ⊕ MoreWrite) (h : Host) :
    (hostTable.upd w h).lastHeartbeatAt = h.lastHeartbeatAt ∨
      ∃ t ∈ beatFor h.id w, (hostTable.upd w h).lastHeartbeatAt = some t := by
  match w with
  | .inl w =>
    change (w.onHost h).lastHeartbeatAt = _ ∨ _
    cases w with
    | setHostStatus ids status =>
      simp only [Write.onHost]
      split_ifs <;> exact .inl rfl
    | _ => exact .inl rfl
  | .inr (.heartbeat ids t metrics) =>
    by_cases hid : ids.contains h.id
    · refine .inr ⟨t, if_pos hid, ?_⟩
      exact congrArg Host.lastHeartbeatAt (if_pos hid)
    · exact .inl (congrArg Host.lastHeartbeatAt (if_neg hid))
  | .inr (.setActive ..) | .inr (.insertHost _) => exact .inl rfl

/-- A row is changed by heartbeats for it only. -/
theorem lastHeartbeatAt_updAll (ws : List (Write ⊕ MoreWrite)) : ∀ h : Host,
    (hostTable.updAll ws h).lastHeartbeatAt = h.lastHeartbeatAt ∨
      ∃ w ∈ ws, ∃ t ∈ beatFor h.id w, (hostTable.updAll ws h).lastHeartbeatAt = some t := by
  induction ws with
  | nil => exact fun _ => .inl rfl
  | cons w ws ih =>
    intro h
    rcases ih (hostTable.upd w h) with hrest | ⟨w', hw', t, ht, hrest⟩
    · rcases lastHeartbeatAt_upd w h with hupd | ⟨t, ht, hupd⟩
      · exact .inl (hrest.trans hupd)
      · exact .inr ⟨w, List.mem_cons_self, t, ht, hrest.trans hupd⟩
    · rw [hostTable_upd_id] at ht
      exact .inr ⟨w', List.mem_cons_of_mem _ hw', t, ht, hrest⟩

/-! ## Runs -/

/-- What an unfinished tick has found is stale in the committed store. -/
def StillStale (s : SiteSystem) : Prop :=
  ∀ p ∈ s.reqs, p.ended = false → ∀ f ∈ foundOf p, ∀ x ∈ s.db.1.hosts, x.id = f.2.id →
    x.lastHeartbeatAt.all (· < f.1) = true

section
variable {cfg : Settings} {policy : HostSettings} {hashRaw : String → String} {ids : List ℤ} {s s' : SiteSystem}

theorem unraced_keeps (hnd : ids.Nodup) : KeepsOn (site cfg policy hashRaw) SiteJob.Watches Unraced (HasIds ids)
    (watchRules policy ids fun _ _ => True) (fun _ h _ => announced h = []) :=
  watch_keeps hnd (fun _ _ h => h.1) (fun _ _ _ => trivial) fun _ _ _ _ _ => trivial

/-- The rows of the store after a step, and what it changes of their heartbeats. -/
theorem hosts_move {i : ℕ} {q q' : SiteReq} {a : Act String} {db' aux'}
    (hnew : ∀ k, q.prog = .commit k → AddsNoHost (pendOf q.log))
    (h : q.move (site cfg policy hashRaw).lost s i a = some (q', db', aux')) {x' : Host} (hx' : x' ∈ db'.1.hosts) :
    ∃ x ∈ s.db.1.hosts, x.id = x'.id ∧ (x'.lastHeartbeatAt = x.lastHeartbeatAt ∨
      a = .commit ∧ ∃ w ∈ pendOf q.log, ∃ t ∈ beatFor x.id w, x'.lastHeartbeatAt = some t) := by
  rcases Req.move_db h with rfl | ⟨rfl, k, hk, rfl⟩
  · exact ⟨x', hx', rfl, .inl rfl⟩
  · rw [hosts_of_addsNoHost (hnew k hk)] at hx'
    obtain ⟨x, hx, rfl⟩ := List.mem_map.1 hx'
    exact ⟨x, hx, (hostTable_updAll_id _ x).symm, (lastHeartbeatAt_updAll _ x).imp id fun hw => ⟨rfl, hw⟩⟩

/-- A step that does not race keeps what ticks have found stale. -/
theorem StillStale.step (hnd : ids.Nodup) (hs : s.Sound (HasIds ids) (watchRules policy ids fun _ _ => True)
      (fun _ h _ => announced h = []) fun _ _ => True)
    (hrun : ∀ q ∈ s.reqs, q.running.isSome → ∃ st k, q.prog = .stmt st k) (hstale : StillStale s)
    {l : Label SiteJob ℤ String} (hl : Unraced s l) (hst : Step (site cfg policy hashRaw) s l s') : StillStale s' := by
  cases hst with
  | tick => exact hstale
  | arrive j =>
    intro p hp hended f hf
    rcases List.mem_append.1 hp with hp | hp
    · exact hstale p hp hended f hf
    · obtain rfl := List.mem_singleton.1 hp
      rw [foundOf_of_idle rfl] at hf
      exact absurd hf List.not_mem_nil
  | @act i a q q' db' aux' hq ha hm =>
    have hmem := List.mem_of_getElem? hq
    have hnew : ∀ k, q.prog = .commit k → AddsNoHost (pendOf q.log) := by
      intro k hk
      have hok := (hs.req i q hq).ok
      rw [hk] at hok
      exact hok.1.1.addsNoHost
    -- a row that was stale for a tick still is
    have hold : ∀ p ∈ s.reqs, p.ended = false → ∀ f ∈ foundOf p, ∀ x' ∈ db'.1.hosts, x'.id = f.2.id →
        x'.lastHeartbeatAt.all (· < f.1) = true := by
      intro p hp hended f hf x' hx' hid
      obtain ⟨x, hx, hxid, hbeat | ⟨rfl, w, hw, t, ht, hbeat⟩⟩ := hosts_move hnew ha hx'
      · rw [hbeat]
        exact hstale p hp hended f hf x hx (hxid.trans hid)
      · rw [hxid, hid] at ht
        rw [hbeat]
        exact decide_eq_true (hl.2 q hq w hw p hp hended f hf t ht)
    intro p hp hended f hf
    rcases List.mem_or_eq_of_mem_set hp with hp | rfl
    · exact hold p hp hended f hf
    · rcases foundOf_move (hrun q hmem) hm hf with hf | ⟨rfl, hfound, hfstale⟩
      · exact hold q hmem hm.later.1 f hf
      · intro x hx hid
        obtain rfl : x = f.2 := List.inj_on_of_nodup_map (hs.inv ▸ hnd) hx hfound hid
        exact (Bool.and_eq_true_iff.1 hfstale).2

variable {db : classroom.Store} {aux : classroom.Aux} {clock : ℤ}

theorem unraced_sound (hnd : ids.Nodup) (hdb : HasIds ids db)
    (h : Reach (site cfg policy hashRaw) Unraced ⟨db, aux, clock, []⟩ s) :
    s.Sound (HasIds ids) (watchRules policy ids fun _ _ => True) (fun _ h _ => announced h = []) fun _ _ => True :=
  h.sound_on (unraced_keeps hnd) ⟨fun _ => trivial, fun _ _ => trivial, fun _ _ => trivial⟩ (.init hdb) (by simp)

theorem stillStale_of_reach (hnd : ids.Nodup) (hdb : HasIds ids db)
    (h : Reach (site cfg policy hashRaw) Unraced ⟨db, aux, clock, []⟩ s) : StillStale s := by
  induction h with
  | refl => exact fun p hp => absurd hp List.not_mem_nil
  | tail h₁ hstep ih =>
    obtain ⟨l, hl, hstep⟩ := hstep
    exact ih.step hnd (unraced_sound hnd hdb h₁) (Reach.running_stmt h₁ (by simp)) hl (step_cases hstep)

/-- What a flush sets OFFLINE are hosts of its events. -/
theorem Flushed.offlines {h : SiteHistory} (hf : Flushed ids h) {w : Write ⊕ MoreWrite} (hw : w ∈ pendOf h) {id : ℤ}
    (hid : id ∈ SmartClassroom.offlines w) : ∃ e ∈ announced h, e.hostId = id := by
  obtain ⟨beats, audits, hbeats, hpend⟩ := hf.pend
  rw [hpend, List.mem_append, List.mem_append] at hw
  rcases hw with (hw | hw) | hw
  · have hbeat := hbeats w hw
    cases w with
    | inl w => exact hbeat.elim
    | inr w => exact absurd hid List.not_mem_nil
  · obtain ⟨e, he, rfl⟩ := List.mem_map.1 hw
    refine ⟨e, List.mem_reverse.1 he, ?_⟩
    change id ∈ SmartClassroom.offlines (.inl (.setHostStatus [e.hostId] e.new)) at hid
    generalize e.new = status at hid
    cases status with
    | offline => exact (List.mem_singleton.1 hid).symm
    | idle | inUse | degraded => exact absurd hid List.not_mem_nil
  · obtain ⟨a, -, rfl⟩ := List.mem_map.1 hw
    exact absurd hid List.not_mem_nil

/-- **Ticks set stale hosts OFFLINE only**, in every interleaving of ticks and
    heartbeats where no heartbeat commits too late for a tick. -/
theorem offlinesStale_of_reach (hnd : (db.1.hosts.map (·.id)).Nodup)
    (h : Reach (site cfg policy hashRaw) Unraced ⟨db, aux, clock, []⟩ s) : OfflinesStale policy s := by
  intro q hq htick hcommit t ht w hw x hx hxw last hlast
  obtain ⟨i, hi⟩ := List.mem_iff_getElem?.1 hq
  have hok := ((unraced_sound hnd rfl h).req i q hi).ok
  obtain ⟨k, hk⟩ : ∃ k, q.prog = .commit k := by
    unfold committing at hcommit
    split at hcommit
    · exact ⟨_, ‹_›⟩
    · cases hcommit
  have hjob : q.job = .tick := by
    unfold SiteJob.isTick at htick
    split at htick
    · assumption
    · cases htick
  rw [hk] at hok
  obtain ⟨hflushed, hfound⟩ := hok.1
  obtain ⟨t₀, b, aux, snap, cur, hnow, hran, hevents⟩ := hfound hjob
  obtain ⟨e, he, heid⟩ := hflushed.offlines hw hxw
  obtain ⟨y, hy, hstale, hyid⟩ := hevents e he
  obtain rfl : t = t₀ := by
    refine hnow t ?_
    obtain ⟨ev, hev, hevt⟩ := List.mem_filterMap.1 ht
    split at hevt
    · cases hevt
      exact hev
    · cases hevt
  have hf : ((policy.cutoff (.utc t)).instant, y) ∈ foundOf q :=
    List.mem_append_right _ (List.mem_flatMap.2 ⟨_, hran, List.mem_map.2 ⟨y, List.mem_filter.2 ⟨hy, hstale⟩, rfl⟩⟩)
  have hended : q.ended = false := by rw [Req.ended, hk]
  have hold := stillStale_of_reach hnd rfl h q hq hended _ hf x hx (heid.symm.trans hyid.symm)
  rw [Option.mem_def.1 hlast, Option.all_some, decide_eq_true_eq, instant_cutoff] at hold
  omega

end

/-! ## A host that is heard again -/

def beatNow : SiteJob := .heartbeat "Bearer agent" ⟨false, 10, 10⟩

/-- A heartbeat in time for a first tick; a second tick, much later, sets the host
    OFFLINE. -/
theorem offlinesStale_of_reach_silent : ∃ s : SiteSystem, (∃ q ∈ s.reqs, ∃ w ∈ pendOf q.log, 1 ∈ offlines w) ∧
    (∃ x ∈ s.db.1.hosts, x.lastHeartbeatAt = some (100 * secondUs)) ∧ OfflinesStale {} s := by
  have hrun : (play (site {} {} id) Unraced ⟨heardOnce, ({}, {}), 100 * secondUs, []⟩
      [.arrive beatNow, .steps 0 "" 40, .arrive .tick, .steps 1 "" 40, .tick (300 * secondUs), .arrive .tick,
        .steps 2 "" 9]).any (fun s => (s.reqs.any fun q => (pendOf q.log).any fun w => (offlines w).contains 1) &&
        s.db.1.hosts.any fun x => x.lastHeartbeatAt == some (100 * secondUs)) = true := by decide
  have hnd : (heardOnce.1.hosts.map (·.id)).Nodup := List.nodup_singleton _
  obtain ⟨s, hs, hp⟩ := Reach.of_play_any hrun
  simp only [Bool.and_eq_true, List.any_eq_true, List.contains_iff_mem, beq_iff_eq] at hp
  exact ⟨s, hp.1, hp.2, offlinesStale_of_reach hnd hs⟩

/-- A heartbeat commits between the SELECT of the tick and its UPDATE: the tick
    sets OFFLINE a host that has just been heard. -/
theorem offline_after_heartbeat : ∃ s : SiteSystem,
    Reach (site {} {} id) (Arrivals SiteJob.Watches) ⟨heardOnce, ({}, {}), 100 * secondUs, []⟩ s ∧
      ¬OfflinesStale {} s := by
  have hrun : (play (site {} {} id) (Arrivals SiteJob.Watches) ⟨heardOnce, ({}, {}), 100 * secondUs, []⟩
      [.arrive .tick, .steps 0 "" 3, .arrive beatNow, .steps 1 "" 40, .steps 0 "" 6]).any
        (fun s => !decide (OfflinesStale {} s)) = true := by decide
  obtain ⟨s, hs, hp⟩ := Reach.of_play_any hrun
  exact ⟨s, hs, by simpa using hp⟩

end SmartClassroom
