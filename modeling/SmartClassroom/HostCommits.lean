/-
  What heartbeats and ticks have pending at their commits, in any interleaving.

  Both publish a change of status at once and flush it right before they commit,
  so at the commit there is an UPDATE and an audit row for each event
  (`Flushed`).  A tick has found the hosts of its events stale (`FoundStale`).
  They keep these rules whatever is committed between their steps (`watch_ok`).
-/
import SmartClassroom.HostJobs

namespace SmartClassroom

open Txn Prog

/-! ## Hosts -/

/-- `hosts`, in the whole database. -/
def hostTable : Table classroom Host where
  rows st := st.1.hosts
  upd := Sum.elim Write.onHost MoreWrite.onHost
  new := Sum.elim (fun _ => []) MoreWrite.newHosts
  rows_apply st w := by
    cases w with
    | inl w => exact (List.append_nil _).symm
    | inr w => rfl

@[simp] theorem MoreWrite.onHost_id (w : MoreWrite) (h : Host) : (w.onHost h).id = h.id := by
  unfold MoreWrite.onHost
  split
  · split_ifs <;> rfl
  · rfl

@[simp] theorem hostTable_upd_id (w : Write ⊕ MoreWrite) (h : Host) : (hostTable.upd w h).id = h.id := by
  cases w with
  | inl w => exact w.onHost_id h
  | inr w => exact w.onHost_id h

@[simp] theorem hostTable_updAll_id (ws : List (Write ⊕ MoreWrite)) : ∀ h : Host,
    (hostTable.updAll ws h).id = h.id := by
  induction ws with
  | nil => exact fun _ => rfl
  | cons w ws ih => exact fun h => (ih _).trans (hostTable_upd_id w h)

/-- No row is inserted. -/
def AddsNoHost (ws : List (Write ⊕ MoreWrite)) : Prop := ∀ w ∈ ws, hostTable.new w = []

theorem hosts_of_addsNoHost {ws : List (Write ⊕ MoreWrite)} (hws : AddsNoHost ws) : ∀ st : classroom.Store,
    (classroom.applyAll st ws).1.hosts = st.1.hosts.map (hostTable.updAll ws) := by
  induction ws with
  | nil => exact fun st => (List.map_id _).symm
  | cons w ws ih =>
    intro st
    obtain ⟨hw, hws⟩ := List.forall_mem_cons.1 hws
    refine (ih hws (classroom.apply st w)).trans ?_
    rw [show (classroom.apply st w).1.hosts = _ from hostTable.rows_apply st w, hw, List.append_nil, List.map_map]
    rfl

/-- The primary keys of `hosts`. -/
def HasIds (ids : List ℤ) (st : classroom.Store) : Prop := st.1.hosts.map (·.id) = ids

theorem HasIds.applyAll {ids : List ℤ} {st : classroom.Store} (h : HasIds ids st)
    {ws : List (Write ⊕ MoreWrite)} (hws : AddsNoHost ws) : HasIds ids (classroom.applyAll st ws) := by
  rw [HasIds, hosts_of_addsNoHost hws, List.map_map]
  exact (List.map_congr_left fun x _ => hostTable_updAll_id ws x).trans h

/-- An UPDATE by primary key finds its row. -/
theorem hits_eq_singleton {ids : List ℤ} (hnd : ids.Nodup) {id : ℤ} (hid : id ∈ ids) {snap cur : classroom.Store}
    (hsnap : HasIds ids snap) (hcur : HasIds ids cur) :
    Stmt.hits Host.id (·.id == id) snap.1.hosts cur.1.hosts = [id] := by
  have hfound : ∀ x ∈ cur.1.hosts.filter (·.id == id),
      (snap.1.hosts.filter (·.id == id)).any (fun y => y.id == x.id) = true := by
    intro x hx
    have hxid : x.id = id := beq_iff_eq.1 (List.mem_filter.1 hx).2
    obtain ⟨y, hy, hyid⟩ := List.mem_map.1 (show id ∈ snap.1.hosts.map (·.id) from hsnap ▸ hid)
    exact List.any_eq_true.2 ⟨y, List.mem_filter.2 ⟨hy, beq_iff_eq.2 hyid⟩, beq_iff_eq.2 (hyid.trans hxid.symm)⟩
  calc Stmt.hits Host.id (·.id == id) snap.1.hosts cur.1.hosts
      = (cur.1.hosts.filter (·.id == id)).map (·.id) := by rw [Stmt.hits, List.filter_eq_self.2 hfound]
    _ = (cur.1.hosts.map (·.id)).filter (· == id) := by rw [List.filter_map]; rfl
    _ = List.replicate (ids.count id) id := by rw [show cur.1.hosts.map (·.id) = ids from hcur, List.filter_beq]
    _ = [id] := by rw [List.count_eq_one_of_mem hnd hid]; rfl

/-! ## Events -/

abbrev SiteHistory := List (Ev classroom)

/-- What the statement publishes. -/
def publishedBy : Stmt ⊕ MoreStmt → List HostEvent
  | .inr (.publish e) => [e]
  | _ => []

/-- What the request has published since it last committed, newest first. -/
def announced : SiteHistory → List HostEvent
  | [] => []
  | .stmt s _ _ _ _ :: h => publishedBy s ++ announced h
  | .commit :: _ => []
  | .now _ :: h | .draw _ :: h | .rollback :: h => announced h

@[simp] theorem announced_nil : announced [] = [] := rfl
@[simp] theorem announced_now (t : ℤ) (h : SiteHistory) : announced (.now t :: h) = announced h := rfl
@[simp] theorem announced_commit (h : SiteHistory) : announced (.commit :: h) = [] := rfl

/-- The change that the event describes. -/
def HostEvent.change (e : HostEvent) : StatusChange := ⟨e.hostId, e.old, e.new, e.reason⟩

/-- The UPDATE of a change. -/
def StatusChange.write (c : StatusChange) : Write ⊕ MoreWrite := .inl (.setHostStatus [c.hostId] c.new)

/-- The event of a host that is to have the status. -/
def eventTo (status : HostStatus) (reason : String) (now : DateTime) (host : Host) : Option HostEvent :=
  if host.status = status then none
  else some { hostId := host.id, hostname := host.hostname, old := host.status, new := status, reason, ts := now }

theorem eventTo_eq_some {status : HostStatus} {reason : String} {now : DateTime} {host : Host} {e : HostEvent}
    (h : eventTo status reason now host = some e) : e.hostId = host.id ∧ e.old ≠ e.new := by
  unfold eventTo at h
  split_ifs at h with hst
  cases h
  exact ⟨rfl, hst⟩

theorem eventTo_ids (status : HostStatus) (reason : String) (now : DateTime) : ∀ rows : List Host,
    ((rows.filterMap (eventTo status reason now)).map (·.hostId)).Sublist (rows.map (·.id))
  | [] => .slnil
  | host :: rows => by
    rw [List.filterMap_cons]
    cases he : eventTo status reason now host with
    | none => exact (eventTo_ids status reason now rows).cons _
    | some e =>
      rw [List.map_cons, List.map_cons, (eventTo_eq_some he).1]
      exact (eventTo_ids status reason now rows).cons_cons _

/-! ## The rules of a commit -/

def Beats : Write ⊕ MoreWrite → Prop
  | .inr (.heartbeat ..) => True
  | _ => False

theorem Beats.adds {w : Write ⊕ MoreWrite} (hw : Beats w) : hostTable.new w = [] := by
  cases w with
  | inl w => exact hw.elim
  | inr w =>
    cases w with
    | heartbeat ids now metrics => rfl
    | setActive | insertHost => exact hw.elim

/-- After the row of a heartbeat, an UPDATE and an audit row for each event. -/
structure Flushed (ids : List ℤ) (h : SiteHistory) : Prop where
  pend : ∃ (beats : List (Write ⊕ MoreWrite)) (audits : List AuditLog), (∀ w ∈ beats, Beats w) ∧
    pendOf h = beats ++ (announced h).reverse.map (·.change.write) ++ audits.map fun a => .inl (.insertAudit a)
  hosts : ((announced h).map (·.hostId)).Nodup
  known : ∀ e ∈ announced h, e.hostId ∈ ids
  differ : ∀ e ∈ announced h, e.old ≠ e.new

/-- The hosts of the events were stale in the snapshot of the SELECT. -/
def FoundStale (policy : HostSettings) (h : SiteHistory) : Prop :=
  ∃ t b aux snap cur, (∀ t', .now t' ∈ h → t' = t) ∧
    .stmt (.inr (.staleHosts (policy.cutoff (.utc t)).instant)) b aux snap cur ∈ h ∧
    ∀ e ∈ announced h, ∃ x ∈ snap.1.hosts, MoreStmt.stale (policy.cutoff (.utc t)).instant x = true ∧ x.id = e.hostId

/-- The rules of heartbeats and ticks, with the exceptions `X`. -/
def watchRules (policy : HostSettings) (ids : List ℤ) (X : SiteHistory → BrokerError → Prop) (j : SiteJob) :
    Rules classroom BrokerError where
  stmt _ _ := True
  commit h := Flushed ids h ∧ (j = .tick → FoundStale policy h)
  raise := X

/-- Heartbeats and ticks. -/
def SiteJob.Watches : SiteJob → Prop
  | .heartbeat .. | .tick => True
  | _ => False

instance : DecidablePred SiteJob.Watches
  | .heartbeat .. | .tick => isTrue trivial
  | .booking _ | .createHost .. => isFalse id

section
variable {policy : HostSettings} {hashRaw : String → String} {ids : List ℤ} {h : SiteHistory}
  {X : SiteHistory → BrokerError → Prop}

/-- `h'` continues `h` without reading the clock. -/
structure Timeless (h h' : SiteHistory) : Prop where
  log : h <:+ h'
  now : ∀ t, .now t ∈ h' → .now t ∈ h

theorem Timeless.refl (h : SiteHistory) : Timeless h h := ⟨List.suffix_rfl, fun _ => id⟩

theorem Timeless.trans {h h' h'' : SiteHistory} (a : Timeless h h') (b : Timeless h' h'') : Timeless h h'' :=
  ⟨a.log.trans b.log, fun t ht => a.now t (b.now t ht)⟩

theorem Timeless.stmt (s : Stmt ⊕ MoreStmt) (b : ℤ) (aux : classroom.Aux) (snap cur : classroom.Store)
    (h : SiteHistory) : Timeless h (.stmt s b aux snap cur :: h) where
  log := List.suffix_cons _ _
  now t ht := by
    rcases List.mem_cons.1 ht with ht | ht
    · cases ht
    · exact ht

/-! ## Programs -/

section
variable {W : Rules classroom BrokerError} (hstmt : ∀ h s, W.stmt h s)
include hstmt

theorem transitionAndPublish_ok {host : Host} {status : HostStatus} {reason : String} {now : DateTime} :
    (transitionAndPublish host status reason now).Ok (HasIds ids) W (fun h' change =>
      Timeless h h' ∧ pendOf h' = pendOf h ∧
        announced h' = (eventTo status reason now host).toList ++ announced h ∧
        change = (eventTo status reason now host).map HostEvent.change) h := by
  unfold transitionAndPublish eventTo
  split_ifs
  · exact ⟨.refl h, rfl, rfl, rfl⟩
  · exact ok_bind.2 ⟨hstmt _ _, fun b aux snap cur _ _ => ⟨.stmt _ _ _ _ _ h, List.append_nil _, rfl, rfl⟩⟩

theorem transitionStale_ok (current : DateTime) : ∀ (rows : List Host) {h : SiteHistory},
    (transitionStale current rows).Ok (HasIds ids) W (fun h' changes =>
      Timeless h h' ∧ pendOf h' = pendOf h ∧
        announced h' = (rows.filterMap (eventTo .offline "heartbeat_stale" current)).reverse ++ announced h ∧
        changes = (rows.filterMap (eventTo .offline "heartbeat_stale" current)).map HostEvent.change) h
  | [], h => ⟨.refl h, rfl, rfl, rfl⟩
  | host :: rows, h => by
    refine (transitionAndPublish_ok hstmt).bind fun h₁ changed ⟨hlog, hpend, hann, hchanged⟩ => ?_
    refine (transitionStale_ok current rows).bind fun h₂ rest ⟨hlog', hpend', hann', hrest⟩ => ?_
    refine ⟨hlog.trans hlog', hpend'.trans hpend, ?_, ?_⟩
    · rw [hann', hann, List.filterMap_cons]
      cases eventTo .offline "heartbeat_stale" current host with
      | none => rfl
      | some e => simp
    · rw [hchanged, hrest, List.filterMap_cons]
      cases eventTo .offline "heartbeat_stale" current host <;> rfl

theorem flushStatuses_ok (hnd : ids.Nodup) : ∀ (changes : List StatusChange) {h : SiteHistory},
    (∀ c ∈ changes, c.hostId ∈ ids) → AddsNoHost (pendOf h) →
    (service (flushStatuses changes)).Ok (HasIds ids) W (fun h' _ => Timeless h h' ∧ announced h' = announced h ∧
      pendOf h' = pendOf h ++ changes.map (·.write)) h
  | [], h, _, _ => ⟨.refl h, rfl, (List.append_nil _).symm⟩
  | c :: changes, h, hids, hnew => by
    obtain ⟨hid, hids⟩ := List.forall_mem_cons.1 hids
    refine ⟨hstmt _ _, fun b aux snap cur hsnap hcur => ?_⟩
    have hpend : pendOf (.stmt (.inl (.setHostStatus c.hostId c.new)) b aux snap cur :: h : SiteHistory) =
        pendOf h ++ [c.write] := by
      have hhits := hits_eq_singleton hnd hid (hsnap.applyAll hnew) (hcur.applyAll hnew)
      exact congrArg (fun ids => pendOf h ++ [.inl (.setHostStatus ids c.new)]) hhits
    have hnew' : AddsNoHost (pendOf h ++ [c.write]) :=
      List.forall_mem_append.2 ⟨hnew, List.forall_mem_singleton.2 rfl⟩
    refine (flushStatuses_ok hnd changes hids (hpend ▸ hnew')).mono fun h' _ ⟨hlog, hann, hpend'⟩ => ?_
    refine ⟨(Timeless.stmt ..).trans hlog, hann, ?_⟩
    rw [hpend', hpend, List.map_cons, List.append_assoc]
    rfl

theorem flushAudits_ok : ∀ (changes : List StatusChange) {h : SiteHistory},
    (service (flushAudits changes)).Ok (HasIds ids) W (fun h' _ => Timeless h h' ∧ announced h' = announced h ∧
      ∃ audits : List AuditLog, pendOf h' = pendOf h ++ audits.map fun a => .inl (.insertAudit a)) h
  | [], h => ⟨.refl h, rfl, [], (List.append_nil _).symm⟩
  | c :: changes, h => by
    refine ⟨hstmt _ _, fun b aux snap cur _ _ => ?_⟩
    refine (flushAudits_ok changes).mono fun h' _ ⟨hlog, hann, audits, hpend⟩ => ?_
    refine ⟨(Timeless.stmt ..).trans hlog, hann, ⟨aux.1.auditLog, b, c.audit⟩ :: audits, ?_⟩
    rw [hpend, List.map_cons, pendOf_stmt, List.append_assoc]
    rfl

theorem flush_ok (hnd : ids.Nodup) {changes : List StatusChange} (hids : ∀ c ∈ changes, c.hostId ∈ ids)
    (hnew : AddsNoHost (pendOf h)) :
    (service (flush changes)).Ok (HasIds ids) W (fun h' _ => Timeless h h' ∧ announced h' = announced h ∧
      ∃ audits : List AuditLog, pendOf h' = pendOf h ++ changes.map (·.write) ++
        audits.map fun a => .inl (.insertAudit a)) h := by
  rw [service, flush, embed_bind]
  refine (flushStatuses_ok hstmt hnd changes hids hnew).bind fun h₁ _ ⟨hlog, hann, hpend⟩ => ?_
  refine (flushAudits_ok hstmt changes).mono fun h₂ _ ⟨hlog', hann', audits, hpend'⟩ => ?_
  exact ⟨hlog.trans hlog', hann'.trans hann, audits, by rw [hpend', hpend]⟩

/-- The flush of what was published since `h` leaves what a commit needs. -/
theorem flush_flushed (hnd : ids.Nodup) {events : List HostEvent} (hann : announced h = events.reverse)
    (hbeats : ∀ w ∈ pendOf h, Beats w) (hosts : (events.map (·.hostId)).Nodup) (hids : ∀ e ∈ events, e.hostId ∈ ids)
    (hdiffer : ∀ e ∈ events, e.old ≠ e.new) :
    (service (flush (events.map HostEvent.change))).Ok (HasIds ids) W (fun h' _ => Timeless h h' ∧
      announced h' = announced h ∧ Flushed ids h') h := by
  have hnew : AddsNoHost (pendOf h) := fun w hw => (hbeats w hw).adds
  have hids' : ∀ c ∈ events.map HostEvent.change, c.hostId ∈ ids := List.forall_mem_map.2 hids
  refine (flush_ok hstmt hnd hids' hnew).mono fun h' _ ⟨hlog, hann', audits, hpend⟩ => ⟨hlog, hann', ?_⟩
  have heq : announced h' = events.reverse := hann'.trans hann
  refine ⟨⟨pendOf h, audits, hbeats, ?_⟩, ?_, ?_, ?_⟩
  · rw [hpend, heq, List.reverse_reverse, List.map_map]
    rfl
  · rw [heq, List.map_reverse]
    exact List.nodup_reverse.2 hosts
  · rw [heq]
    exact fun e he => hids e (List.mem_reverse.1 he)
  · rw [heq]
    exact fun e he => hdiffer e (List.mem_reverse.1 he)

end

/-! ### Ticks -/

theorem runOneTick_ok (hnd : ids.Nodup) : (runOneTick policy).Ok (HasIds ids) (watchRules policy ids X .tick)
    (fun h' _ => announced h' = []) [] := by
  intro t
  refine ok_bind.2 ⟨trivial, fun b aux snap cur hsnap _ => ?_⟩
  generalize hcut : (policy.cutoff (.utc t)).instant = cutoff
  generalize hh₁ : (Ev.stmt (.inr (.staleHosts cutoff)) b aux snap cur :: [.now t] : SiteHistory) = h₁
  have hann₁ : announced h₁ = [] := by rw [← hh₁]; rfl
  have hpend₁ : pendOf h₁ = [] := by rw [← hh₁]; rfl
  change Ok _ _ _ (transitionStale (.utc t) (snap.1.hosts.filter (MoreStmt.stale cutoff)) >>= _) h₁
  refine (transitionStale_ok (fun _ _ => trivial) _ _).bind fun h₂ changes ⟨hlog₂, hpend₂, hann₂, hchanges⟩ => ?_
  generalize hevents : (snap.1.hosts.filter (MoreStmt.stale cutoff)).filterMap
    (eventTo .offline "heartbeat_stale" (.utc t)) = events at hann₂ hchanges
  rw [hann₁, List.append_nil] at hann₂
  subst hchanges
  by_cases hnil : events.map HostEvent.change = []
  · rw [if_pos hnil]
    exact hann₂.trans (congrArg List.reverse (List.map_eq_nil_iff.1 hnil))
  rw [if_neg hnil]
  -- the events are those of rows of the snapshot
  have hrow : ∀ e ∈ events, e.old ≠ e.new ∧
      ∃ x ∈ snap.1.hosts, MoreStmt.stale cutoff x = true ∧ x.id = e.hostId := by
    intro e he
    rw [← hevents] at he
    obtain ⟨x, hx, hxe⟩ := List.mem_filterMap.1 he
    obtain ⟨hmem, hstale⟩ := List.mem_filter.1 hx
    exact ⟨(eventTo_eq_some hxe).2, x, hmem, hstale, (eventTo_eq_some hxe).1.symm⟩
  have hsub : (events.map (·.hostId)).Sublist ids := by
    rw [← hevents, ← show snap.1.hosts.map (·.id) = ids from hsnap]
    exact (eventTo_ids ..).trans (List.filter_sublist.map _)
  refine (flush_flushed (fun _ _ => trivial) hnd hann₂ ?_ (hsub.nodup hnd) ?_ fun e he => (hrow e he).1).bind
    fun h₃ _ ⟨hlog₃, hann₃, hflushed⟩ => ?_
  · rw [hpend₂, hpend₁]
    exact fun _ hw => absurd hw List.not_mem_nil
  · exact fun e he => hsub.subset (List.mem_map_of_mem he)
  refine ⟨⟨hflushed, fun _ => ⟨t, b, aux, snap, cur, fun t' ht' => ?_, ?_, fun e he => ?_⟩⟩, rfl⟩
  · have ht₁ := hlog₂.now t' (hlog₃.now t' ht')
    rw [← hh₁] at ht₁
    simpa using ht₁
  · rw [hcut]
    exact (hlog₂.log.trans hlog₃.log).subset (hh₁ ▸ List.mem_cons_self)
  · rw [hann₃, hann₂] at he
    rw [hcut]
    exact (hrow e (List.mem_reverse.1 he)).2

/-! ### Heartbeats -/

theorem writes_of_selects {s : Stmt} (hs : s.selects = true) (b : ℤ) (q : Seqs) (snap cur : Store) :
    (s.exec b q snap cur).2.1 = [] := by
  cases s <;> first | exact absurd hs Bool.false_ne_true | rfl

theorem pendOf_selects {s : Stmt} (hs : s.selects = true) (b : ℤ) (aux : classroom.Aux) (snap cur : classroom.Store)
    (h : SiteHistory) : pendOf (.stmt (.inl s) b aux snap cur :: h : SiteHistory) = pendOf h := by
  rw [pendOf_stmt]
  refine (congrArg (pendOf h ++ ·) ?_).trans (List.append_nil _)
  exact congrArg (List.map (Sum.inl : Write → Write ⊕ MoreWrite)) (writes_of_selects hs ..)

/-- Before the first event, with the pending writes `ws`. -/
def Silent (ws : List (Write ⊕ MoreWrite)) (h : SiteHistory) : Prop := pendOf h = ws ∧ announced h = []

theorem Silent.select {ws : List (Write ⊕ MoreWrite)} (hk : Silent ws h) {s : Stmt} (hs : s.selects = true) (b : ℤ)
    (aux : classroom.Aux) (snap cur : classroom.Store) : Silent ws (.stmt (.inl s) b aux snap cur :: h) :=
  ⟨(pendOf_selects hs b aux snap cur h).trans hk.1, hk.2⟩

section
variable {W : Rules classroom BrokerError} (hstmt : ∀ h s, W.stmt h s) (hraise : ∀ h e, announced h = [] → W.raise h e)
include hstmt hraise

theorem selects_ok {α : Type} {p : Service α} (hp : p.Uses fun s : Stmt => s.selects = true)
    {ws : List (Write ⊕ MoreWrite)} (hk : Silent ws h) :
    (service p).Ok (HasIds ids) W (fun h' _ => Silent ws h') h := by
  refine Uses.ok (P := fun s : classroom.Stmt => ∃ s' : Stmt, s = .inl s' ∧ s'.selects = true) (K := Silent ws)
    (fun _ _ => id) (fun _ _ => id) ?_ (fun h e hk => hraise h e hk.2)
    (Uses.embed (hp.mono fun s hs => ⟨s, rfl, hs⟩)) hk
  rintro h _ hk ⟨s, rfl, hs⟩
  exact ⟨hstmt _ _, fun b aux snap cur => hk.select hs b aux snap cur⟩

/-- The host of the token is one of the table. -/
theorem getAgentHost_ok (authorization : String) (hk : Silent [] h) :
    (service (getAgentHost hashRaw authorization)).Ok (HasIds ids) W
      (fun h' host => Silent [] h' ∧ host.id ∈ ids) h := by
  rw [service, getAgentHost, embed_bind]
  refine (selects_ok hstmt hraise (uses_lift _) hk).bind fun h₁ raw hk₁ => ?_
  rw [embed_bind]
  refine (selects_ok hstmt hraise (verifyAgentToken_selects raw) hk₁).bind fun h₂ token hk₂ => ?_
  cases token with
  | none => exact hraise _ _ hk₂.2
  | some token =>
    cases hid : token.hostId with
    | none =>
      simp only [hid]
      exact hraise _ _ hk₂.2
    | some hostId =>
      simp only [hid]
      refine ⟨hstmt _ _, fun b aux snap cur hsnap _ => ?_⟩
      have hk₃ : Silent [] (.stmt (.inl (.getHost hostId)) b aux snap cur :: h₂) := hk₂.select rfl b aux snap cur
      have hres : (classroom.execOn (pendOf h₂) (.inl (.getHost hostId)) b aux snap cur).2.2 =
          snap.1.hosts.find? fun h => h.id == hostId := by rw [hk₂.1]; rfl
      rw [hres]
      cases hfind : snap.1.hosts.find? fun h => h.id == hostId with
      | none => exact hraise _ _ hk₃.2
      | some host =>
        refine ⟨hk₃, ?_⟩
        rw [← show snap.1.hosts.map (·.id) = ids from hsnap]
        exact List.mem_map_of_mem (List.mem_of_find?_eq_some hfind)

end

theorem heartbeatEndpoint_ok (hnd : ids.Nodup) (hX : ∀ h e, announced h = [] → X h e) (authorization : String)
    (metrics : Metrics) : (heartbeatEndpoint policy hashRaw authorization metrics).Ok (HasIds ids)
      (watchRules policy ids X (.heartbeat authorization metrics)) (fun h' _ => announced h' = []) [] := by
  refine (getAgentHost_ok (fun _ _ => trivial) hX authorization ⟨rfl, rfl⟩).bind fun h₁ host ⟨hk₁, hid⟩ => ?_
  intro t
  refine ok_bind.2 ⟨trivial, fun b aux snap cur _ _ => ?_⟩
  generalize hh₂ : (Ev.stmt (.inr (.heartbeat host.id (DateTime.utc t).instant metrics)) b aux snap cur ::
    .now t :: h₁ : SiteHistory) = h₂
  have hwrites : ∃ hit, pendOf h₂ = [.inr (.heartbeat hit (DateTime.utc t).instant metrics)] := by
    refine ⟨Stmt.hits Host.id (·.id == host.id) snap.1.hosts cur.1.hosts, ?_⟩
    rw [← hh₂, pendOf_stmt, pendOf_now, hk₁.1]
    rfl
  obtain ⟨hit, hpend₂⟩ := hwrites
  have hk₂ : Silent [.inr (.heartbeat hit (DateTime.utc t).instant metrics)] h₂ := ⟨hpend₂, hh₂ ▸ hk₁.2⟩
  refine (selects_ok (fun _ _ => trivial) hX
    (uses_query (D := broker) (s := .activeReservation ..) rfl) hk₂).bind fun h₃ active hk₃ => ?_
  refine (transitionAndPublish_ok (fun _ _ => trivial)).bind fun h₄ changed ⟨_, hpend₄, hann₄, hchanged⟩ => ?_
  generalize hevent : eventTo _ "heartbeat" (.utc t) host = event at hann₄ hchanged
  have hhost : ∀ e ∈ event.toList, e.hostId = host.id ∧ e.old ≠ e.new := by
    intro e he
    exact eventTo_eq_some (hevent.trans (Option.mem_toList.1 he))
  have hlist : changed.toList = event.toList.map HostEvent.change := by
    rw [hchanged]
    cases event <;> rfl
  have hrev : announced h₄ = event.toList.reverse := by
    rw [hann₄, hk₃.2]
    cases event <;> rfl
  rw [hlist]
  refine (flush_flushed (fun _ _ => trivial) hnd hrev ?_ ?_ ?_ fun e he => (hhost e he).2).bind
    fun h₅ _ ⟨_, _, hflushed⟩ => ?_
  · rw [hpend₄, hk₃.1]
    exact List.forall_mem_singleton.2 trivial
  · cases event <;> simp
  · intro e he
    rw [(hhost e he).1]
    exact hid
  · exact ⟨⟨hflushed, nofun⟩, rfl⟩

/-- **Heartbeats and ticks keep the rules**, and commit what they have published
    before they end. -/
theorem watch_ok {cfg : Settings} (hnd : ids.Nodup) (hX : ∀ h e, announced h = [] → X h e) {j : SiteJob}
    (hj : j.Watches) : ((site cfg policy hashRaw).prog j).Ok (HasIds ids) (watchRules policy ids X j)
      (fun h _ => announced h = []) [] := by
  cases j with
  | heartbeat authorization metrics => exact (heartbeatEndpoint_ok hnd hX authorization metrics).bind fun _ _ h => h
  | tick => exact (runOneTick_ok hnd).bind fun _ _ h => h
  | booking | createHost => exact hj.elim

/-! ## The effect of a commit -/

theorem Flushed.addsNoHost (hf : Flushed ids h) : AddsNoHost (pendOf h) := by
  obtain ⟨beats, audits, hbeats, hpend⟩ := hf.pend
  rw [hpend]
  refine List.forall_mem_append.2 ⟨List.forall_mem_append.2 ⟨fun w hw => (hbeats w hw).adds, ?_⟩, ?_⟩
  · exact List.forall_mem_map.2 fun _ _ => rfl
  · exact List.forall_mem_map.2 fun _ _ => rfl

/-! ## Interleavings -/

theorem watch_keeps {cfg : Settings} (hnd : ids.Nodup) {C : SiteSystem → Label SiteJob ℤ String → Prop}
    (hC : ∀ s l, C s l → Arrivals SiteJob.Watches s l) (hX : ∀ h e, announced h = [] → X h e)
    (hfail : ∀ s i (q : SiteReq), C s (.act i .fail) → s.reqs[i]? = some q → X q.log .databaseLost) :
    KeepsOn (site cfg policy hashRaw) SiteJob.Watches C (HasIds ids) (watchRules policy ids X)
      (fun _ h _ => announced h = []) where
  ok _ hj := watch_ok hnd hX hj
  arrives := hC
  lost s i q hc hq _ := hfail s i q hc hq
  inv _ _ _ _ _ hcommit hdb := hdb.applyAll hcommit.1.addsNoHost

end

/-- A host that was heard at the beginning, with the token of its agent. -/
def heardOnce : classroom.Store :=
  ({ hosts := [⟨1, "pc-01", "PC 1", none, none, 47989, .idle, some 0⟩]
     tokens := [⟨1, "agent", 1, some 1, none, .agent, 0, 1000 * secondUs, none, none⟩] },
    ⟨fun _ => true, fun _ => none⟩)

end SmartClassroom
