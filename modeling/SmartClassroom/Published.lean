/-
  What the event broker is given, and what is committed.

  `transition_host` publishes a change of status before its caller commits, and
  nobody reads the row again.  In every run where no request fails that has
  published already, and where the statuses that a request has read are the
  committed ones when it commits (`Delivers`), the events are the committed
  changes, each once (`published_of_tally`).  A commit that fails leaves an event
  without a change, and two heartbeats of a host at once two events for one
  (`published_lost`).
-/
import Mathlib.Algebra.Order.Group.Multiset
import SmartClassroom.HostCommits
import SmartClassroom.HostEvents
import SmartClassroom.Lib.Tally

namespace SmartClassroom

open Txn Prog

/-! ## Changes of status -/

/-- A host, its old status and its new one. -/
abbrev Change := ℤ × HostStatus × HostStatus

def HostEvent.described (e : HostEvent) : Change := (e.hostId, e.old, e.new)

def described (es : List HostEvent) : Multiset Change := (es.map HostEvent.described : List Change)

@[simp] theorem described_nil : described [] = 0 := rfl

@[simp] theorem described_append (es es' : List HostEvent) :
    described (es ++ es') = described es + described es' := by
  rw [described, List.map_append]
  rfl

/-- The row with another status in `st'`. -/
def changeIn (st' : classroom.Store) (h : Host) : Option Change :=
  (st'.1.hosts.find? fun h' => h'.id == h.id).bind fun h' =>
    if h'.status = h.status then none else some (h.id, h.status, h'.status)

def statusChanges (st st' : classroom.Store) : List Change := st.1.hosts.filterMap (changeIn st')

/-- The changes of status that a step commits. -/
def committed : SiteSystem → Label SiteJob ℤ String → Multiset Change
  | s, .act i .commit =>
    match s.reqs[i]? with
    | some q => (statusChanges s.db (classroom.applyAll s.db (pendOf q.log)) : List Change)
    | none => 0
  | _, _ => 0

section
variable {ids : List ℤ} {h : SiteHistory} {db : classroom.Store}

theorem upd_write (c : StatusChange) (x : Host) : hostTable.upd c.write x = setStatus c.hostId c.new x := by
  have hmem : [c.hostId].contains x.id = true ↔ x.id = c.hostId := by simp
  change (if [c.hostId].contains x.id then { x with status := c.new } else x) = _
  exact if_congr hmem rfl rfl

/-- The status of a row after the UPDATEs of events of different hosts. -/
theorem status_updAll_events : ∀ {es : List HostEvent}, (es.map (·.hostId)).Nodup → ∀ x : Host,
    (∃ e ∈ es, e.hostId = x.id ∧ (hostTable.updAll (es.map (·.change.write)) x).status = e.new) ∨
      (∀ e ∈ es, e.hostId ≠ x.id) ∧ (hostTable.updAll (es.map (·.change.write)) x).status = x.status
  | [], _, x => .inr ⟨fun _ he => absurd he List.not_mem_nil, rfl⟩
  | e :: es, hnd, x => by
    obtain ⟨hnotin, hnd⟩ := List.nodup_cons.1 hnd
    have hupd : hostTable.updAll ((e :: es).map (·.change.write)) x =
        hostTable.updAll (es.map (·.change.write)) (setStatus e.hostId e.new x) :=
      congrArg (hostTable.updAll _) (upd_write e.change x)
    rw [hupd]
    rcases status_updAll_events hnd (setStatus e.hostId e.new x) with ⟨e', he', hid, hst⟩ | ⟨hne, hst⟩
    · rw [setStatus_id] at hid
      exact .inl ⟨e', List.mem_cons_of_mem _ he', hid, hst⟩
    · rw [setStatus_id] at hne
      by_cases hid : e.hostId = x.id
      · exact .inl ⟨e, List.mem_cons_self, hid, hst.trans (congrArg Host.status (if_pos hid.symm))⟩
      · refine .inr ⟨List.forall_mem_cons.2 ⟨hid, hne⟩, hst.trans ?_⟩
        rw [setStatus_of_ne (Ne.symm hid)]

theorem Beats.status {w : Write ⊕ MoreWrite} (hw : Beats w) (x : Host) : (hostTable.upd w x).status = x.status := by
  cases w with
  | inl w => exact hw.elim
  | inr w =>
    cases w with
    | heartbeat ids now metrics =>
      change (MoreWrite.onHost (.heartbeat ids now metrics) x).status = _
      simp only [MoreWrite.onHost]
      split_ifs <;> rfl
    | setActive | insertHost => exact hw.elim

theorem status_updAll {ws : List (Write ⊕ MoreWrite)} (hws : ∀ w ∈ ws, ∀ x : Host,
    (hostTable.upd w x).status = x.status) : ∀ x : Host, (hostTable.updAll ws x).status = x.status := by
  induction ws with
  | nil => exact fun _ => rfl
  | cons w ws ih =>
    obtain ⟨hw, hws⟩ := List.forall_mem_cons.1 hws
    exact fun x => (ih hws (hostTable.upd w x)).trans (hw x)

/-- A flush sets the hosts of its events, and no others. -/
theorem Flushed.status (hf : Flushed ids h) (x : Host) :
    (∃ e ∈ announced h, e.hostId = x.id ∧ (hostTable.updAll (pendOf h) x).status = e.new) ∨
      (∀ e ∈ announced h, e.hostId ≠ x.id) ∧ (hostTable.updAll (pendOf h) x).status = x.status := by
  obtain ⟨beats, audits, hbeats, hpend⟩ := hf.pend
  have hnd : ((announced h).reverse.map (·.hostId)).Nodup := by
    rw [List.map_reverse]
    exact List.nodup_reverse.2 hf.hosts
  have haudits := @status_updAll (audits.map fun a => .inl (.insertAudit a)) (List.forall_mem_map.2 fun _ _ _ => rfl)
  have hbeat := @status_updAll beats (fun w hw => (hbeats w hw).status) x
  rw [hpend, Table.updAll_append, Table.updAll_append, haudits]
  rcases status_updAll_events hnd (hostTable.updAll beats x) with ⟨e, he, hid, hst⟩ | ⟨hne, hst⟩
  · rw [hostTable_updAll_id] at hid
    exact .inl ⟨e, List.mem_reverse.1 he, hid, hst⟩
  · rw [hostTable_updAll_id] at hne
    exact .inr ⟨fun e he => hne e (List.mem_reverse.2 he), hst.trans hbeat⟩

theorem changeIn_eq_some {st' : classroom.Store} {x : Host} {c : Change} : changeIn st' x = some c ↔
    ∃ x', st'.1.hosts.find? (fun h' => h'.id == x.id) = some x' ∧ x'.status ≠ x.status ∧
      c = (x.id, x.status, x'.status) := by
  rw [changeIn, Option.bind_eq_some_iff]
  refine exists_congr fun x' => and_congr Iff.rfl ?_
  rw [Option.ite_none_left_eq_some, Option.some.injEq, @eq_comm _ c]

theorem find?_updated {u : Host → Host} (hu : ∀ x, (u x).id = x.id) {rows : List Host}
    (hnd : (rows.map (·.id)).Nodup) {x : Host} (hx : x ∈ rows) :
    (rows.map u).find? (fun h' => h'.id == x.id) = some (u x) := by
  rw [List.find?_map, show ((fun h' : Host => h'.id == x.id) ∘ u) = fun h' => h'.id == x.id from
    funext fun h' => by rw [Function.comp_apply, hu]]
  cases hfind : rows.find? fun h' => h'.id == x.id with
  | none => exact absurd (beq_self_eq_true x.id) (List.find?_eq_none.1 hfind x hx)
  | some x' => rw [Option.map_some, find?_host_eq hnd hfind hx rfl]

theorem statusChanges_ids (st' : classroom.Store) : ∀ rows : List Host,
    ((rows.filterMap (changeIn st')).map (·.1)).Sublist (rows.map (·.id))
  | [] => .slnil
  | x :: rows => by
    rw [List.filterMap_cons]
    cases hc : changeIn st' x with
    | none => exact (statusChanges_ids st' rows).cons _
    | some c =>
      obtain ⟨_, _, _, rfl⟩ := changeIn_eq_some.1 hc
      exact (statusChanges_ids st' rows).cons_cons _

/-- **What the commit of a flush changes** are its events, if the statuses that
    were read are the committed ones. -/
theorem Flushed.statusChanges (hf : Flushed ids h) (hnd : ids.Nodup) (hdb : HasIds ids db)
    (hread : ∀ e ∈ announced h, ∀ x ∈ db.1.hosts, x.id = e.hostId → x.status = e.old) :
    (SmartClassroom.statusChanges db (classroom.applyAll db (pendOf h)) : Multiset Change) = described (announced h) := by
  have hrows := hosts_of_addsNoHost hf.addsNoHost db
  have hnd' : (db.1.hosts.map (·.id)).Nodup := hdb ▸ hnd
  have hfind : ∀ x ∈ db.1.hosts, (classroom.applyAll db (pendOf h)).1.hosts.find? (fun h' => h'.id == x.id) =
      some (hostTable.updAll (pendOf h) x) := by
    intro x hx
    rw [hrows]
    exact find?_updated (hostTable_updAll_id _) hnd' hx
  refine Multiset.coe_eq_coe.2 ((List.perm_ext_iff_of_nodup ?_ ?_).2 fun c => ?_)
  · exact ((statusChanges_ids _ _).nodup hnd').of_map
  · exact List.Nodup.of_map Prod.fst (by rw [List.map_map]; exact hf.hosts)
  · simp only [SmartClassroom.statusChanges, List.mem_filterMap, List.mem_map, changeIn_eq_some]
    constructor
    · rintro ⟨x, hx, x', hx', hne, rfl⟩
      obtain rfl := Option.some.inj ((hfind x hx).symm.trans hx')
      rcases hf.status x with ⟨e, he, hid, hst⟩ | ⟨-, hst⟩
      · refine ⟨e, he, ?_⟩
        rw [HostEvent.described, hid, hst, hread e he x hx hid.symm]
      · exact absurd hst hne
    · rintro ⟨e, he, rfl⟩
      obtain ⟨x, hx, hid⟩ := List.mem_map.1 (show e.hostId ∈ db.1.hosts.map (·.id) from hdb ▸ hf.known e he)
      have hold := hread e he x hx hid
      refine ⟨x, hx, _, hfind x hx, ?_⟩
      rcases hf.status x with ⟨e', he', hid', hst⟩ | ⟨hne, -⟩
      · obtain rfl := List.inj_on_of_nodup_map hf.hosts he he' (hid.symm.trans hid'.symm)
        rw [hst, hold, HostEvent.described, hid]
        exact ⟨Ne.symm (hf.differ e he), rfl⟩
      · exact absurd hid.symm (hne e he)

end

/-! ## Runs -/

/-- No request fails that has published since it began, and the statuses that a
    request has read are the committed ones when it commits. -/
def Delivers : SiteSystem → Label SiteJob ℤ String → Prop
  | s, .act i .fail => ∀ q ∈ s.reqs[i]?, announced q.log = []
  | s, .act i .commit => ∀ q ∈ s.reqs[i]?, ∀ e ∈ announced q.log, ∀ x ∈ s.db.1.hosts, x.id = e.hostId →
    x.status = e.old
  | _, _ => True

instance (s : SiteSystem) : ∀ l, Decidable (Delivers s l)
  | .act i .fail => inferInstanceAs (Decidable (∀ q ∈ s.reqs[i]?, announced q.log = []))
  | .act i .commit => inferInstanceAs (Decidable (∀ q ∈ s.reqs[i]?, ∀ e ∈ announced q.log, ∀ x ∈ s.db.1.hosts,
    x.id = e.hostId → x.status = e.old))
  | .act _ .start | .act _ .finish | .act _ .now | .act _ (.draw _) | .act _ .rollback
  | .arrive _ | .tick _ => isTrue trivial

/-- Heartbeats and ticks only, and `Delivers`. -/
def Careful (s : SiteSystem) (l : Label SiteJob ℤ String) : Prop := Arrivals SiteJob.Watches s l ∧ Delivers s l

instance (s : SiteSystem) (l : Label SiteJob ℤ String) : Decidable (Careful s l) :=
  inferInstanceAs (Decidable (_ ∧ _))

theorem published_exec (s : Stmt ⊕ MoreStmt) (b : ℤ) (aux : classroom.Aux) (snap cur : classroom.Store) :
    (classroom.exec s b aux snap cur).1.2.published = publishedBy s ++ aux.2.published := by
  cases s with
  | inl s => rfl
  | inr s =>
    cases s with
    | insertHost h =>
      simp only [Extension.execStmt, MoreStmt.exec]
      split <;> rfl
    | _ => rfl

/-- What a step publishes, unless it is a commit. -/
theorem announced_move {lost : BrokerError} {s : SiteSystem} {i : ℕ} {q q' : SiteReq} {a : Act String} {db' aux'}
    (h : q.move lost s i a = some (q', db', aux')) (ha : a ≠ .commit) :
    ∃ es, announced q'.log = es ++ announced q.log ∧ aux'.2.published = es ++ s.aux.2.published := by
  cases a with
  | commit => exact absurd rfl ha
  | finish =>
    simp only [Req.move] at h
    split at h
    · rename_i st k snap hp hr
      split at h
      · cases h
      · cases h
        exact ⟨publishedBy st, rfl, published_exec ..⟩
    · cases h
  | _ =>
    simp only [Req.move] at h
    split at h <;> cases h <;> exact ⟨[], rfl, rfl⟩

theorem committed_of_ne (s : SiteSystem) (i : ℕ) {a : Act String} (ha : a ≠ .commit) : committed s (.act i a) = 0 := by
  cases a with
  | commit => exact absurd rfl ha
  | _ => rfl

/-- What all requests have published since they committed. -/
def unsettled (qs : List SiteReq) : Multiset Change := described (qs.flatMap fun q => announced q.log)

theorem unsettled_set {qs : List SiteReq} {i : ℕ} {q q' : SiteReq} (hq : qs[i]? = some q) :
    ∃ rest, unsettled qs = described (announced q.log) + rest ∧
      unsettled (qs.set i q') = described (announced q'.log) + rest := by
  obtain ⟨hi, rfl⟩ := List.getElem?_eq_some_iff.1 hq
  refine ⟨unsettled (qs.take i) + unsettled (qs.drop (i + 1)), ?_, ?_⟩
  · have hsplit : qs = qs.take i ++ qs[i] :: qs.drop (i + 1) := by simp
    conv_lhs => rw [hsplit]
    simp only [unsettled, List.flatMap_append, List.flatMap_cons, described_append]
    exact add_left_comm _ _ _
  · rw [List.set_eq_take_append_cons_drop, if_pos hi]
    simp only [unsettled, List.flatMap_append, List.flatMap_cons, described_append]
    exact add_left_comm _ _ _

section
variable {cfg : Settings} {policy : HostSettings} {hashRaw : String → String} {ids : List ℤ}
  {db : classroom.Store} {aux : classroom.Aux} {clock : ℤ} {s s' : SiteSystem}

theorem careful_sound (hnd : ids.Nodup) (hdb : HasIds ids db)
    (h : Reach (site cfg policy hashRaw) Careful ⟨db, aux, clock, []⟩ s) :
    s.Sound (HasIds ids) (watchRules policy ids fun h _ => announced h = []) (fun _ h _ => announced h = [])
      fun _ _ => True := by
  have hV : KeepsOn (site cfg policy hashRaw) SiteJob.Watches Careful (HasIds ids)
      (watchRules policy ids fun h _ => announced h = []) (fun _ h _ => announced h = []) :=
    watch_keeps hnd (fun _ _ h => h.1) (fun _ _ => id) fun _ _ q hC hq => hC.2 q hq
  exact h.sound_on hV ⟨fun _ => trivial, fun _ _ => trivial, fun _ _ => trivial⟩ (.init hdb) (by simp)

/-- The account of events and changes, at every moment. -/
theorem published_eq (hnd : ids.Nodup) (hdb : HasIds ids db) (haux : aux.2.published = []) {x : Multiset Change}
    (h : Tally (site cfg policy hashRaw) Careful committed ⟨db, aux, clock, []⟩ s x) :
    described s.aux.2.published = x + unsettled s.reqs := by
  refine h.inv (P := fun (s : SiteSystem) x => described s.aux.2.published = x + unsettled s.reqs) ?_ ?_
  · change described aux.2.published = 0 + 0
    rw [haux]
    rfl
  · intro s x l s' hreach hl hst ih
    cases hst with
    | tick t => exact ih.trans (congrArg (· + _) (add_zero x).symm)
    | arrive j =>
      refine ih.trans ?_
      simp [unsettled, committed]
    | @act i a q q' db' aux' hq ha _ =>
      obtain ⟨rest, hold, hnew⟩ := @unsettled_set s.reqs i q q' hq
      change described aux'.2.published = x + committed s (.act i a) + unsettled (s.reqs.set i q')
      rw [hnew]
      by_cases hcommit : a = .commit
      · subst hcommit
        have hok := ((careful_sound hnd hdb hreach).req i q hq).ok
        simp only [Req.move] at ha
        split at ha
        · rename_i k hk
          cases ha
          rw [hk] at hok
          have hchanges : committed s (.act i .commit) = described (announced q.log) := by
            simp only [committed, hq]
            exact hok.1.1.statusChanges hnd (careful_sound hnd hdb hreach).inv (hl.2 q hq)
          rw [hchanges, ih, hold, announced_commit, described_nil, zero_add, add_assoc]
        · cases ha
      · obtain ⟨es, hann, hpub⟩ := announced_move ha hcommit
        rw [hpub, hann, described_append, described_append, ih, hold, committed_of_ne s i hcommit, add_zero]
        ac_rfl

/-- A request that has ended has committed what it has published. -/
theorem announced_of_ended (hnd : ids.Nodup) (hdb : HasIds ids db)
    (h : Reach (site cfg policy hashRaw) Careful ⟨db, aux, clock, []⟩ s) {q : SiteReq} (hq : q ∈ s.reqs)
    (hended : q.ended = true) : announced q.log = [] := by
  obtain ⟨i, hi⟩ := List.mem_iff_getElem?.1 hq
  have hok := ((careful_sound hnd hdb h).req i q hi).ok
  cases hp : q.prog with
  | ret a | raise e =>
    rw [hp] at hok
    exact hok
  | now | draw | stmt | commit | rollback => simp [Req.ended, hp] at hended

theorem unsettled_of_ended {qs : List SiteReq} (h : ∀ q ∈ qs, q.ended = true → announced q.log = []) :
    unsettled qs = unsettled (qs.filter fun q => !q.ended) := by
  induction qs with
  | nil => rfl
  | cons q qs ih =>
    obtain ⟨hq, hqs⟩ := List.forall_mem_cons.1 h
    have ih' : described (qs.flatMap fun q => announced q.log) = _ := ih hqs
    cases hended : q.ended with
    | true => simp [unsettled, hended, hq hended, ih']
    | false => simp [unsettled, hended, ih']

/-- **Events and committed changes agree** in every careful run: what was
    published is what was committed, each once, and what the requests still
    running will commit; and a subscriber is given nothing else. -/
theorem published_of_tally (hnd : (db.1.hosts.map (·.id)).Nodup) {seqs : Seqs} {n : ℤ} {x : Multiset Change}
    (h : Tally (site cfg policy hashRaw) Careful committed ⟨db, (seqs, ⟨n, []⟩), clock, []⟩ s x) :
    described s.aux.2.published = x + unsettled (s.reqs.filter fun q => !q.ended) ∧
      ∀ (S : Type) [DecidableEq S] (acts : List (HostEventBroker.Act S HostEvent)) (b : HostEventBroker S HostEvent),
        HostEventBroker.exec acts = some b → HostEventBroker.publications acts = s.aux.2.published →
          ∀ i, ∀ e ∈ (b.generators i).yielded,
            e.described ∈ x ∨ ∃ q ∈ s.reqs, q.ended = false ∧ e.described ∈ described (announced q.log) := by
  have haccount := published_eq hnd rfl rfl h
  rw [unsettled_of_ended fun q hq => announced_of_ended hnd rfl h.reach hq] at haccount
  refine ⟨haccount, fun S _ acts b hb hacts i e he => ?_⟩
  have hpub : e.described ∈ described s.aux.2.published :=
    List.mem_map_of_mem (hacts ▸ HostEventBroker.yielded_subset hb i he)
  rw [haccount] at hpub
  refine (Multiset.mem_add.1 hpub).imp id fun hopen => ?_
  obtain ⟨e', he', heq⟩ := List.mem_map.1 hopen
  obtain ⟨q, hq, hmem⟩ := List.mem_flatMap.1 he'
  obtain ⟨hq, hended⟩ := List.mem_filter.1 hq
  exact ⟨q, hq, by simpa using hended, heq ▸ List.mem_map_of_mem hmem⟩

end

/-! ## A host that is silent for a while -/

/-- A tick sets it OFFLINE, and a heartbeat IDLE again. -/
theorem published_of_tally_twice : ∃ (s : SiteSystem) (x : Multiset Change), s.reqs.length = 2 ∧
    Multiset.card x = 2 ∧ described s.aux.2.published = x := by
  have hrun : (tally (site {} {} id) Careful committed (⟨heardOnce, ({}, {}), 100 * secondUs, []⟩, 0)
      [.arrive .tick, .steps 0 "" 40, .arrive (.heartbeat "Bearer agent" ⟨false, 10, 10⟩), .steps 1 "" 40]).any
        (fun p => p.1.reqs.length == 2 && p.1.reqs.all (·.ended) && Multiset.card p.2 == 2) = true := by decide
  have hnd : (heardOnce.1.hosts.map (·.id)).Nodup := List.nodup_singleton _
  obtain ⟨p, hp, hcard⟩ := (Option.any_eq_true _ _).1 hrun
  simp only [Bool.and_eq_true, beq_iff_eq, List.all_eq_true] at hcard
  obtain ⟨haccount, -⟩ := published_of_tally hnd (Tally.of_tally .refl hp)
  have hnone : (p.1.reqs.filter fun q => !q.ended) = [] :=
    List.filter_eq_nil_iff.2 fun q hq => by simp [hcard.1.2 q hq]
  rw [hnone] at haccount
  exact ⟨p.1, p.2, hcard.1.1, hcard.2, haccount.trans (add_zero _)⟩

/-- The commit of a heartbeat fails: its event is out, and nothing is committed.
    Of two heartbeats at once, both publish the change that one of them makes. -/
theorem published_lost :
    (∃ s x, Tally (site {} {} id) (Arrivals SiteJob.Watches) committed ⟨heardOnce, ({}, {}), 0, []⟩ s x ∧
      (∀ q ∈ s.reqs, q.ended = true) ∧ x = 0 ∧ described s.aux.2.published = {(1, .idle, .degraded)} ∧
        ∃ (acts : List (HostEventBroker.Act Unit HostEvent)) (b : HostEventBroker Unit HostEvent),
          HostEventBroker.exec acts = some b ∧ HostEventBroker.publications acts = s.aux.2.published ∧
            (b.generators ()).yielded = s.aux.2.published) ∧
    ∃ s x, Tally (site {} {} id) (Arrivals SiteJob.Watches) committed ⟨heardOnce, ({}, {}), 0, []⟩ s x ∧
      (∀ q ∈ s.reqs, ∃ r, q.prog = .ret r) ∧
        described s.aux.2.published = {(1, .idle, .degraded), (1, .idle, .degraded)} ∧ x = {(1, .idle, .degraded)} := by
  constructor
  · have hrun : (tally (site {} {} id) (Arrivals SiteJob.Watches) committed (⟨heardOnce, ({}, {}), 0, []⟩, 0)
        [.arrive (.heartbeat "Bearer agent" ⟨false, 95, 10⟩), .steps 0 "" 16]).any (fun p =>
          (step (site {} {} id) p.1 (.act 0 .fail)).any fun s => s.reqs.all (·.ended) &&
            decide (described s.aux.2.published = {(1, .idle, .degraded)}) && decide (p.2 = 0)) = true := by decide
    obtain ⟨p, hp, hfail⟩ := (Option.any_eq_true _ _).1 hrun
    obtain ⟨s, hs, hlost⟩ := (Option.any_eq_true _ _).1 hfail
    simp only [Bool.and_eq_true, List.all_eq_true, decide_eq_true_eq] at hlost
    have harr : Arrivals SiteJob.Watches p.1 (.act 0 .fail) := trivial
    refine ⟨s, _, (Tally.of_tally .refl hp).tail harr hs, hlost.1.1, (add_zero p.2).trans hlost.2, hlost.1.2, ?_⟩
    -- one subscriber takes the event
    obtain ⟨e, he⟩ : ∃ e, s.aux.2.published = [e] := by
      refine List.length_eq_one_iff.1 ?_
      have hcard := congrArg Multiset.card hlost.1.2
      simpa [described] using hcard
    rw [he]
    exact ⟨[.take (), .publish e, .subscribe ()], _, rfl, rfl, rfl⟩
  · have hrun : (tally (site {} {} id) (Arrivals SiteJob.Watches) committed (⟨heardOnce, ({}, {}), 0, []⟩, 0)
        [.arrive (.heartbeat "Bearer agent" ⟨false, 95, 10⟩), .arrive (.heartbeat "Bearer agent" ⟨false, 95, 10⟩),
          .steps 0 "" 5, .steps 1 "" 5, .steps 0 "" 40, .steps 1 "" 40]).any (fun p =>
            p.1.reqs.all (fun q => match q.prog with | .ret _ => true | _ => false) &&
              decide (described p.1.aux.2.published = {(1, .idle, .degraded), (1, .idle, .degraded)}) &&
                decide (p.2 = {(1, .idle, .degraded)})) = true := by decide
    obtain ⟨p, hp, htwice⟩ := (Option.any_eq_true _ _).1 hrun
    simp only [Bool.and_eq_true, List.all_eq_true, decide_eq_true_eq] at htwice
    refine ⟨p.1, p.2, Tally.of_tally .refl hp, fun q hq => ?_, htwice.1.2, htwice.2⟩
    have hret := htwice.1.1 q hq
    split at hret
    · exact ⟨_, ‹_›⟩
    · cases hret

end SmartClassroom
