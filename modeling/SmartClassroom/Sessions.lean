/-
  Logins, sessions, and what is done in a session, in any interleaving of the
  routes of `portal`: login, logout, `/me`, the verification of connect tokens,
  and the routes behind `get_current_user`.

  * The constraints of the tables hold (`orderly_of_reach`); all logins of an
    identity lead to its one account, with the role of the first (`logins_agree`).
  * What these routes write in the name of an account was written by a login of
    its identity, or by a request with the cookie of a session that such a login
    opened (`written_by_login`).
  * No request that arrives after a logout with the same cookie, at a route behind
    `get_current_user`, is served (`logout_ends`).
-/
import SmartClassroom.Logins

namespace SmartClassroom

open Txn Prog

/-! ## Constraints -/

/-- A store that satisfies the constraints, with the accounts' columns in both
    tables. -/
structure Orderly (st : campus.Store) : Prop where
  reservations : st.1.1.reservations.Pairwise fun a b => ¬a.Clashes b
  tokens : st.1.1.tokens.Pairwise fun a b => ¬a.Clashes b
  ranges : RangesKept st
  accounts : st.2.Pairwise fun a b => ¬a.Clashes b
  users : st.1.1.users = st.2.map Account.user

/-- Three hosts, and no account yet. -/
def emptyCampus : campus.Store := (({ room with users := [] }, ⟨fun _ => true, fun _ => none⟩), [])

theorem emptyCampus_orderly : Orderly emptyCampus :=
  ⟨.nil, .nil, by simp [RangesKept, RangesNonempty, emptyCampus, room], .nil, rfl⟩

/-- The login of one student, who asks for this role. -/
def loginAs (role : String) : PortalJob :=
  .callback (.form [("external_id", some "2021"), ("display_name", some "Kim"), ("role", some role)]) false

/-- The account that request `i`, this login, is answered with. -/
def loginAnswer (s : Campus) (i : ℕ) (role : String) : Option Account :=
  match s.reqs[i]? with
  | some ⟨.callback (.form items) false, .ret (.loggedIn _ (some (user, _))), _, _, _⟩ =>
    if items = [("external_id", some "2021"), ("display_name", some "Kim"), ("role", some role)] then some user else none
  | _ => none

theorem loginAnswer_eq_some {s : Campus} {i : ℕ} {role : String} {user : Account}
    (h : loginAnswer s i role = some user) : ∃ r ∈ s.reqs, r.job = loginAs role ∧
      ∃ raw expiresAt, r.prog = .ret (.loggedIn raw (some (user, expiresAt))) := by
  unfold loginAnswer at h
  split at h
  · rename_i items raw user' expiresAt log began running hr
    split_ifs at h with hitems
    obtain rfl := Option.some.inj h
    exact ⟨_, List.mem_of_getElem? hr, by rw [loginAs, hitems], raw, expiresAt, rfl⟩
  · cases h

/-- A booking finds nothing pending. -/
def bookingFirst : Rules classroom BrokerError where
  stmt h s := ∀ userId hostId s' e, s = .inl (.insertReservation userId hostId s' e) → pendOf h = []
  commit _ := True
  raise _ _ := True

section
variable {hashRaw : String → String}

/-- The other statements of the broker book nothing and issue no token. -/
theorem more_writes {s : MoreStmt} {b : ℤ} {q : Seqs × Channel} {snap cur : Store × Columns} {w : classroom.Write}
    (hw : w ∈ (s.exec b q snap cur).2.1) : classroomReservations.new w = [] ∧ classroomTokens.new w = [] := by
  cases s with
  | revokeSession | revokeSessionsOf | setActive | heartbeat =>
    obtain rfl := List.mem_singleton.mp hw
    exact ⟨rfl, rfl⟩
  | insertHost x =>
    simp only [MoreStmt.exec] at hw
    split at hw
    · exact absurd hw List.not_mem_nil
    · obtain rfl := List.mem_singleton.mp hw
      exact ⟨rfl, rfl⟩
  | _ => exact absurd hw List.not_mem_nil

theorem more_newReservations (s : MoreStmt) (b : ℤ) (q : Seqs × Channel) (snap cur : Store × Columns) :
    classroomReservations.newAll (s.exec b q snap cur).2.1 = [] :=
  Table.newAll_eq_nil _ fun _ hw => (more_writes hw).1

theorem more_newTokens (s : MoreStmt) (b : ℤ) (q : Seqs × Channel) (snap cur : Store × Columns) :
    classroomTokens.newAll (s.exec b q snap cur).2.1 = [] :=
  Table.newAll_eq_nil _ fun _ hw => (more_writes hw).2

/-- The statements on accounts write to `users` only. -/
theorem directory_writes {s : AccountStmt} {b : ℤ} {q : campus.Aux} {snap cur : campus.Store} {w : campus.Write}
    (hw : w ∈ (s.exec b q snap cur).2.1) : ∃ w', w = .inr w' := by
  cases s with
  | getUser | sessionAccount => exact absurd hw List.not_mem_nil
  | upsertUser i =>
    rcases exec_upsertUser i b q snap cur with hexec | ⟨a, -, -, hexec⟩ | ⟨-, hexec⟩
    · exact absurd (hexec ▸ hw) List.not_mem_nil
    · exact ⟨_, List.mem_singleton.mp (hexec ▸ hw)⟩
    · exact ⟨_, List.mem_singleton.mp (hexec ▸ hw)⟩

/-- A booking is a statement of `broker`. -/
theorem booking_of_new {s : campus.Stmt} {b : ℤ} {q : campus.Aux} {snap cur : campus.Store} {p : Reservation}
    (hp : p ∈ campusReservations.newAll (campus.exec s b q snap cur).2.1) :
    ∃ s' e hostId, s = .inl (.inl (.insertReservation p.userId hostId s' e)) := by
  obtain ⟨w, hw, x, hx, ws', -, rfl⟩ := campusReservations.mem_newAll hp
  rw [(campusReservations_versions.updAll ws' x).userId]
  obtain rfl := eq_insertReservation hx
  rcases writes_broker hw with ⟨s₀, rfl, hws⟩ | ⟨ids, now, h⟩
  · obtain ⟨rfl, -⟩ := writes_insertReservation hws
    exact ⟨_, _, _, rfl⟩
  · cases h

theorem campusReservations_guarded :
    Guarded campusReservations (portalRules hashRaw) Reservation.Clashes := by
  have hmore : Guarded classroomReservations (fun _ : Unit => bookingFirst) Reservation.Clashes := by
    refine (reservations_guarded {}).lift more_newReservations fun {_ h s b aux snap cur p} hs hp r hc => ?_
    cases s with
    | inl s =>
      have hp : p ∈ reservationTable.newAll (s.exec b aux.1 snap.1 cur.1).2.1 :=
        Table.newAll_lift (X := more) (t := reservationTable) _ ▸ hp
      obtain ⟨rfl, -⟩ := mem_newAll_exec_reservation hp
      rw [hs _ _ _ _ rfl]
      exact hc
    | inr s => exact absurd (more_newReservations s b aux snap cur ▸ hp) List.not_mem_nil
  refine hmore.lift (fun s b aux snap cur => Table.newAll_eq_nil _ fun w hw => ?_) fun {j h s b aux snap cur p} hs hp r hc => ?_
  · obtain ⟨w', rfl⟩ := directory_writes hw
    rfl
  · obtain ⟨s', e, hostId, rfl⟩ := booking_of_new hp
    rw [hs.1]
    exact hc

theorem campusTokens_guarded : Guarded campusTokens (portalRules hashRaw) Token.Clashes := by
  have hkeeps : ∀ {p r r' : Token}, r.Evolves r' → p.Clashes r → p.Clashes r' := fun hev hc =>
    (hev.clashes.mpr (hc.imp Eq.symm Eq.symm)).imp Eq.symm Eq.symm
  have hmore : Guarded classroomTokens (fun _ : Unit => bookingFirst) Token.Clashes :=
    (tokens_guarded {}).lift more_newTokens fun _ _ r hc =>
      hkeeps (classroomTokens_versions.updAll _ r) hc
  refine hmore.lift (fun s b aux snap cur => Table.newAll_eq_nil _ fun w hw => ?_) fun _ _ r hc =>
    hkeeps (campusTokens_versions.updAll _ r) hc
  obtain ⟨w', rfl⟩ := directory_writes hw
  rfl

/-- `users` has one row for an id, and for an identity. -/
theorem accounts_guarded : Guarded accountTable (portalRules hashRaw) Account.Clashes where
  symm h := h.symm
  upd {w a _} h := (accountTable_upd w a).clashes.mp h
  checked hp hr h := by
    obtain ⟨i, -, -, hnew⟩ := mem_newAccounts hp
    exact hnew _ hr h
  one {s b q snap cur} := by
    cases s with
    | inl s =>
      refine pairwise_of_length_le_one ?_
      rw [accountTable.newAll_eq_nil fun w hw => ?_]
      · exact Nat.zero_le _
      · obtain ⟨w, -, rfl⟩ := List.mem_map.mp hw
        rfl
    | inr s =>
      cases s with
      | getUser | sessionAccount => exact .nil
      | upsertUser i =>
        refine pairwise_of_length_le_one ?_
        change (accountTable.newAll ((AccountStmt.upsertUser i).exec b q snap cur).2.1).length ≤ 1
        rcases exec_upsertUser i b q snap cur with hexec | ⟨a, -, -, hexec⟩ | ⟨-, hexec⟩ <;> rw [hexec]
        · exact Nat.zero_le _
        · exact Nat.zero_le _
        · exact le_rfl
  waits {s b q snap cur p ws w x} hb hp hw hx h := by
    obtain ⟨i, rfl, rfl, -⟩ := mem_newAccounts hp
    rcases w with w | w
    · exact absurd hx List.not_mem_nil
    · have hb : ws.any (directory.waitsFor (.inr (.upsertUser i)) q snap cur) = false := hb
      have hwait := List.any_eq_false.mp hb (.inr w) hw
      rw [Bool.not_eq_true] at hwait
      have hnot := List.any_eq_false.mp (Bool.or_eq_false_iff.mp hwait).1 x hx
      rcases row_clashes_iff.mp h with hid | hid <;> simp [hid] at hnot
  keeps _ _ r hc := ((accountTable_versions.updAll _ r).clashes.mpr hc.symm).symm

/-- An account has its columns in both tables. -/
theorem users_applyAll_campus (ws : List campus.Write) : ∀ st : campus.Store, st.1.1.users = st.2.map Account.user →
    (campus.applyAll st ws).1.1.users = (campus.applyAll st ws).2.map Account.user := by
  induction ws with
  | nil => exact fun _ h => h
  | cons w ws ih =>
    refine fun st h => ih (campus.apply st w) ?_
    rcases w with (w | w) | w
    · exact h
    · exact h
    · have hkeeps : Account.user ∘ w.onAccount = Account.user := funext fun a => by
        cases w with
        | insertUser => rfl
        | updateProfile ids displayName email =>
          change Account.user (if _ then _ else _) = _
          split_ifs <;> rfl
      change st.1.1.users ++ w.newAccounts.map Account.user = (st.2.map w.onAccount ++ w.newAccounts).map Account.user
      rw [h, List.map_append, List.map_map, hkeeps]

end

section
variable {auth : AuthSettings} {cfg : Settings} {hashRaw : String → String}
  {C : Campus → Label PortalJob ℤ String → Prop} {db : campus.Store} {aux : campus.Aux} {clock : ℤ} {s s' : Campus}

theorem sound_of_portal (hdb : Orderly db) (h : Reach (portal auth cfg hashRaw) C ⟨db, aux, clock, []⟩ s) :
    s.Sound RangesKept (portalRules hashRaw) (portalAnswers hashRaw) Aged :=
  h.sound portal_keeps aged_grows (.init hdb.ranges)

/-- **Every interleaving keeps the store orderly.** -/
theorem orderly_of_reach (hdb : Orderly db) (h : Reach (portal auth cfg hashRaw) C ⟨db, aux, clock, []⟩ s) :
    Orderly s.db where
  reservations := (h.excl campusReservations_guarded portal_keeps aged_grows (.init hdb.ranges)
    ⟨hdb.reservations, by simp, by simp, by simp⟩).db
  tokens := (h.excl campusTokens_guarded portal_keeps aged_grows (.init hdb.ranges)
    ⟨hdb.tokens, by simp, by simp, by simp⟩).db
  ranges := (sound_of_portal hdb h).inv
  accounts := (h.excl accounts_guarded portal_keeps aged_grows (.init hdb.ranges)
    ⟨hdb.accounts, by simp, by simp, by simp⟩).db
  users := h.store_inv (P := fun _ (st : campus.Store) => st.1.1.users = st.2.map Account.user)
    (fun _ _ _ _ hst => hst) (fun _ _ r _ _ _ _ _ hst => users_applyAll_campus _ _ hst) hdb.users

theorem Orderly.account_eq {st : campus.Store} (hst : Orderly st) {a b : Account} (ha : a ∈ st.2) (hb : b ∈ st.2)
    (hab : a.Clashes b) : a = b := eq_of_clash Account.Clashes.symm hst.accounts ha hb hab

theorem Orderly.token_eq {st : campus.Store} (hst : Orderly st) {a b : Token} (ha : a ∈ st.1.1.tokens)
    (hb : b ∈ st.1.1.tokens) (hab : a.Clashes b) : a = b :=
  eq_of_clash (fun h => h.imp Eq.symm Eq.symm) hst.tokens ha hb hab

/-! ## Accounts -/

/-- What a request has seen of the store is there, in a later version. -/
theorem aged_of_log {r : Req campus PortalJob BrokerError PortalReply}
    (hs : r.Sound RangesKept (portalRules hashRaw) (portalAnswers hashRaw) Aged s.db s.clock) {st : campus.Stmt} {b : ℤ}
    {q : campus.Aux} {snap cur : campus.Store} (hmem : .stmt st b q snap cur ∈ r.log) :
    Aged snap s.db ∧ Aged cur s.db := by
  obtain ⟨-, hsnap, hcur⟩ := hs.past _ hmem
  exact ⟨aged_grows.trans hsnap hcur, hcur⟩

/-- The account that a committed request knows. -/
theorem account_of_known (hdb : Orderly db) (h : Reach (portal auth cfg hashRaw) C ⟨db, aux, clock, []⟩ s)
    {r : Req campus PortalJob BrokerError PortalReply} (hr : r ∈ s.reqs) {h₁ : CampusLog}
    (hsuf : .commit :: h₁ <:+ r.log) {a : Account} (ha : a.Known h₁) : ∃ x ∈ s.db.2, a.Keeps x := by
  obtain ⟨i, hi⟩ := List.mem_iff_getElem?.mp hr
  obtain ⟨y, hya, ⟨st, b, q, snap, cur, hmem, hy⟩ | hy⟩ := ha
  · obtain ⟨hsnap, hcur⟩ := aged_of_log ((sound_of_portal hdb h).req i r hi)
      (hsuf.subset (List.mem_cons_of_mem _ hmem))
    obtain ⟨x, hx, hyx⟩ : ∃ x ∈ s.db.2, y.Keeps x := hy.elim (hsnap.accounts y) (hcur.accounts y)
    exact ⟨x, hx, hya.symm.trans hyx⟩
  · obtain ⟨x, hx, hyx⟩ := h.row_of_done accountTable_versions (by simp) r hr _ (mem_doneOf.mpr ⟨h₁, hsuf, hy⟩) y
      (List.mem_singleton_self y)
    exact ⟨x, hx, hya.symm.trans hyx⟩

/-- The answer to a login is the account of its identity. -/
theorem account_of_login (hdb : Orderly db) (h : Reach (portal auth cfg hashRaw) C ⟨db, aux, clock, []⟩ s)
    {r : Req campus PortalJob BrokerError PortalReply} (hr : r ∈ s.reqs) {body : CallbackBody} {wantsHtml : Bool}
    (hjob : r.job = .callback body wantsHtml) {raw : String} {user : Account} {expiresAt : ℤ}
    (hret : r.prog = .ret (.loggedIn raw (some (user, expiresAt)))) :
    ∃ x ∈ s.db.2, user.Keeps x ∧ ∃ i, verifyCallback body = .ok i ∧ x.isOf i = true := by
  obtain ⟨i, hi⟩ := List.mem_iff_getElem?.mp hr
  have hok := ((sound_of_portal hdb h).req i r hi).ok
  rw [hret, hjob] at hok
  obtain ⟨h₁, a, hsuf, hknown, ⟨ha, i, hbody, hai⟩, hid⟩ := hok
  obtain ⟨x, hx, hux⟩ := account_of_known hdb h hr hsuf hknown
  obtain ⟨y, hy, hay⟩ := account_of_known hdb h hr hsuf ha
  obtain rfl : x = y := (orderly_of_reach hdb h).account_eq hx hy (.inl (by rw [hux.id, hay.id, hid]))
  exact ⟨x, hx, hux, i, hbody, (hay.isOf i).trans hai⟩

/-- **Logins of one identity agree**: however they and other requests interleave,
    they are answered with one account and one role, whatever role each of them
    has asked for, and this account is the only one of the identity. -/
theorem logins_agree (hdb : Orderly db) (h : Reach (portal auth cfg hashRaw) C ⟨db, aux, clock, []⟩ s)
    {r r' : Req campus PortalJob BrokerError PortalReply} (hr : r ∈ s.reqs) (hr' : r' ∈ s.reqs)
    {body body' : CallbackBody} {wantsHtml wantsHtml' : Bool} (hjob : r.job = .callback body wantsHtml)
    (hjob' : r'.job = .callback body' wantsHtml') {i i' : UserIdentity} (hi : verifyCallback body = .ok i)
    (hi' : verifyCallback body' = .ok i') (hsame : i.provider = i'.provider ∧ i.externalId = i'.externalId)
    {raw raw' : String} {user user' : Account} {expiresAt expiresAt' : ℤ}
    (hret : r.prog = .ret (.loggedIn raw (some (user, expiresAt))))
    (hret' : r'.prog = .ret (.loggedIn raw' (some (user', expiresAt')))) :
    user.id = user'.id ∧ user.role = user'.role ∧ ∃ x ∈ s.db.2, user.Keeps x ∧ user'.Keeps x ∧ x.isOf i = true ∧
      ∀ y ∈ s.db.2, y.isOf i = true → y = x := by
  obtain ⟨x, hx, hux, j, hj, hxj⟩ := account_of_login hdb h hr hjob hret
  obtain ⟨x', hx', hux', j', hj', hxj'⟩ := account_of_login hdb h hr' hjob' hret'
  obtain rfl : i = j := Except.ok.inj (hi.symm.trans hj)
  obtain rfl : i' = j' := Except.ok.inj (hi'.symm.trans hj')
  have hone {y : Account} (hy : y ∈ s.db.2) (hyi : y.isOf i = true) : y = x := by
    simp only [Account.isOf, Bool.and_eq_true, beq_iff_eq] at hyi hxj
    exact (orderly_of_reach hdb h).account_eq hy hx (.inr ⟨by rw [hyi.1, hxj.1], by rw [hyi.2, hxj.2]⟩)
  have hxi' : x'.isOf i = true := by
    simpa only [Account.isOf, hsame.1, hsame.2] using hxj'
  obtain rfl : x' = x := hone hx' hxi'
  exact ⟨by rw [← hux.id, hux'.id], by rw [← hux.role, hux'.role], x', hx, hux, hux', hxj, fun y hy => hone hy⟩

end

/-- Two logins at once, the first as a user and the second as an admin. -/
theorem logins_agree_student : ∃ (s : Campus) (user user' : Account), loginAnswer s 0 "user" = some user ∧
    loginAnswer s 1 "admin" = some user' ∧ user.id = user'.id ∧ user.role = user'.role := by
  have hrun : ((play (portal {} {} id) Any ⟨emptyCampus, (({}, {}), 1), 0, []⟩
      [.arrive (loginAs "user"), .arrive (loginAs "admin"), .steps 0 "cookie-1" 4, .steps 1 "cookie-2" 3,
        .steps 0 "cookie-1" 30, .steps 1 "cookie-2" 30]).any fun s =>
      (loginAnswer s 0 "user").isSome && (loginAnswer s 1 "admin").isSome) = true := by decide
  obtain ⟨s, hs, hout⟩ := Reach.of_play_any hrun
  rw [Bool.and_eq_true, Option.isSome_iff_exists, Option.isSome_iff_exists] at hout
  obtain ⟨⟨user, huser⟩, user', huser'⟩ := hout
  obtain ⟨r, hr, hjob, raw, expiresAt, hret⟩ := loginAnswer_eq_some huser
  obtain ⟨r', hr', hjob', raw', expiresAt', hret'⟩ := loginAnswer_eq_some huser'
  have hagree := logins_agree emptyCampus_orderly hs hr hr' hjob hjob' rfl rfl ⟨rfl, rfl⟩ hret hret'
  exact ⟨s, user, user', huser, huser', hagree.1, hagree.2.1⟩

/-! ## Sessions -/

section
variable (hashRaw : String → String) (db : campus.Store) (s : Campus)

/-- A session of the account with the cookie was there before the run, or a login
    of its identity has drawn the cookie, or one with its hash. -/
def SessionOf (raw : String) (a : Account) : Prop :=
  (∃ t ∈ db.1.1.tokens, t.purpose = .session ∧ t.jti = hashRaw raw ∧ t.userId = a.id) ∨
  ∃ q ∈ s.reqs, ∃ body wantsHtml i raw', q.job = .callback body wantsHtml ∧ verifyCallback body = .ok i ∧
    a.isOf i = true ∧ .commit ∈ q.log ∧ .draw raw' ∈ q.log ∧ hashRaw raw' = hashRaw raw

/-- The request is a login of the account's identity, or has the cookie of a
    session of the account. -/
def ActedBy (r : Req campus PortalJob BrokerError PortalReply) (a : Account) : Prop := a ∈ s.db.2 ∧
  match r.job with
  | .callback body _ => ∃ i, verifyCallback body = .ok i ∧ a.isOf i = true
  | .logout cookie | .me cookie | .asUser cookie _ => ∃ raw, cookie = some raw ∧ SessionOf hashRaw db s raw a
  | .verify .. => False

end

section
variable {auth : AuthSettings} {cfg : Settings} {hashRaw : String → String}
  {C : Campus → Label PortalJob ℤ String → Prop} {db : campus.Store} {aux : campus.Aux} {clock : ℤ} {s s₁ s₂ : Campus}
  {r : Req campus PortalJob BrokerError PortalReply}

/-- The rules that the request has kept, up to a commit. -/
theorem kept_of_commit (hdb : Orderly db) (h : Reach (portal auth cfg hashRaw) C ⟨db, aux, clock, []⟩ s)
    (hr : r ∈ s.reqs) {h₁ : CampusLog} (hsuf : .commit :: h₁ <:+ r.log) :
    Kept RangesKept (portalRules hashRaw r.job) h₁ := by
  obtain ⟨i, hi⟩ := List.mem_iff_getElem?.mp hr
  exact ((sound_of_portal hdb h).req i r hi).kept.suffix ((List.suffix_cons _ _).trans hsuf)

/-- A session row leads to the login that opened it. -/
theorem sessionOf_of_token (hdb : Orderly db) (h : Reach (portal auth cfg hashRaw) C ⟨db, aux, clock, []⟩ s)
    {t : Token} (ht : t ∈ s.db.1.1.tokens) (hpurpose : t.purpose = .session) {raw : String} (hjti : t.jti = hashRaw raw)
    {a : Account} (ha : a ∈ s.db.2) (hid : t.userId = a.id) : SessionOf hashRaw db s raw a := by
  rcases h.row_from campusTokens_versions t ht with ⟨y, hy, hyt⟩ | ⟨q, hq, w, hw, p, hp, hpt⟩
  · exact .inl ⟨y, hy, hyt.purpose ▸ hpurpose, hyt.jti ▸ hjti, hyt.userId ▸ hid⟩
  · obtain ⟨h₁, hsuf, hw⟩ := mem_doneOf.mp hw
    obtain rfl := eq_insertToken hp
    obtain ⟨⟨b, hb, hbid, -⟩, hopens⟩ := pending_token_acts (kept_of_commit hdb h hq hsuf) hw
    obtain ⟨⟨body, wantsHtml, hjob⟩, raw', hraw', hjti'⟩ := hopens (hpt.purpose ▸ hpurpose)
    rw [hjob] at hb
    obtain ⟨hknown, i, hi, hbi⟩ := hb
    obtain ⟨x, hx, hbx⟩ := account_of_known hdb h hq hsuf hknown
    obtain rfl : x = a := (orderly_of_reach hdb h).account_eq hx ha (.inl (by rw [hbx.id, hbid, ← hpt.userId, hid]))
    refine .inr ⟨q, hq, body, wantsHtml, i, raw', hjob, hi, (hbx.isOf i).trans hbi, hsuf.subset List.mem_cons_self,
      hsuf.subset (List.mem_cons_of_mem _ hraw'), ?_⟩
    rw [← hjti', ← hpt.jti, hjti]

/-- Who acts, acts by a login. -/
theorem actedBy_of_acts (hdb : Orderly db) (h : Reach (portal auth cfg hashRaw) C ⟨db, aux, clock, []⟩ s)
    (hr : r ∈ s.reqs) {h₁ : CampusLog} (hsuf : .commit :: h₁ <:+ r.log) {a : Account}
    (ha : ActsAs hashRaw r.job h₁ a) : ∃ x, ActedBy hashRaw db s r x ∧ a.Keeps x := by
  obtain ⟨i, hi⟩ := List.mem_iff_getElem?.mp hr
  have hcookie : ∀ raw, Identified hashRaw h₁ raw a → ∃ x ∈ s.db.2, SessionOf hashRaw db s raw x ∧ a.Keeps x := by
    rintro raw ⟨-, now, b, q, snap, cur, hmem, hasnap, t, ht, hvalid, hid⟩
    obtain ⟨hsnap, -⟩ := aged_of_log ((sound_of_portal hdb h).req i r hi) (hsuf.subset (List.mem_cons_of_mem _ hmem))
    obtain ⟨x, hx, hax⟩ := hsnap.accounts a hasnap
    obtain ⟨t', ht', htt'⟩ := hsnap.tokens t ht
    simp only [Stmt.valid, Bool.and_eq_true, beq_iff_eq] at hvalid
    refine ⟨x, hx, sessionOf_of_token hdb h ht' (htt'.purpose.trans hvalid.1.1.2) (htt'.jti.trans hvalid.1.1.1) hx ?_, hax⟩
    rw [htt'.userId, hid, hax.id]
  unfold ActedBy
  cases hjob : r.job with
  | callback body wantsHtml =>
    rw [hjob] at ha
    obtain ⟨hknown, i, hbody, hai⟩ := ha
    obtain ⟨x, hx, hax⟩ := account_of_known hdb h hr hsuf hknown
    exact ⟨x, ⟨hx, i, hbody, (hax.isOf i).trans hai⟩, hax⟩
  | logout cookie | me cookie | asUser cookie request =>
    rw [hjob] at ha
    obtain ⟨raw, rfl, hident⟩ := ha
    obtain ⟨x, hx, hsession, hax⟩ := hcookie raw hident
    exact ⟨x, ⟨hx, raw, rfl, hsession⟩, hax⟩
  | verify => exact (hjob ▸ ha).elim

/-- A new reservation is the account's that booked it. -/
theorem booked_by (hdb : Orderly db) (h : Reach (portal auth cfg hashRaw) C ⟨db, aux, clock, []⟩ s) :
    ∀ x ∈ s.db.1.1.reservations, (∃ y ∈ db.1.1.reservations, y.Evolves x) ∨
      ∃ r ∈ s.reqs, ∃ a, ActedBy hashRaw db s r a ∧ a.id = x.userId := by
  intro x hx
  refine (h.row_from campusReservations_versions x hx).imp id ?_
  rintro ⟨r, hr, w, hw, p, hp, hpx⟩
  obtain ⟨h₁, hsuf, hw⟩ := mem_doneOf.mp hw
  obtain rfl := eq_insertReservation hp
  obtain ⟨-, -, a, ha, hid⟩ := pending_reservation_acts (kept_of_commit hdb h hr hsuf) hw
  obtain ⟨b, hb, hab⟩ := actedBy_of_acts hdb h hr hsuf ha
  exact ⟨r, hr, b, hb, by rw [hab.id, hid, hpx.userId]⟩

/-- A reservation is canceled by its account, or an admin's. -/
theorem canceled_by (hdb : Orderly db) (h : Reach (portal auth cfg hashRaw) C ⟨db, aux, clock, []⟩ s) :
    ∀ x ∈ s.db.1.1.reservations, x.status = .canceled →
      (∃ y ∈ db.1.1.reservations, y.status = .canceled ∧ y.Evolves x) ∨
      ∃ r ∈ s.reqs, ∃ a, ActedBy hashRaw db s r a ∧ (a.role = .admin ∨ a.id = x.userId) := by
  intro x hx hcan
  refine (h.row_with campusReservations_versions (fun x => x.status = .canceled) x hx hcan).imp id ?_
  rintro ⟨r, hr, w, hw, hgives⟩
  obtain ⟨h₁, hsuf, hw⟩ := mem_doneOf.mp hw
  have hk := kept_of_commit hdb h hr hsuf
  rcases hgives with ⟨p, hp, hpcan, -⟩ | ⟨y, hy, hycan, hyx⟩
  · -- what is inserted is confirmed
    obtain rfl := eq_insertReservation hp
    rw [(pending_reservation_acts hk hw).2.1] at hpcan
    cases hpcan
  · obtain ⟨ids, now, rfl, hmem⟩ := eq_cancelReservations hy hycan
    obtain ⟨a, ha, b, q, snap, cur, hread, z, hz, hzy, hmay⟩ := pending_cancel_acts hk hw y.id hmem
    obtain ⟨x', hx', hax'⟩ := actedBy_of_acts hdb h hr hsuf ha
    refine ⟨r, hr, x', hx', hmay.imp (fun hadmin => hax'.role.trans hadmin) fun howner => ?_⟩
    -- the reservation that the request has read
    obtain ⟨i, hi⟩ := List.mem_iff_getElem?.mp hr
    obtain ⟨hsnap, -⟩ := aged_of_log ((sound_of_portal hdb h).req i r hi) (hsuf.subset (List.mem_cons_of_mem _ hread))
    obtain ⟨z', hz', hzz'⟩ := hsnap.reservations z hz
    have hxid : x.id = y.id := hyx.id.trans (Write.onReservation_evolves _ y).id
    obtain rfl : z' = x := eq_of_clash Reservation.Clashes.symm (orderly_of_reach hdb h).reservations hz' hx
      (.inl (by rw [hzz'.id, hzy, hxid]))
    rw [hax'.id, ← howner, hzz'.userId]

/-- A new token is the account's that asked for it; agent tokens are admins'. -/
theorem issued_by (hdb : Orderly db) (h : Reach (portal auth cfg hashRaw) C ⟨db, aux, clock, []⟩ s) :
    ∀ t ∈ s.db.1.1.tokens, (∃ y ∈ db.1.1.tokens, y.Evolves t) ∨
      ∃ r ∈ s.reqs, ∃ a, ActedBy hashRaw db s r a ∧ a.id = t.userId ∧ (t.purpose = .agent → a.role = .admin) := by
  intro t ht
  refine (h.row_from campusTokens_versions t ht).imp id ?_
  rintro ⟨r, hr, w, hw, p, hp, hpt⟩
  obtain ⟨h₁, hsuf, hw⟩ := mem_doneOf.mp hw
  obtain rfl := eq_insertToken hp
  obtain ⟨⟨a, ha, hid, hadmin⟩, -⟩ := pending_token_acts (kept_of_commit hdb h hr hsuf) hw
  obtain ⟨b, hb, hab⟩ := actedBy_of_acts hdb h hr hsuf ha
  exact ⟨r, hr, b, hb, by rw [hab.id, hid, hpt.userId], fun hp => hab.role.trans (hadmin (hpt.purpose ▸ hp))⟩

/-- A new audit row names the account that acted. -/
theorem noted_by (hdb : Orderly db) (h : Reach (portal auth cfg hashRaw) C ⟨db, aux, clock, []⟩ s) :
    ∀ e ∈ s.db.1.1.auditLogs, e ∈ db.1.1.auditLogs ∨ ∀ userId, e.entry.actorUserId = some userId →
      ∃ r ∈ s.reqs, ∃ a, ActedBy hashRaw db s r a ∧ a.id = userId := by
  intro e he
  refine (h.row_from campusAudit_versions e he).imp (fun ⟨y, hy, heq⟩ => heq ▸ hy) ?_
  rintro ⟨r, hr, w, hw, p, hp, rfl⟩ userId hid
  obtain ⟨h₁, hsuf, hw⟩ := mem_doneOf.mp hw
  obtain rfl := eq_insertAudit hp
  obtain ⟨a, ha, haid⟩ := pending_audit_acts (kept_of_commit hdb h hr hsuf) hw hid
  obtain ⟨b, hb, hab⟩ := actedBy_of_acts hdb h hr hsuf ha
  exact ⟨r, hr, b, hb, hab.id.trans haid⟩

/-- **What is written, is written by a login.**  In any interleaving of the routes
    of `portal` a new reservation, a cancellation, a new token and a new audit row
    are the work of a request that logs the account in that they name, or presents
    the cookie of a session of this account; a cancellation may be an admin's, an
    agent token is one. -/
theorem written_by_login (hdb : Orderly db) (h : Reach (portal auth cfg hashRaw) C ⟨db, aux, clock, []⟩ s) :
    (∀ x ∈ s.db.1.1.reservations, (∃ y ∈ db.1.1.reservations, y.Evolves x) ∨
      ∃ r ∈ s.reqs, ∃ a, ActedBy hashRaw db s r a ∧ a.id = x.userId) ∧
    (∀ x ∈ s.db.1.1.reservations, x.status = .canceled →
      (∃ y ∈ db.1.1.reservations, y.status = .canceled ∧ y.Evolves x) ∨
      ∃ r ∈ s.reqs, ∃ a, ActedBy hashRaw db s r a ∧ (a.role = .admin ∨ a.id = x.userId)) ∧
    (∀ t ∈ s.db.1.1.tokens, (∃ y ∈ db.1.1.tokens, y.Evolves t) ∨
      ∃ r ∈ s.reqs, ∃ a, ActedBy hashRaw db s r a ∧ a.id = t.userId ∧ (t.purpose = .agent → a.role = .admin)) ∧
    ∀ e ∈ s.db.1.1.auditLogs, e ∈ db.1.1.auditLogs ∨ ∀ userId, e.entry.actorUserId = some userId →
      ∃ r ∈ s.reqs, ∃ a, ActedBy hashRaw db s r a ∧ a.id = userId :=
  ⟨booked_by hdb h, canceled_by hdb h, issued_by hdb h, noted_by hdb h⟩

/-- A student logs in and books. -/
theorem written_by_login_student : ∃ s : Campus, s.db.1.1.reservations.length = 1 ∧
    ∀ x ∈ s.db.1.1.reservations, ∃ r ∈ s.reqs, ∃ a, ActedBy id emptyCampus s r a ∧ a.id = x.userId := by
  have hrun : ((play (portal {} {} id) Any ⟨emptyCampus, (({}, {}), 1), 0, []⟩
      [.arrive (loginAs "user"), .steps 0 "cookie-1" 30,
        .arrive (.asUser (some "cookie-1") (.create 1 (.utc hourUs) (.utc (2 * hourUs)))), .steps 1 "" 40]).any
      fun s => s.db.1.1.reservations.length == 1) = true := by decide
  obtain ⟨s, hs, hlen⟩ := Reach.of_play_any hrun
  refine ⟨s, beq_iff_eq.mp hlen, fun x hx => ?_⟩
  rcases (written_by_login emptyCampus_orderly hs).1 x hx with ⟨y, hy, -⟩ | hacted
  · exact absurd hy List.not_mem_nil
  · exact hacted

/-! ## Logging out -/

/-- The row of a session is revoked. -/
def RevokedSession (t : Token) (st : campus.Store) : Prop :=
  ∃ t' ∈ st.1.1.tokens, t.Evolves t' ∧ t'.revokedAt.isSome = true

theorem RevokedSession.mono {t : Token} {st st' : campus.Store} (h : RevokedSession t st) (ha : Aged st st') :
    RevokedSession t st' := by
  obtain ⟨t', ht', htt', hrev⟩ := h
  obtain ⟨t'', ht'', htt''⟩ := ha.tokens t' ht'
  exact ⟨t'', ht'', htt'.trans htt'', htt''.revoked hrev⟩

/-- A logout that is answered has revoked the session, or another request has. -/
theorem revoked_of_logout (hdb : Orderly db) (h : Reach (portal auth cfg hashRaw) C ⟨db, aux, clock, []⟩ s)
    (h₁ : Reach (portal auth cfg hashRaw) C s s₁) {t : Token} (ht : t ∈ s.db.1.1.tokens) (hsession : t.purpose = .session)
    {raw : String} (hjti : t.jti = hashRaw raw) {i : ℕ} {q : Req campus PortalJob BrokerError PortalReply}
    (hi : s.reqs.length ≤ i) (hq : s₁.reqs[i]? = some q) (hended : Ended hashRaw q.log raw) : RevokedSession t s₁.db := by
  obtain ⟨now, b, aux', snap, cur, hmem, hrevoke⟩ := hended
  have hsound := (sound_of_portal hdb (h.trans h₁)).req i q hq
  obtain ⟨-, hsnapcur, hcurdb⟩ := hsound.past _ hmem
  -- the row in the snapshot, and in its latest version
  obtain ⟨x, hx, htx⟩ : ∃ x ∈ snap.1.1.tokens, t.Evolves x :=
    ((h₁.saw (P := fun st => ∃ x ∈ st.1.1.tokens, t.Evolves x)
      (fun s' h' => h'.grows campusTokens_versions.grows t ht) hi hq).1 _ _ _ _ _ hmem).1
  obtain ⟨y, hy, hxy⟩ := hsnapcur.tokens x hx
  by_cases hrev : y.revokedAt.isSome = true
  · exact RevokedSession.mono ⟨y, hy, htx.trans hxy, hrev⟩ hcurdb
  · have hnone : x.revokedAt.isNone = true ∧ y.revokedAt.isNone = true := by
      have hx : ¬x.revokedAt.isSome = true := fun hsome => hrev (hxy.revoked hsome)
      rw [Option.not_isSome_iff_eq_none] at hx hrev
      exact ⟨by rw [hx]; rfl, by rw [hrev]; rfl⟩
    have hhit : t.id ∈ Stmt.hits Token.id (MoreStmt.sessionOf (hashRaw raw)) snap.1.1.tokens cur.1.1.tokens := by
      refine mem_hits.mpr ⟨⟨y, hy, ?_, (htx.trans hxy).id⟩, x, hx, ?_, htx.id⟩
      · simp [MoreStmt.sessionOf, (htx.trans hxy).jti, (htx.trans hxy).purpose, hjti, hsession, hnone.2]
      · simp [MoreStmt.sessionOf, htx.jti, htx.purpose, hjti, hsession, hnone.1]
    refine h₁.row_updated campusTokens_versions (P := fun z => z.revokedAt.isSome = true) (fun z hz => ?_)
      (fun hz hzz' => hzz'.revoked hz) ht i q hi hq (hrevoke (List.ne_nil_of_mem hhit))
    change ((Write.revokeTokens _ now).onToken z).revokedAt.isSome = true
    rw [Write.onToken, if_pos (List.contains_iff_mem.mpr (hz.id ▸ hhit))]
    rfl

/-- **A logout ends the session**: no request that arrives after it has been
    answered, with the same cookie and at a route behind `get_current_user`, is
    served. -/
theorem logout_ends (hdb : Orderly db) (h : Reach (portal auth cfg hashRaw) C ⟨db, aux, clock, []⟩ s)
    {t : Token} (ht : t ∈ s.db.1.1.tokens) (hsession : t.purpose = .session) {raw : String} (hjti : t.jti = hashRaw raw)
    (h₁ : Reach (portal auth cfg hashRaw) C s s₁) {i : ℕ} {q : Req campus PortalJob BrokerError PortalReply}
    (hi : s.reqs.length ≤ i) (hq : s₁.reqs[i]? = some q) (hjob : q.job = .logout (some raw))
    (hout : q.prog = .ret .loggedOut) (h₂ : Reach (portal auth cfg hashRaw) C s₁ s₂) {k : ℕ} (hk : s₁.reqs.length ≤ k)
    (hr : s₂.reqs[k]? = some r) (hcookie : r.job = .me (some raw) ∨ ∃ request, r.job = .asUser (some raw) request) :
    doneOf r.log = [] ∧ ∀ reply, r.prog ≠ .ret reply := by
  have hreach := (h.trans h₁).trans h₂
  have hnever : ∀ a h₀, h₀ <:+ r.log → ¬ActsAs hashRaw r.job h₀ a := by
    intro a h₀ hs ha
    have hident : Identified hashRaw h₀ raw a := by
      rcases hcookie with hcookie | ⟨request, hcookie⟩ <;> rw [hcookie] at ha <;> obtain ⟨raw', hraw', hi⟩ := ha
      · cases hraw'
        exact hi
      · cases hraw'
        exact hi
    obtain ⟨hne, now, b, aux', snap, cur, hmem, -, x, hx, hvalid, -⟩ := hident
    have hrevoked : RevokedSession t s₁.db := by
      have hok := ((sound_of_portal hdb (h.trans h₁)).req i q hq).ok
      rw [hout, hjob] at hok
      exact revoked_of_logout hdb h h₁ ht hsession hjti hi hq (hok.resolve_left hne)
    obtain ⟨⟨y, hy, hty, hrev⟩, horderly⟩ : RevokedSession t snap ∧ Orderly snap :=
      ((h₂.saw (P := fun st => RevokedSession t st ∧ Orderly st) (fun s' h' =>
        ⟨hrevoked.mono (h'.grows aged_grows), orderly_of_reach hdb ((h.trans h₁).trans h')⟩) hk hr).1 _ _ _ _ _
          (hs.subset hmem)).1
    -- the row that is valid has the hash of the cookie, too
    simp only [Stmt.valid, Bool.and_eq_true, beq_iff_eq] at hvalid
    obtain rfl : x = y := horderly.token_eq hx hy (.inr (by rw [hvalid.1.1.1, hty.jti, hjti]))
    have hactive := hvalid.1.2
    rw [Token.active, Bool.and_eq_true, Option.isNone_iff_eq_none] at hactive
    simp [hactive.1] at hrev
  have hsound := (sound_of_portal hdb hreach).req k r hr
  constructor
  · rw [List.eq_nil_iff_forall_not_mem]
    intro w hw
    obtain ⟨h₀, hsuf, -⟩ := mem_doneOf.mp hw
    have hcommit := (hsound.kept.suffix hsuf).1
    rcases hcookie with hcookie | ⟨request, hcookie⟩ <;> rw [hcookie] at hcommit <;> obtain ⟨a, ha⟩ := hcommit
    · exact hnever a h₀ ((List.suffix_cons _ _).trans hsuf) (hcookie ▸ ha)
    · exact hnever a h₀ ((List.suffix_cons _ _).trans hsuf) (hcookie ▸ ha)
  · intro reply hret
    have hok := hsound.ok
    rw [hret] at hok
    rcases hcookie with hcookie | ⟨request, hcookie⟩ <;> rw [hcookie] at hok
    · obtain ⟨user, -, ha⟩ := hok
      exact hnever user r.log List.suffix_rfl (hcookie ▸ ha)
    · obtain ⟨a, ha⟩ := hok
      exact hnever a r.log List.suffix_rfl (hcookie ▸ ha)

end

/-- Request `i` is a logout with the cookie, and answered. -/
def logoutAnswered (s : Campus) (i : ℕ) (raw : String) : Bool :=
  match s.reqs[i]? with
  | some ⟨.logout (some cookie), .ret .loggedOut, _, _, _⟩ => cookie == raw
  | _ => false

theorem exists_logout {s : Campus} {i : ℕ} {raw : String} (h : logoutAnswered s i raw = true) :
    ∃ q, s.reqs[i]? = some q ∧ q.job = .logout (some raw) ∧ q.prog = .ret .loggedOut := by
  unfold logoutAnswered at h
  split at h
  · rename_i hq
    exact ⟨_, hq, by rw [beq_iff_eq.mp h], rfl⟩
  · cases h

/-- Request `i` asks who has the cookie, and has ended. -/
def meEnded (s : Campus) (i : ℕ) (raw : String) : Bool :=
  match s.reqs[i]? with
  | some ⟨.me (some cookie), .raise _, _, _, _⟩ => cookie == raw
  | _ => false

theorem exists_me {s : Campus} {i : ℕ} {raw : String} (h : meEnded s i raw = true) :
    ∃ q, s.reqs[i]? = some q ∧ q.job = .me (some raw) ∧ q.ended = true := by
  unfold meEnded at h
  split at h
  · rename_i hq
    exact ⟨_, hq, by rw [beq_iff_eq.mp h], rfl⟩
  · cases h

/-- A login, a logout, and a request with the old cookie. -/
theorem logout_ends_student : ∃ (s : Campus) (r : Req campus PortalJob BrokerError PortalReply), s.reqs[2]? = some r ∧
    r.job = .me (some "cookie-1") ∧ r.ended = true ∧ doneOf r.log = [] ∧ ∀ reply, r.prog ≠ .ret reply := by
  have hrun : ((play (portal {} {} id) Any ⟨emptyCampus, (({}, {}), 1), 0, []⟩
      [.arrive (loginAs "user"), .steps 0 "cookie-1" 30]).any fun s =>
        s.reqs.length == 1 && (s.db.1.1.tokens.any fun t => t.purpose == .session && t.jti == "cookie-1") &&
        (play (portal {} {} id) Any s [.arrive (.logout (some "cookie-1")), .steps 1 "" 30]).any fun s₁ =>
          s₁.reqs.length == 2 && logoutAnswered s₁ 1 "cookie-1" &&
          (play (portal {} {} id) Any s₁ [.arrive (.me (some "cookie-1")), .steps 2 "" 30]).any fun s₂ =>
            meEnded s₂ 2 "cookie-1") = true := by decide
  obtain ⟨s, hs, hout⟩ := Reach.of_play_any hrun
  rw [Bool.and_eq_true, Bool.and_eq_true, beq_iff_eq, List.any_eq_true] at hout
  obtain ⟨⟨hlen, t, ht, hsession⟩, hout⟩ := hout
  rw [Bool.and_eq_true, beq_iff_eq, beq_iff_eq] at hsession
  obtain ⟨s₁, hs₁, hout⟩ := Reach.of_play_any hout
  rw [Bool.and_eq_true, Bool.and_eq_true, beq_iff_eq] at hout
  obtain ⟨⟨hlen₁, hlogout⟩, hout⟩ := hout
  obtain ⟨s₂, hs₂, hme⟩ := Reach.of_play_any hout
  obtain ⟨q, hq, hjob, hret⟩ := exists_logout hlogout
  obtain ⟨r, hr, hcookie, hended⟩ := exists_me hme
  exact ⟨s₂, r, hr, hcookie, hended, logout_ends emptyCampus_orderly hs ht hsession.1 hsession.2 hs₁ hlen.le hq hjob hret
    hs₂ hlen₁.le hr (.inl hcookie)⟩

end SmartClassroom
