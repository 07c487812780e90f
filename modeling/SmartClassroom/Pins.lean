/-
  The PINs that the broker relays, in any interleaving.

  A PIN goes only to a host with a live connect token, under a reservation of this
  host (`pins_posted`).  A pairing that was answered, or has failed, has left one
  audit row with the number of its POSTs, which are those of `pushPin`; one that
  was refused has left nothing (`pairings_recorded`).
-/
import SmartClassroom.Logins
import SmartClassroom.Relay

namespace SmartClassroom

open Txn Prog

abbrev RelayLog := List (Ev relayed)

/-- The POSTs. -/
def pinbox : Outbox relayed PinRequest where
  sent aux := aux.2.posted
  sends s := match s with
    | .inr (.post request) => [request]
    | _ => []
  sent_exec s b aux snap cur := by
    rcases s with s | s
    · exact (List.append_nil _).symm
    · cases s with
      | post request => rfl
      | getPairable | setSunshineToken => exact (List.append_nil _).symm

/-- What a request has posted. -/
abbrev pinsOf (h : RelayLog) : List PinRequest := pinbox.sentIn h

/-- The POSTs of a relay. -/
def postsIn (events : List PinEvent) : List PinRequest := events.filterMap fun e =>
  match e with
  | .post request => some request
  | .sleep _ | .aclose => none

/-- The attempts that a result counts. -/
def attemptsOf : Except PinFailure PairingResult → Option ℕ
  | .ok result => some result.attempts
  | .error (.pairing e) => some e.attempts
  | .error (.escaped _) => none

/-! ## Attempts -/

section
variable (refuses : PinRequest → Option PinFault) (request : PinRequest) (base : PyFloat) (maxAttempts : ℕ)
  (outcome : ℕ → PinOutcome)

theorem attemptsOf_judge {attempt m : ℕ} {o : PinOutcome} {result : Except PinFailure PairingResult}
    (h : judge attempt o = .inl result) (hm : attemptsOf result = some m) : m = attempt := by
  cases o with
  | transportError => cases h
  | response statusCode body =>
    simp only [judge] at h
    split_ifs at h
    · cases h
      cases hm
    · cases h
      exact (Option.some.inj hm).symm
    · split at h
      · split_ifs at h
        cases h
        exact (Option.some.inj hm).symm
      · cases h
        cases hm
    · cases h
      exact (Option.some.inj hm).symm

/-- A wait posts nothing. -/
theorem postsIn_pause (attempt : ℕ) : postsIn (pause base maxAttempts attempt).1 = [] := by
  unfold pause backoff
  split_ifs
  · rfl
  · cases base.scaleb (attempt - 1) with
    | num | nan => rfl
    | inf negative => cases negative <;> rfl
  · rfl

theorem postsIn_closing (ownsClient : Bool) (result : Except PinFailure PairingResult) :
    postsIn (closing ownsClient result) = [] := by
  unfold closing
  split_ifs <;> rfl

theorem postsIn_append (events events' : List PinEvent) : postsIn (events ++ events') = postsIn events ++ postsIn events' :=
  List.filterMap_append

/-- The result of the loop has the number of its POSTs. -/
theorem attemptsOf_tryFrom : ∀ (left first : ℕ) (reason : String) {m : ℕ}, first + left = maxAttempts + 1 →
    attemptsOf (tryFrom refuses request base maxAttempts outcome first reason left).2 = some m →
      m + 1 = first + (postsIn (tryFrom refuses request base maxAttempts outcome first reason left).1).length
  | 0, first, reason, m, hfirst, hm => by
    have hexhausted : (exhausted reason maxAttempts).attempts = maxAttempts := by
      unfold exhausted
      split_ifs <;> rfl
    obtain rfl : maxAttempts = m := hexhausted.symm.trans (Option.some.inj hm)
    exact hfirst.symm
  | left + 1, first, reason, m, hfirst, hm => by
    unfold tryFrom at hm ⊢
    cases hsends : refuses request with
    | some fault => simp [hsends, attemptsOf] at hm
    | none =>
      simp only [hsends] at hm ⊢
      cases hjudge : judge first (outcome first) with
      | inl result =>
        simp only [hjudge] at hm ⊢
        rw [attemptsOf_judge hjudge hm]
        rfl
      | inr reason' =>
        simp only [hjudge] at hm ⊢
        cases hpause : (pause base maxAttempts first).2 with
        | some fault => simp [hpause, attemptsOf] at hm
        | none =>
          simp only [hpause] at hm ⊢
          have hrest := attemptsOf_tryFrom left (first + 1) reason' (by omega) hm
          rw [List.cons_append, ← List.singleton_append, postsIn_append, postsIn_append, postsIn_pause, List.nil_append,
            List.length_append]
          change m + 1 = first + (1 + _)
          omega

/-- `push_pin` counts its POSTs. -/
theorem attemptsOf_pushPin {settings : SunshineSettings} {host : Host} {key : Option String} {pin : String}
    {reservationId : ℤ} {ownsClient : Bool} {m : ℕ}
    (hm : attemptsOf (pushPin host key pin reservationId settings ownsClient refuses outcome).2 = some m) :
    m = (postsIn (pushPin host key pin reservationId settings ownsClient refuses outcome).1).length := by
  unfold pushPin at hm ⊢
  split at hm
  · rename_i ip token _
    by_cases hempty : ip = "" ∨ token = ""
    · rw [if_pos hempty] at hm ⊢
      exact (Option.some.inj hm).symm
    · rw [if_neg hempty] at hm ⊢
      have hloop := attemptsOf_tryFrom refuses (pinRequest ip token pin reservationId settings)
        settings.sunshinePairBackoffBaseSeconds _ outcome (max 1 settings.sunshinePairMaxAttempts).toNat 1 "unreachable"
        (Nat.add_comm _ _) hm
      simp only [postsIn_append, postsIn_closing, List.append_nil]
      omega
  · exact (Option.some.inj hm).symm

end

/-! ## What a pairing meets -/

/-- The connect token was live, and its host had this Sunshine token, at moments of `w`. -/
structure Meets (hashRaw : String → String) (w : Sight relayed) (rawToken : String) (token : Token) (host : Host)
    (key : Option String) (reservationId : ℤ) : Prop where
  live : ∃ st now, w.store st ∧ w.time now ∧ token ∈ st.1.tokens ∧
    Stmt.valid .connect (hashRaw rawToken) now token = true
  there : ∃ st, w.store st ∧ host ∈ st.1.hosts ∧ st.2 host.id = key
  hostId_eq : token.hostId = some host.id
  reservationId_eq : token.reservationId = some reservationId

section
variable (settings : SunshineSettings) (refuses : PinRequest → Option PinFault) (isDigit : Char → Bool)
  (hashRaw : String → String)

/-- A PIN may be posted with this request. -/
def Admits (w : Sight relayed) (rawToken pin : String) (request : PinRequest) : Prop :=
  ∃ token host ip key reservationId, Meets hashRaw w rawToken token host (some key) reservationId ∧
    host.ipAddress = some ip ∧ ip ≠ "" ∧ key ≠ "" ∧ request = pinRequest ip key pin reservationId settings

/-- Why a pairing is refused at once. -/
inductive Rejects (w : Sight relayed) (rawToken pin : String) : BrokerError → Prop where
  | malformed : pairingRequestErrors isDigit rawToken pin ≠ [] →
    Rejects w rawToken pin (.requestValidation (pairingRequestErrors isDigit rawToken pin))
  | dead {st : relayed.Store} {now : ℤ} : w.store st → w.time now →
    (∀ t ∈ st.1.tokens, Stmt.valid .connect (hashRaw rawToken) now t = false) → Rejects w rawToken pin invalidConnectToken
  | unreserved {st : relayed.Store} {now : ℤ} {t : Token} : w.store st → w.time now → t ∈ st.1.tokens →
    Stmt.valid .connect (hashRaw rawToken) now t = true → t.reservationId = none →
      Rejects w rawToken pin invalidConnectToken
  | hostMissing {st st' : relayed.Store} {now : ℤ} {t : Token} : w.store st → w.time now → t ∈ st.1.tokens →
    Stmt.valid .connect (hashRaw rawToken) now t = true → w.store st' →
      (∀ host ∈ st'.1.hosts, t.hostId ≠ some host.id) → Rejects w rawToken pin hostMissing

/-- The POSTs in `h` are those of `push_pin`, with this result; the audit row of
    `entry` is what was committed. -/
def Relays (w : Sight relayed) (h : RelayLog) (rawToken pin : String) (host : Host)
    (result : Except PinFailure PairingResult) (entry : Token → ℤ → AuditEntry) (x : AuditLog) : Prop :=
  ∃ token key reservationId outcome, Meets hashRaw w rawToken token host key reservationId ∧
    result = (pushPin host key pin reservationId settings true refuses outcome).2 ∧
    pinsOf h = postsIn (pushPin host key pin reservationId settings true refuses outcome).1 ∧
    doneOf h = [.inl (.insertAudit x)] ∧ x.entry = entry token reservationId

/-! ## The rules -/

/-- A pairing commits once, its audit row, and reads besides. -/
def pairRules (rawToken pin : String) : Rules relayed BrokerError where
  stmt h s := doneOf h = [] ∧ match s with
    | .inr (.post request) => Admits settings hashRaw (Sight.of h) rawToken pin request
    | .inl (.tokenByJti ..) | .inl (.insertAudit _) | .inr (.getPairable _) => True
    | _ => False
  commit h := doneOf h = []
  raise h err := doneOf h = [] ∧ (err.internal = true ∨
      pinsOf h = [] ∧ Rejects isDigit hashRaw (Sight.of h) rawToken pin err) ∨
    ∃ host e x, err = e.http ∧
      Relays settings refuses hashRaw (Sight.of h) h rawToken pin host (.error (.pairing e))
        (fun token reservationId => pairingFailed token host reservationId e) x

/-- What a request keeps to. -/
def relayRules (cfg : Settings) : RelayJob → Rules relayed BrokerError
  | .broker j => (rules cfg j).after []
  | .pair rawToken pin => pairRules settings refuses isDigit hashRaw rawToken pin
  | .setSunshineToken .. => {
      stmt _ s := match s with
        | .inr (.getPairable _) | .inr (.setSunshineToken ..) => True
        | _ => False
      commit _ := True
      raise _ _ := True }

/-- What an answer says of the history of its request. -/
def relayAnswers (j : RelayJob) (h : RelayLog) (reply : RelayReply) : Prop :=
  match j with
  | .pair rawToken pin => ∃ host result x, reply = .paired "paired_pending" (.ofHost host) ∧
      Relays settings refuses hashRaw (Sight.of h) h rawToken pin host (.ok result)
        (fun token reservationId => pairingSucceeded token host reservationId result) x
  | _ => True

end

/-! ## The relay -/

/-- `h'` goes on from `h` with these POSTs, and nothing else that counts. -/
structure Sent (h h' : RelayLog) (requests : List PinRequest) : Prop where
  suffix : h <:+ h'
  pend : pendOf h' = pendOf h
  done : doneOf h' = doneOf h
  pins : pinsOf h' = pinsOf h ++ requests

section
variable {settings : SunshineSettings} {refuses : PinRequest → Option PinFault} {isDigit : Char → Bool}
  {hashRaw : String → String} {w w' : Sight relayed}
  {rawToken pin : String}

theorem Meets.mono (hw : w ≤ w') {token : Token} {host : Host} {key : Option String} {reservationId : ℤ}
    (h : Meets hashRaw w rawToken token host key reservationId) : Meets hashRaw w' rawToken token host key reservationId := by
  obtain ⟨⟨st, now, hst, hnow, ht⟩, ⟨st', hst', hhost⟩, hid, hres⟩ := h
  exact ⟨⟨st, now, hw.1 st hst, hw.2 now hnow, ht⟩, ⟨st', hw.1 st' hst', hhost⟩, hid, hres⟩

theorem Admits.mono (hw : w ≤ w') {request : PinRequest} (h : Admits settings hashRaw w rawToken pin request) :
    Admits settings hashRaw w' rawToken pin request := by
  obtain ⟨token, host, ip, key, reservationId, hmeets, hrest⟩ := h
  exact ⟨token, host, ip, key, reservationId, hmeets.mono hw, hrest⟩

theorem Rejects.mono (hw : w ≤ w') {err : BrokerError} (h : Rejects isDigit hashRaw w rawToken pin err) :
    Rejects isDigit hashRaw w' rawToken pin err := by
  cases h with
  | malformed herr => exact .malformed herr
  | dead hst hnow hdead => exact .dead (hw.1 _ hst) (hw.2 _ hnow) hdead
  | unreserved hst hnow ht hvalid hnone => exact .unreserved (hw.1 _ hst) (hw.2 _ hnow) ht hvalid hnone
  | hostMissing hst hnow ht hvalid hst' hnone => exact .hostMissing (hw.1 _ hst) (hw.2 _ hnow) ht hvalid (hw.1 _ hst') hnone

/-- An attempt has its own outcome and those after it. -/
theorem tryFrom_congr {request : PinRequest} {base : PyFloat} {maxAttempts : ℕ} {outcome outcome' : ℕ → PinOutcome} :
    ∀ (left first : ℕ) (reason : String), (∀ i, first ≤ i → outcome i = outcome' i) →
      tryFrom refuses request base maxAttempts outcome first reason left =
        tryFrom refuses request base maxAttempts outcome' first reason left
  | 0, first, reason, _ => rfl
  | left + 1, first, reason, h => by
    have hrest (reason' : String) : tryFrom refuses request base maxAttempts outcome (first + 1) reason' left =
        tryFrom refuses request base maxAttempts outcome' (first + 1) reason' left :=
      tryFrom_congr left (first + 1) reason' fun i hi => h i (by omega)
    simp only [tryFrom, h first le_rfl, hrest]

variable {I : relayed.Store → Prop}

/-- The loop posts what `tryFrom` posts, for the outcomes that it gets. -/
theorem relayFrom_ok {request : PinRequest} (base : PyFloat) (maxAttempts : ℕ) : ∀ (left attempt : ℕ) (reason : String)
    {h : RelayLog}, doneOf h = [] → Admits settings hashRaw (Sight.of h) rawToken pin request →
    (relayFrom refuses request base maxAttempts attempt reason left).Ok I
      (pairRules settings refuses isDigit hashRaw rawToken pin) (fun h' result => ∃ outcome,
        result = (tryFrom refuses request base maxAttempts outcome attempt reason left).2 ∧
        Sent h h' (postsIn (tryFrom refuses request base maxAttempts outcome attempt reason left).1)) h
  | 0, attempt, reason, h, _, _ =>
    ⟨fun _ => .transportError, rfl, List.suffix_rfl, rfl, rfl, (List.append_nil _).symm⟩
  | left + 1, attempt, reason, h, hdone, hadmits => by
    unfold relayFrom tryFrom
    cases hsends : refuses request with
    | some fault => exact ⟨fun _ => .transportError, rfl, List.suffix_rfl, rfl, rfl, (List.append_nil _).symm⟩
    | none =>
      refine Ok.bind (Q := fun h' _ => Sent h h' [request]) ⟨⟨hdone, hadmits⟩, fun b q snap cur _ _ => ?_⟩ ?_
      · exact ⟨List.suffix_cons _ _, List.append_nil _, rfl, rfl⟩
      intro h' (o : PinOutcome) hsent
      cases hjudge : judge attempt o with
      | inl result =>
        refine ⟨fun _ => o, ?_, ?_⟩
        · simp only [hjudge]
        · simp only [hjudge]
          exact hsent
      | inr reason' =>
        have hposted (events : List PinEvent) : postsIn (.post request :: (pause base maxAttempts attempt).1 ++ events) =
            request :: postsIn events := by
          rw [List.cons_append, ← List.singleton_append, postsIn_append, postsIn_append, postsIn_pause]
          rfl
        cases hpause : (pause base maxAttempts attempt).2 with
        | some fault =>
          dsimp only
          refine ⟨fun _ => o, ?_, ?_⟩
          · simp only [hjudge]
          · simp only [hjudge]
            have hone := hposted []
            rw [List.append_nil] at hone
            rw [hone]
            exact hsent
        | none =>
          dsimp only
          refine (relayFrom_ok base maxAttempts left (attempt + 1) reason' (hsent.done.trans hdone)
            (hadmits.mono (Sight.of_mono hsent.suffix))).mono fun h'' result hresult => ?_
          obtain ⟨outcome, hout, hsent'⟩ := hresult
          let outcome' := fun i => if i = attempt then o else outcome i
          have hrest : tryFrom refuses request base maxAttempts outcome' (attempt + 1) reason' left =
              tryFrom refuses request base maxAttempts outcome (attempt + 1) reason' left :=
            tryFrom_congr left (attempt + 1) reason' fun i hi => if_neg (by omega)
          have hfirst : judge attempt (outcome' attempt) = .inr reason' := by simpa [outcome'] using hjudge
          refine ⟨outcome', ?_, hsent.suffix.trans hsent'.suffix, hsent'.pend.trans hsent.pend,
            hsent'.done.trans hsent.done, ?_⟩
          · simp only [hfirst, hrest, hout]
          · simp only [hfirst, hrest, hposted]
            rw [hsent'.pins, hsent.pins, List.append_assoc]
            rfl

/-- `relayPin` is `pushPin`, for the outcomes that it gets. -/
theorem relayPin_ok {host : Host} {key : Option String} {reservationId : ℤ} {h : RelayLog} (hdone : doneOf h = [])
    (hadmits : ∀ ip token, host.ipAddress = some ip → key = some token → ip ≠ "" → token ≠ "" →
      Admits settings hashRaw (Sight.of h) rawToken pin (pinRequest ip token pin reservationId settings)) :
    (relayPin refuses settings host key pin reservationId).Ok I (pairRules settings refuses isDigit hashRaw rawToken pin)
      (fun h' result => ∃ outcome, result = (pushPin host key pin reservationId settings true refuses outcome).2 ∧
        Sent h h' (postsIn (pushPin host key pin reservationId settings true refuses outcome).1)) h := by
  have hnothing : Sent h h [] := ⟨List.suffix_rfl, rfl, rfl, (List.append_nil _).symm⟩
  unfold relayPin pushPin
  cases hip : host.ipAddress with
  | none => exact ⟨fun _ => .transportError, rfl, hnothing⟩
  | some ip =>
    cases key with
    | none => exact ⟨fun _ => .transportError, rfl, hnothing⟩
    | some token =>
      by_cases hempty : ip = "" ∨ token = ""
      · simp only [if_pos hempty]
        exact ⟨fun _ => .transportError, rfl, hnothing⟩
      · simp only [if_neg hempty]
        obtain ⟨hne, hne'⟩ := not_or.mp hempty
        refine (relayFrom_ok settings.sunshinePairBackoffBaseSeconds _ _ 1 "unreachable" hdone
          (hadmits ip token hip rfl hne hne')).mono fun h' result hresult => ?_
        obtain ⟨outcome, hout, hsent⟩ := hresult
        refine ⟨outcome, hout, hsent.suffix, hsent.pend, hsent.done, ?_⟩
        rw [hsent.pins, postsIn_append, postsIn_closing, List.append_nil]

/-- The audit row, or a database error. -/
theorem audit_relay {e : AuditEntry} {h : RelayLog} (hdone : doneOf h = []) :
    (onRelayed (writeAudit e)).Ok I (pairRules settings refuses isDigit hashRaw rawToken pin)
      (fun h' _ => h <:+ h' ∧ doneOf h' = doneOf h ∧ pinsOf h' = pinsOf h ∧
        ∃ x : AuditLog, x.entry = e ∧ pendOf h' = pendOf h ++ [.inl (.insertAudit x)]) h := by
  refine ⟨⟨hdone, trivial⟩, fun b q snap cur _ _ => ?_⟩
  let out := (Stmt.insertAudit e).exec b q.1 (relayed.applyAll snap (pendOf h)).1 (relayed.applyAll cur (pendOf h)).1
  have hpend : pendOf (.stmt (D := relayed) (.inl (.insertAudit e)) b q snap cur :: h) = pendOf h ++ out.2.1.map .inl := rfl
  change ((orRaise out.2.2).embed wires).Ok I _ _ _
  rcases exec_insertAudit e b q.1 (relayed.applyAll snap (pendOf h)).1 (relayed.applyAll cur (pendOf h)).1 with
    ⟨x, hx, hinsert⟩ | ⟨err, hinsert⟩
  · rw [show out.2.2 = .ok () from congrArg (·.2.2) hinsert]
    refine ⟨List.suffix_cons _ _, rfl, List.append_nil _, x, hx, hpend.trans ?_⟩
    rw [show out.2.1 = [.insertAudit x] from congrArg (·.2.1) hinsert]
    rfl
  · rw [show out.2.2 = .error err from congrArg (·.2.2) hinsert]
    exact .inl ⟨hdone, .inl rfl⟩

/-- The answer to a pairing, after its audit row. -/
theorem answerPairing_ok {token : Token} {host : Host} {key : Option String} {reservationId : ℤ}
    {result : Except PinFailure PairingResult} {outcome : ℕ → PinOutcome} {h : RelayLog} (hpend : pendOf h = [])
    (hdone : doneOf h = []) (hmeets : Meets hashRaw (Sight.of h) rawToken token host key reservationId)
    (hresult : result = (pushPin host key pin reservationId settings true refuses outcome).2)
    (hpins : pinsOf h = postsIn (pushPin host key pin reservationId settings true refuses outcome).1) :
    (answerPairing token host reservationId result).Ok I (pairRules settings refuses isDigit hashRaw rawToken pin)
      (fun h' reply => relayAnswers settings refuses hashRaw (.pair rawToken pin) h' reply) h := by
  have hrelays {h' : RelayLog} {x : AuditLog} {entry : Token → ℤ → AuditEntry} (hsuf : h <:+ h') (hd : doneOf h' = doneOf h)
      (hpins' : pinsOf h' = pinsOf h) (hp : pendOf h' = pendOf h ++ [.inl (.insertAudit x)])
      (hx : x.entry = entry token reservationId) :
      Relays settings refuses hashRaw (Sight.of (.commit :: h')) (.commit :: h') rawToken pin host result entry x := by
    refine ⟨token, key, reservationId, outcome, hmeets.mono (Sight.of_mono (hsuf.trans (List.suffix_cons _ _))),
      hresult, hpins'.trans hpins, ?_, hx⟩
    rw [doneOf_commit, hd, hdone, hp, hpend]
    rfl
  rcases result with (e | fault) | result
  · refine Ok.bind (audit_relay hdone) ?_
    rintro h' - ⟨hsuf, hd, hpins', x, hx, hp⟩
    exact ⟨hd.trans hdone, .inr ⟨host, e, x, rfl, hrelays hsuf hd hpins' hp hx⟩⟩
  · exact .inl ⟨hdone, .inl (by cases fault <;> rfl)⟩
  · refine Ok.bind (audit_relay hdone) ?_
    rintro h' - ⟨hsuf, hd, hpins', x, hx, hp⟩
    exact ⟨hd.trans hdone, host, result, x, rfl, hrelays hsuf hd hpins' hp hx⟩

/-- The lookup of the token. -/
theorem verifyConnectToken_relay (hraw : rawToken ≠ "") : (onRelayed (verifyConnectToken hashRaw rawToken)).Ok I
    (pairRules settings refuses isDigit hashRaw rawToken pin) (fun h found => Sent [] h [] ∧
      ∃ st now, (Sight.of h).store st ∧ (Sight.of h).time now ∧
        found = st.1.tokens.find? (Stmt.valid .connect (hashRaw rawToken) now)) [] := by
  unfold verifyConnectToken
  rw [if_neg hraw]
  intro now
  change (Prog.query (D := relayed) (.inl (.tokenByJti .connect (hashRaw rawToken) (DateTime.utc now).instant))).Ok I _ _ _
  rw [DateTime.instant_utc]
  exact ⟨⟨rfl, trivial⟩, fun b q snap cur _ _ => ⟨⟨List.nil_suffix, rfl, rfl, rfl⟩, snap, now,
    Sight.of_snap List.mem_cons_self, List.mem_cons_of_mem _ List.mem_cons_self, rfl⟩⟩

/-- What the lookup of a host has found at a moment of `w`. -/
def FoundPairable (w : Sight relayed) (hostId : Option ℤ) : Option (Host × Option String) → Prop
  | none => hostId = none ∨ ∃ st, w.store st ∧ ∀ host ∈ st.1.hosts, hostId ≠ some host.id
  | some (host, key) => hostId = some host.id ∧ ∃ st, w.store st ∧ host ∈ st.1.hosts ∧ st.2 host.id = key

theorem getPairable_ok {h : RelayLog} (hdone : doneOf h = []) (hpend : pendOf h = []) (hostId : Option ℤ) :
    (getPairable hostId).Ok I (pairRules settings refuses isDigit hashRaw rawToken pin) (fun h' found => Sent h h' [] ∧
      FoundPairable (Sight.of h') hostId found) h := by
  cases hostId with
  | none => exact ⟨⟨List.suffix_rfl, rfl, rfl, (List.append_nil _).symm⟩, .inl rfl⟩
  | some hostId =>
    refine ⟨⟨hdone, trivial⟩, fun b q snap cur _ _ => ⟨⟨List.suffix_cons _ _, List.append_nil _, rfl, rfl⟩, ?_⟩⟩
    have hres : (relayed.execOn (pendOf h) (.inr (.getPairable hostId)) b q snap cur).2.2 =
        (snap.1.hosts.find? (·.id == hostId)).map fun host => (host, snap.2 host.id) := by rw [hpend]; rfl
    rw [hres]
    have hst : (Sight.of (.stmt (D := relayed) (.inr (.getPairable hostId)) b q snap cur :: h)).store snap :=
      Sight.of_snap List.mem_cons_self
    cases hfind : snap.1.hosts.find? (·.id == hostId) with
    | none =>
      refine .inr ⟨snap, hst, fun host hhost hid => List.find?_eq_none.mp hfind host hhost ?_⟩
      exact beq_iff_eq.mpr (Option.some.inj hid).symm
    | some host =>
      have hid : host.id = hostId := by simpa using List.find?_some hfind
      exact ⟨congrArg some hid.symm, snap, hst, List.mem_of_find?_eq_some hfind, rfl⟩

theorem pairingEndpoint_ok : (pairingEndpoint settings refuses isDigit hashRaw rawToken pin).Ok I
    (pairRules settings refuses isDigit hashRaw rawToken pin)
    (fun h reply => relayAnswers settings refuses hashRaw (.pair rawToken pin) h reply) [] := by
  refine ok_bind.mpr (.lift (fun _ hvalid => ?_) fun err herr => ?_)
  swap
  · obtain ⟨hne, rfl⟩ := raiseIf_eq_error.mp herr
    exact .inl ⟨rfl, .inr ⟨rfl, .malformed hne⟩⟩
  have hraw : rawToken ≠ "" := by
    rintro rfl
    have herrors := not_not.mp (raiseIf_eq_ok.mp hvalid)
    simp [pairingRequestErrors] at herrors
  refine (verifyConnectToken_relay hraw).bind ?_
  rintro h found ⟨hsent, st, now, hst, hnow, hfound⟩
  have hrefuse {err : BrokerError} {h' : RelayLog} (hsent : Sent [] h' [])
      (hrejects : Rejects isDigit hashRaw (Sight.of h') rawToken pin err) :
      (pairRules settings refuses isDigit hashRaw rawToken pin).raise h' err := .inl ⟨hsent.done, .inr ⟨hsent.pins, hrejects⟩⟩
  cases found with
  | none =>
    refine hrefuse hsent (.dead hst hnow fun t ht => ?_)
    simpa using List.find?_eq_none.mp hfound.symm t ht
  | some token =>
    have htoken : token ∈ st.1.tokens := List.mem_of_find?_eq_some hfound.symm
    have hlive : Stmt.valid .connect (hashRaw rawToken) now token = true := List.find?_some hfound.symm
    dsimp only
    cases hres : token.reservationId with
    | none => exact hrefuse hsent (.unreserved hst hnow htoken hlive hres)
    | some reservationId =>
      refine (getPairable_ok hsent.done hsent.pend token.hostId).bind ?_
      rintro h' found ⟨hsent', hfound'⟩
      have hle := Sight.of_mono (D := relayed) hsent'.suffix
      have hfresh : Sent [] h' [] := ⟨List.nil_suffix, hsent'.pend.trans hsent.pend, hsent'.done.trans hsent.done,
        hsent'.pins.trans ((List.append_nil _).trans hsent.pins)⟩
      cases found with
      | none =>
        rcases hfound' with hnone | ⟨st', hst', hnone⟩
        · exact hrefuse hfresh (.hostMissing (hle.1 _ hst) (hle.2 _ hnow) htoken hlive (hle.1 _ hst) fun host _ => by simp [hnone])
        · exact hrefuse hfresh (.hostMissing (hle.1 _ hst) (hle.2 _ hnow) htoken hlive hst' hnone)
      | some found =>
        obtain ⟨host, key⟩ := found
        obtain ⟨hid, st', hst', hhost⟩ := hfound'
        have hmeets : Meets hashRaw (Sight.of h') rawToken token host key reservationId :=
          ⟨⟨st, now, hle.1 _ hst, hle.2 _ hnow, htoken, hlive⟩, ⟨st', hst', hhost⟩, hid, hres⟩
        refine (relayPin_ok hfresh.done fun ip token' hip hkey hne hne' => ?_).bind ?_
        · subst hkey
          exact ⟨token, host, ip, token', reservationId, hmeets, hip, hne, hne', rfl⟩
        · rintro h'' result ⟨outcome, hresult, hsent''⟩
          exact answerPairing_ok (hsent''.pend.trans hfresh.pend) (hsent''.done.trans hfresh.done)
            (hmeets.mono (Sight.of_mono hsent''.suffix)) hresult (by rw [hsent''.pins, hfresh.pins]; rfl)

theorem setSunshineTokenEndpoint_ok {cfg : Settings} (admin : User) (hostId : ℤ) (sunshineBrokerToken : String) :
    (setSunshineTokenEndpoint admin hostId sunshineBrokerToken).Ok I
      (relayRules settings refuses isDigit hashRaw cfg (.setSunshineToken admin hostId sunshineBrokerToken))
      (fun _ _ => True) [] := by
  refine ok_bind.mpr (.lift (fun _ _ => ?_) fun _ _ => trivial)
  refine ok_bind.mpr (.lift (fun _ _ => ?_) fun _ _ => trivial)
  refine ok_bind.mpr ⟨trivial, fun b q snap cur _ _ => ?_⟩
  generalize (relayed.execOn (pendOf []) (.inr (.getPairable hostId)) b q snap cur).2.2 = found
  cases (found : Option (Host × Option String)) with
  | none => trivial
  | some found =>
    obtain ⟨host, old⟩ := found
    dsimp only
    have hset (h : RelayLog) : (flushSunshineToken hostId old sunshineBrokerToken).Ok I
        (relayRules settings refuses isDigit hashRaw cfg (.setSunshineToken admin hostId sunshineBrokerToken))
        (fun _ _ => True) h := by
      unfold flushSunshineToken
      split_ifs
      · trivial
      · exact ⟨trivial, fun _ _ _ _ _ _ => trivial⟩
    refine Ok.bind (hset _) ?_
    intro h _ _
    refine ⟨trivial, trivial, fun b q snap cur _ _ => ?_⟩
    generalize (relayed.execOn (pendOf (.commit :: h)) (.inr (.getPairable hostId)) b q snap cur).2.2 = found
    cases (found : Option (Host × Option String)) with
    | none => trivial
    | some found => trivial

theorem relay_ok {cfg : Settings} (j : RelayJob) : (handleRelay cfg settings refuses isDigit hashRaw j).Ok
    (fun st : relayed.Store => RangesNonempty st.1) (relayRules settings refuses isDigit hashRaw cfg j)
    (relayAnswers settings refuses hashRaw j) [] := by
  cases j with
  | broker j => exact ok_bind.mpr (((handle_ok j).embed rfl (.refl [])).mono fun _ _ _ => trivial)
  | pair rawToken pin => exact pairingEndpoint_ok
  | setSunshineToken admin hostId sunshineBrokerToken => exact setSunshineTokenEndpoint_ok admin hostId sunshineBrokerToken

end

/-! ## What the requests commit -/

/-- `tokens`. -/
def relayedTokens : Table relayed Token := tokenTable.lift wires fun _ _ => rfl

/-- `reservations`. -/
def relayedReservations : Table relayed Reservation := reservationTable.lift wires fun _ _ => rfl

/-- `audit_logs`. -/
def relayedAudit : Table relayed AuditLog := auditTable.lift wires fun _ _ => rfl

theorem relayedTokens_versions : Versions relayedTokens Token.Evolves :=
  Table.versions_lift tokens_versions

theorem relayedReservations_versions : Versions relayedReservations Reservation.Evolves :=
  Table.versions_lift reservations_versions

theorem relayedAudit_versions : Versions relayedAudit Eq :=
  Table.versions_lift ⟨fun _ => rfl, fun h h' => h.trans h', fun _ _ => rfl⟩

section
variable {cfg : Settings} {settings : SunshineSettings} {refuses : PinRequest → Option PinFault} {isDigit : Char → Bool}
  {hashRaw : String → String}
  {I : relayed.Store → Prop} {j : RelayJob} {h : RelayLog}

/-- Besides the routes of `app`, requests write audit rows and Sunshine tokens only. -/
theorem other_writes (hk : Kept I (relayRules settings refuses isDigit hashRaw cfg j) h) (hj : ∀ j₀, j ≠ .broker j₀) :
    ∀ w ∈ pendOf h, (∃ x, w = .inl (.insertAudit x)) ∨ ∃ w₀, w = .inr w₀ := by
  intro w hw
  obtain ⟨s, b, q, snap, cur, h₀, -, hstmt, -, -, hexec, -⟩ := hk.origin hw
  cases j with
  | broker j₀ => exact absurd rfl (hj j₀)
  | pair rawToken pin =>
    rcases s with s | s
    · obtain ⟨w₁, hw₁, rfl⟩ := List.mem_map.mp hexec
      cases s with
      | insertAudit e =>
        change w₁ ∈ ((Stmt.insertAudit e).exec b q.1 (relayed.applyAll snap (pendOf h₀)).1
          (relayed.applyAll cur (pendOf h₀)).1).2.1 at hw₁
        rcases exec_insertAudit e b q.1 (relayed.applyAll snap (pendOf h₀)).1 (relayed.applyAll cur (pendOf h₀)).1 with
          ⟨x, -, hinsert⟩ | ⟨err, hinsert⟩
        · rw [hinsert] at hw₁
          exact .inl ⟨x, by rw [List.mem_singleton.mp hw₁]⟩
        · rw [hinsert] at hw₁
          exact absurd hw₁ List.not_mem_nil
      | tokenByJti => exact absurd hw₁ List.not_mem_nil
      | _ => exact hstmt.2.elim
    · cases s with
      | setSunshineToken => exact hstmt.2.elim
      | getPairable | post => exact absurd hexec List.not_mem_nil
  | setSunshineToken =>
    rcases s with s | s
    · exact hstmt.elim
    · cases s with
      | setSunshineToken =>
        exact .inr ⟨_, List.mem_singleton.mp hexec⟩
      | getPairable | post => exact absurd hexec List.not_mem_nil

theorem newReservations_other (hk : Kept I (relayRules settings refuses isDigit hashRaw cfg j) h) (hj : ∀ j₀, j ≠ .broker j₀) :
    relayedReservations.newAll (pendOf h) = [] := by
  refine relayedReservations.newAll_eq_nil fun w hw => ?_
  rcases other_writes hk hj w hw with ⟨x, rfl⟩ | ⟨w₀, rfl⟩ <;> rfl

theorem newTokens_other (hk : Kept I (relayRules settings refuses isDigit hashRaw cfg j) h) (hj : ∀ j₀, j ≠ .broker j₀) :
    relayedTokens.newAll (pendOf h) = [] := by
  refine relayedTokens.newAll_eq_nil fun w hw => ?_
  rcases other_writes hk hj w hw with ⟨x, rfl⟩ | ⟨w₀, rfl⟩ <;> rfl

/-- **All requests keep the rules, in every interleaving.** -/
theorem relay_keeps : Keeps (relay cfg settings refuses isDigit hashRaw) (fun st : relayed.Store => RangesNonempty st.1)
    (relayRules settings refuses isDigit hashRaw cfg) (relayAnswers settings refuses hashRaw) where
  ok := relay_ok
  stmt_lost j h s hs := by
    cases j with
    | broker j => exact hs.elim fun h₁ h₁' => ⟨h₁, h₁'.1, h₁'.2.elim fun s₀ hs₀ => hs₀.2.1⟩
    | pair => exact .inl ⟨hs.1, .inl rfl⟩
    | setSunshineToken => trivial
  commit_lost j h hc := by
    cases j with
    | broker j => exact hc
    | pair => exact .inl ⟨hc, .inl rfl⟩
    | setSunshineToken => trivial
  inv j h db hk hc hdb := by
    by_cases hj : ∃ j₀, j = .broker j₀
    · obtain ⟨j₀, rfl⟩ := hj
      obtain ⟨h₁, hin, hkept⟩ := hk.inside
      rw [(hin.writes rfl).1, wires.applyAll_inl]
      exact rangesNonempty_applyAll hkept hdb
    · intro r hr
      change r ∈ relayedReservations.rows _ at hr
      rw [relayedReservations.rows_applyAll, newReservations_other hk (not_exists.mp hj), List.append_nil] at hr
      obtain ⟨x, hx, rfl⟩ := List.mem_map.mp hr
      rw [(relayedReservations_versions.updAll _ x).timeRange]
      exact hdb x hx

end

/-- A room of one host, with an address. -/
def pairRoom : Store where
  users := [⟨1, .user, "mock"⟩]
  hosts := [⟨1, "pc-01", "PC 1", none, some "10.0.0.1", 47984, .idle, none⟩]

/-- Sunshine takes the PIN at the second attempt. -/
def slowNetwork (n : ℕ) : PinOutcome :=
  if n = 0 then .transportError else .response 200 (.json (.obj [("status", .bool true)]))

def pairStart : Sys relayed RelayJob BrokerError RelayReply :=
  ⟨(pairRoom, fun _ => some "key"), ({}, ⟨slowNetwork, []⟩), 0, []⟩

/-- An instant reservation, and a pairing with its connect token. -/
def pairTurns : List (Turn RelayJob ℤ String) :=
  [.arrive (.broker (.instant ⟨1, .user, "mock"⟩ 1)), .steps 0 "0123456789abcdef" 60,
    .arrive (.pair "0123456789abcdef" "1234"), .steps 1 "" 30]

/-! ## The tokens of reservations -/

/-- The connect token is one of the reservation, not issued before its grace. -/
structure Token.Opens (cfg : Settings) (clock : ℤ) (t : Token) (r : Reservation) : Prop where
  reservationId : t.reservationId = some r.id
  hostId : t.hostId = some r.hostId
  expiresAt : t.expiresAt = r.timeRange.upper
  early : r.timeRange.lower - cfg.connectTokenGraceSeconds * secondUs ≤ clock

/-- Each connect token is one of a reservation. -/
def TokensBooked (cfg : Settings) (clock : ℤ) (st : Store) : Prop :=
  ∀ t ∈ st.tokens, t.purpose = .connect → ∃ r ∈ st.reservations, t.Opens cfg clock r

section
variable {cfg : Settings} {clock clock' : ℤ} {t t' : Token} {r r' : Reservation}

theorem Token.Opens.evolves (h : t.Opens cfg clock r) (ht : t.Evolves t') (hr : r.Evolves r') :
    t'.Opens cfg clock r' where
  reservationId := by rw [ht.reservationId, h.reservationId, hr.id]
  hostId := by rw [ht.hostId, h.hostId, hr.hostId]
  expiresAt := by rw [ht.expiresAt, h.expiresAt, hr.timeRange]
  early := by rw [hr.timeRange]; exact h.early

theorem Token.Opens.later (h : t.Opens cfg clock r) (hc : clock ≤ clock') : t.Opens cfg clock' r :=
  { h with early := h.early.trans hc }

end

section
variable {cfg : Settings} {settings : SunshineSettings} {refuses : PinRequest → Option PinFault} {isDigit : Char → Bool}
  {hashRaw : String → String}
  {C : Sys relayed RelayJob BrokerError RelayReply → Label RelayJob ℤ String → Prop} {db : Store}
  {keys : ℤ → Option String} {aux : Seqs} {wire : Wire} {clock : ℤ} {s : Sys relayed RelayJob BrokerError RelayReply}

theorem sound_of_relay (hdb : RangesNonempty db)
    (h : Reach (relay cfg settings refuses isDigit hashRaw) C ⟨(db, keys), (aux, wire), clock, []⟩ s) :
    s.Sound (fun st : relayed.Store => RangesNonempty st.1) (relayRules settings refuses isDigit hashRaw cfg)
      (relayAnswers settings refuses hashRaw)
      (relayedReservations.Carries Reservation.Evolves) :=
  h.sound relay_keeps relayedReservations_versions.grows (.init hdb)

/-- What a request has seen or inserted of a reservation, is there once it commits. -/
theorem exists_of_seen {r : Req relayed RelayJob BrokerError RelayReply} {h₁ : History} {x : Reservation}
    (hsound : r.Sound (fun st : relayed.Store => RangesNonempty st.1) (relayRules settings refuses isDigit hashRaw cfg)
      (relayAnswers settings refuses hashRaw) (relayedReservations.Carries Reservation.Evolves) s.db s.clock)
    (hin : Inside [] h₁ r.log) (hseen : Seen h₁ x) :
    ∃ y ∈ (relayed.applyAll s.db (pendOf r.log)).1.reservations, x.Evolves y := by
  rcases hseen with ⟨snap, cur, ⟨b, q, hran⟩, hx⟩ | hpend
  · obtain ⟨aux', snap', cur', hev, rfl, rfl⟩ := hin.stmt_mem hran
    obtain ⟨-, hcarry, hcarry'⟩ := hsound.past _ hev
    have hgrows := relayedReservations_versions.grows
    exact hgrows.trans (hgrows.trans hcarry hcarry') (hgrows.applyAll _ _) x hx
  · have hmem : .inl (.insertReservation x) ∈ pendOf r.log := by
      rw [(hin.writes rfl).1]
      exact List.mem_map_of_mem hpend
    obtain ⟨ws', -, hnew⟩ := relayedReservations.exists_mem_newAll hmem (List.mem_singleton_self x)
    refine ⟨_, ?_, relayedReservations_versions.updAll ws' x⟩
    change _ ∈ relayedReservations.rows _
    rw [relayedReservations.rows_applyAll]
    exact List.mem_append_right _ hnew

/-- A connect token that a request issues opens a reservation that is there once
    it commits. -/
theorem opens_of_new {r : Req relayed RelayJob BrokerError RelayReply} {t : Token}
    (hsound : r.Sound (fun st : relayed.Store => RangesNonempty st.1) (relayRules settings refuses isDigit hashRaw cfg)
      (relayAnswers settings refuses hashRaw) (relayedReservations.Carries Reservation.Evolves) s.db s.clock)
    (ht : t ∈ relayedTokens.newAll (pendOf r.log)) (hpurpose : t.purpose = .connect) :
    ∃ y ∈ (relayed.applyAll s.db (pendOf r.log)).1.reservations, t.Opens cfg s.clock y := by
  by_cases hj : ∃ j₀, r.job = .broker j₀
  · obtain ⟨j₀, hj⟩ := hj
    have hkept := hsound.kept
    rw [hj] at hkept
    obtain ⟨h₁, hin, hkept⟩ := hkept.inside
    obtain ⟨w, hw, p, hpw, ws', -, rfl⟩ := relayedTokens.mem_newAll ht
    have hev := relayedTokens_versions.updAll ws' p
    obtain ⟨w₁, hw₁, rfl⟩ := List.mem_map.mp ((hin.writes rfl).1 ▸ hw)
    obtain rfl : w₁ = .insertToken p := by
      cases w₁ with
      | insertToken => rw [List.mem_singleton.mp hpw]
      | _ => exact absurd hpw List.not_mem_nil
    obtain ⟨new, id, rfl, hissued⟩ := pending_token hkept hw₁
    have hconnect : new.purpose = .connect := hev.purpose.symm.trans hpurpose
    unfold Issued at hissued
    rw [hconnect] at hissued
    obtain ⟨x, hseen, -, hres, hhost, hexp, ⟨now, hnow, hearly, -⟩, -⟩ := hissued
    obtain ⟨y, hy, hxy⟩ := exists_of_seen hsound hin hseen
    have hpast : now ≤ s.clock := hsound.past _ (hin.now_mem hnow)
    have hopens : (new.row id).Opens cfg s.clock x := ⟨hres, hhost, hexp, hearly.trans hpast⟩
    exact ⟨y, hy, hopens.evolves hev hxy⟩
  · rw [newTokens_other hsound.kept (not_exists.mp hj)] at ht
    exact absurd ht List.not_mem_nil

/-- **Every connect token is one of a reservation**, in any interleaving. -/
theorem tokensBooked_of_relay (hdb : RangesNonempty db) (hbooked : TokensBooked cfg clock db)
    (h : Reach (relay cfg settings refuses isDigit hashRaw) C ⟨(db, keys), (aux, wire), clock, []⟩ s) :
    TokensBooked cfg s.clock s.db.1 := by
  refine h.store_inv (P := fun c (st : relayed.Store) => TokensBooked cfg c st.1) ?_ ?_ hbooked
  · intro c c' st hc hst t ht hpurpose
    obtain ⟨r, hr, hopens⟩ := hst t ht hpurpose
    exact ⟨r, hr, hopens.later hc⟩
  · rintro s₁ i r k hreach - hr - ih t ht hpurpose
    change t ∈ relayedTokens.rows _ at ht
    rw [relayedTokens.rows_applyAll] at ht
    rcases List.mem_append.mp ht with ht | ht
    · -- a token of before
      obtain ⟨y, hy, rfl⟩ := List.mem_map.mp ht
      have hev := relayedTokens_versions.updAll (pendOf r.log) y
      obtain ⟨x, hx, hopens⟩ := ih y hy (hev.purpose ▸ hpurpose)
      obtain ⟨x', hx', hxx'⟩ := relayedReservations_versions.grows.applyAll (pendOf r.log) s₁.db x hx
      exact ⟨x', hx', hopens.evolves hev hxx'⟩
    · -- one that the request has issued
      exact opens_of_new ((sound_of_relay hdb hreach).req i r hr) ht hpurpose

/-! ## The PINs -/

theorem Relays.mono {w w' : Sight relayed} (hw : w ≤ w') {hist : RelayLog} {rawToken pin : String} {host : Host}
    {result : Except PinFailure PairingResult} {entry : Token → ℤ → AuditEntry} {x : AuditLog}
    (h : Relays settings refuses hashRaw w hist rawToken pin host result entry x) :
    Relays settings refuses hashRaw w' hist rawToken pin host result entry x := by
  obtain ⟨token, key, reservationId, outcome, hmeets, hrest⟩ := h
  exact ⟨token, key, reservationId, outcome, hmeets.mono hw, hrest⟩

/-- The audit row counts the POSTs. -/
theorem Relays.attempts {w : Sight relayed} {hist : RelayLog} {rawToken pin : String} {host : Host}
    {result : Except PinFailure PairingResult} {entry : Token → ℤ → AuditEntry} {x : AuditLog}
    (h : Relays settings refuses hashRaw w hist rawToken pin host result entry x) :
    ∀ m, attemptsOf result = some m → m = (pinsOf hist).length := by
  obtain ⟨token, key, reservationId, outcome, -, hresult, hpins, -⟩ := h
  intro m hm
  rw [hpins]
  exact attemptsOf_pushPin refuses outcome (hresult ▸ hm)

/-- A PIN was posted with this request: the connect token was live, under a
    reservation of the host. -/
def Cleared (cfg : Settings) (settings : SunshineSettings) (hashRaw : String → String) (w : Sight relayed)
    (rawToken pin : String) (request : PinRequest) : Prop :=
  ∃ token host ip key reservation, Meets hashRaw w rawToken token host (some key) reservation.id ∧
    host.ipAddress = some ip ∧ ip ≠ "" ∧ key ≠ "" ∧ request = pinRequest ip key pin reservation.id settings ∧
    ∃ st now, w.store st ∧ w.time now ∧ token ∈ st.1.tokens ∧ reservation ∈ st.1.reservations ∧
      token.Opens cfg now reservation

theorem Admits.cleared {i : ℕ} {rawToken pin : String} {request : PinRequest} (hdb : RangesNonempty db)
    (hbooked : TokensBooked cfg clock db)
    (h : Admits settings hashRaw (Sight.during (relay cfg settings refuses isDigit hashRaw) C
      ⟨(db, keys), (aux, wire), clock, []⟩ s i) rawToken pin request) :
    Cleared cfg settings hashRaw (Sight.during (relay cfg settings refuses isDigit hashRaw) C
      ⟨(db, keys), (aux, wire), clock, []⟩ s i) rawToken pin request := by
  obtain ⟨token, host, ip, key, reservationId, hmeets, hip, hne, hne', hreq⟩ := h
  obtain ⟨st, now, ⟨s₁, hpassed, rfl⟩, -, htoken, hvalid⟩ := hmeets.live
  have hpurpose : token.purpose = .connect := by
    simp only [Stmt.valid, Bool.and_eq_true, beq_iff_eq] at hvalid
    tauto
  obtain ⟨r, hr, hopens⟩ := tokensBooked_of_relay hdb hbooked hpassed.reach token htoken hpurpose
  obtain rfl : reservationId = r.id := Option.some.inj (hmeets.reservationId_eq.symm.trans hopens.reservationId)
  exact ⟨token, host, ip, key, r, hmeets, hip, hne, hne', hreq, s₁.db, s₁.clock, ⟨s₁, hpassed, rfl⟩,
    ⟨s₁, hpassed, rfl⟩, htoken, hr, hopens⟩

/-- The request behind a POST. -/
theorem admits_of_pin {r : Req relayed RelayJob BrokerError RelayReply} {request : PinRequest}
    (hk : Kept (fun st : relayed.Store => RangesNonempty st.1) (relayRules settings refuses isDigit hashRaw cfg r.job) r.log)
    (hmem : request ∈ pinsOf r.log) : ∃ rawToken pin, r.job = .pair rawToken pin ∧
      Admits settings hashRaw (Sight.of r.log) rawToken pin request := by
  obtain ⟨st, b, q, snap, cur, h₀, hsuf, hsends⟩ := Outbox.mem_sentIn hmem
  have hstmt := (hk.suffix hsuf).1
  rcases st with st | st
  · exact absurd hsends List.not_mem_nil
  · cases st with
    | getPairable | setSunshineToken => exact absurd hsends List.not_mem_nil
    | post request' =>
      obtain rfl : request = request' := List.mem_singleton.mp hsends
      cases hj : r.job with
      | broker j =>
        rw [hj] at hstmt
        obtain ⟨h₁, -, s₀, hs, -⟩ := hstmt
        cases hs
      | setSunshineToken =>
        rw [hj] at hstmt
        exact hstmt.elim
      | pair rawToken pin =>
        rw [hj] at hstmt
        exact ⟨rawToken, pin, rfl, hstmt.2.mono (Sight.of_mono ((List.suffix_cons _ _).trans hsuf))⟩

/-- **A PIN is relayed under a live connect token only**, in any interleaving: to the
    host of the token's reservation, and as often as its pairing has posted it. -/
theorem pins_posted (hdb : RangesNonempty db) (hbooked : TokensBooked cfg clock db) (hposted : wire.posted = [])
    (h : Reach (relay cfg settings refuses isDigit hashRaw) C ⟨(db, keys), (aux, wire), clock, []⟩ s) :
    s.aux.2.posted.Perm (s.reqs.flatMap fun r => pinsOf r.log) ∧
    ∀ (i : ℕ) r, s.reqs[i]? = some r → ∀ request ∈ pinsOf r.log, ∃ rawToken pin, r.job = .pair rawToken pin ∧
      Cleared cfg settings hashRaw (Sight.during (relay cfg settings refuses isDigit hashRaw) C
        ⟨(db, keys), (aux, wire), clock, []⟩ s i) rawToken pin request := by
  constructor
  · have hsent := h.sent pinbox rfl
    rwa [show pinbox.sent (aux, wire) = [] from hposted, List.nil_append] at hsent
  · intro i r hr request hmem
    obtain ⟨rawToken, pin, hj, hadmits⟩ := admits_of_pin ((sound_of_relay hdb h).req i r hr).kept hmem
    exact ⟨rawToken, pin, hj, (hadmits.mono (h.sight_le rfl hr)).cleared hdb hbooked⟩

theorem pins_posted_room : ∃ s i r request rawToken pin, s.reqs[i]? = some r ∧ request ∈ pinsOf r.log ∧
    Cleared {} {} id (Sight.during (relay {} {} (fun _ => none) Char.isDigit id) Any pairStart s i) rawToken pin request := by
  have hrun : (play (relay {} {} (fun _ => none) Char.isDigit id) Any pairStart pairTurns).any
      (fun s => decide (0 < s.aux.2.posted.length)) = true := by decide +kernel
  obtain ⟨s, hs, hlen⟩ := Reach.of_play_any hrun
  obtain ⟨hperm, hcleared⟩ := pins_posted (by simp [RangesNonempty, pairRoom]) (by simp [TokensBooked, pairRoom]) rfl hs
  obtain ⟨request, hrequest⟩ := List.exists_mem_of_length_pos (of_decide_eq_true hlen)
  obtain ⟨r, hr, hmem⟩ := List.mem_flatMap.mp (hperm.mem_iff.mp hrequest)
  obtain ⟨i, hi⟩ := List.mem_iff_getElem?.mp hr
  obtain ⟨rawToken, pin, -, hclear⟩ := hcleared i r hi request hmem
  exact ⟨s, i, r, request, rawToken, pin, hi, hmem, hclear⟩

/-- **A pairing is recorded**: what it has answered, or why it has failed, is in the
    audit log, once and with the number of its POSTs; one that was refused has
    posted and recorded nothing. -/
theorem pairings_recorded {i : ℕ} {r : Req relayed RelayJob BrokerError RelayReply} {rawToken pin : String}
    (hdb : RangesNonempty db)
    (h : Reach (relay cfg settings refuses isDigit hashRaw) C ⟨(db, keys), (aux, wire), clock, []⟩ s)
    (hi : s.reqs[i]? = some r) (hj : r.job = .pair rawToken pin) :
    let w := Sight.during (relay cfg settings refuses isDigit hashRaw) C ⟨(db, keys), (aux, wire), clock, []⟩ s i
    (∀ reply, r.prog = .ret reply → ∃ host x, reply = .paired "paired_pending" (.ofHost host) ∧ x ∈ s.db.1.auditLogs ∧
      Relays settings refuses hashRaw w r.log rawToken pin host (.ok ⟨(pinsOf r.log).length⟩)
        (fun token reservationId => pairingSucceeded token host reservationId ⟨(pinsOf r.log).length⟩) x) ∧
    ∀ err, r.prog = .raise err →
      doneOf r.log = [] ∧ (err.internal = true ∨ pinsOf r.log = [] ∧ Rejects isDigit hashRaw w rawToken pin err) ∨
      ∃ host e x, err = e.http ∧ e.attempts = (pinsOf r.log).length ∧ x ∈ s.db.1.auditLogs ∧
        Relays settings refuses hashRaw w r.log rawToken pin host (.error (.pairing e))
          (fun token reservationId => pairingFailed token host reservationId e) x := by
  intro w
  have hle : Sight.of r.log ≤ w := h.sight_le rfl hi
  have hok := ((sound_of_relay hdb h).req i r hi).ok
  rw [hj] at hok
  have hlogged {x : AuditLog} (hdone : doneOf r.log = [.inl (.insertAudit x)]) : x ∈ s.db.1.auditLogs := by
    obtain ⟨x', hx', rfl⟩ := h.row_of_done relayedAudit_versions (by simp) r (List.mem_of_getElem? hi)
      (.inl (.insertAudit x)) (hdone ▸ List.mem_singleton_self _) x (List.mem_singleton_self x)
    exact hx'
  constructor
  · intro reply hret
    rw [hret] at hok
    obtain ⟨host, ⟨attempts⟩, x, hreply, hrelays⟩ := hok
    obtain rfl : attempts = (pinsOf r.log).length := hrelays.attempts _ rfl
    obtain ⟨-, -, -, -, -, -, -, hdone, -⟩ := id hrelays
    exact ⟨host, x, hreply, hlogged hdone, hrelays.mono hle⟩
  · intro err hraise
    rw [hraise] at hok
    rcases hok with ⟨hdone, hinternal | ⟨hpins, hrejects⟩⟩ | ⟨host, e, x, herr, hrelays⟩
    · exact .inl ⟨hdone, .inl hinternal⟩
    · exact .inl ⟨hdone, .inr ⟨hpins, hrejects.mono hle⟩⟩
    · obtain ⟨-, -, -, -, -, -, -, hdone, -⟩ := id hrelays
      exact .inr ⟨host, e, x, herr, hrelays.attempts _ rfl, hlogged hdone, hrelays.mono hle⟩

end

/-- Request `i` is a pairing that was answered. -/
def paired (s : Sys relayed RelayJob BrokerError RelayReply) (i : ℕ) : Bool :=
  s.reqs[i]?.any fun r => (match r.job with
      | .pair .. => true
      | _ => false) && match r.prog with
    | .ret _ => true
    | .raise _ | .now _ | .draw _ | .stmt .. | .commit _ | .rollback _ => false

theorem exists_paired {s : Sys relayed RelayJob BrokerError RelayReply} {i : ℕ} (h : paired s i = true) :
    ∃ r rawToken pin reply, s.reqs[i]? = some r ∧ r.job = .pair rawToken pin ∧ r.prog = .ret reply := by
  obtain ⟨r, hr, hpaired⟩ := (Option.any_eq_true _ _).1 h
  obtain ⟨hjob, hret⟩ := Bool.and_eq_true_iff.mp hpaired
  split at hjob
  · split at hret
    · exact ⟨r, _, _, _, hr, ‹_›, ‹_›⟩
    all_goals cases hret
  · cases hjob

theorem pairings_recorded_room : ∃ s r rawToken pin host x, s.reqs[1]? = some r ∧ r.job = .pair rawToken pin ∧
    x ∈ s.db.1.auditLogs ∧ Relays {} (fun _ => none) id
      (Sight.during (relay {} {} (fun _ => none) Char.isDigit id) Any pairStart s 1) r.log rawToken pin
      host (.ok ⟨(pinsOf r.log).length⟩)
      (fun token reservationId => pairingSucceeded token host reservationId ⟨(pinsOf r.log).length⟩) x := by
  have hrun : (play (relay {} {} (fun _ => none) Char.isDigit id) Any pairStart pairTurns).any
      (fun s => paired s 1) = true := by decide +kernel
  obtain ⟨s, hs, hout⟩ := Reach.of_play_any hrun
  obtain ⟨r, rawToken, pin, reply, hr, hj, hret⟩ := exists_paired hout
  obtain ⟨host, x, -, hx, hrelays⟩ :=
    (pairings_recorded (by simp [RangesNonempty, pairRoom]) hs hr hj).1 reply hret
  exact ⟨s, r, rawToken, pin, host, x, hr, hj, hx, hrelays⟩

end SmartClassroom
