/-
  Headless pairing attempts of the desktop client.

  * `attempts`: the calls of `beginHeadlessPairing` that started a handshake.
    At most one is in progress, the last (`Pairs`).
  * `isolated_iff`: an attempt is ended by its own results alone in exactly the
    runs where no result of an earlier one arrives at a wrong moment.
  * `pairsAtOnce_iff`: an idle manager pairs at once in exactly the runs where
    neither the timeout nor the user ends a flow that is pairing.
-/
import SmartClassroom.AutoConnect

namespace SmartClassroom

variable {C : Type} [DecidableEq C]

/-! ## Attempts -/

/-- A handshake with the host, and whether the PIN was posted to the Broker. -/
structure Attempt (C : Type) where
  computer : C
  posted : Bool
deriving DecidableEq

/-- The attempts of a run, the last one first. -/
def attempts : List (Effect C) → List (Attempt C)
  | [] => []
  | .handshakeStarted c :: es => ⟨c, false⟩ :: attempts es
  | .pairingPosted .. :: es =>
    match attempts es with
    | [] => []
    | a :: as => { a with posted := true } :: as
  | _ :: es => attempts es

namespace ComputerManager

variable {qt : Qt} {m m' m'' : ComputerManager C} {c : C}

/-- What a handler other than those of results does of the attempts: none while
    one is in progress, and else it may start one. -/
structure Pairs (m m' : ComputerManager C) : Prop where
  busy : ∀ c, m.autoPairingComputer = some c →
    m'.autoPairingComputer = some c ∧ attempts m'.effects = attempts m.effects
  free : m.autoPairingComputer = none → ∀ c, m'.autoPairingComputer = some c →
    ∃ posted, attempts m'.effects = ⟨c, posted⟩ :: attempts m.effects

/-- Nothing at all. -/
structure SameAttempts (m m' : ComputerManager C) : Prop where
  computer : m'.autoPairingComputer = m.autoPairingComputer
  attempts : attempts m'.effects = attempts m.effects

omit [DecidableEq C] in
theorem SameAttempts.refl (m : ComputerManager C) : SameAttempts m m := ⟨rfl, rfl⟩

omit [DecidableEq C] in
theorem SameAttempts.trans (h : SameAttempts m m') (h' : SameAttempts m' m'') : SameAttempts m m'' :=
  ⟨h'.computer.trans h.computer, h'.attempts.trans h.attempts⟩

omit [DecidableEq C] in
theorem SameAttempts.pairs (h : SameAttempts m m') : Pairs m m' where
  busy c hc := ⟨h.computer.trans hc, h.attempts⟩
  free hn c hc := by
    rw [h.computer, hn] at hc
    cases hc

omit [DecidableEq C] in
theorem Pairs.of_same (h : SameAttempts m m') (h' : Pairs m' m'') : Pairs m m'' where
  busy c hc := by
    obtain ⟨h1, h2⟩ := h'.busy c (h.computer.trans hc)
    exact ⟨h1, h2.trans h.attempts⟩
  free hn c hc := by
    obtain ⟨posted, hp⟩ := h'.free (h.computer.trans hn) c hc
    exact ⟨posted, hp.trans (congrArg _ h.attempts)⟩

/-! ### Handlers -/

theorem same_stamp (m : ComputerManager C) (c : C) (pc : PendingConnect) :
    SameAttempts m (m.stamp c pc) := ⟨rfl, rfl⟩

theorem same_scClearPendingConnect (m : ComputerManager C) (c : Option C) :
    SameAttempts m (m.scClearPendingConnect c) := by
  cases c <;> exact ⟨rfl, rfl⟩

theorem same_scFailAutoConnect (m : ComputerManager C) (message : String) :
    SameAttempts m (m.scFailAutoConnect message) := by
  have h := same_scClearPendingConnect m.endFlow m.autoConnectComputer
  exact ⟨h.computer, h.attempts⟩

theorem same_scStartAutoStream (m : ComputerManager C) (c : C) (app : String) :
    SameAttempts m (m.scStartAutoStream c app) := ⟨rfl, rfl⟩

theorem same_cancelAutoConnect (m : ComputerManager C) : SameAttempts m m.cancelAutoConnect := by
  unfold cancelAutoConnect
  split_ifs
  · exact .refl m
  · have h := same_scClearPendingConnect m.endFlow m.autoConnectComputer
    exact ⟨h.computer, h.attempts⟩

theorem same_timeout (m : ComputerManager C) :
    SameAttempts m { m with timerRunning := false }.scHandleAutoConnectTimeout := by
  unfold scHandleAutoConnectTimeout
  split_ifs
  · exact ⟨rfl, rfl⟩
  · have h := same_scFailAutoConnect { m with timerRunning := false } "Timed out connecting to the PC"
    exact ⟨h.computer, h.attempts⟩

theorem same_autoPairingFailed (m : ComputerManager C) (c : C) (reason : String) :
    SameAttempts m (m.autoPairingFailed c reason) := by
  unfold autoPairingFailed scHandleAutoPairingFailed
  have hemit : SameAttempts m (m.emit (.autoPairingCompleted c false reason)) := ⟨rfl, rfl⟩
  split_ifs
  · exact hemit
  · exact hemit.trans (same_scFailAutoConnect _ _)

omit [DecidableEq C] in
theorem same_startFlow (m : ComputerManager C) (c : C) (st : ScAutoConnectState) (stage : String) :
    SameAttempts m
      ({ m.startFlow c with autoConnectState := st }.emit (.autoConnectStageChanged stage)) :=
  ⟨rfl, rfl⟩

theorem same_streamChosen (m : ComputerManager C) (c : C) : SameAttempts m (m.streamChosen qt c) := by
  unfold streamChosen
  split
  · exact .refl m
  · exact same_scStartAutoStream m c _

/-- A reply of the Broker leaves the attempts as they are, or ends the one in
    progress. -/
theorem relayed_cases (m : ComputerManager C) (success : Bool) (reason : String) :
    attempts (m.scHandleBrokerPairingRelayed success reason).effects = attempts m.effects ∧
      (m.scHandleBrokerPairingRelayed success reason).autoPairingComputer =
        if success then m.autoPairingComputer else none := by
  unfold scHandleBrokerPairingRelayed
  cases hc : m.autoPairingComputer with
  | none => simp [hc]
  | some c =>
    cases success with
    | true => simp [hc]
    | false =>
      have h := same_autoPairingFailed { m with autoPairingComputer := none } c
        ("broker_relay:" ++ reason)
      exact ⟨h.attempts, h.computer⟩

theorem pairs_beginHeadlessPairing (m : ComputerManager C) (c : C) :
    Pairs m (m.beginHeadlessPairing qt c) := by
  unfold beginHeadlessPairing
  dsimp only
  split_ifs with hmissing hbusy
  · exact (same_autoPairingFailed m c _).pairs
  · exact (same_autoPairingFailed m c _).pairs
  · refine ⟨fun c' hc' => absurd (hc' ▸ Option.some_ne_none c') hbusy, fun _ c' hc' => ?_⟩
    unfold requestPairing at hc' ⊢
    split_ifs at hc' ⊢
    · obtain rfl := Option.some.inj hc'
      exact ⟨true, rfl⟩
    · rw [(relayed_cases _ _ _).2] at hc'
      cases hc'

theorem pairs_scEvaluateAutoConnect (m : ComputerManager C) (c : C) :
    Pairs m (m.scEvaluateAutoConnect qt c) := by
  have hcases := scEvaluateAutoConnect_cases qt m c
  generalize m.scEvaluateAutoConnect qt c = m' at hcases ⊢
  cases hcases with
  | stay => exact (SameAttempts.refl m).pairs
  | pair => exact .of_same (same_startFlow m c _ _) (pairs_beginHeadlessPairing _ c)
  | wait => exact .of_same (same_startFlow m c _ _) (same_streamChosen _ c).pairs
  | stream => exact (same_streamChosen m c).pairs

theorem pairs_requestConnect (m : ComputerManager C) (address : String) (port : ℤ)
    (connectToken : String) (hostId : ℤ) (brokerUrl : String) :
    Pairs m (m.requestConnect qt address port connectToken hostId brokerUrl) := by
  unfold requestConnect
  dsimp only
  split
  · exact (SameAttempts.refl m).pairs
  · split
    · exact .of_same (same_stamp m _ _) (pairs_scEvaluateAutoConnect _ _)
    · exact SameAttempts.pairs ⟨rfl, rfl⟩

theorem pairs_handleComputerStateChanged (m : ComputerManager C) (c : C) :
    Pairs m (m.handleComputerStateChanged qt c) := by
  unfold handleComputerStateChanged onPendingConnectStateChanged
  dsimp only
  split
  · exact pairs_scEvaluateAutoConnect m c
  · refine .of_same ?_ (pairs_scEvaluateAutoConnect _ c)
    exact ⟨rfl, rfl⟩

theorem pairs_scHandleAutoPairingCompleted (m : ComputerManager C) (c : C) (success : Bool)
    (reason : String) : Pairs m (m.scHandleAutoPairingCompleted qt c success reason) := by
  unfold scHandleAutoPairingCompleted
  split_ifs
  · exact (SameAttempts.refl m).pairs
  · exact (same_scFailAutoConnect m _).pairs
  · refine .of_same ?_ (pairs_scEvaluateAutoConnect _ c)
    exact ⟨rfl, rfl⟩

variable (qt) in
/-- The result of a handshake ends the attempt in progress on that host. -/
theorem headless_cases (m : ComputerManager C) (c : C) (error : String) :
    (m.autoPairingComputer ≠ some c ∧ m.scHandleHeadlessPairingResult qt c error = m) ∨
      (m.autoPairingComputer = some c ∧
        Pairs { m with autoPairingComputer := none } (m.scHandleHeadlessPairingResult qt c error)) := by
  unfold scHandleHeadlessPairingResult
  by_cases hc : some c = m.autoPairingComputer
  · refine .inr ⟨hc.symm, ?_⟩
    rw [if_neg (not_not.mpr hc)]
    dsimp only
    split_ifs
    · refine .of_same ?_ (pairs_scHandleAutoPairingCompleted _ c true "")
      exact ⟨rfl, rfl⟩
    · refine .of_same ?_ (pairs_scHandleAutoPairingCompleted _ c false error)
      exact ⟨rfl, rfl⟩
  · exact .inl ⟨fun h => hc h.symm, if_pos hc⟩

/-- The events other than the results of an attempt. -/
def Event.isResult : Event C → Bool
  | .headlessPairingResult .. | .brokerPairingRelayed .. => true
  | _ => false

theorem pairs_handle (m : ComputerManager C) {e : Event C} (he : e.isResult = false) :
    Pairs m (handle qt m e) := by
  cases e with
  | requestConnect => exact pairs_requestConnect m _ _ _ _ _
  | knownHosts | polled => exact SameAttempts.pairs ⟨rfl, rfl⟩
  | computerStateChanged c => exact pairs_handleComputerStateChanged m c
  | timeout => exact (same_timeout m).pairs
  | cancel => exact (same_cancelAutoConnect m).pairs
  | headlessPairingResult | brokerPairingRelayed => cases he

/-! ## Numbered attempts -/

/-- The attempt number `n`, counted from 0. -/
def attempt (m : ComputerManager C) (n : ℕ) : Option (Attempt C) := (attempts m.effects).reverse[n]?

/-- The number of the attempt in progress. -/
def inProgress (m : ComputerManager C) : Option ℕ :=
  m.autoPairingComputer.map fun _ => (attempts m.effects).length - 1

/-- The attempt in progress is the last one. -/
def Numbered (m : ComputerManager C) : Prop :=
  ∀ c, m.autoPairingComputer = some c → ∃ posted as, attempts m.effects = ⟨c, posted⟩ :: as

omit [DecidableEq C] in
theorem Pairs.numbered (h : Pairs m m') (hm : Numbered m) : Numbered m' := by
  intro c hc
  cases hm' : m.autoPairingComputer with
  | none =>
    obtain ⟨posted, hp⟩ := h.free hm' c hc
    exact ⟨posted, _, hp⟩
  | some c₀ =>
    obtain ⟨h1, h2⟩ := h.busy c₀ hm'
    obtain rfl := Option.some.inj (h1.symm.trans hc)
    obtain ⟨posted, as, hp⟩ := hm c₀ hm'
    exact ⟨posted, as, h2.trans hp⟩

omit [DecidableEq C] in
theorem Pairs.inProgress (h : Pairs m m') {k : ℕ} (hk : m.inProgress = some k) :
    m'.inProgress = some k := by
  obtain ⟨c, hc, rfl⟩ := Option.map_eq_some_iff.mp hk
  obtain ⟨h1, h2⟩ := h.busy c hc
  simp [ComputerManager.inProgress, h1, h2]

omit [DecidableEq C] in
/-- An attempt that was ended is not in progress again. -/
theorem Pairs.ended (h : Pairs { m with autoPairingComputer := none } m') (hm : Numbered m) {k : ℕ}
    (hk : m.inProgress = some k) : m'.inProgress ≠ some k := by
  obtain ⟨c, hc, rfl⟩ := Option.map_eq_some_iff.mp hk
  obtain ⟨posted, as, has⟩ := hm c hc
  intro hk'
  obtain ⟨c', hc', hlen⟩ := Option.map_eq_some_iff.mp hk'
  obtain ⟨posted', hp⟩ := h.free rfl c' hc'
  rw [hp] at hlen
  simp only [List.length_cons, has] at hlen
  omega

end ComputerManager

/-! ## Runs -/

/-- A handshake result or a relay reply, of the attempt with that number. -/
inductive Arrival where
  | handshake (n : ℕ)
  | relay (n : ℕ)
deriving DecidableEq

inductive Input (C : Type) where
  | event (e : ComputerManager.Event C)
  | handshake (n : ℕ) (error : String)
  | relay (n : ℕ) (success : Bool) (reason : String)

/-- The manager, and what has arrived of its attempts. -/
structure Client (C : Type) where
  manager : ComputerManager C
  arrived : List Arrival := []

namespace Client
open ComputerManager

variable (qt : Qt)

/-- Each attempt has one handshake result, and one reply if its PIN was posted. -/
def step (s : Client C) : Input C → Option (Client C)
  | .event e => if e.isResult then none else some { s with manager := handle qt s.manager e }
  | .handshake n error =>
    match s.manager.attempt n with
    | none => none
    | some a =>
      if .handshake n ∈ s.arrived then none
      else some ⟨handle qt s.manager (.headlessPairingResult a.computer error),
        .handshake n :: s.arrived⟩
  | .relay n success reason =>
    match s.manager.attempt n with
    | none => none
    | some a =>
      if a.posted = false ∨ .relay n ∈ s.arrived then none
      else some ⟨handle qt s.manager (.brokerPairingRelayed success reason), .relay n :: s.arrived⟩

/-- The client after the inputs, newest first. -/
def exec (m : ComputerManager C) : List (Input C) → Option (Client C)
  | [] => some ⟨m, []⟩
  | x :: xs => (exec m xs).bind (step qt · x)

/-- If the input ends an attempt, it is a result of that attempt. -/
def Isolated (s : Client C) (x : Input C) (s' : Client C) : Prop :=
  ∀ k, s.manager.inProgress = some k → s'.manager.inProgress ≠ some k →
    match x with
    | .event _ => False
    | .handshake n _ | .relay n _ _ => n = k

/-- No handshake result of another attempt on the host of the attempt in
    progress, and no failed reply of another attempt at all. -/
def Timely (s : Client C) : Input C → Prop
  | .event _ => True
  | .handshake n _ => ∀ k, s.manager.inProgress = some k → n ≠ k →
    (s.manager.attempt n).map Attempt.computer ≠ s.manager.autoPairingComputer
  | .relay n success _ => success = false → ∀ k, s.manager.inProgress = some k → n = k

variable {qt}

/-- The cases of one step. -/
inductive Step (qt : Qt) (s : Client C) : Input C → ComputerManager C → Prop where
  | event {e : Event C} (he : e.isResult = false) : Step qt s (.event e) (handle qt s.manager e)
  | handshake {n : ℕ} {error : String} {a : Attempt C} (ha : s.manager.attempt n = some a) :
      Step qt s (.handshake n error) (s.manager.scHandleHeadlessPairingResult qt a.computer error)
  | relay {n : ℕ} {success : Bool} {reason : String} :
      Step qt s (.relay n success reason) (s.manager.scHandleBrokerPairingRelayed success reason)

theorem step_cases {s s' : Client C} {x : Input C} (h : s.step qt x = some s') :
    Step qt s x s'.manager := by
  cases x with
  | event e =>
    simp only [step] at h
    split_ifs at h with he
    obtain rfl := Option.some.inj h
    exact .event (Bool.not_eq_true _ ▸ he)
  | handshake n error =>
    simp only [step] at h
    split at h
    · cases h
    · split_ifs at h
      obtain rfl := Option.some.inj h
      exact .handshake ‹_›
  | relay n success reason =>
    simp only [step] at h
    split at h
    · cases h
    · split_ifs at h
      obtain rfl := Option.some.inj h
      exact .relay

theorem numbered_step {s : Client C} {x : Input C} {m : ComputerManager C}
    (hs : Numbered s.manager) (h : Step qt s x m) : Numbered m := by
  cases h with
  | event he => exact (pairs_handle s.manager he).numbered hs
  | @handshake n error a ha =>
    rcases headless_cases qt s.manager a.computer error with ⟨-, heq⟩ | ⟨-, hp⟩
    · rw [heq]
      exact hs
    · exact hp.numbered nofun
  | @relay n success reason =>
    obtain ⟨h1, h2⟩ := relayed_cases s.manager success reason
    intro c hc
    rw [h2] at hc
    split_ifs at hc
    obtain ⟨posted, as, has⟩ := hs c hc
    exact ⟨posted, as, h1.trans has⟩

/-- An input of a reachable state is isolated iff it is timely. -/
theorem isolated_step {s s' : Client C} {x : Input C} (hs : Numbered s.manager)
    (h : s.step qt x = some s') : Isolated s x s' ↔ Timely s x := by
  have hcases := step_cases h
  generalize hm : s'.manager = m at hcases
  unfold Isolated
  rw [hm]
  cases hcases with
  | event he =>
    exact ⟨fun _ => trivial, fun _ k hk hk' => hk' ((pairs_handle s.manager he).inProgress hk)⟩
  | @handshake n error a ha =>
    simp only [Timely, ha, Option.map_some]
    rcases headless_cases qt s.manager a.computer error with ⟨hne, heq⟩ | ⟨hc, hp⟩
    · rw [heq]
      exact ⟨fun _ _ _ _ h => hne h.symm, fun _ k hk hk' => absurd hk hk'⟩
    · refine ⟨fun hiso k hk hne => absurd (hiso k hk (hp.ended hs hk)) hne, fun ht k hk _ => ?_⟩
      by_contra hne
      exact ht k hk hne hc.symm
  | @relay n success reason =>
    obtain ⟨h1, h2⟩ := relayed_cases s.manager success reason
    have hprogress : (s.manager.scHandleBrokerPairingRelayed success reason).inProgress =
        if success then s.manager.inProgress else none := by
      simp only [inProgress, h1, h2]
      split_ifs <;> rfl
    simp only [Timely, hprogress]
    cases success with
    | true => exact ⟨fun _ => nofun, fun _ k hk hk' => absurd hk hk'⟩
    | false => exact ⟨fun hiso _ k hk => hiso k hk nofun, fun ht k hk _ => ht rfl k hk⟩

theorem numbered_exec {m : ComputerManager C} (hm : m.Fresh) {xs : List (Input C)} {s : Client C}
    (h : exec qt m xs = some s) : Numbered s.manager := by
  induction xs generalizing s with
  | nil =>
    obtain rfl := Option.some.inj h
    intro c hc
    rw [hm.autoPairingComputer] at hc
    cases hc
  | cons x xs ih =>
    obtain ⟨s₀, hs₀, hstep⟩ := Option.bind_eq_some_iff.mp h
    exact numbered_step (ih hs₀) (step_cases hstep)

/-- `P` holds of every step of the run. -/
def Steps (qt : Qt) (m : ComputerManager C) (P : Client C → Input C → Client C → Prop)
    (xs : List (Input C)) : Prop :=
  ∀ past x, x :: past <:+ xs → ∀ s s', exec qt m past = some s → s.step qt x = some s' → P s x s'

variable (qt) in
/-- **Attempts are isolated** in exactly the runs whose results are timely. -/
theorem isolated_iff {m : ComputerManager C} (hm : m.Fresh) (xs : List (Input C)) :
    Steps qt m Isolated xs ↔ Steps qt m (fun s x _ => Timely s x) xs := by
  refine forall₅_congr fun past x _ s s' => ?_
  refine forall₂_congr fun hs hstep => ?_
  exact isolated_step (numbered_exec hm hs) hstep

/-- A flow whose relay fails. -/
theorem isolated_iff_lab : Steps labQt lab Isolated [.relay 0 false "http_502", .event labConnect] := by
  refine (isolated_iff labQt fresh_lab _).mpr fun past x hx s s' hs hstep => ?_
  rcases List.suffix_cons_iff.mp hx with hx | hx
  · obtain ⟨rfl, rfl⟩ := List.cons.inj hx
    have hk : (exec labQt lab [.event labConnect]).map (·.manager.inProgress) = some (some 0) := by
      decide
    rw [hs] at hk
    intro _ k hk'
    exact Option.some.inj ((Option.some.inj hk).symm.trans hk')
  · rcases List.suffix_cons_iff.mp hx with hx | hx
    · obtain ⟨rfl, rfl⟩ := List.cons.inj hx
      trivial
    · cases List.suffix_nil.mp hx

/-- The relay of the first attempt fails, the user tries again, and the first
    handshake times out. -/
theorem late_handshake : ¬∀ xs, Steps labQt lab Isolated xs := by
  let past : List (Input Bool) :=
    [.event labConnect, .relay 0 false "http_502", .event labConnect]
  have hbefore : (exec labQt lab past).map (·.manager.inProgress) = some (some 1) := by decide
  have hafter : (exec labQt lab (.handshake 0 "timeout" :: past)).map (·.manager.inProgress) =
      some none := by decide
  intro hall
  obtain ⟨s, hs, hk⟩ := Option.map_eq_some_iff.mp hbefore
  obtain ⟨s', hs', hk'⟩ := Option.map_eq_some_iff.mp hafter
  have hstep : s.step labQt (.handshake 0 "timeout") = some s' := by
    rw [exec, hs] at hs'
    exact hs'
  have hiso : 0 = 1 := hall _ past _ List.suffix_rfl s s' hs hstep 1 hk (hk' ▸ nofun)
  cases hiso

end Client

/-! ## Pairing at once -/

namespace ComputerManager

variable {qt : Qt} {m m' : ComputerManager C} {c : C}

/-- The attempt belongs to a flow that is pairing. -/
structure Attempting (m : ComputerManager C) : Prop where
  good : Good m
  pairing : m.autoConnectState = .pairing → m.autoPairingComputer = m.autoConnectComputer
  free : m.autoConnectState ≠ .pairing → m.autoPairingComputer = none

/-- An idle manager is free, and a request for a known host that is online and
    not paired starts a handshake. -/
def PairsAtOnce (qt : Qt) (m : ComputerManager C) : Prop :=
  m.autoConnectState = .idle → m.autoPairingComputer = none ∧
    ∀ address port connectToken hostId brokerUrl c, address ≠ "" → m.knownHost address = some c →
      (m.computers c).online = true → (m.computers c).paired = false →
      connectToken ≠ "" → brokerUrl ≠ "" →
      ∃ new, (m.requestConnect qt address port connectToken hostId brokerUrl).effects =
          new ++ m.effects ∧ .handshakeStarted c ∈ new ∧
        ∀ c', .autoPairingCompleted c' false "pairing_in_progress" ∉ new

/-- The timeout or the user ends a flow that is pairing. -/
def Abandons (m : ComputerManager C) : Event C → Prop
  | .timeout | .cancel => m.autoConnectState = .pairing
  | _ => False

theorem state_scFailAutoConnect (m : ComputerManager C) (message : String) :
    (m.scFailAutoConnect message).autoConnectState = .idle := by
  unfold scFailAutoConnect
  cases m.autoConnectComputer <;> rfl

/-- A flow without an attempt that ends, or goes on after its pairing. -/
theorem Attempting.of_free (hg : Good m) (hst : m.autoConnectState ≠ .pairing)
    (hc : m.autoPairingComputer = none) : Attempting m := ⟨hg, fun h => absurd h hst, fun _ => hc⟩

theorem attempting_scFailAutoConnect (hg : Good m) (hc : m.autoPairingComputer = none)
    (hne : m.autoConnectComputer ≠ none) (message : String) : Attempting (m.scFailAutoConnect message) :=
  .of_free (drives_scFailAutoConnect hg.after hne message).good
    (by rw [state_scFailAutoConnect]; decide)
    ((same_scFailAutoConnect m message).computer.trans hc)

/-- The attempt of the flow has failed. -/
theorem attempting_autoPairingFailed (hg : Good m) (hst : m.autoConnectState = .pairing)
    (hflow : m.autoConnectComputer = some c) (hc : m.autoPairingComputer = none) (reason : String) :
    Attempting (m.autoPairingFailed c reason) := by
  have hbusy : ¬((m.emit (.autoPairingCompleted c false reason)).autoConnectState ≠ .pairing ∨
      some c ≠ (m.emit (.autoPairingCompleted c false reason)).autoConnectComputer) :=
    not_or.mpr ⟨not_not.mpr hst, not_not.mpr hflow.symm⟩
  rw [autoPairingFailed, scHandleAutoPairingFailed, if_neg hbusy]
  exact attempting_scFailAutoConnect (hg.emit rfl) hc (by rw [emit, hflow]; exact Option.some_ne_none c) _

theorem attempting_relayed (hm : Attempting m) (success : Bool) (reason : String) :
    Attempting (m.scHandleBrokerPairingRelayed success reason) := by
  unfold scHandleBrokerPairingRelayed
  cases hc : m.autoPairingComputer with
  | none => exact hm
  | some c =>
    dsimp only
    split_ifs
    · exact hm
    · have hst : m.autoConnectState = .pairing := by
        by_contra hst
        rw [hm.free hst] at hc
        cases hc
      have hflow : m.autoConnectComputer = some c := (hm.pairing hst).symm.trans hc
      exact attempting_autoPairingFailed (hm.good.setPairing none) hst hflow rfl _

/-- The handshake of a flow that has just started. -/
theorem attempting_beginHeadlessPairing (hg : Good m) (hst : m.autoConnectState = .pairing)
    (hflow : m.autoConnectComputer = some c) (hc : m.autoPairingComputer = none) :
    Attempting (m.beginHeadlessPairing qt c) := by
  unfold beginHeadlessPairing
  dsimp only
  split_ifs with hmissing hbusy
  · exact attempting_autoPairingFailed hg hst hflow hc _
  · exact absurd hc hbusy
  · have hm : Attempting ({ m with autoPairingComputer := some c }.emit (.handshakeStarted c)) :=
      ⟨(hg.setPairing _).emit rfl, fun _ => hflow.symm, fun h => absurd hst h⟩
    unfold requestPairing
    split_ifs
    · exact ⟨hm.good.emit rfl, hm.pairing, hm.free⟩
    · exact attempting_relayed hm _ _

theorem attempting_streamChosen (hm : Attempting m) (hst : m.autoConnectState ≠ .pairing)
    (hflow : m.autoConnectComputer = some c) : Attempting (m.streamChosen qt c) := by
  refine .of_free (drives_streamChosen hm.good hflow).good ?_
    ((same_streamChosen m c).computer.trans (hm.free hst))
  unfold streamChosen
  split
  · exact hst
  · exact nofun

theorem attempting_scEvaluateAutoConnect (hm : Attempting m) (c : C) :
    Attempting (m.scEvaluateAutoConnect qt c) := by
  have hcases := scEvaluateAutoConnect_cases qt m c
  generalize m.scEvaluateAutoConnect qt c = m' at hcases ⊢
  cases hcases with
  | stay => exact hm
  | pair htoken hst =>
    have hstart : Good { m.startFlow c with autoConnectState := .pairing } :=
      hm.good.startFlow hst htoken (by decide)
    exact attempting_beginHeadlessPairing (hstart.emit rfl) rfl rfl (hm.free (by rw [hst]; decide))
  | wait htoken hst =>
    have hstart : Good { m.startFlow c with autoConnectState := .waitingForApps } :=
      hm.good.startFlow hst htoken (by decide)
    have hfree : m.autoPairingComputer = none := hm.free (by rw [hst]; decide)
    exact attempting_streamChosen (.of_free (hstart.emit rfl) nofun hfree) nofun rfl
  | stream hst hc =>
    have hne : m.autoConnectComputer ≠ none := mt hm.good.idle.mpr (by rw [hst]; decide)
    exact attempting_streamChosen hm (by rw [hst]; decide) (hc hne)

/-- The attempt of the flow is over. -/
theorem attempting_completed (hg : Good m) (hst : m.autoConnectState = .pairing)
    (hflow : m.autoConnectComputer = some c) (hc : m.autoPairingComputer = none) (success : Bool)
    (reason : String) : Attempting (m.scHandleAutoPairingCompleted qt c success reason) := by
  unfold scHandleAutoPairingCompleted
  rw [if_neg (not_or.mpr ⟨not_not.mpr hst, not_not.mpr hflow.symm⟩)]
  split_ifs
  · exact attempting_scFailAutoConnect hg hc (by rw [hflow]; exact Option.some_ne_none c) _
  · exact attempting_scEvaluateAutoConnect (.of_free ((hg.waiting hst).emit rfl) nofun hc) c

theorem attempting_headless (hm : Attempting m) (c : C) (error : String) :
    Attempting (m.scHandleHeadlessPairingResult qt c error) := by
  unfold scHandleHeadlessPairingResult
  dsimp only
  by_cases hc : some c = m.autoPairingComputer
  · rw [if_neg (not_not.mpr hc)]
    have hst : m.autoConnectState = .pairing := by
      by_contra hst
      rw [hm.free hst] at hc
      cases hc
    have hflow : m.autoConnectComputer = some c := (hm.pairing hst).symm.trans hc.symm
    have hclear := hm.good.setPairing none
    split_ifs
    · exact attempting_completed (hclear.emit rfl) hst hflow rfl true ""
    · exact attempting_completed (hclear.emit rfl) hst hflow rfl false error
  · rw [if_pos hc]
    exact hm

theorem Attempting.stamp (hm : Attempting m) (c : C) (pc : PendingConnect) :
    Attempting (m.stamp c pc) := ⟨hm.good.stamp c pc, hm.pairing, hm.free⟩

theorem attempting_requestConnect (hm : Attempting m) (address : String) (port : ℤ)
    (connectToken : String) (hostId : ℤ) (brokerUrl : String) :
    Attempting (m.requestConnect qt address port connectToken hostId brokerUrl) := by
  have hg : Good (m.requestConnect qt address port connectToken hostId brokerUrl) :=
    (drives_requestConnect hm.good _ _ _ _ _).good
  unfold requestConnect at hg ⊢
  dsimp only at hg ⊢
  by_cases haddress : address = ""
  · rw [if_pos haddress]
    exact hm
  rw [if_neg haddress] at hg ⊢
  cases hknown : m.knownHost address with
  | some matched => exact attempting_scEvaluateAutoConnect (hm.stamp _ _) _
  | none =>
    rw [hknown] at hg
    exact ⟨hg, hm.pairing, hm.free⟩

theorem attempting_handleComputerStateChanged (hm : Attempting m) (c : C) :
    Attempting (m.handleComputerStateChanged qt c) := by
  unfold handleComputerStateChanged onPendingConnectStateChanged
  dsimp only
  split
  · exact attempting_scEvaluateAutoConnect hm c
  · rename_i key found _
    have hkey := hm.good.setPending (Function.update m.pendingTokensByAddress key none)
    have hstamp := Attempting.stamp ⟨hkey, hm.pairing, hm.free⟩ c found
    exact attempting_scEvaluateAutoConnect hstamp c

/-- A flow that is not pairing may end at any time. -/
theorem attempting_handle (hm : Attempting m) {e : Event C} (he : ¬Abandons m e) :
    Attempting (handle qt m e) := by
  have hg : Good (handle qt m e) := (drives_handle hm.good e).good
  cases e with
  | requestConnect => exact attempting_requestConnect hm _ _ _ _ _
  | knownHosts | polled => exact ⟨hg, hm.pairing, hm.free⟩
  | computerStateChanged c => exact attempting_handleComputerStateChanged hm c
  | headlessPairingResult c error => exact attempting_headless hm c error
  | brokerPairingRelayed success reason => exact attempting_relayed hm success reason
  | timeout =>
    refine .of_free hg ?_ ((same_timeout m).computer.trans (hm.free he))
    simp only [handle, scHandleAutoConnectTimeout]
    split_ifs
    · exact he
    · rw [state_scFailAutoConnect]
      decide
  | cancel =>
    refine .of_free hg ?_ ((same_cancelAutoConnect m).computer.trans (hm.free he))
    by_cases hidle : m.autoConnectState = .idle
    · simp only [handle, cancelAutoConnect, if_pos hidle]
      exact he
    · simp only [handle, (cancelAutoConnect_canceled hidle).1]
      decide

variable (qt) in
/-- A flow that is pairing leaves its attempt behind. -/
theorem abandoned {e : Event C} (hm : Attempting m) (he : Abandons m e) :
    (handle qt m e).autoConnectState = .idle ∧ (handle qt m e).autoPairingComputer ≠ none := by
  have hbusy : ∀ hst : m.autoConnectState = .pairing, m.autoPairingComputer ≠ none := by
    intro hst
    rw [hm.pairing hst]
    exact mt hm.good.idle.mpr (by rw [hst]; decide)
  cases e with
  | timeout =>
    have hne : ¬m.autoConnectState = .idle := by rw [he]; decide
    refine ⟨?_, (same_timeout m).computer.trans_ne (hbusy he)⟩
    simp only [handle, scHandleAutoConnectTimeout, if_neg hne]
    exact state_scFailAutoConnect _ _
  | cancel =>
    have hne : ¬m.autoConnectState = .idle := by rw [he]; decide
    refine ⟨?_, (same_cancelAutoConnect m).computer.trans_ne (hbusy he)⟩
    exact (cancelAutoConnect_canceled hne).1
  | requestConnect | knownHosts | polled | computerStateChanged | headlessPairingResult
  | brokerPairingRelayed => exact absurd he id

/-- The effect by which a request is refused. -/
def refused (c : C) : Effect C := .autoPairingCompleted c false "pairing_in_progress"

theorem effects_scFailAutoConnect (m : ComputerManager C) (message : String) :
    (m.scFailAutoConnect message).effects =
      .autoConnectFailed m.autoConnectComputer message :: m.effects := by
  unfold scFailAutoConnect
  cases m.autoConnectComputer <;> rfl

theorem autoPairingFailed_new (m : ComputerManager C) (c : C) {reason : String}
    (hreason : reason ≠ "pairing_in_progress") :
    ∃ new, (m.autoPairingFailed c reason).effects = new ++ m.effects ∧ ∀ c', refused c' ∉ new := by
  unfold autoPairingFailed scHandleAutoPairingFailed
  split_ifs
  · exact ⟨[.autoPairingCompleted c false reason], rfl, by simp [refused, hreason.symm]⟩
  · rw [effects_scFailAutoConnect]
    exact ⟨[.autoConnectFailed _ _, .autoPairingCompleted c false reason], rfl, by
      simp [refused, hreason.symm]⟩

variable (qt) in
theorem requestPairing_new (m : ComputerManager C) (brokerUrl connectToken : String) :
    ∃ new, (m.requestPairing qt brokerUrl connectToken).effects = new ++ m.effects ∧
      ∀ c, refused c ∉ new := by
  unfold requestPairing
  split_ifs
  · exact ⟨[.pairingPosted brokerUrl connectToken], rfl, by simp [refused]⟩
  · unfold scHandleBrokerPairingRelayed
    cases m.autoPairingComputer with
    | none => exact ⟨[], rfl, by simp⟩
    | some c => exact autoPairingFailed_new { m with autoPairingComputer := none } c (by decide)

variable (qt) in
/-- With a token and a broker URL, a free manager starts the handshake. -/
theorem beginHeadlessPairing_new (hfree : m.autoPairingComputer = none)
    (htoken : (m.computers c).pendingConnectToken ≠ "")
    (hbroker : (m.computers c).pendingBrokerUrl ≠ "") :
    ∃ new, (m.beginHeadlessPairing qt c).effects = new ++ m.effects ∧ .handshakeStarted c ∈ new ∧
      ∀ c', refused c' ∉ new := by
  unfold beginHeadlessPairing
  dsimp only
  rw [if_neg (not_or.mpr ⟨htoken, hbroker⟩), if_neg (not_not.mpr hfree)]
  obtain ⟨new, hnew, href⟩ := requestPairing_new qt
    ({ m with autoPairingComputer := some c }.emit (.handshakeStarted c))
    (m.computers c).pendingBrokerUrl (m.computers c).pendingConnectToken
  refine ⟨new ++ [.handshakeStarted c], ?_, by simp, fun c' hc' => ?_⟩
  · rw [hnew, List.append_assoc]
    rfl
  · rcases List.mem_append.mp hc' with hc' | hc'
    · exact href c' hc'
    · simp [refused] at hc'

/-- An idle manager pairs with a host that is online. -/
theorem scEvaluateAutoConnect_new (hidle : m.autoConnectState = .idle)
    (hflow : m.autoConnectComputer = none) (hfree : m.autoPairingComputer = none)
    (htoken : (m.computers c).pendingConnectToken ≠ "")
    (hbroker : (m.computers c).pendingBrokerUrl ≠ "")
    (honline : (m.computers c).online = true) (hpaired : (m.computers c).paired = false) :
    ∃ new, (m.scEvaluateAutoConnect qt c).effects = new ++ m.effects ∧ .handshakeStarted c ∈ new ∧
      ∀ c', refused c' ∉ new := by
  have hother : ¬(m.autoConnectComputer ≠ none ∧ m.autoConnectComputer ≠ some c) := fun h => h.1 hflow
  have honline : ¬(m.computers c).online = false := by rw [honline]; decide
  unfold scEvaluateAutoConnect
  dsimp only
  rw [if_neg htoken, if_neg hother, if_neg honline, hidle]
  dsimp only
  rw [if_pos hpaired]
  generalize (s!"Pairing with {(m.computers c).name}..." : String) = stage
  obtain ⟨new, hnew, hstarted, href⟩ := beginHeadlessPairing_new qt (c := c)
    (m := { m.startFlow c with autoConnectState := .pairing }.emit (.autoConnectStageChanged stage))
    hfree htoken hbroker
  refine ⟨new ++ [.autoConnectStageChanged stage, .autoConnectStarted c (m.computers c).name], ?_,
    List.mem_append_left _ hstarted, fun c' hc' => ?_⟩
  · rw [hnew, List.append_assoc]
    rfl
  · rcases List.mem_append.mp hc' with hc' | hc'
    · exact href c' hc'
    · simp [refused] at hc'

theorem pairsAtOnce_of_attempting (hm : Attempting m) : PairsAtOnce qt m := by
  intro hidle
  have hfree : m.autoPairingComputer = none := hm.free (by rw [hidle]; decide)
  refine ⟨hfree, ?_⟩
  intro address port connectToken hostId brokerUrl c haddress hknown honline hpaired htoken hbroker
  unfold requestConnect
  dsimp only
  rw [if_neg haddress, hknown]
  dsimp only
  generalize hpc : PendingConnect.mk address _ connectToken hostId brokerUrl = pc
  have hstamp : (m.stamp c pc).computers c = { m.computers c with
      pendingConnectToken := connectToken, pendingHostId := hostId, pendingBrokerUrl := brokerUrl } := by
    rw [← hpc]
    exact Function.update_self c _ _
  obtain ⟨new, hnew, hstarted, href⟩ := scEvaluateAutoConnect_new (m := m.stamp c pc) (c := c) hidle
    (hm.good.idle.mp hidle) hfree (by rw [hstamp]; exact htoken) (by rw [hstamp]; exact hbroker)
    (by rw [hstamp]; exact honline) (by rw [hstamp]; exact hpaired)
  refine ⟨new ++ [.stamped c pc], ?_, List.mem_append_left _ hstarted, fun c' hc' => ?_⟩
  · rw [hnew, List.append_assoc, stamp_eq]
    rfl
  · rcases List.mem_append.mp hc' with hc' | hc'
    · exact href c' hc'
    · simp at hc'

/-- Some step of the run abandons an attempt. -/
def Abandoning (qt : Qt) (m : ComputerManager C) (es : List (Event C)) : Prop :=
  ∃ past e, past ++ [e] <+: es ∧ Abandons (exec qt m past) e

theorem exec_append (m : ComputerManager C) (es : List (Event C)) (e : Event C) :
    exec qt m (es ++ [e]) = handle qt (exec qt m es) e := List.foldl_append

theorem attempting_exec (hm : m.Fresh) {es : List (Event C)} (hes : ¬Abandoning qt m es) :
    Attempting (exec qt m es) := by
  induction es using List.reverseRecOn with
  | nil =>
    exact .of_free hm.good (by rw [exec, List.foldl_nil, hm.autoConnectState]; decide)
      hm.autoPairingComputer
  | append_singleton es e ih =>
    rw [exec_append]
    refine attempting_handle (ih fun ⟨past, e', hpast, he'⟩ => hes ⟨past, e', ?_, he'⟩)
      fun he => hes ⟨es, e, List.prefix_rfl, he⟩
    exact hpast.trans (List.prefix_append es [e])

variable (qt) in
/-- **An idle manager pairs at once** throughout exactly the runs in which no
    flow that is pairing is ended by its timeout or by the user. -/
theorem pairsAtOnce_iff (hm : m.Fresh) (es : List (Event C)) :
    (∀ past, past <+: es → PairsAtOnce qt (exec qt m past)) ↔ ¬Abandoning qt m es := by
  refine ⟨fun hall => ?_, fun hes past hpast => ?_⟩
  · induction es using List.reverseRecOn with
    | nil =>
      rintro ⟨past, e, hpast, -⟩
      simp at hpast
    | append_singleton es e ih =>
      have hes := ih fun past hpast => hall past (hpast.trans (List.prefix_append es [e]))
      have hatt := attempting_exec hm hes
      rintro ⟨past, e', hpast, he'⟩
      rcases List.prefix_concat_iff.mp hpast with hpast | hpast
      · obtain ⟨rfl, hee⟩ := List.append_inj' hpast rfl
        obtain rfl := (List.cons.inj hee).1
        obtain ⟨hidle, hbusy⟩ := abandoned qt hatt he'
        rw [← exec_append] at hidle hbusy
        exact hbusy (hall _ List.prefix_rfl hidle).1
      · exact hes ⟨past, e', hpast, he'⟩
  · exact pairsAtOnce_of_attempting (attempting_exec hm fun ⟨past', e, he, ha⟩ =>
      hes ⟨past', e, he.trans hpast, ha⟩)

/-- A relay that fails ends the attempt with the flow. -/
theorem pairsAtOnce_iff_lab :
    PairsAtOnce labQt (exec labQt lab [labConnect, .brokerPairingRelayed false "http_502"]) := by
  refine (pairsAtOnce_iff labQt fresh_lab _).mpr ?_ _ List.prefix_rfl
  rintro ⟨past, e, hpast, he⟩
  have hmem : e ∈ [labConnect, .brokerPairingRelayed false "http_502"] :=
    hpast.subset (List.mem_append_right _ List.mem_cons_self)
  simp only [List.mem_cons, List.not_mem_nil, or_false] at hmem
  rcases hmem with rfl | rfl
  · exact he
  · exact he

/-- The user cancels while the PC is being paired, and tries again. -/
theorem canceled_pairing : ¬∀ es, PairsAtOnce labQt (exec labQt lab es) := by
  intro hall
  have hidle : (exec labQt lab [labConnect, .cancel]).autoConnectState = .idle := by decide
  have hbusy : (exec labQt lab [labConnect, .cancel]).autoPairingComputer = some false := by decide
  have hfree := (hall [labConnect, .cancel] hidle).1
  rw [hbusy] at hfree
  cases hfree

end ComputerManager

end SmartClassroom
