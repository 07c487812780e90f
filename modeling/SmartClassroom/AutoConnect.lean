/-
  The auto-connect flow of the desktop client, as a trace.

  * `Flow` accepts the effects of well-behaved flows: a flow starts for a host
    with a stamped token while no other runs, ends once, for the same host, and
    its end uses the token up.
  * `Good`: the flow read off the effects is the one the manager is in, and its
    state, its host and its timer agree.
  * `autoConnect_trace`: every run is accepted; `Drives` is what one handler
    keeps, also where it is called by another.
-/
import Mathlib.Data.List.Infix
import SmartClassroom.ComputerManager

namespace SmartClassroom

variable {C : Type} [DecidableEq C]

/-! ## Flows -/

/-- The host of a flow that ends. -/
def Effect.ended : Effect C → Option C
  | .autoConnectFailed computer _ | .autoConnectCanceled computer => computer
  | .autoStreamSessionReady computer _ => some computer
  | _ => none

def Effect.isStart : Effect C → Bool
  | .autoConnectStarted .. => true
  | _ => false

def Effect.isEnd : Effect C → Bool
  | .autoConnectFailed .. | .autoConnectCanceled .. | .autoStreamSessionReady .. => true
  | _ => false

/-- The host of the flow, and the hosts with a stamped token. -/
structure Flow (C : Type) where
  computer : Option C
  stamped : C → Bool

namespace Flow

def finish (f : Flow C) : Option C → Option (Flow C)
  | some c => if f.computer = some c then some ⟨none, Function.update f.stamped c false⟩ else none
  | none => none

def next (f : Flow C) : Effect C → Option (Flow C)
  | .stamped c pc => some { f with stamped := Function.update f.stamped c (pc.connectToken != "") }
  | .autoConnectStarted c _ =>
    if f.computer = none ∧ f.stamped c = true then some { f with computer := some c } else none
  | .autoConnectFailed c _ | .autoConnectCanceled c => f.finish c
  | .autoStreamSessionReady c _ => f.finish (some c)
  | .addNewHost .. | .handshakeStarted _ | .pairingPosted .. | .autoPairingCompleted ..
  | .autoConnectStageChanged _ => some f

/-- The flow after the effects, newest first. -/
def after : List (Effect C) → Option (Flow C)
  | [] => some ⟨none, fun _ => false⟩
  | e :: es => (after es).bind (next · e)

theorem finish_eq_some {f f' : Flow C} {c : Option C} (h : f.finish c = some f') :
    f.computer.isSome = true ∧ f'.computer = none := by
  cases c with
  | none => cases h
  | some c =>
    simp only [finish] at h
    split_ifs at h with hc
    obtain rfl := Option.some.inj h
    exact ⟨hc ▸ rfl, rfl⟩

/-- Each start is followed by one end before the next start. -/
theorem count_after {es : List (Effect C)} {f : Flow C} (h : after es = some f) :
    es.countP Effect.isStart = es.countP Effect.isEnd + if f.computer.isSome then 1 else 0 := by
  induction es generalizing f with
  | nil =>
    obtain rfl := Option.some.inj h
    rfl
  | cons e es ih =>
    obtain ⟨f₀, hf₀, hnext⟩ := Option.bind_eq_some_iff.mp h
    have hcount := ih hf₀
    rw [List.countP_cons, List.countP_cons]
    have hfinish : ∀ {c : Option C}, f₀.finish c = some f →
        es.countP Effect.isStart = es.countP Effect.isEnd + 1 + if f.computer.isSome then 1 else 0 := by
      intro c hc
      obtain ⟨h₀, h₁⟩ := finish_eq_some hc
      rw [hcount, h₀, h₁]
      rfl
    cases e with
    | autoConnectStarted c name =>
      simp only [next] at hnext
      split_ifs at hnext with hc
      obtain rfl := Option.some.inj hnext
      rw [hc.1] at hcount
      exact congrArg (· + 1) hcount
    | autoConnectFailed c message | autoConnectCanceled c => exact hfinish (c := c) hnext
    | autoStreamSessionReady c app => exact hfinish (c := some c) hnext
    | stamped | addNewHost | handshakeStarted | pairingPosted | autoPairingCompleted
    | autoConnectStageChanged =>
      obtain rfl := Option.some.inj hnext
      exact hcount

theorem after_suffix {es es' : List (Effect C)} (hs : es' <:+ es) {f : Flow C}
    (h : after es = some f) : ∃ f', after es' = some f' := by
  obtain ⟨new, rfl⟩ := hs
  induction new generalizing f with
  | nil => exact ⟨f, h⟩
  | cons e new ih =>
    obtain ⟨f₀, hf₀, -⟩ := Option.bind_eq_some_iff.mp h
    exact ih hf₀

end Flow

namespace ComputerManager

variable {qt : Qt} {m m' m'' : ComputerManager C} {c : C}

/-- The flow the manager is in. -/
def flow (m : ComputerManager C) : Flow C where
  computer := m.autoConnectComputer
  stamped c := (m.computers c).pendingConnectToken != ""

structure Good (m : ComputerManager C) : Prop where
  after : Flow.after m.effects = some m.flow
  idle : m.autoConnectState = .idle ↔ m.autoConnectComputer = none
  timer : m.timerRunning = true ↔ m.autoConnectState ≠ .idle

/-- Between the two, no host with a flow that ended has kept its token. -/
def Settles (m m' : ComputerManager C) : Prop :=
  ∃ new, m'.effects = new ++ m.effects ∧
    ∀ e ∈ new, ∀ c, e.ended = some c → (m'.computers c).pendingConnectToken = ""

/-- Between the two, no flow has ended. -/
def Quiet (m m' : ComputerManager C) : Prop :=
  ∃ new, m'.effects = new ++ m.effects ∧ ∀ e ∈ new, e.ended = none

/-- What a handler does of the flow. -/
structure Drives (m m' : ComputerManager C) : Prop where
  good : Good m'
  settles : Settles m m'

omit [DecidableEq C] in
theorem Quiet.refl (m : ComputerManager C) : Quiet m m := ⟨[], rfl, by simp⟩

omit [DecidableEq C] in
theorem Quiet.settles (h : Quiet m m') : Settles m m' := by
  obtain ⟨new, heq, hnew⟩ := h
  refine ⟨new, heq, fun e he c hc => ?_⟩
  rw [hnew e he] at hc
  cases hc

omit [DecidableEq C] in
theorem Quiet.trans_settles (h : Quiet m m') (h' : Settles m' m'') : Settles m m'' := by
  obtain ⟨new, heq, hnew⟩ := h
  obtain ⟨new', heq', hnew'⟩ := h'
  refine ⟨new' ++ new, by rw [heq', heq, List.append_assoc], fun e he c hc => ?_⟩
  rcases List.mem_append.mp he with he | he
  · exact hnew' e he c hc
  · rw [hnew e he] at hc
    cases hc

omit [DecidableEq C] in
theorem quiet_emit (m : ComputerManager C) {e : Effect C} (he : e.ended = none) :
    Quiet m (m.emit e) := ⟨[e], rfl, by simpa using he⟩

theorem Good.drives (h : Good m') (hq : Quiet m m') : Drives m m' := ⟨h, hq.settles⟩

theorem Drives.of_quiet (hq : Quiet m m') (h : Drives m' m'') : Drives m m'' :=
  ⟨h.good, hq.trans_settles h.settles⟩

/-! ## The steps of the flow -/

omit [DecidableEq C] in
@[simp] theorem flow_emit (m : ComputerManager C) (e : Effect C) : (m.emit e).flow = m.flow := rfl

@[simp] theorem effects_update (m : ComputerManager C) (c : C) (f : NvComputer → NvComputer) :
    (m.update c f).effects = m.effects := rfl

theorem after_emit (m : ComputerManager C) (e : Effect C) :
    Flow.after (m.emit e).effects = (Flow.after m.effects).bind (Flow.next · e) := rfl

theorem flow_update (m : ComputerManager C) (c : C) (f : NvComputer → NvComputer) :
    (m.update c f).flow = ⟨m.autoConnectComputer,
      Function.update m.flow.stamped c ((f (m.computers c)).pendingConnectToken != "")⟩ := by
  simp only [flow, update, Flow.mk.injEq, true_and]
  funext c'
  by_cases hc : c' = c
  · subst hc
    simp
  · simp [hc]

/-- An effect of no consequence for the flow. -/
theorem Good.emit (hm : Good m) {e : Effect C} (he : m.flow.next e = some m.flow) :
    Good (m.emit e) where
  after := by
    rw [after_emit, hm.after]
    exact he
  idle := hm.idle
  timer := hm.timer

theorem Good.stamp (hm : Good m) (c : C) (pc : PendingConnect) : Good (m.stamp c pc) where
  after := by
    rw [stamp_eq, after_emit, flow_emit, flow_update, effects_update, hm.after]
    rfl
  idle := hm.idle
  timer := hm.timer

/-- The end of a flow, whatever its signal. -/
theorem drives_end (hm : Flow.after m.effects = some m.flow) (hc : m.autoConnectComputer = some c)
    {e : Effect C} (he : e.ended = some c) (hnext : m.flow.next e = m.flow.finish (some c)) :
    Drives m ((m.endFlow.scClearPendingConnect (some c)).emit e) where
  good := {
    after := by
      rw [scClearPendingConnect, after_emit, flow_emit, flow_update, effects_update]
      change (Flow.after m.effects).bind (Flow.next · e) = _
      rw [hm, Option.bind_some, hnext, Flow.finish, if_pos (show m.flow.computer = some c from hc)]
      rfl
    idle := ⟨fun _ => rfl, fun _ => rfl⟩
    timer := ⟨nofun, fun h => absurd rfl h⟩ }
  settles := by
    refine ⟨[e], rfl, fun x hx c' hc' => ?_⟩
    obtain rfl := List.mem_singleton.mp hx
    obtain rfl := Option.some.inj (he.symm.trans hc')
    simp [emit, scClearPendingConnect, update]

theorem drives_scStartAutoStream (hm : Good m) (hc : m.autoConnectComputer = some c) (app : String) :
    Drives m (m.scStartAutoStream c app) := drives_end hm.after hc rfl rfl

theorem drives_scFailAutoConnect (hm : Flow.after m.effects = some m.flow)
    (hc : m.autoConnectComputer ≠ none) (message : String) :
    Drives m (m.scFailAutoConnect message) := by
  obtain ⟨c, hc⟩ := Option.ne_none_iff_exists'.mp hc
  rw [scFailAutoConnect, hc]
  exact drives_end hm hc rfl rfl

theorem drives_cancelAutoConnect (hm : Good m) : Drives m m.cancelAutoConnect := by
  unfold cancelAutoConnect
  split_ifs with hidle
  · exact hm.drives (.refl m)
  · obtain ⟨c, hc⟩ := Option.ne_none_iff_exists'.mp (mt hm.idle.mpr hidle)
    rw [hc]
    exact drives_end hm.after hc rfl rfl

/-- A flow that the user cancels is canceled. -/
theorem cancelAutoConnect_canceled (hbusy : m.autoConnectState ≠ .idle) : m.cancelAutoConnect.autoConnectState = .idle ∧
    m.cancelAutoConnect.effects = .autoConnectCanceled m.autoConnectComputer :: m.effects := by
  rw [cancelAutoConnect, if_neg hbusy]
  cases m.autoConnectComputer <;> exact ⟨rfl, rfl⟩

theorem drives_timeout (hm : Good m) :
    Drives m { m with timerRunning := false }.scHandleAutoConnectTimeout := by
  unfold scHandleAutoConnectTimeout
  split_ifs with hidle
  · have hidle : m.autoConnectState = .idle := hidle
    exact Good.drives ⟨hm.after, hm.idle, ⟨nofun, fun h => absurd hidle h⟩⟩ (.refl m)
  · exact drives_scFailAutoConnect hm.after (mt hm.idle.mpr hidle) _

/-! ## Headless pairing -/

theorem drives_scHandleAutoPairingFailed (hm : Good m) (c : C) (reason : String) :
    Drives m (m.scHandleAutoPairingFailed c reason) := by
  unfold scHandleAutoPairingFailed
  split_ifs with h
  · exact hm.drives (.refl m)
  · obtain ⟨-, hc⟩ := not_or.mp h
    exact drives_scFailAutoConnect hm.after (by rw [← not_not.mp hc]; exact Option.some_ne_none c) _

theorem drives_autoPairingFailed (hm : Good m) (c : C) (reason : String) :
    Drives m (m.autoPairingFailed c reason) :=
  .of_quiet (quiet_emit m rfl) (drives_scHandleAutoPairingFailed (hm.emit rfl) c reason)

/-- The pairing attempt is not part of the flow. -/
theorem Good.setPairing (hm : Good m) (c : Option C) : Good { m with autoPairingComputer := c } :=
  ⟨hm.after, hm.idle, hm.timer⟩

omit [DecidableEq C] in
theorem quiet_setPairing (m : ComputerManager C) (c : Option C) :
    Quiet m { m with autoPairingComputer := c } := ⟨[], rfl, by simp⟩

theorem drives_scHandleBrokerPairingRelayed (hm : Good m) (success : Bool) (reason : String) :
    Drives m (m.scHandleBrokerPairingRelayed success reason) := by
  unfold scHandleBrokerPairingRelayed
  split
  · exact hm.drives (.refl m)
  · split_ifs
    · exact hm.drives (.refl m)
    · exact .of_quiet (quiet_setPairing m none) (drives_autoPairingFailed (hm.setPairing none) _ _)

theorem drives_requestPairing (hm : Good m) (brokerUrl connectToken : String) :
    Drives m (m.requestPairing qt brokerUrl connectToken) := by
  unfold requestPairing
  split_ifs
  · exact (hm.emit rfl).drives (quiet_emit m rfl)
  · exact drives_scHandleBrokerPairingRelayed hm _ _

theorem drives_beginHeadlessPairing (hm : Good m) (c : C) :
    Drives m (m.beginHeadlessPairing qt c) := by
  unfold beginHeadlessPairing
  dsimp only
  split_ifs
  · exact drives_autoPairingFailed hm c _
  · exact drives_autoPairingFailed hm c _
  · have hstarted : Quiet m ({ m with autoPairingComputer := some c }.emit (.handshakeStarted c)) :=
      ⟨[.handshakeStarted c], rfl, by simp [Effect.ended]⟩
    exact .of_quiet hstarted (drives_requestPairing ((hm.setPairing _).emit rfl) _ _)

/-! ## The driver -/

theorem drives_streamChosen (hm : Good m) (hc : m.autoConnectComputer = some c) :
    Drives m (m.streamChosen qt c) := by
  unfold streamChosen
  split
  · exact hm.drives (.refl m)
  · exact drives_scStartAutoStream hm hc _

/-- The start of a flow, in the state `st`. -/
theorem Good.startFlow (hm : Good m) (hidle : m.autoConnectState = .idle)
    (htoken : (m.computers c).pendingConnectToken ≠ "") {st : ScAutoConnectState} (hst : st ≠ .idle) :
    Good { m.startFlow c with autoConnectState := st } where
  after := by
    have hstart : m.flow.computer = none ∧ m.flow.stamped c = true :=
      ⟨hm.idle.mp hidle, bne_iff_ne.mpr htoken⟩
    change (Flow.after m.effects).bind _ = _
    rw [hm.after, Option.bind_some, Flow.next, if_pos hstart]
    rfl
  idle := ⟨fun h => absurd h hst, nofun⟩
  timer := ⟨fun _ => hst, fun _ => rfl⟩

omit [DecidableEq C] in
theorem quiet_startFlow (m : ComputerManager C) (c : C) (st : ScAutoConnectState) (stage : String) :
    Quiet m ({ m.startFlow c with autoConnectState := st }.emit (.autoConnectStageChanged stage)) :=
  ⟨[.autoConnectStageChanged stage, .autoConnectStarted c (m.computers c).name], rfl, by
    simp [Effect.ended]⟩

/-- The cases of `scEvaluateAutoConnect`: it waits, or starts a flow that pairs
    or looks for the app, or goes on with the flow of the host. -/
inductive Evaluates (qt : Qt) (m : ComputerManager C) (c : C) : ComputerManager C → Prop where
  | stay : Evaluates qt m c m
  | pair (htoken : (m.computers c).pendingConnectToken ≠ "") (hst : m.autoConnectState = .idle)
      (hpaired : (m.computers c).paired = false) :
      Evaluates qt m c (({ m.startFlow c with autoConnectState := .pairing }.emit
        (.autoConnectStageChanged s!"Pairing with {(m.computers c).name}...")).beginHeadlessPairing qt c)
  | wait (htoken : (m.computers c).pendingConnectToken ≠ "") (hst : m.autoConnectState = .idle) :
      Evaluates qt m c (({ m.startFlow c with autoConnectState := .waitingForApps }.emit
        (.autoConnectStageChanged "Loading app list...")).streamChosen qt c)
  | stream (hst : m.autoConnectState = .waitingForApps)
      (hc : m.autoConnectComputer ≠ none → m.autoConnectComputer = some c) :
      Evaluates qt m c (m.streamChosen qt c)

variable (qt) in
theorem scEvaluateAutoConnect_cases (m : ComputerManager C) (c : C) :
    Evaluates qt m c (m.scEvaluateAutoConnect qt c) := by
  unfold scEvaluateAutoConnect
  dsimp only
  by_cases htoken : (m.computers c).pendingConnectToken = ""
  · rw [if_pos htoken]
    exact .stay
  by_cases hother : m.autoConnectComputer ≠ none ∧ m.autoConnectComputer ≠ some c
  · rw [if_neg htoken, if_pos hother]
    exact .stay
  by_cases honline : (m.computers c).online = false
  · rw [if_neg htoken, if_neg hother, if_pos honline]
    exact .stay
  rw [if_neg htoken, if_neg hother, if_neg honline]
  cases hst : m.autoConnectState with
  | idle =>
    dsimp only
    split_ifs with hpaired
    · exact .pair htoken hst hpaired
    · exact .wait htoken hst
  | pairing => exact .stay
  | waitingForApps => exact .stream hst fun hne => not_not.mp fun h => hother ⟨hne, h⟩

theorem drives_scEvaluateAutoConnect (hm : Good m) (c : C) :
    Drives m (m.scEvaluateAutoConnect qt c) := by
  have hcases := scEvaluateAutoConnect_cases qt m c
  generalize m.scEvaluateAutoConnect qt c = m' at hcases ⊢
  cases hcases with
  | stay => exact hm.drives (.refl m)
  | pair htoken hst =>
    have hstart : Good { m.startFlow c with autoConnectState := .pairing } :=
      hm.startFlow hst htoken (by decide)
    exact .of_quiet (quiet_startFlow m c .pairing _)
      (drives_beginHeadlessPairing (hstart.emit rfl) c)
  | wait htoken hst =>
    have hstart : Good { m.startFlow c with autoConnectState := .waitingForApps } :=
      hm.startFlow hst htoken (by decide)
    exact .of_quiet (quiet_startFlow m c .waitingForApps _)
      (drives_streamChosen (hstart.emit rfl) rfl)
  | stream hst hc =>
    have hne : m.autoConnectComputer ≠ none := mt hm.idle.mpr (by rw [hst]; decide)
    exact drives_streamChosen hm (hc hne)

/-- The host of the flow is paired. -/
theorem Good.waiting (hm : Good m) (hst : m.autoConnectState = .pairing) :
    Good { m with autoConnectState := .waitingForApps } := by
  refine ⟨hm.after, ⟨nofun, fun hc => ?_⟩, ⟨fun _ => nofun, fun _ => ?_⟩⟩
  · have hidle := hm.idle.mpr hc
    rw [hst] at hidle
    cases hidle
  · exact hm.timer.mpr (by rw [hst]; decide)

omit [DecidableEq C] in
theorem quiet_waiting (m : ComputerManager C) (stage : String) :
    Quiet m ({ m with autoConnectState := .waitingForApps }.emit (.autoConnectStageChanged stage)) :=
  ⟨[.autoConnectStageChanged stage], rfl, by simp [Effect.ended]⟩

omit [DecidableEq C] in
theorem quiet_completed (m : ComputerManager C) (c : C) (success : Bool) (reason : String) :
    Quiet m ({ m with autoPairingComputer := none }.emit (.autoPairingCompleted c success reason)) :=
  ⟨[.autoPairingCompleted c success reason], rfl, by simp [Effect.ended]⟩

theorem drives_scHandleAutoPairingCompleted (hm : Good m) (c : C) (success : Bool)
    (reason : String) : Drives m (m.scHandleAutoPairingCompleted qt c success reason) := by
  unfold scHandleAutoPairingCompleted
  split_ifs with h hsuccess
  · exact hm.drives (.refl m)
  · obtain ⟨-, hc⟩ := not_or.mp h
    exact drives_scFailAutoConnect hm.after (by rw [← not_not.mp hc]; exact Option.some_ne_none c) _
  · have hwait := hm.waiting (not_not.mp (not_or.mp h).1)
    exact .of_quiet (quiet_waiting m _) (drives_scEvaluateAutoConnect (hwait.emit rfl) c)

theorem drives_scHandleHeadlessPairingResult (hm : Good m) (c : C) (error : String) :
    Drives m (m.scHandleHeadlessPairingResult qt c error) := by
  unfold scHandleHeadlessPairingResult
  dsimp only
  have hclear := hm.setPairing none
  split_ifs
  · exact hm.drives (.refl m)
  · exact .of_quiet (quiet_completed m c true "")
      (drives_scHandleAutoPairingCompleted (hclear.emit rfl) _ _ _)
  · exact .of_quiet (quiet_completed m c false error)
      (drives_scHandleAutoPairingCompleted (hclear.emit rfl) _ _ _)

/-! ## Events -/

theorem quiet_stamp (m : ComputerManager C) (c : C) (pc : PendingConnect) : Quiet m (m.stamp c pc) := by
  rw [stamp_eq]
  exact ⟨[.stamped c pc], rfl, by simp [Effect.ended]⟩

theorem drives_requestConnect (hm : Good m) (address : String) (port : ℤ) (connectToken : String)
    (hostId : ℤ) (brokerUrl : String) :
    Drives m (m.requestConnect qt address port connectToken hostId brokerUrl) := by
  unfold requestConnect
  dsimp only
  by_cases haddress : address = ""
  · rw [if_pos haddress]
    exact hm.drives (.refl m)
  rw [if_neg haddress]
  cases m.knownHost address with
  | some matched => exact .of_quiet (quiet_stamp m _ _) (drives_scEvaluateAutoConnect (hm.stamp _ _) _)
  | none =>
    refine Good.drives ⟨?_, hm.idle, hm.timer⟩ ⟨[.addNewHost address _], rfl, by simp [Effect.ended]⟩
    rw [after_emit]
    change (Flow.after m.effects).bind _ = _
    rw [hm.after]
    rfl

theorem Good.setPending (hm : Good m) (pending : String → Option PendingConnect) :
    Good { m with pendingTokensByAddress := pending } := ⟨hm.after, hm.idle, hm.timer⟩

theorem drives_handleComputerStateChanged (hm : Good m) (c : C) :
    Drives m (m.handleComputerStateChanged qt c) := by
  unfold handleComputerStateChanged onPendingConnectStateChanged
  dsimp only
  split
  · exact drives_scEvaluateAutoConnect hm c
  · rename_i key found _
    have hkey := hm.setPending (Function.update m.pendingTokensByAddress key none)
    have hquiet : Quiet m ({ m with pendingTokensByAddress := Function.update m.pendingTokensByAddress key none }.stamp
        c found) := quiet_stamp { m with pendingTokensByAddress := _ } c found
    exact .of_quiet hquiet (drives_scEvaluateAutoConnect (hkey.stamp c found) c)

theorem drives_poll (hm : Good m) (c : C) (seen : NvComputer) : Drives m (m.poll c seen) := by
  refine Good.drives ⟨?_, hm.idle, hm.timer⟩ ⟨[], rfl, by simp⟩
  have hstamped : Function.update m.flow.stamped c ((m.computers c).pendingConnectToken != "") =
      m.flow.stamped := Function.update_eq_self c _
  rw [poll, effects_update, hm.after, flow_update, hstamped]
  rfl

/-- **One event**, as the flow sees it. -/
theorem drives_handle (hm : Good m) (e : Event C) : Drives m (handle qt m e) := by
  cases e with
  | requestConnect => exact drives_requestConnect hm _ _ _ _ _
  | knownHosts hosts => exact Good.drives ⟨hm.after, hm.idle, hm.timer⟩ ⟨[], rfl, by simp⟩
  | polled c seen => exact drives_poll hm c seen
  | computerStateChanged c => exact drives_handleComputerStateChanged hm c
  | headlessPairingResult c error => exact drives_scHandleHeadlessPairingResult hm c error
  | brokerPairingRelayed success reason => exact drives_scHandleBrokerPairingRelayed hm success reason
  | timeout => exact drives_timeout hm
  | cancel => exact drives_cancelAutoConnect hm

theorem Fresh.good (hm : m.Fresh) : Good m where
  after := by
    have hflow : m.flow = ⟨none, fun _ => false⟩ := by
      simp [flow, hm.autoConnectComputer, hm.pendingConnectToken]
    rw [hm.effects, hflow]
    rfl
  idle := by simp [hm.autoConnectState, hm.autoConnectComputer]
  timer := by simp [hm.autoConnectState, hm.timerRunning]

theorem good_exec (hm : Good m) (es : List (Event C)) : Good (exec qt m es) := by
  induction es generalizing m with
  | nil => exact hm
  | cons e es ih => exact ih (drives_handle hm e).good

variable (qt) in
/-- **The auto-connect trace.**  At every moment of a run all flows that have
    started have ended once, but for one that runs; each was started by a stamped
    token and ended for its own host; the state, the host and the timer of the
    manager agree; a host whose flow ends has no token after the event; and where
    the user cancels, the flow is canceled and the manager idle. -/
theorem autoConnect_trace (hm : m.Fresh) (es : List (Event C)) :
    (∀ past, past <:+ (exec qt m es).effects → past.countP Effect.isEnd ≤ past.countP Effect.isStart ∧
      past.countP Effect.isStart ≤ past.countP Effect.isEnd + 1) ∧
    Flow.after (exec qt m es).effects = some (exec qt m es).flow ∧
    ((exec qt m es).autoConnectState = .idle →
      (exec qt m es).autoConnectComputer = none ∧ (exec qt m es).timerRunning = false) ∧
    ((exec qt m es).autoConnectState ≠ .idle →
      (exec qt m es).autoConnectComputer ≠ none ∧ (exec qt m es).timerRunning = true) ∧
    (∀ e, Settles (exec qt m es) (handle qt (exec qt m es) e)) ∧
    ((exec qt m es).autoConnectState ≠ .idle →
      (handle qt (exec qt m es) .cancel).autoConnectState = .idle ∧
      (handle qt (exec qt m es) .cancel).effects =
        .autoConnectCanceled (exec qt m es).autoConnectComputer :: (exec qt m es).effects) := by
  have hgood : Good (exec qt m es) := good_exec hm.good es
  refine ⟨fun past hpast => ?_, hgood.after, fun hidle => ⟨hgood.idle.mp hidle, ?_⟩,
    fun hidle => ⟨mt hgood.idle.mpr hidle, hgood.timer.mpr hidle⟩,
    fun e => (drives_handle hgood e).settles, cancelAutoConnect_canceled⟩
  · obtain ⟨f, hf⟩ := Flow.after_suffix hpast hgood.after
    have hcount := Flow.count_after hf
    split_ifs at hcount <;> omega
  · exact Bool.eq_false_iff.mpr fun h => hgood.timer.mp h hidle

/-! ## A classroom PC -/

def labQt : Qt := ⟨String.toLower, (· == "https://broker.example")⟩

/-- Two known PCs, online and not paired. -/
def lab : ComputerManager Bool where
  knownHosts := [false, true]
  computers c := {
    name := "PC"
    addresses := [⟨if c then "10.0.0.2" else "10.0.0.1", 47989⟩]
    online := true
    paired := false
    appList := [] }
  pendingTokensByAddress _ := none
  autoPairingComputer := none
  autoConnectState := .idle
  autoConnectComputer := none
  timerRunning := false
  effects := []

theorem fresh_lab : lab.Fresh := ⟨rfl, rfl, rfl, rfl, rfl, fun _ => rfl⟩

/-- A connect URL of the first PC is opened. -/
def labConnect : Event Bool :=
  .requestConnect "10.0.0.1" 47989 "a-token-of-sixteen" 1 "https://broker.example"

/-- The relay of the PIN fails, and with it the flow. -/
theorem autoConnect_trace_lab :
    (exec labQt lab [labConnect]).autoConnectState = .pairing ∧
      (exec labQt lab [labConnect, .brokerPairingRelayed false "http_502"]).autoConnectState = .idle ∧
      (exec labQt lab [labConnect, .brokerPairingRelayed false "http_502"]).timerRunning = false := by
  have htrace := autoConnect_trace labQt fresh_lab
    [labConnect, .brokerPairingRelayed false "http_502"]
  exact ⟨by decide, by decide, (htrace.2.2.1 (by decide)).2⟩

end ComputerManager

end SmartClassroom
