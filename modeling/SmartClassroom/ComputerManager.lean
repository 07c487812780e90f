/-
  The desktop client: `ComputerManager` of `app/backend/computermanager.cpp`
  as the Moonlight patches leave it, with `ScBrokerClient::requestPairing`.

  * `NvComputer`: a host, as the connect code reads it, and the connect context
    stamped on it.
  * `ComputerManager`: the state of the auto-connect flow and of the headless
    pairing; all of it belongs to the main thread.
  * `handle`: one main-thread event.  Signals are delivered synchronously, so a
    handler that emits one calls its slots.
  * `Effect`: what a run leaves outside, newest first: the signals, and the
    stamping of a connect request.

  A host is named by its pointer.  What Qt decides is `Qt`.
-/
import Mathlib.Data.Int.Notation
import Mathlib.Logic.Function.Basic

namespace SmartClassroom

/-- `QString::toLower`, and whether `QUrl` takes a broker URL as valid and with
    a host. -/
structure Qt where
  toLower : String → String
  validBrokerUrl : String → Bool

structure NvAddress where
  address : String
  port : ℤ
deriving DecidableEq

structure NvComputer where
  name : String
  /-- the manual, local, remote, IPv6 and active address, without the null ones -/
  addresses : List NvAddress
  online : Bool
  paired : Bool
  /-- the names of its apps -/
  appList : List String
  pendingConnectToken : String := ""
  pendingHostId : ℤ := 0
  pendingBrokerUrl : String := ""

structure PendingConnect where
  address : String
  port : ℤ
  connectToken : String
  hostId : ℤ
  brokerUrl : String
deriving DecidableEq

inductive ScAutoConnectState where
  | idle
  | pairing
  | waitingForApps
deriving DecidableEq

/-- The signals, with the host of the flow; a connect request stamped on a host; a
    handshake and a request that were started. -/
inductive Effect (C : Type) where
  | stamped (computer : C) (pc : PendingConnect)
  | addNewHost (address : String) (port : ℤ)
  | handshakeStarted (computer : C)
  | pairingPosted (brokerUrl connectToken : String)
  | autoPairingCompleted (computer : C) (success : Bool) (reason : String)
  | autoConnectStarted (computer : C) (hostName : String)
  | autoConnectStageChanged (stage : String)
  | autoConnectFailed (computer : Option C) (message : String)
  | autoConnectCanceled (computer : Option C)
  | autoStreamSessionReady (computer : C) (appName : String)
deriving DecidableEq

structure ComputerManager (C : Type) where
  knownHosts : List C
  computers : C → NvComputer
  pendingTokensByAddress : String → Option PendingConnect
  autoPairingComputer : Option C
  autoConnectState : ScAutoConnectState
  autoConnectComputer : Option C
  timerRunning : Bool
  effects : List (Effect C)

namespace ComputerManager

variable {C : Type} [DecidableEq C]

/-- No flow, and no token stamped. -/
structure Fresh (m : ComputerManager C) : Prop where
  autoPairingComputer : m.autoPairingComputer = none
  autoConnectState : m.autoConnectState = .idle
  autoConnectComputer : m.autoConnectComputer = none
  timerRunning : m.timerRunning = false
  effects : m.effects = []
  pendingConnectToken : ∀ c, (m.computers c).pendingConnectToken = ""

def emit (m : ComputerManager C) (e : Effect C) : ComputerManager C :=
  { m with effects := e :: m.effects }

def update (m : ComputerManager C) (computer : C) (f : NvComputer → NvComputer) :
    ComputerManager C :=
  { m with computers := Function.update m.computers computer (f (m.computers computer)) }

/-- The request of this address, as the fields of the host have it. -/
def stampOn (m : ComputerManager C) (computer : C) (address : String) (port : ℤ) : PendingConnect where
  address := address
  port := port
  connectToken := (m.computers computer).pendingConnectToken
  hostId := (m.computers computer).pendingHostId
  brokerUrl := (m.computers computer).pendingBrokerUrl

/-- The fields of the host are written; the effect is what then stands in them. -/
def stamp (m : ComputerManager C) (computer : C) (pc : PendingConnect) : ComputerManager C :=
  let m := m.update computer fun h => { h with
    pendingConnectToken := pc.connectToken
    pendingHostId := pc.hostId
    pendingBrokerUrl := pc.brokerUrl }
  m.emit (.stamped computer (m.stampOn computer pc.address pc.port))

theorem stamp_eq (m : ComputerManager C) (computer : C) (pc : PendingConnect) :
    m.stamp computer pc = (m.update computer fun h => { h with
      pendingConnectToken := pc.connectToken
      pendingHostId := pc.hostId
      pendingBrokerUrl := pc.brokerUrl }).emit (.stamped computer pc) := by
  simp [stamp, stampOn, update]

/-! ## The flow and its ends -/

def scClearPendingConnect (m : ComputerManager C) : Option C → ComputerManager C
  | none => m
  | some computer => m.update computer fun h =>
    { h with pendingConnectToken := "", pendingHostId := 0, pendingBrokerUrl := "" }

/-- The timer is stopped and the flow has no host any more. -/
def endFlow (m : ComputerManager C) : ComputerManager C :=
  { m with timerRunning := false, autoConnectState := .idle, autoConnectComputer := none }

def scStartAutoStream (m : ComputerManager C) (computer : C) (app : String) : ComputerManager C :=
  (m.endFlow.scClearPendingConnect (some computer)).emit (.autoStreamSessionReady computer app)

def scFailAutoConnect (m : ComputerManager C) (message : String) : ComputerManager C :=
  (m.endFlow.scClearPendingConnect m.autoConnectComputer).emit
    (.autoConnectFailed m.autoConnectComputer message)

def cancelAutoConnect (m : ComputerManager C) : ComputerManager C :=
  if m.autoConnectState = .idle then m
  else (m.endFlow.scClearPendingConnect m.autoConnectComputer).emit
    (.autoConnectCanceled m.autoConnectComputer)

def scHandleAutoConnectTimeout (m : ComputerManager C) : ComputerManager C :=
  if m.autoConnectState = .idle then m
  else m.scFailAutoConnect "Timed out connecting to the PC"

/-! ## Headless pairing -/

/-- `scHandleAutoPairingCompleted` of a failure, the only outcome that
    `beginHeadlessPairing` reports itself. -/
def scHandleAutoPairingFailed (m : ComputerManager C) (computer : C) (reason : String) :
    ComputerManager C :=
  if m.autoConnectState ≠ .pairing ∨ some computer ≠ m.autoConnectComputer then m
  else m.scFailAutoConnect s!"Pairing failed ({reason})"

/-- `emit autoPairingCompleted(computer, false, reason)`. -/
def autoPairingFailed (m : ComputerManager C) (computer : C) (reason : String) :
    ComputerManager C :=
  (m.emit (.autoPairingCompleted computer false reason)).scHandleAutoPairingFailed computer reason

def scHandleBrokerPairingRelayed (m : ComputerManager C) (success : Bool) (reason : String) :
    ComputerManager C :=
  match m.autoPairingComputer with
  | none => m
  | some computer =>
    if success then m
    else { m with autoPairingComputer := none }.autoPairingFailed computer
      ("broker_relay:" ++ reason)

variable (qt : Qt)

/-- `ScBrokerClient::requestPairing`; the reply is an event of its own. -/
def requestPairing (m : ComputerManager C) (brokerUrl connectToken : String) : ComputerManager C :=
  if qt.validBrokerUrl brokerUrl then m.emit (.pairingPosted brokerUrl connectToken)
  else m.scHandleBrokerPairingRelayed false "bad_broker_url"

def beginHeadlessPairing (m : ComputerManager C) (computer : C) : ComputerManager C :=
  let connectToken := (m.computers computer).pendingConnectToken
  let brokerUrl := (m.computers computer).pendingBrokerUrl
  if connectToken = "" ∨ brokerUrl = "" then m.autoPairingFailed computer "missing_connect_context"
  else if m.autoPairingComputer ≠ none then m.autoPairingFailed computer "pairing_in_progress"
  else ({ m with autoPairingComputer := some computer }.emit (.handshakeStarted computer)).requestPairing
    qt brokerUrl connectToken

/-! ## The driver -/

/-- The app that is streamed: "Desktop", or else the first. -/
def chosenApp (h : NvComputer) : Option String :=
  (h.appList.find? fun app => qt.toLower app == "desktop").or h.appList.head?

/-- The flow of an idle manager starts. -/
def startFlow (m : ComputerManager C) (computer : C) : ComputerManager C :=
  { m with autoConnectComputer := some computer, timerRunning := true }.emit
    (.autoConnectStarted computer (m.computers computer).name)

/-- `scEvaluateAutoConnect` in the state `ScAcWaitingForApps`. -/
def streamChosen (m : ComputerManager C) (computer : C) : ComputerManager C :=
  match chosenApp qt (m.computers computer) with
  | none => m
  | some app => m.scStartAutoStream computer app

def scEvaluateAutoConnect (m : ComputerManager C) (computer : C) : ComputerManager C :=
  let h := m.computers computer
  if h.pendingConnectToken = "" then m
  else if m.autoConnectComputer ≠ none ∧ m.autoConnectComputer ≠ some computer then m
  else if h.online = false then m
  else match m.autoConnectState with
    | .idle =>
      if h.paired = false then
        ({ m.startFlow computer with autoConnectState := .pairing }.emit
          (.autoConnectStageChanged s!"Pairing with {h.name}...")).beginHeadlessPairing qt computer
      else ({ m.startFlow computer with autoConnectState := .waitingForApps }.emit
        (.autoConnectStageChanged "Loading app list...")).streamChosen qt computer
    | .pairing => m
    | .waitingForApps => m.streamChosen qt computer

def scHandleAutoPairingCompleted (m : ComputerManager C) (computer : C) (success : Bool)
    (reason : String) : ComputerManager C :=
  if m.autoConnectState ≠ .pairing ∨ some computer ≠ m.autoConnectComputer then m
  else if success = false then m.scFailAutoConnect s!"Pairing failed ({reason})"
  else ({ m with autoConnectState := .waitingForApps }.emit
    (.autoConnectStageChanged "Loading app list...")).scEvaluateAutoConnect qt computer

def scHandleHeadlessPairingResult (m : ComputerManager C) (computer : C) (error : String) :
    ComputerManager C :=
  if some computer ≠ m.autoPairingComputer then m
  else
    let m := { m with autoPairingComputer := none }
    if error = "" then
      (m.emit (.autoPairingCompleted computer true "")).scHandleAutoPairingCompleted qt computer true ""
    else
      (m.emit (.autoPairingCompleted computer false error)).scHandleAutoPairingCompleted qt computer
        false error

/-! ## Connect requests -/

/-- `DEFAULT_HTTP_PORT`. -/
def defaultHttpPort : ℤ := 47989

def pendingConnectKey (address : String) (port : ℤ) : String := s!"{address}:{port}"

/-- The known host with the address. -/
def knownHost (m : ComputerManager C) (address : String) : Option C :=
  m.knownHosts.find? fun c => (m.computers c).addresses.any fun a => a.address == address

def requestConnect (m : ComputerManager C) (address : String) (port : ℤ) (connectToken : String)
    (hostId : ℤ) (brokerUrl : String) : ComputerManager C :=
  if address = "" then m
  else
    let port := if port ≤ 0 then defaultHttpPort else port
    let pc : PendingConnect := ⟨address, port, connectToken, hostId, brokerUrl⟩
    match m.knownHost address with
    | some matched => (m.stamp matched pc).scEvaluateAutoConnect qt matched
    | none =>
      let key := pendingConnectKey address port
      { m with pendingTokensByAddress :=
          Function.update m.pendingTokensByAddress key (some pc) }.emit (.addNewHost address (port % 65536))

def onPendingConnectStateChanged (m : ComputerManager C) (computer : C) : ComputerManager C :=
  let candidateKeys := (m.computers computer).addresses.map fun a => pendingConnectKey a.address a.port
  match candidateKeys.findSome? fun key => (m.pendingTokensByAddress key).map (key, ·) with
  | none => m
  | some (key, found) =>
    { m with pendingTokensByAddress :=
        Function.update m.pendingTokensByAddress key none }.stamp computer found

def handleComputerStateChanged (m : ComputerManager C) (computer : C) : ComputerManager C :=
  (m.onPendingConnectStateChanged computer).scEvaluateAutoConnect qt computer

/-! ## Events -/

/-- What a polling thread writes of a host. -/
def poll (m : ComputerManager C) (computer : C) (seen : NvComputer) : ComputerManager C :=
  m.update computer fun h => { seen with
    pendingConnectToken := h.pendingConnectToken
    pendingHostId := h.pendingHostId
    pendingBrokerUrl := h.pendingBrokerUrl }

/-- The events of the main thread, and the writes of the polling threads. -/
inductive Event (C : Type) where
  | requestConnect (address : String) (port : ℤ) (connectToken : String) (hostId : ℤ)
      (brokerUrl : String)
  | knownHosts (hosts : List C)
  | polled (computer : C) (seen : NvComputer)
  | computerStateChanged (computer : C)
  | headlessPairingResult (computer : C) (error : String)
  | brokerPairingRelayed (success : Bool) (reason : String)
  | timeout
  | cancel

/-- One event; a timer that fires has stopped. -/
def handle (m : ComputerManager C) : Event C → ComputerManager C
  | .requestConnect address port connectToken hostId brokerUrl =>
    m.requestConnect qt address port connectToken hostId brokerUrl
  | .knownHosts hosts => { m with knownHosts := hosts }
  | .polled computer seen => m.poll computer seen
  | .computerStateChanged computer => m.handleComputerStateChanged qt computer
  | .headlessPairingResult computer error => m.scHandleHeadlessPairingResult qt computer error
  | .brokerPairingRelayed success reason => m.scHandleBrokerPairingRelayed success reason
  | .timeout => { m with timerRunning := false }.scHandleAutoConnectTimeout
  | .cancel => m.cancelAutoConnect

/-- The events of a run, in their order. -/
def exec (m : ComputerManager C) (es : List (Event C)) : ComputerManager C := es.foldl (handle qt) m

end ComputerManager

end SmartClassroom
