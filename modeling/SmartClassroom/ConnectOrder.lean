/-
  A connect request and the discovery of its host, in either order.

  A known host is found by the address of the request alone, a queued context by
  an 'address:port' key of the host.  `orderFree_iff` says for which hosts,
  requests and queues the two orders stamp the same context on the host;
  `count_drained_le`: a queued context is stamped once at most.

  * `stampsSince`: what a run has stamped, as its effects tell.
  * `stamping`: the context that an event stamps, and on which host
    (`stamps_handle`).
  * `Spares`: what the auto-connect flow leaves alone.
-/
import Mathlib
import SmartClassroom.AutoConnect

namespace SmartClassroom

variable {C : Type} [DecidableEq C]

/-- What a request hands over to its host. -/
structure ConnectContext where
  connectToken : String
  hostId : ℤ
  brokerUrl : String
deriving DecidableEq

def PendingConnect.context (pc : PendingConnect) : ConnectContext :=
  ⟨pc.connectToken, pc.hostId, pc.brokerUrl⟩

/-- The key under which it is queued. -/
def PendingConnect.key (pc : PendingConnect) : String := ComputerManager.pendingConnectKey pc.address pc.port

def Effect.stamp : Effect C → Option (C × PendingConnect)
  | .stamped computer pc => some (computer, pc)
  | _ => none

/-- The stamps among the effects, newest first. -/
def stampsOf (es : List (Effect C)) : List (C × PendingConnect) := es.filterMap Effect.stamp

namespace ComputerManager

/-! ## Keys -/

theorem toList_pendingConnectKey (address : String) (port : ℤ) :
    (pendingConnectKey address port).toList = address.toList ++ ':' :: (toString port).toList := by
  simp [pendingConnectKey, String.toList_append, toString]

/-- No colon stands in the text of a port. -/
theorem colon_notMem_toString (n : ℤ) : ':' ∉ (toString n).toList := by
  have hdigits : ∀ k : ℕ, ':' ∉ k.repr.toList := by
    intro k hk
    rw [Nat.toList_repr] at hk
    exact absurd (Nat.isDigit_of_mem_toDigits (by decide) (by decide) hk) (by decide)
  rw [Int.toString_eq_repr, Int.repr_eq_if]
  split_ifs
  · exact hdigits _
  · simpa [String.toList_append] using hdigits _

theorem append_cons_inj {α : Type} {x : α} {l l' d d' : List α} (hd : x ∉ d) (hd' : x ∉ d')
    (h : l ++ x :: d = l' ++ x :: d') : l = l' ∧ d = d' := by
  rcases List.append_eq_append_iff.1 h with ⟨as, rfl, has⟩ | ⟨bs, rfl, hbs⟩
  · cases as with
    | nil => simpa using has
    | cons a as =>
      obtain ⟨-, rfl⟩ := List.cons.inj has
      exact absurd (by simp) hd
  · cases bs with
    | nil => simpa [eq_comm] using hbs
    | cons b bs =>
      obtain ⟨-, rfl⟩ := List.cons.inj hbs
      exact absurd (by simp) hd'

/-- A key names one address and one port. -/
theorem pendingConnectKey_inj {address address' : String} {port port' : ℤ} :
    pendingConnectKey address port = pendingConnectKey address' port' ↔ address = address' ∧ port = port' := by
  constructor
  · intro h
    have hl := congrArg String.toList h
    rw [toList_pendingConnectKey, toList_pendingConnectKey] at hl
    obtain ⟨ha, hp⟩ := append_cons_inj (colon_notMem_toString port) (colon_notMem_toString port') hl
    rw [String.toList_inj] at ha hp
    exact ⟨ha, Int.repr_inj.1 hp⟩
  · rintro ⟨rfl, rfl⟩
    rfl

/-! ## What the flow leaves alone -/

/-- The hosts, their addresses, the queue and the stamps are the same. -/
structure Spares (m m' : ComputerManager C) : Prop where
  knownHosts : m'.knownHosts = m.knownHosts
  addresses : ∀ c, (m'.computers c).addresses = (m.computers c).addresses
  queue : m'.pendingTokensByAddress = m.pendingTokensByAddress
  stamps : stampsOf m'.effects = stampsOf m.effects

variable {qt : Qt} {m m' m'' : ComputerManager C}

omit [DecidableEq C] in
theorem Spares.refl (m : ComputerManager C) : Spares m m := ⟨rfl, fun _ => rfl, rfl, rfl⟩

omit [DecidableEq C] in
theorem Spares.trans (h : Spares m m') (h' : Spares m' m'') : Spares m m'' where
  knownHosts := h'.knownHosts.trans h.knownHosts
  addresses c := (h'.addresses c).trans (h.addresses c)
  queue := h'.queue.trans h.queue
  stamps := h'.stamps.trans h.stamps

omit [DecidableEq C] in
theorem Spares.of_same (h : Spares m' m'') (hknown : m'.knownHosts = m.knownHosts)
    (haddr : ∀ c, (m'.computers c).addresses = (m.computers c).addresses)
    (hqueue : m'.pendingTokensByAddress = m.pendingTokensByAddress) (hstamps : stampsOf m'.effects = stampsOf m.effects) :
    Spares m m'' := .trans ⟨hknown, haddr, hqueue, hstamps⟩ h

omit [DecidableEq C] in
theorem Spares.emit (h : Spares m m') {e : Effect C} (he : e.stamp = none) : Spares m (m'.emit e) where
  knownHosts := h.knownHosts
  addresses := h.addresses
  queue := h.queue
  stamps := (List.filterMap_cons_none he).trans h.stamps

theorem addresses_update (m : ComputerManager C) (c : C) {f : NvComputer → NvComputer}
    (hf : ∀ h, (f h).addresses = h.addresses) (d : C) :
    ((m.update c f).computers d).addresses = (m.computers d).addresses := by
  by_cases hd : d = c
  · subst hd
    simp [update, hf]
  · simp [update, hd]

theorem addresses_stamp (m : ComputerManager C) (c : C) (pc : PendingConnect) (d : C) :
    ((m.stamp c pc).computers d).addresses = (m.computers d).addresses := by
  rw [stamp_eq, emit, addresses_update]
  exact fun _ => rfl

theorem stamps_stamp (m : ComputerManager C) (c : C) (pc : PendingConnect) :
    stampsOf (m.stamp c pc).effects = (c, pc) :: stampsOf m.effects := by
  rw [stamp_eq]
  rfl

theorem spares_scClearPendingConnect (m : ComputerManager C) (c : Option C) :
    Spares m (m.endFlow.scClearPendingConnect c) := by
  cases c with
  | none => exact ⟨rfl, fun _ => rfl, rfl, rfl⟩
  | some c =>
    refine ⟨rfl, fun d => ?_, rfl, rfl⟩
    rw [scClearPendingConnect, addresses_update]
    · rfl
    · exact fun _ => rfl

theorem spares_scFailAutoConnect (m : ComputerManager C) (message : String) :
    Spares m (m.scFailAutoConnect message) := (spares_scClearPendingConnect m _).emit rfl

theorem spares_streamChosen (m : ComputerManager C) (c : C) : Spares m (m.streamChosen qt c) := by
  unfold streamChosen
  split
  · exact .refl m
  · exact (spares_scClearPendingConnect m (some c)).emit rfl

theorem spares_cancelAutoConnect (m : ComputerManager C) : Spares m m.cancelAutoConnect := by
  unfold cancelAutoConnect
  split_ifs
  · exact .refl m
  · exact (spares_scClearPendingConnect m _).emit rfl

theorem spares_timeout (m : ComputerManager C) :
    Spares m { m with timerRunning := false }.scHandleAutoConnectTimeout := by
  unfold scHandleAutoConnectTimeout
  split_ifs
  · exact ⟨rfl, fun _ => rfl, rfl, rfl⟩
  · exact Spares.of_same (spares_scFailAutoConnect _ _) rfl (fun _ => rfl) rfl rfl

theorem spares_autoPairingFailed (m : ComputerManager C) (c : C) (reason : String) :
    Spares m (m.autoPairingFailed c reason) := by
  have hemit : Spares m (m.emit (.autoPairingCompleted c false reason)) := (Spares.refl m).emit rfl
  unfold autoPairingFailed scHandleAutoPairingFailed
  split_ifs
  · exact hemit
  · exact hemit.trans (spares_scFailAutoConnect _ _)

theorem spares_scHandleBrokerPairingRelayed (m : ComputerManager C) (success : Bool) (reason : String) :
    Spares m (m.scHandleBrokerPairingRelayed success reason) := by
  unfold scHandleBrokerPairingRelayed
  split
  · exact .refl m
  · split_ifs
    · exact .refl m
    · exact Spares.of_same (spares_autoPairingFailed _ _ _) rfl (fun _ => rfl) rfl rfl

theorem spares_beginHeadlessPairing (m : ComputerManager C) (c : C) :
    Spares m (m.beginHeadlessPairing qt c) := by
  unfold beginHeadlessPairing
  dsimp only
  split_ifs
  · exact spares_autoPairingFailed m c _
  · exact spares_autoPairingFailed m c _
  · have hstart : Spares m ({ m with autoPairingComputer := some c }.emit (.handshakeStarted c)) :=
      ⟨rfl, fun _ => rfl, rfl, rfl⟩
    unfold requestPairing
    split_ifs
    · exact hstart.emit rfl
    · exact hstart.trans (spares_scHandleBrokerPairingRelayed _ _ _)

theorem spares_scEvaluateAutoConnect (m : ComputerManager C) (c : C) :
    Spares m (m.scEvaluateAutoConnect qt c) := by
  have hcases := scEvaluateAutoConnect_cases qt m c
  generalize m.scEvaluateAutoConnect qt c = m' at hcases ⊢
  cases hcases with
  | stay => exact .refl m
  | pair => exact Spares.of_same (spares_beginHeadlessPairing _ c) rfl (fun _ => rfl) rfl rfl
  | wait => exact Spares.of_same (spares_streamChosen _ c) rfl (fun _ => rfl) rfl rfl
  | stream => exact spares_streamChosen m c

theorem spares_scHandleAutoPairingCompleted (m : ComputerManager C) (c : C) (success : Bool)
    (reason : String) : Spares m (m.scHandleAutoPairingCompleted qt c success reason) := by
  unfold scHandleAutoPairingCompleted
  split_ifs
  · exact .refl m
  · exact spares_scFailAutoConnect m _
  · exact Spares.of_same (spares_scEvaluateAutoConnect _ c) rfl (fun _ => rfl) rfl rfl

theorem spares_scHandleHeadlessPairingResult (m : ComputerManager C) (c : C) (error : String) :
    Spares m (m.scHandleHeadlessPairingResult qt c error) := by
  unfold scHandleHeadlessPairingResult
  dsimp only
  split_ifs
  · exact .refl m
  all_goals exact Spares.of_same (spares_scHandleAutoPairingCompleted _ c _ _) rfl (fun _ => rfl) rfl rfl

/-! ## Stamps -/

/-- The port of a request, as it is queued. -/
def portOf (port : ℤ) : ℤ := if port ≤ 0 then defaultHttpPort else port

/-- The first of the addresses under whose key a context is queued. -/
def firstQueued (queue : String → Option PendingConnect) (addresses : List NvAddress) : Option PendingConnect :=
  addresses.findSome? fun a => queue (pendingConnectKey a.address a.port)

/-- The context that a request stamps on a known host. -/
def direct (m : ComputerManager C) : Event C → Option (C × PendingConnect)
  | .requestConnect address port connectToken hostId brokerUrl =>
    if address = "" then none
    else (m.knownHost address).map (·, ⟨address, portOf port, connectToken, hostId, brokerUrl⟩)
  | _ => none

/-- The context that a state change takes out of the queue and stamps. -/
def drained (m : ComputerManager C) : Event C → Option (C × PendingConnect)
  | .computerStateChanged c => (firstQueued m.pendingTokensByAddress (m.computers c).addresses).map (c, ·)
  | _ => none

/-- The context that a request queues. -/
def queuing (m : ComputerManager C) : Event C → Option PendingConnect
  | .requestConnect address port connectToken hostId brokerUrl =>
    if address = "" ∨ (m.knownHost address).isSome then none
    else some ⟨address, portOf port, connectToken, hostId, brokerUrl⟩
  | _ => none

def stamping (m : ComputerManager C) (e : Event C) : Option (C × PendingConnect) := (m.direct e).or (m.drained e)

/-- What the events of a run do, each in the state it finds. -/
def along {β : Type} (qt : Qt) (f : ComputerManager C → Event C → List β) (m : ComputerManager C) :
    List (Event C) → List β
  | [] => []
  | e :: es => f m e ++ along qt f (m.handle qt e) es

/-! ### The handlers -/

omit [DecidableEq C] in
theorem findSome?_key (m : ComputerManager C) (addresses : List NvAddress) :
    ((addresses.map fun a => pendingConnectKey a.address a.port).findSome? fun key =>
      (m.pendingTokensByAddress key).map (key, ·)).map Prod.snd = firstQueued m.pendingTokensByAddress addresses := by
  induction addresses with
  | nil => rfl
  | cons a addresses ih =>
    rw [List.map_cons, List.findSome?_cons, firstQueued, List.findSome?_cons]
    cases m.pendingTokensByAddress (pendingConnectKey a.address a.port) with
    | none => exact ih
    | some pc => rfl

def setQueued (m : ComputerManager C) (key : String) (pc : Option PendingConnect) : ComputerManager C :=
  { m with pendingTokensByAddress := Function.update m.pendingTokensByAddress key pc }

/-- The two handlers that stamp a context, as what they do before the flow goes on. -/
inductive Connects (qt : Qt) (m : ComputerManager C) : Event C → ComputerManager C → Prop where
  | refused {address port connectToken hostId brokerUrl} (haddr : address = "") :
      Connects qt m (.requestConnect address port connectToken hostId brokerUrl) m
  | known {address port connectToken hostId brokerUrl c} (haddr : address ≠ "")
      (hknown : m.knownHost address = some c) :
      Connects qt m (.requestConnect address port connectToken hostId brokerUrl)
        ((m.stamp c ⟨address, portOf port, connectToken, hostId, brokerUrl⟩).scEvaluateAutoConnect qt c)
  | queued {address port connectToken hostId brokerUrl} (haddr : address ≠ "")
      (hknown : m.knownHost address = none) :
      Connects qt m (.requestConnect address port connectToken hostId brokerUrl)
        ((m.setQueued (pendingConnectKey address (portOf port))
          (some ⟨address, portOf port, connectToken, hostId, brokerUrl⟩)).emit (.addNewHost address (portOf port % 65536)))
  | missed {c} (hnone : firstQueued m.pendingTokensByAddress (m.computers c).addresses = none) :
      Connects qt m (.computerStateChanged c) (m.scEvaluateAutoConnect qt c)
  | taken {c a pc} (ha : a ∈ (m.computers c).addresses)
      (hqueue : m.pendingTokensByAddress (pendingConnectKey a.address a.port) = some pc)
      (hfirst : firstQueued m.pendingTokensByAddress (m.computers c).addresses = some pc) :
      Connects qt m (.computerStateChanged c)
        (((m.setQueued (pendingConnectKey a.address a.port) none).stamp c pc).scEvaluateAutoConnect qt c)

theorem connects_requestConnect (qt : Qt) (m : ComputerManager C) (address : String) (port : ℤ) (connectToken : String)
    (hostId : ℤ) (brokerUrl : String) : Connects qt m (.requestConnect address port connectToken hostId brokerUrl)
      (m.requestConnect qt address port connectToken hostId brokerUrl) := by
  unfold requestConnect
  by_cases haddr : address = ""
  · rw [if_pos haddr]
    exact .refused haddr
  · rw [if_neg haddr]
    dsimp only
    cases hknown : m.knownHost address with
    | none => exact .queued haddr hknown
    | some c => exact .known haddr hknown

theorem connects_computerStateChanged (qt : Qt) (m : ComputerManager C) (c : C) :
    Connects qt m (.computerStateChanged c) (m.handleComputerStateChanged qt c) := by
  have hkey := findSome?_key m (m.computers c).addresses
  unfold handleComputerStateChanged onPendingConnectStateChanged
  dsimp only
  cases hfind : ((m.computers c).addresses.map fun a => pendingConnectKey a.address a.port).findSome? fun key =>
      (m.pendingTokensByAddress key).map (key, ·) with
  | none =>
    rw [hfind] at hkey
    exact .missed hkey.symm
  | some found =>
    obtain ⟨key, pc⟩ := found
    rw [hfind] at hkey
    obtain ⟨x, hx, hmap⟩ := List.exists_of_findSome?_eq_some hfind
    obtain ⟨pc', hqueue, heq⟩ := Option.map_eq_some_iff.1 hmap
    obtain ⟨rfl, rfl⟩ := Prod.mk.inj heq
    obtain ⟨a, ha, rfl⟩ := List.mem_map.1 hx
    exact .taken ha hqueue hkey.symm

/-- The events of neither handler. -/
def Event.other : Event C → Bool
  | .requestConnect .. | .computerStateChanged _ => false
  | _ => true

theorem handle_other (m : ComputerManager C) {e : Event C} (he : Event.other e = true) :
    (m.handle qt e).pendingTokensByAddress = m.pendingTokensByAddress ∧
      stampsOf (m.handle qt e).effects = stampsOf m.effects := by
  have of_spares : ∀ {m' : ComputerManager C}, Spares m m' →
      m'.pendingTokensByAddress = m.pendingTokensByAddress ∧ stampsOf m'.effects = stampsOf m.effects :=
    fun h => ⟨h.queue, h.stamps⟩
  cases e with
  | requestConnect | computerStateChanged => cases he
  | knownHosts | polled => exact ⟨rfl, rfl⟩
  | headlessPairingResult c error => exact of_spares (spares_scHandleHeadlessPairingResult m c error)
  | brokerPairingRelayed success reason => exact of_spares (spares_scHandleBrokerPairingRelayed m success reason)
  | timeout => exact of_spares (spares_timeout m)
  | cancel => exact of_spares (spares_cancelAutoConnect m)

/-- **`stamping` is what is stamped.** -/
theorem stamps_handle (qt : Qt) (m : ComputerManager C) (e : Event C) :
    stampsOf (m.handle qt e).effects = (m.stamping e).toList ++ stampsOf m.effects := by
  cases e with
  | requestConnect address port connectToken hostId brokerUrl =>
    have hcases := connects_requestConnect qt m address port connectToken hostId brokerUrl
    simp only [handle, stamping, direct, drained, Option.or_none]
    generalize m.requestConnect qt address port connectToken hostId brokerUrl = m' at hcases ⊢
    cases hcases with
    | refused haddr => rw [if_pos haddr]; rfl
    | known haddr hknown =>
      rw [(spares_scEvaluateAutoConnect _ _).stamps, if_neg haddr, hknown, stamps_stamp]
      rfl
    | queued haddr hknown =>
      rw [if_neg haddr, hknown]
      rfl
  | computerStateChanged c =>
    have hcases := connects_computerStateChanged qt m c
    simp only [handle, stamping, direct, drained, Option.none_or]
    generalize m.handleComputerStateChanged qt c = m' at hcases ⊢
    cases hcases with
    | missed hnone =>
      rw [(spares_scEvaluateAutoConnect _ _).stamps, hnone]
      rfl
    | taken ha hqueue hfirst =>
      rw [(spares_scEvaluateAutoConnect _ _).stamps, hfirst, stamps_stamp]
      rfl
  | knownHosts | polled | headlessPairingResult | brokerPairingRelayed | timeout | cancel =>
    exact (handle_other m rfl).2

/-! ### What the effects tell -/

/-- What was stamped between `m` and `m'`, newest first. -/
def stampsSince (m m' : ComputerManager C) : List (C × PendingConnect) :=
  (stampsOf m'.effects).take ((stampsOf m'.effects).length - (stampsOf m.effects).length)

/-- What the state changes of hosts stamp. -/
def resolved (qt : Qt) (m : ComputerManager C) : Event C → List PendingConnect
  | .computerStateChanged c => (stampsSince m (m.handle qt (.computerStateChanged c))).map Prod.snd
  | _ => []

/-- The requests that are queued: they have an address, and stamp nothing. -/
def queued (qt : Qt) (m : ComputerManager C) : Event C → List PendingConnect
  | .requestConnect address port connectToken hostId brokerUrl =>
    if address = "" ∨
      stampsSince m (m.handle qt (.requestConnect address port connectToken hostId brokerUrl)) ≠ [] then []
    else [⟨address, portOf port, connectToken, hostId, brokerUrl⟩]
  | _ => []

omit [DecidableEq C] in
theorem stampsSince_eq {new : List (C × PendingConnect)} (h : stampsOf m'.effects = new ++ stampsOf m.effects) :
    stampsSince m m' = new := by
  rw [stampsSince, h, List.length_append, Nat.add_sub_cancel]
  exact List.take_left

theorem stampsSince_handle (qt : Qt) (m : ComputerManager C) (e : Event C) :
    stampsSince m (m.handle qt e) = (m.stamping e).toList := stampsSince_eq (stamps_handle qt m e)

/-- The stamps of a run are those of its events. -/
theorem stamps_exec (qt : Qt) (es : List (Event C)) : ∀ m : ComputerManager C,
    stampsOf (exec qt m es).effects =
      (along qt (fun m e => (stamping m e).toList) m es).reverse ++ stampsOf m.effects := by
  induction es with
  | nil => exact fun _ => rfl
  | cons e es ih =>
    intro m
    have hrest : stampsOf (exec qt m (e :: es)).effects = _ := ih (m.handle qt e)
    rw [hrest, stamps_handle, along, List.reverse_append, List.append_assoc]
    cases m.stamping e <;> rfl

theorem stampsSince_exec (qt : Qt) (m : ComputerManager C) (es : List (Event C)) :
    stampsSince m (exec qt m es) = (along qt (fun m e => (stamping m e).toList) m es).reverse :=
  stampsSince_eq (stamps_exec qt es m)

/-- What is taken out of the queue is what the state changes stamp. -/
theorem resolved_eq (qt : Qt) (m : ComputerManager C) (e : Event C) :
    resolved qt m e = (m.drained e).toList.map Prod.snd := by
  cases e with
  | computerStateChanged c => exact congrArg (List.map Prod.snd) (stampsSince_handle qt m _)
  | _ => rfl

theorem queued_eq (qt : Qt) (m : ComputerManager C) (e : Event C) : queued qt m e = (m.queuing e).toList := by
  cases e with
  | requestConnect address port connectToken hostId brokerUrl =>
    simp only [queued, queuing, stampsSince_handle, stamping, direct, drained, Option.or_none]
    by_cases haddr : address = ""
    · simp [haddr]
    · cases m.knownHost address <;> simp [haddr]
  | _ => rfl

/-! ## A queued context is stamped once -/

/-- Every queued context stands under its own key. -/
def Keyed (m : ComputerManager C) : Prop := ∀ key pc, m.pendingTokensByAddress key = some pc → key = pc.key

/-- What an event does to the queue. -/
inductive Queues (m : ComputerManager C) (e : Event C) : (String → Option PendingConnect) → Prop where
  | same (hd : m.drained e = none) (hq : m.queuing e = none) : Queues m e m.pendingTokensByAddress
  | add {pc} (hd : m.drained e = none) (hq : m.queuing e = some pc) :
      Queues m e (Function.update m.pendingTokensByAddress pc.key (some pc))
  | take {c pc} (hd : m.drained e = some (c, pc)) (hq : m.queuing e = none)
      (hqueue : m.pendingTokensByAddress pc.key = some pc) :
      Queues m e (Function.update m.pendingTokensByAddress pc.key none)

theorem queues_handle (qt : Qt) (hm : Keyed m) (e : Event C) : Queues m e (m.handle qt e).pendingTokensByAddress := by
  cases e with
  | requestConnect address port connectToken hostId brokerUrl =>
    have hcases := connects_requestConnect qt m address port connectToken hostId brokerUrl
    rw [handle]
    generalize m.requestConnect qt address port connectToken hostId brokerUrl = m' at hcases ⊢
    cases hcases with
    | refused haddr => exact .same rfl (by simp [queuing, haddr])
    | known haddr hknown =>
      rw [(spares_scEvaluateAutoConnect _ _).queue]
      exact .same rfl (by simp [queuing, hknown])
    | queued haddr hknown =>
      have hq : m.queuing (.requestConnect address port connectToken hostId brokerUrl) =
          some ⟨address, portOf port, connectToken, hostId, brokerUrl⟩ := by simp [queuing, haddr, hknown]
      exact .add rfl hq
  | computerStateChanged c =>
    have hcases := connects_computerStateChanged qt m c
    rw [handle]
    generalize m.handleComputerStateChanged qt c = m' at hcases ⊢
    rcases hcases with _ | _ | _ | hnone | ⟨ha, hqueue, hfirst⟩
    · rw [(spares_scEvaluateAutoConnect _ _).queue]
      exact .same (by simp [drained, hnone]) rfl
    · rw [(spares_scEvaluateAutoConnect _ _).queue]
      have hkey := hm _ _ hqueue
      rw [hkey] at hqueue ⊢
      exact .take (by simp only [drained, hfirst]; rfl) rfl hqueue
  | knownHosts | polled | headlessPairingResult | brokerPairingRelayed | timeout | cancel =>
    rw [(handle_other m rfl).1]
    exact .same rfl rfl

theorem keyed_handle (qt : Qt) (hm : Keyed m) (e : Event C) : Keyed (m.handle qt e) := by
  have hcases := queues_handle qt hm e
  intro key pc h
  generalize (m.handle qt e).pendingTokensByAddress = queue at hcases h
  cases hcases with
  | same => exact hm key pc h
  | add hd hq =>
    rw [Function.update_apply] at h
    split_ifs at h with heq
    · rw [← Option.some.inj h, heq]
    · exact hm key pc h
  | take hd hq hqueue =>
    rw [Function.update_apply] at h
    split_ifs at h with heq
    exact hm key pc h

/-- 1 if the context is queued, else 0. -/
def held (queue : String → Option PendingConnect) (pc : PendingConnect) : ℕ :=
  if queue pc.key = some pc then 1 else 0

theorem held_le {queue queue' : String → Option PendingConnect} {pc : PendingConnect}
    (h : queue' pc.key = some pc → queue pc.key = some pc) : held queue' pc ≤ held queue pc := by
  unfold held
  by_cases hq' : queue' pc.key = some pc
  · rw [if_pos hq', if_pos (h hq')]
  · rw [if_neg hq']
    exact Nat.zero_le _

/-- An event takes out of the queue what was in it. -/
theorem count_handle (qt : Qt) (hm : Keyed m) (e : Event C) (pc : PendingConnect) :
    ((m.drained e).toList.map Prod.snd).count pc + held (m.handle qt e).pendingTokensByAddress pc ≤
      held m.pendingTokensByAddress pc + (m.queuing e).toList.count pc := by
  have hcases := queues_handle qt hm e
  generalize (m.handle qt e).pendingTokensByAddress = queue at hcases ⊢
  cases hcases with
  | same hd hq => simp [hd, hq]
  | @add pc₀ hd hq =>
    rw [hd, hq]
    by_cases heq : pc₀ = pc
    · subst heq
      simp [held]
    · have hle : held (Function.update m.pendingTokensByAddress pc₀.key (some pc₀)) pc ≤
          held m.pendingTokensByAddress pc := by
        refine held_le fun h => ?_
        rw [Function.update_apply] at h
        split_ifs at h
        · exact absurd (Option.some.inj h) heq
        · exact h
      simpa using hle.trans (Nat.le_add_right _ _)
  | @take c pc₀ hd hq hqueue =>
    rw [hd, hq]
    by_cases heq : pc₀ = pc
    · subst heq
      simp [held, hqueue]
    · have hle : held (Function.update m.pendingTokensByAddress pc₀.key none) pc ≤
          held m.pendingTokensByAddress pc := by
        refine held_le fun h => ?_
        rw [Function.update_apply] at h
        split_ifs at h
        exact h
      simpa [heq] using hle

/-- **The state changes stamp a context at most as often as it was queued.** -/
theorem count_resolved_le (hm : Keyed m) (es : List (Event C)) (pc : PendingConnect) :
    (along qt (resolved qt) m es).count pc ≤
      held m.pendingTokensByAddress pc + (along qt (queued qt) m es).count pc := by
  induction es generalizing m with
  | nil => exact Nat.zero_le _
  | cons e es ih =>
    have hstep := count_handle qt hm e pc
    have hrest := ih (keyed_handle qt hm e)
    simp only [along, resolved_eq, queued_eq, List.count_append] at *
    omega

/-! ## The two orders -/

/-- A host becomes known, is polled, and its state change arrives. -/
def discovery (hosts : List C) (c : C) (seen : NvComputer) : List (Event C) :=
  [.knownHosts hosts, .polled c seen, .computerStateChanged c]

/-- The context that a run stamps last on the host. -/
def lastStamp (qt : Qt) (m : ComputerManager C) (es : List (Event C)) (c : C) : Option ConnectContext :=
  ((stampsSince m (exec qt m es)).find? (·.1 = c)).map (·.2.context)

/-- The request before the discovery stamps the same on the host as after it. -/
def OrderFree (qt : Qt) (m : ComputerManager C) (hosts : List C) (c : C) (seen : NvComputer) (request : Event C) :
    Prop :=
  lastStamp qt m (request :: discovery hosts c seen) c = lastStamp qt m (discovery hosts c seen ++ [request]) c

theorem lastStamp_eq (qt : Qt) (m : ComputerManager C) (es : List (Event C)) (c : C) : lastStamp qt m es c =
    ((along qt (fun m e => (stamping m e).toList) m es).filter (·.1 = c)).getLast?.map (·.2.context) := by
  rw [lastStamp, stampsSince_exec, ← List.head?_filter, List.filter_reverse, List.head?_reverse]

def hasAddress (m : ComputerManager C) (address : String) (c : C) : Bool :=
  (m.computers c).addresses.any fun a => a.address == address

/-- The host when its state change arrives. -/
def discovered (m : ComputerManager C) (hosts : List C) (c : C) (seen : NvComputer) : ComputerManager C :=
  ({ m with knownHosts := hosts } : ComputerManager C).poll c seen

theorem addresses_discovered (m : ComputerManager C) (hosts : List C) (c : C) (seen : NvComputer) :
    ((m.discovered hosts c seen).computers c).addresses = seen.addresses := by
  simp [discovered, poll, update]

theorem hasAddress_discovered (m : ComputerManager C) (hosts : List C) {c d : C} (hd : d ≠ c) (seen : NvComputer)
    (address : String) : (m.discovered hosts c seen).hasAddress address d = m.hasAddress address d := by
  simp [discovered, poll, update, hasAddress, hd]

/-- A state change leaves the hosts and their addresses alone. -/
theorem knownHost_handleComputerStateChanged (qt : Qt) (m : ComputerManager C) (c : C) (address : String) :
    (m.handleComputerStateChanged qt c).knownHost address = m.knownHost address := by
  have hcases := connects_computerStateChanged qt m c
  generalize m.handleComputerStateChanged qt c = m' at hcases ⊢
  have of_addresses : m'.knownHosts = m.knownHosts →
      (∀ d, (m'.computers d).addresses = (m.computers d).addresses) → m'.knownHost address = m.knownHost address := by
    intro hhosts haddr
    simp only [knownHost, hhosts, haddr]
  rcases hcases with _ | _ | _ | _ | ⟨ha, -, -⟩
  · exact of_addresses (spares_scEvaluateAutoConnect _ _).knownHosts (spares_scEvaluateAutoConnect _ _).addresses
  · refine of_addresses (spares_scEvaluateAutoConnect _ _).knownHosts fun d => ?_
    refine ((spares_scEvaluateAutoConnect _ _).addresses d).trans ?_
    exact addresses_stamp (m.setQueued _ none) c _ d

omit [DecidableEq C] in
theorem stamping_requestConnect (m : ComputerManager C) (address : String) (port : ℤ) (connectToken : String)
    (hostId : ℤ) (brokerUrl : String) : m.stamping (.requestConnect address port connectToken hostId brokerUrl) =
      if address = "" then none
      else (m.knownHost address).map (·, ⟨address, portOf port, connectToken, hostId, brokerUrl⟩) := Option.or_none

theorem stamping_changed (m : ComputerManager C) (hosts : List C) (c : C) (seen : NvComputer) :
    (m.discovered hosts c seen).stamping (.computerStateChanged c) =
      (firstQueued m.pendingTokensByAddress seen.addresses).map (c, ·) := by
  simp only [stamping, direct, drained, Option.none_or, addresses_discovered]
  rfl

section
variable {before after : List C} {c : C} {seen : NvComputer} {address : String} {port hostId : ℤ}
  {connectToken brokerUrl : String} (hknown : m.knownHosts = before ++ after) (hnew : c ∉ m.knownHosts)
include hknown hnew

omit hknown in
/-- The request first: the state change stamps what is then queued for the host. -/
theorem lastStamp_request_first :
    lastStamp qt m (.requestConnect address port connectToken hostId brokerUrl ::
      discovery (before ++ c :: after) c seen) c =
    (firstQueued (m.requestConnect qt address port connectToken hostId brokerUrl).pendingTokensByAddress
      seen.addresses).map PendingConnect.context := by
  have hother : (m.stamping (.requestConnect address port connectToken hostId brokerUrl)).toList.filter
      (·.1 = c) = [] := by
    refine List.filter_eq_nil_iff.2 fun x hx => ?_
    rw [Option.mem_toList, stamping_requestConnect] at hx
    split_ifs at hx
    obtain ⟨d, hd, rfl⟩ := Option.mem_map.1 hx
    have hmem : d ∈ m.knownHosts := List.mem_of_find?_eq_some hd
    simpa using ne_of_mem_of_not_mem hmem hnew
  have halong : along qt (fun m e => (stamping m e).toList) m (.requestConnect address port connectToken hostId brokerUrl ::
      discovery (before ++ c :: after) c seen) =
      (m.stamping (.requestConnect address port connectToken hostId brokerUrl)).toList ++
        (((m.requestConnect qt address port connectToken hostId brokerUrl).discovered (before ++ c :: after) c
          seen).stamping (.computerStateChanged c)).toList := by
    simp only [discovery, along, List.append_nil]
    rfl
  rw [lastStamp_eq, halong, stamping_changed, List.filter_append, hother]
  cases firstQueued (m.requestConnect qt address port connectToken hostId brokerUrl).pendingTokensByAddress
    seen.addresses with
  | none => rfl
  | some pc => simp

/-- The discovery first: the request stamps the host, unless one before it has the
    address. -/
theorem lastStamp_discovery_first (hne : address ≠ "") (haddr : ∃ a ∈ seen.addresses, a.address = address) :
    lastStamp qt m (discovery (before ++ c :: after) c seen ++
      [.requestConnect address port connectToken hostId brokerUrl]) c =
    if before.any (m.hasAddress address) then
      (firstQueued m.pendingTokensByAddress seen.addresses).map PendingConnect.context
    else some ⟨connectToken, hostId, brokerUrl⟩ := by
  have halong : along qt (fun m e => (stamping m e).toList) m (discovery (before ++ c :: after) c seen ++
      [.requestConnect address port connectToken hostId brokerUrl]) =
      ((firstQueued m.pendingTokensByAddress seen.addresses).map (c, ·)).toList ++
        (((m.discovered (before ++ c :: after) c seen).handleComputerStateChanged qt c).stamping
          (.requestConnect address port connectToken hostId brokerUrl)).toList := by
    rw [← stamping_changed m (before ++ c :: after)]
    simp only [discovery, along, List.cons_append, List.nil_append, List.append_nil]
    rfl
  have hhost : ((m.discovered (before ++ c :: after) c seen).handleComputerStateChanged qt c).knownHost address =
      (before.find? (m.hasAddress address)).or (some c) := by
    have hc : (m.discovered (before ++ c :: after) c seen).hasAddress address c = true := by
      rw [hasAddress, addresses_discovered]
      simpa using haddr
    have hbefore : before.find? ((m.discovered (before ++ c :: after) c seen).hasAddress address) =
        before.find? (m.hasAddress address) := by
      refine List.find?_congr fun d hd => ?_
      have hmem : d ∈ m.knownHosts := hknown ▸ List.mem_append_left _ hd
      exact hasAddress_discovered m _ (ne_of_mem_of_not_mem hmem hnew) seen address
    rw [knownHost_handleComputerStateChanged]
    change (before ++ c :: after).find? ((m.discovered (before ++ c :: after) c seen).hasAddress address) = _
    rw [List.find?_append, hbefore, List.find?_cons_of_pos hc]
  rw [lastStamp_eq, halong, stamping_requestConnect, if_neg hne, hhost]
  cases hfind : before.find? (m.hasAddress address) with
  | none =>
    rw [if_neg (by simpa using hfind)]
    simp [PendingConnect.context]
  | some d =>
    have hmem : d ∈ m.knownHosts := hknown ▸ List.mem_append_left _ (List.mem_of_find?_eq_some hfind)
    have hd : d ≠ c := ne_of_mem_of_not_mem hmem hnew
    rw [if_pos (List.any_eq_true.2 ⟨d, List.mem_of_find?_eq_some hfind, List.find?_some hfind⟩)]
    cases firstQueued m.pendingTokensByAddress seen.addresses <;> simp [hd]

end

/-! ## When the order does not matter -/

omit [DecidableEq C] in
theorem firstQueued_context_iff {queue : String → Option PendingConnect} {addresses : List NvAddress}
    {context : ConnectContext} : (firstQueued queue addresses).map PendingConnect.context = some context ↔
    ∃ (xs : List NvAddress) (x : NvAddress) (ys : List NvAddress), addresses = xs ++ x :: ys ∧
      (∀ y ∈ xs, queue (pendingConnectKey y.address y.port) = none) ∧
      ∃ pc, queue (pendingConnectKey x.address x.port) = some pc ∧ pc.context = context := by
  simp only [firstQueued, Option.map_eq_some_iff, List.findSome?_eq_some_iff]
  constructor
  · rintro ⟨pc, ⟨xs, x, ys, heq, hx, hxs⟩, hcontext⟩
    exact ⟨xs, x, ys, heq, hxs, pc, hx, hcontext⟩
  · rintro ⟨xs, x, ys, heq, hxs, pc, hx, hcontext⟩
    exact ⟨pc, ⟨xs, x, ys, heq, hx, hxs⟩, hcontext⟩

/-- The queue after a request. -/
theorem queue_requestConnect (qt : Qt) (m : ComputerManager C) {address : String} (hne : address ≠ "") (port : ℤ)
    (connectToken : String) (hostId : ℤ) (brokerUrl : String) :
    (m.requestConnect qt address port connectToken hostId brokerUrl).pendingTokensByAddress =
      if (m.knownHost address).isSome then m.pendingTokensByAddress
      else Function.update m.pendingTokensByAddress (pendingConnectKey address (portOf port))
        (some ⟨address, portOf port, connectToken, hostId, brokerUrl⟩) := by
  have hcases := connects_requestConnect qt m address port connectToken hostId brokerUrl
  generalize m.requestConnect qt address port connectToken hostId brokerUrl = m' at hcases ⊢
  cases hcases with
  | refused haddr => exact absurd haddr hne
  | known haddr hknown =>
    rw [(spares_scEvaluateAutoConnect _ _).queue, hknown]
    rfl
  | queued haddr hknown =>
    rw [hknown]
    rfl

/-- No known host has the address. -/
def Unclaimed (m : ComputerManager C) (address : String) : Prop :=
  ∀ d ∈ m.knownHosts, m.hasAddress address d = false

/-- Of the keys of the host, the first that is the request's own or has a context
    queued is the request's own or has the same context queued. -/
def ComesFirst (m : ComputerManager C) (seen : NvComputer) (own : Prop) (request : PendingConnect) : Prop :=
  ∃ xs x ys, seen.addresses = xs ++ x :: ys ∧
    (∀ y ∈ xs, ¬(own ∧ y = ⟨request.address, request.port⟩) ∧
      m.pendingTokensByAddress (pendingConnectKey y.address y.port) = none) ∧
    (own ∧ x = ⟨request.address, request.port⟩ ∨
      ∃ pc, m.pendingTokensByAddress (pendingConnectKey x.address x.port) = some pc ∧ pc.context = request.context)

theorem comesFirst_iff (qt : Qt) (m : ComputerManager C) (seen : NvComputer) {address : String} (hne : address ≠ "")
    (port : ℤ) (connectToken : String) (hostId : ℤ) (brokerUrl : String) :
    (firstQueued (m.requestConnect qt address port connectToken hostId brokerUrl).pendingTokensByAddress
      seen.addresses).map PendingConnect.context = some ⟨connectToken, hostId, brokerUrl⟩ ↔
    ComesFirst m seen (m.Unclaimed address) ⟨address, portOf port, connectToken, hostId, brokerUrl⟩ := by
  rw [firstQueued_context_iff, queue_requestConnect qt m hne, ComesFirst]
  by_cases hu : m.Unclaimed address
  · have hnone : m.knownHost address = none := List.find?_eq_none.2 fun d hd => Bool.eq_false_iff.1 (hu d hd)
    have hqueue : ∀ y : NvAddress, Function.update m.pendingTokensByAddress (pendingConnectKey address (portOf port))
        (some ⟨address, portOf port, connectToken, hostId, brokerUrl⟩) (pendingConnectKey y.address y.port) =
        if y = ⟨address, portOf port⟩ then some ⟨address, portOf port, connectToken, hostId, brokerUrl⟩
        else m.pendingTokensByAddress (pendingConnectKey y.address y.port) := by
      intro y
      rw [Function.update_apply]
      refine if_congr ?_ rfl rfl
      rw [pendingConnectKey_inj, NvAddress.mk.injEq]
    simp only [hnone, Option.isSome_none, Bool.false_eq_true, if_false, hqueue, hu, true_and]
    refine exists_congr fun xs => exists_congr fun x => exists_congr fun ys => and_congr_right fun _ => ?_
    refine and_congr (forall₂_congr fun y _ => ?_) ?_
    · by_cases hy : y = ⟨address, portOf port⟩ <;> simp [hy]
    · by_cases hx : x = ⟨address, portOf port⟩ <;> simp [hx, PendingConnect.context]
  · obtain ⟨d, hd, hhas⟩ : ∃ d ∈ m.knownHosts, m.hasAddress address d = true := by
      simpa [Unclaimed] using hu
    have hsome : (m.knownHost address).isSome = true := List.find?_isSome.2 ⟨d, hd, hhas⟩
    simp [hsome, hu, PendingConnect.context]

theorem orderFree_iff (qt : Qt) {m : ComputerManager C} {before after : List C} {c : C} {seen : NvComputer}
    {address : String} (hknown : m.knownHosts = before ++ after) (hnew : c ∉ m.knownHosts)
    (hnull : ∀ a ∈ seen.addresses, a.address ≠ "") (haddr : ∃ a ∈ seen.addresses, a.address = address)
    (port : ℤ) (connectToken : String) (hostId : ℤ) (brokerUrl : String) :
    OrderFree qt m (before ++ c :: after) c seen (.requestConnect address port connectToken hostId brokerUrl) ↔
      (∃ d ∈ before, m.hasAddress address d = true) ∨
        ComesFirst m seen (m.Unclaimed address) ⟨address, portOf port, connectToken, hostId, brokerUrl⟩ := by
  have hne : address ≠ "" := by
    obtain ⟨a, ha, rfl⟩ := haddr
    exact hnull a ha
  rw [OrderFree, lastStamp_request_first hnew, lastStamp_discovery_first hknown hnew hne haddr]
  by_cases hb : before.any (m.hasAddress address) = true
  · obtain ⟨d, hd, hhas⟩ := List.any_eq_true.1 hb
    have hsome : (m.knownHost address).isSome = true :=
      List.find?_isSome.2 ⟨d, hknown ▸ List.mem_append_left _ hd, hhas⟩
    rw [if_pos hb, queue_requestConnect qt m hne, if_pos hsome]
    exact iff_of_true rfl (.inl ⟨d, hd, hhas⟩)
  · rw [if_neg hb, comesFirst_iff qt m seen hne]
    refine (or_iff_right fun ⟨d, hd, hhas⟩ => hb ?_).symm
    exact List.any_eq_true.2 ⟨d, hd, hhas⟩

/-- **Connect requests and discoveries**: in every state of a run, the order of a
    request and the discovery of its host does not matter exactly where a known host
    that comes before has the address, or the request comes first among the keys of
    the host; and a queued context is stamped once at most. -/
theorem connectOrder (qt : Qt) {m₀ : ComputerManager C} (hempty : m₀.pendingTokensByAddress = fun _ => none)
    (es : List (Event C)) :
    let m := exec qt m₀ es
    (∀ (before after : List C) (c : C) (seen : NvComputer) (address : String) (port : ℤ) (connectToken : String)
      (hostId : ℤ) (brokerUrl : String), m.knownHosts = before ++ after → c ∉ m.knownHosts →
      (∀ a ∈ seen.addresses, a.address ≠ "") → (∃ a ∈ seen.addresses, a.address = address) →
      (OrderFree qt m (before ++ c :: after) c seen (.requestConnect address port connectToken hostId brokerUrl) ↔
        (∃ d ∈ before, m.hasAddress address d = true) ∨
          ComesFirst m seen (m.Unclaimed address) ⟨address, portOf port, connectToken, hostId, brokerUrl⟩)) ∧
    ∀ pc, (along qt (resolved qt) m₀ es).count pc ≤ (along qt (queued qt) m₀ es).count pc := by
  intro m
  have hkeyed : Keyed m₀ := by
    intro key pc h
    rw [hempty] at h
    cases h
  refine ⟨fun before after c seen address port connectToken hostId brokerUrl hknown hnew hnull haddr =>
    orderFree_iff qt hknown hnew hnull haddr port connectToken hostId brokerUrl, fun pc => ?_⟩
  have hcount : (along qt (resolved qt) m₀ es).count pc ≤
      held m₀.pendingTokensByAddress pc + (along qt (queued qt) m₀ es).count pc := count_resolved_le hkeyed es pc
  rwa [held, hempty, if_neg (by simp), Nat.zero_add] at hcount

/-! ## A PC that is found by mDNS -/

/-- The lab without its known PCs. -/
def newLab : ComputerManager Bool := { lab with knownHosts := [] }

/-- The PC as mDNS finds it, under the port of its web server. -/
def found : NvComputer := lab.computers false

/-- A connect URL of the PC, with the port. -/
def connectUnder (port : ℤ) : Event Bool :=
  .requestConnect "10.0.0.1" port "a-token-of-sixteen" 1 "https://broker.example"

/-- Under the same port both orders stamp the context of the URL. -/
theorem connectOrder_lab : OrderFree labQt newLab [false] false found (connectUnder 47989) ∧
    (along labQt (resolved labQt) newLab (connectUnder 47989 :: discovery [false] false found)).count
      ⟨"10.0.0.1", 47989, "a-token-of-sixteen", 1, "https://broker.example"⟩ ≤ 1 := by
  obtain ⟨horder, -⟩ := @connectOrder _ _ labQt newLab rfl []
  obtain ⟨-, hcount⟩ := @connectOrder _ _ labQt newLab rfl (connectUnder 47989 :: discovery [false] false found)
  refine ⟨?_, (hcount _).trans ?_⟩
  · refine (horder [] [] false found "10.0.0.1" 47989 _ 1 _ rfl (by decide) (by decide) (by decide)).2 (.inr ?_)
    exact ⟨[], ⟨"10.0.0.1", 47989⟩, [], rfl, by simp, .inl ⟨nofun, rfl⟩⟩
  · decide

/-- Under another port the host is found by its address only when it is known. -/
theorem not_orderFree : ¬OrderFree labQt newLab [false] false found (connectUnder 47984) := by
  have hbefore : lastStamp labQt newLab (connectUnder 47984 :: discovery [false] false found) false = none := by
    decide
  have hafter : lastStamp labQt newLab (discovery [false] false found ++ [connectUnder 47984]) false =
      some ⟨"a-token-of-sixteen", 1, "https://broker.example"⟩ := by decide
  rw [OrderFree, hbefore, hafter]
  simp

end ComputerManager

end SmartClassroom
