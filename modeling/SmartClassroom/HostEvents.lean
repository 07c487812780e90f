/-
  `services/host_events.py`: `HostEventBroker`, the fan-out of host events to
  the queues of the SSE subscribers.

  Each step between two awaits is atomic (`Act`); `exec` plays a history of
  steps, newest first.  A subscriber is the generator that `subscribe` returns,
  named by a key.

  * `mailbox_exec`: a subscriber's part of any history is the mailbox
    `Lib.Mailbox` alone on its own signals.
  * `delivery`: what every subscriber has received in any history.
-/
import Mathlib.Data.List.Nodup
import Mathlib.Logic.Function.Basic
import SmartClassroom.Lib.Mailbox

namespace SmartClassroom

variable {S E α : Type} [DecidableEq S]

/-! ## `asyncio.Queue` -/

def queueMaxsize : ℕ := 100

inductive QueueError where
  | queueFull
  | queueEmpty

/-- `Queue(maxsize=QUEUE_MAXSIZE)`, its oldest item first. -/
structure Queue (E : Type) where
  items : List E
  le : items.length ≤ queueMaxsize

namespace Queue

def putNowait (q : Queue E) (item : E) : Except QueueError (Queue E) :=
  if h : q.items.length < queueMaxsize then
    .ok ⟨q.items ++ [item], by rw [List.length_append]; exact h⟩
  else .error .queueFull

def getNowait (q : Queue E) : Except QueueError (E × Queue E) :=
  match q with
  | ⟨[], _⟩ => .error .queueEmpty
  | ⟨item :: items, h⟩ => .ok (item, ⟨items, Nat.le_of_succ_le h⟩)

/-- The queue after an event: a full one has lost its oldest. -/
def push (q : Queue E) (item : E) : Queue E where
  items := Mailbox.push queueMaxsize item q.items
  le := Mailbox.length_push_le (Nat.zero_lt_succ _) q.le

theorem putNowait_of_lt {q : Queue E} (h : q.items.length < queueMaxsize) (item : E) :
    q.putNowait item = .ok (q.push item) := by
  rw [putNowait, dif_pos h]
  simp [push, Mailbox.push, h]

theorem putNowait_of_full {q : Queue E} (h : ¬q.items.length < queueMaxsize) (item : E) :
    q.putNowait item = .error .queueFull := dif_neg h

theorem items_of_getNowait {q : Queue E} {p : E × Queue E} (h : q.getNowait = .ok p) :
    q.items = p.1 :: p.2.items := by
  obtain ⟨items, hle⟩ := q
  cases items with
  | nil => cases h
  | cons item items =>
    obtain rfl := Except.ok.inj h
    rfl

/-- Dropping the oldest of a full queue makes room. -/
theorem getNowait_of_full {q : Queue E} (h : ¬q.items.length < queueMaxsize) (item : E) :
    ∃ first q', q.getNowait = .ok (first, q') ∧ q'.putNowait item = .ok (q.push item) := by
  obtain ⟨items, hle⟩ := q
  cases items with
  | nil => exact absurd (Nat.zero_lt_succ _) h
  | cons first items =>
    have hlt : items.length < queueMaxsize := hle
    refine ⟨first, ⟨items, hlt.le⟩, rfl, ?_⟩
    rw [putNowait, dif_pos hlt]
    simp only [push, Mailbox.push, if_neg h, List.tail_cons]

end Queue

/-! ## `HostEventBroker` -/

/-- The generator of a subscriber: its local `queue`, and what it has yielded. -/
structure Generator (E : Type) where
  queue : Queue E
  yielded : List E
  running : Bool

structure HostEventBroker (S E : Type) where
  subscribers : List S
  closed : Bool
  generators : S → Generator E
  /-- the events of `host_event_dropped` -/
  dropped : List E

namespace HostEventBroker

def init : HostEventBroker S E where
  subscribers := []
  closed := false
  generators _ := ⟨⟨[], Nat.zero_le _⟩, [], false⟩
  dropped := []

/-- Code between two awaits. -/
abbrev Task (S E α : Type) := EStateM QueueError (HostEventBroker S E) α

/-- The generator of `i` with the queue `q`. -/
def setQueue (b : HostEventBroker S E) (i : S) (q : Queue E) : HostEventBroker S E :=
  { b with generators := Function.update b.generators i { b.generators i with queue := q } }

def putNowait (i : S) (event : E) : Task S E Unit := do
  let b ← get
  match (b.generators i).queue.putNowait event with
  | .ok q => set (b.setQueue i q)
  | .error e => throw e

def getNowait (i : S) : Task S E E := do
  let b ← get
  match (b.generators i).queue.getNowait with
  | .ok (item, q) => do
    set (b.setQueue i q)
    pure item
  | .error e => throw e

/-- `with contextlib.suppress(Exception)`. -/
def suppress (task : Task S E α) : Task S E Unit :=
  tryCatch (do let _ ← task; pure ()) fun _ => pure ()

/-- `logger.warning("host_event_dropped", ..)`. -/
def warnDropped (event : E) : Task S E Unit :=
  modify fun b => { b with dropped := b.dropped ++ [event] }

/-- `except QueueFull`. -/
def exceptQueueFull (handler : Task S E Unit) : QueueError → Task S E Unit
  | .queueFull => handler
  | e => throw e

/-- The body of the loop over the subscribers. -/
def offer (event : E) (i : S) : Task S E Unit :=
  tryCatch (putNowait i event) <| exceptQueueFull do
    suppress (getNowait i)
    tryCatch (putNowait i event) (exceptQueueFull (warnDropped event))

def publish (event : E) : Task S E Unit := do
  let b ← get
  if b.closed then pure ()
  else b.subscribers.forM (offer event)

/-- `subscribe` up to its first await. -/
def subscribe (i : S) (b : HostEventBroker S E) : HostEventBroker S E :=
  { b with
    subscribers := b.subscribers ++ [i]
    generators := Function.update b.generators i ⟨⟨[], Nat.zero_le _⟩, [], true⟩ }

/-- `event = await queue.get()` and `yield event`. -/
def next (i : S) (event : E) (b : HostEventBroker S E) : HostEventBroker S E :=
  let g := b.generators i
  { b with generators := Function.update b.generators i { g with yielded := g.yielded ++ [event] } }

/-- `finally: self._subscribers.remove(queue)`. -/
def unsubscribe (i : S) (b : HostEventBroker S E) : HostEventBroker S E :=
  { b with
    subscribers := b.subscribers.erase i
    generators := Function.update b.generators i { b.generators i with running := false } }

def close (b : HostEventBroker S E) : HostEventBroker S E :=
  { b with subscribers := [], closed := true }

inductive Act (S E : Type) where
  | subscribe (i : S)
  | publish (event : E)
  | take (i : S)
  | unsubscribe (i : S)
  | close

/-- The state after the step; a subscriber of an empty queue waits. -/
def step (b : HostEventBroker S E) : Act S E → Option (HostEventBroker S E)
  | .subscribe i => if (b.generators i).running then none else some (b.subscribe i)
  | .publish event =>
    match (publish event).run b with
    | .ok _ b' | .error _ b' => some b'
  | .take i =>
    if (b.generators i).running then
      match (getNowait i).run b with
      | .ok event b' => some (b'.next i event)
      | .error _ _ => none
    else none
  | .unsubscribe i => if (b.generators i).running then some (b.unsubscribe i) else none
  | .close => some b.close

def exec : List (Act S E) → Option (HostEventBroker S E)
  | [] => some init
  | a :: h => (exec h).bind (step · a)

/-! ## One publication -/

theorem setQueue_setQueue (b : HostEventBroker S E) (i : S) (q q' : Queue E) :
    (b.setQueue i q).setQueue i q' = b.setQueue i q' := by
  simp [setQueue]

@[simp] theorem queue_setQueue (b : HostEventBroker S E) (i : S) (q : Queue E) :
    ((b.setQueue i q).generators i).queue = q := by
  simp [setQueue]

theorem run_putNowait (b : HostEventBroker S E) (i : S) (event : E) :
    (putNowait i event).run b = match (b.generators i).queue.putNowait event with
      | .ok q => .ok () (b.setQueue i q)
      | .error e => .error e b := by
  rw [putNowait, EStateM.run_bind, EStateM.run_get]
  dsimp only
  cases (b.generators i).queue.putNowait event <;> rfl

theorem run_getNowait (b : HostEventBroker S E) (i : S) :
    (getNowait i).run b = match (b.generators i).queue.getNowait with
      | .ok (item, q) => .ok item (b.setQueue i q)
      | .error e => .error e b := by
  rw [getNowait, EStateM.run_bind, EStateM.run_get]
  dsimp only
  cases (b.generators i).queue.getNowait <;> rfl

omit [DecidableEq S] in
/-- `try task except e: handler e`. -/
theorem run_try (task : Task S E α) (handler : QueueError → Task S E α) (b : HostEventBroker S E) :
    (tryCatch task handler).run b = match task.run b with
      | .ok a b' => .ok a b'
      | .error e b' => (handler e).run b' := by
  change EStateM.tryCatch task handler b = _
  simp only [EStateM.tryCatch, EStateM.run]
  cases task b <;> rfl

omit [DecidableEq S] in
theorem run_suppress {task : Task S E α} {b b' : HostEventBroker S E} {a : α}
    (h : task.run b = .ok a b') : (suppress task).run b = .ok () b' := by
  rw [suppress, run_try, EStateM.run_bind, h]
  rfl

/-- No exception leaves the body of the loop, and no event is dropped there. -/
theorem run_offer (b : HostEventBroker S E) (event : E) (i : S) :
    (offer event i).run b = .ok () (b.setQueue i ((b.generators i).queue.push event)) := by
  rw [offer, run_try, run_putNowait]
  by_cases h : (b.generators i).queue.items.length < queueMaxsize
  · rw [Queue.putNowait_of_lt h]
  · obtain ⟨first, q', hget, hput⟩ := Queue.getNowait_of_full h event
    have hrun := run_getNowait b i
    rw [hget] at hrun
    rw [Queue.putNowait_of_full h]
    dsimp only [exceptQueueFull]
    rw [EStateM.run_bind, run_suppress hrun]
    dsimp only
    rw [run_try, run_putNowait, queue_setQueue, hput]
    dsimp only
    rw [setQueue_setQueue]

/-- The state after an event for the subscribers `is`. -/
def offerAll (event : E) (is : List S) (b : HostEventBroker S E) : HostEventBroker S E :=
  is.foldl (fun b i => b.setQueue i ((b.generators i).queue.push event)) b

theorem run_forM_offer (event : E) (is : List S) (b : HostEventBroker S E) :
    (is.forM (offer event)).run b = .ok () (b.offerAll event is) := by
  induction is generalizing b with
  | nil => rfl
  | cons i is ih =>
    change (offer event i >>= fun _ => is.forM (offer event)).run b = _
    rw [EStateM.run_bind, run_offer]
    exact ih _

/-- **`publish` never raises.** -/
theorem run_publish (event : E) (b : HostEventBroker S E) : (publish event).run b =
    .ok () (if b.closed then b else b.offerAll event b.subscribers) := by
  rw [publish, EStateM.run_bind, EStateM.run_get]
  dsimp only
  split_ifs
  · rfl
  · exact run_forM_offer ..

theorem generators_setQueue (b : HostEventBroker S E) (i j : S) (q : Queue E) :
    (b.setQueue i q).generators j =
      if j = i then { b.generators i with queue := q } else b.generators j := by
  simp only [setQueue, Function.update_apply]

/-- Each of the subscribers has the event once. -/
theorem generators_offerAll {is : List S} (his : is.Nodup) (event : E) (j : S) :
    ∀ b : HostEventBroker S E, (b.offerAll event is).generators j =
      if j ∈ is then { b.generators j with queue := (b.generators j).queue.push event }
      else b.generators j := by
  induction is with
  | nil => exact fun _ => rfl
  | cons i is ih =>
    intro b
    obtain ⟨hi, his⟩ := List.nodup_cons.mp his
    refine (ih his _).trans ?_
    rw [generators_setQueue]
    by_cases hj : j = i
    · subst hj
      simp [hi]
    · simp [hj]

/-- The rest of the broker stays as it is. -/
theorem offerAll_frame (event : E) (is : List S) (b : HostEventBroker S E) :
    (b.offerAll event is).subscribers = b.subscribers ∧ (b.offerAll event is).closed = b.closed ∧
      (b.offerAll event is).dropped = b.dropped := by
  induction is generalizing b with
  | nil => exact ⟨rfl, rfl, rfl⟩
  | cons i is ih => exact ih _

/-! ## Histories -/

/-- The list of subscribers: the running generators, each once, until it is
    cleared. -/
structure Listed (b : HostEventBroker S E) : Prop where
  nodup : b.subscribers.Nodup
  running : ∀ i ∈ b.subscribers, (b.generators i).running = true
  all : b.closed = false → ∀ i, (b.generators i).running = true → i ∈ b.subscribers

/-- The cases of one step. -/
inductive Step (b : HostEventBroker S E) : Act S E → HostEventBroker S E → Prop where
  | subscribe {i : S} (hi : (b.generators i).running = false) : Step b (.subscribe i) (b.subscribe i)
  | publish {event : E} (hc : b.closed = false) :
      Step b (.publish event) (b.offerAll event b.subscribers)
  | ignore {event : E} (hc : b.closed = true) : Step b (.publish event) b
  | take {i : S} {event : E} {q : Queue E} (hi : (b.generators i).running = true)
      (hq : (b.generators i).queue.items = event :: q.items) :
      Step b (.take i) ((b.setQueue i q).next i event)
  | unsubscribe {i : S} (hi : (b.generators i).running = true) :
      Step b (.unsubscribe i) (b.unsubscribe i)
  | close : Step b .close b.close

theorem step_cases {b b' : HostEventBroker S E} {a : Act S E} (h : b.step a = some b') :
    Step b a b' := by
  cases a with
  | subscribe i =>
    simp only [step] at h
    split_ifs at h with hi
    obtain rfl := Option.some.inj h
    exact .subscribe (Bool.not_eq_true _ ▸ hi)
  | publish event =>
    simp only [step, run_publish] at h
    split_ifs at h with hc
    · obtain rfl := Option.some.inj h
      exact .ignore hc
    · obtain rfl := Option.some.inj h
      exact .publish (Bool.not_eq_true _ ▸ hc)
  | take i =>
    simp only [step, run_getNowait] at h
    split_ifs at h with hi
    cases hget : (b.generators i).queue.getNowait with
    | error e =>
      rw [hget] at h
      cases h
    | ok p =>
      rw [hget] at h
      obtain rfl := Option.some.inj h
      exact .take hi (Queue.items_of_getNowait hget)
  | unsubscribe i =>
    simp only [step] at h
    split_ifs at h with hi
    obtain rfl := Option.some.inj h
    exact .unsubscribe hi
  | close =>
    obtain rfl := Option.some.inj h
    exact .close

theorem generators_take (b : HostEventBroker S E) (i j : S) (q : Queue E) (event : E) :
    ((b.setQueue i q).next i event).generators j =
      if j = i then ⟨q, (b.generators i).yielded ++ [event], (b.generators i).running⟩
      else b.generators j := by
  by_cases hji : j = i
  · simp [next, setQueue, hji]
  · simp [next, setQueue, hji]

theorem running_update {b : HostEventBroker S E} {i : S} {g : Generator E} (j : S) :
    (Function.update b.generators i g j).running =
      if j = i then g.running else (b.generators j).running := by
  rw [Function.update_apply]
  split_ifs <;> rfl

omit [DecidableEq S] in
theorem Listed.congr {b b' : HostEventBroker S E} (hb : Listed b)
    (hsub : b'.subscribers = b.subscribers) (hc : b'.closed = b.closed)
    (hrun : ∀ i, (b'.generators i).running = (b.generators i).running) : Listed b' where
  nodup := hsub ▸ hb.nodup
  running i hi := (hrun i).trans (hb.running i (hsub ▸ hi))
  all hc' i hi := hsub ▸ hb.all (hc ▸ hc') i (hrun i ▸ hi)

theorem Listed.step {b b' : HostEventBroker S E} {a : Act S E} (hb : Listed b) (h : Step b a b') :
    Listed b' := by
  cases h with
  | @subscribe i hi =>
    have hni : i ∉ b.subscribers := fun hm => by simp [hb.running i hm] at hi
    have hnodup : (b.subscribers ++ [i]).Nodup :=
      (@List.concat_eq_append _ b.subscribers _) ▸ List.Nodup.concat hni hb.nodup
    refine ⟨hnodup, fun j hj => ?_, fun hc j hj => ?_⟩
    · simp only [HostEventBroker.subscribe, running_update]
      split_ifs with hji
      · rfl
      · rcases List.mem_append.mp hj with hj | hj
        · exact hb.running j hj
        · exact absurd (List.mem_singleton.mp hj) hji
    · simp only [HostEventBroker.subscribe, running_update] at hj
      split_ifs at hj with hji
      · exact List.mem_append_right _ (List.mem_singleton.mpr hji)
      · exact List.mem_append_left _ (hb.all hc j hj)
  | @publish event hc =>
    obtain ⟨hsub, hclosed, -⟩ := offerAll_frame event b.subscribers b
    refine hb.congr hsub hclosed fun j => ?_
    rw [generators_offerAll hb.nodup]
    split_ifs <;> rfl
  | ignore => exact hb
  | @take i event q hi hq =>
    refine hb.congr rfl rfl fun j => ?_
    rw [generators_take]
    split_ifs with hji
    · rw [hji]
    · rfl
  | @unsubscribe i hi =>
    refine ⟨hb.nodup.erase i, fun j hj => ?_, fun hc j hj => ?_⟩
    · obtain ⟨hji, hj⟩ := hb.nodup.mem_erase_iff.mp hj
      simp only [HostEventBroker.unsubscribe, running_update, if_neg hji]
      exact hb.running j hj
    · simp only [HostEventBroker.unsubscribe, running_update] at hj
      split_ifs at hj with hji
      exact hb.nodup.mem_erase_iff.mpr ⟨hji, hb.all hc j hj⟩
  | close => exact ⟨List.nodup_nil, by simp [close], by simp [close]⟩

theorem listed_exec {h : List (Act S E)} {b : HostEventBroker S E} (hb : exec h = some b) :
    Listed b := by
  induction h generalizing b with
  | nil =>
    obtain rfl := Option.some.inj hb
    exact ⟨List.nodup_nil, by simp [init], by simp [init]⟩
  | cons a h ih =>
    obtain ⟨b₀, hb₀, hstep⟩ := Option.bind_eq_some_iff.mp hb
    exact (ih hb₀).step (step_cases hstep)

/-! ## One subscriber -/

/-- The untaken events of a subscriber. -/
def untaken (b : HostEventBroker S E) (i : S) : List E :=
  if (b.generators i).running then (b.generators i).queue.items else []

/-- What the broker keeps for `i`, as a mailbox. -/
def mailbox (b : HostEventBroker S E) (i : S) : Mailbox E where
  closed := b.closed
  inbox := if (b.generators i).running then some (b.generators i).queue.items else none
  taken := (b.generators i).yielded

/-- What `i` notices of a step. -/
def signal (i : S) : Act S E → Option (Mailbox.Signal E)
  | .subscribe j => if j = i then some .join else none
  | .publish event => some (.send event)
  | .take j => if j = i then some .take else none
  | .unsubscribe j => if j = i then some .leave else none
  | .close => some .close

/-- What `i` notices of a history. -/
def view (i : S) (h : List (Act S E)) : List (Mailbox.Signal E) := h.filterMap (signal i)

theorem view_cons (i : S) (a : Act S E) (h : List (Act S E)) :
    view i (a :: h) = (signal i a).elim (view i h) (· :: view i h) := by
  rw [view, List.filterMap_cons]
  cases signal i a <;> rfl

omit [DecidableEq S] in
theorem mailbox_congr {b b' : HostEventBroker S E} {i : S} (hc : b'.closed = b.closed)
    (hg : b'.generators i = b.generators i) : b'.mailbox i = b.mailbox i := by
  simp only [mailbox, hc, hg]

theorem mailbox_step {b b' : HostEventBroker S E} {a : Act S E} (hb : Listed b) (h : Step b a b')
    (i : S) : b'.mailbox i = (signal i a).elim (b.mailbox i) ((b.mailbox i).step queueMaxsize) := by
  cases h with
  | @subscribe j hj =>
    by_cases hji : j = i
    · subst hji
      simp [signal, mailbox, HostEventBroker.subscribe, Mailbox.step]
    · rw [show signal i (Act.subscribe j : Act S E) = none from if_neg hji]
      refine mailbox_congr rfl ?_
      simp [HostEventBroker.subscribe, Ne.symm hji]
  | @publish event hc =>
    obtain ⟨-, hclosed, -⟩ := offerAll_frame event b.subscribers b
    have hmem : i ∈ b.subscribers ↔ (b.generators i).running = true :=
      ⟨hb.running i, hb.all hc i⟩
    simp only [signal, Option.elim_some, mailbox, Mailbox.step, hclosed, hc,
      generators_offerAll hb.nodup, hmem]
    cases hrun : (b.generators i).running with
    | true => simp [Queue.push]
    | false => simp [hrun]
  | ignore hc => simp [signal, mailbox, Mailbox.step, hc]
  | @take j event q hj hq =>
    by_cases hji : j = i
    · subst hji
      simp [signal, mailbox, Mailbox.step, hj, hq, next, setQueue]
    · rw [show signal i (Act.take j : Act S E) = none from if_neg hji]
      refine mailbox_congr rfl ?_
      rw [generators_take, if_neg (Ne.symm hji)]
  | @unsubscribe j hj =>
    by_cases hji : j = i
    · subst hji
      simp [signal, mailbox, HostEventBroker.unsubscribe, Mailbox.step]
    · rw [show signal i (Act.unsubscribe j : Act S E) = none from if_neg hji]
      refine mailbox_congr rfl ?_
      simp [HostEventBroker.unsubscribe, Ne.symm hji]
  | close => rfl

/-- **A subscriber's part of a history** is a mailbox alone. -/
theorem mailbox_exec {h : List (Act S E)} {b : HostEventBroker S E} (hb : exec h = some b) (i : S) :
    b.mailbox i = Mailbox.run queueMaxsize (view i h) := by
  induction h generalizing b with
  | nil =>
    obtain rfl := Option.some.inj hb
    rfl
  | cons a h ih =>
    obtain ⟨b₀, hb₀, hstep⟩ := Option.bind_eq_some_iff.mp hb
    rw [mailbox_step (listed_exec hb₀) (step_cases hstep), ih hb₀, view_cons]
    cases signal i a <;> rfl

/-! ## Delivery -/

def isClosed : List (Act S E) → Bool
  | [] => false
  | .close :: _ => true
  | _ :: h => isClosed h

/-- The events published since `i` subscribed, while the broker was open. -/
def publishedSince (i : S) : List (Act S E) → List E
  | [] => []
  | .subscribe j :: h => if j = i then [] else publishedSince i h
  | .publish event :: h =>
    if isClosed h then publishedSince i h else publishedSince i h ++ [event]
  | .take _ :: h | .unsubscribe _ :: h | .close :: h => publishedSince i h

theorem isClosed_view (i : S) (h : List (Act S E)) : Mailbox.isClosed (view i h) = isClosed h := by
  induction h with
  | nil => rfl
  | cons a h ih =>
    rw [view_cons]
    cases a with
    | subscribe j | take j | unsubscribe j =>
      simp only [signal, isClosed, ← ih]
      split_ifs <;> rfl
    | publish event => exact ih
    | close => rfl

theorem since_view (i : S) (h : List (Act S E)) :
    Mailbox.since (view i h) = publishedSince i h := by
  induction h with
  | nil => rfl
  | cons a h ih =>
    rw [view_cons]
    cases a with
    | subscribe j | take j | unsubscribe j =>
      simp only [signal, publishedSince, ← ih]
      split_ifs <;> rfl
    | publish event =>
      simp only [signal, Option.elim_some, Mailbox.since, publishedSince, isClosed_view, ih]
    | close => exact ih

omit [DecidableEq S] in
theorem inbox_of_running {b : HostEventBroker S E} {i : S} (hi : (b.generators i).running = true) :
    (b.mailbox i).inbox = some (b.generators i).queue.items := if_pos hi

omit [DecidableEq S] in
theorem untaken_eq (b : HostEventBroker S E) (i : S) :
    b.untaken i = (b.mailbox i).inbox.getD [] := by
  simp only [mailbox, untaken]
  split_ifs <;> rfl

omit [DecidableEq S] in
theorem received_mailbox (b : HostEventBroker S E) (i : S) :
    (b.mailbox i).received = (b.generators i).yielded ++ b.untaken i := by
  rw [untaken_eq]
  rfl

/-- The events that a step publishes. -/
def newlyPublished (b : HostEventBroker S E) : Act S E → List E
  | .publish event => if b.closed then [] else [event]
  | _ => []

theorem keeps_exec {h : List (Act S E)} {b : HostEventBroker S E} (hb : exec h = some b) (i : S) :
    Mailbox.Keeps queueMaxsize (b.mailbox i) (publishedSince i h) := by
  rw [mailbox_exec hb, ← since_view]
  exact Mailbox.keeps_run (Nat.zero_lt_succ _) _

/-- The events that `publish` was called with, newest first. -/
def publications : List (Act S E) → List E
  | [] => []
  | .publish event :: h => event :: publications h
  | .subscribe _ :: h | .take _ :: h | .unsubscribe _ :: h | .close :: h => publications h

theorem publishedSince_subset (i : S) : ∀ h : List (Act S E), publishedSince i h ⊆ publications h
  | [] => List.Subset.refl _
  | .publish event :: h => by
    have ih := publishedSince_subset i h
    intro e he
    simp only [publishedSince] at he
    split_ifs at he
    · exact List.mem_cons_of_mem _ (ih he)
    · rcases List.mem_append.mp he with he | he
      · exact List.mem_cons_of_mem _ (ih he)
      · exact List.mem_singleton.mp he ▸ List.mem_cons_self
  | .subscribe j :: h => by
    intro e he
    simp only [publishedSince] at he
    split_ifs at he
    · cases he
    · exact publishedSince_subset i h he
  | .take _ :: h | .unsubscribe _ :: h | .close :: h => publishedSince_subset i h

/-- What a subscriber has taken was published. -/
theorem yielded_subset {h : List (Act S E)} {b : HostEventBroker S E} (hb : exec h = some b) (i : S) :
    (b.generators i).yielded ⊆ publications h := by
  have hsub : (b.generators i).yielded.Sublist (b.mailbox i).received := by
    rw [received_mailbox]
    exact List.sublist_append_left _ _
  exact fun e he => publishedSince_subset i h ((hsub.trans (keeps_exec hb i).order).subset he)

theorem queue_eq_rtake {h : List (Act S E)} {b : HostEventBroker S E} (hb : exec h = some b) {i : S}
    (hi : (b.generators i).running = true) : ∃ k ≤ queueMaxsize,
      (b.generators i).queue.items = (publishedSince i h).rtake k := by
  have hsuffix := (keeps_exec hb i).latest _ (inbox_of_running hi)
  exact ⟨_, (b.generators i).queue.le, List.suffix_iff_eq_drop.mp hsuffix⟩

theorem signal_eq_join {i : S} {a : Act S E} (h : signal i a = some .join) : a = .subscribe i := by
  cases a with
  | subscribe j =>
    simp only [signal] at h
    split_ifs at h with hji
    rw [hji]
  | take j | unsubscribe j =>
    simp only [signal] at h
    split_ifs at h
    cases h
  | publish event | close => cases h

theorem signal_eq_send {i : S} {a : Act S E} {event : E} (h : signal i a = some (.send event)) :
    a = .publish event := by
  cases a with
  | subscribe j | take j | unsubscribe j =>
    simp only [signal] at h
    split_ifs at h
    cases h
  | publish event =>
    cases h
    rfl
  | close => cases h

theorem arriving_signal (b : HostEventBroker S E) (i : S) (a : Act S E) :
    (signal i a).elim [] (b.mailbox i).arriving = b.newlyPublished a := by
  cases a with
  | subscribe j | take j | unsubscribe j =>
    simp only [signal]
    split_ifs <;> rfl
  | publish event | close => rfl

/-- A step of the subscriber or of the others, while it listens. -/
theorem received_step {b b' : HostEventBroker S E} {a : Act S E} (hb : Listed b)
    (h : b.step a = some b') {i : S} (hi : (b.generators i).running = true)
    (hi' : (b'.generators i).running = true) :
    (b'.generators i).yielded ++ b'.untaken i =
        (b.generators i).yielded ++ b.untaken i ++ b.newlyPublished a ∨
      (b.untaken i).length = queueMaxsize ∧ (b'.generators i).yielded = (b.generators i).yielded ∧
        ∃ event, a = .publish event ∧ b'.untaken i = (b.untaken i).tail ++ [event] := by
  have hstep := mailbox_step hb (step_cases h) i
  have harr := arriving_signal b i a
  have hq := inbox_of_running hi
  have hq' := inbox_of_running hi'
  rw [← received_mailbox, ← received_mailbox, ← harr]
  cases hx : signal i a with
  | none =>
    rw [hx] at hstep
    exact .inl (hstep ▸ (List.append_nil _).symm)
  | some x =>
    rw [hx] at hstep
    have hjoin : x ≠ .join := by
      rintro rfl
      obtain rfl := signal_eq_join hx
      cases step_cases h with
      | subscribe hrun => rw [hi] at hrun; cases hrun
    have hu : b.untaken i = (b.generators i).queue.items := if_pos hi
    have hu' : b'.untaken i = (b'.generators i).queue.items := if_pos hi'
    have hrec := Mailbox.received_step hq (hstep ▸ hq') hjoin
    rcases hrec with hrec | ⟨hfull, event, rfl, -, hlost, htaken⟩
    · exact .inl (hstep ▸ hrec)
    · have hmax := le_antisymm (b.generators i).queue.le hfull
      refine .inr ⟨hu ▸ hmax, ?_, event, signal_eq_send hx, ?_⟩
      · exact (congrArg Mailbox.taken hstep).trans htaken
      · rw [hu, hu', hlost]

/-- **Delivery**, after any history: the queue of a subscriber is the latest of
    the events published since it subscribed; what it has taken and its queue
    are a part of these, in their order; a further step loses no event of it, or
    the oldest of a full queue; `publish` never raises; and what it has received
    is a matter of its own steps. -/
theorem delivery {h : List (Act S E)} {b : HostEventBroker S E} (hb : exec h = some b) :
    (∀ i, (b.generators i).running = true → ∃ k ≤ queueMaxsize,
      (b.generators i).queue.items = (publishedSince i h).rtake k) ∧
    (∀ i, ((b.generators i).yielded ++ b.untaken i).Sublist (publishedSince i h)) ∧
    (∀ i a b', b.step a = some b' → (b.generators i).running = true →
      (b'.generators i).running = true →
      (b'.generators i).yielded ++ b'.untaken i =
        (b.generators i).yielded ++ b.untaken i ++ b.newlyPublished a ∨
      (b.untaken i).length = queueMaxsize ∧ (b'.generators i).yielded = (b.generators i).yielded ∧
        ∃ event, a = .publish event ∧ b'.untaken i = (b.untaken i).tail ++ [event]) ∧
    (∀ event, ∃ b', (publish event).run b = .ok () b' ∧ b'.dropped = b.dropped) ∧
    (∀ i h' b', exec h' = some b' → view i h' = view i h →
      (b'.generators i).yielded = (b.generators i).yielded ∧ b'.untaken i = b.untaken i) := by
  refine ⟨fun i hi => queue_eq_rtake hb hi, fun i => ?_, fun i a b' h hi hi' =>
    received_step (listed_exec hb) h hi hi', fun event => ⟨_, run_publish event b, ?_⟩,
    fun i h' b' hb' hview => ?_⟩
  · rw [← received_mailbox]
    exact (keeps_exec hb i).order
  · split_ifs
    · rfl
    · exact (offerAll_frame ..).2.2
  · have hmail : b'.mailbox i = b.mailbox i := by rw [mailbox_exec hb, mailbox_exec hb', hview]
    exact ⟨congrArg Mailbox.taken hmail, by rw [untaken_eq, untaken_eq, hmail]⟩

/-- Two subscribers, one of which has taken the first of two events. -/
theorem delivery_two : ∃ b : HostEventBroker Bool ℕ,
    exec [.publish 8, .take true, .publish 7, .subscribe false, .subscribe true] = some b ∧
      (b.generators true).running = true ∧ ∃ k ≤ queueMaxsize,
        (b.generators true).queue.items = List.rtake [7, 8] k := by
  let h : List (Act Bool ℕ) :=
    [.publish 8, .take true, .publish 7, .subscribe false, .subscribe true]
  obtain ⟨b, hb⟩ : ∃ b, exec h = some b := ⟨_, rfl⟩
  have hrun : (b.generators true).running = true := by
    obtain rfl := Option.some.inj (hb : some _ = some b)
    rfl
  exact ⟨b, hb, hrun, (delivery hb).1 true hrun⟩

end HostEventBroker

end SmartClassroom
