/-
  `services/pairing_service.py`: the PIN of a pairing is relayed to Sunshine.

  `pushPin` posts until an outcome is decisive or the attempts are used up, and
  waits twice as long each time.  Besides a `PairingError` it can end with an
  exception that it does not catch (`PinFault`).  `pushPin_spec`: for which inputs
  it is its retry specification.
-/
import Mathlib.Algebra.Order.Field.Basic
import Mathlib.Algebra.Order.Field.Rat
import Mathlib.Data.Nat.Find
import SmartClassroom.Domain

namespace SmartClassroom

/-! ## `pairing_service.py` -/

structure SunshineSettings where
  sunshineConfigPort : ℤ := 47990
  sunshinePairMaxAttempts : ℤ := 5
  sunshinePairBackoffBaseSeconds : PyFloat := .num (1 / 2)

/-- A JSON value. -/
inductive Payload where
  | null
  | bool (b : Bool)
  | num (x : PyFloat)
  | str (s : String)
  | arr (items : List Payload)
  /-- the keys of a `dict` are distinct -/
  | obj (items : List (String × Payload))

/-- The body of a response. -/
inductive Body where
  | json (payload : Payload)
  /-- `resp.json()` raises a `ValueError`: no JSON, or a number with too many digits -/
  | text (payload : Option Payload)
  /-- nested deeper than the interpreter goes, JSON or not -/
  | deep (payload : Option Payload)
  /-- not encoded as its header says -/
  | undecodable

/-- The outcome of a POST: `httpx.TransportError`, or a response. -/
inductive PinOutcome where
  | transportError
  | response (statusCode : ℤ) (body : Body)

inductive PairingErrorKind where
  | hostNotPairable
  | unreachable
  | rejected
deriving DecidableEq

structure PairingError where
  kind : PairingErrorKind
  message : String
  reason : String
  attempts : ℕ := 0
deriving DecidableEq

structure PairingResult where
  attempts : ℕ
deriving DecidableEq

/-- The ends of a relay that no `except` of it expects. -/
inductive PinFault where
  /-- `httpx.InvalidURL` -/
  | invalidUrl
  /-- `UnicodeEncodeError`: a header is not ASCII -/
  | unicodeEncode
  /-- `httpx.DecodingError` -/
  | decoding
  /-- `RecursionError` -/
  | recursion
  /-- `OverflowError` -/
  | overflow
  /-- `ValueError`: the wait is no number -/
  | nanWait
  /-- a wait without end -/
  | endless
deriving DecidableEq

/-- A relay that does not pair. -/
inductive PinFailure where
  | pairing (e : PairingError)
  | escaped (fault : PinFault)
deriving DecidableEq

structure PinRequest where
  url : String
  authorization : String
  pin : String
  name : String
deriving DecidableEq

/-- What the broker does: a POST, a wait, and the end of its own client. -/
inductive PinEvent where
  | post (request : PinRequest)
  | sleep (seconds : PyFloat)
  | aclose
deriving DecidableEq

/-- `_is_transient_status`. -/
def isTransientStatus (statusCode : ℤ) : Bool := decide (500 ≤ statusCode)

/-- A `dict` whose `status` is `True`. -/
def Payload.statusTrue : Payload → Bool
  | .obj items =>
    match items.find? (·.1 == "status") with
    | some (_, .bool true) => true
    | _ => false
  | _ => false

/-- `_sunshine_accepted`. -/
def sunshineAccepted : Body → Except PinFault Bool
  | .json payload => .ok payload.statusTrue
  | .text _ => .ok false
  | .deep _ => .error .recursion
  | .undecodable => .error .decoding

/-- `httpx` reads a body with the response. -/
def Body.decoded : Body → Bool
  | .undecodable => false
  | .json _ | .text _ | .deep _ => true

/-- One attempt: it ends the loop, or leaves the reason to try again. -/
def judge (attempt : ℕ) : PinOutcome → Except PinFailure PairingResult ⊕ String
  | .transportError => .inr "unreachable"
  | .response statusCode body =>
    if body.decoded = false then .inl (.error (.escaped .decoding))
    else if statusCode = 401 then .inl (.error (.pairing {
      kind := .rejected
      message := "Sunshine이 Broker 인증을 거부했습니다 (broker_api_token 불일치)"
      reason := "sunshine_unauthorized", attempts := attempt }))
    else if 200 ≤ statusCode ∧ statusCode < 300 then
      match sunshineAccepted body with
      | .ok accepted => if accepted then .inl (.ok ⟨attempt⟩) else .inr "sunshine_rejected"
      | .error fault => .inl (.error (.escaped fault))
    else if isTransientStatus statusCode then .inr "sunshine_server_error"
    else .inl (.error (.pairing {
      kind := .rejected
      message := s!"Sunshine이 요청을 거부했습니다 (HTTP {statusCode})"
      reason := "sunshine_rejected", attempts := attempt }))

/-- After the last attempt. -/
def exhausted (lastReason : String) (maxAttempts : ℕ) : PairingError :=
  if lastReason = "sunshine_rejected" then {
    kind := .rejected
    message := "Sunshine이 PIN을 받지 못했습니다 (페어링 세션 부재 또는 PIN 불일치)"
    reason := "sunshine_rejected", attempts := maxAttempts }
  else {
    kind := .unreachable
    message := "Sunshine confighttp에 도달하지 못했습니다"
    reason := lastReason, attempts := maxAttempts }

section
variable (refuses : PinRequest → Option PinFault) (request : PinRequest) (base : PyFloat) (maxAttempts : ℕ)
  (outcome : ℕ → PinOutcome)

/-- The numbers from here on are no `float`. -/
def floatBound : ℕ := 2 ^ 1024

/-- `x * 2 ** k` as a `float`: it is exact, or infinite. -/
def PyFloat.scaleb (k : ℕ) : PyFloat → PyFloat
  | .num q => if |q * (2 ^ k : ℕ)| < floatBound then .num (q * (2 ^ k : ℕ)) else .inf (decide (q < 0))
  | x => x

/-- `await asyncio.sleep(seconds)`. -/
def asyncioSleep : PyFloat → List PinEvent × Option PinFault
  | .num s => ([.sleep (.num s)], none)
  | .inf true => ([.sleep (.inf true)], none)
  | .inf false => ([.sleep (.inf false)], some .endless)
  | .nan => ([], some .nanWait)

/-- The wait of `base * (2 ** (attempt - 1))`; an `int` from `floatBound` on cannot
    become a `float`. -/
def backoff (attempt : ℕ) : List PinEvent × Option PinFault :=
  if 1024 < attempt then ([], some .overflow) else asyncioSleep (base.scaleb (attempt - 1))

/-- The wait after an attempt. -/
def pause (attempt : ℕ) : List PinEvent × Option PinFault :=
  if attempt < maxAttempts then backoff base attempt else ([], none)

/-- The loop, with `left` attempts to go; `refuses` is what `httpx` raises for a
    request before it sends anything. -/
def tryFrom (attempt : ℕ) (lastReason : String) : ℕ → List PinEvent × Except PinFailure PairingResult
  | 0 => ([], .error (.pairing (exhausted lastReason maxAttempts)))
  | left + 1 =>
    match refuses request with
    | some fault => ([], .error (.escaped fault))
    | none =>
      match judge attempt (outcome attempt) with
      | .inl result => ([.post request], result)
      | .inr reason =>
        match (pause base maxAttempts attempt).2 with
        | some fault => (.post request :: (pause base maxAttempts attempt).1, .error (.escaped fault))
        | none =>
          let rest := tryFrom (attempt + 1) reason left
          (.post request :: (pause base maxAttempts attempt).1 ++ rest.1, rest.2)

end

def pinRequest (ip token pin : String) (reservationId : ℤ) (settings : SunshineSettings) : PinRequest where
  url := s!"https://{ip}:{settings.sunshineConfigPort}/api/pin"
  authorization := s!"Bearer {token}"
  pin := pin
  name := s!"sc-res-{reservationId}"

/-- What `finally` does; a wait without end does not come to it. -/
def closing (ownsClient : Bool) (result : Except PinFailure PairingResult) : List PinEvent :=
  if ownsClient ∧ result ≠ .error (.escaped .endless) then [.aclose] else []

/-- The client is the broker's own if none is given. -/
def pushPin (host : Host) (sunshineBrokerToken : Option String) (pin : String) (reservationId : ℤ)
    (settings : SunshineSettings) (ownsClient : Bool) (refuses : PinRequest → Option PinFault) (outcome : ℕ → PinOutcome) :
    List PinEvent × Except PinFailure PairingResult :=
  match host.ipAddress, sunshineBrokerToken with
  | some ip, some token =>
    if ip = "" ∨ token = "" then notPairable
    else
      let maxAttempts := (max 1 settings.sunshinePairMaxAttempts).toNat
      let out := tryFrom refuses (pinRequest ip token pin reservationId settings) settings.sunshinePairBackoffBaseSeconds
        maxAttempts outcome 1 "unreachable" maxAttempts
      (out.1 ++ closing ownsClient out.2, out.2)
  | _, _ => notPairable
where
  notPairable := ([], .error (.pairing {
    kind := .hostNotPairable
    message := "호스트에 IP 또는 Sunshine 페어링 토큰이 등록되지 않았습니다"
    reason := "missing_ip_or_token" }))

/-! ## Outcomes -/

/-- The JSON value of a body. -/
def Body.payload : Body → Option Payload
  | .json payload => some payload
  | .text payload | .deep payload => payload
  | .undecodable => none

/-- `resp.json()` gives its JSON value, or an error that stands for a refusal. -/
def Body.parsed : Body → Prop
  | .json _ => True
  | .text payload => payload.any Payload.statusTrue = false
  | .deep _ | .undecodable => False

/-- A 2xx answer. -/
def PinOutcome.success : PinOutcome → Prop
  | .transportError => False
  | .response statusCode _ => 200 ≤ statusCode ∧ statusCode < 300

/-- A 2xx answer with status true. -/
def PinOutcome.accepts : PinOutcome → Prop
  | .transportError => False
  | .response statusCode body => 200 ≤ statusCode ∧ statusCode < 300 ∧ body.payload.any Payload.statusTrue = true

/-- No answer to this outcome is worth another attempt. -/
def PinOutcome.decisive : PinOutcome → Prop
  | .transportError => False
  | .response statusCode body => (PinOutcome.response statusCode body).accepts ∨ statusCode = 401 ∨
      ¬(200 ≤ statusCode ∧ statusCode < 300) ∧ statusCode < 500

/-- Why the outcome did not pair. -/
def PinOutcome.reason : PinOutcome → String
  | .transportError => "unreachable"
  | .response statusCode _ => if 200 ≤ statusCode ∧ statusCode < 300 then "sunshine_rejected" else "sunshine_server_error"

/-- The body can be decoded and, in a 2xx answer, parsed. -/
def PinOutcome.readable : PinOutcome → Prop
  | .transportError => True
  | .response statusCode body => body.decoded = true ∧ (200 ≤ statusCode ∧ statusCode < 300 → body.parsed)

/-- What a decisive outcome decides. -/
inductive Decides (k : ℕ) : PinOutcome → Except PinFailure PairingResult → Prop
  | accepted {o : PinOutcome} : o.accepts → Decides k o (.ok ⟨k⟩)
  | unauthorized {body : Body} {message : String} :
    Decides k (.response 401 body) (.error (.pairing ⟨.rejected, message, "sunshine_unauthorized", k⟩))
  | rejected {statusCode : ℤ} {body : Body} {message : String} : statusCode ≠ 401 →
    ¬(200 ≤ statusCode ∧ statusCode < 300) → statusCode < 500 →
    Decides k (.response statusCode body) (.error (.pairing ⟨.rejected, message, "sunshine_rejected", k⟩))

/-- What is left after the last of `n` attempts, which was not decisive. -/
def Exhausts (n : ℕ) (o : PinOutcome) (result : Except PinFailure PairingResult) : Prop :=
  o.success ∧ (∃ message, result = .error (.pairing ⟨.rejected, message, "sunshine_rejected", n⟩)) ∨
    ¬o.success ∧ ∃ message, result = .error (.pairing ⟨.unreachable, message, o.reason, n⟩)

section
variable {k : ℕ} {o : PinOutcome}

theorem PinOutcome.accepts.decisive (h : o.accepts) : o.decisive := by
  cases o with
  | transportError => exact h
  | response => exact .inl h

/-- What cannot be read ends the loop, or an answer that accepts is taken for a
    refusal. -/
theorem judge_of_unreadable (h : ¬o.readable) :
    (∃ fault, judge k o = .inl (.error (.escaped fault))) ∨ o.accepts ∧ judge k o = .inr "sunshine_rejected" := by
  cases o with
  | transportError => exact absurd trivial h
  | response statusCode body =>
    simp only [judge]
    by_cases hdec : body.decoded = false
    · exact .inl ⟨_, if_pos hdec⟩
    · rw [if_neg hdec]
      obtain ⟨h2xx, hparsed⟩ : (200 ≤ statusCode ∧ statusCode < 300) ∧ ¬body.parsed := by
        simpa [PinOutcome.readable, hdec, and_assoc] using h
      rw [if_neg (by omega), if_pos h2xx]
      cases body with
      | json => exact absurd trivial hparsed
      | text payload => exact .inr ⟨⟨h2xx.1, h2xx.2, Bool.eq_true_of_not_eq_false hparsed⟩, rfl⟩
      | deep => exact .inl ⟨_, rfl⟩
      | undecodable => exact absurd rfl hdec

theorem sunshineAccepted_of_parsed {body : Body} (h : body.parsed) :
    sunshineAccepted body = .ok (body.payload.any Payload.statusTrue) := by
  cases body with
  | json => rfl
  | text => exact congrArg _ h.symm
  | deep | undecodable => exact absurd h id

theorem judge_of_decisive (hr : o.readable) (h : o.decisive) : ∃ result, judge k o = .inl result ∧ Decides k o result := by
  cases o with
  | transportError => exact absurd h id
  | response statusCode body =>
    simp only [judge, hr.1, Bool.true_eq_false, if_false]
    by_cases h401 : statusCode = 401
    · rw [if_pos h401]
      subst h401
      exact ⟨_, rfl, .unauthorized⟩
    · rw [if_neg h401]
      rcases h with h | h | ⟨h2xx, h500⟩
      · rw [if_pos ⟨h.1, h.2.1⟩, sunshineAccepted_of_parsed (hr.2 ⟨h.1, h.2.1⟩), h.2.2]
        exact ⟨_, rfl, .accepted h⟩
      · exact absurd h h401
      · rw [if_neg h2xx, if_neg (by simpa [isTransientStatus] using h500)]
        exact ⟨_, rfl, .rejected h401 h2xx h500⟩

theorem judge_of_not_decisive (hr : o.readable) (h : ¬o.decisive) : judge k o = .inr o.reason := by
  cases o with
  | transportError => rfl
  | response statusCode body =>
    simp only [PinOutcome.decisive, PinOutcome.accepts, not_or] at h
    obtain ⟨hacc, h401, h500⟩ := h
    simp only [judge, hr.1, Bool.true_eq_false, if_false, if_neg h401, PinOutcome.reason]
    by_cases h2xx : 200 ≤ statusCode ∧ statusCode < 300
    · have hfalse : body.payload.any Payload.statusTrue = false :=
        Bool.eq_false_iff.mpr fun h => hacc ⟨h2xx.1, h2xx.2, h⟩
      rw [if_pos h2xx, if_pos h2xx, sunshineAccepted_of_parsed (hr.2 h2xx), hfalse]
      rfl
    · rw [if_neg h2xx, if_neg h2xx, if_pos]
      simpa [isTransientStatus] using not_and.1 h500 h2xx

/-- After the last attempt, which was not decisive. -/
theorem exhausts_exhausted (o : PinOutcome) (n : ℕ) : Exhausts n o (.error (.pairing (exhausted o.reason n))) := by
  cases o with
  | transportError => exact .inr ⟨id, _, rfl⟩
  | response statusCode body =>
    by_cases h2xx : 200 ≤ statusCode ∧ statusCode < 300
    · refine .inl ⟨h2xx, ?_⟩
      simp only [PinOutcome.reason, if_pos h2xx]
      exact ⟨_, rfl⟩
    · refine .inr ⟨h2xx, ?_⟩
      simp only [PinOutcome.reason, if_neg h2xx]
      exact ⟨_, rfl⟩

theorem Decides.ne_escaped {result : Except PinFailure PairingResult} (h : Decides k o result) (fault : PinFault) :
    result ≠ .error (.escaped fault) := by
  cases h <;> nofun

theorem Decides.eq_ok {result : Except PinFailure PairingResult} (h : Decides k o result) (hacc : o.accepts) :
    result = .ok ⟨k⟩ := by
  cases h with
  | accepted => rfl
  | unauthorized => exact absurd hacc.2.1 (by decide)
  | rejected _ h2xx => exact absurd ⟨hacc.1, hacc.2.1⟩ h2xx

theorem Exhausts.ne_escaped {result : Except PinFailure PairingResult} (h : Exhausts k o result) (fault : PinFault) :
    result ≠ .error (.escaped fault) := by
  rcases h with ⟨-, message, rfl⟩ | ⟨-, message, rfl⟩ <;> nofun

end

/-! ## Attempts -/

/-- `x * 2 ** k`, of whatever size. -/
def PyFloat.doubled (k : ℕ) : PyFloat → PyFloat
  | .num q => .num (q * (2 ^ k : ℕ))
  | x => x

/-- A POST and a wait for each of the attempts, then one POST. -/
def posts (request : PinRequest) (base : PyFloat) (first count : ℕ) : List PinEvent :=
  (List.range' first count).flatMap (fun i => [.post request, .sleep (base.doubled (i - 1))]) ++ [.post request]

section
variable {request : PinRequest} {base : PyFloat}

theorem posts_succ (request : PinRequest) (base : PyFloat) (first count : ℕ) :
    posts request base first (count + 1) =
      .post request :: .sleep (base.doubled (first - 1)) :: posts request base (first + 1) count := by
  simp [posts, List.range'_succ]

theorem countP_posts (request : PinRequest) (base : PyFloat) (count : ℕ) : ∀ first,
    (posts request base first count).countP (· = .post request) = count + 1 := by
  induction count with
  | zero => simp [posts]
  | succ count ih =>
    intro first
    rw [posts_succ]
    simp [ih]

/-- The first wait. -/
theorem wait_of_posts {first count : ℕ} {x : PyFloat} {rest : List PinEvent}
    (h : posts request base first count = .post request :: .sleep x :: rest) : x = base.doubled (first - 1) := by
  cases count with
  | zero => simp [posts] at h
  | succ count =>
    rw [posts_succ] at h
    injection h with _ h
    injection h with h _
    injection h with h
    exact h.symm

/-- The wait after attempt `i` is a `float`, and ends. -/
def FiniteWait (i : ℕ) : PyFloat → Prop
  | .num q => i ≤ 1024 ∧ |q * (2 ^ (i - 1) : ℕ)| < floatBound
  | .inf negative => i ≤ 1024 ∧ negative = true
  | .nan => False

theorem backoff_of_finiteWait {i : ℕ} (h : FiniteWait i base) :
    backoff base i = ([.sleep (base.doubled (i - 1))], none) := by
  cases base with
  | num q => simp only [backoff, if_neg (not_lt.mpr h.1), PyFloat.scaleb, if_pos h.2, asyncioSleep, PyFloat.doubled]
  | inf negative =>
    obtain ⟨hi, rfl⟩ := h
    rw [backoff, if_neg (not_lt.mpr hi)]
    rfl
  | nan => exact absurd h id

/-- Another wait ends the relay, or is not the one that was due. -/
theorem backoff_of_not_finiteWait {i : ℕ} (h : ¬FiniteWait i base) : (∃ fault, (backoff base i).2 = some fault) ∨
    ∃ x, backoff base i = ([.sleep x], none) ∧ x ≠ base.doubled (i - 1) := by
  unfold backoff
  by_cases hi : 1024 < i
  · rw [if_pos hi]
    exact .inl ⟨_, rfl⟩
  · rw [if_neg hi]
    cases base with
    | num q =>
      rw [PyFloat.scaleb, if_neg fun habs => h ⟨not_lt.mp hi, habs⟩]
      by_cases hneg : q < 0
      · rw [decide_eq_true hneg]
        exact .inr ⟨_, rfl, by simp [PyFloat.doubled]⟩
      · rw [decide_eq_false hneg]
        exact .inl ⟨_, rfl⟩
    | inf negative =>
      have hpos : negative = false := Bool.eq_false_iff.mpr fun hneg => h ⟨not_lt.mp hi, hneg⟩
      rw [hpos]
      exact .inl ⟨_, rfl⟩
    | nan => exact .inl ⟨_, rfl⟩

/-- A wait that ends is one. -/
theorem backoff_ne_nil {i : ℕ} (h : (backoff base i).2 = none) : (backoff base i).1 ≠ [] := by
  by_cases hwait : FiniteWait i base
  · simp [backoff_of_finiteWait hwait]
  · rcases backoff_of_not_finiteWait hwait with ⟨fault, hfault⟩ | ⟨x, heq, -⟩
    · rw [hfault] at h
      cases h
    · simp [heq]

end

/-! ## The specification -/

section
variable {request : PinRequest} {base : PyFloat} {n : ℕ} {outcome : ℕ → PinOutcome} {first : ℕ}
  {out : List PinEvent × Except PinFailure PairingResult}

/-- `out` retries from the attempt `first` to the first decisive outcome, or to the
    attempt `n`. -/
def Retries (request : PinRequest) (base : PyFloat) (n : ℕ) (outcome : ℕ → PinOutcome) (first : ℕ)
    (out : List PinEvent × Except PinFailure PairingResult) : Prop :=
  (∀ k, first ≤ k → k ≤ n → (outcome k).decisive → (∀ i, first ≤ i → i < k → ¬(outcome i).decisive) →
    out.1 = posts request base first (k - first) ∧ Decides k (outcome k) out.2) ∧
  ((∀ i, first ≤ i → i ≤ n → ¬(outcome i).decisive) →
    out.1 = posts request base first (n - first) ∧ Exhausts n (outcome n) out.2)

/-- Up to the first decisive outcome, every outcome can be read, and every wait
    before another attempt ends. -/
def Undisturbed (base : PyFloat) (n : ℕ) (outcome : ℕ → PinOutcome) (first : ℕ) : Prop :=
  ∀ i, first ≤ i → i ≤ n → (∀ j, first ≤ j → j < i → ¬(outcome j).decisive) →
    (outcome i).readable ∧ (i < n → ¬(outcome i).decisive → FiniteWait i base)

theorem Undisturbed.readable (h : Undisturbed base n outcome first) (hn : first ≤ n) : (outcome first).readable :=
  (h first le_rfl hn fun _ hj hlt => absurd hj (not_le.mpr hlt)).1

theorem exists_decisive_or (outcome : ℕ → PinOutcome) (first n : ℕ) :
    (∃ k, first ≤ k ∧ k ≤ n ∧ (outcome k).decisive ∧ ∀ i, first ≤ i → i < k → ¬(outcome i).decisive) ∨
      ∀ i, first ≤ i → i ≤ n → ¬(outcome i).decisive := by
  classical
  by_cases h : ∃ k, first ≤ k ∧ k ≤ n ∧ (outcome k).decisive
  · obtain ⟨hfirst, hn, hdec⟩ := Nat.find_spec h
    refine .inl ⟨Nat.find h, hfirst, hn, hdec, fun i hi hlt hi' => ?_⟩
    exact Nat.find_min h hlt ⟨hi, hlt.le.trans hn, hi'⟩
  · exact .inr fun i hi hn hdec => h ⟨i, hi, hn, hdec⟩

/-- A relay that retries ends in no other way, and waits as it should. -/
theorem Retries.fits (h : Retries request base n outcome first out) : (∀ fault, out.2 ≠ .error (.escaped fault)) ∧
    ∀ x rest, out.1 = .post request :: .sleep x :: rest → x = base.doubled (first - 1) := by
  rcases exists_decisive_or outcome first n with ⟨k, hk, hkn, hdec, hbefore⟩ | hnone
  · obtain ⟨hevents, hdecides⟩ := h.1 k hk hkn hdec hbefore
    rw [hevents]
    exact ⟨hdecides.ne_escaped, fun _ _ => wait_of_posts⟩
  · obtain ⟨hevents, hexhausts⟩ := h.2 hnone
    rw [hevents]
    exact ⟨hexhausts.ne_escaped, fun _ _ => wait_of_posts⟩

theorem retries_of_decisive (hn : first ≤ n) (hdec : (outcome first).decisive) (hout : out.1 = [.post request])
    (hdecides : Decides first (outcome first) out.2) : Retries request base n outcome first out := by
  refine ⟨fun k hk hkn hk' hbefore => ?_, fun hnone => absurd hdec (hnone first le_rfl hn)⟩
  obtain rfl : k = first := hk.antisymm' (not_lt.mp fun hlt => hbefore first le_rfl hlt hdec)
  rw [Nat.sub_self, hout]
  exact ⟨rfl, hdecides⟩

theorem retries_of_last (hnot : ¬(outcome n).decisive) (hout : out.1 = [.post request])
    (hexhausts : Exhausts n (outcome n) out.2) : Retries request base n outcome n out := by
  refine ⟨fun k hk hkn hk' _ => ?_, fun _ => ?_⟩
  · obtain rfl : n = k := hk.antisymm hkn
    exact absurd hk' hnot
  · rw [Nat.sub_self, hout]
    exact ⟨rfl, hexhausts⟩

/-- An attempt that is not decisive, and the wait after it. -/
theorem retries_succ_iff (hn : first < n) (hnot : ¬(outcome first).decisive) (events : List PinEvent)
    (result : Except PinFailure PairingResult) :
    Retries request base n outcome first
        (.post request :: .sleep (base.doubled (first - 1)) :: events, result) ↔
      Retries request base n outcome (first + 1) (events, result) := by
  have hposts {k : ℕ} (hk : first + 1 ≤ k) : posts request base first (k - first) =
      .post request :: .sleep (base.doubled (first - 1)) :: posts request base (first + 1) (k - (first + 1)) := by
    rw [← posts_succ]
    congr 1
    omega
  have hafter {P : ℕ → Prop} {m : ℕ} (hfirst : P first) : (∀ i, first + 1 ≤ i → i < m → P i) ↔
      ∀ i, first ≤ i → i < m → P i := by
    refine ⟨fun h i hi hm => ?_, fun h i hi hm => h i (by omega) hm⟩
    rcases hi.eq_or_lt with rfl | hlt
    · exact hfirst
    · exact h i hlt hm
  have hnone := @hafter (fun i => ¬(outcome i).decisive) (n + 1) hnot
  simp only [Nat.lt_succ_iff] at hnone
  constructor
  · rintro ⟨hdec, hrest⟩
    refine ⟨fun k hk hkn hk' hbefore => ?_, fun h => ?_⟩
    · simpa [hposts hk] using hdec k (by omega) hkn hk' ((hafter hnot).1 hbefore)
    · simpa [hposts hn] using hrest (hnone.1 h)
  · rintro ⟨hdec, hrest⟩
    refine ⟨fun k hk hkn hk' hbefore => ?_, fun h => ?_⟩
    · have hlt : first + 1 ≤ k := lt_of_le_of_ne hk fun heq => hnot (heq ▸ hk')
      simpa [hposts hlt] using hdec k hlt hkn hk' ((hafter hnot).2 hbefore)
    · simpa [hposts hn] using hrest (hnone.2 h)

theorem undisturbed_of_decisive (hdec : (outcome first).decisive) (hr : (outcome first).readable) :
    Undisturbed base n outcome first := by
  intro i hi _ hbefore
  obtain rfl : i = first := hi.antisymm' (not_lt.mp fun hlt => hbefore first le_rfl hlt hdec)
  exact ⟨hr, fun _ h => absurd hdec h⟩

theorem undisturbed_succ_iff (hn : first < n) (hnot : ¬(outcome first).decisive) :
    Undisturbed base n outcome first ↔
      ((outcome first).readable ∧ FiniteWait first base) ∧ Undisturbed base n outcome (first + 1) := by
  constructor
  · intro h
    obtain ⟨hr, hwait⟩ := h first le_rfl hn.le fun j hj hlt => absurd hj (by omega)
    refine ⟨⟨hr, hwait hn hnot⟩, fun i hi hin hbefore => h i (by omega) hin fun j hj hlt => ?_⟩
    rcases hj.eq_or_lt with rfl | hj'
    · exact hnot
    · exact hbefore j hj' hlt
  · rintro ⟨⟨hr, hwait⟩, h⟩ i hi hin hbefore
    rcases hi.eq_or_lt with rfl | hi'
    · exact ⟨hr, fun _ _ => hwait⟩
    · exact h i hi' hin fun j hj => hbefore j (by omega)

/-- A loop that cannot read an outcome does not retry. -/
theorem not_retries_of_unreadable {refuses : PinRequest → Option PinFault} (hsends : refuses request = none)
    (hr : ¬(outcome first).readable) (left : ℕ) (reason : String) (hlast : first + left = n) :
    ¬Retries request base n outcome first (tryFrom refuses request base n outcome first reason (left + 1)) := by
  intro h
  rcases judge_of_unreadable (k := first) hr with ⟨fault, hjudge⟩ | ⟨hacc, hjudge⟩
  · rw [tryFrom, hsends, hjudge] at h
    exact h.fits.1 fault rfl
  · -- the outcome is decisive, and the loop goes on
    obtain ⟨hevents, hdecides⟩ := h.1 first le_rfl (by omega) hacc.decisive fun i hi hlt => absurd hi (by omega)
    have hok := hdecides.eq_ok hacc
    rw [tryFrom, hsends, hjudge] at hevents hok
    cases left with
    | zero =>
      simp only [pause, if_neg (show ¬first < n by omega)] at hok
      cases hok
    | succ left =>
      simp only [pause, if_pos (show first < n by omega)] at hevents hok
      cases hend : (backoff base first).2 with
      | some fault =>
        rw [hend] at hok
        cases hok
      | none =>
        rw [hend, Nat.sub_self] at hevents
        simp [posts, backoff_ne_nil hend] at hevents

/-- **The loop retries** exactly where nothing disturbs it. -/
theorem retries_tryFrom_iff {refuses : PinRequest → Option PinFault} (hsends : refuses request = none) :
    ∀ (left first : ℕ) (reason : String), first + left = n →
      (Retries request base n outcome first (tryFrom refuses request base n outcome first reason (left + 1)) ↔
        Undisturbed base n outcome first) := by
  intro left
  induction left with
  | zero =>
    intro first reason hlast
    by_cases hr : (outcome first).readable
    swap
    · exact iff_of_false (not_retries_of_unreadable hsends hr 0 reason hlast) fun h => hr (h.readable hlast.le)
    obtain rfl : first = n := hlast
    refine iff_of_true ?_ fun i hi hin _ => ?_
    · by_cases hdec : (outcome first).decisive
      · obtain ⟨result, hjudge, hdecides⟩ := judge_of_decisive (k := first) hr hdec
        simp only [tryFrom, hsends, hjudge]
        exact retries_of_decisive le_rfl hdec rfl hdecides
      · simp only [tryFrom, hsends, judge_of_not_decisive hr hdec, pause, if_neg (lt_irrefl first)]
        exact retries_of_last hdec rfl (exhausts_exhausted _ _)
    · obtain rfl : first = i := hi.antisymm hin
      exact ⟨hr, fun h => absurd h (lt_irrefl _)⟩
  | succ left ih =>
    intro first reason hlast
    have hn : first < n := by omega
    by_cases hr : (outcome first).readable
    swap
    · exact iff_of_false (not_retries_of_unreadable hsends hr (left + 1) reason hlast) fun h => hr (h.readable hn.le)
    by_cases hdec : (outcome first).decisive
    · obtain ⟨result, hjudge, hdecides⟩ := judge_of_decisive (k := first) hr hdec
      rw [tryFrom, hsends, hjudge]
      exact iff_of_true (retries_of_decisive hn.le hdec rfl hdecides) (undisturbed_of_decisive hdec hr)
    · have hjudge := judge_of_not_decisive (k := first) hr hdec
      rw [undisturbed_succ_iff hn hdec, tryFrom, hsends, hjudge]
      simp only [pause, if_pos hn]
      by_cases hwait : FiniteWait first base
      · simp only [backoff_of_finiteWait hwait, List.cons_append, List.nil_append]
        rw [retries_succ_iff hn hdec, and_iff_right ⟨hr, hwait⟩]
        exact ih (first + 1) (outcome first).reason (by omega)
      · refine iff_of_false (fun h => ?_) fun h => hwait h.1.2
        rcases backoff_of_not_finiteWait hwait with ⟨fault, hfault⟩ | ⟨x, heq, hne⟩
        · rw [hfault] at h
          exact h.fits.1 fault rfl
        · rw [heq] at h
          exact hne (h.fits.2 x _ rfl)

end

/-! ## `push_pin` -/

section
variable {post : PinRequest} {base : PyFloat} {n : ℕ} {outcome : ℕ → PinOutcome} {ownsClient : Bool}

/-- **The retry specification**: one POST for each attempt up to the first decisive
    outcome or the `n`-th, with the waits between them, and then what the last
    outcome decides. -/
def RetrySpec (post : PinRequest) (base : PyFloat) (n : ℕ) (ownsClient : Bool) (outcome : ℕ → PinOutcome)
    (out : List PinEvent × Except PinFailure PairingResult) : Prop :=
  (∀ k, 1 ≤ k → k ≤ n → (outcome k).decisive → (∀ i, 1 ≤ i → i < k → ¬(outcome i).decisive) →
    out.1 = posts post base 1 (k - 1) ++ (if ownsClient then [.aclose] else []) ∧
      out.1.countP (· = .post post) = k ∧ Decides k (outcome k) out.2) ∧
  ((∀ i, 1 ≤ i → i ≤ n → ¬(outcome i).decisive) →
    out.1 = posts post base 1 (n - 1) ++ (if ownsClient then [.aclose] else []) ∧
      out.1.countP (· = .post post) = n ∧ Exhausts n (outcome n) out.2)

theorem RetrySpec.ne_escaped {out : List PinEvent × Except PinFailure PairingResult}
    (h : RetrySpec post base n ownsClient outcome out) (fault : PinFault) : out.2 ≠ .error (.escaped fault) := by
  rcases exists_decisive_or outcome 1 n with ⟨k, hk, hkn, hdec, hbefore⟩ | hnone
  · exact (h.1 k hk hkn hdec hbefore).2.2.ne_escaped fault
  · exact (h.2 hnone).2.2.ne_escaped fault

/-- The end of the client aside, it is what the loop does. -/
theorem retrySpec_iff (hn : 1 ≤ n) (events : List PinEvent) (result : Except PinFailure PairingResult) :
    RetrySpec post base n ownsClient outcome (events ++ (if ownsClient then [.aclose] else []), result) ↔
      Retries post base n outcome 1 (events, result) := by
  have hevents {m : ℕ} (hm : 1 ≤ m) {P : Prop} : (events ++ (if ownsClient then [PinEvent.aclose] else []) =
      posts post base 1 (m - 1) ++ (if ownsClient then [.aclose] else []) ∧
        (events ++ (if ownsClient then [PinEvent.aclose] else [])).countP (· = .post post) = m ∧ P) ↔
      events = posts post base 1 (m - 1) ∧ P := by
    rw [List.append_left_inj]
    refine and_congr_right fun heq => and_iff_right ?_
    have hcount := countP_posts post base (m - 1) 1
    rw [← heq] at hcount
    rw [List.countP_append, hcount]
    cases ownsClient <;> simp <;> omega
  refine and_congr (forall_congr' fun k => forall_congr' fun hk => ?_) (forall_congr' fun _ => hevents hn)
  exact forall_congr' fun _ => forall_congr' fun _ => forall_congr' fun _ => hevents hk

/-- **The PIN relay is its retry specification** exactly where `httpx` takes the
    request, and no outcome or wait on the way disturbs the loop. -/
theorem pushPin_spec {host : Host} {ip token : String} (hip : host.ipAddress = some ip) (hip' : ip ≠ "")
    (htoken : token ≠ "") (pin : String) (reservationId : ℤ) (settings : SunshineSettings) (ownsClient : Bool)
    (refuses : PinRequest → Option PinFault) (outcome : ℕ → PinOutcome) :
    let n := (max 1 settings.sunshinePairMaxAttempts).toNat
    let post := pinRequest ip token pin reservationId settings
    let base := settings.sunshinePairBackoffBaseSeconds
    RetrySpec post base n ownsClient outcome
        (pushPin host (some token) pin reservationId settings ownsClient refuses outcome) ↔
      refuses post = none ∧ Undisturbed base n outcome 1 := by
  intro n post base
  have hn : 1 ≤ n := by omega
  have hout : pushPin host (some token) pin reservationId settings ownsClient refuses outcome =
      ((tryFrom refuses post base n outcome 1 "unreachable" n).1 ++
        closing ownsClient (tryFrom refuses post base n outcome 1 "unreachable" n).2,
      (tryFrom refuses post base n outcome 1 "unreachable" n).2) := by
    simp only [pushPin, hip, hip', htoken, or_self, if_false]
    rfl
  rw [hout]
  cases hsends : refuses post with
  | some fault =>
    have hloop : tryFrom refuses post base n outcome 1 "unreachable" n = ([], .error (.escaped fault)) := by
      rw [← Nat.sub_add_cancel hn, tryFrom, hsends]
    refine iff_of_false (fun h => h.ne_escaped fault ?_) nofun
    rw [hloop]
  | none =>
    have hloop := @retries_tryFrom_iff post base n outcome refuses hsends (n - 1) 1 "unreachable" (by omega)
    rw [Nat.sub_add_cancel hn] at hloop
    rw [and_iff_right rfl, ← hloop]
    by_cases hend : (tryFrom refuses post base n outcome 1 "unreachable" n).2 = .error (.escaped .endless)
    · exact iff_of_false (fun h => h.ne_escaped _ hend) fun h => h.fits.1 _ hend
    · have hclosing : closing ownsClient (tryFrom refuses post base n outcome 1 "unreachable" n).2 =
          if ownsClient then [.aclose] else [] := by simp [closing, hend]
      rw [hclosing]
      exact retrySpec_iff hn _ _

end

/-- With the default settings all the waits up to the 1024th end. -/
theorem finiteWait_default {i : ℕ} (hi : i ≤ 1024) :
    FiniteWait i ({} : SunshineSettings).sunshinePairBackoffBaseSeconds := by
  refine ⟨hi, ?_⟩
  have hpow : 2 ^ (i - 1) < floatBound := by
    unfold floatBound
    exact pow_lt_pow_right₀ Nat.one_lt_two (by omega)
  have hnonneg : (0 : ℚ) ≤ (2 ^ (i - 1) : ℕ) := Nat.cast_nonneg _
  have hhalf : (1 / 2 : ℚ) * (2 ^ (i - 1) : ℕ) = (2 ^ (i - 1) : ℕ) / 2 := one_div_mul_eq_div _ _
  rw [hhalf, abs_of_nonneg (div_nonneg hnonneg zero_le_two)]
  exact (half_le_self hnonneg).trans_lt (Nat.cast_lt.mpr hpow)

/-- Two transient failures, then Sunshine accepts. -/
def slowPairing : ℕ → PinOutcome
  | 1 => .transportError
  | 2 => .response 200 (.json (.obj [("status", .bool false)]))
  | _ => .response 200 (.json (.obj [("status", .bool true)]))

def pairablePc (ip : String) : Host := ⟨1, "pc-01", "PC 1", none, some ip, 47984, .idle, none⟩

/-- The third POST pairs. -/
theorem pushPin_spec_slow : Decides 3 (slowPairing 3)
    (pushPin (pairablePc "10.0.0.1") (some "secret") "1234" 1 {} true (fun _ => none) slowPairing).2 := by
  have hnot : ∀ i, 1 ≤ i → i < 3 → ¬(slowPairing i).decisive := by
    intro i h1 h3
    obtain rfl | rfl : i = 1 ∨ i = 2 := by omega
    · exact id
    · rintro (h | h | h)
      · exact absurd h.2.2 (by decide)
      · exact absurd h (by decide)
      · exact absurd h (by decide)
  have hthird : (slowPairing 3).decisive := .inl ⟨by decide, by decide, rfl⟩
  refine (((pushPin_spec rfl (by decide) (by decide) "1234" 1 {} true (fun _ => none) slowPairing).2
    ⟨rfl, fun i hi hin hbefore => ?_⟩).1 3 (by decide) (by decide) hthird hnot).2.2
  obtain rfl | rfl | rfl : i = 1 ∨ i = 2 ∨ i = 3 := by
    have hle : i ≤ 3 := not_lt.mp fun hlt => hbefore 3 (by decide) hlt hthird
    omega
  · exact ⟨trivial, fun _ _ => finiteWait_default (by decide)⟩
  · exact ⟨⟨rfl, fun _ => trivial⟩, fun _ _ => finiteWait_default (by decide)⟩
  · exact ⟨⟨rfl, fun _ => trivial⟩, fun _ h => absurd hthird h⟩

/-- An IPv6 address without brackets is no host of a URL, as `httpx` reads it. -/
def refusesBareIPv6 (request : PinRequest) : Option PinFault :=
  if request.url = "https://fe80::1:47990/api/pin" then some .invalidUrl else none

/-- A PC with an IPv6 address gets no POST; and a 2xx answer that nests too deep is
    not tried again. -/
theorem not_retrySpec :
    ¬RetrySpec (pinRequest "fe80::1" "secret" "1234" 1 {}) (.num (1 / 2)) 5 true (fun _ => .transportError)
      (pushPin (pairablePc "fe80::1") (some "secret") "1234" 1 {} true refusesBareIPv6 fun _ => .transportError) ∧
    ¬RetrySpec (pinRequest "10.0.0.1" "secret" "1234" 1 {}) (.num (1 / 2)) 5 true (fun _ => .response 200 (.deep none))
      (pushPin (pairablePc "10.0.0.1") (some "secret") "1234" 1 {} true (fun _ => none)
        fun _ => .response 200 (.deep none)) := by
  constructor
  · intro h
    exact absurd (h.ne_escaped .invalidUrl) (not_not.mpr (by decide))
  · intro h
    exact absurd (h.ne_escaped .recursion) (not_not.mpr (by decide))

end SmartClassroom
