/-
  The `moonlight://` URL between the web front end and the desktop client.

  * `buildMoonlightUrl` writes it (`frontend/src/lib/moonlight.ts`);
  * `scT13DispatchMoonlightUrl` reads it in a running client, and
    `scT13ExpandMoonlightConnectUrl` with `ConnectCommandLineParser` in a fresh
    one (`app/main.cpp`, `app/cli/commandlineparser.cpp`); both hand what they
    have read to `ComputerManager::stashPendingConnect`.

  What Qt does is `QtUrl`, and what the client relies on `QtUrl.Documented`.
  Only the broker URL is read fully decoded, so both paths hand over what the
  page sent exactly when the address has no `:` and no `/`
  (`roundTrip_iff`): an IPv6 address arrives with its escapes.
-/
import SmartClassroom.ComputerManager
import SmartClassroom.Endpoints
import SmartClassroom.Lib.FormUrl
import Std.Data.String.ToInt

namespace SmartClassroom

open FormUrl

/-! ## The page -/

/-- `new URLSearchParams({..}).toString()`. -/
def urlSearchParams (kvs : List (String × String)) : String :=
  String.ofList (serialize (kvs.map fun kv => (kv.1.toList, kv.2.toList)))

/-- `origin`: `window.location.origin`, where there is a window. -/
def buildMoonlightUrl (origin : Option String) (token : String) (host : HostConnectionInfo) :
    String :=
  let broker := origin.getD ""
  let params := urlSearchParams [
    ("token", token),
    ("host-id", toString host.id),
    ("host", host.ipAddress.getD ""),
    ("port", toString host.sunshinePort),
    ("broker", broker)]
  "moonlight://connect?" ++ params

/-! ## The client -/

/-- `QUrl::ComponentFormattingOptions`, the two that are used. -/
inductive ComponentFormatting where
  | prettyDecoded
  | fullyDecoded
deriving DecidableEq

/-- The arguments as `QCommandLineParser` sorts them. -/
structure CommandLine where
  positionalArguments : List String
  values : List (String × String)

def CommandLine.isSet (parser : CommandLine) (name : String) : Bool :=
  parser.values.any (·.1 = name)

/-- The last value that was given. -/
def CommandLine.value (parser : CommandLine) (name : String) : String :=
  ((parser.values.reverse.find? (·.1 = name)).map (·.2)).getD ""

/-- `QUrl` and `QUrlQuery` on the text of a URL, `QString::toInt`, and the command
    line classes of Moonlight: `parse` with the checks for unknown options, help
    and version, and `getIntOption`.  An error ends the process with its text. -/
structure QtUrl where
  isValid : String → Bool
  host : String → String
  queryItemValue : String → String → ComponentFormatting → String
  toInt : String → Option ℤ
  parse : List String → List String → Except String CommandLine
  getIntOption : CommandLine → String → Except String ℤ

/-- The letters of `p` fold only with themselves and their capitals. -/
def startsWithIgnoreCase (s p : String) : Bool :=
  p.toList.isPrefixOf (s.toList.map Char.toLower)

def equalsIgnoreCase (s t : String) : Bool := s.toList.map Char.toLower == t.toList

/-- `arg.startsWith("moonlight://", Qt::CaseInsensitive)`. -/
def isMoonlightUrl (arg : String) : Bool := startsWithIgnoreCase arg "moonlight://"

/-- `QString::length`, in UTF-16 units. -/
def qLength (s : String) : ℕ := (s.toList.map fun c => if c.toNat ≤ 0xffff then 1 else 2).sum

section
variable (qt : QtUrl)

def isConnectUrl (url : String) : Bool :=
  qt.isValid url && equalsIgnoreCase (qt.host url) "connect"

/-- What reaches `stashPendingConnect` from a URL that another process forwarded. -/
def scT13DispatchMoonlightUrl (url : String) : Option PendingConnect :=
  if isConnectUrl qt url = false then none
  else
    let token := qt.queryItemValue url "token" .prettyDecoded
    let host := qt.queryItemValue url "host" .prettyDecoded
    let hostId := qt.queryItemValue url "host-id" .prettyDecoded
    let port := qt.queryItemValue url "port" .prettyDecoded
    let broker := qt.queryItemValue url "broker" .fullyDecoded
    if host = "" then none
    else
      let portInt := if port = "" then 0 else (qt.toInt port).getD 0
      let hostIdInt := if hostId = "" then 0 else (qt.toInt hostId).getD 0
      some {
        address := host
        port := portInt
        connectToken := token
        hostId := hostIdInt
        brokerUrl := broker }

/-- `expanded.append("--" + name); expanded.append(value)` for a value that is there. -/
def appendOption (name value : String) : List String :=
  if value = "" then [] else ["--" ++ name, value]

/-- One argument of `scT13ExpandMoonlightConnectUrl`. -/
def expandArgument (arg : String) : List String :=
  if isMoonlightUrl arg = false then [arg]
  else if isConnectUrl qt arg = false then []
  else
    let token := qt.queryItemValue arg "token" .prettyDecoded
    let hostId := qt.queryItemValue arg "host-id" .prettyDecoded
    let host := qt.queryItemValue arg "host" .prettyDecoded
    let port := qt.queryItemValue arg "port" .prettyDecoded
    let broker := qt.queryItemValue arg "broker" .fullyDecoded
    if host = "" then []
    else
      ["connect", host] ++ appendOption "port" port ++ appendOption "connect-token" token ++
        appendOption "host-id" hostId ++ appendOption "broker" broker

def scT13ExpandMoonlightConnectUrl (args : List String) : List String :=
  args.flatMap (expandArgument qt)

structure ConnectCommandLineParser where
  host : String
  port : ℤ := 0
  connectToken : String := ""
  hostId : ℤ := 0
  brokerUrl : String := ""

/-- The options that `ConnectCommandLineParser::parse` adds. -/
def connectOptions : List String := ["port", "connect-token", "host-id", "broker"]

def ConnectCommandLineParser.parse (args : List String) :
    Except String ConnectCommandLineParser := do
  let parser ← qt.parse connectOptions args
  let posArgs := parser.positionalArguments
  let host ← match posArgs[1]? with
    | none => throw "Host not provided"
    | some host => pure host
  let port ← if parser.isSet "port" then do
      let port ← qt.getIntOption parser "port"
      if port < 1 ∨ 65535 < port then throw "Port must be between 1 and 65535"
      pure port
    else pure 0
  let connectToken ← if parser.isSet "connect-token" then do
      let connectToken := parser.value "connect-token"
      if qLength connectToken < 16 then throw "connect-token is too short"
      pure connectToken
    else pure ""
  let hostId ← if parser.isSet "host-id" then do
      let hostId ← qt.getIntOption parser "host-id"
      if hostId ≤ 0 then throw "host-id must be a positive integer"
      pure hostId
    else pure 0
  let brokerUrl := if parser.isSet "broker" then parser.value "broker" else ""
  return { host, port, connectToken, hostId, brokerUrl }

/-- What reaches `stashPendingConnect` from the arguments of a fresh process:
    the `ConnectRequested` arm of `main`. -/
def connectRequested (args : List String) : Except String PendingConnect := do
  let connectParser ← ConnectCommandLineParser.parse qt (scT13ExpandMoonlightConnectUrl qt args)
  return {
    address := connectParser.host
    port := connectParser.port
    connectToken := connectParser.connectToken
    hostId := connectParser.hostId
    brokerUrl := connectParser.brokerUrl }

end

/-! ## What the two sides rely on -/

/-- The URL of a query. -/
def connectUrl (kvs : List (String × String)) : String :=
  "moonlight://connect?" ++ urlSearchParams kvs

/-- Plain keys, each once. -/
structure PlainKeys (kvs : List (String × String)) : Prop where
  nodup : (kvs.map (·.1)).Nodup
  plain : ∀ kv ∈ kvs, ∀ c ∈ kv.1.toList, unreserved c = true

/-- The two characters whose escapes the default mode leaves as they are. -/
def keptEscaped (c : Char) : Bool := c == ':' || c == '/'

/-- What the documentation says of Qt and of the command line classes. -/
structure QtUrl.Documented (qt : QtUrl) : Prop where
  isValid : ∀ kvs, qt.isValid (connectUrl kvs) = true
  host : ∀ kvs, qt.host (connectUrl kvs) = "connect"
  fullyDecoded : ∀ {kvs k v}, PlainKeys kvs → (k, v) ∈ kvs → (∀ c ∈ v.toList, Visible c) →
    qt.queryItemValue (connectUrl kvs) k .fullyDecoded = v
  prettyDecoded : ∀ {kvs k v}, PlainKeys kvs → (k, v) ∈ kvs →
    (∀ c ∈ v.toList, unreserved c = true ∨ keptEscaped c = true) →
    qt.queryItemValue (connectUrl kvs) k .prettyDecoded =
      String.ofList (partly keptEscaped v.toList)
  toInt : ∀ n : ℤ, -2 ^ 31 ≤ n → n < 2 ^ 31 → qt.toInt (toString n) = some n
  /-- Options take the argument that follows them, whatever its first character. -/
  parse : ∀ {app positional options}, (∀ a ∈ positional, ∃ c s, a.toList = c :: s ∧ c ≠ '-') →
    (∀ o ∈ options, o.1 ∈ connectOptions) →
    qt.parse connectOptions (app :: (positional ++ options.flatMap fun o => ["--" ++ o.1, o.2])) =
      .ok ⟨positional, options⟩
  getIntOption : ∀ {parser name} {n : ℤ}, -2 ^ 31 ≤ n → n < 2 ^ 31 →
    parser.value name = toString n → qt.getIntOption parser name = .ok n

/-- URL-safe Base64. -/
def urlSafe (c : Char) : Bool := c.isAlphanum || c == '-' || c == '_'

/-- IPv4 and IPv6 addresses, with or without a prefix length, are written in
    these characters. -/
def inetChar (c : Char) : Bool := c.isAlphanum || c == '.' || c == ':' || c == '/'

/-- What a page builds the URL from: the token and the host of a connect
    response with an address, and the origin of the page. -/
structure Launch where
  token : String
  host : HostConnectionInfo
  ip : String
  origin : String
  ipAddress : host.ipAddress = some ip
  token_safe : ∀ c ∈ token.toList, urlSafe c = true
  token_length : 16 ≤ token.length
  id_pos : 0 < host.id
  id_lt : host.id < 2 ^ 31
  ip_ne : ip ≠ ""
  ip_text : ∀ c ∈ ip.toList, inetChar c = true
  port_pos : 1 ≤ host.sunshinePort
  port_le : host.sunshinePort ≤ 65535
  origin_http : ∃ scheme ∈ ["http", "https"], ∃ authority, origin = scheme ++ "://" ++ authority
  origin_visible : ∀ c ∈ origin.toList, Visible c

theorem unreserved_of_alphanum {c : Char} (h : c.isAlphanum = true) : unreserved c = true := by
  simp [unreserved, h]

theorem urlSafe_cases {c : Char} (h : urlSafe c = true) : c.isAlphanum = true ∨ c = '-' ∨ c = '_' := by
  simpa [urlSafe, or_assoc] using h

theorem inetChar_cases {c : Char} (h : inetChar c = true) :
    c.isAlphanum = true ∨ c = '.' ∨ c = ':' ∨ c = '/' := by
  simpa [inetChar, or_assoc] using h

namespace Launch

variable (l : Launch)

def url : String := buildMoonlightUrl (some l.origin) l.token l.host

/-- What the page means. -/
def sent : PendingConnect where
  address := l.ip
  port := l.host.sunshinePort
  connectToken := l.token
  hostId := l.host.id
  brokerUrl := l.origin

/-- What the client gets: the address as the default mode leaves it. -/
def received : PendingConnect :=
  { l.sent with address := String.ofList (partly keptEscaped l.ip.toList) }

/-- The items of the query. -/
def items : List (String × String) :=
  [("token", l.token), ("host-id", toString l.host.id), ("host", l.ip),
    ("port", toString l.host.sunshinePort), ("broker", l.origin)]

theorem url_eq : l.url = connectUrl l.items := by
  have h : l.host.ipAddress.getD "" = l.ip := by rw [l.ipAddress, Option.getD_some]
  unfold url buildMoonlightUrl connectUrl items
  dsimp only [Option.getD_some]
  rw [h]

theorem plainKeys : PlainKeys l.items where
  nodup := by simp [items]
  plain := by simp [items, unreserved]

theorem token_unreserved : ∀ c ∈ l.token.toList, unreserved c = true := by
  intro c hc
  rcases urlSafe_cases (l.token_safe c hc) with h | rfl | rfl
  · exact unreserved_of_alphanum h
  · decide
  · decide

theorem token_ne : l.token ≠ "" := by
  intro h
  have hlen := l.token_length
  rw [h] at hlen
  exact absurd hlen (by decide)

theorem origin_ne : l.origin ≠ "" := by
  obtain ⟨scheme, hs, authority, h⟩ := l.origin_http
  intro h'
  rw [h', eq_comm, String.append_eq_empty_iff, String.append_eq_empty_iff] at h
  exact absurd h.1.2 (by decide)

theorem isMoonlightUrl_url : isMoonlightUrl l.url = true := by
  have h : "moonlight://".toList <+: "moonlight://connect?".toList.map Char.toLower := by decide
  rw [l.url_eq]
  unfold isMoonlightUrl startsWithIgnoreCase connectUrl
  rw [String.toList_append, List.map_append, List.isPrefixOf_iff_prefix]
  exact h.trans (List.prefix_append _ _)

theorem ip_readable : ∀ c ∈ l.ip.toList, unreserved c = true ∨ keptEscaped c = true := by
  intro c hc
  rcases inetChar_cases (l.ip_text c hc) with h | rfl | rfl | rfl
  · exact .inl (unreserved_of_alphanum h)
  all_goals decide

theorem ip_visible : ∀ c ∈ l.ip.toList, Visible c := by
  intro c hc
  rcases inetChar_cases (l.ip_text c hc) with h | rfl | rfl | rfl
  · exact visible_of_unreserved (unreserved_of_alphanum h)
  all_goals exact ⟨by decide, by decide⟩

theorem received_ne : l.received.address ≠ "" := by
  intro h
  have hlen := length_partly_le keptEscaped l.ip.toList
  have hnil : partly keptEscaped l.ip.toList = [] := by
    rw [← String.toList_ofList (l := partly keptEscaped l.ip.toList)]
    exact congrArg String.toList h
  rw [hnil, List.length_nil, Nat.le_zero, List.length_eq_zero_iff, String.toList_eq_nil_iff] at hlen
  exact l.ip_ne hlen

theorem received_positional : ∃ c s, l.received.address.toList = c :: s ∧ c ≠ '-' := by
  have h : l.received.address.toList = partly keptEscaped l.ip.toList := String.toList_ofList
  rw [h]
  rcases hs : l.ip.toList with _ | ⟨c, s⟩
  · exact absurd (String.toList_eq_nil_iff.1 hs) l.ip_ne
  · have hc := inetChar_cases (l.ip_text c (hs ▸ .head _))
    rcases hc with hc | rfl | rfl | rfl
    · have hk : keptEscaped c = false := by
        rw [keptEscaped, Bool.or_eq_false_iff, beq_eq_false_iff_ne, beq_eq_false_iff_ne]
        constructor
        · rintro rfl
          exact absurd hc (by decide)
        · rintro rfl
          exact absurd hc (by decide)
      refine ⟨c, partly keptEscaped s, by simp [partly, hk], ?_⟩
      rintro rfl
      exact absurd hc (by decide)
    · exact ⟨'.', partly keptEscaped s, rfl, by decide⟩
    · exact ⟨'%', '3' :: 'A' :: partly keptEscaped s, rfl, by decide⟩
    · exact ⟨'%', '2' :: 'F' :: partly keptEscaped s, rfl, by decide⟩

/-- The address arrives as it is exactly when it has neither of the two characters. -/
theorem received_eq_iff : l.received = l.sent ↔ ∀ c ∈ l.ip.toList, c ≠ ':' ∧ c ≠ '/' := by
  have hkept : (∀ c ∈ l.ip.toList, keptEscaped c = true → unreserved c = true) ↔
      ∀ c ∈ l.ip.toList, c ≠ ':' ∧ c ≠ '/' := by
    refine forall₂_congr fun c _ => ?_
    constructor
    · intro h
      constructor
      · rintro rfl
        exact absurd (h rfl) (by decide)
      · rintro rfl
        exact absurd (h rfl) (by decide)
    · rintro ⟨h₁, h₂⟩ hk
      simp [keptEscaped, h₁, h₂] at hk
  rw [← hkept, ← partly_eq_self_iff keptEscaped l.ip_visible]
  constructor
  · intro h
    have ha : String.ofList (partly keptEscaped l.ip.toList) = l.ip := congrArg (·.address) h
    rw [← String.toList_ofList (l := partly keptEscaped l.ip.toList), ha]
  · intro h
    rw [received, h, String.ofList_toList]
    rfl

end Launch

/-! ## The texts of the query -/

theorem toList_toString {n : ℤ} (hn : 0 ≤ n) : (toString n).toList = Nat.toDigits 10 n.toNat := by
  rw [Int.toString_eq_repr, Int.repr_eq_if, if_pos hn, Nat.toList_repr]

theorem unreserved_toString {n : ℤ} (hn : 0 ≤ n) :
    ∀ c ∈ (toString n).toList, unreserved c = true := by
  intro c hc
  rw [toList_toString hn] at hc
  have hd : c.isDigit = true := Nat.isDigit_of_mem_toDigits (by decide) (by decide) hc
  exact unreserved_of_alphanum (by simp [Char.isAlphanum, hd])

theorem toString_ne_empty {n : ℤ} (hn : 0 ≤ n) : toString n ≠ "" := by
  intro h
  have hl := toList_toString hn
  rw [h] at hl
  exact Nat.toDigits_ne_nil hl.symm

theorem qLength_of_unreserved {s : String} (h : ∀ c ∈ s.toList, unreserved c = true) :
    qLength s = s.length := by
  have hmap : (s.toList.map fun c => if c.toNat ≤ 0xffff then 1 else 2) = s.toList.map fun _ => 1 := by
    refine List.map_congr_left fun c hc => if_pos ?_
    have := (visible_of_unreserved (h c hc)).2
    omega
  rw [qLength, hmap, List.map_const', List.sum_replicate_nat, mul_one, String.length_toList]

section
variable {qt : QtUrl} (hqt : qt.Documented) (l : Launch)
include hqt

theorem isConnectUrl_url : isConnectUrl qt l.url = true := by
  rw [isConnectUrl, l.url_eq, hqt.isValid, hqt.host]
  decide

theorem item_plain {k v : String} (h : (k, v) ∈ l.items) (hv : ∀ c ∈ v.toList, unreserved c = true) :
    qt.queryItemValue l.url k .prettyDecoded = v := by
  rw [l.url_eq, hqt.prettyDecoded l.plainKeys h fun c hc => .inl (hv c hc),
    (partly_eq_self_iff keptEscaped fun c hc => visible_of_unreserved (hv c hc)).2 fun c hc _ => hv c hc,
    String.ofList_toList]

theorem item_token : qt.queryItemValue l.url "token" .prettyDecoded = l.token :=
  item_plain hqt l (by simp [Launch.items]) l.token_unreserved

theorem item_hostId : qt.queryItemValue l.url "host-id" .prettyDecoded = toString l.host.id :=
  item_plain hqt l (by simp [Launch.items]) (unreserved_toString l.id_pos.le)

theorem item_port : qt.queryItemValue l.url "port" .prettyDecoded = toString l.host.sunshinePort :=
  item_plain hqt l (by simp [Launch.items]) (unreserved_toString (by have := l.port_pos; omega))

theorem item_host : qt.queryItemValue l.url "host" .prettyDecoded = l.received.address := by
  rw [l.url_eq]
  exact hqt.prettyDecoded l.plainKeys (by simp [Launch.items]) l.ip_readable

theorem item_broker : qt.queryItemValue l.url "broker" .fullyDecoded = l.origin := by
  rw [l.url_eq]
  exact hqt.fullyDecoded l.plainKeys (by simp [Launch.items]) l.origin_visible

/-! ## The two launch paths -/

theorem dispatch_eq : scT13DispatchMoonlightUrl qt l.url = some l.received := by
  have hport := toString_ne_empty (n := l.host.sunshinePort) (by have := l.port_pos; omega)
  have hid := toString_ne_empty l.id_pos.le
  have hport' := hqt.toInt l.host.sunshinePort (by have := l.port_pos; omega)
    (by have := l.port_le; omega)
  have hid' := hqt.toInt l.host.id (by have := l.id_pos; omega) l.id_lt
  unfold scT13DispatchMoonlightUrl
  simp only [isConnectUrl_url hqt l, item_token hqt l, item_host hqt l, item_hostId hqt l,
    item_port hqt l, item_broker hqt l, l.received_ne, hport, hid, hport', hid', Option.getD_some,
    Bool.true_eq_false, if_false]
  rfl

/-- The options that the URL is expanded to. -/
def Launch.options : List (String × String) :=
  [("port", toString l.host.sunshinePort), ("connect-token", l.token),
    ("host-id", toString l.host.id), ("broker", l.origin)]

theorem expand_eq {app : String} (happ : isMoonlightUrl app = false) :
    scT13ExpandMoonlightConnectUrl qt [app, l.url] =
      app :: (["connect", l.received.address] ++ l.options.flatMap fun o => ["--" ++ o.1, o.2]) := by
  have hport := toString_ne_empty (n := l.host.sunshinePort) (by have := l.port_pos; omega)
  have hid := toString_ne_empty l.id_pos.le
  have happ' : expandArgument qt app = [app] := if_pos happ
  have hurl : expandArgument qt l.url =
      ["connect", l.received.address] ++ l.options.flatMap fun o => ["--" ++ o.1, o.2] := by
    unfold expandArgument
    simp only [l.isMoonlightUrl_url, isConnectUrl_url hqt l, item_token hqt l, item_host hqt l,
      item_hostId hqt l, item_port hqt l, item_broker hqt l, l.received_ne, l.token_ne, l.origin_ne,
      hport, hid, appendOption, Bool.true_eq_false, if_false]
    rfl
  rw [scT13ExpandMoonlightConnectUrl, List.flatMap_cons, List.flatMap_singleton, happ', hurl]
  rfl

/-- What the parser finds in the expanded arguments. -/
def Launch.commandLine : CommandLine := ⟨["connect", l.received.address], l.options⟩

theorem parse_eq (app : String) :
    qt.parse connectOptions
      (app :: (["connect", l.received.address] ++ l.options.flatMap fun o => ["--" ++ o.1, o.2])) =
      .ok l.commandLine := by
  refine hqt.parse (fun a ha => ?_) fun o ho => ?_
  · rcases List.mem_pair.1 ha with rfl | rfl
    · exact ⟨'c', _, rfl, by decide⟩
    · exact l.received_positional
  · simp only [Launch.options, List.mem_cons, List.not_mem_nil, or_false] at ho
    rcases ho with rfl | rfl | rfl | rfl <;> simp [connectOptions]

theorem connect_eq {app : String} (happ : isMoonlightUrl app = false) :
    connectRequested qt [app, l.url] = .ok l.received := by
  have hport : qt.getIntOption l.commandLine "port" = .ok l.host.sunshinePort :=
    hqt.getIntOption (by have := l.port_pos; omega) (by have := l.port_le; omega) rfl
  have hid : qt.getIntOption l.commandLine "host-id" = .ok l.host.id :=
    hqt.getIntOption (by have := l.id_pos; omega) l.id_lt rfl
  have hrange : ¬(l.host.sunshinePort < 1 ∨ 65535 < l.host.sunshinePort) := by
    have := l.port_pos
    have := l.port_le
    omega
  have hlen : ¬qLength l.token < 16 := by
    rw [qLength_of_unreserved l.token_unreserved]
    exact not_lt.2 l.token_length
  have hpos : ¬l.host.id ≤ 0 := not_le.2 l.id_pos
  have hparse : ConnectCommandLineParser.parse qt (scT13ExpandMoonlightConnectUrl qt [app, l.url]) =
      .ok ⟨l.received.address, l.host.sunshinePort, l.token, l.host.id, l.origin⟩ := by
    unfold ConnectCommandLineParser.parse
    rw [expand_eq hqt l happ, parse_eq hqt l app]
    have hset : ∀ o ∈ connectOptions, l.commandLine.isSet o = true := by
      simp [connectOptions, CommandLine.isSet, Launch.commandLine, Launch.options]
    have hhost : l.commandLine.positionalArguments[1]? = some l.received.address := rfl
    have htoken : l.commandLine.value "connect-token" = l.token := rfl
    have hbroker : l.commandLine.value "broker" = l.origin := rfl
    simp only [bind, Except.bind, pure, Except.pure, hhost, hset "port" (by decide),
      hset "connect-token" (by decide), hset "host-id" (by decide), hset "broker" (by decide),
      hport, hid, htoken, hbroker, hrange, hlen, hpos, if_true, if_false]
  rw [connectRequested, hparse]
  rfl

/-- **The round trip.**  Both launch paths hand over what the page sent exactly
    when the address has no `:` and no `/`. -/
theorem roundTrip_iff {app : String} (happ : isMoonlightUrl app = false) :
    (scT13DispatchMoonlightUrl qt l.url = some l.sent ∧
      connectRequested qt [app, l.url] = .ok l.sent) ↔
      ∀ c ∈ l.ip.toList, c ≠ ':' ∧ c ≠ '/' := by
  rw [dispatch_eq hqt l, connect_eq hqt l happ, ← l.received_eq_iff]
  constructor
  · rintro ⟨h, -⟩
    exact Option.some.inj h
  · intro h
    rw [h]
    exact ⟨rfl, rfl⟩

end

/-! ## An instance of Qt -/

/-- The text behind the `?`. -/
def queryOf (url : String) : List Char := (url.toList.dropWhile (· ≠ '?')).tail

def keeps : ComponentFormatting → Char → Bool
  | .prettyDecoded => keptEscaped
  | .fullyDecoded => fun _ => false

def inRangeInt (n : ℤ) : Option ℤ := if -2 ^ 31 ≤ n ∧ n < 2 ^ 31 then some n else none

/-- Every argument with a leading `-` is an option, and takes the next one. -/
def sortArguments (options : List String) : List String → Except String CommandLine
  | [] => .ok ⟨[], []⟩
  | [arg] => if arg.toList.head? = some '-' then .error "Missing value" else .ok ⟨[arg], []⟩
  | arg :: value :: rest =>
    if arg.toList.head? = some '-' then
      let name := String.ofList (arg.toList.drop 2)
      if name ∈ options then
        (sortArguments options rest).map fun c => { c with values := (name, value) :: c.values }
      else .error "Unknown option"
    else
      (sortArguments options (value :: rest)).map fun c =>
        { c with positionalArguments := arg :: c.positionalArguments }

def labQtUrl : QtUrl where
  isValid _ := true
  host _ := "connect"
  queryItemValue url key mode :=
    String.ofList (decode (keeps mode) ((lookup key.toList (queryOf url)).getD []))
  toInt s := s.toInt?.bind inRangeInt
  parse options args := sortArguments options args.tail
  getIntOption parser name :=
    match (parser.value name).toInt?.bind inRangeInt with
    | some n => .ok n
    | none => .error "Invalid value"

theorem visible_of_kept {c : Char} (h : keptEscaped c = true) : Visible c := by
  rw [keptEscaped, Bool.or_eq_true, beq_iff_eq, beq_iff_eq] at h
  rcases h with rfl | rfl <;> exact ⟨by decide, by decide⟩

theorem queryOf_connectUrl (kvs : List (String × String)) :
    queryOf (connectUrl kvs) = serialize (kvs.map fun kv => (kv.1.toList, kv.2.toList)) := by
  have h : ("moonlight://connect?".toList.dropWhile (· ≠ '?')) = ['?'] := by decide
  unfold queryOf connectUrl urlSearchParams
  rw [String.toList_append, List.dropWhile_append, h]
  simp

theorem lab_item {kvs : List (String × String)} {k v : String} (hk : PlainKeys kvs) (h : (k, v) ∈ kvs)
    (hv : ∀ c ∈ v.toList, Visible c) (mode : ComponentFormatting) :
    labQtUrl.queryItemValue (connectUrl kvs) k mode =
      String.ofList (partly (keeps mode) v.toList) := by
  have hkeys : ((kvs.map fun kv => (kv.1.toList, kv.2.toList)).map (·.1)).Nodup := by
    rw [List.map_map]
    have := hk.nodup.map (f := String.toList) fun a b e => String.toList_inj.1 e
    rwa [List.map_map] at this
  have hplain : ∀ kv ∈ kvs.map fun kv => (kv.1.toList, kv.2.toList), ∀ c ∈ kv.1,
      unreserved c = true := by
    intro kv hkv
    obtain ⟨kv', hkv', rfl⟩ := List.mem_map.1 hkv
    exact hk.plain kv' hkv'
  have hfound := lookup_serialize hkeys hplain (List.mem_map.2 ⟨(k, v), h, rfl⟩)
  show String.ofList (decode _ ((lookup k.toList (queryOf (connectUrl kvs))).getD [])) = _
  rw [queryOf_connectUrl, hfound, Option.getD_some, decode_encode _ hv]

theorem sortArguments_options {options : List String} {os : List (String × String)}
    (h : ∀ o ∈ os, o.1 ∈ options) :
    sortArguments options (os.flatMap fun o => ["--" ++ o.1, o.2]) = .ok ⟨[], os⟩ := by
  induction os with
  | nil => rfl
  | cons o os ih =>
    have ho := h o (.head _)
    have hname : String.ofList (("--" ++ o.1).toList.drop 2) = o.1 := by
      rw [String.toList_append]
      exact String.ofList_toList
    have hdash : ("--" ++ o.1).toList.head? = some '-' := by
      rw [String.toList_append]
      rfl
    rw [List.flatMap_cons, List.cons_append, List.cons_append, List.nil_append, sortArguments,
      if_pos hdash]
    simp only [hname, ho, if_true, ih fun o' ho' => h o' (.tail _ ho')]
    rfl

theorem sortArguments_append {options positional rest : List String} {c : CommandLine}
    (hp : ∀ a ∈ positional, ∃ c s, a.toList = c :: s ∧ c ≠ '-')
    (hr : sortArguments options rest = .ok c) :
    sortArguments options (positional ++ rest) =
      .ok ⟨positional ++ c.positionalArguments, c.values⟩ := by
  induction positional with
  | nil => exact hr
  | cons a as ih =>
    have ih := ih fun b hb => hp b (.tail _ hb)
    obtain ⟨d, s, hd, hne⟩ := hp a (.head _)
    have hdash : a.toList.head? ≠ some '-' := by
      rw [hd]
      rintro ⟨⟩
      exact hne rfl
    rw [List.cons_append]
    rcases hs : as ++ rest with _ | ⟨v, s⟩
    · rw [hs] at ih
      have hc : (⟨[], []⟩ : CommandLine) = ⟨as ++ c.positionalArguments, c.values⟩ :=
        Except.ok.inj ih
      rw [CommandLine.mk.injEq] at hc
      rw [sortArguments, if_neg hdash, List.cons_append, ← hc.1, ← hc.2]
    · rw [sortArguments, if_neg hdash, ← hs, ih]
      rfl

theorem documented_lab : labQtUrl.Documented where
  isValid _ := rfl
  host _ := rfl
  fullyDecoded hk h hv := by
    rw [lab_item hk h hv, keeps, partly_none, String.ofList_toList]
  prettyDecoded hk h hv := by
    refine lab_item hk h (fun c hc => ?_) .prettyDecoded
    rcases hv c hc with hu | hkept
    · exact visible_of_unreserved hu
    · exact visible_of_kept hkept
  toInt n hn hn' := by
    show (toString n).toInt?.bind inRangeInt = some n
    rw [Int.toString_eq_repr, Int.toInt?_repr]
    exact if_pos ⟨hn, hn'⟩
  parse hp ho := by
    have h := sortArguments_append hp (sortArguments_options ho)
    rwa [List.append_nil] at h
  getIntOption {parser name n} hn hn' h := by
    show (match (parser.value name).toInt?.bind inRangeInt with
      | some n => Except.ok n
      | none => .error "Invalid value") = .ok n
    have hi : (parser.value name).toInt?.bind inRangeInt = some n := by
      rw [h, Int.toString_eq_repr, Int.toInt?_repr]
      exact if_pos ⟨hn, hn'⟩
    rw [hi]

/-- A launch of host 7. -/
def labLaunch : Launch where
  token := "-ab_0123456789AB"
  host := ⟨7, "pc-7", some "10.0.0.7", 47989⟩
  ip := "10.0.0.7"
  origin := "http://lab:5173"
  ipAddress := rfl
  token_safe := List.all_eq_true.1 rfl
  token_length := by decide
  id_pos := by decide
  id_lt := by decide
  ip_ne := by decide
  ip_text := List.all_eq_true.1 rfl
  port_pos := by decide
  port_le := by decide
  origin_http := ⟨"http", .head _, "lab:5173", rfl⟩
  origin_visible := by simp [Visible]

/-- The same with an IPv6 address. -/
def ipv6Launch : Launch :=
  { labLaunch with
    host := ⟨7, "pc-7", some "fe80::1", 47989⟩
    ip := "fe80::1"
    ipAddress := rfl
    ip_ne := by decide
    ip_text := List.all_eq_true.1 rfl }

theorem roundTrip_iff_lab :
    (scT13DispatchMoonlightUrl labQtUrl labLaunch.url = some labLaunch.sent ∧
      connectRequested labQtUrl ["moonlight", labLaunch.url] = .ok labLaunch.sent) ↔
      ∀ c ∈ labLaunch.ip.toList, c ≠ ':' ∧ c ≠ '/' :=
  roundTrip_iff documented_lab labLaunch (by decide)

/-- An IPv6 address arrives escaped, on both paths. -/
theorem escaped_ipv6 :
    scT13DispatchMoonlightUrl labQtUrl ipv6Launch.url =
        some { ipv6Launch.sent with address := "fe80%3A%3A1" } ∧
      connectRequested labQtUrl ["moonlight", ipv6Launch.url] =
        .ok { ipv6Launch.sent with address := "fe80%3A%3A1" } ∧
      ¬(scT13DispatchMoonlightUrl labQtUrl ipv6Launch.url = some ipv6Launch.sent ∧
        connectRequested labQtUrl ["moonlight", ipv6Launch.url] = .ok ipv6Launch.sent) := by
  have hreceived : ipv6Launch.received = { ipv6Launch.sent with address := "fe80%3A%3A1" } := rfl
  have hdispatch := dispatch_eq documented_lab ipv6Launch
  have happ : isMoonlightUrl "moonlight" = false := by decide
  have hconnect := connect_eq documented_lab ipv6Launch happ
  rw [hdispatch, hconnect, hreceived]
  refine ⟨rfl, rfl, ?_⟩
  rintro ⟨h, -⟩
  have ha : "fe80%3A%3A1" = "fe80::1" := congrArg PendingConnect.address (Option.some.inj h)
  exact absurd ha (by decide)

end SmartClassroom
