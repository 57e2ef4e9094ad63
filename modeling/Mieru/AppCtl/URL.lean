import Mathlib.Data.String.Basic
import Mieru.AppCtl.PortBinding
import Mieru.TrafficPattern

/-! # Client profiles as links

A client profile is shared as one link for each of its servers. The link has the credentials, the
host and, as a query, the other settings; reading it gives a profile with this one server. How
`net/url` writes a link and its query as text is a parameter. -/
namespace Mieru.AppCtl

open Net Result

/-! ## Profiles -/

structure ServerEndpoint where
  ipAddress : Option Bytes := none
  domainName : Option Bytes := none
  portBindings : List PortBinding := []

structure User where
  name : Option Bytes := none
  password : Option Bytes := none

structure MultiplexingConfig where
  level : Option ℤ := none

structure ClientProfile where
  profileName : Option Bytes := none
  user : Option User := none
  servers : List ServerEndpoint := []
  mtu : Option Int32 := none
  multiplexing : Option MultiplexingConfig := none
  handshakeMode : Option ℤ := none
  trafficPattern : Option TrafficPattern := none

namespace ServerEndpoint

def getIpAddress (s : ServerEndpoint) : Bytes := s.ipAddress.getD []

def getDomainName (s : ServerEndpoint) : Bytes := s.domainName.getD []

end ServerEndpoint

namespace ClientProfile

def getProfileName (p : ClientProfile) : Bytes := p.profileName.getD []

def getUserName (p : ClientProfile) : Bytes := (p.user.bind User.name).getD []

def getPassword (p : ClientProfile) : Bytes := (p.user.bind User.password).getD []

end ClientProfile

/-! ## Names of enumeration values -/

def transportProtocolNames : List Bytes :=
  [ascii "UNKNOWN_TRANSPORT_PROTOCOL", ascii "UDP", ascii "TCP"]

def multiplexingLevelNames : List Bytes :=
  [ascii "MULTIPLEXING_DEFAULT", ascii "MULTIPLEXING_OFF", ascii "MULTIPLEXING_LOW",
    ascii "MULTIPLEXING_MIDDLE", ascii "MULTIPLEXING_HIGH"]

def handshakeModeNames : List Bytes :=
  [ascii "HANDSHAKE_DEFAULT", ascii "HANDSHAKE_STANDARD", ascii "HANDSHAKE_NO_WAIT"]

/-- The `String` method: a value without a name is printed as a number. -/
def enumString (names : List Bytes) (value : ℤ) : Bytes :=
  if value < 0 then itoaInt value else names.getD value.toNat (itoaInt value)

/-- The generated map from names: what is no name gives 0. -/
def enumValue (names : List Bytes) (text : Bytes) : ℤ :=
  if text ∈ names then names.idxOf text else 0

/-! ## Links and queries -/

/-- `url.Values`, as the pairs in the order in which they were added. -/
structure Values where
  pairs : List (String × Bytes) := []
  deriving DecidableEq

namespace Values

def add (q : Values) (key : String) (value : Bytes) : Values := ⟨q.pairs ++ [(key, value)]⟩

def addOption (q : Values) (key : String) : Option Bytes → Values
  | some value => q.add key value
  | none => q

/-- The values of a key, in order; two maps are one when they agree on every key. -/
def values (q : Values) (key : String) : List Bytes :=
  (q.pairs.filter fun pair => pair.1 = key).map Prod.snd

def get (q : Values) (key : String) : Bytes := (q.values key).headD []

end Values

structure URL (ρ : Type) where
  scheme : Bytes
  opaqueText : Bytes := []
  user : Option (Bytes × Bytes)
  host : Bytes
  rawQuery : ρ
  deriving DecidableEq

/-- `net/url`, with links as `τ` and queries as `ρ`. -/
structure NetURL (τ ρ : Type) where
  string : URL ρ → τ
  parse : τ → Option (URL ρ)
  encode : Values → ρ
  parseQuery : ρ → Option Values

/-- The wire format of a traffic pattern in base64. -/
structure PatternCodec where
  encode : TrafficPattern → Except String Bytes
  decode : Bytes → Except String TrafficPattern

/-- `splitHostPort` of `net/url`: a port may be empty. -/
def stripPort (host : Bytes) : Bytes :=
  let port := (host.reverse.takeWhile (· ≠ 58)).reverse
  if port.length ≠ host.length ∧ port.all isDigit then
    host.take (host.length - port.length - 1)
  else host

def stripBrackets (host : Bytes) : Bytes :=
  if host.head? = some 91 ∧ host.getLast? = some 93 then (host.drop 1).dropLast else host

def hostname (host : Bytes) : Bytes := stripBrackets (stripPort host)

def isIPv6 (text : Bytes) : Prop := ∃ a, parseAddr text = some a ∧ a.ip.bytes.length = 16

instance (text : Bytes) : Decidable (isIPv6 text) :=
  match h : parseAddr text with
  | some a => decidable_of_iff (a.ip.bytes.length = 16) (by simp [isIPv6, h])
  | none => .isFalse (by simp [isIPv6, h])

def maybeDecorateIPv6 (addr : Bytes) : Bytes :=
  if isIPv6 addr then [91] ++ addr ++ [93] else addr

/-! ## Export -/

inductive ShareError where
  | emptyProfileName
  | emptyUserName (profile : Bytes)
  | emptyPassword (profile : Bytes)
  | noServer (profile : Bytes)
  | noHost (profile : Bytes)
  | noPortBindings (profile host : Bytes)
  | marshalFailed (cause : String)
  | notParsed
  | unrecognizedScheme (scheme : Bytes)
  | opaqueURL
  | noUserInfo
  | noUserName
  | noPassword
  | noHostInURL
  | queryNotParsed
  | noProfileName
  | invalidMTU (text : Bytes)
  | undecodedPattern (cause : String)
  | mismatchedNumbers
  | invalidPortOrRange (text : Bytes)
  | invalidBegin (text : Bytes)
  | invalidEnd (text : Bytes)
  | invalidPort (port : ℤ)
  | invalidBeginPort (port : ℤ)
  | invalidEndPort (port : ℤ)
  | reversed (beginPort endPort : ℤ)
  deriving DecidableEq

def exportedPort (b : PortBinding) : Bytes :=
  if b.getPortRange ≠ [] then b.getPortRange else itoaInt b.getPort

def addExported (q : Values) (b : PortBinding) : Values :=
  (q.add "port" (exportedPort b)).add "protocol" (enumString transportProtocolNames b.getProtocol)

def exportedHost (profileName : Bytes) (server : ServerEndpoint) : Except ShareError Bytes :=
  if server.getDomainName ≠ [] then .ok server.getDomainName
  else if server.getIpAddress ≠ [] then .ok (maybeDecorateIPv6 server.getIpAddress)
  else .error (.noHost profileName)

section
variable {τ ρ : Type} (net : NetURL τ ρ) (codec : PatternCodec)

def exportedPattern : Option TrafficPattern → Except ShareError (Option Bytes)
  | none => .ok none
  | some tp => (codec.encode tp).mapError .marshalFailed |>.map some

def settings (profile : ClientProfile) (pattern : Option Bytes) : Values :=
  ((((({ : Values}.add "profile" profile.getProfileName).addOption "mtu"
    (profile.mtu.map fun mtu => itoaInt mtu.toInt)).addOption "multiplexing"
    ((profile.multiplexing.bind MultiplexingConfig.level).map
      (enumString multiplexingLevelNames))).addOption "handshake-mode"
    (profile.handshakeMode.map (enumString handshakeModeNames))).addOption "traffic-pattern"
    pattern)

def exportedQuery (profile : ClientProfile) (server : ServerEndpoint) (pattern : Option Bytes) :
    Values :=
  server.portBindings.foldl addExported (settings profile pattern)

def serverURL (profile : ClientProfile) (server : ServerEndpoint) : Except ShareError (URL ρ) := do
  let host ← exportedHost profile.getProfileName server
  ensure (server.portBindings ≠ []) (.noPortBindings profile.getProfileName host)
  let pattern ← exportedPattern codec profile.trafficPattern
  return { scheme := ascii "mierus", user := some (profile.getUserName, profile.getPassword),
           host := host, rawQuery := net.encode (exportedQuery profile server pattern) }

def profileURLs (profile : ClientProfile) : Except ShareError (List (URL ρ)) := do
  ensure (profile.getProfileName ≠ []) .emptyProfileName
  ensure (profile.getUserName ≠ []) (.emptyUserName profile.getProfileName)
  ensure (profile.getPassword ≠ []) (.emptyPassword profile.getProfileName)
  ensure (profile.servers ≠ []) (.noServer profile.getProfileName)
  profile.servers.mapM (serverURL net codec profile)

def clientProfileToMultiURLs (profile : ClientProfile) : Except ShareError (List τ) := do
  let urls ← profileURLs net codec profile
  return urls.map net.string

/-! ## Import -/

def checkPortNumber (port : ℤ) (e : ShareError) : Except ShareError Unit :=
  ensure (1 ≤ port ∧ port ≤ 65535) e

def importBinding (port protocol : Bytes) : Except ShareError PortBinding :=
  match atoi port with
  | .ok portNum => do
    checkPortNumber portNum (.invalidPort portNum)
    return { port := some (Int32.ofInt portNum),
             protocol := some (enumValue transportProtocolNames protocol) }
  | .error _ =>
    match port.splitOn 45 with
    | [beginText, endText] => do
      let beginPort ← (atoi beginText).mapError fun _ => .invalidBegin beginText
      let endPort ← (atoi endText).mapError fun _ => .invalidEnd endText
      checkPortNumber beginPort (.invalidBeginPort beginPort)
      checkPortNumber endPort (.invalidEndPort endPort)
      ensure (beginPort ≤ endPort) (.reversed beginPort endPort)
      return { portRange := some (itoaInt beginPort ++ [45] ++ itoaInt endPort),
               protocol := some (enumValue transportProtocolNames protocol) }
    | _ => .error (.invalidPortOrRange port)

def importMTU (text : Bytes) : Except ShareError (Option Int32) :=
  if text ≠ [] then
    (atoi text).mapError (fun _ => .invalidMTU text) |>.map fun mtu => some (Int32.ofInt mtu)
  else .ok none

def importPattern (text : Bytes) : Except ShareError (Option TrafficPattern) :=
  if text ≠ [] then (codec.decode text).mapError .undecodedPattern |>.map some else .ok none

def importEnum (names : List Bytes) (text : Bytes) : Option ℤ :=
  if text ≠ [] then some (enumValue names text) else none

def importServer (host : Bytes) (bindings : List PortBinding) : ServerEndpoint :=
  if (parseIP host).isSome then { ipAddress := some host, portBindings := bindings }
  else { domainName := some host, portBindings := bindings }

def readURL (u : URL ρ) : Except ShareError ClientProfile := do
  ensure (u.scheme = ascii "mierus") (.unrecognizedScheme u.scheme)
  ensure (u.opaqueText = []) .opaqueURL
  let (name, password) ← u.user.elim (.error .noUserInfo) .ok
  ensure (name ≠ []) .noUserName
  ensure (password ≠ []) .noPassword
  ensure (hostname u.host ≠ []) .noHostInURL
  let q ← (net.parseQuery u.rawQuery).elim (.error .queryNotParsed) .ok
  ensure (q.get "profile" ≠ []) .noProfileName
  let mtu ← importMTU (q.get "mtu")
  let pattern ← importPattern codec (q.get "traffic-pattern")
  ensure ((q.values "port").length = (q.values "protocol").length) .mismatchedNumbers
  let bindings ← ((q.values "port").zip (q.values "protocol")).mapM fun (port, protocol) =>
    importBinding port protocol
  return { profileName := some (q.get "profile")
           user := some { name := some name, password := some password }
           servers := [importServer (hostname u.host) bindings]
           mtu := mtu
           multiplexing := (importEnum multiplexingLevelNames (q.get "multiplexing")).map
             fun level => { level := some level }
           handshakeMode := importEnum handshakeModeNames (q.get "handshake-mode")
           trafficPattern := pattern }

def urlToClientProfile (link : τ) : Except ShareError ClientProfile := do
  let u ← (net.parse link).elim (.error .notParsed) .ok
  readURL net codec u

end

/-! ## The host -/

/-- Neither a port nor brackets would be taken off the text. -/
def Plain (host : Bytes) : Prop :=
  (∀ name port, host = name ++ 58 :: port → port.all isDigit = false) ∧
    ¬ (host.head? = some 91 ∧ host.getLast? = some 93)

theorem stripPort_join {name port : Bytes} (hport : port.all isDigit = true) :
    stripPort (name ++ 58 :: port) = name := by
  have hcolon : 58 ∉ port := fun h => absurd (List.all_eq_true.mp hport 58 h) (by decide)
  unfold stripPort
  simp only [afterLastColon hcolon, colonIndex]
  rw [if_pos ⟨colon_hides name port, hport⟩, List.take_left]

theorem stripPort_of_no_port {host : Bytes}
    (h : ∀ name port, host = name ++ 58 :: port → port.all isDigit = false) :
    stripPort host = host := by
  refine if_neg ?_
  rintro ⟨hlen, hdigits⟩
  -- What stands before the text after the last colon ends in this colon.
  cases hrest : host.reverse.dropWhile (· ≠ 58) with
  | nil =>
    have hall := List.dropWhile_eq_nil_iff.mp hrest
    rw [List.takeWhile_eq_self_iff.mpr hall] at hlen
    simp at hlen
  | cons c rest =>
    have hc : c = 58 := by
      have hhead := List.head?_dropWhile_not (· ≠ 58) host.reverse
      rw [hrest] at hhead
      simpa using hhead
    have hsplit := List.takeWhile_append_dropWhile (p := (· ≠ 58)) (l := host.reverse)
    rw [hrest, hc] at hsplit
    have hhost := congrArg List.reverse hsplit
    rw [List.reverse_reverse, List.reverse_append, List.reverse_cons, List.append_assoc] at hhost
    have hno := h rest.reverse _ hhost.symm
    exact Bool.false_ne_true (hno.symm.trans hdigits)

theorem length_stripBrackets_le (host : Bytes) : (stripBrackets host).length ≤ host.length := by
  unfold stripBrackets
  split_ifs
  · simp
    omega
  · exact le_refl _

theorem hostname_eq_self_iff (host : Bytes) : hostname host = host ↔ Plain host := by
  constructor
  · intro h
    have hport : ∀ name port, host = name ++ 58 :: port → port.all isDigit = false := by
      intro name port hhost
      rw [← Bool.not_eq_true]
      intro hdigits
      have hlen := length_stripBrackets_le (stripPort host)
      have hname : stripPort host = name := hhost ▸ stripPort_join hdigits
      rw [← hostname, h, hname, hhost] at hlen
      simp at hlen
    refine ⟨hport, ?_⟩
    intro hbrackets
    rw [hostname, stripPort_of_no_port hport, stripBrackets, if_pos hbrackets] at h
    have hlen := congrArg List.length h
    cases host with
    | nil => cases hbrackets.1
    | cons c rest => simp at hlen
  · rintro ⟨hport, hbrackets⟩
    rw [hostname, stripPort_of_no_port hport, stripBrackets, if_neg hbrackets]

theorem hostname_brackets (host : Bytes) : hostname ([91] ++ host ++ [93]) = host := by
  have hport : ∀ name port, [91] ++ host ++ [93] = name ++ 58 :: port →
      port.all isDigit = false := by
    intro name port h
    have hlast := congrArg List.getLast? h
    rw [List.getLast?_concat, List.getLast?_append_cons] at hlast
    rw [← Bool.not_eq_true]
    intro hdigits
    rcases List.mem_cons.mp (List.mem_of_getLast? hlast.symm) with hlast | hlast
    · cases hlast
    · exact absurd (List.all_eq_true.mp hdigits 93 hlast) (by decide)
  rw [hostname, stripPort_of_no_port hport, stripBrackets,
    if_pos ⟨rfl, List.getLast?_concat⟩]
  simp

theorem plain_of_notMem {host : Bytes} (hcolon : 58 ∉ host) (hbracket : 91 ∉ host) :
    Plain host := by
  constructor
  · rintro name port rfl
    simp at hcolon
  · rintro ⟨hhead, -⟩
    exact hbracket (List.mem_of_head? hhead)

namespace ServerEndpoint

def hostText (s : ServerEndpoint) : Bytes :=
  if s.getDomainName ≠ [] then s.getDomainName else s.getIpAddress

/-- The domain name is no IPv6 address or the like; an IPv6 address in its own field is fine. -/
def HostKept (s : ServerEndpoint) : Prop :=
  s.getDomainName = [] ∧ isIPv6 s.getIpAddress ∨ Plain s.hostText

theorem hostKept_of_address {s : ServerEndpoint} (hdomain : s.getDomainName = [])
    (haddr : (parseAddr s.getIpAddress).isSome = true) : s.HostKept := by
  obtain ⟨a, ha⟩ := Option.isSome_iff_exists.mp haddr
  rcases a.ip.length_eq with hlen | hlen
  · right
    unfold parseAddr at ha
    split at ha
    · obtain ⟨bs, hbs, -⟩ := Option.bind_eq_some_iff.mp ha
      have hchars := mem_of_parseIPv4Loop hbs
      rw [hostText, if_neg (not_not.mpr hdomain)]
      exact plain_of_notMem (fun h => absurd (hchars 58 h) (by decide))
        (fun h => absurd (hchars 91 h) (by decide))
    · unfold parseIPv6 at ha
      simp only at ha
      split_ifs at ha
      obtain ⟨bs, hbs, ha⟩ := Option.bind_eq_some_iff.mp ha
      obtain ⟨ip, hip, rfl⟩ := Option.map_eq_some_iff.mp ha
      unfold mkIP at hip
      split_ifs at hip
      cases hip
      have hlong := length_parseIPv6Bytes hbs
      exact absurd hlen (by simp only; omega)
    · cases ha
  · exact .inl ⟨hdomain, a, ha, hlen⟩

end ServerEndpoint

theorem exportedHost_spec {profileName host : Bytes} {s : ServerEndpoint}
    (h : exportedHost profileName s = .ok host) :
    s.hostText ≠ [] ∧ (hostname host = s.hostText ↔ s.HostKept) := by
  unfold exportedHost at h
  unfold ServerEndpoint.HostKept
  split_ifs at h with hdomain haddr
  · cases h
    rw [ServerEndpoint.hostText, if_pos hdomain, hostname_eq_self_iff]
    exact ⟨hdomain, by simp [hdomain]⟩
  · cases h
    rw [ServerEndpoint.hostText, if_neg hdomain]
    refine ⟨haddr, ?_⟩
    unfold maybeDecorateIPv6
    split_ifs with hipv6
    · exact iff_of_true (hostname_brackets _) (.inl ⟨not_not.mp hdomain, hipv6⟩)
    · rw [hostname_eq_self_iff]
      simp [hipv6]

theorem hostText_importServer {host : Bytes} (h : host ≠ []) (bindings : List PortBinding) :
    (importServer host bindings).hostText = host ∧
      (importServer host bindings).portBindings = bindings := by
  unfold importServer
  split_ifs
  · exact ⟨rfl, rfl⟩
  · exact ⟨if_pos h, rfl⟩

/-! ## The port bindings -/

/-- The ports a shared text stands for: a number, or two numbers with a dash. -/
def textPorts (text : Bytes) : Option (Finset ℤ) :=
  match atoi text with
  | .ok n => if 1 ≤ n ∧ n ≤ 65535 then some {n} else none
  | .error _ =>
    match text.splitOn 45 with
    | [first, last] =>
      match atoi first, atoi last with
      | .ok m, .ok n => if 1 ≤ m ∧ m ≤ n ∧ n ≤ 65535 then some (portsBetween m n) else none
      | _, _ => none
    | _ => none

theorem itoaInt_digits {n : ℤ} (hn : 0 ≤ n) :
    itoaInt n ≠ [] ∧ (itoaInt n).all isDigit = true := by
  rw [itoaInt, if_neg (by omega)]
  exact itoa_digits n.natAbs

theorem bindingPorts_itoaInt {m n : ℤ} (h : 1 ≤ m ∧ m ≤ n ∧ n ≤ 65535)
    (protocol : Option TransportProtocol) :
    bindingPorts { portRange := some (itoaInt m ++ [45] ++ itoaInt n), protocol := protocol } =
      .ok (portsBetween m n) := by
  obtain ⟨hm, hms⟩ := itoaInt_digits (n := m) (by omega)
  obtain ⟨hn, hns⟩ := itoaInt_digits (n := n) (by omega)
  rw [List.append_assoc, List.singleton_append]
  exact bindingPorts_text (validPortRange_join hm hms hn hns) (atoi_itoaInt (by omega) (by omega))
    (atoi_itoaInt (by omega) (by omega)) h protocol

theorem importBinding_of_textPorts {text : Bytes} {ports : Finset ℤ}
    (h : textPorts text = some ports) (protocol : Bytes) :
    ∃ b, importBinding text protocol = .ok b ∧
      b.getProtocol = enumValue transportProtocolNames protocol ∧ bindingPorts b = .ok ports := by
  unfold textPorts at h
  unfold importBinding
  split at h
  · split_ifs at h with hn
    cases h
    simp only [checkPortNumber, ensure_true hn, ok_bind]
    exact ⟨_, rfl, rfl, bindingPorts_port hn _⟩
  · split at h
    · split at h
      · rename_i m n hm hn
        split_ifs at h with hrange
        cases h
        simp only [hm, hn, Except.mapError, ok_bind, checkPortNumber]
        rw [ensure_true (by omega), ok_bind, ensure_true (by omega), ok_bind,
          ensure_true hrange.2.1, ok_bind]
        exact ⟨_, rfl, rfl, bindingPorts_itoaInt hrange _⟩
      · cases h
    · cases h

theorem textPorts_of_importBinding {text protocol : Bytes} {b : PortBinding}
    (h : importBinding text protocol = .ok b) : ∃ ports, textPorts text = some ports := by
  unfold importBinding at h
  unfold textPorts
  split at h
  · rename_i n _
    obtain ⟨hn, -⟩ := ensure_bind_eq_ok.mp h
    exact ⟨{n}, if_pos hn⟩
  · split at h
    · obtain ⟨m, hm, h⟩ := bind_eq_ok.mp h
      obtain ⟨n, hn, h⟩ := bind_eq_ok.mp h
      obtain ⟨hmport, h⟩ := ensure_bind_eq_ok.mp h
      obtain ⟨hnport, h⟩ := ensure_bind_eq_ok.mp h
      obtain ⟨hle, -⟩ := ensure_bind_eq_ok.mp h
      simp only [mapError_eq_ok.mp hm, mapError_eq_ok.mp hn]
      exact ⟨_, if_pos ⟨hmport.1, hle, hnport.2⟩⟩
    · cases h

def PortBinding.SharedAs (b : PortBinding) (protocol : TransportProtocol) (port : ℤ) : Prop :=
  b.getProtocol = protocol ∧ ∃ ports, textPorts (exportedPort b) = some ports ∧ port ∈ ports

def PortBinding.InRange (b : PortBinding) (port : ℤ) : Prop :=
  ∃ ports, textPorts b.getPortRange = some ports ∧ port ∈ ports

def PortBinding.Uses (b : PortBinding) (port : ℤ) : Prop :=
  if b.getPort ≠ 0 then port = b.getPort else b.InRange port

def PortBinding.Shares (b : PortBinding) (port : ℤ) : Prop :=
  if b.getPortRange ≠ [] then b.InRange port else port = b.getPort

/-- Where a binding sets both fields, the range is readable, its ports are in use by some
binding and the port is shared by some binding. -/
def SharedAlike (bindings : List PortBinding) : Prop :=
  ∀ b ∈ bindings, b.getPort ≠ 0 → b.getPortRange ≠ [] →
    (textPorts b.getPortRange).isSome ∧
    (∀ port, b.InRange port → ∃ b' ∈ bindings, b'.getProtocol = b.getProtocol ∧ b'.Uses port) ∧
    ∃ b' ∈ bindings, b'.getProtocol = b.getProtocol ∧ b'.Shares b.getPort

theorem textPorts_of_validPortRange {text small big : Bytes} {m n : ℤ}
    (htext : validPortRange text = some (small, big)) (hm : atoi small = .ok m)
    (hn : atoi big = .ok n) (h : 1 ≤ m ∧ m ≤ n ∧ n ≤ 65535) :
    textPorts text = some (portsBetween m n) := by
  obtain ⟨rfl, hsmall, hsmalls, hbig, hbigs⟩ := join_of_validPortRange htext
  have hdash : ∀ digits : Bytes, digits.all isDigit = true → 45 ∉ digits :=
    fun digits hdigits hmem => absurd (List.all_eq_true.mp hdigits 45 hmem) (by decide)
  have hsplit : (small ++ 45 :: big).splitOn 45 = [small, big] := by
    rw [List.splitOn_append_cons_self_of_not_mem (hdash small hsmalls),
      List.splitOn_eq_singleton (hdash big hbigs)]
  have hnumber : ∃ e, atoi (small ++ 45 :: big) = .error e := by
    obtain ⟨c, rest, rfl⟩ := List.exists_cons_of_ne_nil hsmall
    obtain ⟨hminus, hplus⟩ := head_of_digits hsmalls
    refine ⟨"invalid syntax", ?_⟩
    unfold atoi
    rw [List.cons_append]
    simp only [List.head?_cons] at hminus hplus ⊢
    simp only [hminus, hplus, or_self, if_false]
    exact if_pos (.inr (by simp [show isDigit 45 = false by decide]))
  obtain ⟨e, hnumber⟩ := hnumber
  unfold textPorts
  simp only [hnumber, hsplit, hm, hn]
  exact if_pos h

theorem textPorts_itoaInt {n : ℤ} (h : 1 ≤ n ∧ n ≤ 65535) : textPorts (itoaInt n) = some {n} := by
  rw [textPorts, atoi_itoaInt (by omega) (by omega)]
  exact if_pos h

theorem bindingPorts_cases {b : PortBinding} {ports : Finset ℤ} (h : bindingPorts b = .ok ports) :
    (b.getPort ≠ 0 ∧ ports = {b.getPort} ∧ textPorts (itoaInt b.getPort) = some ports) ∨
      (b.getPort = 0 ∧ b.getPortRange ≠ [] ∧ textPorts b.getPortRange = some ports) := by
  unfold bindingPorts at h
  split_ifs at h with hport
  · obtain ⟨hcheck, h⟩ := check_bind_eq_ok.mp h
    cases h
    exact .inl ⟨hport, rfl, textPorts_itoaInt (checkPort_eq_ok.mp hcheck)⟩
  · split at h
    · cases h
    · rename_i small big htext
      obtain ⟨m, hm, h⟩ := bind_eq_ok.mp h
      obtain ⟨n, hn, h⟩ := bind_eq_ok.mp h
      simp only [check_bind_eq_ok, checkPort_eq_ok, ensure_eq_ok] at h
      obtain ⟨hmport, hnport, hle, h⟩ := h
      cases h
      refine .inr ⟨not_not.mp hport, ?_, textPorts_of_validPortRange htext (mapError_eq_ok.mp hm)
        (mapError_eq_ok.mp hn) ⟨hmport.1, hle, hnport.2⟩⟩
      rw [(join_of_validPortRange htext).1]
      simp

theorem exportedPort_of_range {b : PortBinding} (h : b.getPortRange ≠ []) :
    exportedPort b = b.getPortRange := if_pos h

section
variable {b : PortBinding} {protocol : TransportProtocol} {n : ℤ} (h : b.Accepted)
include h

theorem has_iff_uses : b.Has protocol n ↔ b.getProtocol = protocol ∧ b.Uses n := by
  obtain ⟨-, ports, hports⟩ := h
  refine and_congr_right fun _ => ?_
  simp only [hports, Except.ok.injEq, exists_eq_left']
  rcases bindingPorts_cases hports with ⟨hport, rfl, -⟩ | ⟨hport, -, htext⟩
  · simp [PortBinding.Uses, hport]
  · simp [PortBinding.Uses, PortBinding.InRange, hport, htext]

theorem sharedAs_iff_shares : b.SharedAs protocol n ↔ b.getProtocol = protocol ∧ b.Shares n := by
  obtain ⟨-, ports, hports⟩ := h
  refine and_congr_right fun _ => ?_
  by_cases hrange : b.getPortRange = []
  · rcases bindingPorts_cases hports with ⟨-, rfl, htext⟩ | ⟨-, hset, -⟩
    · simp [PortBinding.Shares, exportedPort, hrange, htext]
    · exact absurd hrange hset
  · rw [exportedPort_of_range hrange, PortBinding.Shares, if_pos hrange, PortBinding.InRange]

theorem single_shared (hsingle : b.getPort = 0 ∨ b.getPortRange = []) :
    (∃ ports, textPorts (exportedPort b) = some ports) ∧ (b.Shares n ↔ b.Uses n) := by
  obtain ⟨-, ports, hports⟩ := h
  rcases bindingPorts_cases hports with ⟨hport, -, htext⟩ | ⟨hport, hrange, htext⟩
  · have hrange : b.getPortRange = [] := hsingle.resolve_left hport
    simp [exportedPort, hrange, htext, PortBinding.Shares, PortBinding.Uses, hport]
  · simp [exportedPort_of_range hrange, htext, PortBinding.Shares, PortBinding.Uses, hport, hrange]

end

theorem sharedAlike_of_single {bindings : List PortBinding}
    (h : ∀ b ∈ bindings, b.getPort = 0 ∨ b.getPortRange = []) : SharedAlike bindings := by
  intro b hb hport hrange
  exact absurd (h b hb) (not_or.mpr ⟨hport, hrange⟩)

theorem sharedAlike_iff {bindings : List PortBinding} (h : ∀ b ∈ bindings, b.Accepted) :
    SharedAlike bindings ↔
      (∀ b ∈ bindings, ∃ ports, textPorts (exportedPort b) = some ports) ∧
        ∀ protocol n, (∃ b ∈ bindings, b.SharedAs protocol n) ↔
          ∃ b ∈ bindings, b.Has protocol n := by
  constructor
  · intro hboth
    refine ⟨?_, fun protocol n => ⟨?_, ?_⟩⟩
    · intro b hb
      by_cases hsingle : b.getPort = 0 ∨ b.getPortRange = []
      · exact (single_shared (n := 0) (h b hb) hsingle).1
      · obtain ⟨hport, hrange⟩ := not_or.mp hsingle
        rw [exportedPort_of_range hrange]
        exact Option.isSome_iff_exists.mp (hboth b hb hport hrange).1
    · rintro ⟨b, hb, hshared⟩
      obtain ⟨rfl, hshares⟩ := (sharedAs_iff_shares (h b hb)).mp hshared
      by_cases hsingle : b.getPort = 0 ∨ b.getPortRange = []
      · have huses := (single_shared (h b hb) hsingle).2.mp hshares
        exact ⟨b, hb, (has_iff_uses (h b hb)).mpr ⟨rfl, huses⟩⟩
      · obtain ⟨hport, hrange⟩ := not_or.mp hsingle
        rw [PortBinding.Shares, if_pos hrange] at hshares
        obtain ⟨b', hb', hsame⟩ := (hboth b hb hport hrange).2.1 n hshares
        exact ⟨b', hb', (has_iff_uses (h b' hb')).mpr hsame⟩
    · rintro ⟨b, hb, hhas⟩
      obtain ⟨rfl, huses⟩ := (has_iff_uses (h b hb)).mp hhas
      by_cases hsingle : b.getPort = 0 ∨ b.getPortRange = []
      · have hshares := (single_shared (h b hb) hsingle).2.mpr huses
        exact ⟨b, hb, (sharedAs_iff_shares (h b hb)).mpr ⟨rfl, hshares⟩⟩
      · obtain ⟨hport, hrange⟩ := not_or.mp hsingle
        rw [PortBinding.Uses, if_pos hport] at huses
        obtain ⟨b', hb', hsame⟩ := (hboth b hb hport hrange).2.2
        exact ⟨b', hb', (sharedAs_iff_shares (h b' hb')).mpr (huses ▸ hsame)⟩
  · rintro ⟨hreadable, hports⟩ b hb hport hrange
    refine ⟨?_, ?_, ?_⟩
    · rw [← exportedPort_of_range hrange]
      exact Option.isSome_iff_exists.mpr (hreadable b hb)
    · intro n hn
      have hshares : b.Shares n := (if_pos hrange).mpr hn
      obtain ⟨b', hb', hhas⟩ := (hports b.getProtocol n).mp
        ⟨b, hb, (sharedAs_iff_shares (h b hb)).mpr ⟨rfl, hshares⟩⟩
      exact ⟨b', hb', (has_iff_uses (h b' hb')).mp hhas⟩
    · have huses : b.Uses b.getPort := (if_pos hport).mpr rfl
      obtain ⟨b', hb', hshared⟩ := (hports b.getProtocol b.getPort).mpr
        ⟨b, hb, (has_iff_uses (h b hb)).mpr ⟨rfl, huses⟩⟩
      exact ⟨b', hb', (sharedAs_iff_shares (h b' hb')).mp hshared⟩

def Imported (bindings bindings' : List PortBinding) : Prop :=
  List.Forall₂ (fun b b' => importBinding (exportedPort b)
    (enumString transportProtocolNames b.getProtocol) = .ok b') bindings bindings'

theorem enumValue_enumString {protocol : TransportProtocol} (h : protocol = tcp ∨ protocol = udp) :
    enumValue transportProtocolNames (enumString transportProtocolNames protocol) = protocol := by
  rcases h with rfl | rfl
  · decide
  · decide

theorem imported_binding {b b' : PortBinding} (hb : b.Accepted)
    (h : importBinding (exportedPort b)
      (enumString transportProtocolNames b.getProtocol) = .ok b') :
    b'.Accepted ∧ (∃ ports, textPorts (exportedPort b) = some ports) ∧
      ∀ protocol n, b'.Has protocol n ↔ b.SharedAs protocol n := by
  obtain ⟨ports, hports⟩ := textPorts_of_importBinding h
  obtain ⟨b'', hb'', hprotocol, hbinding⟩ := importBinding_of_textPorts hports
    (enumString transportProtocolNames b.getProtocol)
  cases h.symm.trans hb''
  rw [enumValue_enumString hb.1] at hprotocol
  refine ⟨⟨hprotocol ▸ hb.1, ports, hbinding⟩, ⟨ports, hports⟩, ?_⟩
  intro protocol n
  unfold PortBinding.Has PortBinding.SharedAs
  simp [hprotocol, hbinding, hports]

theorem imported_spec {bindings bindings' : List PortBinding} (h : ∀ b ∈ bindings, b.Accepted)
    (himported : Imported bindings bindings') :
    (∀ b ∈ bindings', b.Accepted) ∧
      (∀ b ∈ bindings, ∃ ports, textPorts (exportedPort b) = some ports) ∧
      ∀ protocol n, (∃ b ∈ bindings', b.Has protocol n) ↔
        ∃ b ∈ bindings, b.SharedAs protocol n := by
  induction himported with
  | nil => simp
  | cons hb _ ih =>
    obtain ⟨haccepted, hrest⟩ := List.forall_mem_cons.mp h
    obtain ⟨hfirst, hreadable, hports⟩ := imported_binding haccepted hb
    obtain ⟨hfirsts, hreadables, hportss⟩ := ih hrest
    refine ⟨List.forall_mem_cons.mpr ⟨hfirst, hfirsts⟩,
      List.forall_mem_cons.mpr ⟨hreadable, hreadables⟩, ?_⟩
    intro protocol n
    rw [List.exists_mem_cons_iff, List.exists_mem_cons_iff, hports, hportss]

theorem exists_imported {bindings : List PortBinding}
    (h : ∀ b ∈ bindings, ∃ ports, textPorts (exportedPort b) = some ports) :
    ∃ bindings', Imported bindings bindings' := by
  simp only [Imported, ← mapM_eq_ok]
  refine exists_mapM_eq_ok.mpr ?_
  intro b hb
  obtain ⟨ports, hports⟩ := h b hb
  obtain ⟨b', hb', -⟩ := importBinding_of_textPorts hports
    (enumString transportProtocolNames b.getProtocol)
  exact ⟨b', hb'⟩

theorem imported_flat_iff {bindings : List PortBinding} (h : ∀ b ∈ bindings, b.Accepted) :
    (∃ bindings', Imported bindings bindings' ∧
      flatPortBindings bindings' = flatPortBindings bindings) ↔ SharedAlike bindings := by
  rw [sharedAlike_iff h]
  constructor
  · rintro ⟨bindings', himported, hflat⟩
    obtain ⟨haccepted, hreadable, hports⟩ := imported_spec h himported
    refine ⟨hreadable, ?_⟩
    intro protocol n
    rw [← hports]
    exact (flat_eq_iff haccepted h).mp hflat protocol n
  · rintro ⟨hreadable, hshared⟩
    obtain ⟨bindings', himported⟩ := exists_imported hreadable
    obtain ⟨haccepted, -, hports⟩ := imported_spec h himported
    refine ⟨bindings', himported, (flat_eq_iff haccepted h).mpr ?_⟩
    intro protocol n
    rw [hports, hshared]

/-! ## The query -/

theorem values_add (q : Values) (key : String) (value : Bytes) (k : String) :
    (q.add key value).values k = q.values k ++ if k = key then [value] else [] := by
  by_cases hk : k = key
  · simp [Values.add, Values.values, hk]
  · simp [Values.add, Values.values, hk, Ne.symm hk]

theorem values_addOption (q : Values) (key : String) (value : Option Bytes) (k : String) :
    (q.addOption key value).values k = q.values k ++ if k = key then value.toList else [] := by
  cases value with
  | none => simp [Values.addOption]
  | some value => exact values_add q key value k

theorem values_foldl (bindings : List PortBinding) (q : Values) (key : String) :
    (bindings.foldl addExported q).values key = q.values key ++
      if key = "port" then bindings.map exportedPort
      else if key = "protocol" then
        bindings.map fun b => enumString transportProtocolNames b.getProtocol
      else [] := by
  induction bindings generalizing q with
  | nil => simp
  | cons b bindings ih =>
    rw [List.foldl_cons, ih, addExported, values_add, values_add]
    by_cases hport : key = "port"
    · simp [hport]
    · by_cases hprotocol : key = "protocol"
      · simp [hprotocol]
      · simp [hport, hprotocol]

theorem values_settings (profile : ClientProfile) (pattern : Option Bytes) :
    (settings profile pattern).values "profile" = [profile.getProfileName] ∧
      (settings profile pattern).values "mtu" =
        (profile.mtu.map fun mtu => itoaInt mtu.toInt).toList ∧
      (settings profile pattern).values "traffic-pattern" = pattern.toList ∧
      (settings profile pattern).values "port" = [] ∧
      (settings profile pattern).values "protocol" = [] := by
  have hempty (key : String) : ({} : Values).values key = [] := rfl
  simp [settings, values_addOption, values_add, hempty]

theorem importMTU_exported (mtu : Option Int32) :
    importMTU ((mtu.map fun mtu => itoaInt mtu.toInt).toList.headD []) = .ok mtu := by
  cases mtu with
  | none => rfl
  | some mtu =>
    have hlow := mtu.le_toInt
    have hhigh := mtu.toInt_lt
    have hne : itoaInt mtu.toInt ≠ [] := by
      unfold itoaInt
      split_ifs
      · simp
      · exact (itoa_digits _).1
    simp only [Option.map_some, Option.toList_some, List.headD_cons]
    rw [importMTU, if_pos hne, atoi_itoaInt (by omega) (by omega)]
    simp [Except.mapError, Except.map]

/-! ## Round trip -/

/-- Parsing inverts formatting: the query that is read has the same values. -/
def NetURL.ReadsQuery {τ ρ : Type} (net : NetURL τ ρ) (q : Values) : Prop :=
  ∃ q', net.parseQuery (net.encode q) = some q' ∧ ∀ key, q'.values key = q.values key

/-- What base64 and the wire format promise for a pattern that was written. -/
def PatternCodec.Reads (codec : PatternCodec) : Prop :=
  ∀ tp text, codec.encode tp = .ok text → codec.decode text = .ok tp

/-- The shared profile has one server, and otherwise the same settings. -/
def SameProfile (profile : ClientProfile) (server : ServerEndpoint) (p : ClientProfile) : Prop :=
  p.getProfileName = profile.getProfileName ∧ p.getUserName = profile.getUserName ∧
    p.getPassword = profile.getPassword ∧ p.mtu = profile.mtu ∧
    ∃ server', p.servers = [server'] ∧ server'.hostText = server.hostText ∧
      flatPortBindings server'.portBindings = flatPortBindings server.portBindings

section
variable {τ ρ : Type} {net : NetURL τ ρ} {codec : PatternCodec} {profile : ClientProfile}
  {server : ServerEndpoint} {u : URL ρ}

theorem importPattern_exported (hcodec : codec.Reads) {pattern : Option Bytes}
    (h : exportedPattern codec profile.trafficPattern = .ok pattern) :
    ∃ tp, importPattern codec (pattern.toList.headD []) = .ok tp := by
  unfold exportedPattern at h
  split at h
  · cases h
    exact ⟨none, rfl⟩
  · rename_i tp _
    cases hencode : codec.encode tp with
    | error e =>
      rw [hencode] at h
      cases h
    | ok text =>
      rw [hencode] at h
      cases h
      simp only [Option.toList_some, List.headD_cons]
      unfold importPattern
      split_ifs
      · rw [hcodec tp text hencode]
        exact ⟨some tp, rfl⟩
      · exact ⟨none, rfl⟩

theorem readURL_exported
    (hquery : ∀ pattern, exportedPattern codec profile.trafficPattern = .ok pattern →
      net.ReadsQuery (exportedQuery profile server pattern))
    (hcodec : codec.Reads) (hname : profile.getProfileName ≠ [])
    (huser : profile.getUserName ≠ []) (hpassword : profile.getPassword ≠ [])
    (hu : serverURL net codec profile server = .ok u) :
    ∃ read : List PortBinding → ClientProfile,
      (∀ p, readURL net codec u = .ok p ↔ hostname u.host ≠ [] ∧
        ∃ bindings, Imported server.portBindings bindings ∧ p = read bindings) ∧
      ∀ bindings, (read bindings).getProfileName = profile.getProfileName ∧
        (read bindings).getUserName = profile.getUserName ∧
        (read bindings).getPassword = profile.getPassword ∧
        (read bindings).mtu = profile.mtu ∧
        (read bindings).servers = [importServer (hostname u.host) bindings] := by
  obtain ⟨host, -, hu⟩ := bind_eq_ok.mp hu
  obtain ⟨-, hu⟩ := ensure_bind_eq_ok.mp hu
  obtain ⟨pattern, hpattern, hu⟩ := bind_eq_ok.mp hu
  cases hu
  obtain ⟨tp, htp⟩ := importPattern_exported hcodec hpattern
  obtain ⟨hprofile, hmtu, htraffic, hport, hprotocol⟩ := values_settings profile pattern
  obtain ⟨q, hparsed, hq⟩ := hquery pattern hpattern
  have hkey (key : String) := (hq key).symm
  simp only [exportedQuery, values_foldl] at hkey
  have hnameq : q.get "profile" = profile.getProfileName := by
    rw [Values.get, ← hkey, hprofile]
    rfl
  have hmtuq : importMTU (q.get "mtu") = .ok profile.mtu := by
    rw [← importMTU_exported, ← hmtu, Values.get, ← hkey, if_neg (by decide), if_neg (by decide),
      List.append_nil]
  have htpq : importPattern codec (q.get "traffic-pattern") = .ok tp := by
    rw [← htp, ← htraffic, Values.get, ← hkey, if_neg (by decide), if_neg (by decide),
      List.append_nil]
  have hportq : q.values "port" = server.portBindings.map exportedPort := by
    rw [← hkey, hport, if_pos rfl, List.nil_append]
  have hprotocolq : q.values "protocol" = server.portBindings.map fun b =>
      enumString transportProtocolNames b.getProtocol := by
    rw [← hkey, hprotocol, if_neg (by decide), if_pos rfl, List.nil_append]
  refine ⟨fun bindings =>
    { profileName := some profile.getProfileName
      user := some { name := some profile.getUserName, password := some profile.getPassword }
      servers := [importServer (hostname host) bindings]
      mtu := profile.mtu
      multiplexing := (importEnum multiplexingLevelNames (q.get "multiplexing")).map
        fun level => { level := some level }
      handshakeMode := importEnum handshakeModeNames (q.get "handshake-mode")
      trafficPattern := tp }, ?_, fun bindings => ⟨rfl, rfl, rfl, rfl, rfl⟩⟩
  intro p
  unfold readURL
  simp only [hparsed, Option.elim_some, ok_bind]
  rw [ensure_true trivial, ok_bind, ensure_true trivial, ok_bind, ensure_true huser, ok_bind,
    ensure_true hpassword, ok_bind, ensure_bind_eq_ok, hnameq, ensure_true hname, ok_bind, hmtuq,
    ok_bind, htpq, ok_bind, hportq, hprotocolq, ensure_true (by simp), ok_bind, List.zip_map',
    bind_eq_ok]
  simp only [mapM_eq_ok, List.forall₂_map_left_iff]
  refine and_congr_right fun _ => exists_congr fun bindings => and_congr_right fun _ => ?_
  exact ⟨fun h => (Except.ok.inj h).symm, fun h => congrArg _ h.symm⟩

theorem exportedHost_ok_iff {profileName : Bytes} {s : ServerEndpoint} :
    (∃ host, exportedHost profileName s = .ok host) ↔ s.hostText ≠ [] := by
  unfold exportedHost ServerEndpoint.hostText
  split_ifs with hdomain haddr
  · exact iff_of_true ⟨_, rfl⟩ hdomain
  · exact iff_of_true ⟨_, rfl⟩ haddr
  · exact iff_of_false (by simp) haddr

theorem clientProfileToMultiURLs_ok_iff :
    (∃ links, clientProfileToMultiURLs net codec profile = .ok links) ↔
      profile.getProfileName ≠ [] ∧ profile.getUserName ≠ [] ∧ profile.getPassword ≠ [] ∧
        profile.servers ≠ [] ∧ ∀ s ∈ profile.servers, s.hostText ≠ [] ∧ s.portBindings ≠ [] ∧
          ∃ pattern, exportedPattern codec profile.trafficPattern = .ok pattern := by
  have hserver (s : ServerEndpoint) : (∃ u, serverURL net codec profile s = .ok u) ↔
      s.hostText ≠ [] ∧ s.portBindings ≠ [] ∧
        ∃ pattern, exportedPattern codec profile.trafficPattern = .ok pattern := by
    have hhosts : (∃ host, exportedHost profile.getProfileName s = .ok host) ↔ s.hostText ≠ [] :=
      exportedHost_ok_iff
    rw [← hhosts]
    constructor
    · rintro ⟨u, hu⟩
      obtain ⟨host, hhost, hu⟩ := bind_eq_ok.mp hu
      obtain ⟨hbindings, hu⟩ := ensure_bind_eq_ok.mp hu
      obtain ⟨pattern, hpattern, -⟩ := bind_eq_ok.mp hu
      exact ⟨⟨host, hhost⟩, hbindings, pattern, hpattern⟩
    · rintro ⟨⟨host, hhost⟩, hbindings, pattern, hpattern⟩
      exact ⟨_, bind_eq_ok.mpr ⟨host, hhost, ensure_bind_eq_ok.mpr
        ⟨hbindings, bind_eq_ok.mpr ⟨pattern, hpattern, rfl⟩⟩⟩⟩
  simp only [← hserver, ← exists_mapM_eq_ok]
  constructor
  · rintro ⟨links, hlinks⟩
    obtain ⟨urls, hurls, -⟩ := bind_eq_ok.mp hlinks
    obtain ⟨hname, hurls⟩ := ensure_bind_eq_ok.mp hurls
    obtain ⟨huser, hurls⟩ := ensure_bind_eq_ok.mp hurls
    obtain ⟨hpassword, hurls⟩ := ensure_bind_eq_ok.mp hurls
    obtain ⟨hservers, hurls⟩ := ensure_bind_eq_ok.mp hurls
    exact ⟨hname, huser, hpassword, hservers, urls, hurls⟩
  · rintro ⟨hname, huser, hpassword, hservers, urls, hurls⟩
    have hprofile : profileURLs net codec profile = .ok urls := by
      unfold profileURLs
      rw [ensure_true hname, ok_bind, ensure_true huser, ok_bind, ensure_true hpassword, ok_bind,
        ensure_true hservers, ok_bind, hurls]
    exact ⟨_, bind_eq_ok.mpr ⟨urls, hprofile, rfl⟩⟩

theorem server_shared_iff
    (hquery : ∀ pattern, exportedPattern codec profile.trafficPattern = .ok pattern →
      net.ReadsQuery (exportedQuery profile server pattern))
    (hcodec : codec.Reads) (hname : profile.getProfileName ≠ [])
    (huser : profile.getUserName ≠ []) (hpassword : profile.getPassword ≠ [])
    (hu : serverURL net codec profile server = .ok u)
    (haccepted : ∀ b ∈ server.portBindings, b.Accepted) :
    (∃ p, readURL net codec u = .ok p ∧ SameProfile profile server p) ↔
      server.HostKept ∧ SharedAlike server.portBindings := by
  obtain ⟨host, hhost, hrest⟩ := bind_eq_ok.mp hu
  have hhostu : u.host = host := by
    obtain ⟨-, hrest⟩ := ensure_bind_eq_ok.mp hrest
    obtain ⟨pattern, -, hrest⟩ := bind_eq_ok.mp hrest
    cases hrest
    rfl
  obtain ⟨hhostne, hkept⟩ := exportedHost_spec hhost
  obtain ⟨read, hread, hsame⟩ := readURL_exported hquery hcodec hname huser hpassword hu
  rw [← hkept, ← imported_flat_iff haccepted, ← hhostu]
  constructor
  · rintro ⟨p, hp, -, -, -, -, server', hservers, hhosttext, hports⟩
    obtain ⟨hne, bindings, himported, rfl⟩ := (hread p).mp hp
    obtain ⟨-, -, -, -, hserver'⟩ := hsame bindings
    obtain ⟨htext, hport⟩ := hostText_importServer hne bindings
    cases hservers.symm.trans hserver'
    exact ⟨htext.symm.trans hhosttext, bindings, himported, hport ▸ hports⟩
  · rintro ⟨htext, bindings, himported, hports⟩
    have hne : hostname u.host ≠ [] := htext ▸ hhostne
    obtain ⟨hprofile, husers, hpasswords, hmtu, hservers⟩ := hsame bindings
    obtain ⟨htext', hport⟩ := hostText_importServer hne bindings
    exact ⟨read bindings, (hread _).mpr ⟨hne, bindings, himported, rfl⟩, hprofile, husers,
      hpasswords, hmtu, _, hservers, htext'.trans htext, hport.symm ▸ hports⟩

theorem urlToClientProfile_string (hparse : net.parse (net.string u) = some u) :
    urlToClientProfile net codec (net.string u) = readURL net codec u := by
  rw [urlToClientProfile, hparse]
  rfl

/-- Every link of a profile is read as a profile with the same settings and server exactly when
the host is no text that looks like a host with a port, and the shared ports are those in use. -/
theorem shared_profile_iff {links : List τ} {link : τ}
    (hparse : ∀ urls, profileURLs net codec profile = .ok urls →
      ∀ u ∈ urls, net.parse (net.string u) = some u)
    (hquery : ∀ pattern, exportedPattern codec profile.trafficPattern = .ok pattern →
      net.ReadsQuery (exportedQuery profile server pattern)) (hcodec : codec.Reads)
    (hlinks : clientProfileToMultiURLs net codec profile = .ok links)
    (hlink : (server, link) ∈ profile.servers.zip links)
    (hbindings : ∃ flat, flatPortBindings server.portBindings = .ok flat) :
    (∃ p, urlToClientProfile net codec link = .ok p ∧ SameProfile profile server p) ↔
      server.HostKept ∧ SharedAlike server.portBindings := by
  obtain ⟨urls, hurls, hlinks⟩ := bind_eq_ok.mp hlinks
  cases hlinks
  rw [List.zip_map_right] at hlink
  obtain ⟨⟨server', u⟩, hu, heq⟩ := List.mem_map.mp hlink
  cases heq
  have hread : urlToClientProfile net codec (net.string u) = readURL net codec u :=
    urlToClientProfile_string (hparse urls hurls u (List.of_mem_zip hu).2)
  obtain ⟨flat, hflat⟩ := hbindings
  obtain ⟨hname, hurls⟩ := ensure_bind_eq_ok.mp hurls
  obtain ⟨huser, hurls⟩ := ensure_bind_eq_ok.mp hurls
  obtain ⟨hpassword, hurls⟩ := ensure_bind_eq_ok.mp hurls
  obtain ⟨-, hurls⟩ := ensure_bind_eq_ok.mp hurls
  have hserver := (List.forall₂_iff_zip.mp (mapM_eq_ok.mp hurls)).2 hu
  have hsame := server_shared_iff hquery hcodec hname huser hpassword hserver
    (accepted_of_flat hflat)
  simpa only [Prod.map, id, hread] using hsame

end

/-! ## Links as text -/

def isUnreserved (c : UInt8) : Bool :=
  isDigit c || (65 ≤ c && c ≤ 90) || (97 ≤ c && c ≤ 122) || [45, 46, 95, 126].contains c

def hexByte (n : UInt8) : UInt8 := if n < 10 then 48 + n else 55 + n

def queryEscape (s : Bytes) : Bytes :=
  s.flatMap fun c =>
    if c = 32 then [43]
    else if isUnreserved c then [c]
    else [37, hexByte (c / 16), hexByte (c % 16)]

def queryUnescape : Bytes → Option Bytes
  | [] => some []
  | c :: rest =>
    if c = 37 then
      match rest with
      | hi :: lo :: rest => do
        return ((← TrafficPattern.fromHexChar hi) * 16 + (← TrafficPattern.fromHexChar lo)) ::
          (← queryUnescape rest)
      | _ => none
    else do return (if c = 43 then 32 else c) :: (← queryUnescape rest)

def sortedPairs (q : Values) : List (String × Bytes) :=
  q.pairs.insertionSort fun a b => a.1 ≤ b.1

theorem values_sortedPairs (q : Values) (key : String) :
    Values.values ⟨sortedPairs q⟩ key = q.values key := by
  unfold Values.values sortedPairs
  -- The pairs with one key are in order already, so sorting keeps them in their order.
  have hkey : (q.pairs.filter fun pair => pair.1 = key).Pairwise fun a b => a.1 ≤ b.1 := by
    refine List.pairwise_of_forall_mem_list fun a ha b hb => ?_
    simp only [List.mem_filter, decide_eq_true_eq] at ha hb
    exact le_of_eq (ha.2.trans hb.2.symm)
  have hsub := (List.sublist_insertionSort hkey List.filter_sublist).filter
    fun pair => pair.1 = key
  have hperm := (List.perm_insertionSort (fun a b : String × Bytes => a.1 ≤ b.1) q.pairs).filter
    fun pair => pair.1 = key
  rw [List.filter_filter] at hsub
  simp only [Bool.and_self] at hsub
  rw [hsub.eq_of_length hperm.length_eq.symm]

def cutAt (sep : UInt8) (s : Bytes) : Bytes × Bytes :=
  (s.takeWhile (· ≠ sep), (s.dropWhile (· ≠ sep)).drop 1)

def textNet : NetURL Bytes Bytes where
  string u :=
    u.scheme ++ ascii "://" ++
      u.user.elim [] (fun (name, password) =>
        queryEscape name ++ 58 :: queryEscape password ++ [64]) ++
      u.host ++ 63 :: u.rawQuery
  parse link := do
    let (scheme, rest) := cutAt 58 link
    let (userinfo, rest) := cutAt 64 (rest.drop 2)
    let (name, password) := cutAt 58 userinfo
    let (host, query) := cutAt 63 rest
    return { scheme := scheme, user := some (← queryUnescape name, ← queryUnescape password),
             host := host, rawQuery := query }
  encode q := [38].intercalate ((sortedPairs q).map fun (key, value) =>
    queryEscape (ascii key) ++ 61 :: queryEscape value)
  parseQuery text := do
    let pairs ← (text.splitOn 38).mapM fun segment => do
      let (key, value) := cutAt 61 segment
      return (String.ofList ((← queryUnescape key).map fun c => Char.ofNat c.toNat),
        ← queryUnescape value)
    return ⟨pairs⟩

/-! ## Two profiles -/

def emptyCodec : PatternCodec where
  encode tp := if tp = {} then .ok [65] else .error "not written"
  decode _ := .ok {}

theorem emptyCodec_reads : emptyCodec.Reads := by
  intro tp text h
  unfold emptyCodec at h
  simp only at h
  split_ifs at h with htp
  rw [htp]
  rfl

def sampleProfile (server : ServerEndpoint) : ClientProfile where
  profileName := some (ascii "home")
  user := some { name := some (ascii "user"), password := some (ascii "secret") }
  servers := [server]
  mtu := some 1400
  trafficPattern := some {}

def plainServer : ServerEndpoint where
  domainName := some (ascii "example.com")
  portBindings := [{ port := some 443, protocol := some tcp },
    { portRange := some (ascii "2000-2010"), protocol := some udp }]

def twofoldBinding : PortBinding where
  port := some 80
  portRange := some (ascii "1-2")
  protocol := some tcp

def twofoldServer : ServerEndpoint where
  domainName := some (ascii "example.com")
  portBindings := [twofoldBinding]

theorem plainServer_accepted : ∀ b ∈ plainServer.portBindings, b.Accepted := by
  unfold plainServer
  simp only [List.forall_mem_cons]
  exact ⟨⟨.inl rfl, _, rfl⟩, ⟨.inr rfl, _, rfl⟩, by simp⟩

theorem twofoldServer_accepted : ∀ b ∈ twofoldServer.portBindings, b.Accepted := by
  unfold twofoldServer
  simp only [List.forall_mem_cons]
  exact ⟨⟨.inl rfl, _, rfl⟩, by simp⟩

theorem twofoldServer_ports : ¬ SharedAlike twofoldServer.portBindings := by
  intro hshared
  obtain ⟨-, hused, -⟩ := hshared twofoldBinding (List.mem_singleton_self _) (by decide) (by decide)
  obtain ⟨b, hb, -, huses⟩ := hused 1 ⟨portsBetween 1 2, by decide, by decide⟩
  cases List.mem_singleton.mp hb
  rw [PortBinding.Uses, if_pos (by decide)] at huses
  exact absurd huses (by decide)

section
variable {server : ServerEndpoint} (h : server = plainServer ∨ server = twofoldServer)
include h

theorem textNet_readsQuery (pattern : Option Bytes)
    (hpattern : exportedPattern emptyCodec (sampleProfile server).trafficPattern = .ok pattern) :
    textNet.ReadsQuery (exportedQuery (sampleProfile server) server pattern) := by
  cases hpattern
  refine ⟨_, ?_, values_sortedPairs _⟩
  rcases h with rfl | rfl
  · decide +kernel
  · decide +kernel

theorem textNet_parse {u : URL Bytes}
    (hu : serverURL textNet emptyCodec (sampleProfile server) server = .ok u) :
    textNet.parse (textNet.string u) = some u := by
  rcases h with rfl | rfl
  · cases hu
    decide +kernel
  · cases hu
    decide +kernel

end

theorem plainServer_shared : ∃ links link,
    clientProfileToMultiURLs textNet emptyCodec (sampleProfile plainServer) = .ok links ∧
      (plainServer, link) ∈ (sampleProfile plainServer).servers.zip links ∧
      ∃ p, urlToClientProfile textNet emptyCodec link = .ok p ∧
        SameProfile (sampleProfile plainServer) plainServer p := by
  obtain ⟨tcpPorts, udpPorts, hflat, -⟩ := flat_of_accepted plainServer_accepted
  refine ⟨_, _, rfl, List.mem_singleton_self _, ?_⟩
  have hparse : ∀ urls, profileURLs textNet emptyCodec (sampleProfile plainServer) = .ok urls →
      ∀ u ∈ urls, textNet.parse (textNet.string u) = some u := by
    intro urls hurls u hu
    have hone : profileURLs textNet emptyCodec (sampleProfile plainServer) = .ok [_] := rfl
    cases hone.symm.trans hurls
    cases List.mem_singleton.mp hu
    exact textNet_parse (.inl rfl) rfl
  refine (shared_profile_iff hparse (textNet_readsQuery (.inl rfl)) emptyCodec_reads rfl
    (List.mem_singleton_self _) ⟨_, hflat⟩).mpr ⟨?_, ?_⟩
  · exact .inr (plain_of_notMem (by decide) (by decide))
  · exact sharedAlike_of_single (by decide)

theorem twofoldServer_not_shared : ∃ links link,
    clientProfileToMultiURLs textNet emptyCodec (sampleProfile twofoldServer) = .ok links ∧
      (twofoldServer, link) ∈ (sampleProfile twofoldServer).servers.zip links ∧
      (∃ flat, flatPortBindings twofoldServer.portBindings = .ok flat) ∧
      ¬ ∃ p, urlToClientProfile textNet emptyCodec link = .ok p ∧
        SameProfile (sampleProfile twofoldServer) twofoldServer p := by
  obtain ⟨tcpPorts, udpPorts, hflat, -⟩ := flat_of_accepted twofoldServer_accepted
  refine ⟨_, _, rfl, List.mem_singleton_self _, ⟨_, hflat⟩, ?_⟩
  have hname : (sampleProfile twofoldServer).getProfileName ≠ [] := by decide
  have huser : (sampleProfile twofoldServer).getUserName ≠ [] := by decide
  have hpassword : (sampleProfile twofoldServer).getPassword ≠ [] := by decide
  have hu : serverURL textNet emptyCodec (sampleProfile twofoldServer) twofoldServer = .ok _ := rfl
  rw [urlToClientProfile_string (textNet_parse (.inr rfl) hu), server_shared_iff
    (textNet_readsQuery (.inr rfl)) emptyCodec_reads hname huser hpassword hu
    twofoldServer_accepted]
  exact fun hshared => twofoldServer_ports hshared.2

end Mieru.AppCtl
