import Mieru.Socks5.Request

/-! # Egress decision of the proxy server

`serverServeConn` reads a request, asks `findAction` what to do with its raw
bytes, and then acts on the request it read first. The pick of a random proxy is
an argument; replies are collected and always reach the client. -/
namespace Mieru.Socks5

open Net ByteReader Result

inductive ProxyProtocol where
  | unknown
  | socks5
  | other (n : ℤ)
  deriving DecidableEq

/-- An open protobuf enumeration: a rule may carry a value outside the three. -/
inductive EgressAction where
  | proxy
  | direct
  | reject
  | other (n : ℤ)
  deriving DecidableEq

structure EgressProxy where
  name : Bytes
  host : Bytes
  port : ℕ
  deriving DecidableEq

structure EgressRule where
  ipRanges : List Bytes
  domainNames : List Bytes
  action : EgressAction
  proxyNames : List Bytes
  deriving DecidableEq

structure Egress where
  proxies : List EgressProxy
  rules : List EgressRule
  deriving DecidableEq

structure User where
  allowPrivateIP : Bool
  allowLoopbackIP : Bool
  deriving DecidableEq

structure Credential where
  user : Bytes
  password : Bytes
  deriving DecidableEq

inductive DualStackPreference where
  | useFirst
  | preferIPv4
  | preferIPv6
  | onlyIPv4
  | onlyIPv6
  deriving DecidableEq

inductive UDPAssociateMode where
  | packetOverStream
  | datagram
  deriving DecidableEq

/-- `resolver` is `LookupIP` for network "ip": an error or a list of addresses. -/
structure Config where
  clientSideAuthentication : Bool
  ingressCredentials : List Credential
  resolver : Bytes → Option (List IP)
  udpAssociateMode : UDPAssociateMode
  users : Bytes → Option User
  egress : Egress
  dualStackPreference : DualStackPreference
  allowLoopbackDestination : Bool

structure Input where
  protocol : ProxyProtocol
  data : Bytes
  user : Option Bytes

structure Action where
  action : EgressAction
  proxy : Option EgressProxy
  deriving DecidableEq

def wellKnownIPv4LocalDomainNames : List Bytes :=
  [ascii "localhost", ascii "localhost4", ascii "localhost.localdomain",
    ascii "localhost4.localdomain4"]

def wellKnownIPv6LocalDomainNames : List Bytes :=
  [ascii "localhost6", ascii "ip6-localhost", ascii "ip6-loopback",
    ascii "localhost6.localdomain6"]

/-- `strings.ToLower` as far as a comparison with ASCII names can tell: besides
`A` to `Z` only U+0130 and U+212A have an ASCII lower case. -/
def toLower : Bytes → Bytes
  | 0xc4 :: 0xb0 :: rest => 105 :: toLower rest
  | 0xe2 :: 0x84 :: 0xaa :: rest => 107 :: toLower rest
  | c :: rest => (if 65 ≤ c ∧ c ≤ 90 then c + 32 else c) :: toLower rest
  | [] => []

def trimDot (s : Bytes) : Bytes := if s.getLast? = some 46 then s.dropLast else s

/-- The address that the private and loopback checks look at, if any. -/
def checkedIP (dst : AddrSpec) : Option IP :=
  match dst.ip with
  | some ip => some ip
  | none =>
    if dst.fqdn ≠ [] then
      let domainName := toLower (trimDot dst.fqdn)
      if domainName ∈ wellKnownIPv4LocalDomainNames then some ipv4loopback
      else if domainName ∈ wellKnownIPv6LocalDomainNames then some ipv6loopback
      else none
    else none

def rejectPrivateAndLoopbackIPAction (cfg : Config) (input : Input) (dst : AddrSpec) :
    EgressAction :=
  match checkedIP dst with
  | none => .direct
  | some ip =>
    if !ip.isPrivate && !ip.isLoopback then .direct
    else if ip.isLoopback && cfg.allowLoopbackDestination then .direct
    else
      match input.user with
      | none => .reject
      | some userName =>
        if userName = [] then .reject
        else
          match cfg.users userName with
          | none => .reject
          | some user =>
            if ip.isPrivate && user.allowPrivateIP then .direct
            else if ip.isLoopback && user.allowLoopbackIP then .direct
            else .reject

def matchIPRange (addr : IP) (ipRange : Bytes) : Bool :=
  ipRange = [42] ||
    match parseCIDR ipRange with
    | none => false
    | some cidr => cidr.contains addr

def matchDomain (domain d : Bytes) : Bool :=
  d = [42] ∨ domain = d ∨ (46 :: d) <:+ domain

def matchEgressRule (dst : AddrSpec) (rule : EgressRule) : Bool :=
  match dst.ip with
  | some addr => rule.ipRanges.any (matchIPRange addr)
  | none => dst.fqdn ≠ [] && rule.domainNames.any (matchDomain dst.fqdn)

/-- Only a proxy that the rule names and the configuration knows is returned. -/
def selectProxy (cfg : Config) (pick : ℕ) (rule : EgressRule) : Option EgressProxy :=
  let selectedProxyName := rule.proxyNames.getD (pick % rule.proxyNames.length) []
  cfg.egress.proxies.find? fun proxy => proxy.name = selectedProxyName

def forwardToProxyAction (cfg : Config) (pick : ℕ) (dst : AddrSpec) : Action :=
  if dst.ip = none ∧ dst.fqdn = [] then ⟨.direct, none⟩
  else
    match cfg.egress.rules.find? (matchEgressRule dst) with
    | none => ⟨.direct, none⟩
    | some rule =>
      if rule.action = .proxy then ⟨rule.action, selectProxy cfg pick rule⟩
      else ⟨rule.action, none⟩

def findAction (cfg : Config) (pick : ℕ) (input : Input) : Action :=
  if input.protocol ≠ .socks5 then ⟨.direct, none⟩
  else if input.data.length < 4 then ⟨.direct, none⟩
  else if input.data.headD 0 ≠ socks5Version then ⟨.direct, none⟩
  else
    match readRequest input.data with
    | .error _ => ⟨.direct, none⟩
    | .ok (req, _) =>
      if req.command = socks5ConnectCmd ∨ req.command = socks5UDPAssociateCmd then
        if rejectPrivateAndLoopbackIPAction cfg input req.dstAddr = .reject then ⟨.reject, none⟩
        else forwardToProxyAction cfg pick req.dstAddr
      else ⟨.direct, none⟩

/-! ## What the decision depends on -/

/-- Who may reach an address: private and loopback addresses need an allowance. -/
def IPPermitted (cfg : Config) (user : Option Bytes) (ip : IP) : Prop :=
  (ip.isPrivate = false ∧ ip.isLoopback = false) ∨
  (ip.isLoopback = true ∧ cfg.allowLoopbackDestination = true) ∨
  ∃ name u, user = some name ∧ name ≠ [] ∧ cfg.users name = some u ∧
    ((ip.isPrivate = true ∧ u.allowPrivateIP = true) ∨
      (ip.isLoopback = true ∧ u.allowLoopbackIP = true))

/-- The first rule that matches the destination decides; without one it is DIRECT. -/
def ruleAction (cfg : Config) (dst : AddrSpec) : EgressAction :=
  match cfg.egress.rules.find? (matchEgressRule dst) with
  | none => .direct
  | some rule => rule.action

theorem reject_iff (cfg : Config) (input : Input) (dst : AddrSpec) :
    rejectPrivateAndLoopbackIPAction cfg input dst = .reject ↔
      ∃ ip, checkedIP dst = some ip ∧ ¬ IPPermitted cfg input.user ip := by
  unfold rejectPrivateAndLoopbackIPAction
  cases hip : checkedIP dst with
  | none => simp
  | some ip =>
    simp only [Option.some.injEq, exists_eq_left', IPPermitted]
    cases huser : input.user with
    | none => cases ip.isPrivate <;> cases ip.isLoopback <;> simp
    | some name =>
      by_cases hname : name = []
      · cases ip.isPrivate <;> cases ip.isLoopback <;> simp [hname]
      · cases hu : cfg.users name with
        | none => cases ip.isPrivate <;> cases ip.isLoopback <;> simp [hname, hu]
        | some u => cases ip.isPrivate <;> cases ip.isLoopback <;> simp [hname, hu] <;> grind

theorem forwardToProxyAction_action (cfg : Config) (pick : ℕ) (dst : AddrSpec) :
    (forwardToProxyAction cfg pick dst).action = ruleAction cfg dst := by
  unfold forwardToProxyAction ruleAction
  by_cases hempty : dst.ip = none ∧ dst.fqdn = []
  · have hnone : cfg.egress.rules.find? (matchEgressRule dst) = none := by
      rw [List.find?_eq_none]
      intro rule _
      simp [matchEgressRule, hempty.1, hempty.2]
    rw [if_pos hempty, hnone]
  · rw [if_neg hempty]
    cases cfg.egress.rules.find? (matchEgressRule dst) with
    | none => rfl
    | some rule =>
      by_cases hproxy : rule.action = .proxy
      · simp [hproxy]
      · simp [hproxy]

theorem findAction_request (cfg : Config) (pick : ℕ) (user : Option Bytes) {data rest : Bytes}
    {req : Request} (h : readRequest data = .ok (req, rest))
    (hcmd : req.command = socks5ConnectCmd ∨ req.command = socks5UDPAssociateCmd) :
    (findAction cfg pick ⟨.socks5, data, user⟩).action =
      if rejectPrivateAndLoopbackIPAction cfg ⟨.socks5, data, user⟩ req.dstAddr = .reject
      then .reject else ruleAction cfg req.dstAddr := by
  obtain ⟨hlen, hhead⟩ := readRequest_head h
  have hshort : ¬ data.length < 4 := by omega
  simp only [findAction, ne_eq, not_true_eq_false, if_false, hshort, hhead, h, hcmd, if_true]
  by_cases hrej :
      rejectPrivateAndLoopbackIPAction cfg ⟨.socks5, data, user⟩ req.dstAddr = .reject
  · simp [hrej]
  · simp [hrej, forwardToProxyAction_action]

end Mieru.Socks5
