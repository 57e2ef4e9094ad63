import Mathlib.Data.String.Basic
import Mieru.AppCtl.PortBinding
import Mieru.Lib.KeyedMerge
import Mieru.ServerUser.Quota
import Mieru.Socks5.EgressNames
import Mieru.TrafficPattern

/-! # Server configurations

A patch is checked, merged into the stored configuration and stored again. The check looks at one
field after another, so a merged configuration passes when both its parts do. -/
namespace Mieru.ServerCfg

open Net Result Clock AppCtl KeyedMerge
open ServerUser (validateServerConfigSingleUser)

/-! ## Messages

A field that is not set is `none`; `get` functions put the default in its place. -/

abbrev LoggingLevel := ℤ
abbrev DualStack := ℤ
abbrev ProxyProtocol := ℤ

def unknownProxyProtocol : ProxyProtocol := 0

structure User extends ServerUser.User where
  allowPrivateIP : Bool := false
  allowLoopbackIP : Bool := false
  deriving DecidableEq

structure Auth where
  user : Option Bytes := none
  password : Option Bytes := none
  deriving DecidableEq

structure EgressProxy where
  name : Option Bytes := none
  protocol : Option ProxyProtocol := none
  host : Option Bytes := none
  port : Option Int32 := none
  socks5Authentication : Option Auth := none
  deriving DecidableEq

structure Egress where
  proxies : List EgressProxy := []
  rules : List Socks5.EgressRule := []
  deriving DecidableEq

structure DNS where
  dualStack : Option DualStack := none
  hosts : AList fun _ : Bytes => Bytes := ∅
  deriving DecidableEq

structure ServerAdvancedSettings where
  metricsLoggingInterval : Option Bytes := none
  userHintIsMandatory : Option Bool := none
  tcpIdleTimeout : Option Bytes := none
  deriving DecidableEq

/-- The port bindings may be nil, which the merge sees, or an empty slice. -/
@[ext] structure ServerConfig where
  listenIPAddress : Option Bytes := none
  portBindings : Option (List PortBinding) := none
  users : List User := []
  advancedSettings : Option ServerAdvancedSettings := none
  loggingLevel : Option LoggingLevel := none
  mtu : Option Int32 := none
  egress : Option Egress := none
  dns : Option DNS := none
  trafficPattern : Option TrafficPattern := none

namespace EgressProxy

def getName (p : EgressProxy) : Bytes := p.name.getD []

def getProtocol (p : EgressProxy) : ProxyProtocol := p.protocol.getD unknownProxyProtocol

def getHost (p : EgressProxy) : Bytes := p.host.getD []

def getPort (p : EgressProxy) : Int32 := p.port.getD 0

def getUser (p : EgressProxy) : Bytes := (p.socks5Authentication.bind Auth.user).getD []

def getPassword (p : EgressProxy) : Bytes := (p.socks5Authentication.bind Auth.password).getD []

end EgressProxy

namespace ServerConfig

variable (c : ServerConfig)

def getListenIPAddress : Bytes := c.listenIPAddress.getD []

def getPortBindings : List PortBinding := c.portBindings.getD []

def getLoggingLevel : LoggingLevel := c.loggingLevel.getD 0

def getMtu : Int32 := c.mtu.getD 0

def getProxies : List EgressProxy := (c.egress.map Egress.proxies).getD []

def getRules : List Socks5.EgressRule := (c.egress.map Egress.rules).getD []

def getHosts : AList fun _ : Bytes => Bytes := (c.dns.map DNS.hosts).getD ∅

def getMetricsLoggingInterval : Bytes :=
  (c.advancedSettings.bind ServerAdvancedSettings.metricsLoggingInterval).getD []

def getTcpIdleTimeout : Bytes :=
  (c.advancedSettings.bind ServerAdvancedSettings.tcpIdleTimeout).getD []

end ServerConfig

/-! ## The merge -/

/-- Go orders strings by their bytes, and UTF-8 keeps the order of the characters. -/
def mergeServerConfig (dst src : ServerConfig) : ServerConfig where
  listenIPAddress := if src.listenIPAddress.isSome then src.listenIPAddress else dst.listenIPAddress
  portBindings := if src.portBindings.isSome then src.portBindings else dst.portBindings
  users := merge (fun user : User => user.name) dst.users src.users
  advancedSettings :=
    if src.advancedSettings.isSome then src.advancedSettings else dst.advancedSettings
  loggingLevel :=
    some (if src.loggingLevel.isSome then src.getLoggingLevel else dst.getLoggingLevel)
  mtu := some (if src.mtu.isSome then src.getMtu else dst.getMtu)
  egress := if src.egress.isSome then src.egress else dst.egress
  dns := if src.dns.isSome then src.dns else dst.dns
  trafficPattern := if src.trafficPattern.isSome then src.trafficPattern else dst.trafficPattern

/-! ## The check of a patch -/

inductive DNSError where
  | leadingDot (domainName : Bytes)
  | trailingDot (domainName : Bytes)
  | emptyName
  | duplicate (domainName : Bytes)
  | invalidIP (domainName ipString : Bytes)
  deriving DecidableEq

inductive ConfigError where
  | listenIPAddress (address : Bytes)
  | portBindings (err : PortError)
  | user (msg : String)
  | mtu (value : Int32)
  | proxyNameEmpty
  | proxyNameTwice (name : Bytes)
  | proxyProtocol
  | proxyHost
  | proxyPort (port : Int32)
  | proxyUser
  | proxyPassword
  | rule (err : Socks5.EgressRuleError)
  | dns (err : DNSError)
  | metricsInterval (value err : Bytes)
  | metricsIntervalShort (value : Bytes)
  | idleTimeout (value err : Bytes)
  | idleTimeoutShort (value : Bytes)
  | trafficPattern (msg : String)
  deriving DecidableEq

def second : Duration := 1000000000
def minute : Duration := 60000000000

def validateServerListenIPAddress (address : Bytes) : Except ConfigError Unit :=
  if address = [] then .ok ()
  else
    match parseAddr address with
    | none => .error (.listenIPAddress address)
    | some ip => ensure (ip.zone = []) (.listenIPAddress address)

def validateEgressProxy (usedProxyNames : List Bytes) (proxy : EgressProxy) :
    Except ConfigError Unit := do
  ensure (proxy.getName ≠ []) .proxyNameEmpty
  ensure (proxy.getName ∉ usedProxyNames) (.proxyNameTwice proxy.getName)
  ensure (proxy.getProtocol ≠ unknownProxyProtocol) .proxyProtocol
  ensure (proxy.getHost ≠ []) .proxyHost
  ensure (1 ≤ proxy.getPort ∧ proxy.getPort ≤ 65535) (.proxyPort proxy.getPort)
  ensure (¬(proxy.getUser = [] ∧ proxy.getPassword ≠ [])) .proxyUser
  ensure (¬(proxy.getUser ≠ [] ∧ proxy.getPassword = [])) .proxyPassword

def validateEgressProxies (usedProxyNames : List Bytes) :
    List EgressProxy → Except ConfigError (List Bytes)
  | [] => .ok usedProxyNames
  | proxy :: rest => do
    validateEgressProxy usedProxyNames proxy
    validateEgressProxies (usedProxyNames ++ [proxy.getName]) rest

def validateEgress (proxies : List EgressProxy) (rules : List Socks5.EgressRule) :
    Except ConfigError Unit := do
  let usedProxyNames ← validateEgressProxies [] proxies
  rules.forM fun rule => (Socks5.validateEgressRule usedProxyNames rule).mapError .rule

/-- What the standard library does with texts: nothing here depends on it. -/
structure Texts where
  parseDuration : Bytes → Except Bytes Duration
  toLower : Bytes → Bytes

abbrev Host := Sigma fun _ : Bytes => Bytes

namespace Texts

variable (texts : Texts)

def normalizeDomainName (host : Bytes) : Bytes := Socks5.trimDot (texts.toLower host)

def addHost (hosts : AList fun _ : Bytes => IP) (host : Host) :
    Except DNSError (AList fun _ : Bytes => IP) := do
  ensure (host.1.head? ≠ some 46) (.leadingDot host.1)
  ensure (host.1.getLast? ≠ some 46) (.trailingDot host.1)
  ensure (texts.normalizeDomainName host.1 ≠ []) .emptyName
  ensure (texts.normalizeDomainName host.1 ∉ hosts) (.duplicate host.1)
  match parseIP host.2 with
  | none => .error (.invalidIP host.1 host.2)
  | some ip => return hosts.insert (texts.normalizeDomainName host.1) ip

/-- `range` visits the entries of a map in any order. -/
def transformDNSHosts (visited : List Host) : Except DNSError (AList fun _ : Bytes => IP) :=
  visited.foldlM texts.addHost ∅

def validateMetricsLoggingInterval (value : Bytes) : Except ConfigError Unit :=
  if value = [] then .ok ()
  else
    match texts.parseDuration value with
    | .error err => .error (.metricsInterval value err)
    | .ok d => ensure (second ≤ d) (.metricsIntervalShort value)

def parseServerTCPIdleTimeout (value : Bytes) : Except ConfigError Duration :=
  if value = [] then .ok 0
  else
    match texts.parseDuration value with
    | .error err => .error (.idleTimeout value err)
    | .ok d => do
      ensure (minute ≤ d) (.idleTimeoutShort value)
      return d

def validateServerConfigPatch (visited : List Host) (patch : ServerConfig) :
    Except ConfigError Unit := do
  validateServerListenIPAddress patch.getListenIPAddress
  let _ ← (flatPortBindings patch.getPortBindings).mapError .portBindings
  patch.users.forM fun user => (validateServerConfigSingleUser user.toUser).mapError .user
  ensure (patch.getMtu = 0 ∨ 1280 ≤ patch.getMtu ∧ patch.getMtu ≤ 1500) (.mtu patch.getMtu)
  validateEgress patch.getProxies patch.getRules
  let _ ← (texts.transformDNSHosts visited).mapError .dns
  texts.validateMetricsLoggingInterval patch.getMetricsLoggingInterval
  let _ ← texts.parseServerTCPIdleTimeout patch.getTcpIdleTimeout
  (TrafficPattern.validate patch.trafficPattern).mapError .trafficPattern

def Passes (patch : ServerConfig) : Prop :=
  ∀ visited, visited.Perm patch.getHosts.entries →
    texts.validateServerConfigPatch visited patch = .ok ()

end Texts

/-! ## Static hosts -/

namespace Texts

variable {texts : Texts}

structure HostOk (texts : Texts) (host : Host) : Prop where
  head : host.1.head? ≠ some 46
  last : host.1.getLast? ≠ some 46
  nonempty : texts.normalizeDomainName host.1 ≠ []
  address : ∃ ip, parseIP host.2 = some ip

theorem addHost_eq_ok {hosts hosts' : AList fun _ : Bytes => IP} {host : Host} :
    texts.addHost hosts host = .ok hosts' ↔
      texts.HostOk host ∧ texts.normalizeDomainName host.1 ∉ hosts ∧
        ∃ ip, parseIP host.2 = some ip ∧
          hosts.insert (texts.normalizeDomainName host.1) ip = hosts' := by
  unfold addHost
  simp only [ensure_bind_eq_ok]
  constructor
  · rintro ⟨hhead, hlast, hname, hfresh, h⟩
    split at h
    · exact absurd h (by simp)
    · rename_i ip hip
      exact ⟨⟨hhead, hlast, hname, ip, hip⟩, hfresh, ip, hip, Except.ok.inj h⟩
  · rintro ⟨⟨hhead, hlast, hname, -⟩, hfresh, ip, hip, rfl⟩
    refine ⟨hhead, hlast, hname, hfresh, ?_⟩
    rw [hip]
    rfl

theorem foldlM_addHost_eq_ok (visited : List Host) (hosts : AList fun _ : Bytes => IP) :
    (∃ result, visited.foldlM texts.addHost hosts = .ok result) ↔
      (∀ host ∈ visited, texts.HostOk host ∧ texts.normalizeDomainName host.1 ∉ hosts) ∧
        (visited.map fun host => texts.normalizeDomainName host.1).Nodup := by
  induction visited generalizing hosts with
  | nil => exact iff_of_true ⟨hosts, rfl⟩ (by simp)
  | cons host visited ih =>
    simp only [List.foldlM_cons, bind_eq_ok, List.forall_mem_cons, List.map_cons, List.nodup_cons]
    constructor
    · rintro ⟨result, hosts', hadd, hrest⟩
      obtain ⟨hok, hfresh, ip, -, rfl⟩ := addHost_eq_ok.mp hadd
      obtain ⟨hall, hnodup⟩ := (ih _).mp ⟨result, hrest⟩
      refine ⟨⟨⟨hok, hfresh⟩, fun other hother => ⟨(hall other hother).1, ?_⟩⟩, ?_, hnodup⟩
      · exact fun hmem => (hall other hother).2 (AList.mem_insert _ |>.mpr (.inr hmem))
      · intro hmem
        obtain ⟨other, hother, heq⟩ := List.mem_map.mp hmem
        exact (hall other hother).2 (AList.mem_insert _ |>.mpr (.inl heq))
    · rintro ⟨⟨⟨hok, hfresh⟩, hall⟩, hnew, hnodup⟩
      obtain ⟨ip, hip⟩ := hok.address
      have hadd := addHost_eq_ok.mpr ⟨hok, hfresh, ip, hip, rfl⟩
      have hothers : ∀ other ∈ visited,
          texts.normalizeDomainName other.1 ∉
            hosts.insert (texts.normalizeDomainName host.1) ip := by
        intro other hother hmem
        rcases (AList.mem_insert _).mp hmem with heq | hmem
        · exact hnew (List.mem_map.mpr ⟨other, hother, heq⟩)
        · exact (hall other hother).2 hmem
      obtain ⟨result, hrest⟩ := (ih _).mpr
        ⟨fun other hother => ⟨(hall other hother).1, hothers other hother⟩, hnodup⟩
      exact ⟨result, _, hadd, hrest⟩

theorem transformDNSHosts_perm {visited visited' : List Host} (h : visited.Perm visited')
    (hok : ∃ hosts, texts.transformDNSHosts visited = .ok hosts) :
    ∃ hosts, texts.transformDNSHosts visited' = .ok hosts := by
  obtain ⟨hall, hnodup⟩ := (foldlM_addHost_eq_ok visited ∅).mp hok
  refine (foldlM_addHost_eq_ok visited' ∅).mpr ⟨fun host hhost => ?_, ?_⟩
  · exact hall host (h.mem_iff.mpr hhost)
  · exact (h.map _).nodup_iff.mp hnodup

/-! ## A patch that passes -/

structure Accepted (texts : Texts) (visited : List Host) (patch : ServerConfig) : Prop where
  listenIPAddress : validateServerListenIPAddress patch.getListenIPAddress = .ok ()
  portBindings : ∃ flat, flatPortBindings patch.getPortBindings = .ok flat
  users : ∀ user ∈ patch.users, validateServerConfigSingleUser user.toUser = .ok ()
  mtu : patch.getMtu = 0 ∨ 1280 ≤ patch.getMtu ∧ patch.getMtu ≤ 1500
  egress : validateEgress patch.getProxies patch.getRules = .ok ()
  dns : ∃ hosts, texts.transformDNSHosts visited = .ok hosts
  metricsLoggingInterval :
    texts.validateMetricsLoggingInterval patch.getMetricsLoggingInterval = .ok ()
  tcpIdleTimeout : ∃ d, texts.parseServerTCPIdleTimeout patch.getTcpIdleTimeout = .ok d
  trafficPattern : TrafficPattern.validate patch.trafficPattern = .ok ()

theorem validateServerConfigPatch_eq_ok {visited : List Host} {patch : ServerConfig} :
    texts.validateServerConfigPatch visited patch = .ok () ↔ texts.Accepted visited patch := by
  unfold validateServerConfigPatch
  constructor
  · intro h
    obtain ⟨hlisten, h⟩ := check_bind_eq_ok.mp h
    obtain ⟨flat, hflat, h⟩ := bind_eq_ok.mp h
    obtain ⟨husers, h⟩ := check_bind_eq_ok.mp h
    obtain ⟨hmtu, h⟩ := ensure_bind_eq_ok.mp h
    obtain ⟨hegress, h⟩ := check_bind_eq_ok.mp h
    obtain ⟨hosts, hhosts, h⟩ := bind_eq_ok.mp h
    obtain ⟨hmetrics, h⟩ := check_bind_eq_ok.mp h
    obtain ⟨d, hd, h⟩ := bind_eq_ok.mp h
    exact
      { listenIPAddress := hlisten
        portBindings := ⟨flat, mapError_eq_ok.mp hflat⟩
        users := fun user huser => mapError_eq_ok.mp (forM_eq_ok.mp husers user huser)
        mtu := hmtu
        egress := hegress
        dns := ⟨hosts, mapError_eq_ok.mp hhosts⟩
        metricsLoggingInterval := hmetrics
        tcpIdleTimeout := ⟨d, hd⟩
        trafficPattern := mapError_eq_ok.mp h }
  · intro h
    obtain ⟨flat, hflat⟩ := h.portBindings
    obtain ⟨hosts, hhosts⟩ := h.dns
    obtain ⟨d, hd⟩ := h.tcpIdleTimeout
    refine check_bind_eq_ok.mpr ⟨h.listenIPAddress, ?_⟩
    refine bind_eq_ok.mpr ⟨flat, mapError_eq_ok.mpr hflat, ?_⟩
    refine check_bind_eq_ok.mpr
      ⟨forM_eq_ok.mpr fun user huser => mapError_eq_ok.mpr (h.users user huser), ?_⟩
    refine ensure_bind_eq_ok.mpr ⟨h.mtu, ?_⟩
    refine check_bind_eq_ok.mpr ⟨h.egress, ?_⟩
    refine bind_eq_ok.mpr ⟨hosts, mapError_eq_ok.mpr hhosts, ?_⟩
    refine check_bind_eq_ok.mpr ⟨h.metricsLoggingInterval, ?_⟩
    exact bind_eq_ok.mpr ⟨d, hd, mapError_eq_ok.mpr h.trafficPattern⟩

theorem passes_of_run {visited : List Host} {patch : ServerConfig}
    (hvisited : visited.Perm patch.getHosts.entries)
    (h : texts.validateServerConfigPatch visited patch = .ok ()) : texts.Passes patch := by
  intro visited' hvisited'
  have hok := validateServerConfigPatch_eq_ok.mp h
  have hdns := transformDNSHosts_perm (hvisited.trans hvisited'.symm) hok.dns
  exact validateServerConfigPatch_eq_ok.mpr { hok with dns := hdns }

end Texts

/-! ## Fields of a merged configuration -/

/-- A field after a merge: the source's value where it is set, and what the destination reports
where it is not. -/
def Overlaid {α β : Type} (get : Option α → β) (dst src merged : Option α) : Prop :=
  (∀ v, src = some v → merged = some v) ∧ (src = none → get merged = get dst)

theorem overlaid_choice {α : Type} (dst src : Option α) :
    Overlaid id dst src (if src.isSome then src else dst) := by
  constructor
  · rintro v rfl
    rfl
  · rintro rfl
    rfl

theorem overlaid_default {α : Type} (default : α) (dst src : Option α) :
    Overlaid (·.getD default) dst src
      (some (if src.isSome then src.getD default else dst.getD default)) := by
  constructor
  · rintro v rfl
    rfl
  · rintro rfl
    rfl

/-- The source wins field by field and user by user, and the users are in the order of their
names, each name once. -/
structure Merged (dst src merged : ServerConfig) : Prop where
  listenIPAddress : Overlaid id dst.listenIPAddress src.listenIPAddress merged.listenIPAddress
  portBindings : Overlaid id dst.portBindings src.portBindings merged.portBindings
  advancedSettings : Overlaid id dst.advancedSettings src.advancedSettings merged.advancedSettings
  loggingLevel : Overlaid (·.getD 0) dst.loggingLevel src.loggingLevel merged.loggingLevel
  mtu : Overlaid (·.getD 0) dst.mtu src.mtu merged.mtu
  egress : Overlaid id dst.egress src.egress merged.egress
  dns : Overlaid id dst.dns src.dns merged.dns
  trafficPattern : Overlaid id dst.trafficPattern src.trafficPattern merged.trafficPattern
  union : ∀ user : User, user ∈ merged.users ↔
    (lastWith (fun u : User => u.name) user.name src.users).or
      (lastWith (fun u : User => u.name) user.name dst.users) = some user
  sorted : (merged.users.map fun u => u.name).Pairwise (· < ·)

theorem merged_mergeServerConfig (dst src : ServerConfig) :
    Merged dst src (mergeServerConfig dst src) where
  listenIPAddress := overlaid_choice _ _
  portBindings := overlaid_choice _ _
  advancedSettings := overlaid_choice _ _
  loggingLevel := overlaid_default 0 _ _
  mtu := overlaid_default 0 _ _
  egress := overlaid_choice _ _
  dns := overlaid_choice _ _
  trafficPattern := overlaid_choice _ _
  union := fun _ => mem_merge
  sorted := pairwise_merge _ _

theorem choice_again {α : Type} (dst src : Option α) :
    (if src.isSome then src else if src.isSome then src else dst) =
      if src.isSome then src else dst := by
  cases src with
  | none => rfl
  | some v => rfl

theorem default_again {α : Type} (default : α) (dst src : Option α) :
    (if src.isSome then src.getD default else
      (some (if src.isSome then src.getD default else dst.getD default)).getD default) =
      if src.isSome then src.getD default else dst.getD default := by
  cases src with
  | none => rfl
  | some v => rfl

theorem mergeServerConfig_again (dst src : ServerConfig) :
    mergeServerConfig (mergeServerConfig dst src) src = mergeServerConfig dst src :=
  ServerConfig.ext (choice_again _ _) (choice_again _ _) (merge_merge _ _) (choice_again _ _)
    (congrArg some (default_again 0 _ _)) (congrArg some (default_again 0 _ _)) (choice_again _ _)
    (choice_again _ _) (choice_again _ _)

theorem choice_of_both {α : Type} {P : Option α → Prop} {dst src : Option α} (hdst : P dst)
    (hsrc : P src) : P (if src.isSome then src else dst) := by
  cases src with
  | none => exact hdst
  | some v => exact hsrc

theorem getMtu_mergeServerConfig (dst src : ServerConfig) :
    (mergeServerConfig dst src).getMtu = src.getMtu ∨
      (mergeServerConfig dst src).getMtu = dst.getMtu := by
  unfold mergeServerConfig ServerConfig.getMtu
  cases src.mtu with
  | none => exact .inr rfl
  | some v => exact .inl rfl

namespace Texts

variable {texts : Texts}

theorem accepted_mergeServerConfig {dst src : ServerConfig} {visitedDst visitedSrc : List Host}
    (hdst : texts.Accepted visitedDst dst) (hsrc : texts.Accepted visitedSrc src)
    (hhostsDst : visitedDst.Perm dst.getHosts.entries)
    (hhostsSrc : visitedSrc.Perm src.getHosts.entries) :
    texts.Accepted (mergeServerConfig dst src).getHosts.entries (mergeServerConfig dst src) where
  listenIPAddress :=
    choice_of_both (P := fun address => validateServerListenIPAddress (address.getD []) = .ok ())
      hdst.listenIPAddress hsrc.listenIPAddress
  portBindings :=
    choice_of_both (P := fun bindings => ∃ flat, flatPortBindings (bindings.getD []) = .ok flat)
      hdst.portBindings hsrc.portBindings
  users := by
    intro user huser
    rcases mem_or_mem_of_mem_merge huser with hmem | hmem
    · exact hsrc.users user hmem
    · exact hdst.users user hmem
  mtu := by
    rcases getMtu_mergeServerConfig dst src with h | h
    · rw [h]
      exact hsrc.mtu
    · rw [h]
      exact hdst.mtu
  egress :=
    choice_of_both (P := fun egress => validateEgress ((egress.map Egress.proxies).getD [])
        ((egress.map Egress.rules).getD []) = .ok ())
      hdst.egress hsrc.egress
  dns :=
    choice_of_both (P := fun dns => ∃ hosts,
        texts.transformDNSHosts ((dns.map DNS.hosts).getD ∅).entries = .ok hosts)
      (transformDNSHosts_perm hhostsDst hdst.dns) (transformDNSHosts_perm hhostsSrc hsrc.dns)
  metricsLoggingInterval :=
    choice_of_both (P := fun settings => texts.validateMetricsLoggingInterval
        ((settings.bind ServerAdvancedSettings.metricsLoggingInterval).getD []) = .ok ())
      hdst.metricsLoggingInterval hsrc.metricsLoggingInterval
  tcpIdleTimeout :=
    choice_of_both (P := fun settings => ∃ d, texts.parseServerTCPIdleTimeout
        ((settings.bind ServerAdvancedSettings.tcpIdleTimeout).getD []) = .ok d)
      hdst.tcpIdleTimeout hsrc.tcpIdleTimeout
  trafficPattern :=
    choice_of_both (P := fun pattern => TrafficPattern.validate pattern = .ok ())
      hdst.trafficPattern hsrc.trafficPattern

/-- A merge keeps to both configurations, is done once, and passes the check when they do. -/
theorem mergeServerConfig_spec (texts : Texts) (dst src : ServerConfig) :
    Merged dst src (mergeServerConfig dst src) ∧
      mergeServerConfig (mergeServerConfig dst src) src = mergeServerConfig dst src ∧
        ∀ visitedDst visitedSrc : List Host, visitedDst.Perm dst.getHosts.entries →
          visitedSrc.Perm src.getHosts.entries →
          texts.validateServerConfigPatch visitedDst dst = .ok () →
          texts.validateServerConfigPatch visitedSrc src = .ok () →
          texts.Passes (mergeServerConfig dst src) := by
  refine ⟨merged_mergeServerConfig dst src, mergeServerConfig_again dst src, ?_⟩
  intro visitedDst visitedSrc hhostsDst hhostsSrc hdst hsrc
  have haccepted := accepted_mergeServerConfig (validateServerConfigPatch_eq_ok.mp hdst)
    (validateServerConfigPatch_eq_ok.mp hsrc) hhostsDst hhostsSrc
  exact passes_of_run (.refl _) (validateServerConfigPatch_eq_ok.mpr haccepted)

end Texts

def asciiTexts : Texts where
  parseDuration _ := .error (ascii "time: invalid duration")
  toLower := Socks5.toLower

def storedConfig : ServerConfig where
  portBindings := some [singlePort tcp 443]
  users := [{ name := "bob", password := "secret" }, { name := "alice", password := "secret" }]
  loggingLevel := some 4

def patchConfig : ServerConfig where
  users := [{ name := "alice", password := "changed" }]
  mtu := some 1400
  dns := some { hosts := AList.singleton (ascii "Home.example") (ascii "10.0.0.1") }

theorem patch_merged :
    Merged storedConfig patchConfig (mergeServerConfig storedConfig patchConfig) ∧
      asciiTexts.Passes (mergeServerConfig storedConfig patchConfig) := by
  have h := Texts.mergeServerConfig_spec asciiTexts storedConfig patchConfig
  refine ⟨h.1, h.2.2 [] [⟨ascii "Home.example", ascii "10.0.0.1"⟩] (.refl _) (.refl _) ?_ ?_⟩
  · decide +kernel
  · decide +kernel

example : (mergeServerConfig storedConfig patchConfig).users.map (fun u => (u.name, u.password)) =
    [("alice", "changed"), ("bob", "secret")] := by decide +kernel

/-! ## Rules that the proxy server runs with -/

def EgressProxy.served (proxy : EgressProxy) : Socks5.EgressProxy :=
  ⟨proxy.getName, proxy.getHost, proxy.getPort.toInt.toNat⟩

theorem names_of_validateEgressProxies {used names : List Bytes} {proxies : List EgressProxy}
    (h : validateEgressProxies used proxies = .ok names) :
    names = used ++ proxies.map EgressProxy.getName := by
  induction proxies generalizing used with
  | nil => rw [List.map_nil, List.append_nil, Except.ok.inj h]
  | cons proxy proxies ih =>
    obtain ⟨-, hrest⟩ := check_bind_eq_ok.mp h
    rw [ih hrest, List.map_cons, List.append_assoc, List.singleton_append]

theorem validateEgressRules_served {proxies : List EgressProxy} {rules : List Socks5.EgressRule}
    (h : validateEgress proxies rules = .ok ()) :
    Socks5.validateEgressRules ⟨proxies.map EgressProxy.served, rules⟩ = .ok () := by
  obtain ⟨names, hnames, hrules⟩ := bind_eq_ok.mp h
  have hserved : (proxies.map EgressProxy.served).map Socks5.EgressProxy.name = names := by
    rw [names_of_validateEgressProxies hnames, List.nil_append, List.map_map]
    rfl
  unfold Socks5.validateEgressRules
  rw [hserved]
  exact forM_eq_ok.mpr fun rule hrule => mapError_eq_ok.mp (forM_eq_ok.mp hrules rule hrule)

end Mieru.ServerCfg
