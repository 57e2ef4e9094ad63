import Mathlib.Data.List.Find
import Mieru.Socks5.Egress

/-! # Spellings of a domain name

DNS names are the same in any letter case and with or without the dot at the end. The check
of local names sees them so, the rules compare bytes. -/
namespace Mieru.Socks5

open Net ByteReader Result

/-! ## Rules that are accepted -/

inductive EgressRuleError where
  | invalidCIDR (ipRange : Bytes)
  | emptyDomain
  | leadingDot (domain : Bytes)
  | trailingDot (domain : Bytes)
  | noProxyNames
  | undefinedProxy (proxyName : Bytes)
  | unexpectedProxyNames
  deriving DecidableEq

def validateDomain (domain : Bytes) : Except EgressRuleError Unit := do
  ensure (domain ≠ []) .emptyDomain
  ensure (domain.head? ≠ some 46) (.leadingDot domain)
  ensure (domain.getLast? ≠ some 46) (.trailingDot domain)

/-- What `ValidateServerConfigPatch` asks of an egress rule. -/
def validateEgressRule (usedProxyNames : List Bytes) (rule : EgressRule) :
    Except EgressRuleError Unit := do
  rule.ipRanges.forM fun ipRange =>
    ensure (ipRange = [42] ∨ (parseCIDR ipRange).isSome) (.invalidCIDR ipRange)
  rule.domainNames.forM validateDomain
  if rule.action = .proxy then do
    ensure (rule.proxyNames ≠ []) .noProxyNames
    rule.proxyNames.forM fun proxyName =>
      ensure (proxyName ∈ usedProxyNames) (.undefinedProxy proxyName)
  else ensure (rule.proxyNames = []) .unexpectedProxyNames

def validateEgressRules (egress : Egress) : Except EgressRuleError Unit :=
  egress.rules.forM (validateEgressRule (egress.proxies.map EgressProxy.name))

/-! ## Two spellings -/

def lowerByte (c : UInt8) : UInt8 := if 65 ≤ c ∧ c ≤ 90 then c + 32 else c

/-- Equal up to the case of ASCII letters and one dot at the end. -/
def Alike (name name' : Bytes) : Prop :=
  (trimDot name).map lowerByte = (trimDot name').map lowerByte

instance (name name' : Bytes) : Decidable (Alike name name') :=
  inferInstanceAs (Decidable (_ = _))

theorem lowerByte_eq_iff {c b : UInt8} (hb : 128 ≤ b) : lowerByte c = b ↔ c = b := by
  have hadd := c.toNat_add 32
  unfold lowerByte
  split_ifs with hupper
  · simp only [UInt8.le_iff_toNat_le, ← UInt8.toNat_inj, UInt8.reduceToNat] at *
    omega
  · rfl

theorem lowerByte_lowerByte (c : UInt8) : lowerByte (lowerByte c) = lowerByte c := by
  have hadd := c.toNat_add 32
  rw [lowerByte, if_neg]
  unfold lowerByte
  split_ifs with hupper
  · simp only [UInt8.le_iff_toNat_le, UInt8.reduceToNat] at *
    omega
  · exact hupper

theorem map_lowerByte_eq_cons {s rest : Bytes} {b : UInt8} (hb : 128 ≤ b)
    (h : s.map lowerByte = b :: rest) : ∃ tail, s = b :: tail ∧ tail.map lowerByte = rest := by
  obtain ⟨c, tail, rfl, hc, htail⟩ := List.map_eq_cons_iff.mp h
  exact ⟨tail, by rw [(lowerByte_eq_iff hb).mp hc], htail⟩

/-- The letters that `ToLower` changes besides the ASCII ones have no ASCII byte. -/
theorem toLower_map_lowerByte (s : Bytes) : toLower (s.map lowerByte) = toLower s := by
  fun_induction toLower s with
  | case1 rest ih => exact congrArg (105 :: ·) ih
  | case2 rest ih => exact congrArg (107 :: ·) ih
  | case3 c rest hi hk ih =>
    rw [List.map_cons, toLower, ih]
    · exact congrArg (· :: toLower rest) (lowerByte_lowerByte c)
    · intro rest' hc hrest
      obtain ⟨tail, rfl, -⟩ := map_lowerByte_eq_cons (by decide) hrest
      exact hi tail ((lowerByte_eq_iff (by decide)).mp hc) rfl
    · intro rest' hc hrest
      obtain ⟨tail, rfl, htail⟩ := map_lowerByte_eq_cons (by decide) hrest
      obtain ⟨tail', rfl, -⟩ := map_lowerByte_eq_cons (by decide) htail
      exact hk tail' ((lowerByte_eq_iff (by decide)).mp hc) rfl
  | case4 => rfl

theorem toLower_trimDot_of_alike {name name' : Bytes} (h : Alike name name') :
    toLower (trimDot name) = toLower (trimDot name') := by
  rw [← toLower_map_lowerByte, h, toLower_map_lowerByte]

/-! ## The two stages -/

def localIP (domainName : Bytes) : Option IP :=
  if domainName ∈ wellKnownIPv4LocalDomainNames then some ipv4loopback
  else if domainName ∈ wellKnownIPv6LocalDomainNames then some ipv6loopback
  else none

theorem checkedIP_eq_localIP {dst : AddrSpec} (h : dst.ip = none) :
    checkedIP dst = localIP (toLower (trimDot dst.fqdn)) := by
  by_cases hname : dst.fqdn = []
  · have hempty : localIP (toLower (trimDot [])) = none := by decide
    simp [checkedIP, h, hname, hempty]
  · simp [checkedIP, h, hname, localIP]

theorem checkedIP_of_alike {dst dst' : AddrSpec} (h : dst.ip = none) (h' : dst'.ip = none)
    (halike : Alike dst.fqdn dst'.fqdn) : checkedIP dst = checkedIP dst' := by
  rw [checkedIP_eq_localIP h, checkedIP_eq_localIP h', toLower_trimDot_of_alike halike]

def matchesName (name : Bytes) (rule : EgressRule) : Bool :=
  name ≠ [] && rule.domainNames.any (matchDomain name)

/-- What a rule asks for; without one it is DIRECT. -/
def ruleOrder (cfg : Config) (pick : ℕ) : Option EgressRule → Action
  | none => ⟨.direct, none⟩
  | some rule => ⟨rule.action, if rule.action = .proxy then selectProxy cfg pick rule else none⟩

def nameAction (cfg : Config) (pick : ℕ) (name : Bytes) : Action :=
  ruleOrder cfg pick (cfg.egress.rules.find? (matchesName name))

theorem forwardToProxyAction_name (cfg : Config) (pick : ℕ) {dst : AddrSpec} (h : dst.ip = none) :
    forwardToProxyAction cfg pick dst = nameAction cfg pick dst.fqdn := by
  have hmatch : matchEgressRule dst = matchesName dst.fqdn := by
    funext rule
    simp only [matchEgressRule, matchesName, h]
  unfold forwardToProxyAction nameAction
  rw [hmatch]
  by_cases hname : dst.fqdn = []
  · have hnone : cfg.egress.rules.find? (matchesName dst.fqdn) = none := by
      simp [matchesName, hname]
    rw [if_pos ⟨h, hname⟩, hnone, ruleOrder]
  · rw [if_neg (fun hempty => hname hempty.2)]
    cases cfg.egress.rules.find? (matchesName dst.fqdn) with
    | none => rfl
    | some rule =>
      dsimp only [ruleOrder]
      split_ifs <;> rfl

/-- The name is a local one that the user may not reach. -/
def LocallyRejected (cfg : Config) (user : Option Bytes) (dst : AddrSpec) : Prop :=
  ∃ ip, checkedIP dst = some ip ∧ ¬IPPermitted cfg user ip

theorem findAction_connect (cfg : Config) (pick : ℕ) (user : Option Bytes) {data rest : Bytes}
    {req : Request} (h : readRequest data = .ok (req, rest))
    (hcmd : req.command = socks5ConnectCmd) (hname : req.dstAddr.ip = none) :
    (LocallyRejected cfg user req.dstAddr →
      findAction cfg pick ⟨.socks5, data, user⟩ = ⟨.reject, none⟩) ∧
    (¬LocallyRejected cfg user req.dstAddr →
      findAction cfg pick ⟨.socks5, data, user⟩ = nameAction cfg pick req.dstAddr.fqdn) := by
  obtain ⟨hlen, hhead⟩ := readRequest_head h
  have hshort : ¬data.length < 4 := by omega
  have hrej := reject_iff cfg ⟨.socks5, data, user⟩ req.dstAddr
  simp only [findAction, ne_eq, not_true_eq_false, if_false, hshort, hhead, h, hcmd, true_or,
    if_true, forwardToProxyAction_name cfg pick hname]
  constructor
  · intro hlocal
    rw [if_pos (hrej.mpr hlocal)]
  · intro hlocal
    rw [if_neg (mt hrej.mp hlocal)]

/-! ## Patterns that tell spellings apart -/

/-- The name is the domain or below it, in any spelling. -/
def Covers (d name : Bytes) : Prop :=
  (trimDot name).map lowerByte = d.map lowerByte ∨
    46 :: d.map lowerByte <:+ (trimDot name).map lowerByte

/-- The rule is for all names, or for the name or a domain above it in the spelling of the name. -/
def EgressRule.Hits (rule : EgressRule) (name : Bytes) : Prop :=
  name ≠ [] ∧ ([42] ∈ rule.domainNames ∨ ∃ d ∈ rule.domainNames, Covers d name ∧ d <:+ name)

instance (d name : Bytes) : Decidable (Covers d name) := inferInstanceAs (Decidable (_ ∨ _))

instance (rule : EgressRule) (name : Bytes) : Decidable (rule.Hits name) :=
  inferInstanceAs (Decidable (_ ∧ _))

/-- The other spelling slips past the rule, and the rules after it ask for something else. -/
def SlipsPast (cfg : Config) (pick : ℕ) (rule : EgressRule) (after : List EgressRule)
    (name name' : Bytes) : Prop :=
  rule.Hits name ∧ ¬rule.Hits name' ∧
    ruleOrder cfg pick (some rule) ≠ ruleOrder cfg pick (after.find? fun r => r.Hits name')

/-- The first rule that hits one of the spellings is slipped past by the other. -/
def ToldApart (cfg : Config) (pick : ℕ) (name name' : Bytes) : Prop :=
  ∃ before rule after, cfg.egress.rules = before ++ rule :: after ∧
    (∀ r ∈ before, ¬r.Hits name ∧ ¬r.Hits name') ∧
    (SlipsPast cfg pick rule after name name' ∨ SlipsPast cfg pick rule after name' name)

theorem lowerByte_eq_dot {c : UInt8} (h : lowerByte c = 46) : c = 46 := by
  have hadd := c.toNat_add 32
  unfold lowerByte at h
  split_ifs at h with hupper
  · simp only [UInt8.le_iff_toNat_le, ← UInt8.toNat_inj, UInt8.reduceToNat] at *
    omega
  · exact h

theorem trimDot_of_suffix {d name : Bytes} (hne : d ≠ []) (hdot : d.getLast? ≠ some 46)
    (h : d <:+ name) : trimDot name = name := by
  obtain ⟨front, rfl⟩ := h
  rw [trimDot, if_neg]
  rwa [List.getLast?_append_of_ne_nil _ hne]

/-- An accepted pattern other than `*` matches what it covers in its own spelling. -/
theorem matchDomain_iff {d : Bytes} (hne : d ≠ []) (hdot : d.getLast? ≠ some 46) (name : Bytes) :
    matchDomain name d = true ↔ d = [42] ∨ Covers d name ∧ d <:+ name := by
  rw [matchDomain, decide_eq_true_eq]
  refine or_congr_right ⟨?_, ?_⟩
  · intro h
    have hsuffix : d <:+ name := by
      rcases h with rfl | h
      · exact List.suffix_refl _
      · exact (List.suffix_cons 46 d).trans h
    refine ⟨?_, hsuffix⟩
    rw [Covers, trimDot_of_suffix hne hdot hsuffix]
    rcases h with rfl | h
    · exact .inl rfl
    · exact .inr (h.map lowerByte)
  · rintro ⟨hcovers, hsuffix⟩
    rw [Covers, trimDot_of_suffix hne hdot hsuffix] at hcovers
    obtain ⟨front, rfl⟩ := hsuffix
    rw [List.map_append] at hcovers
    rcases hcovers with hsame | ⟨top, htop⟩
    · left
      rw [List.append_left_eq_self, List.map_eq_nil_iff] at hsame
      rw [hsame, List.nil_append]
    · right
      -- What stands before the domain ends in a byte whose lower case is the dot.
      rw [← List.singleton_append, ← List.append_assoc, List.append_cancel_right_eq] at htop
      obtain ⟨above, last, rfl, -, hlast⟩ := List.map_eq_append_iff.mp htop.symm
      obtain ⟨c, rfl, hc⟩ := List.map_eq_singleton_iff.mp hlast
      rw [lowerByte_eq_dot hc, List.append_assoc]
      exact List.suffix_append above (46 :: d)

theorem hits_iff {usedProxyNames : List Bytes} {rule : EgressRule}
    (hvalid : validateEgressRule usedProxyNames rule = .ok ()) (name : Bytes) :
    matchesName name rule = true ↔ rule.Hits name := by
  obtain ⟨-, -, hvalid⟩ := bind_eq_ok.mp hvalid
  obtain ⟨⟨⟩, hdomains, -⟩ := bind_eq_ok.mp hvalid
  have hmatch : ∀ d ∈ rule.domainNames,
      (matchDomain name d = true ↔ d = [42] ∨ Covers d name ∧ d <:+ name) := by
    intro d hd
    have hdomain := forM_eq_ok.mp hdomains d hd
    simp only [validateDomain, ensure_bind_eq_ok, ensure_eq_ok] at hdomain
    exact matchDomain_iff hdomain.1 hdomain.2.2 name
  simp only [matchesName, EgressRule.Hits, Bool.and_eq_true, List.any_eq_true, decide_eq_true_eq]
  refine and_congr_right fun _ => ?_
  constructor
  · rintro ⟨d, hd, hmatched⟩
    rcases (hmatch d hd).mp hmatched with rfl | hspelled
    · exact .inl hd
    · exact .inr ⟨d, hd, hspelled⟩
  · rintro (hstar | ⟨d, hd, hspelled⟩)
    · exact ⟨_, hstar, (hmatch _ hstar).mpr (.inl rfl)⟩
    · exact ⟨d, hd, (hmatch d hd).mpr (.inr hspelled)⟩

theorem find?_ne_iff {α β : Type} (f : Option α → β) (p q : α → Bool) (l : List α) :
    f (l.find? p) ≠ f (l.find? q) ↔ ∃ before a after, l = before ++ a :: after ∧
      (∀ x ∈ before, ¬p x = true ∧ ¬q x = true) ∧
      ((p a = true ∧ ¬q a = true ∧ f (some a) ≠ f (after.find? q)) ∨
        (q a = true ∧ ¬p a = true ∧ f (some a) ≠ f (after.find? p))) := by
  induction l with
  | nil => simp
  | cons x l ih =>
    constructor
    · intro h
      by_cases hp : p x = true
      · refine ⟨[], x, l, rfl, by simp, .inl ⟨hp, ?_⟩⟩
        rw [List.find?_cons_of_pos hp] at h
        by_cases hq : q x = true
        · exact absurd (by rw [List.find?_cons_of_pos hq]) h
        · exact ⟨hq, by rwa [List.find?_cons_of_neg hq] at h⟩
      · rw [List.find?_cons_of_neg hp] at h
        by_cases hq : q x = true
        · rw [List.find?_cons_of_pos hq] at h
          exact ⟨[], x, l, rfl, by simp, .inr ⟨hq, hp, h.symm⟩⟩
        · rw [List.find?_cons_of_neg hq] at h
          obtain ⟨before, a, after, rfl, hbefore, ha⟩ := ih.mp h
          exact ⟨x :: before, a, after, rfl, List.forall_mem_cons.mpr ⟨⟨hp, hq⟩, hbefore⟩, ha⟩
    · rintro ⟨before, a, after, hl, hbefore, ha⟩
      cases before with
      | nil =>
        cases hl
        rcases ha with ⟨hp, hq, hne⟩ | ⟨hq, hp, hne⟩
        · rwa [List.find?_cons_of_pos hp, List.find?_cons_of_neg hq]
        · rw [List.find?_cons_of_pos hq, List.find?_cons_of_neg hp]
          exact hne.symm
      | cons y before =>
        cases hl
        obtain ⟨⟨hp, hq⟩, hbefore⟩ := List.forall_mem_cons.mp hbefore
        rw [List.find?_cons_of_neg hp, List.find?_cons_of_neg hq]
        exact ih.mpr ⟨before, a, after, rfl, hbefore, ha⟩

theorem toldApart_iff {cfg : Config} (hvalid : validateEgressRules cfg.egress = .ok ())
    (pick : ℕ) (name name' : Bytes) :
    ToldApart cfg pick name name' ↔ nameAction cfg pick name ≠ nameAction cfg pick name' := by
  have hfirst (n : Bytes) : cfg.egress.rules.find? (matchesName n) =
      cfg.egress.rules.find? fun r => r.Hits n := by
    refine List.find?_congr fun r hr => ?_
    rw [← Bool.coe_iff_coe, decide_eq_true_eq]
    exact hits_iff (forM_eq_ok.mp hvalid r hr) n
  rw [nameAction, nameAction, hfirst, hfirst, find?_ne_iff (ruleOrder cfg pick)]
  simp only [decide_eq_true_eq, ToldApart, SlipsPast]

/-- Two spellings of a name are treated alike unless the first stage lets the name through and a
rule with the domain in the one spelling is slipped past by the other. -/
theorem findAction_alike_iff {cfg : Config} (hvalid : validateEgressRules cfg.egress = .ok ())
    (pick : ℕ) (user : Option Bytes) {data data' rest rest' : Bytes} {req req' : Request}
    (hread : readRequest data = .ok (req, rest)) (hread' : readRequest data' = .ok (req', rest'))
    (hcmd : req.command = socks5ConnectCmd) (hcmd' : req'.command = socks5ConnectCmd)
    (hname : req.dstAddr.ip = none) (hname' : req'.dstAddr.ip = none)
    (halike : Alike req.dstAddr.fqdn req'.dstAddr.fqdn) :
    findAction cfg pick ⟨.socks5, data, user⟩ = findAction cfg pick ⟨.socks5, data', user⟩ ↔
      LocallyRejected cfg user req.dstAddr ∨
        ¬ToldApart cfg pick req.dstAddr.fqdn req'.dstAddr.fqdn := by
  have hsame : LocallyRejected cfg user req.dstAddr ↔ LocallyRejected cfg user req'.dstAddr := by
    unfold LocallyRejected
    rw [checkedIP_of_alike hname hname' halike]
  obtain ⟨hrejected, hruled⟩ := findAction_connect cfg pick user hread hcmd hname
  obtain ⟨hrejected', hruled'⟩ := findAction_connect cfg pick user hread' hcmd' hname'
  rw [toldApart_iff hvalid, not_not]
  by_cases hlocal : LocallyRejected cfg user req.dstAddr
  · rw [hrejected hlocal, hrejected' (hsame.mp hlocal)]
    exact iff_of_true rfl (.inl hlocal)
  · rw [hruled hlocal, hruled' (mt hsame.mpr hlocal)]
    exact (or_iff_right hlocal).symm

/-! ## A rule that is passed by -/

def rejectingConfig : Config where
  clientSideAuthentication := false
  ingressCredentials := []
  resolver _ := none
  udpAssociateMode := .packetOverStream
  users _ := none
  egress := ⟨[], [⟨[], [ascii "example.com"], .reject, []⟩]⟩
  dualStackPreference := .useFirst
  allowLoopbackDestination := false

def connectRequest (name : Bytes) : Bytes :=
  [socks5Version, socks5ConnectCmd, 0, socks5FQDNAddress, UInt8.ofNat name.length] ++ name ++
    [1, 187]

theorem other_spelling_not_rejected :
    validateEgressRules rejectingConfig.egress = .ok () ∧
    Alike (ascii "example.com") (ascii "Example.com") ∧
    Alike (ascii "example.com") (ascii "example.com.") ∧
    findAction rejectingConfig 0 ⟨.socks5, connectRequest (ascii "example.com"), none⟩ =
      ⟨.reject, none⟩ ∧
    findAction rejectingConfig 0 ⟨.socks5, connectRequest (ascii "Example.com"), none⟩ =
      ⟨.direct, none⟩ ∧
    findAction rejectingConfig 0 ⟨.socks5, connectRequest (ascii "example.com."), none⟩ =
      ⟨.direct, none⟩ := by
  refine ⟨rfl, ?_, ?_, ?_, ?_, ?_⟩ <;> decide

/-- Names below the domain are rejected in any spelling that leaves the domain itself as it is,
and a local name in any spelling. -/
theorem spellings_rejected_alike :
    findAction rejectingConfig 0 ⟨.socks5, connectRequest (ascii "www.example.com"), none⟩ =
      findAction rejectingConfig 0 ⟨.socks5, connectRequest (ascii "WWW.example.com"), none⟩ ∧
    findAction rejectingConfig 0 ⟨.socks5, connectRequest (ascii "localhost"), none⟩ =
      findAction rejectingConfig 0 ⟨.socks5, connectRequest (ascii "LocalHost."), none⟩ := by
  have hread : ∀ name ∈ [ascii "www.example.com", ascii "WWW.example.com", ascii "localhost",
      ascii "LocalHost."], readRequest (connectRequest name) =
        .ok (⟨socks5ConnectCmd, ⟨name, none, 443⟩, connectRequest name⟩, []) := by
    simp only [List.forall_mem_cons]
    exact ⟨rfl, rfl, rfl, rfl, by simp⟩
  simp only [List.forall_mem_cons] at hread
  obtain ⟨hlower, hupper, hlocal, hdotted, -⟩ := hread
  constructor
  · refine (findAction_alike_iff rfl 0 none hlower hupper rfl rfl rfl rfl (by decide)).mpr
      (.inr ?_)
    rintro ⟨before, rule, after, hrules, -, hslips⟩
    have hrule : rule ∈ rejectingConfig.egress.rules := by simp [hrules]
    cases List.mem_singleton.mp hrule
    rcases hslips with ⟨-, hmiss, -⟩ | ⟨-, hmiss, -⟩
    · exact hmiss (by decide)
    · exact hmiss (by decide)
  · have hrejected : LocallyRejected rejectingConfig none ⟨ascii "localhost", none, 443⟩ :=
      (reject_iff rejectingConfig ⟨.socks5, [], none⟩ _).mp rfl
    exact (findAction_alike_iff rfl 0 none hlocal hdotted rfl rfl rfl rfl (by decide)).mpr
      (.inl hrejected)

end Mieru.Socks5
