import Mieru.Socks5.Egress

/-! # Serving one socks5 connection in the proxy server

The connection is the byte string the client sends before it stops. `ConnM`
collects what is written back. Writing, and listening for UDP, always succeed. -/
namespace Mieru.Socks5

open Net ByteReader Result

def socks5NoAuth : UInt8 := 0
def socks5UserPassAuth : UInt8 := 2
def socks5NoAcceptableAuth : UInt8 := 255
def socks5UserPassAuthVersion : UInt8 := 1
def socks5AuthSuccess : UInt8 := 0
def socks5AuthFailure : UInt8 := 1

def socks5ReplyNotAllowedByRuleSet : UInt8 := 2
def socks5ReplyNetworkUnreachable : UInt8 := 3
def socks5ReplyHostUnreachable : UInt8 := 4
def socks5ReplyCommandNotSupported : UInt8 := 7
def socks5ReplyAddrTypeNotSupported : UInt8 := 8

/-- Errors returned to the caller; those about a name keep the name. -/
inductive ServeError where
  | message (text : String)
  | resolveFailed (fqdn : Bytes)
  | ipAddressNotFound (fqdn : Bytes)
  | noPreferredIP (fqdn : Bytes) (ips : List IP)
  deriving DecidableEq

/-- Bytes written back, then an error or a value with the bytes left to read. -/
def ConnM (α : Type) : Type := Bytes → Bytes × Except ServeError (α × Bytes)

variable {α β : Type}

instance : Monad ConnM where
  pure a := fun bs => ([], .ok (a, bs))
  bind p f := fun bs =>
    match p bs with
    | (out, .error e) => (out, .error e)
    | (out, .ok (a, rest)) => ((out ++ (f a rest).1), (f a rest).2)

def write (out : Bytes) : ConnM Unit := fun bs => (out, .ok ((), bs))

def failWith (e : ServeError) : ConnM α := fun _ => ([], .error e)

def raise (text : String) : ConnM α := failWith (.message text)

/-- Read with `p`; an error is reported behind `context`. -/
def read (p : Reader α) (context : String) : ConnM α := fun bs =>
  match p bs with
  | .ok r => ([], .ok r)
  | .error e => raise (context ++ ": " ++ e.text) bs

/-- `WriteSocks5Response` with the bind address 0.0.0.0:0. -/
def writeReply (reply : UInt8) : ConnM Unit :=
  write [socks5Version, reply, 0, socks5IPv4Address, 0, 0, 0, 0, 0, 0]

def readCredential : ConnM (Bytes × Bytes) := do
  let version ← read readByte "get user password authentication version failed"
  if version ≠ socks5UserPassAuthVersion then
    raise s!"user password authentication version {version} is not supported by socks5 server"
  else
    let userLen ← read readByte "get user length failed"
    let user ← read (readFull userLen.toNat) "read user failed"
    let passwordLen ← read readByte "get password length failed"
    let password ← read (readFull passwordLen.toNat) "read password failed"
    return (user, password)

def handleAuthentication (cfg : Config) : ConnM Unit := do
  let version ← read readByte "get socks version failed"
  if version ≠ socks5Version then raise s!"unsupported socks version: [{version}]"
  else
    let nAuthMethods ← read readByte "get number of authentication method failed"
    if nAuthMethods = 0 then raise "number of authentication method is 0"
    else
      let authMethods ← read (readFull nAuthMethods.toNat) "get authentication method failed"
      let requestNoAuth := socks5NoAuth ∈ authMethods
      let requestUserPassAuth := socks5UserPassAuth ∈ authMethods
      if ¬ requestNoAuth ∧ ¬ requestUserPassAuth then
        write [socks5Version, socks5NoAcceptableAuth]
        raise "socks5 client provided authentication is not supported by socks5 server"
      else if requestNoAuth ∧ cfg.ingressCredentials = [] then
        write [socks5Version, socks5NoAuth]
      else if requestUserPassAuth then
        if cfg.ingressCredentials = [] then raise "there is no registered socks5 server user"
        else
          write [socks5Version, socks5UserPassAuth]
          let (user, password) ← readCredential
          if ⟨user, password⟩ ∈ cfg.ingressCredentials then
            write [socks5UserPassAuthVersion, socks5AuthSuccess]
          else
            write [socks5UserPassAuthVersion, socks5AuthFailure]
            raise "user password authentication failed: invalid user or password"
      else
        raise ("socks5 client requested no authentication, but user and password are " ++
          "required by socks5 server")

inductive Served where
  | dial (host : Host) (port : ℕ)
  | associate (mode : UDPAssociateMode)
  | bindRefused
  | forward (proxy : EgressProxy) (request : Request)
  | nothing

/-- `common.SelectIPFromList` on the non-empty answer of the resolver. -/
def selectIPFromList (ips : List IP) (strategy : DualStackPreference) : Option IP :=
  let ipv4 := ips.find? fun ip => ip.to4.isSome
  let ipv6 := ips.find? fun ip => !ip.to4.isSome
  match strategy with
  | .preferIPv4 => ipv4.or ipv6
  | .preferIPv6 => ipv6.or ipv4
  | .onlyIPv4 => ipv4
  | .onlyIPv6 => ipv6
  | .useFirst => ips.head?

def handleRequest (cfg : Config) (req : Request) : ConnM Served := do
  let dst ← resolve req.dstAddr
  if req.command = socks5ConnectCmd then return .dial dst.host dst.port
  else if req.command = socks5BindCmd then
    writeReply socks5ReplyCommandNotSupported
    return .bindRefused
  else if req.command = socks5UDPAssociateCmd then return .associate cfg.udpAssociateMode
  else
    writeReply socks5ReplyCommandNotSupported
    raise s!"handleRequest() failed: unsupported command: {req.command}"
where
  /-- The destination with the address that its name resolves to. -/
  resolve (dst : AddrSpec) : ConnM AddrSpec :=
    if dst.fqdn = [] then pure dst
    else
      match cfg.resolver dst.fqdn with
      | none => do
        writeReply socks5ReplyHostUnreachable
        failWith (.resolveFailed dst.fqdn)
      | some [] => do
        writeReply socks5ReplyHostUnreachable
        failWith (.ipAddressNotFound dst.fqdn)
      | some (ip :: ips) =>
        match selectIPFromList (ip :: ips) cfg.dualStackPreference with
        | none => do
          writeReply socks5ReplyNetworkUnreachable
          failWith (.noPreferredIP dst.fqdn (ip :: ips))
        | some selected => pure { dst with ip := some selected }

/-- `readRequest` with the reply for an unknown address type. -/
def acceptRequest : ConnM Request := fun bs =>
  match readRequest bs with
  | .ok r => ([], .ok r)
  | .error e =>
    let report : ConnM Request := raise ("failed to read destination address: " ++ e.text)
    if e = errUnrecognizedAddrType then
      (do writeReply socks5ReplyAddrTypeNotSupported; report) bs
    else report bs

def egressInput (userName : Bytes) (req : Request) : Input :=
  ⟨.socks5, req.raw, if userName = [] then none else some userName⟩

def serveRequest (cfg : Config) (pick : ℕ) (userName : Bytes) (req : Request) : ConnM Served :=
  let action := findAction cfg pick (egressInput userName req)
  match action.action with
  | .direct => handleRequest cfg req
  | .proxy =>
    match action.proxy with
    | none => raise "egress action is PROXY but proxy info is unavailable"
    | some proxy => pure (.forward proxy req)
  | .reject => do
    writeReply socks5ReplyNotAllowedByRuleSet
    raise "connection is rejected by egress rules"
  | .other _ => pure .nothing

def authenticate (cfg : Config) : ConnM Unit :=
  if cfg.clientSideAuthentication then pure () else handleAuthentication cfg

def serverServeConn (cfg : Config) (pick : ℕ) (userName : Bytes) : ConnM Served := do
  authenticate cfg
  let req ← acceptRequest
  serveRequest cfg pick userName req

/-! ## Which host a CONNECT request dials -/

theorem bind_snd (p : ConnM α) (f : α → ConnM β) (bs : Bytes) :
    ((p >>= f) bs).2 = (match p bs with
      | (out, .error e) => (out, .error e)
      | (out, .ok (a, rest)) => ((out ++ (f a rest).1), (f a rest).2) :
        Bytes × Except ServeError (β × Bytes)).2 := rfl

theorem bind_ok {p : ConnM α} {f : α → ConnM β} {bs out rest : Bytes} {a : α}
    (h : p bs = (out, .ok (a, rest))) : ((p >>= f) bs).2 = (f a rest).2 := by
  rw [bind_snd, h]

theorem serverServeConn_run {cfg : Config} {pick : ℕ} {userName conn out rest rest' : Bytes}
    {req : Request} (hauth : authenticate cfg conn = (out, .ok ((), rest)))
    (hreq : readRequest rest = .ok (req, rest')) :
    (serverServeConn cfg pick userName conn).2 = (serveRequest cfg pick userName req rest').2 := by
  have haccept : acceptRequest rest = ([], .ok (req, rest')) := by simp [acceptRequest, hreq]
  exact (bind_ok hauth).trans (bind_ok haccept)

/-- The address a name is dialled at: the resolver's answer under the preference. -/
def resolvedIP (cfg : Config) (name : Bytes) : Option IP :=
  (cfg.resolver name).bind fun ips => selectIPFromList ips cfg.dualStackPreference

def dialHost (cfg : Config) (dst : AddrSpec) : Option Host :=
  if dst.fqdn = [] then some dst.host else (resolvedIP cfg dst.fqdn).map Host.ip

theorem selectIPFromList_nil (strategy : DualStackPreference) :
    selectIPFromList [] strategy = none := by
  cases strategy <;> rfl

theorem resolve_run (cfg : Config) (dst : AddrSpec) (rest : Bytes) :
    (∃ out, dst.fqdn = [] ∧ handleRequest.resolve cfg dst rest = (out, .ok (dst, rest))) ∨
    (∃ out ip, dst.fqdn ≠ [] ∧ resolvedIP cfg dst.fqdn = some ip ∧
      handleRequest.resolve cfg dst rest = (out, .ok ({ dst with ip := some ip }, rest))) ∨
    (∃ out e, dst.fqdn ≠ [] ∧ resolvedIP cfg dst.fqdn = none ∧
      handleRequest.resolve cfg dst rest = (out, .error e)) := by
  by_cases hname : dst.fqdn = []
  · exact Or.inl ⟨[], hname, by rw [handleRequest.resolve, if_pos hname]; rfl⟩
  · right
    rw [handleRequest.resolve, if_neg hname]
    cases hips : cfg.resolver dst.fqdn with
    | none => exact Or.inr ⟨_, _, hname, by simp [resolvedIP, hips], rfl⟩
    | some ips =>
      cases ips with
      | nil => exact Or.inr ⟨_, _, hname, by simp [resolvedIP, hips, selectIPFromList_nil], rfl⟩
      | cons ip ips =>
        cases hsel : selectIPFromList (ip :: ips) cfg.dualStackPreference with
        | none =>
          exact Or.inr ⟨_, _, hname, by simp [resolvedIP, hips, hsel], by simp only [hsel]; rfl⟩
        | some selected =>
          exact Or.inl ⟨[], selected, hname, by simp [resolvedIP, hips, hsel],
            by simp only [hsel]; rfl⟩

theorem bind_error {p : ConnM α} {f : α → ConnM β} {bs out : Bytes} {e : ServeError}
    (h : p bs = (out, .error e)) : ((p >>= f) bs).2 = .error e := by
  rw [bind_snd, h]

theorem handleRequest_dials {cfg : Config} {req : Request} (hcmd : req.command = socks5ConnectCmd)
    (rest : Bytes) (host : Host) :
    (∃ port rest', (handleRequest cfg req rest).2 = .ok (.dial host port, rest')) ↔
      dialHost cfg req.dstAddr = some host := by
  rcases resolve_run cfg req.dstAddr rest with
    ⟨out, hname, hres⟩ | ⟨out, ip, hname, hip, hres⟩ | ⟨out, e, hname, hip, hres⟩
  · have hrun : (handleRequest cfg req rest).2 = _ := bind_ok hres
    rw [hrun, if_pos hcmd, dialHost, if_pos hname, Option.some_inj]
    constructor
    · rintro ⟨port, rest', h⟩
      cases h
      rfl
    · rintro rfl
      exact ⟨_, _, rfl⟩
  · have hrun : (handleRequest cfg req rest).2 = _ := bind_ok hres
    rw [hrun, if_pos hcmd, dialHost, if_neg hname, hip, Option.map_some, Option.some_inj]
    constructor
    · rintro ⟨port, rest', h⟩
      cases h
      rfl
    · rintro rfl
      exact ⟨_, _, rfl⟩
  · have hrun : (handleRequest cfg req rest).2 = _ := bind_error hres
    rw [hrun, dialHost, if_neg hname, hip]
    simp

theorem serveRequest_dials {cfg : Config} {pick : ℕ} {userName : Bytes} {req : Request}
    (hcmd : req.command = socks5ConnectCmd) (rest : Bytes) (host : Host) :
    (∃ port rest', (serveRequest cfg pick userName req rest).2 = .ok (.dial host port, rest')) ↔
      (findAction cfg pick (egressInput userName req)).action = .direct ∧
        dialHost cfg req.dstAddr = some host := by
  unfold serveRequest
  cases haction : (findAction cfg pick (egressInput userName req)).action with
  | direct => simp [handleRequest_dials hcmd]
  | proxy =>
    cases hproxy : (findAction cfg pick (egressInput userName req)).proxy with
    | none => simp [raise, failWith]
    | some proxy => simp [pure]
  | reject =>
    have hrun : ((writeReply socks5ReplyNotAllowedByRuleSet >>= fun _ =>
        (raise "connection is rejected by egress rules" : ConnM Served)) rest).2 = _ :=
      bind_ok rfl
    simp only [hrun]
    simp [raise, failWith]
  | other n => simp [pure]

/-! ## Destinations inside the server's network -/

/-- Neither private, nor loopback, nor what a dialer takes for the local system. -/
def Host.Foreign : Host → Prop
  | .ip a => a.isPrivate = false ∧ a.isLoopback = false ∧ a.isUnspecified = false
  | .name n => n ≠ []

def Unprivileged (cfg : Config) (userName : Bytes) : Prop :=
  ∀ u, cfg.users userName = some u → u.allowPrivateIP = false ∧ u.allowLoopbackIP = false

/-- A rule other than DIRECT catches the destination, or it is a specified address,
a well-known local name, or a name that resolves to a foreign address. -/
def ConnectGuarded (cfg : Config) (dst : AddrSpec) : Prop :=
  ruleAction cfg dst ≠ .direct ∨
    match dst.ip with
    | some ip => ip.isUnspecified = false
    | none => dst.fqdn ≠ [] ∧
      ((checkedIP dst).isSome = true ∨
        ∀ ip, resolvedIP cfg dst.fqdn = some ip → (Host.ip ip).Foreign)

theorem ipPermitted_unprivileged {cfg : Config} (hloop : cfg.allowLoopbackDestination = false)
    {userName : Bytes} (huser : Unprivileged cfg userName) (req : Request) (ip : IP) :
    IPPermitted cfg (egressInput userName req).user ip ↔
      ip.isPrivate = false ∧ ip.isLoopback = false := by
  constructor
  · rintro (hnone | ⟨-, hallow⟩ | ⟨name, u, hname, -, hu, hallow⟩)
    · exact hnone
    · rw [hloop] at hallow
      cases hallow
    · have hsame : name = userName := by
        unfold egressInput at hname
        split_ifs at hname with hempty
        exact (Option.some.inj hname).symm
      obtain ⟨hpriv, hlb⟩ := huser u (hsame ▸ hu)
      rw [hpriv, hlb] at hallow
      simp at hallow
  · exact Or.inl

theorem checkedIP_name {dst : AddrSpec} {ip : IP} (hip : dst.ip = none)
    (h : checkedIP dst = some ip) : ip.isLoopback = true := by
  simp only [checkedIP, hip] at h
  split_ifs at h
  · cases h
    decide
  · cases h
    decide

theorem findAction_direct_iff {cfg : Config} (hloop : cfg.allowLoopbackDestination = false)
    {userName : Bytes} (huser : Unprivileged cfg userName) {pick : ℕ} {bs rest : Bytes}
    {req : Request} (hreq : readRequest bs = .ok (req, rest))
    (hcmd : req.command = socks5ConnectCmd) :
    (findAction cfg pick (egressInput userName req)).action = .direct ↔
      (∀ ip, checkedIP req.dstAddr = some ip → ip.isPrivate = false ∧ ip.isLoopback = false) ∧
        ruleAction cfg req.dstAddr = .direct := by
  have hfind := findAction_request cfg pick (egressInput userName req).user
    (readRequest_raw hreq) (Or.inl hcmd)
  have hrej := reject_iff cfg (egressInput userName req) req.dstAddr
  simp only [ipPermitted_unprivileged hloop huser] at hrej
  change (findAction cfg pick (egressInput userName req)).action = _ at hfind
  rw [hfind]
  by_cases hr :
      rejectPrivateAndLoopbackIPAction cfg (egressInput userName req) req.dstAddr = .reject
  · obtain ⟨ip, hip, hbad⟩ := hrej.mp hr
    have hif : (if rejectPrivateAndLoopbackIPAction cfg (egressInput userName req) req.dstAddr =
        .reject then EgressAction.reject else ruleAction cfg req.dstAddr) = .reject := if_pos hr
    refine iff_of_false ?_ (fun hall => hbad (hall.1 ip hip))
    intro hdirect
    cases hif.symm.trans hdirect
  · have hif : (if rejectPrivateAndLoopbackIPAction cfg (egressInput userName req) req.dstAddr =
        .reject then EgressAction.reject else ruleAction cfg req.dstAddr) =
        ruleAction cfg req.dstAddr := if_neg hr
    have hall : ∀ ip, checkedIP req.dstAddr = some ip →
        ip.isPrivate = false ∧ ip.isLoopback = false := by
      intro ip hip
      by_contra hbad
      exact hr (hrej.mpr ⟨ip, hip, hbad⟩)
    exact ⟨fun hdirect => ⟨hall, hif.symm.trans hdirect⟩, fun hboth => hif.trans hboth.2⟩

/-- An unprivileged CONNECT request stays outside the server's own network exactly
when its destination is guarded. -/
theorem connect_stays_foreign_iff {cfg : Config} (hloop : cfg.allowLoopbackDestination = false)
    {userName : Bytes} (huser : Unprivileged cfg userName) (pick : ℕ)
    {conn out rest rest' : Bytes} {req : Request}
    (hauth : authenticate cfg conn = (out, .ok ((), rest)))
    (hreq : readRequest rest = .ok (req, rest')) (hcmd : req.command = socks5ConnectCmd) :
    (∀ host port left, (serverServeConn cfg pick userName conn).2 =
      .ok (.dial host port, left) → host.Foreign) ↔ ConnectGuarded cfg req.dstAddr := by
  have hdials : (∀ host port left, (serverServeConn cfg pick userName conn).2 =
      .ok (.dial host port, left) → host.Foreign) ↔
      (∀ host, (∀ ip, checkedIP req.dstAddr = some ip →
        ip.isPrivate = false ∧ ip.isLoopback = false) → ruleAction cfg req.dstAddr = .direct →
        dialHost cfg req.dstAddr = some host → host.Foreign) := by
    rw [serverServeConn_run hauth hreq]
    constructor
    · intro h host hip hrule hhost
      obtain ⟨port, left, hrun⟩ := (serveRequest_dials hcmd rest' host).mpr
        ⟨(findAction_direct_iff hloop huser hreq hcmd).mpr ⟨hip, hrule⟩, hhost⟩
      exact h host port left hrun
    · intro h host port left hrun
      obtain ⟨hdirect, hhost⟩ := (serveRequest_dials hcmd rest' host).mp ⟨port, left, hrun⟩
      obtain ⟨hip, hrule⟩ := (findAction_direct_iff hloop huser hreq hcmd).mp hdirect
      exact h host hip hrule hhost
  rw [hdials, ConnectGuarded]
  by_cases hrule : ruleAction cfg req.dstAddr = .direct
  · simp only [hrule, ne_eq, not_true_eq_false, false_or, true_implies]
    cases hip : req.dstAddr.ip with
    | some ip =>
      have hname : req.dstAddr.fqdn = [] := (readRequest_shape hreq).resolve_right (by simp [hip])
      have hchecked : checkedIP req.dstAddr = some ip := by simp [checkedIP, hip]
      have hhost : dialHost cfg req.dstAddr = some (.ip ip) := by
        simp [dialHost, hname, AddrSpec.host, hip]
      simp only [hchecked, hhost, Option.some.injEq]
      constructor
      · intro h
        by_contra hunspec
        have hun : ip.isUnspecified = true := by simpa using hunspec
        have hf := h (.ip ip) (fun ip' heq => heq ▸ isUnspecified_unchecked hun) rfl
        rw [hf.2.2] at hun
        cases hun
      · rintro hspec host hall rfl
        exact ⟨(hall ip rfl).1, (hall ip rfl).2, hspec⟩
    | none =>
      by_cases hname : req.dstAddr.fqdn = []
      · -- the empty name passes every check and is dialled as it is
        have hchecked : checkedIP req.dstAddr = none := by simp [checkedIP, hip, hname]
        have hhost : dialHost cfg req.dstAddr = some (.name []) := by
          simp [dialHost, hname, AddrSpec.host, hip]
        refine iff_of_false (fun h => ?_) (fun h => h.1 hname)
        exact h (.name []) (by simp [hchecked]) hhost rfl
      · simp only [hname, not_false_eq_true, true_and, dialHost, if_false]
        cases hchecked : checkedIP req.dstAddr with
        | some ip =>
          have hlb := checkedIP_name hip hchecked
          refine iff_of_true (fun host hall _ => ?_) (Or.inl rfl)
          have hno := (hall ip rfl).2
          rw [hlb] at hno
          cases hno
        | none =>
          constructor
          · intro h
            exact Or.inr fun ip hres => h (.ip ip) (by simp) (by simp [hres])
          · rintro (hfalse | hall) host - hhost
            · cases hfalse
            · obtain ⟨ip, hres, rfl⟩ := Option.map_eq_some_iff.mp hhost
              exact hall ip hres
  · simp [hrule]

/-- A server with one user, who has no allowance, and no egress rule. -/
def internetOnly : Config where
  clientSideAuthentication := true
  ingressCredentials := []
  resolver := fun _ => none
  udpAssociateMode := .packetOverStream
  users := fun name => if name = ascii "user" then some ⟨false, false⟩ else none
  egress := ⟨[], []⟩
  dualStackPreference := .useFirst
  allowLoopbackDestination := false

theorem unprivileged_internetOnly : Unprivileged internetOnly (ascii "user") := by
  intro u hu
  have hsome : internetOnly.users (ascii "user") = some ⟨false, false⟩ := rfl
  cases hsome.symm.trans hu
  exact ⟨rfl, rfl⟩

theorem connect_public_stays_foreign :
    (serverServeConn internetOnly 0 (ascii "user") [5, 1, 0, 1, 8, 8, 8, 8, 0, 53]).2 =
      .ok (.dial (.ip ⟨[8, 8, 8, 8], Or.inl rfl⟩) 53, []) ∧
    ∀ host port left,
      (serverServeConn internetOnly 0 (ascii "user") [5, 1, 0, 1, 8, 8, 8, 8, 0, 53]).2 =
        .ok (.dial host port, left) → host.Foreign := by
  have hreq : readRequest [5, 1, 0, 1, 8, 8, 8, 8, 0, 53] =
      .ok (⟨1, ⟨[], some ⟨[8, 8, 8, 8], Or.inl rfl⟩, 53⟩,
        [5, 1, 0, 1, 8, 8, 8, 8, 0, 53]⟩, []) := rfl
  refine ⟨rfl, ?_⟩
  exact (connect_stays_foreign_iff rfl unprivileged_internetOnly 0 rfl hreq rfl).mpr (Or.inr rfl)

/-- 0.0.0.0, :: and the empty name pass the checks and are dialled: the local system. -/
theorem connect_unspecified_reaches_local_system :
    (serverServeConn internetOnly 0 (ascii "user") [5, 1, 0, 1, 0, 0, 0, 0, 0, 22]).2 =
      .ok (.dial (.ip ⟨[0, 0, 0, 0], Or.inl rfl⟩) 22, []) ∧
    (serverServeConn internetOnly 0 (ascii "user")
      ([5, 1, 0, 4] ++ List.replicate 16 0 ++ [0, 22])).2 =
      .ok (.dial (.ip ipv6unspecified) 22, []) ∧
    (serverServeConn internetOnly 0 (ascii "user") [5, 1, 0, 3, 0, 0, 22]).2 =
      .ok (.dial (.name []) 22, []) ∧
    ¬ (Host.ip ⟨[0, 0, 0, 0], Or.inl rfl⟩).Foreign ∧ ¬ (Host.ip ipv6unspecified).Foreign ∧
    ¬ (Host.name []).Foreign := by
  refine ⟨rfl, rfl, rfl, ?_, ?_, ?_⟩
  · rintro ⟨-, -, hun⟩
    exact absurd hun (by decide)
  · rintro ⟨-, -, hun⟩
    exact absurd hun (by decide)
  · intro hne
    exact hne rfl

end Mieru.Socks5
