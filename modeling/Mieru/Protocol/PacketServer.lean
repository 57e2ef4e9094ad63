import Mieru.Lib.KeyedMap
import Mieru.Lib.Machine
import Mieru.Protocol.PacketUnderlay
import Mieru.ServerUser.Acceptance

/-! # The event loop of a packet server

One loop reads the datagrams of all users of a port, finds out who sent them and hands the
segments to sessions by their ID. Each session takes its segments from a channel. -/
namespace Mieru.Protocol

open Cipher Net Result Rng ServerUser TrafficPattern ProtocolType

/-! ## Sessions -/

/-- A segment and what the server knows about its sender. -/
structure ServerSegment where
  packet : Packet
  block : StatelessCipher
  serverUserPolicy : Policy

def ServerSegment.userName (seg : ServerSegment) : String := seg.block.val.userName

def segmentChanCapacity : ℕ := 256

/-- What the loop reads and writes of a session, and what `input` keeps of the user. -/
structure ServerSession where
  id : UInt32
  remoteAddr : UDPAddr
  block : Option StatelessCipher := none
  userPolicy : Option Policy := none
  recvChan : List ServerSegment := []
  closed : Bool := false

def newSessionWithServerUserPolicy (id : UInt32) (policy : Policy) (remoteAddr : UDPAddr) :
    ServerSession where
  id := id
  remoteAddr := remoteAddr
  userPolicy := if policy.name ≠ "" then some policy else none

def isFromClient (p : ProtocolType) : Bool :=
  p = openSessionRequest ∨ p = closeSessionRequest ∨ p = closeSessionResponse ∨
    p = dataClientToServer ∨ p = dataClientToServerLowEntropy ∨ p = ackClientToServer

namespace ServerSession

variable (s : ServerSession) (seg : ServerSegment)

def push : ServerSession := { s with recvChan := s.recvChan ++ [seg] }

def user : Option String := s.userPolicy.map Policy.name

/-- The panics also name the session and the segment. -/
def checkBlock : Except Fault Unit :=
  match s.block with
  | none => .ok ()
  | some block => do
    let prevUserName := block.val.userName
    let nextUserName := seg.userName
    ensure (prevUserName ≠ "") (.panicked "cipher block user name is not set")
    ensure (nextUserName ≠ "") (.panicked "cipher block user name is not set")
    ensure (prevUserName = nextUserName) (.panicked ("cipher block user name " ++
      prevUserName.quote ++ " is different from cipher block user name " ++ nextUserName.quote))

def keepPolicy : Except Fault (Option Policy) :=
  let policy := seg.serverUserPolicy
  let policyName := policy.name
  let userName := seg.userName
  match s.userPolicy with
  | some current => do
    let currentName := current.name
    ensure (currentName = userName) (.panicked ("user policy name " ++ currentName.quote ++
      " differs from cipher user name " ++ userName.quote))
    ensure (¬(policyName ≠ "" ∧ currentName ≠ policyName)) (.panicked
      ("retained user policy name " ++ currentName.quote ++
        " differs from segment user policy name " ++ policyName.quote))
    return some current
  | none =>
    if policyName ≠ "" then do
      ensure (policyName = userName) (.panicked ("user policy name " ++ policyName.quote ++
        " differs from cipher user name " ++ userName.quote))
      return some policy
    else return none

def input : Except Fault ServerSession := do
  ensure (isFromClient seg.packet.protocol = true) (.failed "INVALID ARGUMENT")
  s.checkBlock seg
  let userPolicy ← s.keepPolicy seg
  return { s with block := some seg.block, userPolicy := userPolicy }

end ServerSession

/-! ## The server -/

structure ServerConfig where
  kdf : Pbkdf2
  mtu : ℤ
  trafficPattern : Option TrafficPattern
  host : Host

/-- What is published of the users. The policy of a user has the user's name. -/
abbrev Users := { published : Option State //
  ∀ state, published = some state → ∀ user ∈ state.users, user.policy.name = user.name }

/-- `running` is about the loop, `crashed` about the program. -/
structure PacketServer where
  users : Users
  hintMandatory : Bool
  sessionMap : KeyedMap ServerSession.id := .empty
  done : Bool := false
  running : Bool := true
  crashed : Bool := false

/-- A datagram from `addr`, and the choices of the environment while the loop handles it. -/
structure Arrival (kdf : Pbkdf2) where
  bytes : Bytes
  addr : UDPAddr
  replayed : Bool
  /-- Sessions are visited in no fixed order. -/
  pick : ℕ
  env : DecryptorEnv kdf
  now : ℕ
  /-- The session takes the segment, or it is closed or the underlay is. -/
  accepted : Bool
  draws : Draws
  writeError : Option String

def isSameIP : Option IP → Option IP → Bool
  | none, none => true
  | some x, some y => x.equal y
  | _, _ => false

def isSamePacketAddr (a b : UDPAddr) : Bool :=
  a.port = b.port ∧ a.zone = b.zone ∧ isSameIP a.ip b.ip = true

/-- Ports and zones do not count, and an IPv4 address has the key of its mapped form. -/
def sourceFromAddr (addr : UDPAddr) : Source :=
  match addr.ip with
  | none => ⟨Vector.replicate 16 0, false⟩
  | some ip =>
    { key := ⟨ip.to16.toArray, by
        rw [List.size_toArray, IP.to16]
        rcases ip.length_eq with h | h
        · rw [if_pos h, List.length_append, h]
          rfl
        · rw [if_neg (by omega), h]⟩
      valid := true }

/-- Decrypted metadata, the cipher, the policy, and whether the user was looked for. -/
structure OpenedMeta where
  decryptedMeta : Bytes
  block : StatelessCipher
  policy : Policy
  authenticated : Bool

def ServerSession.tryDecrypt (s : ServerSession) (encryptedMeta : Bytes) (addr : UDPAddr) :
    Option OpenedMeta :=
  match s.block with
  | none => none
  | some block =>
    if isSamePacketAddr s.remoteAddr addr then
      match decryptStateless block encryptedMeta with
      | .error _ => none
      | .ok plaintext => some ⟨plaintext, block, s.userPolicy.getD {}, false⟩
    else none

def validateServerSegmentDirection (packet : Packet) : Except String Unit :=
  let protocol := packet.protocol.string
  ensure (isFromClient packet.protocol = true)
    s!"protocol {protocol} has the wrong direction for a server"

def validateNewServerSessionSegment (packet : Packet) : Except String Unit := do
  let protocol := packet.protocol.string
  let sessionID := packet.metadata.sessionID
  ensure (packet.protocol = .openSessionRequest)
    s!"protocol {protocol} can't create a server session"
  ensure (sessionID ≠ 0) s!"reserved session ID {sessionID} is used"

/-- Only a newly found user is held to the protocols of a client. -/
def OpenedMeta.validate (opened : OpenedMeta) (packet : Packet) : Except String Unit :=
  if opened.authenticated then do
    validateServerSegmentDirection packet
    if packet.protocol = .openSessionRequest then validateNewServerSessionSegment packet
    else .ok ()
  else .ok ()

inductive ReturnReason where
  | contextDone
  | underlayClosed
  | readFailed (err : String)
  | writeFailed (fault : Fault)
  deriving DecidableEq, Repr

inductive ServerEvent where
  | delivered (session : ServerSession) (seg : ServerSegment)
  | sent (d : Datagram) (addr : UDPAddr)
  | returned (reason : ReturnReason)
  | panicked (msg : String)

namespace PacketServer

variable {cfg : ServerConfig} (u : PacketServer)

def tryDecryptExistingSession (encryptedMeta : Bytes) (addr : UDPAddr) (pick : ℕ) :
    Option OpenedMeta :=
  let openers := u.sessionMap.items.filterMap fun s => s.tryDecrypt encryptedMeta addr
  openers[pick % openers.length]?

def serverTryDecryptMetadataForNewSession (r : Arrival cfg.kdf) (encryptedMeta : Bytes) :
    Except String OpenedMeta := do
  let found ← discover (decryptors r.env) u.users.val u.hintMandatory encryptedMeta
    (sourceFromAddr r.addr)
  return ⟨found.decryptedMetadata, found.block, found.policy, found.userID ≠ 0⟩

def decryptMetadata (r : Arrival cfg.kdf) (encryptedMeta : Bytes) : Except String OpenedMeta :=
  match u.tryDecryptExistingSession encryptedMeta r.addr r.pick with
  | some opened => .ok opened
  | none => u.serverTryDecryptMetadataForNewSession r encryptedMeta

/-- An error only drops the datagram. -/
def readOneSegment (r : Arrival cfg.kdf) : Except String ServerSegment := do
  let b := r.bytes.take maxDatagramSize
  let n := b.length
  ensure (packetNonHeaderPosition ≤ n)
    s!"received packet with only {n} bytes, which is too short"
  let encryptedMeta := b.take packetNonHeaderPosition
  let opened ← u.decryptMetadata r encryptedMeta
  ensure (r.replayed = false) "found possible replay attack with payload decrypted"
  let packet ← parseSegment opened.block.val r.now opened.decryptedMeta
    (encryptedMeta.take defaultNonceSize) (b.drop packetNonHeaderPosition)
  opened.validate packet
  return ⟨packet, opened.block, opened.policy⟩

/-- Waits for room in the channel as long as the session and the underlay are open. -/
def deliverSegmentToSession (accepted : Bool) (session : ServerSession) (seg : ServerSegment) :
    Option (PacketServer × List ServerEvent) :=
  if accepted then
    if session.recvChan.length < segmentChanCapacity then
      some ({ u with sessionMap := u.sessionMap.set (session.push seg) },
        [.delivered session seg])
    else none
  else if session.closed ∨ u.done then some (u, [])
  else none

def onOpenSessionRequest (r : Arrival cfg.kdf) (seg : ServerSegment) :
    Option (PacketServer × List ServerEvent) :=
  let sessionID := seg.packet.metadata.sessionID
  if sessionID = 0 then some (u, [])
  else
    match u.sessionMap.lookup sessionID with
    | some _ => some (u, [])
    | none =>
      let session := newSessionWithServerUserPolicy sessionID seg.serverUserPolicy r.addr
      -- the underlay may be closing and find the session before it takes the request
      let session := { session with closed := !r.accepted && !u.done }
      deliverSegmentToSession { u with sessionMap := u.sessionMap.loadOrStore session } r.accepted
        session seg

def onCloseSession (r : Arrival cfg.kdf) (seg : ServerSegment) :
    Option (PacketServer × List ServerEvent) :=
  match u.sessionMap.lookup seg.packet.metadata.sessionID with
  | none => some (u, [])
  | some session => u.deliverSegmentToSession r.accepted session seg

def underlay (cfg : ServerConfig) : PacketUnderlay where
  isClient := false
  mtu := cfg.mtu
  trafficPattern := cfg.trafficPattern
  host := cfg.host
  serverAddr := ⟨none, 0, []⟩
  block := none
  sessionMap := u.sessionMap.items.map fun s => ⟨s.id, s.block⟩

def closeReq (das : DataAckStruct) : SessionStruct where
  protocol := .closeSessionRequest
  sessionID := das.sessionID
  seq := das.unAckSeq

def writeCloseReq (r : Arrival cfg.kdf) (seg : ServerSegment) (das : DataAckStruct) :
    Except Fault Datagram := do
  let d ← (u.underlay cfg).writeOneSegment ⟨.session (closeReq das), []⟩ (some seg.block) r.addr
    r.draws r.now
  match r.writeError with
  | none => return d
  | some err => .error (.failed s!"WriteTo() failed: {err}")

def onDataAck (r : Arrival cfg.kdf) (seg : ServerSegment) (das : DataAckStruct) :
    Option (PacketServer × List ServerEvent) :=
  match u.sessionMap.lookup das.sessionID with
  | some session => u.deliverSegmentToSession r.accepted session seg
  | none =>
    match u.writeCloseReq r seg das with
    | .ok d => some (u, [.sent d r.addr])
    | .error fault =>
      some ({ u with running := false },
        [.returned (.writeFailed (fault.wrap "writeOneSegment() failed"))])

def dispatch (r : Arrival cfg.kdf) (seg : ServerSegment) :
    Option (PacketServer × List ServerEvent) :=
  match seg.packet.metadata with
  | .session ss =>
    match ss.protocol with
    | .openSessionRequest => u.onOpenSessionRequest r seg
    | .closeSessionRequest | .closeSessionResponse => u.onCloseSession r seg
    -- a server drops `openSessionResponse`
    | _ => some (u, [])
  | .dataAck das => u.onDataAck r seg das

def receive (r : Arrival cfg.kdf) : Option (PacketServer × List ServerEvent) :=
  match u.readOneSegment r with
  | .error _ => some (u, [])
  | .ok seg => u.dispatch r seg

def cleanSessions (idle : List UInt32) : PacketServer :=
  { u with sessionMap := u.sessionMap.filter fun s => !s.closed && !idle.contains s.id }

def sessionInput (id : UInt32) (fails : Bool) : Option (PacketServer × List ServerEvent) :=
  match u.sessionMap.lookup id with
  | none => none
  | some session =>
    match session.recvChan with
    | [] => none
    | seg :: rest =>
      match session.input seg with
      | .error (.panicked msg) => some ({ u with crashed := true }, [.panicked msg])
      | .error _ =>
        let session := { session with recvChan := rest, closed := true }
        some ({ u with sessionMap := u.sessionMap.set session }, [])
      | .ok session =>
        let session := { session with recvChan := rest, closed := session.closed || fails }
        some ({ u with sessionMap := u.sessionMap.set session }, [])

end PacketServer

inductive ServerAction (kdf : Pbkdf2) where
  | contextDone (idle : List UInt32)
  | seeDone (idle : List UInt32)
  | cleanTick (idle : List UInt32)
  | readTimeout
  | readFailed (err : String)
  | receive (r : Arrival kdf)
  | close
  | reload (users : Users) (hintMandatory : Bool)
  | closeSession (id : UInt32)
  | input (id : UInt32) (fails : Bool)

namespace PacketServer

variable {cfg : ServerConfig} (u : PacketServer)

def loopStep : ServerAction cfg.kdf → Option (PacketServer × List ServerEvent)
  | .contextDone idle =>
    some ({ u.cleanSessions idle with running := false }, [.returned .contextDone])
  | .seeDone idle =>
    if u.done then
      some ({ u.cleanSessions idle with running := false }, [.returned .underlayClosed])
    else none
  | .cleanTick idle => some (u.cleanSessions idle, [])
  | .readTimeout => some (u, [])
  -- the loop looks at `done` before it reports the error
  | .readFailed err =>
    if u.done then none
    else some ({ u with running := false }, [.returned (.readFailed err)])
  | .receive r => u.receive r
  | _ => none

def step (cfg : ServerConfig) (u : PacketServer) (a : ServerAction cfg.kdf) :
    Option (PacketServer × List ServerEvent) :=
  if u.crashed then none
  else
    match a with
    | .close => some ({ u with done := true }, [])
    | .reload users hintMandatory =>
      some ({ u with users := users, hintMandatory := hintMandatory }, [])
    | .closeSession id =>
      match u.sessionMap.lookup id with
      | none => none
      | some session =>
        let session := { session with closed := true }
        some ({ u with sessionMap := u.sessionMap.set session }, [])
    | .input id fails => u.sessionInput id fails
    | a => if u.running then u.loopStep a else none

/-! ## What a step does -/

def isAddressed (p : ProtocolType) : Bool :=
  p = closeSessionRequest ∨ p = closeSessionResponse ∨ isDataAckProtocol p = true

/-- The loop takes up a segment that is for a session. -/
structure Reads (u : PacketServer) (a : ServerAction cfg.kdf) (r : Arrival cfg.kdf)
    (seg : ServerSegment) : Prop where
  receives : a = .receive r
  reads : u.readOneSegment r = .ok seg

def newSession (u : PacketServer) (r : Arrival cfg.kdf) (seg : ServerSegment) : ServerSession :=
  { newSessionWithServerUserPolicy seg.packet.metadata.sessionID seg.serverUserPolicy r.addr with
    closed := !r.accepted && !u.done }

inductive Change (u : PacketServer) (a : ServerAction cfg.kdf) :
    PacketServer → List ServerEvent → Prop
  | quiet {u' : PacketServer} (hsub : u'.sessionMap.items ⊆ u.sessionMap.items) : Change u a u' []
  | ended {u' : PacketServer} {reason : ReturnReason}
      (hsub : u'.sessionMap.items ⊆ u.sessionMap.items)
      (hreason : ∀ fault, reason ≠ .writeFailed fault) : Change u a u' [.returned reason]
  | delivered {r : Arrival cfg.kdf} {seg : ServerSegment} {session : ServerSession}
      (hreads : u.Reads a r seg) (haddressed : isAddressed seg.packet.protocol = true)
      (hlookup : u.sessionMap.lookup seg.packet.metadata.sessionID = some session)
      (haccepted : r.accepted = true) :
      Change u a { u with sessionMap := u.sessionMap.set (session.push seg) }
        [.delivered session seg]
  | opened {r : Arrival cfg.kdf} {seg : ServerSegment} (hreads : u.Reads a r seg) :
      Change u a
        { u with sessionMap :=
            (u.sessionMap.loadOrStore (u.newSession r seg)).set ((u.newSession r seg).push seg) }
        [.delivered (u.newSession r seg) seg]
  | openedInVain {r : Arrival cfg.kdf} {seg : ServerSegment} (hreads : u.Reads a r seg) :
      Change u a { u with sessionMap := u.sessionMap.loadOrStore (u.newSession r seg) } []
  | answered {d : Datagram} {addr : Net.UDPAddr} : Change u a u [.sent d addr]
  | unanswered {r : Arrival cfg.kdf} {seg : ServerSegment} {das : DataAckStruct} {fault : Fault}
      (hreads : u.Reads a r seg) (hdas : seg.packet.metadata = .dataAck das)
      (hlookup : u.sessionMap.lookup das.sessionID = none)
      (hfault : u.writeCloseReq r seg das = .error fault) :
      Change u a { u with running := false }
        [.returned (.writeFailed (fault.wrap "writeOneSegment() failed"))]
  | closed {session : ServerSession} (hmem : session ∈ u.sessionMap.items) :
      Change u a { u with sessionMap := u.sessionMap.set { session with closed := true } } []
  | refused {session : ServerSession} {seg : ServerSegment} {rest : List ServerSegment}
      (hmem : session ∈ u.sessionMap.items) (hnext : session.recvChan = seg :: rest) :
      Change u a
        { u with sessionMap :=
            u.sessionMap.set { session with recvChan := rest, closed := true } } []
  | taken {session next : ServerSession} {seg : ServerSegment} {rest : List ServerSegment}
      {closed : Bool} (hmem : session ∈ u.sessionMap.items)
      (hnext : session.recvChan = seg :: rest) (hinput : session.input seg = .ok next) :
      Change u a
        { u with sessionMap :=
            u.sessionMap.set { next with recvChan := rest, closed := closed } } []
  | panicked {session : ServerSession} {seg : ServerSegment} {rest : List ServerSegment}
      {msg : String} (hmem : session ∈ u.sessionMap.items)
      (hnext : session.recvChan = seg :: rest)
      (hinput : session.input seg = .error (.panicked msg)) :
      Change u a { u with crashed := true } [.panicked msg]

section Inversion

variable {u u' : PacketServer} {a : ServerAction cfg.kdf} {out : List ServerEvent}
  {r : Arrival cfg.kdf} {seg : ServerSegment} {session : ServerSession} {accepted : Bool}

theorem deliverSegmentToSession_cases
    (h : u.deliverSegmentToSession accepted session seg = some (u', out)) :
    (accepted = true ∧ u' = { u with sessionMap := u.sessionMap.set (session.push seg) } ∧
      out = [.delivered session seg]) ∨ (accepted = false ∧ u' = u ∧ out = []) := by
  unfold deliverSegmentToSession at h
  split_ifs at h with haccepted hroom hclosed
  · cases h
    exact .inl ⟨haccepted, rfl, rfl⟩
  · cases h
    exact .inr ⟨Bool.eq_false_iff.mpr haccepted, rfl, rfl⟩

theorem change_of_deliver (hreads : u.Reads a r seg)
    (haddressed : isAddressed seg.packet.protocol = true)
    (hlookup : u.sessionMap.lookup seg.packet.metadata.sessionID = some session)
    (h : u.deliverSegmentToSession r.accepted session seg = some (u', out)) :
    Change u a u' out := by
  rcases deliverSegmentToSession_cases h with ⟨haccepted, rfl, rfl⟩ | ⟨-, rfl, rfl⟩
  · exact .delivered hreads haddressed hlookup haccepted
  · exact .quiet (List.Subset.refl _)

theorem change_of_open (hreads : u.Reads a r seg)
    (h : u.onOpenSessionRequest r seg = some (u', out)) : Change u a u' out := by
  simp only [onOpenSessionRequest] at h
  split_ifs at h
  · cases h
    exact .quiet (List.Subset.refl _)
  · split at h
    · cases h
      exact .quiet (List.Subset.refl _)
    · rcases deliverSegmentToSession_cases h with ⟨-, rfl, rfl⟩ | ⟨-, rfl, rfl⟩
      · exact .opened hreads
      · exact .openedInVain hreads

theorem change_of_close (hreads : u.Reads a r seg)
    (haddressed : isAddressed seg.packet.protocol = true)
    (h : u.onCloseSession r seg = some (u', out)) : Change u a u' out := by
  unfold onCloseSession at h
  split at h
  · cases h
    exact .quiet (List.Subset.refl _)
  · rename_i session hlookup
    exact change_of_deliver hreads haddressed hlookup h

theorem change_of_dataAck {das : DataAckStruct} (hreads : u.Reads a r seg)
    (hdas : seg.packet.metadata = .dataAck das) (h : u.onDataAck r seg das = some (u', out)) :
    Change u a u' out := by
  unfold onDataAck at h
  split at h
  · rename_i session hlookup
    refine change_of_deliver hreads ?_ ?_ h
    · simp [isAddressed, Packet.protocol, hdas, Metadata.protocol, das.isDataAck]
    · rw [hdas]
      exact hlookup
  · rename_i hlookup
    split at h
    · cases h
      exact .answered
    · rename_i fault hfault
      cases h
      exact .unanswered hreads hdas hlookup hfault

theorem change_of_dispatch (hreads : u.Reads a r seg) (h : u.dispatch r seg = some (u', out)) :
    Change u a u' out := by
  unfold dispatch at h
  split at h
  · rename_i ss hss
    split at h
    · exact change_of_open hreads h
    · rename_i hprotocol
      refine change_of_close hreads ?_ h
      simp [isAddressed, Packet.protocol, hss, Metadata.protocol, hprotocol]
    · rename_i hprotocol
      refine change_of_close hreads ?_ h
      simp [isAddressed, Packet.protocol, hss, Metadata.protocol, hprotocol]
    · cases h
      exact .quiet (List.Subset.refl _)
  · rename_i das hdas
    exact change_of_dataAck hreads hdas h

theorem change_of_receive (h : u.receive r = some (u', out)) :
    Change u (.receive r : ServerAction cfg.kdf) u' out := by
  unfold receive at h
  split at h
  · cases h
    exact .quiet (List.Subset.refl _)
  · rename_i seg hread
    exact change_of_dispatch ⟨rfl, hread⟩ h

theorem change_of_input {id : UInt32} {fails : Bool}
    (h : u.sessionInput id fails = some (u', out)) : Change u a u' out := by
  unfold sessionInput at h
  split at h
  · cases h
  · rename_i session hlookup
    have hmem := (KeyedMap.mem_of_lookup hlookup).1
    split at h
    · cases h
    · rename_i seg rest hnext
      split at h
      · rename_i msg hinput
        cases h
        exact .panicked hmem hnext hinput
      · cases h
        exact .refused hmem hnext
      · rename_i next hinput
        cases h
        exact .taken hmem hnext hinput

theorem cleanSessions_subset (idle : List UInt32) :
    (u.cleanSessions idle).sessionMap.items ⊆ u.sessionMap.items :=
  List.filter_subset_self _

theorem change_of_loopStep (h : u.loopStep a = some (u', out)) : Change u a u' out := by
  cases a with
  | contextDone idle =>
    cases h
    exact .ended (cleanSessions_subset idle) (fun _ => nofun)
  | seeDone idle =>
    simp only [loopStep] at h
    split_ifs at h
    cases h
    exact .ended (cleanSessions_subset idle) (fun _ => nofun)
  | cleanTick idle =>
    cases h
    exact .quiet (cleanSessions_subset idle)
  | readTimeout =>
    cases h
    exact .quiet (List.Subset.refl _)
  | readFailed err =>
    simp only [loopStep] at h
    split_ifs at h
    cases h
    exact .ended (List.Subset.refl _) (fun _ => nofun)
  | receive r => exact change_of_receive h
  | close => cases h
  | reload users hintMandatory => cases h
  | closeSession id => cases h
  | input id fails => cases h

theorem step_change (h : step cfg u a = some (u', out)) : Change u a u' out := by
  unfold step at h
  split at h
  · cases h
  · split at h
    · cases h
      exact .quiet (List.Subset.refl _)
    · cases h
      exact .quiet (List.Subset.refl _)
    · split at h
      · cases h
      · rename_i session hlookup
        cases h
        exact .closed (KeyedMap.mem_of_lookup hlookup).1
    · exact change_of_input h
    · split_ifs at h
      exact change_of_loopStep h

end Inversion

end PacketServer

end Mieru.Protocol
