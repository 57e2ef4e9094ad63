import Mathlib.Data.Nat.Sqrt
import Mieru.Cipher.ImplicitNonce
import Mieru.Lib.PieceStream
import Mieru.Protocol.PacketFraming
import Mieru.ServerUser.Acceptance

/-! # Segments on a stream

Each direction of a connection has one cipher in implicit nonce mode. The nonce goes out
in front of the first segment, and after that both ends count. -/
namespace Mieru.Protocol

open Cipher PieceStream ProtocolType Result Rng ServerUser TrafficPattern

abbrev FreshCipher := { c : BlockCipher // c.enableImplicitNonce = true ∧ c.implicitNonce = none }

inductive StreamRole where
  | client (block : FreshCipher)
  | server

structure StreamUnderlay where
  role : StreamRole
  mtu : ℤ
  trafficPattern : Option TrafficPattern
  host : Host
  send : Option BlockCipher := none
  recv : Option BlockCipher := none

/-- A segment as it went out, the writes on the connection, and the nonces that sealed it. -/
structure Frame where
  packet : Packet
  writes : List Bytes
  nonces : List Nonce

def Frame.bytes (frame : Frame) : Bytes := frame.writes.flatten

structure WriteEnv where
  draws : Draws
  fragmentLen : ℕ → ℕ
  now : ℕ

/-! ## Writing -/

def streamSealers (c : BlockCipher) (fresh : Nonce) (plaintextMetadata payload : Bytes) :
    Sealers (BlockCipher × List Nonce) where
  metadata room := do
    let (c, sealed) ← inContext "Encrypt() failed" (lift (c.encrypt room fresh plaintextMetadata))
    return ((c, [sealed.nonce]), sealed.bytes)
  payload s room := do
    let (c, sealed) ← inContext "Encrypt() failed" (lift (s.1.encrypt room fresh payload))
    return ((c, s.2 ++ [sealed.nonce]), sealed.bytes)

def fragmentSize (total draw remaining : ℕ) : ℕ :=
  let minLenToSend := total.sqrt + 1
  let maxLenToSend := max minLenToSend (total / 2)
  let lenToSend := draw % (maxLenToSend - minLenToSend + 1) + minLenToSend
  if lenToSend > remaining then remaining else lenToSend

theorem fragmentSize_pos (total draw : ℕ) {remaining : ℕ} (h : 0 < remaining) :
    0 < fragmentSize total draw remaining := by
  simp only [fragmentSize]
  split_ifs
  · exact h
  · omega

/-- The loop of `writeWithPossibleFragment`; `i` counts its rounds. -/
def writeFragments (total : ℕ) (fragmentLen : ℕ → ℕ) (i : ℕ) (remaining : Bytes) : List Bytes :=
  if h : remaining = [] then []
  else
    let lenToSend := fragmentSize total (fragmentLen i) remaining.length
    remaining.take lenToSend ::
      writeFragments total fragmentLen (i + 1) (remaining.drop lenToSend)
termination_by remaining.length
decreasing_by
  have hpos := List.length_pos_of_ne_nil h
  have hsize := fragmentSize_pos total (fragmentLen i) hpos
  rw [List.length_drop]
  omega

theorem flatten_writeFragments (total : ℕ) (fragmentLen : ℕ → ℕ) (i : ℕ) (remaining : Bytes) :
    (writeFragments total fragmentLen i remaining).flatten = remaining := by
  fun_induction writeFragments total fragmentLen i remaining with
  | case1 => rfl
  | case2 i remaining h lenToSend ih => rw [List.flatten_cons, ih, List.take_append_drop]

namespace StreamUnderlay

variable (t : StreamUnderlay)

def framing : FramingConfig where
  mtu := t.mtu
  transportProtocol := .streamTransport
  trafficPattern := t.trafficPattern
  host := t.host

def writeWithPossibleFragment (fragmentLen : ℕ → ℕ) (dataToSend : Bytes) : List Bytes :=
  match t.trafficPattern.bind TrafficPattern.tcpFragment with
  | some { enable := some true, .. } =>
    writeFragments dataToSend.length fragmentLen 0 dataToSend
  | _ => [dataToSend]

/-- The server takes the key that it has found for the client. -/
def maybeInitSendBlockCipher : Except Fault BlockCipher :=
  match t.send with
  | some c => .ok c
  | none =>
    match t.role with
    | .client block => .ok block.val
    | .server =>
      match t.recv with
      | none => .error (.failed "recv cipher is nil")
      | some recv => .ok ((recv.setImplicitNonceMode false).setImplicitNonceMode true)

/-- The state after a write that fails is left out. -/
def writeOneSegment (packet : Packet) (w : WriteEnv) : Except Fault (StreamUnderlay × Frame) := do
  let firstWrite := t.send.isNone
  let c ← inContext "maybeInitSendBlockCipher() failed" t.maybeInitSendBlockCipher
  let encryptedMetadataLen := metadataLength + c.aead.overhead
  let encryptedMetadataLen :=
    if firstWrite then encryptedMetadataLen + defaultNonceSize else encryptedMetadataLen
  match packet.metadata with
  | .session ss => do
    let (ss, padding) ← t.framing.padSession ss c.userName w.draws
    let layout : Layout :=
      ⟨encryptedMetadataLen, wirePayloadLen packet.payload packet.payload.length, [], padding⟩
    let ((c, nonces), dataToSend) ← fillBuffer
      (streamSealers c w.draws.nonce (ss.marshal w.now) packet.payload) w.draws.stale layout
      packet.payload none
    return ({ t with send := some c },
      ⟨⟨.session (ss.stamp w.now), packet.payload⟩,
        t.writeWithPossibleFragment w.fragmentLen dataToSend, nonces⟩)
  | .dataAck das => do
    let (das, padding1, padding2) ← t.framing.prepareDataAck das packet.payload w.draws
    let payloadLen :=
      if isLowEntropyProtocol das.protocol then das.payloadLen.toNat else packet.payload.length
    let layout : Layout :=
      ⟨encryptedMetadataLen, wirePayloadLen packet.payload payloadLen, padding1, padding2⟩
    let ((c, nonces), dataToSend) ← fillBuffer
      (streamSealers c w.draws.nonce (das.marshal w.now) packet.payload) w.draws.stale layout
      packet.payload (expandPayload t.host das)
    return ({ t with send := some c },
      ⟨⟨.dataAck (das.stamp w.now), packet.payload⟩, [dataToSend], nonces⟩)

def writeAll (t : StreamUnderlay) :
    List (Packet × WriteEnv) → Except Fault (StreamUnderlay × List Frame)
  | [] => .ok (t, [])
  | (packet, w) :: segments => do
    let (t, frame) ← t.writeOneSegment packet w
    let (t, frames) ← writeAll t segments
    return (t, frame :: frames)

end StreamUnderlay

/-! ## Reading -/

inductive ErrorType where
  | networkError
  | cryptoError
  | replayError
  | protocolError
  deriving DecidableEq, Repr

structure StreamError where
  type : ErrorType
  msg : String
  deriving DecidableEq, Repr

def shortText (short : Short) : String :=
  match short.stop, short.got with
  | .eof, [] => "EOF"
  | .eof, _ => "unexpected EOF"
  | .timeout, _ => "i/o timeout"

/-- What the reader finds outside: the answer of the replay cache, the clock, and what
`Discover` works with. -/
structure ReadEnv (kdf : Pbkdf2) where
  duplicate : Bool
  now : ℕ
  published : Option State
  hintMandatory : Bool
  env : DecryptorEnv kdf
  source : Source

inductive ReadResult where
  | retry (conn : List Piece)
  | segment (t : StreamUnderlay) (conn : List Piece) (packet : Packet) (nonces : List Nonce)

def readExact (what : String) (n : ℕ) (conn : List Piece) :
    Except StreamError (Bytes × List Piece) :=
  (readFull n conn).mapError fun short =>
    let err := shortText short
    ⟨.networkError, s!"{what}: read {n} bytes from StreamUnderlay failed: {err}"⟩

def decryptNext (recv : BlockCipher) (ciphertext : Bytes) :
    Except StreamError (BlockCipher × Opened) :=
  match recv.decrypt ciphertext with
  | (recv, .ok opened) => .ok (recv, opened)
  | (_, .error err) => .error ⟨.cryptoError, s!"Decrypt() failed: {err}"⟩

def skipPadding (len : UInt8) (conn : List Piece) : Except StreamError (List Piece) :=
  if len > 0 then do
    let (_, conn) ← readExact "padding" len.toNat conn
    return conn
  else .ok conn

structure PayloadRead where
  recv : BlockCipher
  conn : List Piece
  payload : Bytes
  nonces : List Nonce

def readPayload (recv : BlockCipher) (payloadLen : UInt16)
    (shrink : Bytes → Except StreamError Bytes) (conn : List Piece) :
    Except StreamError PayloadRead :=
  if payloadLen > 0 then do
    let (encryptedPayload, conn) ← readExact "payload" (payloadLen.toNat + defaultOverhead) conn
    let encryptedPayload ← shrink encryptedPayload
    let (recv, opened) ← decryptNext recv encryptedPayload
    return ⟨recv, conn, opened.bytes, [opened.nonce]⟩
  else .ok ⟨recv, conn, [], []⟩

def readSessionSegment (recv : BlockCipher) (ss : SessionStruct) (conn : List Piece) :
    Except StreamError PayloadRead := do
  let read ← readPayload recv ss.payloadLen .ok conn
  let conn ← skipPadding ss.suffixLen read.conn
  return { read with conn := conn }

def readDataAckSegment (recv : BlockCipher) (das : DataAckStruct) (conn : List Piece) :
    Except StreamError PayloadRead := do
  let conn ← skipPadding das.prefixLen conn
  let read ← readPayload recv das.payloadLen
    (fun b => (shrinkPayload das b).mapError fun err => ⟨.protocolError, err⟩) conn
  let conn ← skipPadding das.suffixLen read.conn
  return { read with conn := conn }

def readBody (recv : BlockCipher) (now : ℕ) (decryptedMeta : Bytes) (conn : List Piece) :
    Except StreamError (Metadata × PayloadRead) := do
  let size := decryptedMeta.length
  ensure (size = metadataLength)
    ⟨.protocolError, s!"decrypted metadata size {size} is unexpected"⟩
  let p := byteAt decryptedMeta 0
  match ofByte p with
  | none => .error ⟨.protocolError, s!"unable to handle unknown protocol {p}"⟩
  | some protocol =>
    if isSessionProtocol protocol then do
      let ss ← (SessionStruct.unmarshal decryptedMeta now).mapError fun err =>
        ⟨.protocolError, s!"Unmarshal() to sessionStruct failed: {err}"⟩
      let read ← readSessionSegment recv ss conn
      return (.session ss, read)
    else if isDataAckProtocol protocol then do
      let das ← (DataAckStruct.unmarshal decryptedMeta now).mapError fun err =>
        ⟨.protocolError, s!"Unmarshal() to dataAckStruct failed: {err}"⟩
      let read ← readDataAckSegment recv das conn
      return (.dataAck das, read)
    else .error ⟨.protocolError, s!"unable to handle unknown protocol {p}"⟩

/-- Discovery leaves no trace in the cipher, so the metadata is decrypted once more. -/
def serverInitRecvBlockCipherAndDecryptMetadata {kdf : Pbkdf2} (e : ReadEnv kdf)
    (encryptedMeta : Bytes) : Except String (BlockCipher × Opened) := do
  let found ← discover (decryptors e.env) e.published e.hintMandatory encryptedMeta e.source
  match (found.block.val.setImplicitNonceMode true).decrypt encryptedMeta with
  | (recv, .ok opened) => return (recv, opened)
  | (_, .error err) => .error s!"stateful Decrypt() failed: {err}"

namespace StreamUnderlay

variable {kdf : Pbkdf2} (t : StreamUnderlay)

def decryptMetadata (e : ReadEnv kdf) (encryptedMeta : Bytes) :
    Except StreamError (BlockCipher × Opened) :=
  match t.recv with
  | some recv => decryptNext recv encryptedMeta
  | none =>
    match t.role with
    | .client block => decryptNext block.val encryptedMeta
    | .server =>
      match serverInitRecvBlockCipherAndDecryptMetadata e encryptedMeta with
      | .error err =>
        if e.duplicate then .error ⟨.replayError, "found possible replay attack"⟩
        else .error ⟨.cryptoError, err⟩
      | .ok opened =>
        if e.duplicate then
          .error ⟨.replayError, "found possible replay attack with payload decrypted"⟩
        else .ok opened

/-- The first segment has a nonce in front. -/
def readLen : ℕ :=
  if t.recv.isNone then metadataLength + defaultOverhead + defaultNonceSize
  else metadataLength + defaultOverhead

/-- An error ends the event loop and with it the connection. -/
def readOneSegment (e : ReadEnv kdf) (conn : List Piece) : Except StreamError ReadResult :=
  let readLen := t.readLen
  match readFull readLen conn with
  | .error short =>
    if short.stop = .timeout ∧ short.got = [] then .ok (.retry short.rest)
    else
      let err := shortText short
      .error ⟨.networkError,
        s!"metadata: read {readLen} bytes from StreamUnderlay failed: {err}"⟩
  | .ok (encryptedMeta, conn) => do
    let (recv, opened) ← t.decryptMetadata e encryptedMeta
    let (metadata, read) ← readBody recv e.now opened.bytes conn
    return .segment { t with recv := some read.recv } read.conn ⟨metadata, read.payload⟩
      (opened.nonce :: read.nonces)

/-- Up to `fuel` calls, until one fails. The environment of a call that reads a segment
depends on how many there were before; a call that times out looks at nothing. -/
def readAll (t : StreamUnderlay) (e : ℕ → ReadEnv kdf) :
    ℕ → List Piece → List (Packet × List Nonce) × Option StreamError
  | 0, _ => ([], none)
  | fuel + 1, conn =>
    match t.readOneSegment (e 0) conn with
    | .error err => ([], some err)
    | .ok (.retry conn) => readAll t e fuel conn
    | .ok (.segment t conn packet nonces) =>
      let (segments, err) := readAll t (fun i => e (i + 1)) fuel conn
      ((packet, nonces) :: segments, err)

end StreamUnderlay

end Mieru.Protocol
