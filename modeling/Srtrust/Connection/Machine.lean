import Srtrust.Connection.Receiver

/-! # The state machine (`connection/setup.rs`, `connection.rs`)

The handshake, and the calls an embedder makes: a received datagram, a fired timer, a
payload to send, a close, a fresh key. -/
namespace Srtrust
open BigEndian
set_option autoImplicit false

def hsVersionUdt : UInt32 := 4
def hsVersionSrt : UInt32 := 5
def srtMagic : UInt16 := 0x4A17
def inductionExtField : UInt16 := 2
def extFlagHsreq : UInt16 := 0x0001
def extFlagKmreq : UInt16 := 0x0002
def extFlagConfig : UInt16 := 0x0004
def srtLibraryVersion : UInt32 := 0x00010504

/-- `SYN_INTERVAL`. -/
def synInterval : Duration := Duration.fromMillis 250

/-! ## Handshake helpers (`setup.rs`) -/

/-- `millis_u16`: whole milliseconds clamped to the wire field. -/
def millisU16 (d : Duration) : UInt16 := UInt16.ofNat (min (Duration.asMillis d) 0xFFFF)

/-- `srt_handshake_ext`: the capabilities always advertised. -/
def srtHandshakeExt (latencyMs : UInt16) : SrtHandshake where
  srtVersion := srtLibraryVersion
  flags :=
    ⟨SrtFlags.tsbpdSnd ||| SrtFlags.tsbpdRcv ||| SrtFlags.tlpktdrop ||| SrtFlags.periodicNak
      ||| SrtFlags.rexmit⟩
  recvTsbpdDelay := latencyMs
  sendTsbpdDelay := latencyMs

/-- The peer's advertised delay: the first HSREQ or HSRSP extension. -/
def peerLatencyMs (extensions : List HandshakeExtension) : ℕ :=
  (extensions.findSome? fun ext =>
    match ext with
    | .hsReq s => some s.recvTsbpdDelay.toNat
    | .hsRsp s => some s.recvTsbpdDelay.toNat
    | _ => none).getD 0

/-- `negotiate`: the greater of the two advertised delays. -/
def negotiate (localLatency : Duration) (peerHs : Handshake) : Negotiated where
  peerSocketId := peerHs.srtSocketId
  peerInitialSeq := peerHs.initialSeq
  latency := max localLatency (Duration.fromMillis (peerLatencyMs peerHs.extensions))
  encryption := peerHs.encryption

/-- The content of the first KMREQ extension. -/
def findKmreq (extensions : List HandshakeExtension) : Option Bytes :=
  extensions.findSome? fun ext =>
    match ext with
    | .raw extType content => if extType = extKmreq then some content else none
    | _ => none

/-- `accept_crypto`: the acceptor's keys from the caller's conclusion. -/
def acceptCrypto (P : Primitives) (encryption : Option EncryptionSettings) (callerHs : Handshake) :
    Except ConnectionError (Option UnwrappedKm × Option Bytes) :=
  match encryption, findKmreq callerHs.extensions with
  | none, some _ => .error (.crypto .unexpectedKeyMaterial)
  | none, none => .ok (none, none)
  | some _, none => .error (.crypto .missingKeyMaterial)
  | some enc, some kmBytes =>
    match KeyMaterial.decode kmBytes with
    | .error e => .error (.crypto e)
    | .ok km =>
      match SessionKeys.fromKeyMaterial P km enc.passphrase with
      | .error e => .error (.crypto e)
      | .ok keys => .ok (some keys, some kmBytes)

namespace Connection

/-! ## The caller's handshake -/

/-- `emit_handshake`: encodes, caches and queues a handshake with its retransmit timer. -/
def emitHandshake (c : Connection) (dest : SocketId) (hs : Handshake) (now : Instant) :
    Connection :=
  match encodeControl dest (c.wireTs now) (.handshake hs) with
  | none => c.panicked
  | some bytes =>
    ({ c with link := { c.link with lastHandshake := some bytes } }.output (.sendDatagram bytes)).output
      (.setTimer .handshake synInterval)

/-- `send_induction`. -/
def sendInduction (c : Connection) (now : Instant) : Connection :=
  c.emitHandshake ⟨0⟩
    { version := hsVersionUdt
      encryption := .none
      extensionField := inductionExtField
      initialSeq := c.initialSeq
      mtu := c.config.mtu
      maxFlowWindow := c.config.flowWindow
      handshakeType := .induction
      srtSocketId := c.localSocketId
      synCookie := 0
      peerIp := Block.zero 16
      extensions := [] } now

/-- The handshake body `send_conclusion` builds: HSREQ, then a Stream ID, then Key Material,
each with its flag, as configured. -/
def conclusion (c : Connection) : Handshake :=
  let sid : List HandshakeExtension :=
    match c.config.streamId with | some s => [.streamId s] | none => []
  let km : List HandshakeExtension × EncryptionField :=
    match c.keys.keyMaterial, c.config.encryption with
    | some km, some enc => ([.raw extKmreq km], enc.keySize.toField)
    | _, _ => ([], .none)
  { version := hsVersionSrt
    encryption := km.2
    extensionField :=
      extFlagHsreq ||| (if sid.isEmpty then 0 else extFlagConfig)
        ||| (if km.1.isEmpty then 0 else extFlagKmreq)
    initialSeq := c.initialSeq
    mtu := c.config.mtu
    maxFlowWindow := c.config.flowWindow
    handshakeType := .conclusion
    srtSocketId := c.localSocketId
    synCookie := c.link.synCookie
    peerIp := Block.zero 16
    extensions := .hsReq (srtHandshakeExt (millisU16 c.config.latency)) :: sid ++ km.1 }

/-- `send_conclusion`: addressed to socket id zero, like the induction. -/
def sendConclusion (c : Connection) (now : Instant) : Connection :=
  c.emitHandshake ⟨0⟩ c.conclusion now

/-- Takes over the listener's id and cookie. -/
def enterConclusion (c : Connection) (hs : Handshake) : Connection :=
  { c with
    link :=
      { c.link with
        peerSocketId := hs.srtSocketId
        synCookie := hs.synCookie
        state := .conclusion } }

/-- `on_induction_response`. -/
def onInductionResponse (c : Connection) (hs : Handshake) (now : Instant) : Connection :=
  if hs.version ≠ hsVersionSrt ∨ hs.extensionField ≠ srtMagic ∨ hs.handshakeType ≠ .induction then c
  else (c.enterConclusion hs).sendConclusion now

/-- `on_conclusion_response`. -/
def onConclusionResponse (c : Connection) (hs : Handshake) (now : Instant) : Connection :=
  if hs.handshakeType ≠ .conclusion ∨ hs.version ≠ hsVersionSrt then c
  else (c.output (.clearTimer .handshake)).enterConnected (negotiate c.config.latency hs) now

/-- `on_handshake_timer`. -/
def onHandshakeTimer (c : Connection) (now : Instant) : Connection :=
  if c.link.state ≠ .induction ∧ c.link.state ≠ .conclusion then c
  else if c.config.connectTimeout ≤ now.saturatingDurationSince c.start then
    (c.fail.output (.clearTimer .handshake)).event (.failed .handshakeTimeout)
  else
    match c.link.lastHandshake with
    | some bytes => (c.output (.sendDatagram bytes)).output (.setTimer .handshake synInterval)
    | none => c

/-! ## Making a connection -/

/-- `connect`: `salt` and `sek` are the embedder's random draws of the salt and of a key of
the size asked for. -/
def connect (P : Primitives) (config : Config) (localSocketId : SocketId)
    (initialSeq : SeqNumber) (now : Instant) (salt : Block 16) (sek : (n : ℕ) → Block n) :
    Connection :=
  let c := newBase config localSocketId initialSeq now .caller .induction
  match config.encryption with
  | none => c.sendInduction now
  | some enc =>
    match SessionKeys.generate P enc.passphrase enc.cipher salt (sek enc.keySize.bytes).bytes with
    | none => c.panicked
    | some (keys, km) =>
      { c with
        keys :=
          { c.keys with
            crypto := some (SessionCrypto.ofEven keys)
            keyMaterial := some km.encode } }.sendInduction now

/-- The conclusion response `accept` builds. -/
def acceptResponse (config : Config) (localSocketId : SocketId) (callerHs : Handshake)
    (keyMaterial : Option Bytes) : Handshake :=
  let latencyMs := millisU16 (negotiate config.latency callerHs).latency
  { version := hsVersionSrt
    encryption := callerHs.encryption
    extensionField := extFlagHsreq ||| (if keyMaterial.isSome then extFlagKmreq else 0)
    -- a single-ISN handshake: the acceptor adopts the caller's
    initialSeq := callerHs.initialSeq
    mtu := config.mtu
    maxFlowWindow := config.flowWindow
    handshakeType := .conclusion
    srtSocketId := localSocketId
    synCookie := 0
    peerIp := Block.zero 16
    extensions :=
      .hsRsp (srtHandshakeExt latencyMs)
        :: (match keyMaterial with | some km => [.raw extKmrsp km] | none => []) }

/-- `accept`: the acceptor's connection from a validated caller conclusion. -/
def accept (P : Primitives) (config : Config) (localSocketId : SocketId) (callerHs : Handshake)
    (now : Instant) : Except ConnectionError Connection :=
  match acceptCrypto P config.encryption callerHs with
  | .error e => .error e
  | .ok (crypto, keyMaterial) =>
    let response := acceptResponse config localSocketId callerHs keyMaterial
    let c := newBase config localSocketId callerHs.initialSeq now .acceptor .conclusion
    let c := { c with keys := { c.keys with crypto := crypto.map SessionCrypto.fromInitial, keyMaterial } }
    let c :=
      match encodeControl callerHs.srtSocketId (c.wireTs now) (.handshake response) with
      | none => c.panicked
      | some bytes =>
        { c with link := { c.link with lastHandshake := some bytes } }.output (.sendDatagram bytes)
    .ok (c.enterConnected (negotiate config.latency callerHs) now)

/-! ## Received datagrams -/

/-- `on_connected_packet`. -/
def onConnectedPacket (P : Primitives) (c : Connection) (packet : Packet) (now : Instant) :
    Connection :=
  match packet with
  | .data data => c.onData P data now
  | .control ctrl =>
    match ctrl.body with
    | .ack ack => c.onAck ack now
    | .ackAck ackNumber => c.onAckack ackNumber now
    | .nak loss => c.onNak loss now
    | .shutdown => c.onShutdown
    | .dropReq _ first last => c.onDropreq first last now
    | .raw .userDefined subtype _ cif =>
      if subtype = extKmreq then c.onKmReq P cif now
      else if subtype = extKmrsp then c.onKmRsp cif
      else c
    | .handshake hs =>
      -- the acceptor re-answers a conclusion the caller retransmitted
      match c.side, c.link.lastHandshake with
      | .acceptor, some bytes =>
        if hs.handshakeType = .conclusion then c.output (.sendDatagram bytes) else c
      | _, _ => c
    | _ => c

/-- The arm of `feed_recv_buf` before the connection is up: only handshakes matter. -/
def onHandshakePacket (c : Connection) (packet : Packet) (now : Instant) : Connection :=
  match packet with
  | .control { body := .handshake hs, .. } =>
    match hs.handshakeType.rejectReason with
    | some reason =>
      (c.fail.output (.clearTimer .handshake)).event (.failed (.rejected reason))
    | none =>
      if c.link.state = .induction then c.onInductionResponse hs now
      else c.onConclusionResponse hs now
  | _ => c

/-- `feed_recv_buf`: malformed datagrams are dropped. -/
def feedRecvBuf (P : Primitives) (c : Connection) (datagram : Bytes) (now : Instant) :
    Connection :=
  match Packet.decode datagram with
  | .error _ => c
  | .ok packet =>
    match c.link.state with
    | .induction => c.onHandshakePacket packet now
    | .conclusion => c.onHandshakePacket packet now
    | .connected => { c with lastRecvAny := now }.onConnectedPacket P packet now
    | .failed => c

/-! ## Timers -/

/-- `handle_timer`. -/
def handleTimer (P : Primitives) (c : Connection) (id : TimerId) (now : Instant) : Connection :=
  match id with
  | .handshake => c.onHandshakeTimer now
  | .ack => c.onAckTimer now
  | .nak => c.onNakTimer now
  | .exp => c.onExpTimer now
  | .tsbpd => c.deliverTsbpd now
  | .sndPacing => c.pace P now
  | .linger => c.onLingerTimer now
  | .keepalive => c.onKeepaliveTimer now
  | .peerIdle => c.onPeerIdleTimer now

/-! ## Sending -/

/-- `max_payload`: the MTU less the headers, and less the tag under AES-GCM. -/
def maxPayload (c : Connection) : ℕ :=
  let tag := match c.keys.crypto with | some crypto => if crypto.isAead then 16 else 0 | none => 0
  max (c.config.mtu.toNat - (44 + tag)) 1

/-- The splitting loop of `fragment_message`, from `offset` on. -/
def fragmentLoop (max : ℕ) (payload : Bytes) (message : UInt32) : ℕ → ℕ → List Fragment
  | 0, _ => []
  | fuel + 1, offset =>
    if offset < payload.length then
      let stop := min (offset + max) payload.length
      let position : PacketPosition :=
        if offset = 0 then .first else if stop = payload.length then .last else .middle
      { payload := (payload.drop offset).take (stop - offset), position, message }
        :: fragmentLoop max payload message fuel stop
    else []

/-- Splits a message into fragments of at most `max` bytes. -/
def fragmentPayload (max : ℕ) (payload : Bytes) (message : UInt32) : List Fragment :=
  if payload.length ≤ max then [{ payload, position := .single, message }]
  else fragmentLoop max payload message payload.length 0

/-- `fragment_message`. -/
def fragmentMessage (c : Connection) (payload : Bytes) (message : UInt32) : List Fragment :=
  fragmentPayload c.maxPayload payload message

/-- The message number after `n`: the counter skips zero, which marks FEC parity. -/
def followingMessage (n : UInt32) : UInt32 := if (MsgNumber.new (n + 1)).value = 0 then 1 else n + 1

/-- Takes the next message number. -/
def countMessage (c : Connection) : Connection :=
  { c with tx := { c.tx with nextMessage := followingMessage c.tx.nextMessage } }

/-- Appends fragments to the pacing queue. -/
def enqueue (c : Connection) (fragments : List Fragment) : Connection :=
  { c with tx := { c.tx with sendQueue := c.tx.sendQueue ++ fragments } }

/-- What `send` does with a message it accepts: without a bandwidth limit every fragment goes
out at once, with one they are paced. -/
def submit (P : Primitives) (c : Connection) (payload : Bytes) (now : Instant) : Connection :=
  let fragments := c.fragmentMessage payload c.tx.nextMessage
  if c.tx.liveCc.isNone then
    fragments.foldl (fun c fragment => c.sendData P fragment now) c.countMessage
  else (c.countMessage.enqueue fragments).pace P now

/-- `send`: the error leaves the connection as it was. -/
def send (P : Primitives) (c : Connection) (payload : Bytes) (now : Instant) :
    Except ConnectionError Connection :=
  if c.link.closing ∨ c.link.state ≠ .connected then .error .invalidState
  else .ok (c.submit P payload now)

/-- `send_window_available`. -/
def sendWindowAvailable (c : Connection) : Bool :=
  c.tx.sendQueue.length + c.tx.sendBuffer.len < min c.config.flowWindow.toNat c.tx.peerAvailWindow

end Connection

end Srtrust
