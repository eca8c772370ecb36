import Srtrust.Crypto.Session

/-! # Configuration and vocabularies (`connection/config.rs`, `connection/event.rs`)

What goes into a connection when it is made, and what comes out of it: events for the
application, datagrams and timer requests for the I/O layer. -/
namespace Srtrust
open BigEndian
set_option autoImplicit false

inductive KeySize
  | aes128
  | aes192
  | aes256
deriving DecidableEq, Repr

namespace KeySize

def bytes : KeySize → ℕ
  | aes128 => 16
  | aes192 => 24
  | aes256 => 32

def toField : KeySize → EncryptionField
  | aes128 => .aes128
  | aes192 => .aes192
  | aes256 => .aes256

end KeySize

structure EncryptionSettings where
  passphrase : Bytes
  keySize : KeySize
  cipher : CipherMode
deriving DecidableEq, Repr

structure FecConfig where
  groupSize : ℕ
deriving DecidableEq, Repr

structure Config where
  latency : Duration
  mtu : UInt32
  flowWindow : UInt32
  streamId : Option Utf8
  encryption : Option EncryptionSettings
  /-- Bytes per second; zero disables pacing. -/
  maxBw : ℕ
  /-- Packets per key; zero selects the default. -/
  kmRefreshRate : ℕ
  fec : Option FecConfig
  connectTimeout : Duration
  peerIdleTimeout : Duration
  linger : Duration
deriving DecidableEq

inductive ConfigError
  | latencyTooLow (minMs : ℕ)
  | mtuOutOfRange (mtu : UInt32)
  | flowWindowTooSmall (min : ℕ)
  | passphraseLength (length : ℕ)
  | connectTimeoutTooLow
  | peerIdleTimeoutTooLow
deriving DecidableEq, Repr

namespace Config

/-- `Config::default()`. -/
def default : Config where
  latency := Duration.fromMillis 120
  mtu := 1500
  flowWindow := 25600
  streamId := none
  encryption := none
  maxBw := 0
  kmRefreshRate := 0
  fec := none
  connectTimeout := Duration.fromSecs 3
  peerIdleTimeout := Duration.fromSecs 5
  linger := Duration.fromSecs 3

def minLatency : Duration := Duration.fromMillis 20
def minMtu : UInt32 := 76
def maxMtu : UInt32 := 1500
def minFlowWindow : ℕ := 32
def minPassphrase : ℕ := 10
def maxPassphrase : ℕ := 79
def minConnectTimeout : Duration := Duration.fromMillis 100
def minPeerIdleTimeout : Duration := Duration.fromSecs 1

/-- `validate`: the first limit the configuration breaks. -/
def validate (c : Config) : Except ConfigError Unit := do
  if c.latency < minLatency then
    .error (.latencyTooLow (Duration.asMillis minLatency))
  if ¬ (minMtu ≤ c.mtu ∧ c.mtu ≤ maxMtu) then
    .error (.mtuOutOfRange c.mtu)
  if c.flowWindow.toNat < minFlowWindow then
    .error (.flowWindowTooSmall minFlowWindow)
  match c.encryption with
  | some enc =>
    if ¬ (minPassphrase ≤ enc.passphrase.length ∧ enc.passphrase.length ≤ maxPassphrase) then
      .error (.passphraseLength enc.passphrase.length)
  | none => .ok ()
  if c.connectTimeout < minConnectTimeout then
    .error .connectTimeoutTooLow
  if c.peerIdleTimeout < minPeerIdleTimeout then
    .error .peerIdleTimeoutTooLow
  .ok ()

example : default.validate = .ok () := by rfl

end Config

/-- `Negotiated`: the parameters a completed handshake agreed on. -/
structure Negotiated where
  peerSocketId : SocketId
  peerInitialSeq : SeqNumber
  latency : Duration
  encryption : EncryptionField
deriving DecidableEq, Repr

inductive ConnectionError
  | handshakeTimeout
  | timeout
  | rejected (reason : RejectReason)
  | invalidState
  | decode (error : PacketError)
  | crypto (error : CryptoError)
deriving DecidableEq, Repr

inductive Event
  | connected (negotiated : Negotiated)
  | dataReceived (payload : Bytes)
  | failed (error : ConnectionError)
  | closed
  | keyRefreshNeeded (keySize : ℕ)
deriving DecidableEq, Repr

inductive TimerId
  | handshake
  | ack
  | nak
  | exp
  | tsbpd
  | sndPacing
  | linger
  | keepalive
  | peerIdle
deriving DecidableEq, Repr

inductive Output
  | sendDatagram (bytes : Bytes)
  | setTimer (id : TimerId) (after : Duration)
  | clearTimer (id : TimerId)
deriving DecidableEq, Repr

end Srtrust
