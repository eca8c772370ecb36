import Srtrust.Library.BigEndian

/-! # Decoding errors (`error.rs`)

The codec layers' error enumerations, each wrapping the one below it. -/
namespace Srtrust
set_option autoImplicit false

inductive CryptoError
  | tooShort (need got : ℕ)
  | unsupportedVersion (version : ℕ)
  | invalidPacketType (packetType : ℕ)
  | invalidSignature (signature : UInt16)
  | invalidKeyFlags (flags : ℕ)
  | unsupportedCipher (cipher : UInt8)
  | invalidSaltLength (length : ℕ)
  | invalidKeyLength (length : ℕ)
  | integrityCheckFailed
  | authFailed
  | missingKeyMaterial
  | unexpectedKeyMaterial
deriving DecidableEq, Repr

inductive LossListError
  | misaligned (length : ℕ)
  | truncatedRange
deriving DecidableEq, Repr

inductive HandshakeError
  | tooShort (need got : ℕ)
  | invalidEncryptionField (raw : UInt16)
  | extensionLength (extType : UInt16) (claimed available : ℕ)
  | extensionContent (extType : UInt16) (length : ℕ)
  | invalidStreamId
deriving DecidableEq, Repr

inductive ControlError
  | unknownType (raw : UInt16)
  | invalidCifLength (kind : String) (length : ℕ)
  | lossList (error : LossListError)
  | handshake (error : HandshakeError)
deriving DecidableEq, Repr

inductive PacketError
  | tooShort (need got : ℕ)
  | invalidKeyFlag (flag : ℕ)
  | control (error : ControlError)
deriving DecidableEq, Repr

end Srtrust
