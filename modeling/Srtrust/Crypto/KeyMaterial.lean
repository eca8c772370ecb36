import Srtrust.Wire.Error

/-! # Key Material messages (`crypto/key_material.rs`)

The message that carries wrapped stream keys between the peers: a 16-byte header, the
salt, and the wrapped key or keys. -/
namespace Srtrust
open BigEndian
set_option autoImplicit false

inductive CipherMode
  | ctr
  | gcm
deriving DecidableEq, Repr

namespace CipherMode

def toWire : CipherMode → UInt8
  | ctr => 2
  | gcm => 4

def fromWire (cipher : UInt8) : Except CryptoError CipherMode :=
  if cipher = 2 then .ok ctr
  else if cipher = 4 then .ok gcm
  else .error (.unsupportedCipher cipher)

@[simp] theorem fromWire_toWire (m : CipherMode) : fromWire m.toWire = .ok m := by
  cases m <;> rfl

end CipherMode

/-- `KeyFlags`: which keys a message carries. -/
inductive KeyFlags
  | even
  | odd
  | both
deriving DecidableEq, Repr

namespace KeyFlags

def toKk : KeyFlags → UInt8
  | even => 0b01
  | odd => 0b10
  | both => 0b11

def fromKk (kk : UInt8) : Except CryptoError KeyFlags :=
  if kk = 0b01 then .ok even
  else if kk = 0b10 then .ok odd
  else if kk = 0b11 then .ok both
  else .error (.invalidKeyFlags kk.toNat)

@[simp] theorem fromKk_toKk (f : KeyFlags) : fromKk (f.toKk &&& 0b11) = .ok f := by
  cases f <;> rfl

def keyCount : KeyFlags → ℕ
  | both => 2
  | even => 1
  | odd => 1

end KeyFlags

/-- `SALT_LEN`. -/
def saltLen : ℕ := 16

/-- `ICV_LEN`. -/
def icvLen : ℕ := 8

/-- A valid AES key length in bytes. -/
def IsKeyLength (n : ℕ) : Prop := n = 16 ∨ n = 24 ∨ n = 32

instance (n : ℕ) : Decidable (IsKeyLength n) := inferInstanceAs (Decidable (_ ∨ _ ∨ _))

structure KeyMaterial where
  keyFlags : KeyFlags
  cipher : CipherMode
  keyLength : UInt8
  salt : Block 16
  wrapped : Bytes
deriving DecidableEq, Repr

namespace KeyMaterial

/-- `HEADER_LEN`. -/
def headerLen : ℕ := 16

/-- `SIGN`. -/
def sign : UInt16 := 0x2029

def encode (km : KeyMaterial) : Bytes :=
  putU8 0x12 -- version 1, packet type 2
    ++ putU16 sign ++ putU8 km.keyFlags.toKk ++ putU32 0 ++ putU8 km.cipher.toWire
    ++ putU8 (if km.cipher = .gcm then 1 else 0) ++ putU8 2 ++ putU8 0 ++ putU16 0
    ++ putU8 4 ++ putU8 (km.keyLength / 4) ++ km.salt.bytes ++ km.wrapped

def decode (buf : Bytes) : Except CryptoError KeyMaterial := do
  if buf.length < headerLen then
    .error (.tooShort headerLen buf.length)
  let (b0, cur) := getU8 buf
  let version := (b0.toNat >>> 4) &&& 0x07
  let packetType := b0.toNat &&& 0x0F
  if version ≠ 1 then
    .error (.unsupportedVersion version)
  if packetType ≠ 2 then
    .error (.invalidPacketType packetType)
  let (s, cur) := getU16 cur
  if s ≠ sign then
    .error (.invalidSignature s)
  let (kk, cur) := getU8 cur
  let keyFlags ← KeyFlags.fromKk (kk &&& 0b11)
  let (_, cur) := getU32 cur
  let (cipher, cur) := getU8 cur
  let cipher ← CipherMode.fromWire cipher
  let (_, cur) := getU8 cur
  let (_, cur) := getU8 cur
  let (_, cur) := getU8 cur
  let (_, cur) := getU16 cur
  let (saltWords, cur) := getU8 cur
  let (keyWords, cur) := getU8 cur
  let saltLength := saltWords.toNat * 4
  let keyLength := keyWords.toNat * 4
  if saltLength ≠ saltLen then
    .error (.invalidSaltLength saltLength)
  if ¬ IsKeyLength keyLength then
    .error (.invalidKeyLength keyLength)
  let wrappedLen := keyFlags.keyCount * keyLength + icvLen
  if cur.length < saltLen + wrappedLen then
    .error (.tooShort (headerLen + saltLen + wrappedLen) buf.length)
  let (salt, cur) := getBlock 16 cur
  .ok { keyFlags, cipher, keyLength := UInt8.ofNat keyLength, salt, wrapped := cur.take wrappedLen }

/-- Messages a sender builds: a valid key length, and as many wrapped bytes as it announces. -/
def Conforming (km : KeyMaterial) : Prop :=
  IsKeyLength km.keyLength.toNat
    ∧ km.wrapped.length = km.keyFlags.keyCount * km.keyLength.toNat + icvLen

theorem decode_encode (km : KeyMaterial) (h : km.Conforming) : decode km.encode = .ok km := by
  obtain ⟨keyFlags, cipher, keyLength, salt, wrapped⟩ := km
  obtain ⟨hk, hw⟩ := h
  simp only at hk hw
  have hwords : (keyLength / 4).toNat * 4 = keyLength.toNat := by
    rw [UInt8.toNat_div]
    rcases hk with h | h | h <;> simp [h]
  have hlen : salt.bytes.length = 16 := salt.length_eq
  have htake : wrapped.take (keyFlags.keyCount * keyLength.toNat + 8) = wrapped := by
    rw [List.take_of_length_le]
    rw [hw, icvLen]
  simp only [encode, List.append_assoc]
  rw [decode, if_neg (by simp only [headerLen, List.length_append, length_putU8, length_putU16,
    length_putU32, hlen]; omega)]
  simp only [getU8_put, getU16_put, getU32_put, KeyFlags.fromKk_toKk, CipherMode.fromWire_toWire,
    getBlock_append, hwords, hk, not_true_eq_false, if_false, bind, Except.bind,
    List.length_append, hlen, hw, saltLen, icvLen, htake]
  simp

/-- Whole words, and few of them. -/
theorem length_encode (km : KeyMaterial) (h : km.Conforming) :
    km.encode.length % 4 = 0 ∧ km.encode.length ≤ 104 := by
  obtain ⟨hk, hw⟩ := h
  have hlen : km.encode.length = 32 + km.wrapped.length := by
    simp only [encode, List.length_append, length_putU8, length_putU16, length_putU32, km.salt.length_eq]
  have hcount : km.keyFlags.keyCount ≤ 2 := by cases km.keyFlags <;> decide
  rw [hlen, hw, icvLen]
  rcases hk with hk | hk | hk <;> rw [hk] <;> omega

end KeyMaterial

end Srtrust
