import Srtrust.Wire.Control
import Srtrust.Wire.Timestamp

/-! # Packets (`packet.rs`)

The 16-byte common header of four big-endian words, and the two layouts the top bit of
its first word selects. `Packet.decode_encode` is the round trip every argument about two
endpoints starts from: what one of them encodes is what the other decodes. -/
namespace Srtrust
open BigEndian
set_option autoImplicit false

/-- `MsgNumber(u32)`: 26 bits. -/
structure MsgNumber where
  value : ℕ
  lt : value < 0x4000000
deriving DecidableEq, Repr

/-- `MsgNumber::new`: keeps the low 26 bits. -/
def MsgNumber.new (value : UInt32) : MsgNumber :=
  ⟨value.toNat % 0x4000000, Nat.mod_lt _ (by norm_num)⟩

inductive PacketPosition
  | first
  | middle
  | last
  | single
deriving DecidableEq, Repr

namespace PacketPosition

def toBits : PacketPosition → ℕ
  | first => 0b10
  | middle => 0b00
  | last => 0b01
  | single => 0b11

def fromBits (bits : ℕ) : PacketPosition :=
  match bits &&& 0b11 with
  | 0b10 => first
  | 0b01 => last
  | 0b11 => single
  | _ => middle

end PacketPosition

/-- `Encryption`: which key, if any, protects a payload. -/
inductive Encryption
  | none
  | even
  | odd
deriving DecidableEq, Repr

namespace Encryption

def toBits : Encryption → ℕ
  | none => 0b00
  | even => 0b01
  | odd => 0b10

def fromBits (bits : ℕ) : Except PacketError Encryption :=
  match bits &&& 0b11 with
  | 0b00 => .ok none
  | 0b01 => .ok even
  | 0b10 => .ok odd
  | other => .error (.invalidKeyFlag other)

end Encryption

structure DataPacket where
  seq : SeqNumber
  position : PacketPosition
  inOrder : Bool
  encryption : Encryption
  retransmitted : Bool
  messageNumber : MsgNumber
  timestamp : Timestamp
  destSocketId : SocketId
  payload : Bytes
deriving DecidableEq, Repr

namespace DataPacket

/-- The second header word: `PP(2) | O(1) | KK(2) | R(1) | message number(26)`. -/
def word1 (position : PacketPosition) (inOrder : Bool) (encryption : Encryption)
    (retransmitted : Bool) (messageNumber : MsgNumber) : ℕ :=
  (position.toBits <<< 30) ||| (inOrder.toNat <<< 29) ||| (encryption.toBits <<< 27)
    ||| (retransmitted.toNat <<< 26) ||| messageNumber.value

/-- `header_aad`: the header words with the `R` flag masked to zero. -/
def headerAad (d : DataPacket) : Bytes :=
  putU32 d.seq.value
    ++ putU32 (UInt32.ofNat (word1 d.position d.inOrder d.encryption false d.messageNumber))
    ++ putU32 d.timestamp.asMicros ++ putU32 d.destSocketId.value

def encode (d : DataPacket) : Bytes :=
  putU32 d.seq.value
    ++ putU32 (UInt32.ofNat
        (word1 d.position d.inOrder d.encryption d.retransmitted d.messageNumber))
    ++ putU32 d.timestamp.asMicros ++ putU32 d.destSocketId.value ++ d.payload

end DataPacket

structure ControlPacket where
  timestamp : Timestamp
  destSocketId : SocketId
  body : ControlBody
deriving DecidableEq, Repr

inductive Packet
  | data (d : DataPacket)
  | control (c : ControlPacket)
deriving DecidableEq, Repr

namespace Packet

/-- `HEADER_LEN`. -/
def headerLen : ℕ := 16

/-- `FLAG_CONTROL`: the packet-type flag of the first word. -/
def flagControl : UInt32 := 0x80000000

/-- The first word of a control packet: `F = 1`, the type, the subtype. -/
def controlWord (controlType subtype : UInt16) : UInt32 :=
  UInt32.ofNat (0x80000000 ||| (controlType.toNat <<< 16) ||| subtype.toNat)

/-- `Packet::encode`; `none` where encoding a handshake extension panics. -/
def encode : Packet → Option Bytes
  | data d => some d.encode
  | control c => do
    let (controlType, subtype, typeSpecific) := c.body.toWire
    let cif ← c.body.encodeCif
    some (putU32 (controlWord controlType subtype) ++ putU32 typeSpecific
      ++ putU32 c.timestamp.asMicros ++ putU32 c.destSocketId.value ++ cif)

def decode (buf : Bytes) : Except PacketError Packet :=
  if buf.length < headerLen then .error (.tooShort headerLen buf.length)
  else
    let (w0, cur) := getU32 buf
    let (w1, cur) := getU32 cur
    let (timestamp, cur) := getU32 cur
    let (destSocketId, cur) := getU32 cur
    if w0 &&& flagControl ≠ 0 then
      match ControlBody.decode (UInt16.ofNat (w0.toNat >>> 16) &&& 0x7FFF)
          (UInt16.ofNat w0.toNat) w1 cur with
      | .ok body =>
        .ok (control { timestamp := ⟨timestamp⟩, destSocketId := ⟨destSocketId⟩, body })
      | .error e => .error (.control e)
    else do
      let encryption ← Encryption.fromBits ((w1.toNat >>> 27) &&& 0b11)
      .ok (data
        { seq := SeqNumber.new w0
          position := PacketPosition.fromBits (w1.toNat >>> 30)
          inOrder := w1.toNat &&& (1 <<< 29) != 0
          encryption
          retransmitted := w1.toNat &&& (1 <<< 26) != 0
          messageNumber := MsgNumber.new w1
          timestamp := ⟨timestamp⟩
          destSocketId := ⟨destSocketId⟩
          payload := cur })

/-! ## Decoding an encoded packet -/

theorem word1_eq (position : PacketPosition) (inOrder : Bool) (encryption : Encryption)
    (retransmitted : Bool) (messageNumber : MsgNumber) :
    DataPacket.word1 position inOrder encryption retransmitted messageNumber =
      position.toBits * 2 ^ 30 + (inOrder.toNat * 2 ^ 29 + (encryption.toBits * 2 ^ 27
        + (retransmitted.toNat * 2 ^ 26 + messageNumber.value))) := by
  have hm := messageNumber.lt
  have hr : retransmitted.toNat < 2 := Bool.toNat_lt retransmitted
  have he : encryption.toBits < 4 := by cases encryption <;> decide
  have ho : inOrder.toNat < 2 := Bool.toNat_lt inOrder
  unfold DataPacket.word1
  rw [Nat.or_assoc, Nat.or_assoc, Nat.or_assoc, shift_or _ _ 26 (by omega),
    shift_or _ _ 27 (by omega), shift_or _ _ 29 (by omega), shift_or _ _ 30 (by omega)]

theorem controlWord_toNat (controlType subtype : UInt16) (ht : controlType.toNat < 0x8000) :
    (controlWord controlType subtype).toNat =
      2 ^ 31 + (controlType.toNat * 2 ^ 16 + subtype.toNat) := by
  have hs := subtype.toNat_lt
  have e : 0x80000000 ||| (controlType.toNat <<< 16) ||| subtype.toNat =
      2 ^ 31 + (controlType.toNat * 2 ^ 16 + subtype.toNat) := by
    rw [Nat.or_assoc, shift_or _ _ 16 hs]
    exact shift_or 1 _ 31 (by omega)
  rw [controlWord, e, UInt32.toNat_ofNat']
  omega

theorem fromBits_toBits_position (p : PacketPosition) (k : ℕ) :
    PacketPosition.fromBits (p.toBits + 4 * k) = p := by
  have e : (p.toBits + 4 * k) &&& 0b11 = p.toBits := by
    rw [Nat.and_two_pow_sub_one_eq_mod _ 2]
    cases p <;> simp only [PacketPosition.toBits] <;> omega
  unfold PacketPosition.fromBits
  rw [e]
  cases p <;> rfl

theorem fromBits_toBits_encryption (e : Encryption) : Encryption.fromBits e.toBits = .ok e := by
  cases e <;> rfl

theorem decode_data (d : DataPacket) : decode d.encode = .ok (data d) := by
  obtain ⟨seq, position, inOrder, encryption, retransmitted, messageNumber, timestamp,
    destSocketId, payload⟩ := d
  have hw := word1_eq position inOrder encryption retransmitted messageNumber
  have hm := messageNumber.lt
  have hr : retransmitted.toNat < 2 := Bool.toNat_lt retransmitted
  have he : encryption.toBits < 4 := by cases encryption <;> decide
  have ho : inOrder.toNat < 2 := Bool.toNat_lt inOrder
  have hp : position.toBits < 4 := by cases position <;> decide
  generalize hw1 : DataPacket.word1 position inOrder encryption retransmitted messageNumber = w at hw
  have hwlt : w < 2 ^ 32 := by omega
  have hwn : (UInt32.ofNat w).toNat = w := by rw [UInt32.toNat_ofNat']; omega
  have hf : seq.value &&& flagControl = 0 := by
    have h := and_flag_eq_zero seq.value 31 (by norm_num)
    have hs := seq.lt
    refine h.mpr ?_
    rw [SeqNumber.value_toNat]
    omega
  have henc : (w >>> 27) &&& 0b11 = encryption.toBits := by
    rw [Nat.and_two_pow_sub_one_eq_mod _ 2, Nat.shiftRight_eq_div_pow]
    omega
  have hpos : w >>> 30 = position.toBits + 4 * 0 := by
    rw [Nat.shiftRight_eq_div_pow]
    omega
  have hord : (w &&& (1 <<< 29) != 0) = inOrder := and_shift_ne_zero w 29 inOrder (by omega)
  have hret : (w &&& (1 <<< 26) != 0) = retransmitted :=
    and_shift_ne_zero w 26 retransmitted (by omega)
  have hmsg : MsgNumber.new (UInt32.ofNat w) = messageNumber := by
    cases messageNumber
    simp only [MsgNumber.new, MsgNumber.mk.injEq, hwn]
    simp only at hw
    omega
  simp only [DataPacket.encode, hw1, List.append_assoc]
  rw [decode, if_neg (by simp only [headerLen, List.length_append, length_putU32]; omega)]
  simp only [getU32_put, hf, hwn, henc, hpos, hord, hret, hmsg, fromBits_toBits_encryption,
    fromBits_toBits_position, SeqNumber.new_value, ne_eq, not_true_eq_false, if_false]
  rfl

/-- What the decoder makes of a control packet's bytes: its body decoded from its own header
words. -/
theorem decode_control (body : ControlBody) (timestamp : Timestamp) (destSocketId : SocketId)
    (cif : Bytes) (ht : body.toWire.1.toNat < 0x8000) :
    decode (putU32 (controlWord body.toWire.1 body.toWire.2.1) ++ putU32 body.toWire.2.2
        ++ putU32 timestamp.asMicros ++ putU32 destSocketId.value ++ cif) =
      match ControlBody.decode body.toWire.1 body.toWire.2.1 body.toWire.2.2 cif with
      | .ok body => .ok (control { timestamp, destSocketId, body })
      | .error e => .error (.control e) := by
  have hw := controlWord_toNat body.toWire.1 body.toWire.2.1 ht
  have hs := body.toWire.2.1.toNat_lt
  have hf : ¬ controlWord body.toWire.1 body.toWire.2.1 &&& flagControl = 0 := by
    intro h
    have h' := (and_flag_eq_zero _ 31 (by norm_num)).mp h
    rw [hw] at h'
    omega
  have htype : UInt16.ofNat ((controlWord body.toWire.1 body.toWire.2.1).toNat >>> 16) &&& 0x7FFF =
      body.toWire.1 := by
    apply UInt16.toNat_inj.mp
    rw [UInt16.toNat_and, UInt16.toNat_ofNat', hw, Nat.shiftRight_eq_div_pow]
    refine (Nat.and_two_pow_sub_one_eq_mod _ 15).trans ?_
    omega
  have hsub : UInt16.ofNat (controlWord body.toWire.1 body.toWire.2.1).toNat =
      body.toWire.2.1 := by
    apply UInt16.toNat_inj.mp
    rw [UInt16.toNat_ofNat', hw]
    omega
  rw [decode, if_neg (by simp only [headerLen, List.length_append, length_putU32]; omega)]
  simp only [List.append_assoc, getU32_put, ne_eq, hf, not_false_eq_true, if_true, htype, hsub]

theorem toWire_lt (b : ControlBody) : b.toWire.1.toNat < 0x8000 := by
  cases b <;> exact ControlType.toRaw_lt _

/-- The packets an endpoint may send: control bodies conform. -/
def Conforming : Packet → Prop
  | data _ => True
  | control c => c.body.Conforming

/-- Conforming packets encode, and decode to themselves. -/
theorem decode_encode (p : Packet) (h : p.Conforming) :
    ∃ bytes, p.encode = some bytes ∧ decode bytes = .ok p := by
  cases p with
  | data d => exact ⟨d.encode, rfl, decode_data d⟩
  | control c =>
    obtain ⟨cif, henc, hdec⟩ := ControlBody.decode_encodeCif c.body h
    refine ⟨_, by simp only [encode, henc, Option.bind_eq_bind, Option.bind_some]; rfl, ?_⟩
    rw [decode_control _ _ _ _ (toWire_lt c.body), hdec]

/-- A decoded packet conforms. -/
theorem conforming_of_decode {buf : Bytes} {p : Packet} (h : decode buf = .ok p) : p.Conforming := by
  unfold decode at h
  split_ifs at h with hshort
  dsimp only at h
  split_ifs at h with hflag
  · split at h
    · next body hbody =>
      obtain rfl := Except.ok.inj h
      exact ControlBody.conforming_of_decode hbody
    · simp at h
  · simp only [bind, Except.bind] at h
    split at h
    · simp at h
    · obtain rfl := Except.ok.inj h
      trivial

/-- Decoding and encoding are stable: what is accepted, and what is well formed, encodes to
bytes that decode to it. -/
theorem decode_encode_stable :
    (∀ buf p, decode buf = .ok p → ∃ bytes, p.encode = some bytes ∧ decode bytes = .ok p) ∧
      ∀ p : Packet, p.Conforming → ∃ bytes, p.encode = some bytes ∧ decode bytes = .ok p :=
  ⟨fun _ p h => decode_encode p (conforming_of_decode h), decode_encode⟩

/-- A loss list of one number and of the range from three to seven, as it is received. -/
def sampleNak : Bytes :=
  [0x80, 3, 0, 0, 0, 0, 0, 0, 0, 0, 0, 5, 0, 0, 0, 7, 0, 0, 0, 1, 0x80, 0, 0, 3, 0, 0, 0, 7]

def sampleLoss : List LossRange :=
  [LossRange.single (SeqNumber.new 1), ⟨SeqNumber.new 3, SeqNumber.new 7⟩]

/-- A conclusion with an extension, key material and a Stream ID of five letters. -/
def sampleConclusion : Handshake where
  version := 5
  encryption := .aes128
  extensionField := 7
  initialSeq := SeqNumber.new 42
  mtu := 1500
  maxFlowWindow := 8192
  handshakeType := .conclusion
  srtSocketId := ⟨9⟩
  synCookie := 0xC0FFEE
  peerIp := Block.zero 16
  extensions := [.hsReq ⟨0x10500, ⟨0xBF⟩, 120, 120⟩, .raw 3 [1, 2, 3, 4], .streamId ⟨[108, 105, 118, 101, 49], rfl⟩]

/-- A KEEPALIVE with trailing bytes and a loss list as they are received, a drop request and a conclusion as
they are sent. -/
theorem stable_nak_and_conclusion :
    (∃ bytes, (Packet.control ⟨⟨5⟩, ⟨7⟩, .keepalive⟩).encode = some bytes ∧
      decode bytes = .ok (.control ⟨⟨5⟩, ⟨7⟩, .keepalive⟩)) ∧
    (∃ bytes, (Packet.control ⟨⟨5⟩, ⟨7⟩, .nak sampleLoss⟩).encode = some bytes ∧
      decode bytes = .ok (.control ⟨⟨5⟩, ⟨7⟩, .nak sampleLoss⟩)) ∧
    (∃ bytes, (Packet.control ⟨⟨5⟩, ⟨7⟩, .dropReq 1 (SeqNumber.new 2) (SeqNumber.new 3)⟩).encode = some bytes ∧
      decode bytes = .ok (.control ⟨⟨5⟩, ⟨7⟩, .dropReq 1 (SeqNumber.new 2) (SeqNumber.new 3)⟩)) ∧
    ∃ bytes, (Packet.control ⟨⟨5⟩, ⟨7⟩, .handshake sampleConclusion⟩).encode = some bytes ∧
      decode bytes = .ok (.control ⟨⟨5⟩, ⟨7⟩, .handshake sampleConclusion⟩) := by
  refine ⟨decode_encode_stable.1 [0x80, 1, 0, 0, 0, 0, 0, 0, 0, 0, 0, 5, 0, 0, 0, 7, 1, 2, 3] _ (by decide +kernel),
    decode_encode_stable.1 sampleNak _ (by decide +kernel), decode_encode_stable.2 _ trivial,
    decode_encode_stable.2 _ fun e he => ?_⟩
  fin_cases he
  · trivial
  · exact ⟨by decide, by decide, by decide, by decide, by decide⟩
  · exact ⟨by decide, by decide⟩

end Packet

end Srtrust
