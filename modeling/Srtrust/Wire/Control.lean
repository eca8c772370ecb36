import Srtrust.Wire.Handshake
import Srtrust.Wire.LossList

/-! # Control bodies (`control.rs`)

A control packet's type, subtype, type-specific word and CIF, folded into one typed body
per control type. Types the core does not parse are kept raw. -/
namespace Srtrust
open BigEndian
set_option autoImplicit false

inductive ControlType
  | handshake
  | keepalive
  | ack
  | nak
  | congestionWarning
  | shutdown
  | ackAck
  | dropReq
  | peerError
  | userDefined
deriving DecidableEq, Repr

namespace ControlType

def toRaw : ControlType → UInt16
  | handshake => 0x0000
  | keepalive => 0x0001
  | ack => 0x0002
  | nak => 0x0003
  | congestionWarning => 0x0004
  | shutdown => 0x0005
  | ackAck => 0x0006
  | dropReq => 0x0007
  | peerError => 0x0008
  | userDefined => 0x7FFF

def fromRaw (raw : UInt16) : Except ControlError ControlType :=
  match raw.toNat with
  | 0x0000 => .ok handshake
  | 0x0001 => .ok keepalive
  | 0x0002 => .ok ack
  | 0x0003 => .ok nak
  | 0x0004 => .ok congestionWarning
  | 0x0005 => .ok shutdown
  | 0x0006 => .ok ackAck
  | 0x0007 => .ok dropReq
  | 0x0008 => .ok peerError
  | 0x7FFF => .ok userDefined
  | _ => .error (.unknownType raw)

@[simp] theorem fromRaw_toRaw (t : ControlType) : fromRaw t.toRaw = .ok t := by
  cases t <;> rfl

theorem toRaw_injective {t t' : ControlType} (h : t.toRaw = t'.toRaw) : t = t' := by
  have hback := congrArg fromRaw h
  rw [fromRaw_toRaw, fromRaw_toRaw] at hback
  exact Except.ok.inj hback

/-- A control type fits its 15-bit field. -/
theorem toRaw_lt (t : ControlType) : t.toRaw.toNat < 0x8000 := by
  cases t <;> decide

end ControlType

/-- The metrics of an acknowledgement: how much of it was sent. -/
inductive AckCif
  | light
  | small (rtt rttVariance availBufferSize : UInt32)
  | full (rtt rttVariance availBufferSize packetsRecvRate estimatedLinkCapacity
      receivingRate : UInt32)
deriving DecidableEq, Repr

structure Ack where
  ackNumber : UInt32
  lastAckSeq : SeqNumber
  cif : AckCif
deriving DecidableEq, Repr

inductive ControlBody
  | keepalive
  | shutdown
  | congestionWarning
  | ackAck (ackNumber : UInt32)
  | dropReq (messageNumber : UInt32) (first last : SeqNumber)
  | peerError (errorCode : UInt32)
  | ack (ack : Ack)
  | nak (loss : List LossRange)
  | handshake (hs : Handshake)
  | raw (controlType : ControlType) (subtype : UInt16) (typeSpecific : UInt32) (cif : Bytes)
deriving DecidableEq, Repr

namespace ControlBody

/-- The control type, subtype and type-specific header words of a body. -/
def toWire : ControlBody → UInt16 × UInt16 × UInt32
  | keepalive => (ControlType.keepalive.toRaw, 0, 0)
  | shutdown => (ControlType.shutdown.toRaw, 0, 0)
  | congestionWarning => (ControlType.congestionWarning.toRaw, 0, 0)
  | ackAck ackNumber => (ControlType.ackAck.toRaw, 0, ackNumber)
  | dropReq messageNumber _ _ => (ControlType.dropReq.toRaw, 0, messageNumber)
  | peerError errorCode => (ControlType.peerError.toRaw, 0, errorCode)
  | ack a => (ControlType.ack.toRaw, 0, a.ackNumber)
  | nak _ => (ControlType.nak.toRaw, 0, 0)
  | handshake _ => (ControlType.handshake.toRaw, 0, 0)
  | raw controlType subtype typeSpecific _ => (controlType.toRaw, subtype, typeSpecific)

/-- The metrics after the acknowledged sequence number. -/
def encodeAckCif : AckCif → Bytes
  | .light => []
  | .small rtt rttVariance availBufferSize =>
    putU32 rtt ++ putU32 rttVariance ++ putU32 availBufferSize
  | .full rtt rttVariance availBufferSize packetsRecvRate estimatedLinkCapacity receivingRate =>
    putU32 rtt ++ putU32 rttVariance ++ putU32 availBufferSize ++ putU32 packetsRecvRate
      ++ putU32 estimatedLinkCapacity ++ putU32 receivingRate

/-- A body's CIF; `none` only where a handshake extension does not fit its length field. -/
def encodeCif : ControlBody → Option Bytes
  | keepalive | shutdown | congestionWarning | ackAck _ | peerError _ => some []
  | dropReq _ first last => some (putU32 first.value ++ putU32 last.value)
  | ack a => some (putU32 a.lastAckSeq.value ++ encodeAckCif a.cif)
  | nak loss => some (LossList.encode loss)
  | handshake hs => hs.encode
  | raw _ _ _ cif => some cif

/-- `decode_ack`: the CIF's length says how much of the ACK was sent. -/
def decodeAck (ackNumber : UInt32) (cif : Bytes) : Except ControlError ControlBody :=
  let (seq, r) := getU32 cif
  let make := fun c => ControlBody.ack ⟨ackNumber, SeqNumber.new seq, c⟩
  if cif.length = 4 then .ok (make .light)
  else if cif.length = 16 then
    let (rtt, r) := getU32 r
    let (rttVariance, r) := getU32 r
    let (availBufferSize, _) := getU32 r
    .ok (make (.small rtt rttVariance availBufferSize))
  else if cif.length = 28 then
    let (rtt, r) := getU32 r
    let (rttVariance, r) := getU32 r
    let (availBufferSize, r) := getU32 r
    let (packetsRecvRate, r) := getU32 r
    let (estimatedLinkCapacity, r) := getU32 r
    let (receivingRate, _) := getU32 r
    .ok (make (.full rtt rttVariance availBufferSize packetsRecvRate estimatedLinkCapacity
      receivingRate))
  else .error (.invalidCifLength "ACK" cif.length)

def decode (rawType subtype : UInt16) (typeSpecific : UInt32) (cif : Bytes) :
    Except ControlError ControlBody := do
  let controlType ← ControlType.fromRaw rawType
  match controlType with
  -- the types without a CIF ignore trailing bytes
  | .keepalive => .ok keepalive
  | .shutdown => .ok shutdown
  | .congestionWarning => .ok congestionWarning
  | .ackAck => .ok (ackAck typeSpecific)
  | .peerError => .ok (peerError typeSpecific)
  | .dropReq =>
    if cif.length ≠ 8 then .error (.invalidCifLength "drop request" cif.length)
    else
      let (first, r) := getU32 cif
      let (last, _) := getU32 r
      .ok (dropReq typeSpecific (SeqNumber.new first) (SeqNumber.new last))
  | .ack => decodeAck typeSpecific cif
  | .nak =>
    match LossList.decode cif with
    | .ok loss => .ok (nak loss)
    | .error e => .error (.lossList e)
  | .handshake =>
    match Handshake.decode cif with
    | .ok hs => .ok (handshake hs)
    | .error e => .error (.handshake e)
  | .userDefined => .ok (raw controlType subtype typeSpecific cif)

/-! ## Decoding an encoded body -/

theorem decodeAck_encode (a : Ack) :
    decodeAck a.ackNumber (putU32 a.lastAckSeq.value ++ encodeAckCif a.cif) = .ok (ack a) := by
  obtain ⟨ackNumber, lastAckSeq, cif⟩ := a
  cases cif with
  | light => simp [decodeAck, encodeAckCif]
  | small rtt rttVariance availBufferSize => simp [decodeAck, encodeAckCif]
  | full rtt rttVariance availBufferSize packetsRecvRate estimatedLinkCapacity receivingRate =>
    simp [decodeAck, encodeAckCif]

/-- The bodies that have a wire form of their own: raw ones carry a user-defined type, and a
handshake's extensions conform. -/
def Conforming : ControlBody → Prop
  | raw controlType _ _ _ => controlType = .userDefined
  | handshake hs => ∀ e ∈ hs.extensions, Handshake.ConformingExtension e
  | _ => True

/-- A conforming body encodes, and decodes to itself from its header words and CIF. -/
theorem decode_encodeCif (b : ControlBody) (h : b.Conforming) :
    ∃ cif, b.encodeCif = some cif ∧ decode b.toWire.1 b.toWire.2.1 b.toWire.2.2 cif = .ok b := by
  cases b with
  | keepalive => exact ⟨[], rfl, rfl⟩
  | shutdown => exact ⟨[], rfl, rfl⟩
  | congestionWarning => exact ⟨[], rfl, rfl⟩
  | ackAck ackNumber => exact ⟨[], rfl, rfl⟩
  | peerError errorCode => exact ⟨[], rfl, rfl⟩
  | dropReq messageNumber first last =>
    refine ⟨_, rfl, ?_⟩
    simp only [decode, toWire, ControlType.fromRaw_toRaw, bind, Except.bind]
    simp
  | ack a =>
    refine ⟨_, rfl, ?_⟩
    simp only [decode, toWire, ControlType.fromRaw_toRaw, bind, Except.bind]
    exact decodeAck_encode a
  | nak loss =>
    refine ⟨_, rfl, ?_⟩
    simp only [decode, toWire, ControlType.fromRaw_toRaw, bind, Except.bind,
      LossList.decode_encode]
  | handshake hs =>
    obtain ⟨bytes, henc, hdec⟩ := Handshake.decode_encode hs h
    refine ⟨bytes, henc, ?_⟩
    simp only [decode, toWire, ControlType.fromRaw_toRaw, bind, Except.bind, hdec]
  | raw controlType subtype typeSpecific cif =>
    obtain rfl : controlType = .userDefined := h
    exact ⟨cif, rfl, rfl⟩

/-- A decoded body conforms. -/
theorem conforming_of_decode {rawType subtype : UInt16} {typeSpecific : UInt32} {cif : Bytes}
    {body : ControlBody} (h : decode rawType subtype typeSpecific cif = .ok body) :
    body.Conforming := by
  unfold decode at h
  cases htype : ControlType.fromRaw rawType with
  | error e => simp [htype, bind, Except.bind] at h
  | ok controlType =>
    simp only [htype, bind, Except.bind] at h
    cases controlType <;> dsimp only at h
    case handshake =>
      split at h
      · next hs hhs =>
        obtain rfl := Except.ok.inj h
        exact Handshake.conforming_of_decode hhs
      · simp at h
    case nak =>
      split at h
      · obtain rfl := Except.ok.inj h
        trivial
      · simp at h
    case dropReq =>
      split_ifs at h
      obtain rfl := Except.ok.inj h
      trivial
    case ack =>
      unfold decodeAck at h
      dsimp only at h
      split_ifs at h <;> (obtain rfl := Except.ok.inj h; trivial)
    all_goals
      obtain rfl := Except.ok.inj h
      trivial

/-- Only a packet of the handshake type decodes to a handshake. -/
theorem handshake_of_decode {t : ControlType} {subtype : UInt16} {typeSpecific : UInt32} {cif : Bytes}
    {hs : Handshake} (h : decode t.toRaw subtype typeSpecific cif = .ok (.handshake hs)) :
    t = .handshake ∧ Handshake.decode cif = .ok hs := by
  unfold decode at h
  rw [ControlType.fromRaw_toRaw] at h
  simp only [bind, Except.bind] at h
  cases t <;> dsimp only at h
  case handshake =>
    cases hd : Handshake.decode cif with
    | error e => simp [hd] at h
    | ok hs' =>
      rw [hd] at h
      simpa using h
  case nak => cases hd : LossList.decode cif <;> simp [hd] at h
  case dropReq =>
    split_ifs at h
    simp at h
  case ack =>
    unfold decodeAck at h
    dsimp only at h
    split_ifs at h <;> simp at h
  all_goals simp at h

/-- Only a packet of a user-defined type decodes to one, with its subtype and its content. -/
theorem userDefined_of_decode {t : ControlType} {subtype subtype' : UInt16} {info info' : UInt32}
    {cif cif' : Bytes} (h : decode t.toRaw subtype info cif = .ok (.raw .userDefined subtype' info' cif')) :
    t = .userDefined ∧ subtype' = subtype ∧ cif' = cif := by
  unfold decode at h
  rw [ControlType.fromRaw_toRaw] at h
  simp only [bind, Except.bind] at h
  cases t <;> dsimp only at h
  case userDefined =>
    simp only [Except.ok.injEq, raw.injEq, true_and] at h
    exact ⟨rfl, h.1.symm, h.2.2.symm⟩
  case handshake => cases hd : Handshake.decode cif <;> simp [hd] at h
  case nak => cases hd : LossList.decode cif <;> simp [hd] at h
  case dropReq =>
    split_ifs at h
    simp at h
  case ack =>
    unfold decodeAck at h
    dsimp only at h
    split_ifs at h <;> simp at h
  all_goals simp at h

theorem toWire_type (b : ControlBody) : ∃ t : ControlType, b.toWire.1 = t.toRaw := by
  cases b <;> simp only [toWire] <;> exact ⟨_, rfl⟩

end ControlBody

end Srtrust
