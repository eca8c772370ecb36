import Srtrust.Wire.Seq
import Srtrust.Wire.Error

/-! # Handshakes (`handshake.rs`)

The handshake body is a fixed 48-byte header followed by extensions, each a type, a
length in 4-byte words and its content. Encoding an extension whose content has more than
65535 words fails an `expect` in the source; the encoders here return `none` there.

The last sections say what a decoder makes of an encoded handshake: its header fields
come back as they are, and so do all extensions a conforming sender writes. -/
namespace Srtrust
open BigEndian
set_option autoImplicit false

/-- `SocketId(u32)`. -/
structure SocketId where
  value : UInt32
deriving DecidableEq, Repr

inductive EncryptionField
  | none
  | aes128
  | aes192
  | aes256
deriving DecidableEq, Repr

namespace EncryptionField

def toRaw : EncryptionField → UInt16
  | none => 0
  | aes128 => 2
  | aes192 => 3
  | aes256 => 4

def fromRaw (raw : UInt16) : Except HandshakeError EncryptionField :=
  if raw = 0 then .ok none
  else if raw = 2 then .ok aes128
  else if raw = 3 then .ok aes192
  else if raw = 4 then .ok aes256
  else .error (.invalidEncryptionField raw)

@[simp] theorem fromRaw_toRaw (e : EncryptionField) : fromRaw e.toRaw = .ok e := by
  cases e <;> rfl

end EncryptionField

/-- `RejectReason`. -/
inductive RejectReason
  | unknown
  | system
  | peer
  | resource
  | rogue
  | backlog
  | internalError
  | close
  | version
  | rdvCookie
  | badSecret
  | unsecure
  | messageApi
  | congestion
  | filter
  | group
  | timeout
  | other (code : UInt32)
deriving DecidableEq, Repr

namespace RejectReason

def fromCode (code : UInt32) : RejectReason :=
  match code.toNat with
  | 0 => unknown
  | 1 => system
  | 2 => peer
  | 3 => resource
  | 4 => rogue
  | 5 => backlog
  | 6 => internalError
  | 7 => close
  | 8 => version
  | 9 => rdvCookie
  | 10 => badSecret
  | 11 => unsecure
  | 12 => messageApi
  | 13 => congestion
  | 14 => filter
  | 15 => group
  | 16 => timeout
  | _ => other code

def code : RejectReason → UInt32
  | unknown => 0
  | system => 1
  | peer => 2
  | resource => 3
  | rogue => 4
  | backlog => 5
  | internalError => 6
  | close => 7
  | version => 8
  | rdvCookie => 9
  | badSecret => 10
  | unsecure => 11
  | messageApi => 12
  | congestion => 13
  | filter => 14
  | group => 15
  | timeout => 16
  | other code => code

theorem code_fromCode (code : UInt32) : (fromCode code).code = code := by
  unfold fromCode
  split <;> first
    | rfl
    | next h => exact (UInt32.toNat_inj.mp h).symm

end RejectReason

/-- `HandshakeType(u32)`: named phases, with every other value kept. -/
structure HandshakeType where
  toRaw : UInt32
deriving DecidableEq, Repr

namespace HandshakeType

def induction : HandshakeType := ⟨0x00000001⟩
def conclusion : HandshakeType := ⟨0xFFFFFFFF⟩
def done : HandshakeType := ⟨0xFFFFFFFD⟩

/-- `REJECTION_BASE`. -/
def rejectionBase : UInt32 := 1000

/-- `rejection`: the type that rejects with a reason. The sum wraps, as it does in a release
build. -/
def rejection (reason : RejectReason) : HandshakeType := ⟨rejectionBase + reason.code⟩

/-- A type of `1000 + code`, below the rendezvous values, is a rejection. -/
def rejectReason (t : HandshakeType) : Option RejectReason :=
  if rejectionBase ≤ t.toRaw ∧ t.toRaw < done.toRaw then
    some (RejectReason.fromCode (t.toRaw - rejectionBase))
  else none

theorem rejection_toNat (reason : RejectReason) (h : 1000 + reason.code.toNat < 4294967296) :
    (rejection reason).toRaw.toNat = 1000 + reason.code.toNat := by
  rw [rejection, UInt32.toNat_add, Nat.mod_eq_of_lt]
  · rfl
  · exact h

/-- A code that leaves the sum below the rendezvous values comes back. -/
theorem rejectReason_rejection {reason : RejectReason} (h : reason.code.toNat < 4294966293) :
    (rejection reason).rejectReason = some (RejectReason.fromCode reason.code) := by
  have hsum := rejection_toNat reason (by omega)
  have hrange : rejectionBase ≤ (rejection reason).toRaw ∧ (rejection reason).toRaw < done.toRaw := by
    rw [UInt32.le_iff_toNat_le, UInt32.lt_iff_toNat_lt, hsum]
    change 1000 ≤ _ ∧ _ < 4294967293
    omega
  rw [rejectReason, if_pos hrange, rejection, UInt32.add_comm, UInt32.add_sub_cancel]

/-- The codes above it reach the rendezvous values, and are no rejections. -/
theorem rejectReason_rejection_none {reason : RejectReason} (h : 4294966293 ≤ reason.code.toNat)
    (hsum : 1000 + reason.code.toNat < 4294967296) : (rejection reason).rejectReason = none := by
  have hrange : ¬ (rejectionBase ≤ (rejection reason).toRaw ∧ (rejection reason).toRaw < done.toRaw) := by
    rw [UInt32.le_iff_toNat_le, UInt32.lt_iff_toNat_lt, rejection_toNat reason hsum]
    change ¬ (1000 ≤ _ ∧ _ < 4294967293)
    omega
  rw [rejectReason, if_neg hrange]

end HandshakeType

/-- `SrtFlags(u32)`. -/
structure SrtFlags where
  bits : UInt32
deriving DecidableEq, Repr

namespace SrtFlags

def tsbpdSnd : UInt32 := 0x00000001
def tsbpdRcv : UInt32 := 0x00000002
def tlpktdrop : UInt32 := 0x00000008
def periodicNak : UInt32 := 0x00000010
def rexmit : UInt32 := 0x00000020

end SrtFlags

/-- The content of an HSREQ or HSRSP extension. -/
structure SrtHandshake where
  srtVersion : UInt32
  flags : SrtFlags
  recvTsbpdDelay : UInt16
  sendTsbpdDelay : UInt16
deriving DecidableEq, Repr

namespace SrtHandshake

def encode (h : SrtHandshake) : Bytes :=
  putU32 h.srtVersion ++ putU32 h.flags.bits ++ putU16 h.recvTsbpdDelay ++ putU16 h.sendTsbpdDelay

def decode (content : Bytes) : SrtHandshake :=
  let (srtVersion, r) := getU32 content
  let (flags, r) := getU32 r
  let (recvTsbpdDelay, r) := getU16 r
  let (sendTsbpdDelay, _) := getU16 r
  { srtVersion, flags := ⟨flags⟩, recvTsbpdDelay, sendTsbpdDelay }

@[simp] theorem length_encode (h : SrtHandshake) : h.encode.length = 12 := rfl

@[simp] theorem decode_encode (h : SrtHandshake) : decode h.encode = h := by
  have e : h.encode = putU32 h.srtVersion ++ (putU32 h.flags.bits ++
      (putU16 h.recvTsbpdDelay ++ (putU16 h.sendTsbpdDelay ++ []))) := by
    simp only [encode, List.append_assoc, List.append_nil]
  rw [e]
  simp only [decode, getU32_put, getU16_put]

end SrtHandshake

/-! ## Stream identifiers -/

/-- A continuation byte of a UTF-8 sequence. -/
def isContinuation (b : UInt8) : Bool := 0x80 ≤ b && b ≤ 0xBF

/-- Well-formed UTF-8, as `String::from_utf8` checks it: no overlong forms, no surrogates,
nothing above U+10FFFF. -/
def validUtf8 : Bytes → Bool
  | [] => true
  | a :: tail =>
    if a < 0x80 then validUtf8 tail
    else if 0xC2 ≤ a && a ≤ 0xDF then
      match tail with
      | b :: tail => isContinuation b && validUtf8 tail
      | _ => false
    else if 0xE0 ≤ a && a ≤ 0xEF then
      match tail with
      | b :: c :: tail =>
        isContinuation b && (a != 0xE0 || 0xA0 ≤ b) && (a != 0xED || b ≤ 0x9F)
          && isContinuation c && validUtf8 tail
      | _ => false
    else if 0xF0 ≤ a && a ≤ 0xF4 then
      match tail with
      | b :: c :: d :: tail =>
        isContinuation b && (a != 0xF0 || 0x90 ≤ b) && (a != 0xF4 || b ≤ 0x8F)
          && isContinuation c && isContinuation d && validUtf8 tail
      | _ => false
    else false

/-- A Rust `String`: bytes that are well-formed UTF-8. -/
structure Utf8 where
  bytes : Bytes
  valid : validUtf8 bytes = true
deriving DecidableEq, Repr

/-- `String::from_utf8`. -/
def Utf8.fromBytes (bytes : Bytes) : Option Utf8 :=
  if h : validUtf8 bytes = true then some ⟨bytes, h⟩ else none

/-- Reverses the bytes within each block of four; a shorter tail is left out, as
`chunks_exact` leaves it out. -/
def reverseBlocks : Bytes → Bytes
  | a :: b :: c :: d :: rest => d :: c :: b :: a :: reverseBlocks rest
  | _ => []

/-- Pads with zero bytes to a multiple of four. -/
def padToBlocks (bytes : Bytes) : Bytes :=
  bytes ++ List.replicate ((bytes.length + 3) / 4 * 4 - bytes.length) 0

def encodeStreamId (streamId : Utf8) : Bytes := reverseBlocks (padToBlocks streamId.bytes)

/-- Drops the trailing zero bytes. -/
def trimZeros (bytes : Bytes) : Bytes := (bytes.reverse.dropWhile (· == 0)).reverse

def decodeStreamId (content : Bytes) : Except HandshakeError Utf8 :=
  match Utf8.fromBytes (trimZeros (reverseBlocks content)) with
  | some s => .ok s
  | none => .error .invalidStreamId

theorem length_padToBlocks (bytes : Bytes) :
    (padToBlocks bytes).length = (bytes.length + 3) / 4 * 4 := by
  simp only [padToBlocks, List.length_append, List.length_replicate]
  omega

/-- Reversing within blocks is undone by itself on whole blocks, and keeps the length. -/
theorem reverseBlocks_reverseBlocks (bytes : Bytes) (h : bytes.length % 4 = 0) :
    reverseBlocks (reverseBlocks bytes) = bytes ∧ (reverseBlocks bytes).length = bytes.length := by
  fun_induction reverseBlocks bytes with
  | case1 a b c d rest ih =>
    obtain ⟨hr, hl⟩ := ih (by simp only [List.length_cons] at h; omega)
    simp [reverseBlocks, hr, hl]
  | case2 bytes hshort =>
    match bytes with
    | [] => simp [reverseBlocks]
    | [_] => simp at h
    | [_, _] => simp at h
    | [_, _, _] => simp at h
    | a :: b :: c :: d :: rest => exact absurd rfl (hshort a b c d rest)

theorem length_encodeStreamId (s : Utf8) :
    (encodeStreamId s).length = (s.bytes.length + 3) / 4 * 4 := by
  have hp := length_padToBlocks s.bytes
  rw [encodeStreamId, (reverseBlocks_reverseBlocks _ (by omega)).2, hp]

theorem trimZeros_padToBlocks (bytes : Bytes) (h : bytes.getLast? ≠ some 0) :
    trimZeros (padToBlocks bytes) = bytes := by
  have hz : ∀ n, (List.replicate n (0 : UInt8) ++ bytes.reverse).dropWhile (· == 0) =
      bytes.reverse := by
    intro n
    induction n with
    | zero =>
      match hb : bytes.reverse with
      | [] => rfl
      | b :: rest =>
        have hlast : bytes.getLast? = some b := by
          rw [List.getLast?_eq_head?_reverse, hb]; rfl
        have hne : ¬ b = 0 := fun he => h (he ▸ hlast)
        simp [hne]
    | succ n ih => simpa [List.replicate_succ] using ih
  rw [trimZeros, padToBlocks, List.reverse_append, List.reverse_replicate, hz, List.reverse_reverse]

/-- A Stream ID that does not end in a zero byte survives its encoding. -/
theorem decodeStreamId_encode (s : Utf8) (h : s.bytes.getLast? ≠ some 0) :
    decodeStreamId (encodeStreamId s) = .ok s := by
  have hp := length_padToBlocks s.bytes
  rw [decodeStreamId, encodeStreamId, (reverseBlocks_reverseBlocks _ (by omega)).1,
    trimZeros_padToBlocks _ h]
  simp [Utf8.fromBytes, s.valid]

/-! ## Extensions -/

inductive HandshakeExtension
  | hsReq (hs : SrtHandshake)
  | hsRsp (hs : SrtHandshake)
  | streamId (s : Utf8)
  | raw (extType : UInt16) (content : Bytes)
deriving DecidableEq, Repr

def extHsreq : UInt16 := 1
def extHsrsp : UInt16 := 2
def extSid : UInt16 := 5

/-- `SRT_HS_LEN`. -/
def srtHsLen : ℕ := 12

/-- `put_ext_header`: `none` where the `expect` on the 16-bit word count fails. -/
def putExtHeader (extType : UInt16) (contentLen : ℕ) : Option Bytes :=
  if contentLen / 4 < 65536 then some (putU16 extType ++ putU16 (UInt16.ofNat (contentLen / 4)))
  else none

namespace HandshakeExtension

def encode : HandshakeExtension → Option Bytes
  | hsReq hs => do
    let header ← putExtHeader extHsreq srtHsLen
    some (header ++ hs.encode)
  | hsRsp hs => do
    let header ← putExtHeader extHsrsp srtHsLen
    some (header ++ hs.encode)
  | streamId s => do
    let content := encodeStreamId s
    let header ← putExtHeader extSid content.length
    some (header ++ content)
  | raw extType content => do
    let header ← putExtHeader extType content.length
    some (header ++ content)

def decode (extType : UInt16) (content : Bytes) : Except HandshakeError HandshakeExtension :=
  if (extType = extHsreq ∨ extType = extHsrsp) ∧ content.length ≠ srtHsLen then
    .error (.extensionContent extType content.length)
  else if extType = extHsreq then .ok (hsReq (SrtHandshake.decode content))
  else if extType = extHsrsp then .ok (hsRsp (SrtHandshake.decode content))
  else if extType = extSid then do
    let s ← decodeStreamId content
    .ok (streamId s)
  else .ok (raw extType content)

end HandshakeExtension

/-! ## The handshake body -/

structure Handshake where
  version : UInt32
  encryption : EncryptionField
  extensionField : UInt16
  initialSeq : SeqNumber
  mtu : UInt32
  maxFlowWindow : UInt32
  handshakeType : HandshakeType
  srtSocketId : SocketId
  synCookie : UInt32
  peerIp : Block 16
  extensions : List HandshakeExtension
deriving DecidableEq, Repr

namespace Handshake

/-- `BASE_LEN`. -/
def baseLen : ℕ := 48

/-- The fixed header, before the extensions. -/
def encodeHeader (h : Handshake) : Bytes :=
  putU32 h.version ++ putU16 h.encryption.toRaw ++ putU16 h.extensionField
    ++ putU32 h.initialSeq.value ++ putU32 h.mtu ++ putU32 h.maxFlowWindow
    ++ putU32 h.handshakeType.toRaw ++ putU32 h.srtSocketId.value ++ putU32 h.synCookie
    ++ h.peerIp.bytes

def encodeExtensions : List HandshakeExtension → Option Bytes
  | [] => some []
  | ext :: rest => do
    let bytes ← ext.encode
    let more ← encodeExtensions rest
    some (bytes ++ more)

def encode (h : Handshake) : Option Bytes := do
  let extensions ← encodeExtensions h.extensions
  some (h.encodeHeader ++ extensions)

/-- The extension loop; every turn consumes at least the four bytes of a header. -/
def decodeExtensions : ℕ → Bytes → Except HandshakeError (List HandshakeExtension)
  | 0, _ => .ok []
  | fuel + 1, cur =>
    if 4 ≤ cur.length then do
      let (extType, cur) := getU16 cur
      let (words, cur) := getU16 cur
      let contentLen := words.toNat * 4
      if cur.length < contentLen then
        .error (.extensionLength extType contentLen cur.length)
      let ext ← HandshakeExtension.decode extType (cur.take contentLen)
      let rest ← decodeExtensions fuel (cur.drop contentLen)
      .ok (ext :: rest)
    else .ok []

def decode (cif : Bytes) : Except HandshakeError Handshake :=
  if cif.length < baseLen then .error (.tooShort baseLen cif.length)
  else do
    let (version, cur) := getU32 cif
    let (encryption, cur) := getU16 cur
    let encryption ← EncryptionField.fromRaw encryption
    let (extensionField, cur) := getU16 cur
    let (initialSeq, cur) := getU32 cur
    let (mtu, cur) := getU32 cur
    let (maxFlowWindow, cur) := getU32 cur
    let (handshakeType, cur) := getU32 cur
    let (srtSocketId, cur) := getU32 cur
    let (synCookie, cur) := getU32 cur
    let (peerIp, cur) := getBlock 16 cur
    let extensions ← decodeExtensions cur.length cur
    .ok
      { version, encryption, extensionField, initialSeq := SeqNumber.new initialSeq, mtu
        maxFlowWindow, handshakeType := ⟨handshakeType⟩, srtSocketId := ⟨srtSocketId⟩
        synCookie, peerIp, extensions }

/-! ## Decoding an encoded handshake -/

theorem length_encodeHeader (h : Handshake) : h.encodeHeader.length = baseLen := by
  simp [encodeHeader, h.peerIp.length_eq, baseLen]

/-- The header fields of an encoded handshake come back as they are. -/
theorem decode_header (h : Handshake) (exts : Bytes) :
    decode (h.encodeHeader ++ exts) =
      (decodeExtensions exts.length exts).map fun extensions => { h with extensions } := by
  have hl : ¬ (h.encodeHeader ++ exts).length < baseLen := by
    rw [List.length_append, length_encodeHeader]; omega
  rw [decode, if_neg hl]
  simp only [encodeHeader, List.append_assoc, getU32_put, getU16_put, getBlock_append,
    EncryptionField.fromRaw_toRaw, SeqNumber.new_value]
  cases decodeExtensions exts.length exts <;> rfl

/-- The extensions a conforming sender writes: a raw extension has none of the parsed types
and whole words of content, a Stream ID does not end in a zero byte, and all fit the 16-bit
word count. -/
def ConformingExtension : HandshakeExtension → Prop
  | .hsReq _ => True
  | .hsRsp _ => True
  | .streamId s => s.bytes.length < 262141 ∧ s.bytes.getLast? ≠ some 0
  | .raw extType content =>
    extType ≠ extHsreq ∧ extType ≠ extHsrsp ∧ extType ≠ extSid
      ∧ content.length % 4 = 0 ∧ content.length < 262144

/-- What an extension's encoding is made of: a type, whole words of content, and a decoder
that takes the content back. -/
theorem encode_extension (ext : HandshakeExtension) (h : ConformingExtension ext) :
    ∃ (extType : UInt16) (content : Bytes), content.length % 4 = 0 ∧ content.length < 262144
      ∧ ext.encode = some (putU16 extType ++ putU16 (UInt16.ofNat (content.length / 4)) ++ content)
      ∧ HandshakeExtension.decode extType content = .ok ext := by
  match ext with
  | .hsReq hs =>
    refine ⟨extHsreq, hs.encode, by simp, by simp, ?_, ?_⟩
    · simp [HandshakeExtension.encode, putExtHeader, srtHsLen]
    · simp [HandshakeExtension.decode, srtHsLen]
  | .hsRsp hs =>
    refine ⟨extHsrsp, hs.encode, by simp, by simp, ?_, ?_⟩
    · simp [HandshakeExtension.encode, putExtHeader, srtHsLen]
    · simp [HandshakeExtension.decode, srtHsLen, extHsreq, extHsrsp]
  | .streamId s =>
    obtain ⟨hlen, hlast⟩ := h
    have hl := length_encodeStreamId s
    refine ⟨extSid, encodeStreamId s, by omega, by omega, ?_, ?_⟩
    · simp only [HandshakeExtension.encode, putExtHeader]
      rw [if_pos (by omega)]
      rfl
    · simp only [HandshakeExtension.decode, decodeStreamId_encode s hlast]
      rfl
  | .raw extType content =>
    obtain ⟨hreq, hrsp, hsid, hwords, hlen⟩ := h
    refine ⟨extType, content, hwords, hlen, ?_, ?_⟩
    · simp only [HandshakeExtension.encode, putExtHeader]
      rw [if_pos (by omega)]
      rfl
    · simp [HandshakeExtension.decode, hreq, hrsp, hsid]

theorem decodeExtensions_encode (exts : List HandshakeExtension)
    (h : ∀ e ∈ exts, ConformingExtension e) :
    ∃ bytes, encodeExtensions exts = some bytes
      ∧ ∀ fuel, bytes.length ≤ fuel → decodeExtensions fuel bytes = .ok exts := by
  induction exts with
  | nil =>
    refine ⟨[], rfl, ?_⟩
    intro fuel _
    cases fuel <;> rfl
  | cons ext exts ih =>
    obtain ⟨more, hmore, hdec⟩ := ih fun e he => h e (List.mem_cons_of_mem _ he)
    obtain ⟨extType, content, hwords, hlen, henc, hext⟩ :=
      encode_extension ext (h ext List.mem_cons_self)
    refine ⟨putU16 extType ++ putU16 (UInt16.ofNat (content.length / 4)) ++ content ++ more, ?_, ?_⟩
    · simp only [encodeExtensions, henc, hmore, Option.bind_eq_bind, Option.bind_some]
    intro fuel hf
    simp only [List.length_append, length_putU16] at hf
    obtain ⟨f, rfl⟩ : ∃ f, fuel = f + 1 := ⟨fuel - 1, by omega⟩
    have hw : (UInt16.ofNat (content.length / 4)).toNat * 4 = content.length := by
      rw [UInt16.toNat_ofNat']; omega
    rw [decodeExtensions, if_pos (by simp only [List.length_append, length_putU16]; omega)]
    simp only [List.append_assoc, getU16_put, hw, List.take_left, List.drop_left, hext,
      List.length_append]
    rw [if_neg (by omega)]
    rw [show decodeExtensions f more = .ok exts from hdec f (by omega)]
    rfl

theorem encode_streamId_isSome (s : Utf8) :
    (HandshakeExtension.encode (.streamId s)).isSome ↔ s.bytes.length ≤ 262140 := by
  have hl := length_encodeStreamId s
  simp only [HandshakeExtension.encode, putExtHeader]
  by_cases hfits : (encodeStreamId s).length / 4 < 65536
  · rw [if_pos hfits]
    refine iff_of_true rfl ?_
    omega
  · rw [if_neg hfits]
    refine iff_of_false (fun h => by cases h) ?_
    omega

theorem encodeExtensions_isSome (exts : List HandshakeExtension) :
    (encodeExtensions exts).isSome ↔ ∀ e ∈ exts, e.encode.isSome := by
  induction exts with
  | nil => simp [encodeExtensions]
  | cons ext rest ih =>
    rw [List.forall_mem_cons, ← ih, encodeExtensions]
    cases ext.encode <;> cases encodeExtensions rest <;> simp

/-- Encoding a handshake panics where one of its extensions is too long. -/
theorem encode_isSome (h : Handshake) : h.encode.isSome ↔ ∀ e ∈ h.extensions, e.encode.isSome := by
  rw [← encodeExtensions_isSome, encode]
  cases encodeExtensions h.extensions <;> simp

/-- Handshakes whose extensions conform encode, and decode to themselves. -/
theorem decode_encode (h : Handshake) (hc : ∀ e ∈ h.extensions, ConformingExtension e) :
    ∃ bytes, h.encode = some bytes ∧ decode bytes = .ok h := by
  obtain ⟨bytes, henc, hdec⟩ := decodeExtensions_encode h.extensions hc
  refine ⟨h.encodeHeader ++ bytes, by simp [encode, henc], ?_⟩
  rw [decode_header, hdec bytes.length le_rfl]
  rfl

/-! ## Decoding what any sender writes

A Stream ID that ends in zero bytes comes back without them; everything else is as it was. -/

/-- The same extension, or two Stream IDs. -/
inductive Like : HandshakeExtension → HandshakeExtension → Prop
  | refl (ext : HandshakeExtension) : Like ext ext
  | streamId (s s' : Utf8) : Like (.streamId s) (.streamId s')

/-- A raw extension has none of the parsed types and whole words of content. -/
def WritableExtension : HandshakeExtension → Prop
  | .raw extType content =>
    extType ≠ extHsreq ∧ extType ≠ extHsrsp ∧ extType ≠ extSid ∧ content.length % 4 = 0
  | _ => True

theorem encode_writable {ext : HandshakeExtension} {bytes : Bytes} (hw : WritableExtension ext)
    (henc : ext.encode = some bytes) :
    ∃ (extType : UInt16) (content : Bytes), content.length % 4 = 0 ∧ content.length < 262144
      ∧ bytes = putU16 extType ++ putU16 (UInt16.ofNat (content.length / 4)) ++ content
      ∧ ∀ ext', HandshakeExtension.decode extType content = .ok ext' → Like ext ext' := by
  have of_conforming (hc : ConformingExtension ext) : ∃ (extType : UInt16) (content : Bytes),
      content.length % 4 = 0 ∧ content.length < 262144
      ∧ bytes = putU16 extType ++ putU16 (UInt16.ofNat (content.length / 4)) ++ content
      ∧ ∀ ext', HandshakeExtension.decode extType content = .ok ext' → Like ext ext' := by
    obtain ⟨extType, content, hwords, hlen, henc', hdec⟩ := encode_extension ext hc
    refine ⟨extType, content, hwords, hlen, Option.some.inj (henc.symm.trans henc'), ?_⟩
    intro ext' h
    obtain rfl := Except.ok.inj (hdec.symm.trans h)
    exact .refl ext
  match ext with
  | .hsReq hs => exact of_conforming trivial
  | .hsRsp hs => exact of_conforming trivial
  | .raw extType content =>
    obtain ⟨hreq, hrsp, hsid, hwords⟩ := hw
    refine of_conforming ⟨hreq, hrsp, hsid, hwords, ?_⟩
    simp only [HandshakeExtension.encode, putExtHeader] at henc
    split_ifs at henc
    · omega
    · simp at henc
  | .streamId s =>
    have hl := length_encodeStreamId s
    simp only [HandshakeExtension.encode, putExtHeader] at henc
    split_ifs at henc
    · obtain rfl := Option.some.inj henc
      refine ⟨extSid, encodeStreamId s, by omega, by omega, rfl, ?_⟩
      intro ext' h
      simp only [HandshakeExtension.decode] at h
      cases hs : decodeStreamId (encodeStreamId s) with
      | error e => simp [hs, extHsreq, extHsrsp, extSid, bind, Except.bind] at h
      | ok s' =>
        simp [hs, extHsreq, extHsrsp, extSid, bind, Except.bind] at h
        exact h ▸ .streamId s s'
    · simp at henc

theorem decodeExtensions_like {exts exts' : List HandshakeExtension} {bytes : Bytes} (fuel : ℕ)
    (hw : ∀ e ∈ exts, WritableExtension e) (henc : encodeExtensions exts = some bytes)
    (hf : bytes.length ≤ fuel) (hdec : decodeExtensions fuel bytes = .ok exts') :
    List.Forall₂ Like exts exts' := by
  induction exts generalizing bytes fuel exts' with
  | nil =>
    obtain rfl := Option.some.inj henc
    have hnil : decodeExtensions fuel [] = .ok [] := by cases fuel <;> rfl
    obtain rfl := Except.ok.inj (hnil.symm.trans hdec)
    exact .nil
  | cons ext exts ih =>
    simp only [encodeExtensions, Option.bind_eq_bind, Option.bind_eq_some_iff] at henc
    obtain ⟨first, hfirst, more, hmore, hbytes⟩ := henc
    obtain rfl := Option.some.inj hbytes
    obtain ⟨extType, content, hwords, hlen, rfl, hlike⟩ :=
      encode_writable (hw ext List.mem_cons_self) hfirst
    simp only [List.length_append, length_putU16] at hf
    obtain ⟨f, rfl⟩ : ∃ f, fuel = f + 1 := ⟨fuel - 1, by omega⟩
    have hword : (UInt16.ofNat (content.length / 4)).toNat * 4 = content.length := by
      rw [UInt16.toNat_ofNat']
      omega
    rw [decodeExtensions, if_pos (by simp only [List.length_append, length_putU16]; omega)] at hdec
    simp only [List.append_assoc, getU16_put, hword, List.take_left, List.drop_left,
      List.length_append] at hdec
    rw [if_neg (by omega)] at hdec
    cases hext : HandshakeExtension.decode extType content with
    | error e => simp [hext, bind, Except.bind] at hdec
    | ok ext' =>
      cases hrest : decodeExtensions f more with
      | error e => simp [hext, hrest, bind, Except.bind] at hdec
      | ok rest =>
        simp only [hext, hrest, bind, Except.bind] at hdec
        obtain rfl := Except.ok.inj hdec
        exact .cons (hlike ext' hext)
          (ih f (fun e he => hw e (List.mem_cons_of_mem _ he)) hmore (by omega) hrest)

/-- What the decoder makes of an encoded handshake, if it accepts it at all. -/
theorem decode_like {h h' : Handshake} {bytes : Bytes} (hw : ∀ e ∈ h.extensions, WritableExtension e)
    (henc : h.encode = some bytes) (hdec : decode bytes = .ok h') :
    ∃ extensions, h' = { h with extensions } ∧ List.Forall₂ Like h.extensions extensions := by
  simp only [encode, Option.bind_eq_bind, Option.bind_eq_some_iff] at henc
  obtain ⟨exts, hexts, hbytes⟩ := henc
  obtain rfl := Option.some.inj hbytes
  rw [decode_header] at hdec
  cases hd : decodeExtensions exts.length exts with
  | error e => simp [hd, Except.map] at hdec
  | ok extensions =>
    rw [hd] at hdec
    exact ⟨extensions, (Except.ok.inj hdec).symm, decodeExtensions_like _ hw hexts le_rfl hd⟩

/-! ## What a decoder accepts -/

theorem length_reverseBlocks_le (bytes : Bytes) : (reverseBlocks bytes).length ≤ bytes.length := by
  fun_induction reverseBlocks bytes with
  | case1 a b c d rest ih => simpa using ih
  | case2 bytes _ => simp

theorem getLast?_trimZeros (bytes : Bytes) : (trimZeros bytes).getLast? ≠ some 0 := by
  intro h
  rw [trimZeros, List.getLast?_reverse] at h
  have hnot := List.head?_dropWhile_not (· == (0 : UInt8)) bytes.reverse
  rw [h] at hnot
  simp at hnot

theorem conforming_of_decodeExtension {extType : UInt16} {content : Bytes} {ext : HandshakeExtension}
    (hwords : content.length % 4 = 0) (hlen : content.length < 262144)
    (h : HandshakeExtension.decode extType content = .ok ext) : ConformingExtension ext := by
  unfold HandshakeExtension.decode at h
  split_ifs at h with hbad hreq hrsp hsid
  · obtain rfl := Except.ok.inj h
    trivial
  · obtain rfl := Except.ok.inj h
    trivial
  · unfold decodeStreamId Utf8.fromBytes at h
    split_ifs at h with hvalid
    · obtain rfl := Except.ok.inj h
      have htrim : (trimZeros (reverseBlocks content)).length ≤ (reverseBlocks content).length := by
        have := (List.dropWhile_suffix (· == (0 : UInt8)) (l := (reverseBlocks content).reverse)).length_le
        simpa [trimZeros] using this
      have hrev := length_reverseBlocks_le content
      exact ⟨by simp only; omega, getLast?_trimZeros _⟩
    · simp [bind, Except.bind] at h
  · obtain rfl := Except.ok.inj h
    exact ⟨hreq, hrsp, hsid, hwords, hlen⟩

theorem conforming_of_decodeExtensions (fuel : ℕ) {cur : Bytes} {exts : List HandshakeExtension}
    (h : decodeExtensions fuel cur = .ok exts) : ∀ e ∈ exts, ConformingExtension e := by
  induction fuel generalizing cur exts with
  | zero =>
    obtain rfl := Except.ok.inj h
    simp
  | succ fuel ih =>
    unfold decodeExtensions at h
    split_ifs at h with h4
    · dsimp only at h
      generalize getU16 cur = t at h
      generalize getU16 t.2 = w at h
      by_cases hshort : w.2.length < w.1.toNat * 4
      · rw [if_pos hshort] at h
        simp [bind, Except.bind] at h
      rw [if_neg hshort] at h
      cases hext : HandshakeExtension.decode t.1 (w.2.take (w.1.toNat * 4)) with
      | error e => simp [hext, bind, Except.bind] at h
      | ok ext =>
        cases hrest : decodeExtensions fuel (w.2.drop (w.1.toNat * 4)) with
        | error e => simp [hext, hrest, bind, Except.bind] at h
        | ok rest =>
          simp only [hext, hrest, bind, Except.bind] at h
          obtain rfl := Except.ok.inj h
          have hw := w.1.toNat_lt
          have hlen : (w.2.take (w.1.toNat * 4)).length = w.1.toNat * 4 := by
            rw [List.length_take]
            omega
          intro e he
          rcases List.mem_cons.mp he with rfl | he
          · exact conforming_of_decodeExtension (by omega) (by omega) hext
          · exact ih hrest e he
    · obtain rfl := Except.ok.inj h
      simp

/-- A decoded handshake conforms. -/
theorem conforming_of_decode {cif : Bytes} {hs : Handshake} (h : decode cif = .ok hs) :
    ∀ e ∈ hs.extensions, ConformingExtension e := by
  unfold decode at h
  split_ifs at h with hshort
  dsimp only at h
  cases henc : EncryptionField.fromRaw (getU16 (getU32 cif).2).1 with
  | error e => simp [henc, bind, Except.bind] at h
  | ok encryption =>
    simp only [henc, bind, Except.bind] at h
    split at h
    · simp at h
    · next exts hexts =>
      obtain rfl := Except.ok.inj h
      exact conforming_of_decodeExtensions _ hexts

end Handshake

end Srtrust
