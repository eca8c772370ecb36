import Srtrust.Wire.Packet

/-! # Row forward error correction (`fec.rs`)

A group of consecutive data packets yields one parity packet, the XOR of the members'
lengths, key flags, timestamps and zero-padded payloads; a receiver that holds the parity
and all members but one rebuilds the missing one. The receiver's two ordered maps are
association lists here: no operation depends on their order. -/
namespace Srtrust
open BigEndian
set_option autoImplicit false

namespace Fec

/-- `ROW_INDEX`, `-1` as a byte. -/
def rowIndex : UInt8 := 0xFF

/-- `FEC_HEADER`. -/
def fecHeader : ℕ := 4

/-- `RCV_HISTORY_GROUPS`. -/
def rcvHistoryGroups : ℕ := 8

end Fec

/-- The clipped fields of one packet (`FecData`, and `StoredData` in the receiver's map). -/
structure FecData where
  length : UInt16
  flags : UInt8
  timestamp : UInt32
  payload : Bytes
deriving DecidableEq, Repr

structure FecParity where
  lengthClip : UInt16
  flagClip : UInt8
  timestampClip : UInt32
  payloadClip : Bytes
deriving DecidableEq, Repr

/-- The running XOR of a group. -/
structure Clip where
  length : UInt16
  flags : UInt8
  timestamp : UInt32
  payload : Bytes
deriving DecidableEq, Repr

namespace Clip

def new (payloadSize : ℕ) : Clip := ⟨0, 0, 0, List.replicate payloadSize 0⟩

/-- XORs `bytes` into the accumulator; what runs past its end is cut off. -/
def xorInto : Bytes → Bytes → Bytes
  | slot :: slots, byte :: bytes => (slot ^^^ byte) :: xorInto slots bytes
  | slots, [] => slots
  | [], _ => []

def add (c : Clip) (data : FecData) : Clip :=
  ⟨c.length ^^^ data.length, c.flags ^^^ data.flags, c.timestamp ^^^ data.timestamp,
    xorInto c.payload data.payload⟩

def parity (c : Clip) : FecParity := ⟨c.length, c.flags, c.timestamp, c.payload⟩

def reset (c : Clip) : Clip := ⟨0, 0, 0, List.replicate c.payload.length 0⟩

end Clip

structure FecEncoder where
  groupSize : ℕ
  clip : Clip
  collected : ℕ
  two_le : 2 ≤ groupSize
deriving DecidableEq

namespace FecEncoder

def new (groupSize payloadSize : ℕ) : FecEncoder :=
  ⟨max groupSize 2, Clip.new payloadSize, 0, Nat.le_max_right _ _⟩

/-- `feed`: a full group yields its parity and starts afresh. -/
def feed (e : FecEncoder) (data : FecData) : Option FecParity × FecEncoder :=
  let clip := e.clip.add data
  let collected := e.collected + 1
  if collected = e.groupSize then
    (some clip.parity, { e with clip := clip.reset, collected := 0 })
  else (none, { e with clip, collected })

end FecEncoder

/-- `FecParity::encode`: index, flags, length, payload. -/
def FecParity.encode (p : FecParity) (groupIndex : UInt8) : Bytes :=
  putU8 groupIndex ++ putU8 p.flagClip ++ putU16 p.lengthClip ++ p.payloadClip

/-- `decode_parity`. -/
def decodeParity (payload : Bytes) (timestampClip : UInt32) : Option (UInt8 × FecParity) :=
  if payload.length < Fec.fecHeader then none
  else
    let (groupIndex, r) := getU8 payload
    let (flagClip, r) := getU8 r
    let (lengthClip, payloadClip) := getU16 r
    some (groupIndex, { lengthClip, flagClip, timestampClip, payloadClip })

/-- `recover_row`: XORs the survivors out of the parity. -/
def recoverRow (groupSize payloadSize : ℕ) (parity : FecParity) (present : List FecData) :
    Option FecData :=
  if present.length ≠ groupSize - 1 then none
  else
    let start : Clip :=
      ⟨parity.lengthClip, parity.flagClip, parity.timestampClip,
        (parity.payloadClip ++ List.replicate payloadSize 0).take payloadSize⟩
    let clip := present.foldl Clip.add start
    some ⟨clip.length, clip.flags, clip.timestamp,
      clip.payload.take (min clip.length.toNat payloadSize)⟩

structure RecoveredPacket where
  seq : SeqNumber
  timestamp : UInt32
  flags : UInt8
  payload : Bytes
deriving DecidableEq, Repr

structure FecReceiver where
  groupSize : ℕ
  payloadSize : ℕ
  data : List (SeqNumber × FecData)
  /-- Parities by the base sequence number of their group. -/
  parities : List (SeqNumber × FecParity)
  two_le : 2 ≤ groupSize
deriving DecidableEq

namespace FecReceiver

def new (groupSize payloadSize : ℕ) : FecReceiver :=
  ⟨max groupSize 2, payloadSize, [], [], Nat.le_max_right _ _⟩

/-- `BTreeMap::insert`. -/
def mapInsert {V : Type} (m : List (SeqNumber × V)) (k : SeqNumber) (v : V) :
    List (SeqNumber × V) :=
  (k, v) :: m.filter (·.1 ≠ k)

/-- `BTreeMap::get`. -/
def mapGet {V : Type} (m : List (SeqNumber × V)) (k : SeqNumber) : Option V :=
  (m.find? (·.1 = k)).map (·.2)

/-- The members held for the `n` sequence numbers from `seq` on, and the one that is not;
`none` when two or more are absent. -/
def survey (data : List (SeqNumber × FecData)) :
    ℕ → SeqNumber → List FecData → Option SeqNumber → Option (List FecData × Option SeqNumber)
  | 0, _, present, missing => some (present, missing)
  | n + 1, seq, present, missing =>
    match mapGet data seq with
    | some d => survey data n seq.next (present ++ [d]) missing
    | none =>
      match missing with
      | some _ => none
      | none => survey data n seq.next present (some seq)

/-- `try_group`: rebuilds the missing member of the group based at `base`. -/
def tryGroup (f : FecReceiver) (base : SeqNumber) : FecReceiver × List RecoveredPacket :=
  match mapGet f.parities base with
  | none => (f, [])
  | some parity =>
    match survey f.data f.groupSize base [] none with
    | some (present, some missing) =>
      match recoverRow f.groupSize f.payloadSize parity present with
      | none => (f, [])
      | some rec =>
        ({ f with
            parities := f.parities.filter (·.1 ≠ base)
            data := mapInsert f.data missing rec },
          [⟨missing, rec.timestamp, rec.flags, rec.payload⟩])
    | _ => (f, [])

/-- `evict`: entries at least eight groups behind the newest go. -/
def evict (f : FecReceiver) (newest : SeqNumber) : FecReceiver :=
  let window : ℤ := min (f.groupSize * Fec.rcvHistoryGroups : ℕ) 0x7FFFFFFF
  { f with
    data := f.data.filter fun e => newest.offsetFrom e.1 < window
    parities := f.parities.filter fun e => newest.offsetFrom e.1 < window }

/-- Tries the `n` groups based at `base` and before. -/
def tryGroups : ℕ → FecReceiver → SeqNumber → FecReceiver × List RecoveredPacket
  | 0, f, _ => (f, [])
  | n + 1, f, base =>
    let (f, recovered) := f.tryGroup base
    let (f, more) := tryGroups n f base.prev
    (f, recovered ++ more)

def observeData (f : FecReceiver) (seq : SeqNumber) (d : FecData) :
    FecReceiver × List RecoveredPacket :=
  let f := { f with data := mapInsert f.data seq d }
  let (f, recovered) := tryGroups f.groupSize f seq
  (f.evict seq, recovered)

/-- The sequence number `n` before `seq`, one step at a time. -/
def prevN : ℕ → SeqNumber → SeqNumber
  | 0, seq => seq
  | n + 1, seq => prevN n seq.prev

def observeParity (f : FecReceiver) (fecSeq : SeqNumber) (payload : Bytes)
    (timestampClip : UInt32) : FecReceiver × List RecoveredPacket :=
  match decodeParity payload timestampClip with
  | none => (f, [])
  | some (index, parity) =>
    if index ≠ Fec.rowIndex then (f, []) -- only row parities are built
    else
      let base := prevN (f.groupSize - 1) fecSeq
      let f := { f with parities := mapInsert f.parities base parity }
      let (f, recovered) := f.tryGroup base
      (f.evict fecSeq, recovered)

end FecReceiver

end Srtrust
