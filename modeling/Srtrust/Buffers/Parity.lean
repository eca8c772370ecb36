import Srtrust.Buffers.History
import Srtrust.Library.Toggles

/-! # Parities (`fec.rs`)

A sender clips every packet of its stream and sends a parity with the last packet of each group. The clip
is a running XOR, so the parity of a group less all its members but one is the one. -/
namespace Srtrust
open BigEndian Toggles
set_option autoImplicit false

/-! ## The running XOR -/

namespace Clip

theorem xorInto_length (slots bytes : Bytes) : (xorInto slots bytes).length = slots.length := by
  induction slots generalizing bytes with
  | nil => cases bytes <;> rfl
  | cons slot slots ih =>
    cases bytes with
    | nil => rfl
    | cons byte bytes => exact congrArg (· + 1) (ih bytes)

theorem xorInto_comm (slots a b : Bytes) : xorInto (xorInto slots a) b = xorInto (xorInto slots b) a := by
  induction slots generalizing a b with
  | nil => cases a <;> cases b <;> rfl
  | cons slot slots ih =>
    cases a with
    | nil => cases b <;> rfl
    | cons x a =>
      cases b with
      | nil => rfl
      | cons y b =>
        have hslot : slot ^^^ x ^^^ y = slot ^^^ y ^^^ x := by
          rw [UInt8.xor_assoc, UInt8.xor_comm x y, ← UInt8.xor_assoc]
        simp only [xorInto, hslot, ih a b]

theorem xorInto_undo (slots bytes : Bytes) : xorInto (xorInto slots bytes) bytes = slots := by
  induction slots generalizing bytes with
  | nil => cases bytes <;> rfl
  | cons slot slots ih =>
    cases bytes with
    | nil => rfl
    | cons byte bytes =>
      have hslot : slot ^^^ byte ^^^ byte = slot := by rw [UInt8.xor_assoc, UInt8.xor_self, UInt8.xor_zero]
      simp only [xorInto, hslot, ih bytes]

/-- Into zeros: the bytes themselves, padded. -/
theorem xorInto_zeros (n : ℕ) {bytes : Bytes} (h : bytes.length ≤ n) :
    xorInto (List.replicate n 0) bytes = bytes ++ List.replicate (n - bytes.length) 0 := by
  induction bytes generalizing n with
  | nil => cases n <;> rfl
  | cons byte bytes ih =>
    obtain ⟨m, rfl⟩ : ∃ m, n = m + 1 := ⟨n - 1, by rw [List.length_cons] at h; omega⟩
    have hrest := ih m (by rw [List.length_cons] at h; omega)
    rw [List.replicate_succ, xorInto, hrest, UInt8.zero_xor, List.length_cons, List.cons_append,
      Nat.add_sub_add_right]

theorem add_toggle : Toggle Clip.add where
  comm c x y := by
    simp only [add, xorInto_comm c.payload x.payload y.payload]
    rw [UInt16.xor_assoc, UInt16.xor_comm x.length, ← UInt16.xor_assoc, UInt8.xor_assoc, UInt8.xor_comm x.flags,
      ← UInt8.xor_assoc, UInt32.xor_assoc, UInt32.xor_comm x.timestamp, ← UInt32.xor_assoc]
  undo c x := by
    simp only [add, xorInto_undo]
    rw [UInt16.xor_assoc, UInt16.xor_self, UInt16.xor_zero, UInt8.xor_assoc, UInt8.xor_self, UInt8.xor_zero,
      UInt32.xor_assoc, UInt32.xor_self, UInt32.xor_zero]

theorem foldl_add_payload (members : List FecData) (c : Clip) :
    (members.foldl Clip.add c).payload.length = c.payload.length := by
  induction members generalizing c with
  | nil => rfl
  | cons d members ih =>
    rw [List.foldl_cons, ih (c.add d)]
    exact xorInto_length c.payload d.payload

end Clip

/-- A packet clipped with its true length, and no longer than the clip. -/
structure FecData.Fits (payloadSize : ℕ) (d : FecData) : Prop where
  length : d.length.toNat = d.payload.length
  payload : d.payload.length ≤ payloadSize

instance (payloadSize : ℕ) (d : FecData) : Decidable (d.Fits payloadSize) :=
  decidable_of_iff (d.length.toNat = d.payload.length ∧ d.payload.length ≤ payloadSize)
    ⟨fun h => ⟨h.1, h.2⟩, fun h => ⟨h.1, h.2⟩⟩

/-- The parity of a group. -/
def rowParity (payloadSize : ℕ) (members : List FecData) : FecParity :=
  (members.foldl Clip.add (Clip.new payloadSize)).parity

/-- The parity less all members but one is the one. -/
theorem recoverRow_missing {payloadSize : ℕ} {members present : List FecData} {d : FecData}
    (hperm : members.Perm (d :: present)) (hfits : d.Fits payloadSize) :
    recoverRow members.length payloadSize (rowParity payloadSize members) present = some d := by
  have hpresent : present.length = members.length - 1 := by
    rw [hperm.length_eq, List.length_cons, Nat.add_sub_cancel]
  have hclip : (members.foldl Clip.add (Clip.new payloadSize)).payload.length = payloadSize := by
    rw [Clip.foldl_add_payload]
    exact List.length_replicate
  have hmissing := Clip.add_toggle.foldl_missing (Clip.new payloadSize) hperm
  unfold recoverRow
  rw [if_neg (not_not_intro hpresent)]
  simp only [rowParity, Clip.parity, List.take_left' hclip]
  rw [hmissing]
  have hpadded : (Clip.new payloadSize).payload = List.replicate payloadSize 0 := rfl
  simp only [Clip.add, hpadded, Clip.xorInto_zeros payloadSize hfits.payload]
  simp only [Clip.new, UInt16.zero_xor, UInt8.zero_xor, UInt32.zero_xor, hfits.length,
    Nat.min_eq_left hfits.payload, List.take_left]

theorem decodeParity_encode (p : FecParity) (index : UInt8) :
    decodeParity (p.encode index) p.timestampClip = some (index, p) := by
  have hlong : ¬ (p.encode index).length < Fec.fecHeader := by
    simp only [FecParity.encode, List.length_append, length_putU8, length_putU16, Fec.fecHeader]
    omega
  unfold decodeParity
  rw [if_neg hlong]
  simp only [FecParity.encode, List.append_assoc, getU8_put, getU16_put]

/-! ## What the sender sends -/

namespace FecReceiver

deriving instance DecidableEq for Observation

/-- The data packets of a stream and the parities its encoder completes, each parity under the number of
the packet that completes it. -/
def transmit (e : FecEncoder) (seq : SeqNumber) : List FecData → List Observation
  | [] => []
  | d :: ds =>
    let parity := (e.feed d).1.map fun p => Observation.parity seq (p.encode Fec.rowIndex) p.timestampClip
    .data seq d :: (parity.toList ++ transmit (e.feed d).2 seq.next ds)

/-- A stream of packets as a sender numbers and protects it. -/
structure Sending where
  isn : SeqNumber
  groupSize : ℕ
  payloadSize : ℕ
  stream : List FecData
  two_le : 2 ≤ groupSize
  short : stream.length < 2 ^ 30
  fits : ∀ d ∈ stream, d.Fits payloadSize

namespace Sending

def sent (s : Sending) : List Observation := transmit (FecEncoder.new s.groupSize s.payloadSize) s.isn s.stream

/-- The members of the group with number `k`. -/
def group (s : Sending) (k : ℕ) : List FecData := (s.stream.drop (s.groupSize * k)).take s.groupSize

/-- The parity of that group as it travels. -/
def parity (s : Sending) (k : ℕ) : FecParity := rowParity s.payloadSize (s.group k)

end Sending

theorem feed_full {e : FecEncoder} (h : e.collected + 1 = e.groupSize) (d : FecData) :
    e.feed d = (some (e.clip.add d).parity, { e with clip := (e.clip.add d).reset, collected := 0 }) :=
  if_pos h

theorem feed_within {e : FecEncoder} (h : e.collected + 1 ≠ e.groupSize) (d : FecData) :
    e.feed d = (none, { e with clip := e.clip.add d, collected := e.collected + 1 }) :=
  if_neg h

/-- With `started` clipped already, the packets that follow are numbered from `seq`, and the parities are
those of the groups of the whole. -/
theorem mem_transmit {e : FecEncoder} {payloadSize : ℕ} {started : List FecData}
    (hcollected : e.collected = started.length) (hlt : started.length < e.groupSize)
    (hclip : e.clip = started.foldl Clip.add (Clip.new payloadSize)) {seq : SeqNumber} {ds : List FecData}
    {o : Observation} (ho : o ∈ transmit e seq ds) :
    (∃ i d, ds[i]? = some d ∧ o = .data (seq.add i) d)
      ∨ ∃ k i, e.groupSize * k + e.groupSize = started.length + i + 1 ∧ i < ds.length
        ∧ ∃ p, p = rowParity payloadSize (((started ++ ds).drop (e.groupSize * k)).take e.groupSize)
          ∧ o = .parity (seq.add i) (p.encode Fec.rowIndex) p.timestampClip := by
  induction ds generalizing e started seq with
  | nil => cases ho
  | cons d ds ih =>
    have hadd : e.clip.add d = (started ++ [d]).foldl Clip.add (Clip.new payloadSize) := by
      rw [hclip, List.foldl_append]
      rfl
    have hnext : ∀ i, seq.next.add i = seq.add (i + 1) := by
      intro i
      rw [SeqNumber.next_eq_add, SeqNumber.add_add, Nat.add_comm]
    have hwhole : started ++ d :: ds = (started ++ [d]) ++ ds := by simp
    rw [transmit] at ho
    by_cases hfull : e.collected + 1 = e.groupSize
    · have hlength : (started ++ [d]).length = e.groupSize := by
        rw [List.length_append, List.length_singleton, ← hcollected]
        exact hfull
      have hreset : (e.clip.add d).reset = Clip.new payloadSize := by
        have hpayload : (e.clip.add d).payload.length = payloadSize := by
          rw [hadd, Clip.foldl_add_payload]
          exact List.length_replicate
        rw [Clip.reset, hpayload, Clip.new]
      simp only [feed_full hfull, hreset, List.mem_cons, List.mem_append, Option.map_some, Option.toList_some,
        List.not_mem_nil, or_false] at ho
      rcases ho with rfl | rfl | ho
      · exact .inl ⟨0, d, rfl, by rw [SeqNumber.add_zero]⟩
      · refine .inr ⟨0, 0, by omega, by simp, _, rfl, ?_⟩
        rw [Nat.mul_zero, List.drop_zero, hwhole, List.take_left' hlength, SeqNumber.add_zero, hadd]
        rfl
      · -- the next group starts with the next packet
        rcases @ih _ [] rfl (by have := e.two_le; simp only [List.length_nil]; omega) rfl _ ho with
          ⟨i, d', hd', rfl⟩ | ⟨k, i, hindex, hi, p, hp, rfl⟩
        · exact .inl ⟨i + 1, d', hd', by rw [hnext]⟩
        · simp only [List.length_nil, List.nil_append] at hindex hp
          refine .inr ⟨k + 1, i + 1, ?_, by simp only [List.length_cons]; omega, p, ?_, by rw [hnext]⟩
          · rw [Nat.mul_succ]
            omega
          · have hdrop : ((started ++ [d]) ++ ds).drop (e.groupSize * k + e.groupSize) = ds.drop (e.groupSize * k) := by
              rw [Nat.add_comm, ← List.drop_drop, List.drop_left' hlength]
            rw [hp, hwhole, Nat.mul_succ, hdrop]
    · simp only [feed_within hfull, List.mem_cons, Option.map_none, Option.toList_none, List.nil_append] at ho
      rcases ho with rfl | ho
      · exact .inl ⟨0, d, rfl, by rw [SeqNumber.add_zero]⟩
      · have hmore : (started ++ [d]).length = started.length + 1 := by simp
        rcases @ih _ (started ++ [d]) (by simp [hcollected]) (by simp only [hmore]; omega) hadd _ ho with
          ⟨i, d', hd', rfl⟩ | ⟨k, i, hindex, hi, p, hp, rfl⟩
        · exact .inl ⟨i + 1, d', hd', by rw [hnext]⟩
        · refine .inr ⟨k, i + 1, ?_, by simp only [List.length_cons]; omega, p, ?_, by rw [hnext]⟩
          · rw [hmore] at hindex
            dsimp only at hindex
            omega
          · rw [hp, hwhole]

namespace Sending

/-- A packet under its number, or the parity of a complete group under the number of its last member. -/
theorem mem_sent {s : Sending} {o : Observation} (ho : o ∈ s.sent) :
    (∃ i d, s.stream[i]? = some d ∧ o = .data (s.isn.add i) d)
      ∨ ∃ k, s.groupSize * k + s.groupSize ≤ s.stream.length
        ∧ o = .parity (s.isn.add (s.groupSize * k + (s.groupSize - 1))) ((s.parity k).encode Fec.rowIndex)
          (s.parity k).timestampClip := by
  have hsize : (FecEncoder.new s.groupSize s.payloadSize).groupSize = s.groupSize := Nat.max_eq_left s.two_le
  have htwo := s.two_le
  rcases @mem_transmit _ s.payloadSize [] rfl (by rw [hsize, List.length_nil]; omega) rfl _ _ _ ho with
    hdata | ⟨k, i, hindex, hi, p, hp, rfl⟩
  · exact .inl hdata
  · rw [hsize, List.length_nil] at hindex
    rw [hsize, List.nil_append] at hp
    obtain rfl : i = s.groupSize * k + (s.groupSize - 1) := by omega
    obtain rfl : p = s.parity k := hp
    exact .inr ⟨k, by omega, rfl⟩

/-- Positions of the stream are told apart by their numbers. -/
theorem add_inj (s : Sending) {i j : ℕ} (hi : i < s.stream.length) (hj : j < s.stream.length)
    (he : s.isn.add i = s.isn.add j) : i = j := by
  have hshort := s.short
  apply SeqNumber.add_inj s.isn i j _ he
  rw [abs_lt]
  constructor <;> omega

theorem group_length {s : Sending} {k : ℕ} (hk : s.groupSize * k + s.groupSize ≤ s.stream.length) :
    (s.group k).length = s.groupSize := by
  rw [group, List.length_take, List.length_drop]
  omega

/-- Groups do not overlap. -/
theorem group_unique (s : Sending) {i k k' : ℕ} (hlo : s.groupSize * k ≤ i) (hhi : i < s.groupSize * k + s.groupSize)
    (hlo' : s.groupSize * k' ≤ i) (hhi' : i < s.groupSize * k' + s.groupSize) : k = k' := by
  have hquot : ∀ q, s.groupSize * q ≤ i → i < s.groupSize * q + s.groupSize → i / s.groupSize = q := by
    intro q hq hq'
    rw [Nat.mul_comm] at hq hq'
    exact Nat.div_eq_of_lt_le hq (by rw [Nat.succ_mul]; exact hq')
  rw [← hquot k hlo hhi, ← hquot k' hlo' hhi']

/-- Groups are told apart by the numbers of their first members. -/
theorem base_inj (s : Sending) {k k' : ℕ} (hk : s.groupSize * k + s.groupSize ≤ s.stream.length)
    (hk' : s.groupSize * k' + s.groupSize ≤ s.stream.length)
    (he : s.isn.add (s.groupSize * k) = s.isn.add (s.groupSize * k')) : k = k' := by
  have htwo := s.two_le
  have hbase := s.add_inj (by omega) (by omega) he
  exact s.group_unique (le_refl _) (by omega) (by omega) (by omega)

/-- What the receiver returns for a packet of the stream. -/
def rebuilt (s : Sending) (i : ℕ) (d : FecData) : RecoveredPacket :=
  ⟨s.isn.add i, d.timestamp, d.flags, d.payload⟩

end Sending

end FecReceiver

end Srtrust
