import Srtrust.Wire.Seq
import Srtrust.Wire.Error

/-! # NAK loss lists (`loss_list.rs`)

A loss list is a string of 32-bit words: a word with a clear high bit is one lost
sequence number, a word with a set high bit starts an inclusive range that the next word
ends. A list of ranges is what decoding its encoding gives back. -/
namespace Srtrust
open BigEndian
set_option autoImplicit false

/-- An inclusive range of lost sequence numbers; a single loss has equal ends. -/
structure LossRange where
  start : SeqNumber
  stop : SeqNumber
deriving DecidableEq, Repr

namespace LossRange

def single (seq : SeqNumber) : LossRange := ⟨seq, seq⟩

def isSingle (r : LossRange) : Bool := r.start.value == r.stop.value

end LossRange

namespace LossList

/-- `RANGE_FLAG`: high bit of a range-start word. -/
def rangeFlag : UInt32 := 0x80000000

def encodeRange (r : LossRange) : Bytes :=
  if r.isSingle then putU32 r.start.value
  else putU32 (r.start.value ||| rangeFlag) ++ putU32 r.stop.value

def encode (ranges : List LossRange) : Bytes := ranges.flatMap encodeRange

/-- The decoding loop; a word is consumed per unit of fuel. -/
def decodeLoop : ℕ → Bytes → Except LossListError (List LossRange)
  | 0, _ => .ok []
  | fuel + 1, cur =>
    if cur.isEmpty then .ok []
    else
      let (word, cur) := getU32 cur
      if word &&& rangeFlag ≠ 0 then
        if cur.length < 4 then .error .truncatedRange
        else do
          let (stop, cur) := getU32 cur
          let rest ← decodeLoop fuel cur
          .ok (⟨SeqNumber.new word, SeqNumber.new stop⟩ :: rest)
      else do
        let rest ← decodeLoop fuel cur
        .ok (LossRange.single (SeqNumber.new word) :: rest)

def decode (buf : Bytes) : Except LossListError (List LossRange) :=
  if buf.length % 4 ≠ 0 then .error (.misaligned buf.length)
  else decodeLoop buf.length buf

/-! ## Decoding an encoded list -/

theorem value_or_rangeFlag (s : SeqNumber) :
    (s.value ||| rangeFlag).toNat = s.val + 0x80000000 := by
  rw [UInt32.toNat_or, SeqNumber.value_toNat, Nat.or_comm, Nat.add_comm]
  exact shift_or 1 s.val 31 s.lt

theorem and_rangeFlag (w : UInt32) : w &&& rangeFlag = 0 ↔ w.toNat < 0x80000000 := by
  have hw := w.toNat_lt
  refine (and_flag_eq_zero w 31 (by norm_num)).trans ?_
  omega

theorem new_or_rangeFlag (s : SeqNumber) : SeqNumber.new (s.value ||| rangeFlag) = s := by
  apply SeqNumber.ext
  have h := s.lt
  simp only [SeqNumber.new, value_or_rangeFlag]
  omega

theorem isSingle_iff (r : LossRange) : r.isSingle = true ↔ r.start = r.stop := by
  rw [LossRange.isSingle, beq_iff_eq, SeqNumber.value_inj]

theorem length_encodeRange (r : LossRange) :
    (encodeRange r).length = 4 ∨ (encodeRange r).length = 8 := by
  unfold encodeRange
  split <;> simp

theorem length_encode (rs : List LossRange) : (encode rs).length % 4 = 0 := by
  induction rs with
  | nil => rfl
  | cons r rs ih =>
    have h := length_encodeRange r
    simp only [encode, List.flatMap_cons, List.length_append] at ih ⊢
    omega

theorem decodeLoop_encodeRange (fuel : ℕ) (r : LossRange) (rest : Bytes) :
    decodeLoop (fuel + 1) (encodeRange r ++ rest) =
      (do let rs ← decodeLoop fuel rest; .ok (r :: rs)) := by
  by_cases hs : r.isSingle
  · have he : encodeRange r = putU32 r.start.value := by simp [encodeRange, hs]
    have hf : r.start.value &&& rangeFlag = 0 := by
      rw [and_rangeFlag, SeqNumber.value_toNat]; exact r.start.lt
    have hr : LossRange.single r.start = r := by
      rw [isSingle_iff] at hs
      cases r; simp_all [LossRange.single]
    rw [he, decodeLoop, if_neg (by simp [putU32])]
    simp [hf, hr]
  · have he : encodeRange r = putU32 (r.start.value ||| rangeFlag) ++ putU32 r.stop.value := by
      simp [encodeRange, hs]
    have hf : ¬ (r.start.value ||| rangeFlag) &&& rangeFlag = 0 := by
      rw [and_rangeFlag, value_or_rangeFlag]; omega
    rw [he, decodeLoop, if_neg (by simp [putU32])]
    simp [hf, new_or_rangeFlag, List.append_assoc]

theorem decodeLoop_encode (rs : List LossRange) (fuel : ℕ) (hf : (encode rs).length ≤ fuel) :
    decodeLoop fuel (encode rs) = .ok rs := by
  induction rs generalizing fuel with
  | nil => cases fuel <;> rfl
  | cons r rs ih =>
    have hl := length_encodeRange r
    simp only [encode, List.flatMap_cons, List.length_append] at hf ⊢
    obtain ⟨f, rfl⟩ : ∃ f, fuel = f + 1 := ⟨fuel - 1, by omega⟩
    rw [decodeLoop_encodeRange]
    have h := ih f (by simp only [encode]; omega)
    simp only [encode] at h
    rw [h]
    rfl

@[simp] theorem decode_encode (rs : List LossRange) : decode (encode rs) = .ok rs := by
  rw [decode, if_neg (by simp [length_encode])]
  exact decodeLoop_encode rs _ le_rfl

end LossList

end Srtrust
