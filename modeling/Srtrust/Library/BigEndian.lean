import Mathlib.Tactic
import Mathlib.Data.Nat.Bitwise

/-! Fixed-width unsigned words in byte strings, most significant byte first: what a
`put` appends and what a `get` takes off the front, with the laws that a `get` undoes a
`put` and that every word has its width.

A `get` on a string that is too short returns zero and the empty rest; callers test the
length first, as a byte cursor's users must. -/
namespace BigEndian
set_option autoImplicit false

abbrev Bytes := List UInt8

def putU8 (v : UInt8) : Bytes := [v]

def putU16 (v : UInt16) : Bytes :=
  [UInt8.ofNat (v.toNat / 256), UInt8.ofNat v.toNat]

def putU32 (v : UInt32) : Bytes :=
  [UInt8.ofNat (v.toNat / 16777216), UInt8.ofNat (v.toNat / 65536),
    UInt8.ofNat (v.toNat / 256), UInt8.ofNat v.toNat]

def getU8 : Bytes → UInt8 × Bytes
  | a :: rest => (a, rest)
  | [] => (0, [])

def getU16 : Bytes → UInt16 × Bytes
  | a :: b :: rest => (UInt16.ofNat (a.toNat * 256 + b.toNat), rest)
  | _ => (0, [])

def getU32 : Bytes → UInt32 × Bytes
  | a :: b :: c :: d :: rest =>
    (UInt32.ofNat (a.toNat * 16777216 + b.toNat * 65536 + c.toNat * 256 + d.toNat), rest)
  | _ => (0, [])

/-- A byte string of fixed length. -/
structure Block (n : ℕ) where
  bytes : Bytes
  length_eq : bytes.length = n
deriving DecidableEq, Repr

/-- `n` zero bytes. -/
def Block.zero (n : ℕ) : Block n := ⟨List.replicate n 0, List.length_replicate⟩

/-- Takes a block off the front; a short string is filled with zeros. -/
def getBlock (n : ℕ) (bs : Bytes) : Block n × Bytes :=
  (⟨(bs ++ List.replicate n 0).take n, by simp⟩, bs.drop n)

/-! ## Widths -/

@[simp] theorem length_putU8 (v : UInt8) : (putU8 v).length = 1 := rfl
@[simp] theorem length_putU16 (v : UInt16) : (putU16 v).length = 2 := rfl
@[simp] theorem length_putU32 (v : UInt32) : (putU32 v).length = 4 := rfl

/-! ## A `get` undoes a `put` -/

@[simp] theorem getU8_put (v : UInt8) (rest : Bytes) : getU8 (putU8 v ++ rest) = (v, rest) := rfl

@[simp] theorem getU16_put (v : UInt16) (rest : Bytes) : getU16 (putU16 v ++ rest) = (v, rest) := by
  simp only [putU16, List.cons_append, List.nil_append, getU16, Prod.mk.injEq, and_true]
  apply UInt16.toNat_inj.mp
  have hv := v.toNat_lt
  simp only [UInt16.toNat_ofNat', UInt8.toNat_ofNat']
  omega

@[simp] theorem getU32_put (v : UInt32) (rest : Bytes) : getU32 (putU32 v ++ rest) = (v, rest) := by
  simp only [putU32, List.cons_append, List.nil_append, getU32, Prod.mk.injEq, and_true]
  apply UInt32.toNat_inj.mp
  have hv := v.toNat_lt
  simp only [UInt32.toNat_ofNat', UInt8.toNat_ofNat']
  omega

@[simp] theorem getU32_put_nil (v : UInt32) : getU32 (putU32 v) = (v, []) := by
  simpa using getU32_put v []

@[simp] theorem getBlock_append {n : ℕ} (b : Block n) (rest : Bytes) :
    getBlock n (b.bytes ++ rest) = (b, rest) := by
  obtain ⟨bytes, rfl⟩ := b
  simp [getBlock]

/-! ## Flags in a word -/

theorem and_two_pow_eq_zero (x i : ℕ) : x &&& 2 ^ i = 0 ↔ x / 2 ^ i % 2 = 0 := by
  rw [Nat.and_two_pow, Nat.testBit_eq_decide_div_mod_eq]
  have hp : 0 < 2 ^ i := Nat.two_pow_pos i
  have hm : x / 2 ^ i % 2 < 2 := Nat.mod_lt _ (by norm_num)
  by_cases h : x / 2 ^ i % 2 = 1
  · simp [h]
  · simp only [h, decide_false, Bool.toNat_false, Nat.zero_mul, true_iff]
    omega

/-- Testing one bit of a number, as arithmetic on it. -/
theorem and_shift_ne_zero (x i : ℕ) (b : Bool) (h : x / 2 ^ i % 2 = b.toNat) :
    (x &&& (1 <<< i) != 0) = b := by
  have hz := and_two_pow_eq_zero x i
  rw [Nat.one_shiftLeft]
  cases b with
  | false => simp [hz.mpr h]
  | true =>
    have hne : ¬ x &&& 2 ^ i = 0 := fun he => by
      have h0 := hz.mp he
      simp only [Bool.toNat_true] at h
      omega
    simp [hne]

/-- A single-bit flag of a 32-bit word, as arithmetic on its value. -/
theorem and_flag_eq_zero (w : UInt32) (i : ℕ) (hi : i < 32) :
    w &&& UInt32.ofNat (2 ^ i) = 0 ↔ w.toNat / 2 ^ i % 2 = 0 := by
  have hp : 2 ^ i % 2 ^ 32 = 2 ^ i := Nat.mod_eq_of_lt (Nat.pow_lt_pow_right (by norm_num) hi)
  rw [← UInt32.toNat_inj, UInt32.toNat_and, UInt32.toNat_ofNat', hp]
  exact and_two_pow_eq_zero w.toNat i

/-- Setting bits above a field adds them. -/
theorem shift_or (a b i : ℕ) (hb : b < 2 ^ i) : (a <<< i) ||| b = a * 2 ^ i + b := by
  rw [Nat.shiftLeft_eq, Nat.mul_comm, ← Nat.two_pow_add_eq_or_of_lt hb]

end BigEndian
