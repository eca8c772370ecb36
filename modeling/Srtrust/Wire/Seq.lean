import Srtrust.Library.Cyclic

/-! # Sequence numbers (`seq.rs`)

A data sequence number is 31 bits wide and wraps; two of them are compared circularly,
under the assumption that they are less than half the space apart. The model carries the
31-bit bound in the type. `SeqNumber.add isn` maps stream positions to sequence numbers,
and the lemmas at the end say how the circular operations act on positions: that is the
only form in which the rest of the development uses them. -/
namespace Srtrust
set_option autoImplicit false

/-- `SeqNumber(u32)`, always at most `SeqNumber::MAX`. -/
structure SeqNumber where
  val : ℕ
  lt : val < 0x80000000
deriving DecidableEq, Repr

/-- `core::cmp::Ordering`. -/
inductive Ordering3
  | less
  | equal
  | greater
deriving DecidableEq, Repr

namespace SeqNumber

/-- `SeqNumber::new`: keeps the low 31 bits. -/
def new (value : UInt32) : SeqNumber := ⟨value.toNat % 0x80000000, Nat.mod_lt _ (by norm_num)⟩

def value (s : SeqNumber) : UInt32 := UInt32.ofNat s.val

def next (s : SeqNumber) : SeqNumber := ⟨(s.val + 1) % 0x80000000, Nat.mod_lt _ (by norm_num)⟩

/-- `self.0.wrapping_sub(1) & MASK`. -/
def prev (s : SeqNumber) : SeqNumber :=
  ⟨(s.val + 0x100000000 - 1) % 0x100000000 % 0x80000000, Nat.mod_lt _ (by norm_num)⟩

/-- `offset_from`: signed circular distance from `other` to `self`. -/
def offsetFrom (s other : SeqNumber) : ℤ :=
  let forward := (s.val + 0x100000000 - other.val) % 0x100000000 % 0x80000000
  if forward ≤ 0x3FFFFFFF then (forward : ℤ) else (forward : ℤ) - 0x80000000

/-- `circular_cmp`: the sign of `offset_from`. -/
def circularCmp (s other : SeqNumber) : Ordering3 :=
  if s.offsetFrom other > 0 then .greater
  else if s.offsetFrom other < 0 then .less
  else .equal

/-- `Add<u32>`: advance by `n`, wrapping within the 31-bit space. -/
def add (s : SeqNumber) (n : ℕ) : SeqNumber :=
  ⟨(s.val + n) % 0x80000000, Nat.mod_lt _ (by norm_num)⟩

@[ext] theorem ext {a b : SeqNumber} (h : a.val = b.val) : a = b := by
  cases a; cases b; simp_all

theorem value_toNat (s : SeqNumber) : s.value.toNat = s.val := by
  have h := s.lt
  simp only [value, UInt32.toNat_ofNat']
  omega

theorem value_inj {a b : SeqNumber} : a.value = b.value ↔ a = b := by
  constructor
  · intro h
    apply ext
    rw [← value_toNat, ← value_toNat, h]
  · intro h
    rw [h]

@[simp] theorem new_value (s : SeqNumber) : new s.value = s := by
  apply ext
  have h := s.lt
  simp only [new, value, UInt32.toNat_ofNat']
  omega

/-! ## The circle of the library -/

theorem offsetFrom_eq_signed (s other : SeqNumber) :
    s.offsetFrom other = Cyclic.signed 0x40000000 s.val other.val := by
  have h1 := s.lt
  have h2 := other.lt
  unfold offsetFrom Cyclic.signed Cyclic.forward
  have e : (s.val + 0x100000000 - other.val) % 0x100000000 % 0x80000000 =
      (s.val + 2 * 0x40000000 - other.val) % (2 * 0x40000000) := by omega
  simp only [e]
  split_ifs <;> omega

/-! ## Positions in a stream

`isn.add i` is the sequence number of the `i`-th packet of a stream that starts at `isn`. -/

theorem add_val_residue (isn : SeqNumber) (i : ℕ) :
    (isn.add i).val = Cyclic.residue 0x40000000 ((isn.val : ℤ) + i) := by
  have e : ((isn.val : ℤ) + i) = ((isn.val + i : ℕ) : ℤ) := by push_cast; rfl
  rw [e, Cyclic.residue_natCast]
  simp [add]

@[simp] theorem add_zero (isn : SeqNumber) : isn.add 0 = isn := by
  apply ext
  have h := isn.lt
  simp only [add]
  omega

theorem add_add (isn : SeqNumber) (i j : ℕ) : (isn.add i).add j = isn.add (i + j) := by
  apply ext
  simp only [add]
  omega

theorem add_right_cancel {a b : SeqNumber} {n : ℕ} (h : a.add n = b.add n) : a = b := by
  apply ext
  have ha := a.lt
  have hb := b.lt
  have hv := congrArg val h
  simp only [add] at hv
  omega

theorem next_eq_add (s : SeqNumber) : s.next = s.add 1 := rfl

@[simp] theorem next_add (isn : SeqNumber) (i : ℕ) : (isn.add i).next = isn.add (i + 1) := by
  rw [next_eq_add, add_add]

@[simp] theorem prev_next (s : SeqNumber) : s.next.prev = s := by
  apply ext
  have h := s.lt
  simp only [prev, next]
  omega

/-- Offsets between positions less than half the space apart are position differences. -/
theorem offsetFrom_add (isn : SeqNumber) (i j : ℕ) (hlo : (j : ℤ) - i ≤ 0x40000000)
    (hhi : (i : ℤ) - j < 0x40000000) : (isn.add i).offsetFrom (isn.add j) = (i : ℤ) - j := by
  rw [offsetFrom_eq_signed, add_val_residue, add_val_residue,
    Cyclic.signed_residue _ (by norm_num) _ _ (by push_cast; omega) (by push_cast; omega)]
  omega

/-- Positions less than a whole turn apart share a sequence number only when they are equal. -/
theorem add_inj (isn : SeqNumber) (i j : ℕ) (hlt : |(i : ℤ) - j| < 0x80000000)
    (he : isn.add i = isn.add j) : i = j := by
  have hv := congrArg SeqNumber.val he
  rw [add_val_residue, add_val_residue] at hv
  have h := Cyclic.residue_inj 0x40000000 (by norm_num) _ _
    (by push_cast; ring_nf; ring_nf at hlt; exact hlt) hv
  omega

theorem circularCmp_less_iff (a b : SeqNumber) : a.circularCmp b = .less ↔ a.offsetFrom b < 0 := by
  unfold circularCmp
  split_ifs <;> simp <;> omega

theorem circularCmp_greater_iff (a b : SeqNumber) :
    a.circularCmp b = .greater ↔ 0 < a.offsetFrom b := by
  unfold circularCmp
  split_ifs <;> simp <;> omega

/-- The circular distance never reaches half the space, on either side. -/
theorem offsetFrom_bounds (a b : SeqNumber) :
    -0x40000000 ≤ a.offsetFrom b ∧ a.offsetFrom b ≤ 0x3FFFFFFF := by
  unfold offsetFrom
  have h1 : (a.val + 0x100000000 - b.val) % 0x100000000 % 0x80000000 < 0x80000000 :=
    Nat.mod_lt _ (by norm_num)
  dsimp only
  split_ifs <;> omega

/-- A nonnegative offset is a position ahead: `a` is `offset` steps after `b`. -/
theorem eq_add_of_offsetFrom (a b : SeqNumber) (n : ℕ) (h : a.offsetFrom b = n) : a = b.add n := by
  apply ext
  have h1 := a.lt
  have h2 := b.lt
  unfold offsetFrom at h
  simp only [add]
  dsimp only at h
  split_ifs at h <;> omega

/-! ## Integers and their reductions -/

/-- The 31-bit reduction of an integer. -/
def reduce (x : ℤ) : SeqNumber :=
  ⟨Cyclic.residue 0x40000000 x, Cyclic.residue_lt 0x40000000 (by norm_num) x⟩

theorem offsetFrom_reduce (x y : ℤ) (hlo : -0x40000000 ≤ x - y) (hhi : x - y < 0x40000000) :
    (reduce x).offsetFrom (reduce y) = x - y := by
  rw [offsetFrom_eq_signed]
  apply Cyclic.signed_residue _ (by norm_num)
  · exact_mod_cast hlo
  · exact_mod_cast hhi

theorem reduce_add (x : ℤ) (n : ℕ) : (reduce x).add n = reduce (x + n) := by
  apply ext
  have hx := Cyclic.residue_cast 0x40000000 (by norm_num) x
  have hxn := Cyclic.residue_cast 0x40000000 (by norm_num) (x + n)
  simp only [add, reduce]
  omega

theorem reduce_next (x : ℤ) : (reduce x).next = reduce (x + 1) := by
  rw [next_eq_add, reduce_add, Nat.cast_one]

theorem reduce_prev (x : ℤ) : (reduce x).prev = reduce (x - 1) := by
  rw [← prev_next (reduce (x - 1)), reduce_next, Int.sub_add_cancel]

/-- Every number is a reduction of an integer in half the space around `x`. -/
theorem reduce_offsetFrom (x : ℤ) (s : SeqNumber) : reduce (x + s.offsetFrom (reduce x)) = s := by
  apply ext
  have hs := s.lt
  have hx := Cyclic.residue_cast 0x40000000 (by norm_num) x
  have hd := Cyclic.residue_cast 0x40000000 (by norm_num) (x + s.offsetFrom (reduce x))
  have hval : (reduce (x + s.offsetFrom (reduce x))).val
      = Cyclic.residue 0x40000000 (x + s.offsetFrom (reduce x)) := rfl
  have hred : (reduce x).val = Cyclic.residue 0x40000000 x := rfl
  rw [hval]
  unfold offsetFrom at hd ⊢
  rw [hred] at hd ⊢
  dsimp only at hd ⊢
  split_ifs at hd ⊢ <;> omega

/-- The comparison of integers that `circular_cmp` stands for. -/
def compareInt (x y : ℤ) : Ordering3 :=
  if y < x then .greater else if x < y then .less else .equal

theorem circularCmp_reduce (x y : ℤ) (hlo : -0x40000000 ≤ x - y) (hhi : x - y < 0x40000000) :
    (reduce x).circularCmp (reduce y) = compareInt x y := by
  unfold circularCmp compareInt
  rw [offsetFrom_reduce x y hlo hhi]
  by_cases hgt : y < x
  · rw [if_pos hgt, if_pos (by omega)]
  · by_cases hlt : x < y
    · rw [if_neg hgt, if_pos hlt, if_neg (by omega), if_pos (by omega)]
    · rw [if_neg hgt, if_neg hlt, if_neg (by omega), if_neg (by omega)]

theorem circularCmp_reduce_less (x y : ℤ) (hlo : -0x40000000 ≤ x - y) (hhi : x - y < 0x40000000) :
    (reduce x).circularCmp (reduce y) = .less ↔ x < y := by
  rw [circularCmp_less_iff, offsetFrom_reduce x y hlo hhi]
  omega

/-- Inside half the space the circular comparison is a strict total order. -/
theorem window_order (w : ℤ) :
    IsStrictTotalOrder {s : SeqNumber // ∃ x, w ≤ x ∧ x < w + 0x40000000 ∧ s = reduce x}
      fun a b => a.1.circularCmp b.1 = .less where
  trichotomous := by
    rintro ⟨a, x, hx, hx', rfl⟩ ⟨b, y, hy, hy', rfl⟩ hab hba
    rw [circularCmp_reduce_less x y (by omega) (by omega)] at hab
    rw [circularCmp_reduce_less y x (by omega) (by omega)] at hba
    have he : x = y := by omega
    subst he
    rfl
  irrefl := by
    rintro ⟨a, x, hx, hx', rfl⟩ h
    rw [circularCmp_reduce_less x x (by omega) (by omega)] at h
    omega
  trans := by
    rintro ⟨a, x, hx, hx', rfl⟩ ⟨b, y, hy, hy', rfl⟩ ⟨c, z, hz, hz', rfl⟩ hab hbc
    rw [circularCmp_reduce_less x y (by omega) (by omega)] at hab
    rw [circularCmp_reduce_less y z (by omega) (by omega)] at hbc
    rw [circularCmp_reduce_less x z (by omega) (by omega)]
    omega

-- later modules see these through the lemmas above
attribute [irreducible] offsetFrom circularCmp reduce prev

end SeqNumber

end Srtrust
