import Mathlib.Tactic

/-! Counters on a circle of `2 * h` residues, and the signed distance between two of
them that circular comparisons use: the forward distance when it is below the half `h`,
and that distance less a whole turn otherwise.

The distance is only locally an integer difference. `signed_residue` is the exact window:
two integers `x`, `y` with `-h ≤ x - y < h` have their difference back from their
residues. Everything else about the circle follows from it. -/
namespace Cyclic
set_option autoImplicit false

/-- The residue of an integer on the circle of `2 * h` points. -/
def residue (h : ℕ) (x : ℤ) : ℕ := (x % (2 * h : ℤ)).toNat

/-- Steps forward from `b` to `a`, for residues `a`, `b`. -/
def forward (h a b : ℕ) : ℕ := (a + 2 * h - b) % (2 * h)

/-- Signed distance from `b` to `a`: at least `-h` and less than `h`. -/
def signed (h a b : ℕ) : ℤ :=
  if forward h a b < h then (forward h a b : ℤ) else (forward h a b : ℤ) - 2 * h

theorem residue_lt (h : ℕ) (hh : 0 < h) (x : ℤ) : residue h x < 2 * h := by
  have hm : (0 : ℤ) < 2 * h := by omega
  have h1 := Int.emod_lt_of_pos x hm
  have h0 := Int.emod_nonneg x (ne_of_gt hm)
  unfold residue
  omega

theorem residue_natCast (h n : ℕ) : residue h n = n % (2 * h) := by
  unfold residue
  have e : ((n : ℤ) % (2 * h : ℤ)) = ((n % (2 * h) : ℕ) : ℤ) := by push_cast; rfl
  rw [e, Int.toNat_natCast]

theorem residue_cast (h : ℕ) (hh : 0 < h) (x : ℤ) : (residue h x : ℤ) = x % (2 * h : ℤ) := by
  unfold residue
  exact Int.toNat_of_nonneg (Int.emod_nonneg x (by omega))

/-- The forward distance of two residues is the residue of the difference. -/
theorem forward_residue (h : ℕ) (hh : 0 < h) (x y : ℤ) :
    forward h (residue h x) (residue h y) = residue h (x - y) := by
  have hy := residue_lt h hh y
  have cx := residue_cast h hh x
  have cy := residue_cast h hh y
  have key : ((forward h (residue h x) (residue h y) : ℕ) : ℤ) = ((residue h (x - y) : ℕ) : ℤ) := by
    unfold forward
    rw [residue_cast h hh (x - y), Int.natCast_mod, Nat.cast_sub (by omega)]
    push_cast
    rw [cx, cy, Int.sub_emod, Int.add_emod_right, Int.emod_emod_of_dvd _ (dvd_refl _),
      Int.emod_emod_of_dvd _ (dvd_refl _), ← Int.sub_emod]
  exact_mod_cast key

/-- Inside the half window the signed distance of the residues is the integer difference. -/
theorem signed_residue (h : ℕ) (hh : 0 < h) (x y : ℤ) (hlo : -(h : ℤ) ≤ x - y)
    (hhi : x - y < h) : signed h (residue h x) (residue h y) = x - y := by
  unfold signed
  rw [forward_residue h hh]
  have hc := residue_cast h hh (x - y)
  by_cases hn : 0 ≤ x - y
  · have e : (x - y) % (2 * h : ℤ) = x - y := Int.emod_eq_of_lt hn (by omega)
    rw [e] at hc
    rw [if_pos (by omega), hc]
  · have e : (x - y) % (2 * h : ℤ) = x - y + 2 * h := by
      rw [← Int.add_emod_right]
      exact Int.emod_eq_of_lt (by omega) (by omega)
    rw [e] at hc
    rw [if_neg (by omega), hc]
    omega

/-- Residues of integers less than a whole turn apart coincide only when the integers do. -/
theorem residue_inj (h : ℕ) (hh : 0 < h) (x y : ℤ) (hlt : |x - y| < 2 * h)
    (he : residue h x = residue h y) : x = y := by
  have hx := residue_cast h hh x
  have hy := residue_cast h hh y
  rw [he, hy] at hx
  have hd : (2 * h : ℤ) ∣ x - y := Int.ModEq.dvd hx
  have hz := Int.eq_zero_of_abs_lt_dvd hd hlt
  omega

end Cyclic
