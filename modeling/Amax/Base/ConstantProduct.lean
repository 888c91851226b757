-- SUMMARY: Market makers that keep a constant product: swaps and growth never lower the product of the reserves.
import Mathlib.Algebra.Order.Ring.Defs
import Mathlib.Tactic.Linarith
import Mathlib.Tactic.Ring

/-! # Constant product

A market maker has a reserve of each of two goods. For `x` of the one it gives
at most `o * x / (i + x)` of the other, where `i` and `o` are its reserves of
the two. The product of the reserves never falls, whatever is rounded away. -/

namespace ConstantProduct

variable {R : Type} [CommRing R] [LinearOrder R] [IsStrictOrderedRing R]

/-- A swap that gives no more than the quotient keeps the product. -/
theorem le_swap {i o x out : R} (h : out * (i + x) ≤ o * x) : i * o ≤ (i + x) * (o - out) := by
  have hring : (i + x) * (o - out) = i * o + (o * x - out * (i + x)) := by ring
  rw [hring]
  linarith

/-- A swap never gives more than the reserve. -/
theorem out_le {i o x out : R} (hi : 0 ≤ i) (ho : 0 ≤ o) (hx : 0 < x)
    (h : out * (i + x) ≤ o * x) : out ≤ o := by
  have hpos : 0 < i + x := add_pos_of_nonneg_of_pos hi hx
  have hmore : o * x ≤ o * (i + x) := mul_le_mul_of_nonneg_left (le_add_of_nonneg_left hi) ho
  exact le_of_mul_le_mul_right (h.trans hmore) hpos

/-- Goods added to a reserve of `b` out of `m` keep the price at which `m` are worth `k`. -/
theorem le_grow {k m b q d : R} (h : k * m ≤ b * q) (hk : k ≤ q) (hd : 0 ≤ d) :
    k * (m + d) ≤ (b + d) * q := by
  have hmore : k * d ≤ q * d := mul_le_mul_of_nonneg_right hk hd
  linarith [mul_comm q d, add_mul b d q, mul_add k m d]

/-- The reserve of one good is at least `k` while that of the other is at most `m`. -/
theorem le_reserve {k m b q : R} (h : k * m ≤ b * q) (hb : b ≤ m) (hm : 0 < m) (hq : 0 ≤ q) :
    k ≤ q := by
  have hmore : b * q ≤ q * m := by
    rw [mul_comm q m]
    exact mul_le_mul_of_nonneg_right hb hq
  exact le_of_mul_le_mul_right (h.trans hmore) hm

end ConstantProduct
