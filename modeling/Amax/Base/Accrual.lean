-- SUMMARY: Rewards accrued per share: what holders are owed, and why the floors of deposits and payouts keep a pool solvent.
import Amax.Base.Table
import Mathlib.Tactic.FieldSimp
import Mathlib.Tactic.Linarith
import Mathlib.Tactic.Positivity
import Mathlib.Data.Rat.Cast.Order

/-! # Accrual per share

A pool pays rewards to its holders in proportion to their shares. It keeps one
growing rate, the rewards of one share scaled by a precision `P`, and every
holder remembers the rate at which it was last paid. Deposits raise the rate by
a floor, payouts are floors again, and both floors leave the remainder in the
pool: what all holders are owed never exceeds what the pool has. -/

namespace Accrual

/-- What a holder of `w` shares is owed at the rate `r`, scaled, when it was
last paid at the rate `l`. -/
def owed (w r l : ℤ) : ℤ := w * (r - l)

/-- The payout of a scaled claim. -/
def payout (P x : ℤ) : ℤ := x / P

variable {P : ℤ}

@[simp] theorem owed_self (w r : ℤ) : owed w r r = 0 := by simp [owed]

@[simp] theorem owed_zero (r l : ℤ) : owed 0 r l = 0 := by simp [owed]

@[simp] theorem payout_zero (P : ℤ) : payout P 0 = 0 := by simp [payout]

theorem owed_nonneg {w r l : ℤ} (hw : 0 ≤ w) (hl : l ≤ r) : 0 ≤ owed w r l :=
  mul_nonneg hw (sub_nonneg.mpr hl)

theorem owed_raise (w r d l : ℤ) : owed w (r + d) l = owed w r l + d * w := by
  unfold owed
  ring

theorem payout_nonneg {x : ℤ} (hP : 0 < P) (hx : 0 ≤ x) : 0 ≤ payout P x :=
  Int.ediv_nonneg hx hP.le

theorem payout_mul_le {x : ℤ} (hP : 0 < P) : payout P x * P ≤ x :=
  Int.ediv_mul_le x hP.ne'

/-- A covered claim pays no more than the pool has. -/
theorem payout_le {x a : ℤ} (hP : 0 < P) (h : x ≤ a * P) : payout P x ≤ a :=
  Int.ediv_le_of_le_mul hP h

/-- A payout leaves less than one unit of what is owed. -/
theorem lt_payout_mul_add {x : ℤ} (hP : 0 < P) : x < payout P x * P + P := by
  have := Int.lt_ediv_add_one_mul_self x hP
  rwa [add_mul, one_mul] at this

/-- A payout takes no more from the pool than from what is owed. -/
theorem solvent_payout {a x rest : ℤ} (hP : 0 < P) (h : x + rest ≤ a * P) :
    rest ≤ (a - payout P x) * P := by
  have hx := payout_mul_le (x := x) hP
  rw [sub_mul]
  linarith

/-- A scaled claim of `x` was paid out in `k` parts, `c` in all. -/
structure Parts (P x c : ℤ) (k : ℕ) : Prop where
  le : c * P ≤ x
  ge : x ≤ c * P + k * (P - 1)

theorem Parts.zero (P : ℤ) : Parts P 0 0 0 := ⟨by simp, by simp⟩

/-- One more part. -/
theorem Parts.pay {x c : ℤ} {k : ℕ} (hP : 0 < P) (h : Parts P x c k) (z : ℤ) :
    Parts P (x + z) (c + payout P z) (k + 1) := by
  have hle := payout_mul_le (x := z) hP
  have hlt := lt_payout_mul_add (x := z) hP
  have h₁ := h.le
  have h₂ := h.ge
  refine ⟨by rw [add_mul]; omega, ?_⟩
  rw [add_mul, Nat.cast_add, Nat.cast_one, add_mul]
  omega

/-- Parts pay no more than one payout does. -/
theorem Parts.add_payout_le {x c : ℤ} {k : ℕ} (hP : 0 < P) (h : Parts P x c k) (z : ℤ) :
    c + payout P z ≤ payout P (x + z) := by
  refine Int.le_ediv_of_mul_le hP ?_
  have hle := payout_mul_le (x := z) hP
  have := h.le
  rw [add_mul]
  omega

/-- Each part loses at most one unit. -/
theorem Parts.payout_le_add {x c : ℤ} {k : ℕ} (hP : 0 < P) (h : Parts P x c k) (z : ℤ) :
    payout P (x + z) ≤ c + payout P z + k := by
  have hlt := lt_payout_mul_add (x := z) hP
  have hge := h.ge
  have hk : (k : ℤ) * (P - 1) ≤ k * P := mul_le_mul_of_nonneg_left (by omega) (Int.natCast_nonneg k)
  refine Int.lt_add_one_iff.mp (Int.ediv_lt_of_lt_mul hP ?_)
  calc x + z < c * P + k * P + (payout P z * P + P) := by omega
    _ = (c + payout P z + k + 1) * P := by ring

/-- What a deposit of `q` adds to the rate of a pool with `w` shares. -/
def raise (P q w : ℤ) : ℤ := q * P / w

theorem raise_nonneg {q w : ℤ} (hP : 0 < P) (hq : 0 ≤ q) (hw : 0 < w) : 0 ≤ raise P q w :=
  Int.ediv_nonneg (mul_nonneg hq hP.le) hw.le

/-- A raise leaves less than one scaled unit per share of the deposit. -/
theorem lt_raise_mul_add {q w : ℤ} (hw : 0 < w) : q * P < raise P q w * w + w := by
  have := Int.lt_ediv_add_one_mul_self (q * P) hw
  rwa [add_mul, one_mul] at this

/-- A deposit raises what is owed by no more than the deposit. -/
theorem solvent_deposit {a d q w : ℤ} (hw : 0 < w) (h : d ≤ a * P) :
    d + raise P q w * w ≤ (a + q) * P := by
  have hx : raise P q w * w ≤ q * P := Int.ediv_mul_le _ hw.ne'
  rw [add_mul]
  linarith

/-- The rate of a pool is at most everything ever deposited, scaled. -/
theorem raise_le {r t q w : ℤ} (hP : 0 < P) (hq : 0 ≤ q) (h : r ≤ t * P) :
    r + raise P q w ≤ (t + q) * P := by
  have hx : raise P q w ≤ q * P :=
    Int.ediv_le_self _ (mul_nonneg hq hP.le)
  rw [add_mul]
  linarith

-- ---------------------------------------------------------------------------
-- Exact parts
-- ---------------------------------------------------------------------------

/-- Several payouts pay no more than the claims. -/
theorem sum_payout_mul_le (hP : 0 < P) (xs : List ℤ) : (xs.map (payout P)).sum * P ≤ xs.sum := by
  induction xs with
  | nil => simp
  | cons x xs ih =>
    have hx := payout_mul_le (x := x) hP
    rw [List.map_cons, List.sum_cons, List.sum_cons, add_mul]
    exact add_le_add hx ih

/-- Each of several payouts leaves less than one unit. -/
theorem sum_le_sum_payout (hP : 0 < P) (xs : List ℤ) :
    xs.sum ≤ (xs.map (payout P)).sum * P + xs.length * P := by
  induction xs with
  | nil => simp
  | cons x xs ih =>
    have hx := lt_payout_mul_add (x := x) hP
    rw [List.map_cons, List.sum_cons, List.sum_cons, List.length_cons, add_mul, Nat.cast_add,
      Nat.cast_one, add_mul, one_mul]
    omega

/-- The exact part of a deposit of `q` that belongs to `w` of `total` shares. -/
def part (q total w : ℤ) : ℚ := q * w / total

/-- A raise gives a holder no more than its part of the deposit. -/
theorem raise_mul_le_part {q total w : ℤ} (ht : 0 < total) (hw : 0 ≤ w) :
    ((raise P q total * w : ℤ) : ℚ) ≤ part q total w * P := by
  have htq : (0 : ℚ) < total := by exact_mod_cast ht
  have hle : raise P q total * total ≤ q * P := Int.ediv_mul_le _ ht.ne'
  have hmul : raise P q total * w * total ≤ q * w * P := by nlinarith
  rw [part, div_mul_eq_mul_div, le_div_iff₀ htq]
  exact_mod_cast hmul

/-- A raise withholds less than one scaled unit for each share. -/
theorem part_le_raise_mul {q total w : ℤ} (ht : 0 < total) (hw : 0 ≤ w) :
    part q total w * P ≤ ((raise P q total * w : ℤ) : ℚ) + w := by
  have htq : (0 : ℚ) < total := by exact_mod_cast ht
  have hlt := lt_raise_mul_add (P := P) (q := q) ht
  have hmul : q * w * P ≤ (raise P q total * w + w) * total := by nlinarith
  rw [part, div_mul_eq_mul_div, div_le_iff₀ htq]
  exact_mod_cast hmul

end Accrual
