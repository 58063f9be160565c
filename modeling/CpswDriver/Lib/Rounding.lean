import Mathlib.Tactic.Ring
import Mathlib.Tactic.Linarith

/-!
Quotients to the nearest integer, as integer code computes them: half of the
divisor is added before the division. Two such quotients that are inverse to each
other up to rounding are never far apart, so a counter that is moved on through
one of them and back through the other goes up.
-/

namespace CpswDriver.Rounding

variable {a b n r s k : ℕ}

/-- The quotient a / b, to the nearest integer. -/
def nearest (a b : ℕ) : ℕ := (a + b / 2) / b

/-- No integer is nearer to a / b. -/
def IsNearest (a b q : ℕ) : Prop := 2 * a ≤ 2 * (b * q) + b ∧ 2 * (b * q) ≤ 2 * a + b

theorem nearest_bounds (a : ℕ) (hb : 0 < b) :
    b * nearest a b ≤ a + b / 2 ∧ a + b / 2 < b * nearest a b + b := by
  unfold nearest
  have hdiv := Nat.div_add_mod (a + b / 2) b
  have hmod := Nat.mod_lt (a + b / 2) hb
  omega

theorem isNearest_nearest (a : ℕ) (hb : 0 < b) : IsNearest a b (nearest a b) := by
  obtain ⟨hle, hlt⟩ := nearest_bounds a hb
  unfold IsNearest
  omega

theorem le_nearest_iff (hb : 0 < b) : k ≤ nearest a b ↔ b * k ≤ a + b / 2 := by
  unfold nearest
  rw [Nat.le_div_iff_mul_le hb, mul_comm]

theorem nearest_le (hb : 0 < b) (h : a ≤ b * k) : nearest a b ≤ k := by
  have hlt : nearest a b < k + 1 := by
    unfold nearest
    rw [Nat.div_lt_iff_lt_mul hb, add_mul, one_mul, mul_comm k]
    omega
  omega

theorem nearest_add_mul (a : ℕ) (hb : 0 < b) (k : ℕ) : nearest (a + b * k) b = nearest a b + k := by
  unfold nearest
  rw [show a + b * k + b / 2 = a + b / 2 + b * k by ring, Nat.add_mul_div_left _ _ hb]

/-- The quotient of a multiple by a larger number is not larger than the factor. -/
theorem nearest_mul_le (hn : 0 < n) (hrn : r ≤ n) (s : ℕ) : nearest (r * s) n ≤ s :=
  nearest_le hn (Nat.mul_le_mul_right s hrn)

/-- One more than the quotient of r * s by n, taken back by the inverse quotient, is beyond s. -/
theorem lt_nearest_back (hr : 0 < r) (hrn : r ≤ n) (s : ℕ) :
    s < nearest (n * (nearest (r * s) n + 1)) r := by
  have hn : 0 < n := by omega
  obtain ⟨-, hlt⟩ := nearest_bounds (r * s) hn
  rw [← Nat.add_one_le_iff, le_nearest_iff hr]
  have hexpand : n * (nearest (r * s) n + 1) = n * nearest (r * s) n + n := by ring
  have hgoal : r * (s + 1) = r * s + r := by ring
  omega

/-- A quotient without a rest. -/
theorem nearest_mul (hb : 0 < b) (k : ℕ) : nearest (b * k) b = k := by
  apply Nat.le_antisymm (nearest_le hb (Nat.le_refl _))
  rw [le_nearest_iff hb]
  exact Nat.le_add_right _ _

/-- One more than the quotient, taken back by the inverse quotient, is never below s. -/
theorem le_nearest_back (hr : 0 < r) (hn : 0 < n) (s : ℕ) :
    s ≤ nearest (n * (nearest (r * s) n + 1)) r := by
  obtain ⟨-, hlt⟩ := nearest_bounds (r * s) hn
  rw [le_nearest_iff hr]
  have hexpand : n * (nearest (r * s) n + 1) = n * nearest (r * s) n + n := by ring
  omega

/-- The quotient of r * s by a number n above s, itself not above r, is below r. -/
theorem nearest_mul_lt (hn : 0 < n) (hnr : n ≤ r) (hs : s < n) : nearest (r * s) n < r := by
  have hle : r * s + r ≤ r * n := by
    rw [← Nat.mul_succ]
    exact Nat.mul_le_mul_left r hs
  have hsplit : n * (r - 1) = r * n - n := by rw [Nat.mul_sub_one, mul_comm]
  have hquot : nearest (r * s) n ≤ r - 1 := nearest_le hn (by omega)
  omega

end CpswDriver.Rounding
