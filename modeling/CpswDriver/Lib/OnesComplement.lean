import Mathlib.Data.Nat.Bitwise

/-!
Sums of words in ones' complement, where a carry out of the top is added in at
the bottom. A checksum is the complement of such a sum: put into the place that
was zero when it was computed, it makes the sum all ones.
-/

namespace CpswDriver.OnesComplement

variable {w a b c : ℕ} {words : List ℕ}

/-- Two words with the carry brought around. -/
def add (w a b : ℕ) : ℕ := if a + b < 2 ^ w then a + b else a + b - 2 ^ w + 1

def sum (w : ℕ) (words : List ℕ) : ℕ := words.foldr (add w) 0

def checksum (w : ℕ) (words : List ℕ) : ℕ := 2 ^ w - 1 - sum w words

theorem add_lt (ha : a < 2 ^ w) (hb : b < 2 ^ w) : add w a b < 2 ^ w := by
  unfold add
  split <;> omega

theorem zero_add (ha : a < 2 ^ w) : add w 0 a = a := by
  unfold add
  rw [if_pos (by omega)]
  exact Nat.zero_add a

theorem add_left_comm (ha : a < 2 ^ w) (hb : b < 2 ^ w) (hc : c < 2 ^ w) :
    add w a (add w b c) = add w b (add w a c) := by
  unfold add
  split <;> split <;> split <;> split <;> omega

theorem compl_add (ha : a < 2 ^ w) : add w (2 ^ w - 1 - a) a = 2 ^ w - 1 := by
  unfold add
  rw [if_pos (by omega)]
  omega

theorem sum_lt (h : ∀ a ∈ words, a < 2 ^ w) : sum w words < 2 ^ w := by
  induction words with
  | nil => exact Nat.two_pow_pos w
  | cons a words ih =>
    exact add_lt (h a List.mem_cons_self) (ih fun b hb => h b (List.mem_cons_of_mem a hb))

theorem sum_set_zero_lt (k : ℕ) (h : ∀ a ∈ words, a < 2 ^ w) : sum w (words.set k 0) < 2 ^ w := by
  apply sum_lt
  intro b hb
  rcases List.mem_or_eq_of_mem_set hb with hb | rfl
  · exact h b hb
  · exact Nat.two_pow_pos w

/-- A word counts the same wherever it stands. -/
theorem sum_set {k : ℕ} (hk : k < words.length) (h : ∀ a ∈ words, a < 2 ^ w) (hc : c < 2 ^ w) :
    sum w (words.set k c) = add w c (sum w (words.set k 0)) := by
  induction words generalizing k with
  | nil => exact absurd hk (Nat.not_lt_zero k)
  | cons a words ih =>
    have hrest : ∀ b ∈ words, b < 2 ^ w := fun b hb => h b (List.mem_cons_of_mem a hb)
    cases k with
    | zero =>
      change add w c (sum w words) = add w c (add w 0 (sum w words))
      rw [zero_add (sum_lt hrest)]
    | succ k =>
      change add w a (sum w (words.set k c)) = add w c (add w a (sum w (words.set k 0)))
      rw [ih (Nat.lt_of_succ_lt_succ hk) hrest,
        add_left_comm (h a List.mem_cons_self) hc (sum_set_zero_lt k hrest)]

/-- With its checksum in place a list of words sums to all ones. -/
theorem sum_set_checksum {k : ℕ} (hk : k < words.length) (h : ∀ a ∈ words, a < 2 ^ w) :
    sum w (words.set k (checksum w (words.set k 0))) = 2 ^ w - 1 := by
  have hzero := sum_set_zero_lt k h
  have hlt : checksum w (words.set k 0) < 2 ^ w := by
    unfold checksum
    omega
  rw [sum_set hk h hlt]
  exact compl_add hzero

end CpswDriver.OnesComplement
