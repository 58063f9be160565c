import Mathlib.Data.Nat.Bitwise

/-!
Bit fields inside a word, the way C code packs them: a field is read by a
shift and a mask, and written by clearing its bits and or-ing the new ones in.
A field gives back what was stored in it, cut to its width, and a write leaves
every field that lies beside it alone.
-/

namespace CpswDriver.BitField

variable {w : ℕ}

/-- The word with its lowest `bits` bits set. -/
def bitMask (w bits : ℕ) : BitVec w := (1#w <<< bits) - 1#w

def get (x : BitVec w) (start bits : ℕ) : BitVec w := (x >>> start) &&& bitMask w bits

def put (x : BitVec w) (start bits : ℕ) (v : BitVec w) : BitVec w :=
  (x &&& ~~~(bitMask w bits <<< start)) ||| ((v &&& bitMask w bits) <<< start)

theorem toNat_bitMask {bits : ℕ} (h : bits < w) : (bitMask w bits).toNat = 2 ^ bits - 1 := by
  have hle : 2 ^ bits < 2 ^ w := Nat.pow_lt_pow_right (by decide) h
  have hone : 1 < 2 ^ w := Nat.one_lt_two_pow (by omega)
  have hpos := Nat.two_pow_pos bits
  have hsum : 2 ^ w - 1 + 2 ^ bits = 2 ^ bits - 1 + 2 ^ w := by omega
  simp only [bitMask, BitVec.toNat_sub, BitVec.toNat_shiftLeft, BitVec.toNat_ofNat,
    Nat.mod_eq_of_lt hone, Nat.shiftLeft_eq, one_mul, Nat.mod_eq_of_lt hle]
  rw [hsum, Nat.add_mod_right, Nat.mod_eq_of_lt (by omega)]

theorem getLsbD_bitMask {bits : ℕ} (h : bits < w) (i : ℕ) :
    (bitMask w bits).getLsbD i = decide (i < bits) := by
  rw [← BitVec.testBit_toNat, toNat_bitMask h, Nat.testBit_two_pow_sub_one]

theorem getLsbD_get {start bits : ℕ} (h : bits < w) (x : BitVec w) (i : ℕ) :
    (get x start bits).getLsbD i = (x.getLsbD (start + i) && decide (i < bits)) := by
  simp [get, getLsbD_bitMask h]

theorem getLsbD_put {start bits : ℕ} (h : bits < w) (x v : BitVec w) {i : ℕ} (hi : i < w) :
    (put x start bits v).getLsbD i =
      if start ≤ i ∧ i < start + bits then v.getLsbD (i - start) else x.getLsbD i := by
  simp only [put, BitVec.getLsbD_or, BitVec.getLsbD_and, BitVec.getLsbD_not,
    BitVec.getLsbD_shiftLeft, getLsbD_bitMask h, hi, decide_true, Bool.true_and]
  by_cases hlo : i < start
  · simp [hlo, Nat.not_le.mpr hlo]
  by_cases hup : i < start + bits
  · simp [hlo, Nat.not_lt.mp hlo, hup, show i - start < bits by omega]
  · simp [hlo, hup, show ¬ i - start < bits by omega]

theorem get_and_bitMask (x : BitVec w) (start bits : ℕ) :
    get x start bits &&& bitMask w bits = get x start bits := by
  rw [get, BitVec.and_assoc, BitVec.and_self]

theorem get_put {start bits : ℕ} (h : bits < w) (hfit : start + bits ≤ w) (x v : BitVec w) :
    get (put x start bits v) start bits = v &&& bitMask w bits := by
  apply BitVec.eq_of_getLsbD_eq
  intro i hi
  rw [getLsbD_get h, BitVec.getLsbD_and, getLsbD_bitMask h]
  by_cases hlt : i < bits
  · rw [getLsbD_put h x v (by omega), if_pos (by omega), Nat.add_sub_cancel_left]
  · simp [hlt]

theorem get_put_of_disjoint {start bits start' bits' : ℕ} (h : bits < w) (h' : bits' < w)
    (hdisj : start + bits ≤ start' ∨ start' + bits' ≤ start) (x v : BitVec w) :
    get (put x start bits v) start' bits' = get x start' bits' := by
  apply BitVec.eq_of_getLsbD_eq
  intro i hi
  rw [getLsbD_get h', getLsbD_get h']
  by_cases hlt : i < bits'
  · by_cases hin : start' + i < w
    · rw [getLsbD_put h x v hin, if_neg (by omega)]
    · rw [BitVec.getLsbD_of_ge _ _ (by omega), BitVec.getLsbD_of_ge _ _ (by omega)]
  · simp [hlt]

theorem get_lt {start bits : ℕ} (h : bits < w) (x : BitVec w) :
    (get x start bits).toNat < 2 ^ bits := by
  rw [get, BitVec.toNat_and, toNat_bitMask h]
  have hle : (x >>> start).toNat &&& (2 ^ bits - 1) ≤ 2 ^ bits - 1 := Nat.and_le_right
  have hpos := Nat.two_pow_pos bits
  omega

/-- A value that fits a field is stored unchanged. -/
theorem and_bitMask_of_lt {bits : ℕ} (h : bits < w) {v : BitVec w} (hv : v.toNat < 2 ^ bits) :
    v &&& bitMask w bits = v := by
  apply BitVec.eq_of_toNat_eq
  rw [BitVec.toNat_and, toNat_bitMask h, Nat.and_two_pow_sub_one_eq_mod, Nat.mod_eq_of_lt hv]

theorem and_eq_self {v m : BitVec w} (h : v &&& ~~~m = 0) : v &&& m = v := by
  apply BitVec.eq_of_getLsbD_eq
  intro i hi
  have hbit := congrArg (BitVec.getLsbD · i) h
  simp only [BitVec.getLsbD_and, BitVec.getLsbD_not, hi, decide_true, Bool.true_and] at hbit ⊢
  cases hv : v.getLsbD i <;> simp_all

/-- A value has no bit outside the mask of a field just when it fits the field. -/
theorem and_not_bitMask_eq_zero_iff {bits : ℕ} (h : bits < w) {v : BitVec w} :
    v &&& ~~~bitMask w bits = 0 ↔ v.toNat < 2 ^ bits := by
  constructor
  · intro hzero
    rw [← and_eq_self hzero, BitVec.toNat_and, toNat_bitMask h, Nat.and_two_pow_sub_one_eq_mod]
    exact Nat.mod_lt _ (Nat.two_pow_pos _)
  · intro hv
    rw [← and_bitMask_of_lt h hv, BitVec.and_assoc, BitVec.and_not_self]
    exact BitVec.and_zero

theorem getLsbD_or_bit {k i : ℕ} (hi : i < w) (x : BitVec w) :
    (x ||| (1#w <<< k)).getLsbD i = (x.getLsbD i || decide (i = k)) := by
  have hbit : ((1#w <<< k).getLsbD i) = decide (i = k) := by
    rw [BitVec.getLsbD_shiftLeft, BitVec.getLsbD_one, Bool.eq_iff_iff]
    simp
    omega
  rw [BitVec.getLsbD_or, hbit]

theorem getLsbD_and_not_bit {k i : ℕ} (hi : i < w) (x : BitVec w) :
    (x &&& ~~~(1#w <<< k)).getLsbD i = (x.getLsbD i && decide (i ≠ k)) := by
  have hbit : ((1#w <<< k).getLsbD i) = decide (i = k) := by
    rw [BitVec.getLsbD_shiftLeft, BitVec.getLsbD_one, Bool.eq_iff_iff]
    simp
    omega
  rw [BitVec.getLsbD_and, BitVec.getLsbD_not, hbit]
  simp [hi]

theorem get_and_not_bit {start bits k : ℕ} (h : bits < w) (hk : k < start ∨ start + bits ≤ k)
    (x : BitVec w) : get (x &&& ~~~(1#w <<< k)) start bits = get x start bits := by
  apply BitVec.eq_of_getLsbD_eq
  intro i _
  rw [getLsbD_get h, getLsbD_get h]
  by_cases hin : i < bits
  · by_cases hw : start + i < w
    · rw [getLsbD_and_not_bit hw, decide_eq_true (by omega : start + i ≠ k), Bool.and_true]
    · rw [BitVec.getLsbD_of_ge _ _ (by omega), BitVec.getLsbD_of_ge _ _ (by omega)]
  · simp [hin]

theorem getLsbD_and_not_mask {start bits i : ℕ} (h : bits < w) (hi : i < w) (x : BitVec w) :
    (x &&& ~~~(bitMask w bits <<< start)).getLsbD i =
      (x.getLsbD i && decide (¬ (start ≤ i ∧ i < start + bits))) := by
  rw [BitVec.getLsbD_and, BitVec.getLsbD_not, BitVec.getLsbD_shiftLeft, getLsbD_bitMask h,
    Bool.eq_iff_iff]
  simp only [hi, decide_true, Bool.true_and, Bool.and_eq_true, Bool.not_eq_true',
    Bool.and_eq_false_iff, decide_eq_true_eq, decide_eq_false_iff_not, Bool.not_eq_false',
    and_congr_right_iff]
  omega

/-- A test of a range of bits fails when all of them are zero. -/
theorem and_mask_eq_zero_iff {start bits : ℕ} (h : bits < w) (hfit : start + bits ≤ w)
    (x : BitVec w) : x &&& (bitMask w bits <<< start) = 0 ↔
      ∀ i < bits, x.getLsbD (start + i) = false := by
  have hbit : ∀ j, (x &&& (bitMask w bits <<< start)).getLsbD j =
      (x.getLsbD j && decide (start ≤ j ∧ j < start + bits)) := by
    intro j
    rw [BitVec.getLsbD_and, BitVec.getLsbD_shiftLeft, getLsbD_bitMask h, Bool.eq_iff_iff]
    simp only [Bool.and_eq_true, Bool.not_eq_true', decide_eq_true_eq, decide_eq_false_iff_not,
      and_congr_right_iff]
    omega
  constructor
  · intro hzero i hi
    have hj := hbit (start + i)
    rw [hzero, decide_eq_true (by omega), Bool.and_true] at hj
    rw [← hj]
    exact BitVec.getLsbD_zero
  · intro hfalse
    apply BitVec.eq_of_getLsbD_eq
    intro j hj
    rw [hbit j]
    by_cases hin : start ≤ j ∧ j < start + bits
    · have hzero := hfalse (j - start) (by omega)
      rw [show start + (j - start) = j by omega] at hzero
      rw [hzero, Bool.false_and]
      exact BitVec.getLsbD_zero.symm
    · rw [decide_eq_false hin, Bool.and_false]
      exact BitVec.getLsbD_zero.symm

end CpswDriver.BitField
