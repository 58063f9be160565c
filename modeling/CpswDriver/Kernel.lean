import Mathlib.Data.Int.Notation
import Mathlib.Data.Nat.Notation

/-!
Words and error numbers that the drivers share.
-/

namespace CpswDriver

abbrev U16 := BitVec 16
abbrev U32 := BitVec 32
abbrev U64 := BitVec 64

instance neZero_two : @NeZero ℕ Zero.ofOfNat0 2 := ⟨by decide⟩
instance neZero_six : @NeZero ℕ Zero.ofOfNat0 6 := ⟨by decide⟩
instance neZero_sixtyFour : @NeZero ℕ Zero.ofOfNat0 64 := ⟨by decide⟩

def eperm : ℤ := 1
def enoent : ℤ := 2
def enomem : ℤ := 12
def ebusy : ℤ := 16
def einval : ℤ := 22
def enosys : ℤ := 38
def eopnotsupp : ℤ := 95
def eaddrnotavail : ℤ := 99
def enotsupp : ℤ := 524

theorem neg_enoent_ne_zero : -enoent ≠ 0 := by decide

theorem neg_enomem_ne_zero : -enomem ≠ 0 := by decide

theorem setWidth_inj {a b : U16} (h : a.setWidth 32 = b.setWidth 32) : a = b := by
  apply BitVec.eq_of_toNat_eq
  have hnat := congrArg BitVec.toNat h
  have ha := a.isLt
  have hb := b.isLt
  rw [BitVec.toNat_setWidth, BitVec.toNat_setWidth, Nat.mod_eq_of_lt (by omega),
    Nat.mod_eq_of_lt (by omega)] at hnat
  exact hnat

/-- The bits of `m` that are set in `v`; C code tests `v & m`. -/
def testBits (v m : U32) : Bool := v &&& m != 0

end CpswDriver
