import CpswDriver.Lib.BitField
import Mathlib.Logic.Function.Basic

/-!
Bit fields in a file of registers. A field is a variable of its own: it gives
back what was written to it, and a write to it is not seen through a field that
shares no bit with it.
-/

namespace CpswDriver

/-- Some neighbouring bits of one register. -/
structure RegField (ι : Type*) where
  reg : ι
  start : ℕ
  bits : ℕ

namespace RegField

variable {ι : Type*} {w : ℕ} {f g : RegField ι} {regs : ι → BitVec w} {v : BitVec w}

/-- The field is inside a register, and not all of it. -/
def Fits (w : ℕ) (f : RegField ι) : Prop := f.bits < w ∧ f.start + f.bits ≤ w

/-- The bit of the register is one of the field. -/
def Holds (f : RegField ι) (reg : ι) (i : ℕ) : Prop :=
  reg = f.reg ∧ f.start ≤ i ∧ i < f.start + f.bits

/-- No bit is in both fields. -/
def Apart (f g : RegField ι) : Prop :=
  f.reg = g.reg → f.start + f.bits ≤ g.start ∨ g.start + g.bits ≤ f.start

def read (f : RegField ι) (regs : ι → BitVec w) : BitVec w :=
  BitField.get (regs f.reg) f.start f.bits

def write [DecidableEq ι] (f : RegField ι) (regs : ι → BitVec w) (v : BitVec w) : ι → BitVec w :=
  Function.update regs f.reg (BitField.put (regs f.reg) f.start f.bits v)

theorem read_congr {regs' : ι → BitVec w} (h : regs' f.reg = regs f.reg) :
    f.read regs' = f.read regs := by
  unfold read
  rw [h]

variable [DecidableEq ι]

theorem read_write (hf : f.Fits w) (hv : v.toNat < 2 ^ f.bits) :
    f.read (f.write regs v) = v := by
  unfold read write
  rw [Function.update_self, BitField.get_put hf.1 hf.2, BitField.and_bitMask_of_lt hf.1 hv]

theorem read_write_of_apart (hf : f.Fits w) (hg : g.Fits w) (h : f.Apart g) :
    g.read (f.write regs v) = g.read regs := by
  by_cases hreg : f.reg = g.reg
  · unfold read write
    rw [← hreg, Function.update_self, BitField.get_put_of_disjoint hf.1 hg.1 (h hreg)]
  · exact read_congr (Function.update_of_ne (Ne.symm hreg) _ _)

theorem getLsbD_write {reg : ι} {i : ℕ} (hf : f.Fits w) (h : ¬ f.Holds reg i) :
    (f.write regs v reg).getLsbD i = (regs reg).getLsbD i := by
  unfold write
  by_cases hreg : reg = f.reg
  · subst hreg
    have hout : ¬ (f.start ≤ i ∧ i < f.start + f.bits) := fun hin => h ⟨rfl, hin⟩
    rw [Function.update_self]
    by_cases hi : i < w
    · rw [BitField.getLsbD_put hf.1 _ _ hi, if_neg hout]
    · rw [BitVec.getLsbD_of_ge _ _ (by omega), BitVec.getLsbD_of_ge _ _ (by omega)]
  · rw [Function.update_of_ne hreg]

end RegField

end CpswDriver
