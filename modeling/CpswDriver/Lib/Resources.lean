import Mathlib.Algebra.Order.Group.Multiset
import Mathlib.Data.Multiset.Count

/-!
Resources that are acquired and released by name. A release of what is not held is
a fault. `Owns` says which resources are held and that there was no fault; what
code does to its own resources it does whatever else is held.
-/

namespace CpswDriver.Resources

structure Books (ρ : Type*) where
  held : ρ → ℕ
  fault : Bool

variable {ρ : Type*} [DecidableEq ρ] {b : Books ρ} {rs rs' : Multiset ρ} {r : ρ}

namespace Books

def empty : Books ρ := ⟨fun _ => 0, false⟩

def acquire (b : Books ρ) (r : ρ) : Books ρ :=
  { b with held := Function.update b.held r (b.held r + 1) }

def release (b : Books ρ) (r : ρ) : Books ρ :=
  if b.held r = 0 then { b with fault := true }
  else { b with held := Function.update b.held r (b.held r - 1) }

/-- A release that is none where nothing is held. -/
def drop (b : Books ρ) (r : ρ) : Books ρ := if b.held r = 0 then b else b.release r

end Books

/-- These are held, and nothing else. -/
structure Owns (b : Books ρ) (rs : Multiset ρ) : Prop where
  held : ∀ r, b.held r = rs.count r
  sound : b.fault = false

theorem owns_empty : Owns (Books.empty : Books ρ) 0 := ⟨fun r => (Multiset.count_zero r).symm, rfl⟩

theorem Owns.congr (h : Owns b rs) (heq : rs = rs') : Owns b rs' := heq ▸ h

theorem Owns.unique (h : Owns b rs) (h' : Owns b rs') : rs = rs' :=
  Multiset.ext.mpr fun r => (h.held r).symm.trans (h'.held r)

theorem Owns.acquire (h : Owns b rs) (r : ρ) : Owns (b.acquire r) (rs + {r}) := by
  refine ⟨fun r' => ?_, h.sound⟩
  rw [Multiset.count_add, Multiset.count_singleton, ← h.held r']
  unfold Books.acquire
  by_cases heq : r' = r
  · rw [heq, if_pos rfl]
    exact Function.update_self _ _ _
  · rw [if_neg heq]
    exact Function.update_of_ne heq _ _

theorem Owns.held_add (h : Owns b (rs + {r})) (r' : ρ) :
    b.held r' = rs.count r' + if r' = r then 1 else 0 := by
  rw [h.held, Multiset.count_add, Multiset.count_singleton]

theorem Owns.held_ne_zero (h : Owns b (rs + {r})) : b.held r ≠ 0 := by
  rw [h.held_add, if_pos rfl]
  exact Nat.succ_ne_zero _

theorem Owns.release (h : Owns b (rs + {r})) : Owns (b.release r) rs := by
  unfold Books.release
  rw [if_neg h.held_ne_zero]
  refine ⟨fun r' => ?_, h.sound⟩
  dsimp only
  by_cases heq : r' = r
  · rw [heq, Function.update_self, h.held_add, if_pos rfl, Nat.add_sub_cancel]
  · rw [Function.update_of_ne heq, h.held_add, if_neg heq, Nat.add_zero]

theorem Owns.drop (h : Owns b (rs + {r})) : Owns (b.drop r) rs := by
  unfold Books.drop
  rw [if_neg h.held_ne_zero]
  exact h.release

/-- A release of what is not held is a fault. -/
theorem Owns.release_fault (h : Owns b rs) (hr : r ∉ rs) : (b.release r).fault = true := by
  unfold Books.release
  rw [if_pos ((h.held r).trans (Multiset.count_eq_zero.mpr hr))]

theorem fault_release (h : b.fault = true) (r : ρ) : (b.release r).fault = true := by
  unfold Books.release
  split
  · rfl
  · exact h

theorem held_release {r' : ρ} (hne : r' ≠ r) : (b.release r).held r' = b.held r' := by
  unfold Books.release
  split
  · rfl
  · exact Function.update_of_ne hne _ _

theorem held_acquire {r' : ρ} (hne : r' ≠ r) : (b.acquire r).held r' = b.held r' :=
  Function.update_of_ne hne _ _

end CpswDriver.Resources
