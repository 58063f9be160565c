import Mathlib.Algebra.BigOperators.Group.List.Basic
import Mathlib.Algebra.Order.BigOperators.Group.List
import Mathlib.Data.List.MinMax
import Mathlib.Data.List.Nodup
import Mathlib.Tactic.Linarith

/-!
An amount given out in rounded shares. The members of a list get a share each, and
one of them, the taker, gets what the shares of the others leave over, so that
nothing of the amount is lost and nothing is given twice.
-/

namespace CpswDriver.Apportion

variable {ι : Type*} {l : List ι} {f g : ι → ℤ} {w : ι → ℕ} {n : ℤ} {m i : ι}

/-- Quotients rounded down add up to no more than the quotient of the sum. -/
theorem sum_ediv_le (w : ι → ℤ) {d : ℤ} (hd : 0 < d) (l : List ι) :
    (l.map fun i => w i / d).sum ≤ (l.map w).sum / d := by
  induction l with
  | nil => simp
  | cons i l ih =>
    rw [List.map_cons, List.map_cons, List.sum_cons, List.sum_cons]
    have hpair := Int.ediv_add_ediv_le_add_ediv (x := w i) (y := (l.map w).sum) hd
    omega

/-- The first member with the largest share, unless nobody has a share. -/
def firstLargest (w : ι → ℕ) (l : List ι) : Option ι := (l.argmax w).filter fun i => 0 < w i

/-- Going through the list, a member with more than all before it is the one so far. -/
theorem firstLargest_concat (w : ι → ℕ) (l : List ι) (i : ι) :
    firstLargest w (l ++ [i]) =
      if ((firstLargest w l).map w).getD 0 < w i then some i else firstLargest w l := by
  unfold firstLargest
  rw [List.argmax_concat]
  cases l.argmax w with
  | none => simp [Option.filter]
  | some m =>
    by_cases hm : 0 < w m
    · by_cases hlt : w m < w i
      · have hi : 0 < w i := hm.trans hlt
        simp [Option.filter, hm, hlt, hi]
      · simp [Option.filter, hm, hlt]
    · have hzero : w m = 0 := Nat.eq_zero_of_not_pos hm
      by_cases hi : 0 < w i <;> simp [Option.filter, hzero, hi]

theorem firstLargest_eq_none (h : firstLargest w l = none) (hi : i ∈ l) : w i = 0 := by
  unfold firstLargest at h
  cases hmax : l.argmax w with
  | none =>
    rw [List.argmax_eq_none] at hmax
    rw [hmax] at hi
    cases hi
  | some m =>
    rw [hmax] at h
    have hm : ¬0 < w m := by simpa [Option.filter] using h
    have hle := List.le_of_mem_argmax hi hmax
    omega

theorem firstLargest_eq_some (h : firstLargest w l = some m) :
    m ∈ l ∧ 0 < w m ∧ ∀ i ∈ l, w i ≤ w m := by
  unfold firstLargest at h
  obtain ⟨hmax, hpos⟩ := Option.filter_eq_some_iff.mp h
  exact ⟨List.argmax_mem hmax, of_decide_eq_true hpos, fun i hi => List.le_of_mem_argmax hi hmax⟩

variable [DecidableEq ι]

/-- What the members other than `m` get together. -/
def others (l : List ι) (f : ι → ℤ) (m : ι) : ℤ := ((l.erase m).map f).sum

/-- The shares, with the taker's replaced by what is over. -/
def settle (l : List ι) (f : ι → ℤ) (n : ℤ) (m : ι) : ι → ℤ :=
  Function.update f m (n - others l f m)

theorem add_others (f : ι → ℤ) (hm : m ∈ l) : f m + others l f m = (l.map f).sum :=
  List.sum_map_erase f hm

theorem others_congr (hl : l.Nodup) (h : ∀ i ∈ l, i ≠ m → f i = g i) :
    others l f m = others l g m := by
  unfold others
  congr 1
  apply List.map_congr_left
  intro i hi
  obtain ⟨hne, hmem⟩ := hl.mem_erase_iff.mp hi
  exact h i hmem hne

theorem others_nonneg (hl : l.Nodup) (h : ∀ i ∈ l, i ≠ m → 0 ≤ f i) : 0 ≤ others l f m := by
  apply List.sum_nonneg
  intro x hx
  obtain ⟨i, hi, rfl⟩ := List.mem_map.mp hx
  obtain ⟨hne, hmem⟩ := hl.mem_erase_iff.mp hi
  exact h i hmem hne

theorem le_others (hl : l.Nodup) (h : ∀ i ∈ l, i ≠ m → 0 ≤ f i) (hi : i ∈ l) (hne : i ≠ m) :
    f i ≤ others l f m := by
  apply List.single_le_sum
  · intro x hx
    obtain ⟨j, hj, rfl⟩ := List.mem_map.mp hx
    obtain ⟨hjne, hjmem⟩ := hl.mem_erase_iff.mp hj
    exact h j hjmem hjne
  · exact List.mem_map_of_mem (hl.mem_erase_iff.mpr ⟨hne, hi⟩)

theorem sum_update (hl : l.Nodup) (hm : m ∈ l) (x : ℤ) :
    (l.map (Function.update f m x)).sum = x + others l f m := by
  rw [← add_others _ hm, Function.update_self]
  have hothers : others l (Function.update f m x) m = others l f m :=
    others_congr hl fun _ _ hne => Function.update_of_ne hne _ _
  omega

theorem sum_update_of_notMem (hm : m ∉ l) (x : ℤ) :
    (l.map (Function.update f m x)).sum = (l.map f).sum := by
  congr 1
  apply List.map_congr_left
  intro i hi
  exact Function.update_of_ne (ne_of_mem_of_not_mem hi hm) _ _

theorem settle_of_ne (hne : i ≠ m) : settle l f n m i = f i := Function.update_of_ne hne _ _

theorem settle_self (hm : m ∈ l) : settle l f n m m = f m + (n - (l.map f).sum) := by
  have hsum := add_others f hm
  rw [settle, Function.update_self]
  omega

theorem le_settle_iff (hm : m ∈ l) (x : ℤ) :
    (∀ i ∈ l, x ≤ settle l f n m i) ↔ (∀ i ∈ l, i ≠ m → x ≤ f i) ∧ others l f m ≤ n - x := by
  constructor
  · intro h
    refine ⟨fun i hi hne => ?_, ?_⟩
    · have hle := h i hi
      rwa [settle_of_ne hne] at hle
    · have hle := h m hm
      rw [settle, Function.update_self] at hle
      omega
  · rintro ⟨hrest, hothers⟩ i hi
    by_cases heq : i = m
    · rw [heq, settle, Function.update_self]
      omega
    · rw [settle_of_ne heq]
      exact hrest i hi heq

/-- The whole amount is given out. -/
theorem sum_settle (hl : l.Nodup) (hm : m ∈ l) : (l.map (settle l f n m)).sum = n := by
  rw [settle, sum_update hl hm]
  omega

end CpswDriver.Apportion
