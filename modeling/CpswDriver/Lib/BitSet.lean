import Mathlib.Algebra.Group.Nat.Defs
import Mathlib.Data.Finset.Basic
import Mathlib.Data.List.FinRange

/-!
Sets of numbered things as words, a bit for each of them. Or-ing in a word is
union, and-ing with a complement is difference, and a word tells its set.
-/

namespace CpswDriver.BitSet

variable {n w : ℕ} {s t : Finset (Fin n)} {i : Fin n}

/-- The word whose bits are the members of the set. -/
def toWord (w : ℕ) (s : Finset (Fin n)) : BitVec w :=
  (List.finRange n).foldr (fun i v => if i ∈ s then v ||| (1#w <<< i.val) else v) 0

theorem getLsbD_foldr (s : Finset (Fin n)) (l : List (Fin n)) (j : ℕ) :
    (l.foldr (fun i v => if i ∈ s then v ||| (1#w <<< i.val) else v) 0).getLsbD j = true ↔
      j < w ∧ ∃ i ∈ l, i ∈ s ∧ i.val = j := by
  have hone : ∀ k : ℕ, (1#w <<< k).getLsbD j = true ↔ j < w ∧ k = j := by
    intro k
    rw [← BitVec.twoPow_eq, BitVec.getLsbD_twoPow]
    simp
    omega
  induction l with
  | nil => simp
  | cons a l ih =>
    rw [List.foldr_cons]
    by_cases ha : a ∈ s
    · rw [if_pos ha, BitVec.getLsbD_or, Bool.or_eq_true, hone]
      constructor
      · rintro (hset | ⟨hj, heq⟩)
        · obtain ⟨hj, i, hi, hrest⟩ := ih.mp hset
          exact ⟨hj, i, List.mem_cons_of_mem _ hi, hrest⟩
        · exact ⟨hj, a, List.mem_cons_self, ha, heq⟩
      · rintro ⟨hj, i, hi, hs, heq⟩
        rcases List.mem_cons.mp hi with rfl | hi
        · exact .inr ⟨hj, heq⟩
        · exact .inl (ih.mpr ⟨hj, i, hi, hs, heq⟩)
    · rw [if_neg ha]
      constructor
      · intro hset
        obtain ⟨hj, i, hi, hrest⟩ := ih.mp hset
        exact ⟨hj, i, List.mem_cons_of_mem _ hi, hrest⟩
      · rintro ⟨hj, i, hi, hs, heq⟩
        rcases List.mem_cons.mp hi with rfl | hi
        · exact absurd hs ha
        · exact ih.mpr ⟨hj, i, hi, hs, heq⟩

theorem getLsbD_toWord (s : Finset (Fin n)) (j : ℕ) :
    (toWord w s).getLsbD j = true ↔ j < w ∧ ∃ i ∈ s, i.val = j := by
  unfold toWord
  rw [getLsbD_foldr]
  simp

theorem getLsbD_toWord_mem (hn : n ≤ w) (i : Fin n) : (toWord w s).getLsbD i = true ↔ i ∈ s := by
  rw [getLsbD_toWord]
  constructor
  · rintro ⟨-, j, hj, heq⟩
    rwa [← Fin.ext heq]
  · intro hi
    exact ⟨by omega, i, hi, rfl⟩

theorem eq_toWord {v : BitVec w} (hn : n ≤ w) (hlo : ∀ i : Fin n, v.getLsbD i = true ↔ i ∈ s)
    (hhi : ∀ j, n ≤ j → v.getLsbD j = false) : v = toWord w s := by
  apply BitVec.eq_of_getLsbD_eq
  intro j hj
  by_cases hlt : j < n
  · rw [Bool.eq_iff_iff]
    exact (hlo ⟨j, hlt⟩).trans (getLsbD_toWord_mem hn ⟨j, hlt⟩).symm
  · rw [hhi j (Nat.not_lt.mp hlt), eq_comm, Bool.eq_false_iff]
    intro hset
    obtain ⟨-, i, -, heq⟩ := (getLsbD_toWord s j).mp hset
    omega

theorem getLsbD_toWord_of_le {j : ℕ} (hj : n ≤ j) : (toWord w s).getLsbD j = false := by
  rw [Bool.eq_false_iff]
  intro hset
  obtain ⟨-, i, -, heq⟩ := (getLsbD_toWord s j).mp hset
  omega

theorem toWord_empty : toWord w (∅ : Finset (Fin n)) = 0 := by
  unfold toWord
  induction List.finRange n with
  | nil => rfl
  | cons a l ih =>
    rw [List.foldr_cons, if_neg (Finset.notMem_empty a)]
    exact ih

theorem toWord_singleton (hn : n ≤ w) (i : Fin n) : toWord w {i} = 1#w <<< i.val := by
  symm
  have hone : ∀ j : ℕ, (1#w <<< i.val).getLsbD j = true ↔ j < w ∧ i.val = j := by
    intro j
    rw [← BitVec.twoPow_eq, BitVec.getLsbD_twoPow]
    simp
    omega
  apply eq_toWord hn
  · intro j
    rw [hone, Finset.mem_singleton, Fin.ext_iff]
    omega
  · intro j hj
    rw [Bool.eq_false_iff]
    intro hset
    have := (hone j).mp hset
    omega

theorem toWord_union (hn : n ≤ w) (s t : Finset (Fin n)) :
    toWord w (s ∪ t) = toWord w s ||| toWord w t := by
  symm
  apply eq_toWord hn
  · intro i
    rw [BitVec.getLsbD_or, Bool.or_eq_true, getLsbD_toWord_mem hn, getLsbD_toWord_mem hn,
      Finset.mem_union]
  · intro j hj
    rw [BitVec.getLsbD_or, getLsbD_toWord_of_le hj, getLsbD_toWord_of_le hj]
    rfl

theorem toWord_inter (hn : n ≤ w) (s t : Finset (Fin n)) :
    toWord w (s ∩ t) = toWord w s &&& toWord w t := by
  symm
  apply eq_toWord hn
  · intro i
    rw [BitVec.getLsbD_and, Bool.and_eq_true, getLsbD_toWord_mem hn, getLsbD_toWord_mem hn,
      Finset.mem_inter]
  · intro j hj
    rw [BitVec.getLsbD_and, getLsbD_toWord_of_le hj]
    rfl

theorem toWord_sdiff (hn : n ≤ w) (s t : Finset (Fin n)) :
    toWord w (s \ t) = toWord w s &&& ~~~toWord w t := by
  symm
  apply eq_toWord hn
  · intro i
    have hi : i.val < w := by omega
    rw [BitVec.getLsbD_and, BitVec.getLsbD_not, Bool.and_eq_true, Bool.and_eq_true,
      Bool.not_eq_true', Bool.eq_false_iff, ne_eq, getLsbD_toWord_mem hn, getLsbD_toWord_mem hn,
      Finset.mem_sdiff]
    simp [hi]
  · intro j hj
    rw [BitVec.getLsbD_and, getLsbD_toWord_of_le hj]
    rfl

theorem toWord_injective (hn : n ≤ w) : Function.Injective (toWord w (n := n)) := by
  intro s t h
  ext i
  rw [← getLsbD_toWord_mem hn, h, getLsbD_toWord_mem hn]

theorem toWord_eq_zero_iff (hn : n ≤ w) : toWord w s = 0 ↔ s = ∅ := by
  rw [← toWord_empty]
  exact (toWord_injective hn).eq_iff

theorem toNat_toWord_lt (s : Finset (Fin n)) : (toWord w s).toNat < 2 ^ n := by
  apply Nat.lt_pow_two_of_testBit
  intro j hj
  rw [BitVec.testBit_toNat, getLsbD_toWord_of_le hj]

end CpswDriver.BitSet
