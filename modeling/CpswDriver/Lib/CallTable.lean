import Mathlib.Algebra.BigOperators.Group.List.Basic
import Mathlib.Algebra.Order.BigOperators.Group.List

/-!
A table of concurrent calls: call number `i` stands at the `i`-th entry, a new
call is appended, and a call that moves on replaces its entry. `total f` adds
up what the calls hold; moving one call changes the total by what that call
gives up and takes.
-/

namespace CpswDriver.CallTable

variable {α M : Type*} [AddCommMonoid M]

def total (f : α → M) (calls : List α) : M := (calls.map f).sum

@[simp] theorem total_nil (f : α → M) : total f [] = 0 := rfl

@[simp] theorem total_cons (f : α → M) (a : α) (l : List α) :
    total f (a :: l) = f a + total f l := by simp [total]

@[simp] theorem total_append (f : α → M) (l l' : List α) :
    total f (l ++ l') = total f l + total f l' := by simp [total]

theorem total_spawn (f : α → M) (l : List α) (a : α) (ha : f a = 0) :
    total f (l ++ [a]) = total f l := by simp [ha]

theorem total_set (f : α → M) : ∀ {l : List α} {i : ℕ} {a : α} (b : α), l[i]? = some a →
    total f (l.set i b) + f a = total f l + f b
  | [], _, _, _, h => by simp at h
  | c :: l, 0, a, b, h => by
    obtain rfl : c = a := by simpa using h
    simp only [List.set_cons_zero, total_cons]
    calc f b + total f l + f c = f c + (f b + total f l) := add_comm _ _
      _ = f c + (total f l + f b) := by rw [add_comm (f b)]
      _ = f c + total f l + f b := (add_assoc _ _ _).symm
  | c :: l, i + 1, a, b, h => by
    have ih := total_set f b (l := l) (i := i) (a := a) (by simpa using h)
    simp only [List.set_cons_succ, total_cons, add_assoc, ih]

theorem total_set_of_eq (f : α → M) {l : List α} {i : ℕ} {a : α} (b : α) (h : l[i]? = some a)
    (hab : f b = f a) : total f (l.set i b) = total f l := by
  induction l generalizing i with
  | nil => rfl
  | cons c l ih =>
    cases i with
    | zero =>
      obtain rfl : c = a := by simpa using h
      simp [hab]
    | succ i =>
      simp only [List.set_cons_succ, total_cons]
      rw [ih (by simpa using h)]

theorem total_congr (f g : α → M) {l : List α} (h : ∀ a ∈ l, f a = g a) :
    total f l = total g l := by
  unfold total
  rw [List.map_congr_left h]

/-- After call `i` has moved to `b`, an entry is the new one or an old one. -/
theorem getElem?_set_cases {l : List α} {i j : ℕ} {b c : α} (h : (l.set i b)[j]? = some c) :
    (j = i ∧ c = b) ∨ (j ≠ i ∧ l[j]? = some c) := by
  rw [List.getElem?_set] at h
  split at h
  · split at h
    · exact Or.inl ⟨by omega, (Option.some.inj h).symm⟩
    · cases h
  · exact Or.inr ⟨by omega, h⟩

theorem getElem?_set_self {l : List α} {i : ℕ} {a b : α} (h : l[i]? = some a) :
    (l.set i b)[i]? = some b := by
  obtain ⟨hlt, -⟩ := List.getElem?_eq_some_iff.mp h
  simp [hlt]

theorem getElem?_spawn_cases {l : List α} {j : ℕ} {b c : α} (h : (l ++ [b])[j]? = some c) :
    (j = l.length ∧ c = b) ∨ l[j]? = some c := by
  rw [List.getElem?_append] at h
  split at h
  · exact Or.inr h
  · rename_i hj
    obtain ⟨hlt, hget⟩ := List.getElem?_eq_some_iff.mp h
    simp only [List.length_singleton] at hlt
    refine Or.inl ⟨by omega, ?_⟩
    simpa using hget.symm

end CpswDriver.CallTable
