import Mathlib.Data.List.Basic
import Mathlib.Data.Nat.Notation

/-!
Actions that wait in a queue, each on the value of one key. What the queue is
going to make of a key is the actions for that key, one after the other. Taking
an action out from the middle of the queue and performing it changes nothing of
that as long as no earlier action in the queue has its key.
-/

namespace CpswDriver.Replay

variable {ι κ α : Type*} [DecidableEq κ] {key : ι → κ} {act : ι → α → α} {l : List ι} {w : ι}
  {k : κ} {v : α} {i : ℕ}

/-- What the queue makes of the value `v` of the key `k`. -/
def replay (key : ι → κ) (act : ι → α → α) : List ι → κ → α → α
  | [], _, v => v
  | w :: l, k, v => replay key act l k (if key w = k then act w v else v)

theorem replay_cons_self (w : ι) (l : List ι) (v : α) :
    replay key act (w :: l) (key w) v = replay key act l (key w) (act w v) := by
  rw [replay, if_pos rfl]

theorem replay_cons_ne (h : key w ≠ k) (l : List ι) (v : α) :
    replay key act (w :: l) k v = replay key act l k v := by
  rw [replay, if_neg h]

/-- A key that no action in the queue has. -/
theorem replay_of_none (h : ∀ w ∈ l, key w ≠ k) (v : α) : replay key act l k v = v := by
  induction l with
  | nil => rfl
  | cons u l ih =>
    rw [replay_cons_ne (h u List.mem_cons_self)]
    exact ih fun w hw => h w (List.mem_cons_of_mem u hw)

/-- An action that joins the queue is the last one for its key. -/
theorem replay_append (w : ι) (l : List ι) (k : κ) (v : α) :
    replay key act (l ++ [w]) k v =
      if key w = k then act w (replay key act l k v) else replay key act l k v := by
  induction l generalizing v with
  | nil => rfl
  | cons u l ih => exact ih _

/-- Other keys do not notice that an action is gone. -/
theorem replay_eraseIdx_ne (hw : l[i]? = some w) (h : key w ≠ k) (v : α) :
    replay key act (l.eraseIdx i) k v = replay key act l k v := by
  induction l generalizing i v with
  | nil => rfl
  | cons u l ih =>
    cases i with
    | zero =>
      obtain rfl : u = w := Option.some.inj hw
      exact (replay_cons_ne h l v).symm
    | succ i =>
      rw [List.eraseIdx_cons_succ]
      by_cases hu : key u = k
      · subst hu
        rw [replay_cons_self, replay_cons_self]
        exact ih hw (act u v)
      · rw [replay_cons_ne hu, replay_cons_ne hu]
        exact ih hw v

/-- The first action for a key may be performed out of turn. -/
theorem replay_eraseIdx_self (hw : l[i]? = some w)
    (hfirst : ∀ u ∈ l.take i, key u ≠ key w) (v : α) :
    replay key act (l.eraseIdx i) (key w) (act w v) = replay key act l (key w) v := by
  induction l generalizing i with
  | nil => cases hw
  | cons u l ih =>
    cases i with
    | zero =>
      obtain rfl : u = w := Option.some.inj hw
      exact (replay_cons_self u l v).symm
    | succ i =>
      rw [List.take_succ_cons] at hfirst
      have hu : key u ≠ key w := hfirst u List.mem_cons_self
      rw [List.eraseIdx_cons_succ, replay_cons_ne hu, replay_cons_ne hu]
      exact ih hw fun u' hu' => hfirst u' (List.mem_cons_of_mem u hu')

end CpswDriver.Replay
