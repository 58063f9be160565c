import Mathlib.Data.List.Basic
import Mathlib.Logic.Function.Basic

/-!
Threads that run straight lines of actions, interleaved action by action. An
action may leave something undone that a later action makes good. If each
action that opens such a debt is followed by one that pays it, then every debt
of a state has a thread that still has to pay it, whatever the order of the
actions, and once all threads are at their ends nothing is owed.
-/

namespace CpswDriver.Promises

variable {τ α β : Type*}

/-- What the actions of the threads open and pay. -/
structure Ledger (τ α β : Type*) where
  opens : τ → α → β → Prop
  pays : α → β → Prop

variable {L : Ledger τ α β} {t : τ} {a : α} {as bs : List α} {b : β} {code : τ → List α}

/-- A thread still has to pay. -/
def Due (L : Ledger τ α β) (code : τ → List α) (b : β) : Prop :=
  ∃ t, ∃ a ∈ code t, L.pays a b

/-- Each action that opens a debt is followed by one that pays it. -/
def Follows (L : Ledger τ α β) (t : τ) : List α → Prop
  | [] => True
  | a :: as => (∀ b, L.opens t a b → ∃ c ∈ as, L.pays c b) ∧ Follows L t as

theorem Follows.append (h : Follows L t as) (h' : Follows L t bs) : Follows L t (as ++ bs) := by
  induction as with
  | nil => exact h'
  | cons a as ih =>
    refine ⟨fun b hb => ?_, ih h.2⟩
    obtain ⟨c, hc, hpays⟩ := h.1 b hb
    exact ⟨c, List.mem_append_left bs hc, hpays⟩

theorem follows_of_opens_nothing (h : ∀ a ∈ as, ∀ b, ¬ L.opens t a b) : Follows L t as := by
  induction as with
  | nil => trivial
  | cons a as ih =>
    refine ⟨fun b hb => absurd hb (h a List.mem_cons_self b), ih fun c hc => ?_⟩
    exact h c (List.mem_cons_of_mem a hc)

theorem Follows.append_of_paid (h : Follows L t as)
    (hpaid : ∀ a ∈ bs, ∀ b, L.opens t a b → ∃ c ∈ as, L.pays c b) : Follows L t (bs ++ as) := by
  induction bs with
  | nil => exact h
  | cons a bs ih =>
    refine ⟨fun b hb => ?_, ih fun d hd => hpaid d (List.mem_cons_of_mem a hd)⟩
    obtain ⟨c, hc, hpays⟩ := hpaid a List.mem_cons_self b hb
    exact ⟨c, List.mem_append_right bs hc, hpays⟩

theorem Follows.pays_of_mem (h : Follows L t as) (ha : a ∈ as) (hb : L.opens t a b) :
    ∃ c ∈ as, L.pays c b := by
  induction as with
  | nil => cases ha
  | cons d as ih =>
    rcases List.mem_cons.mp ha with rfl | htail
    · obtain ⟨c, hc, hpays⟩ := h.1 b hb
      exact ⟨c, List.mem_cons_of_mem a hc, hpays⟩
    · obtain ⟨c, hc, hpays⟩ := ih h.2 htail
      exact ⟨c, List.mem_cons_of_mem d hc, hpays⟩

section Moves

variable [DecidableEq τ]

theorem due_of_mem {new : List α} (ha : a ∈ new) (hpays : L.pays a b) :
    Due L (Function.update code t new) b :=
  ⟨t, a, by rwa [Function.update_self], hpays⟩

/-- An action that does not pay a debt leaves its payer where it is. -/
theorem Due.pop (h : Due L code b) (ht : code t = a :: as) (hpays : ¬ L.pays a b)
    (new : List α) : Due L (Function.update code t (new ++ as)) b := by
  obtain ⟨u, c, hc, hpaysc⟩ := h
  by_cases hu : u = t
  · subst hu
    rw [ht] at hc
    rcases List.mem_cons.mp hc with rfl | htail
    · exact absurd hpaysc hpays
    · exact due_of_mem (List.mem_append_right new htail) hpaysc
  · exact ⟨u, c, by rwa [Function.update_of_ne hu], hpaysc⟩

end Moves

/-- Every debt has its payer. -/
structure Paid (L : Ledger τ α β) (owed : β → Prop) (code : τ → List α) : Prop where
  follows : ∀ t, Follows L t (code t)
  due : ∀ b, owed b → Due L code b

variable {owed owed' : β → Prop}

theorem Paid.nothing_owed (h : Paid L owed code) (hidle : ∀ t, code t = []) (b : β) :
    ¬ owed b := by
  intro hb
  obtain ⟨t, a, ha, -⟩ := h.due b hb
  rw [hidle t] at ha
  cases ha

variable [DecidableEq τ]

/-- A thread performs its next action, which may put others before the rest of its line: a debt of
the new state is one that the action opened, or has a payer apart from the action. -/
theorem Paid.perform (h : Paid L owed code) (ht : code t = a :: as) {new : List α}
    (hnew : Follows L t (new ++ as))
    (hdebt : ∀ b, owed' b → L.opens t a b ∨ (∃ c ∈ new, L.pays c b) ∨ (owed b ∧ ¬ L.pays a b) ∨
      Due L (Function.update code t (new ++ as)) b) :
    Paid L owed' (Function.update code t (new ++ as)) := by
  refine ⟨fun u => ?_, fun b hb => ?_⟩
  · by_cases hu : u = t
    · subst hu
      rwa [Function.update_self]
    · rw [Function.update_of_ne hu]
      exact h.follows u
  · have hline : Follows L t (a :: as) := ht ▸ h.follows t
    rcases hdebt b hb with hopens | ⟨c, hc, hpays⟩ | ⟨howed, hpays⟩ | hdue
    · obtain ⟨c, hc, hpays⟩ := hline.1 b hopens
      exact due_of_mem (List.mem_append_right new hc) hpays
    · exact due_of_mem (List.mem_append_left as hc) hpays
    · exact (h.due b howed).pop ht hpays new
    · exact hdue

theorem Paid.start (h : Paid L owed code) (ht : code t = []) {new : List α}
    (hnew : Follows L t new) (hdebt : ∀ b, owed' b → owed b ∨ ∃ c ∈ new, L.pays c b) :
    Paid L owed' (Function.update code t new) := by
  refine ⟨fun u => ?_, fun b hb => ?_⟩
  · by_cases hu : u = t
    · subst hu
      rwa [Function.update_self]
    · rw [Function.update_of_ne hu]
      exact h.follows u
  · rcases hdebt b hb with howed | ⟨c, hc, hpays⟩
    · obtain ⟨u, c, hc, hpays⟩ := h.due b howed
      have hu : u ≠ t := by
        rintro rfl
        rw [ht] at hc
        cases hc
      exact ⟨u, c, by rwa [Function.update_of_ne hu], hpays⟩
    · exact due_of_mem hc hpays

end CpswDriver.Promises
