import Mathlib.Data.Finset.Basic
import Mathlib.Logic.Function.Basic

/-!
Resources that are each in exactly one place. `place p d` says that resource
`d` is found at place `p`; `Owned res place own` says that `own` names the one
place of each resource in `res` and that nothing else is found anywhere.
Moving a resource from one place to another updates `own` at that resource.
-/

namespace CpswDriver.Ownership

variable {ρ π : Type*}

def Owned (res : Finset ρ) (place : π → ρ → Prop) (own : ρ → π) : Prop :=
  ∀ p d, place p d ↔ d ∈ res ∧ own d = p

variable {res : Finset ρ} {place place' : π → ρ → Prop} {own : ρ → π} {p p' : π} {d : ρ}

theorem Owned.mem (h : Owned res place own) (hd : place p d) : d ∈ res := ((h p d).mp hd).1

theorem Owned.own_eq (h : Owned res place own) (hd : place p d) : own d = p := ((h p d).mp hd).2

theorem Owned.unique (h : Owned res place own) (hd : place p d) (hd' : place p' d) : p = p' :=
  (h.own_eq hd).symm.trans (h.own_eq hd')

theorem Owned.congr (h : Owned res place own) (hsame : ∀ p d, place' p d ↔ place p d) :
    Owned res place' own :=
  fun p d => (hsame p d).trans (h p d)

/-- `d` moves from `p` to `p'` and everything else stays where it is. -/
theorem Owned.move [DecidableEq ρ] (h : Owned res place own) (hd : place p d)
    (hself : ∀ p₀, place' p₀ d ↔ p' = p₀)
    (hrest : ∀ p₀ e, e ≠ d → (place' p₀ e ↔ place p₀ e)) :
    Owned res place' (Function.update own d p') := by
  intro p₀ e
  by_cases he : e = d
  · subst he
    rw [hself, Function.update_self]
    exact ⟨fun heq => ⟨h.mem hd, heq⟩, And.right⟩
  · rw [hrest p₀ e he, Function.update_of_ne he]
    exact h p₀ e

theorem Owned.transfer [DecidableEq ρ] (h : Owned res place own) (hd : place p d)
    (hgone : ¬ place' p d) (hnew : place' p' d)
    (hthird : ∀ p₀, p₀ ≠ p → p₀ ≠ p' → place' p₀ d → place p₀ d)
    (hrest : ∀ p₀ e, e ≠ d → (place' p₀ e ↔ place p₀ e)) :
    Owned res place' (Function.update own d p') := by
  refine h.move hd (fun p₀ => ⟨fun hp => ?_, fun heq => heq ▸ hnew⟩) hrest
  by_contra hne
  by_cases hp₀ : p₀ = p
  · exact hgone (hp₀ ▸ hp)
  · exact hp₀ (h.unique (hthird p₀ hp₀ (Ne.symm hne) hp) hd)

end CpswDriver.Ownership
