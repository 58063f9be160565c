import CpswDriver.Lib.Runs

/-!
Simulation of a step function by a relation on abstract states. A step of the
concrete system is matched by any number of abstract steps, none included, so
what the abstract steps keep holds along every concrete run.
-/

namespace CpswDriver.Runs

variable {σ ι α : Type*} {step : σ → ι → Option σ} {ok : σ → ι → Prop} {R : α → α → Prop}
  {abs : σ → α}

/-- On states that meet `I`, which admissible steps keep, the relation matches every step. -/
structure Simulates (step : σ → ι → Option σ) (ok : σ → ι → Prop) (R : α → α → Prop)
    (abs : σ → α) (I : σ → Prop) : Prop where
  keeps : ∀ s l t, I s → ok s l → step s l = some t → I t
  matched : ∀ s l t, I s → ok s l → step s l = some t →
    Relation.ReflTransGen R (abs s) (abs t)

/-- An invariant of the abstract steps, after any number of them. -/
theorem reach_invariant {P : α → Prop} (hstep : ∀ a b, P a → R a b → P b) {a b : α}
    (h : Relation.ReflTransGen R a b) (ha : P a) : P b := by
  induction h with
  | refl => exact ha
  | tail _ hlast ih => exact hstep _ _ ih hlast

/-- A concrete run is matched by an abstract one. -/
theorem Run.matched {I : σ → Prop} (hsim : Simulates step ok R abs I) {s t : σ} {ls : List ι}
    (h : Run step ok s ls t) (hs : I s) : I t ∧ Relation.ReflTransGen R (abs s) (abs t) := by
  induction h with
  | nil => exact ⟨hs, .refl⟩
  | cons hok hst _ ih =>
    obtain ⟨ht, hrest⟩ := ih (hsim.keeps _ _ _ hs hok hst)
    exact ⟨ht, (hsim.matched _ _ _ hs hok hst).trans hrest⟩

/-- What every abstract step keeps, every concrete run keeps. -/
theorem Run.abstract_invariant {I : σ → Prop} {P : α → Prop}
    (hsim : Simulates step ok R abs I) (hstep : ∀ a b, P a → R a b → P b) {s t : σ}
    {ls : List ι} (h : Run step ok s ls t) (hs : I s) (hP : P (abs s)) : P (abs t) :=
  reach_invariant hstep (h.matched hsim hs).2 hP

end CpswDriver.Runs
