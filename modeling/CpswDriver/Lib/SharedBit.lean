import Mathlib.Logic.Function.Basic

/-!
A bit that several owners share. It should be set when one of them wants it, but
an owner that changes its mind writes its own wish there, without a look at the
others. That is enough as long as nobody clears what another owner wants.
-/

namespace CpswDriver.SharedBit

variable {ι : Type*} [DecidableEq ι] {owns wants : ι → Prop} {bit w : Prop} {i : ι}

/-- The bit is the union of what its owners want. -/
def Joint (owns wants : ι → Prop) (bit : Prop) : Prop := bit ↔ ∃ i, owns i ∧ wants i

/-- The owner `i`, who now wants `w`, takes nothing from the others. -/
def Spares (owns wants : ι → Prop) (i : ι) (w : Prop) : Prop :=
  ¬ w → owns i → ∀ j, j ≠ i → owns j → ¬ wants j

/-- An owner's own wish is the union exactly when it spares the others. -/
theorem joint_write_iff (hi : owns i) :
    Joint owns (Function.update wants i w) w ↔ Spares owns wants i w := by
  unfold Joint Spares
  constructor
  · intro h hw _ j hne hj hwants
    apply hw
    refine h.mpr ⟨j, hj, ?_⟩
    rwa [Function.update_of_ne hne]
  · intro h
    constructor
    · intro hw
      refine ⟨i, hi, ?_⟩
      rwa [Function.update_self]
    · intro hunion
      obtain ⟨j, hj, hwants⟩ := hunion
      by_contra hw
      by_cases hne : j = i
      · rw [hne, Function.update_self] at hwants
        exact hw hwants
      · rw [Function.update_of_ne hne] at hwants
        exact h hw hi j hne hj hwants

theorem joint_update_iff (hi : ¬ owns i) :
    Joint owns (Function.update wants i w) bit ↔ Joint owns wants bit := by
  have hunion : (∃ j, owns j ∧ Function.update wants i w j) ↔ ∃ j, owns j ∧ wants j := by
    apply exists_congr
    intro j
    apply and_congr_right
    intro hj
    have hne : j ≠ i := fun heq => hi (heq ▸ hj)
    rw [Function.update_of_ne hne]
  unfold Joint
  rw [hunion]

/-- A write by `i` of its own wish, where it is an owner: `bit'` is the bit after it. -/
theorem joint_iff_spares (h : Joint owns wants bit) {bit' : Prop} (hown : owns i → (bit' ↔ w))
    (hother : ¬ owns i → (bit' ↔ bit)) :
    Joint owns (Function.update wants i w) bit' ↔ Spares owns wants i w := by
  by_cases hi : owns i
  · rw [propext (hown hi)]
    exact joint_write_iff hi
  · rw [propext (hother hi), joint_update_iff hi]
    exact iff_of_true h fun _ hcon => absurd hcon hi

end CpswDriver.SharedBit
