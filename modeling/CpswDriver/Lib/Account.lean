import Mathlib.Algebra.Order.Group.Multiset
import Mathlib.Tactic.Abel

/-!
A party that is given things to deal with. What it was given it has given back
again, or is done with, or holds still. It is done with nothing twice, and holds
nothing that it is done with, if it is given nothing that it has. A thing that
was given back may be given again.
-/

namespace CpswDriver.Account

variable {ρ : Type*} {given back done held ts held' : Multiset ρ}

structure Balanced (given back done held : Multiset ρ) : Prop where
  conserved : given = back + done + held
  once : (done + held).Nodup

theorem Balanced.start : Balanced (0 : Multiset ρ) 0 0 0 := ⟨rfl, Multiset.nodup_zero⟩

/-- Things that are given have to be new. -/
structure Fresh (done held ts : Multiset ρ) : Prop where
  nodup : ts.Nodup
  new : ∀ t ∈ ts, t ∉ done ∧ t ∉ held

instance [DecidableEq ρ] (done held ts : Multiset ρ) : Decidable (Fresh done held ts) :=
  decidable_of_iff (ts.Nodup ∧ ∀ t ∈ ts, t ∉ done ∧ t ∉ held)
    ⟨fun h => ⟨h.1, h.2⟩, fun h => ⟨h.nodup, h.new⟩⟩

theorem Balanced.give (h : Balanced given back done held) (hts : Fresh done held ts) :
    Balanced (given + ts) back done (held + ts) := by
  refine ⟨by rw [h.conserved, add_assoc], ?_⟩
  rw [← add_assoc]
  refine Multiset.nodup_add.mpr ⟨h.once, hts.nodup, Multiset.disjoint_left.mpr ?_⟩
  intro t hmem hnew
  obtain ⟨hdone, hheld⟩ := hts.new t hnew
  exact (Multiset.mem_add.mp hmem).elim hdone hheld

theorem Balanced.giveBack (h : Balanced given back done held) (hheld : held = held' + ts) :
    Balanced given (back + ts) done held' := by
  subst hheld
  refine ⟨?_, ?_⟩
  · rw [h.conserved]
    abel
  · have honce := h.once
    rw [← add_assoc] at honce
    exact Multiset.nodup_of_le (Multiset.le_add_right _ _) honce

theorem Balanced.finish (h : Balanced given back done held) (hheld : held = held' + ts) :
    Balanced given back (done + ts) held' := by
  subst hheld
  have hsum : done + ts + held' = done + (held' + ts) := by abel
  refine ⟨?_, ?_⟩
  · rw [h.conserved, add_assoc back, ← hsum]
    abel
  · rw [hsum]
    exact h.once

/-- A thing that is held is held once. -/
theorem Balanced.notMem (h : Balanced given back done (held + ts)) {t : ρ} (ht : t ∈ ts) :
    t ∉ held := by
  have honce := Multiset.nodup_of_le (Multiset.le_add_left _ _) h.once
  intro hmem
  exact Multiset.disjoint_left.mp (Multiset.nodup_add.mp honce).2.2 hmem ht

/-- When nothing is held any more, each thing was given back or is done with. -/
theorem Balanced.settled (h : Balanced given back done 0) :
    given = back + done ∧ done.Nodup := by
  refine ⟨by rw [h.conserved, add_zero], ?_⟩
  have honce := h.once
  rwa [add_zero] at honce

end CpswDriver.Account
