import CpswDriver.Lib.Ownership
import Mathlib.Data.List.Nodup
import Mathlib.Data.Finset.Insert

/-!
Places that each hold a list of things. A thing that one place passes on to
another stays in exactly one place, and a new thing starts in one.
-/

namespace CpswDriver.Custody

open Ownership

variable {π ρ : Type*}

/-- The things of `res` are each in one place, there once, and nothing else is anywhere. -/
structure Kept (res : Finset ρ) (books : π → List ρ) : Prop where
  owned : ∃ own, Owned res (fun p d => d ∈ books p) own
  nodup : ∀ p, (books p).Nodup

variable {res : Finset ρ} {books : π → List ρ} {p p' p₀ : π} {d e : ρ}

theorem Kept.mem (h : Kept res books) (hd : d ∈ books p) : d ∈ res := by
  obtain ⟨own, howned⟩ := h.owned
  exact howned.mem hd

theorem Kept.unique (h : Kept res books) (hd : d ∈ books p) (hd' : d ∈ books p') : p = p' := by
  obtain ⟨own, howned⟩ := h.owned
  exact howned.unique hd hd'

theorem Kept.existsUnique (h : Kept res books) (hd : d ∈ res) : ∃! p, d ∈ books p := by
  obtain ⟨own, howned⟩ := h.owned
  exact ⟨own d, (howned _ _).mpr ⟨hd, rfl⟩, fun p hp => (howned.own_eq hp).symm⟩

variable [DecidableEq π]

def give (books : π → List ρ) (p : π) (d : ρ) : π → List ρ :=
  Function.update books p (books p ++ [d])

theorem mem_give : e ∈ give books p d p₀ ↔ e ∈ books p₀ ∨ p₀ = p ∧ e = d := by
  unfold give
  by_cases hp : p₀ = p
  · subst hp
    simp
  · simp [hp]

theorem nodup_give (hnodup : ∀ p, (books p).Nodup) (hd : d ∉ books p) (p₀ : π) :
    (give books p d p₀).Nodup := by
  unfold give
  by_cases hp : p₀ = p
  · subst hp
    rw [Function.update_self, ← List.concat_eq_append]
    exact (hnodup p₀).concat hd
  · rw [Function.update_of_ne hp]
    exact hnodup p₀

variable [DecidableEq ρ]

def drop (books : π → List ρ) (p : π) (d : ρ) : π → List ρ :=
  Function.update books p ((books p).erase d)

/-- `p` passes `d` on to `p'`. -/
def pass (books : π → List ρ) (p p' : π) (d : ρ) : π → List ρ := give (drop books p d) p' d

theorem mem_drop (hnodup : (books p).Nodup) :
    e ∈ drop books p d p₀ ↔ e ∈ books p₀ ∧ ¬ (p₀ = p ∧ e = d) := by
  unfold drop
  by_cases hp : p₀ = p
  · subst hp
    rw [Function.update_self, hnodup.mem_erase_iff]
    simp [and_comm]
  · simp [hp]

theorem nodup_drop (hnodup : ∀ p, (books p).Nodup) (p : π) (d : ρ) (p₀ : π) :
    (drop books p d p₀).Nodup := by
  unfold drop
  by_cases hp : p₀ = p
  · subst hp
    rw [Function.update_self]
    exact (hnodup p₀).erase d
  · rw [Function.update_of_ne hp]
    exact hnodup p₀

theorem Kept.mem_pass (h : Kept res books) (hd : d ∈ books p) :
    e ∈ pass books p p' d p₀ ↔ e ≠ d ∧ e ∈ books p₀ ∨ e = d ∧ p₀ = p' := by
  unfold pass
  rw [mem_give, mem_drop (h.nodup p)]
  by_cases he : e = d
  · subst he
    have hhere : e ∈ books p₀ → p₀ = p := fun hmem => h.unique hmem hd
    simp only [ne_eq, not_true, and_true, false_and, true_and, false_or]
    exact ⟨fun hmem => hmem.elim (fun hother => absurd (hhere hother.1) hother.2) id, .inr⟩
  · simp [he]

/-- Passing a thing on keeps everything in one place. -/
theorem Kept.pass (h : Kept res books) (hd : d ∈ books p) (p' : π) :
    Kept res (pass books p p' d) := by
  obtain ⟨own, howned⟩ := h.owned
  have hmem : ∀ p₀ e, e ∈ Custody.pass books p p' d p₀ ↔
      e ≠ d ∧ e ∈ books p₀ ∨ e = d ∧ p₀ = p' := fun _ _ => h.mem_pass hd
  have hgone : d ∉ drop books p d p' := by
    rw [mem_drop (h.nodup p)]
    exact fun hmem => hmem.2 ⟨h.unique hmem.1 hd, rfl⟩
  have hmoved : Owned res (fun p₀ e => e ∈ Custody.pass books p p' d p₀)
      (Function.update own d p') := by
    refine howned.move hd (fun p₀ => ?_) fun p₀ e he => ?_
    · rw [hmem]
      simp [eq_comm]
    · rw [hmem]
      simp [he]
  exact ⟨⟨_, hmoved⟩, nodup_give (nodup_drop h.nodup p d) hgone⟩

theorem Kept.create (h : Kept res books) (hd : d ∉ res) (p : π) :
    Kept (insert d res) (give books p d) := by
  obtain ⟨own, howned⟩ := h.owned
  have hnew : ∀ p₀, d ∉ books p₀ := fun p₀ hmem => hd (howned.mem hmem)
  have hcreated : Owned (insert d res) (fun p₀ e => e ∈ give books p d p₀)
      (Function.update own d p) := by
    intro p₀ e
    dsimp only
    rw [mem_give]
    by_cases he : e = d
    · subst he
      rw [Function.update_self]
      simp [hnew p₀, eq_comm]
    · have hold : e ∈ books p₀ ↔ e ∈ res ∧ own e = p₀ := howned p₀ e
      rw [Function.update_of_ne he, Finset.mem_insert, hold]
      simp [he]
  exact ⟨⟨_, hcreated⟩, nodup_give h.nodup (hnew p)⟩

end CpswDriver.Custody
