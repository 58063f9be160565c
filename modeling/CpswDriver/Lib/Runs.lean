import Mathlib.Logic.Relation

/-!
Runs of a step function. A step takes a state and a label (the event that
happens next) and is undefined where the event cannot happen. `Run step ok`
collects the label sequences all of whose steps meet `ok`; an invariant that
one admissible step keeps holds along every such run.
-/

namespace CpswDriver.Runs

variable {σ ι : Type*}

/-- A run from one state to another through admissible steps. -/
inductive Run (step : σ → ι → Option σ) (ok : σ → ι → Prop) : σ → List ι → σ → Prop
  | nil (s : σ) : Run step ok s [] s
  | cons {s t u : σ} {l : ι} {ls : List ι} :
      ok s l → step s l = some t → Run step ok t ls u → Run step ok s (l :: ls) u

/-- Every step is admissible. -/
def anyStep : σ → ι → Prop := fun _ _ => True

@[simp] theorem anyStep_true (s : σ) (l : ι) : anyStep s l := trivial

instance (s : σ) (l : ι) : Decidable (anyStep s l) := inferInstanceAs (Decidable True)

/-- The executable run: perform the labels in order, stop where a step is
undefined or not admissible. -/
def exec (step : σ → ι → Option σ) (ok : σ → ι → Prop) [∀ s l, Decidable (ok s l)] :
    σ → List ι → Option σ
  | s, [] => some s
  | s, l :: ls => if ok s l then (step s l).bind fun t => exec step ok t ls else none

variable {step : σ → ι → Option σ} {ok ok' : σ → ι → Prop}

/-- The invariant rule: one admissible step keeps `I`, so every run keeps it. -/
theorem Run.invariant {I : σ → Prop}
    (hstep : ∀ s l t, I s → ok s l → step s l = some t → I t)
    {s t : σ} {ls : List ι} (h : Run step ok s ls t) (hs : I s) : I t := by
  induction h with
  | nil => exact hs
  | cons hok hst _ ih => exact ih (hstep _ _ _ hs hok hst)

theorem Run.mono (himp : ∀ s l, ok s l → ok' s l) {s t : σ} {ls : List ι}
    (h : Run step ok s ls t) : Run step ok' s ls t := by
  induction h with
  | nil => exact Run.nil _
  | cons hok hst _ ih => exact Run.cons (himp _ _ hok) hst ih

theorem Run.mem {s t : σ} {ls : List ι} (h : Run step ok s ls t) :
    Run step (fun s l => ok s l ∧ l ∈ ls) s ls t := by
  induction h with
  | nil => exact Run.nil _
  | cons hok hst _ ih =>
    refine Run.cons ⟨hok, List.mem_cons_self⟩ hst (ih.mono fun _ _ h => ?_)
    exact ⟨h.1, List.mem_cons_of_mem _ h.2⟩

theorem Run.append {s t u : σ} {ls ms : List ι}
    (h : Run step ok s ls t) (h' : Run step ok t ms u) : Run step ok s (ls ++ ms) u := by
  induction h with
  | nil => exact h'
  | cons hok hst _ ih => exact Run.cons hok hst (ih h')

theorem Run.single {s t : σ} {l : ι} (hst : step s l = some t) (hok : ok s l) :
    Run step ok s [l] t :=
  Run.cons hok hst (Run.nil t)

/-- What the executable run computes is a run. -/
theorem Run.of_exec [∀ s l, Decidable (ok s l)] : ∀ (ls : List ι) {s t : σ},
    exec step ok s ls = some t → Run step ok s ls t
  | [], s, t, h => by
    obtain rfl : s = t := Option.some.inj h
    exact Run.nil _
  | l :: ls, s, t, h => by
    unfold exec at h
    split at h
    · rename_i hok
      obtain ⟨r, hr, hrest⟩ := Option.bind_eq_some_iff.mp h
      exact Run.cons hok hr (Run.of_exec ls hrest)
    · cases h

theorem Run.exec_eq [∀ s l, Decidable (ok s l)] {s t : σ} {ls : List ι}
    (h : Run step ok s ls t) : exec step ok s ls = some t := by
  induction h with
  | nil => rfl
  | cons hok hst _ ih =>
    unfold exec
    rw [if_pos hok, hst, Option.bind_some, ih]

/-- A test that the executable run passes is met by a state some run reaches. -/
theorem exists_run_of_any [∀ s l, Decidable (ok s l)] {s : σ} {ls : List ι} {p : σ → Bool}
    (h : (exec step ok s ls).any p = true) : ∃ t, Run step ok s ls t ∧ p t = true := by
  cases ht : exec step ok s ls with
  | none => simp [ht] at h
  | some t => exact ⟨t, Run.of_exec ls ht, by simpa [ht] using h⟩

end CpswDriver.Runs
