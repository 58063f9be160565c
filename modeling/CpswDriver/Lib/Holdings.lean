import Mathlib.Data.Finset.Basic
import Mathlib.Logic.Function.Basic

/-!
Several clients share one finite map. Each client has a book of the keys it
holds, and `Held` says that every key in a book has a value that suits its
holder. A change of the map keeps the books good as long as it spoils no key
that somebody else holds.
-/

namespace CpswDriver.Holdings

variable {π κ ν : Type*}

def Held (suits : π → κ → ν → Prop) (book : π → Finset κ) (m : κ → Option ν) : Prop :=
  ∀ p k, k ∈ book p → ∃ v, m k = some v ∧ suits p k v

/-- A value that suits a client goes on suiting it, unless its key is in `gone`. -/
def Keeps (suits : π → κ → ν → Prop) (gone : Set κ) (m m' : κ → Option ν) : Prop :=
  ∀ p k v, k ∉ gone → m k = some v → suits p k v → ∃ v', m' k = some v' ∧ suits p k v'

variable {suits : π → κ → ν → Prop} {book : π → Finset κ} {gone gone' : Set κ}
  {m m' m'' : κ → Option ν} {p : π} {k : κ}

theorem keeps_of_eq (h : ∀ k, k ∉ gone → m' k = m k) : Keeps suits gone m m' :=
  fun _ k v hk hv hsuits => ⟨v, (h k hk).trans hv, hsuits⟩

theorem Keeps.mono (h : Keeps suits gone m m') (hsub : gone ⊆ gone') : Keeps suits gone' m m' :=
  fun p k v hk hv hsuits => h p k v (fun hmem => hk (hsub hmem)) hv hsuits

theorem Keeps.trans (h : Keeps suits gone m m') (h' : Keeps suits gone m' m'') :
    Keeps suits gone m m'' := by
  intro p k v hk hv hsuits
  obtain ⟨v', hv', hsuits'⟩ := h p k v hk hv hsuits
  exact h' p k v' hk hv' hsuits'

/-- Books that hold nothing which is gone, and nothing new that does not suit. -/
theorem Held.change {book' : π → Finset κ} (h : Held suits book m) (hkeeps : Keeps suits gone m m')
    (hbook : ∀ p k, k ∈ book' p → (k ∈ book p ∧ k ∉ gone) ∨ ∃ v, m' k = some v ∧ suits p k v) :
    Held suits book' m' := by
  intro p k hk
  rcases hbook p k hk with ⟨hold, hstay⟩ | hnew
  · obtain ⟨v, hv, hsuits⟩ := h p k hold
    exact hkeeps p k v hstay hv hsuits
  · exact hnew

theorem Held.keep (h : Held suits book m) (hkeeps : Keeps suits ∅ m m') : Held suits book m' :=
  h.change hkeeps fun _ _ hk => .inl ⟨hk, fun hmem => hmem⟩

section Books

variable [DecidableEq π] [DecidableEq κ]

/-- Client `p` takes `k`. -/
def take (book : π → Finset κ) (p : π) (k : κ) : π → Finset κ :=
  Function.update book p (insert k (book p))

/-- Client `p` lets go of the keys with `c`. -/
def letGo (book : π → Finset κ) (p : π) (c : κ → Prop) [DecidablePred c] : π → Finset κ :=
  Function.update book p ((book p).filter fun k => ¬ c k)

variable {c : κ → Prop} [DecidablePred c]

theorem mem_take {q : π} {k' : κ} :
    k' ∈ take book p k q ↔ k' ∈ book q ∨ q = p ∧ k' = k := by
  unfold take
  by_cases hq : q = p
  · subst hq
    simp [or_comm]
  · simp [hq]

omit [DecidableEq κ] in
theorem mem_letGo {q : π} {k' : κ} :
    k' ∈ letGo book p c q ↔ k' ∈ book q ∧ ¬ (q = p ∧ c k') := by
  unfold letGo
  by_cases hq : q = p
  · subst hq
    simp
  · simp [hq]

/-- A client takes a key; nothing that the others hold goes. -/
theorem Held.take (h : Held suits book m) (hkeeps : Keeps suits gone m m')
    (hgone : ∀ q, ∀ k' ∈ gone, k' ∈ book q → q = p ∧ k' = k)
    (hnew : ∃ v, m' k = some v ∧ suits p k v) : Held suits (take book p k) m' := by
  refine h.change hkeeps fun q k' hk' => ?_
  rcases mem_take.mp hk' with hold | ⟨rfl, rfl⟩
  · by_cases hmem : k' ∈ gone
    · obtain ⟨rfl, rfl⟩ := hgone q k' hmem hold
      exact .inr hnew
    · exact .inl ⟨hold, hmem⟩
  · exact .inr hnew

omit [DecidableEq κ] in
theorem Held.letGo (h : Held suits book m) (hkeeps : Keeps suits {k | c k} m m')
    (hothers : ∀ q, q ≠ p → ∀ k ∈ book q, ¬ c k) : Held suits (letGo book p c) m' := by
  refine h.change hkeeps fun q k hk => ?_
  obtain ⟨hold, hstay⟩ := mem_letGo.mp hk
  refine .inl ⟨hold, fun hc => ?_⟩
  by_cases hq : q = p
  · exact hstay ⟨hq, hc⟩
  · exact hothers q hq k hold hc

end Books

end CpswDriver.Holdings
