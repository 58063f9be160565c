import Mathlib.Data.List.Nodup
import Mathlib.Data.List.Basic

/-!
Singly linked lists threaded through a `next` function, with a null pointer.
`Chain null next a l` says that following `next` from `a` visits exactly the
nodes of `l` and then reaches null. The rules cover the three edits a queue
makes: append behind the last node, drop the first node, and change `next`
away from the list.
-/

namespace CpswDriver.LinkedList

variable {α : Type*}

def Chain (null : α) (next : α → α) : α → List α → Prop
  | a, [] => a = null
  | a, d :: l => a = d ∧ d ≠ null ∧ Chain null next (next d) l

/-- Follow `next` until null, at most `fuel` nodes. -/
def walk [DecidableEq α] (null : α) (next : α → α) : ℕ → α → List α
  | 0, _ => []
  | fuel + 1, a => if a = null then [] else a :: walk null next fuel (next a)

variable {null : α} {next next' : α → α}

@[simp] theorem chain_nil (a : α) : Chain null next a [] ↔ a = null := Iff.rfl

@[simp] theorem chain_cons (a d : α) (l : List α) :
    Chain null next a (d :: l) ↔ a = d ∧ d ≠ null ∧ Chain null next (next d) l := Iff.rfl

theorem Chain.head_null_iff {a : α} {l : List α} (h : Chain null next a l) :
    a = null ↔ l = [] := by
  cases l with
  | nil => simpa using h
  | cons d l =>
    obtain ⟨rfl, hne, -⟩ := h
    simp [hne]

theorem Chain.head_ne_null {a : α} {l : List α} (h : Chain null next a l) (ha : a ≠ null) :
    ∃ l', l = a :: l' ∧ Chain null next (next a) l' := by
  cases l with
  | nil => exact absurd h ha
  | cons d l =>
    obtain ⟨rfl, -, hl⟩ := h
    exact ⟨l, rfl, hl⟩

theorem Chain.unique : ∀ {l l' : List α} {a : α},
    Chain null next a l → Chain null next a l' → l = l'
  | [], l', a, h, h' => ((h'.head_null_iff).mp h).symm
  | d :: l, l', a, h, h' => by
    obtain ⟨rfl, hne, hl⟩ := h
    obtain ⟨l'', rfl, hl''⟩ := h'.head_ne_null hne
    rw [hl.unique hl'']

/-- Only `next` on the list itself matters. -/
theorem Chain.congr {l : List α} : ∀ {a : α}, Chain null next a l →
    (∀ d ∈ l, next' d = next d) → Chain null next' a l := by
  induction l with
  | nil => exact fun h _ => h
  | cons e l ih =>
    rintro a ⟨rfl, hne, hl⟩ heq
    refine ⟨rfl, hne, ?_⟩
    rw [heq a (List.mem_cons_self ..)]
    exact ih hl fun d hd => heq d (List.mem_cons_of_mem _ hd)

/-- Appending `d` behind a list whose last node now points to it. -/
theorem Chain.snoc {d : α} (hd : d ≠ null) (hnull : next' d = null) {l : List α} :
    ∀ {a : α}, Chain null next a l → l.Nodup → l ≠ [] →
    (∀ e ∈ l, l.getLast? = some e → next' e = d) →
    (∀ e ∈ l, l.getLast? ≠ some e → next' e = next e) →
    Chain null next' a (l ++ [d]) := by
  induction l with
  | nil => exact fun _ _ h => absurd rfl h
  | cons e l ih =>
    rintro a ⟨rfl, hne, hl⟩ hnd - hlast hrest
    refine ⟨rfl, hne, ?_⟩
    cases l with
    | nil =>
      have hlink : next' a = d := hlast a (List.mem_cons_self ..) rfl
      exact ⟨hlink, hd, hnull⟩
    | cons f l =>
      have hnot : a ∉ f :: l := (List.nodup_cons.mp hnd).1
      have hkeep : next' a = next a := hrest a (List.mem_cons_self ..) (by
        intro h
        rw [List.getLast?_cons_cons] at h
        exact hnot (List.mem_of_getLast? h))
      change Chain null next' (next' a) ((f :: l) ++ [d])
      rw [hkeep]
      refine ih hl (List.nodup_cons.mp hnd).2 (by simp) ?_ ?_
      · intro g hg hl'
        exact hlast g (List.mem_cons_of_mem _ hg) (by rw [List.getLast?_cons_cons]; exact hl')
      · intro g hg hl'
        exact hrest g (List.mem_cons_of_mem _ hg) (by rw [List.getLast?_cons_cons]; exact hl')

theorem Chain.walk_eq [DecidableEq α] {l : List α} : ∀ {a : α}, Chain null next a l →
    walk null next l.length a = l := by
  induction l with
  | nil => exact fun _ => rfl
  | cons d l ih =>
    rintro a ⟨rfl, hne, hl⟩
    simp [walk, hne, ih hl]

/-- Every suffix of a list is the list that starts at its own first node. -/
theorem Chain.drop {l₁ l₂ : List α} {d : α} : ∀ {a : α},
    Chain null next a (l₁ ++ d :: l₂) → Chain null next d (d :: l₂) := by
  induction l₁ with
  | nil =>
    rintro a ⟨rfl, hne, hl⟩
    exact ⟨rfl, hne, hl⟩
  | cons e l₁ ih =>
    rintro a ⟨rfl, -, hl⟩
    exact ih hl

end CpswDriver.LinkedList
