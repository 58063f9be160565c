import CpswDriver.Lib.Slots
import Mathlib.Data.Finset.Insert

/-!
Several entries put into a table of slots one after another, where the entries
already put are removed again, by a search, if one finds no slot. Which slots
are taken can be told from the table before: each search looks outside the slots
of the searches before it.
-/

namespace CpswDriver.Rollback

variable {ε : Type*}

/-- The first slot outside `taken` with an entry that `p` accepts. -/
def outside (taken : Finset ℕ) (p : ε → Bool) (t : List ε) : Option ℕ :=
  (List.range t.length).find? fun i => decide (i ∉ taken) && (t[i]?).any p

/-- The slot for an entry that `p` finds: the entry's own, else a free one, else one
that may be evicted. -/
def slotFor (free evict : ε → Bool) (taken : Finset ℕ) (p : ε → Bool) (t : List ε) : Option ℕ :=
  (outside taken p t).or ((outside taken free t).or (outside taken evict t))

/-- The slots of several searches one after another, up to the first without a slot. -/
def slotsFor (free evict : ε → Bool) (t : List ε) : Finset ℕ → List (ε → Bool) → List ℕ
  | _, [] => []
  | taken, p :: ps =>
    match slotFor free evict taken p t with
    | none => []
    | some i => i :: slotsFor free evict t (insert i taken) ps

/-- An entry to put: how it is found, what is written, and what its removal leaves
in its slot. -/
structure Put (ε : Type*) where
  finds : ε → Bool
  entry : List ε → ε
  gone : List ε → ℕ → ε

def Put.remove (x : Put ε) (t : List ε) : List ε :=
  match t.findIdx? x.finds with
  | none => t
  | some i => t.set i (x.gone t i)

/-- Puts entries, and removes them, the last one first, if one finds no slot. -/
def putAll (free evict : ε → Bool) : List (Put ε) → List ε → List ε × Bool
  | [], t => (t, true)
  | x :: xs, t =>
    match slotFor free evict ∅ x.finds t with
    | none => (t, false)
    | some i =>
      let (t', ok) := putAll free evict xs (t.set i (x.entry t))
      if ok then (t', true) else (x.remove t', false)

section Searches

variable {free evict p : ε → Bool} {t : List ε} {taken : Finset ℕ} {i j : ℕ} {e e' : ε}

theorem outside_eq_some (h : outside taken p t = some i) :
    i ∉ taken ∧ ∃ e, t[i]? = some e ∧ p e = true := by
  have hi := List.find?_some h
  simp only [Bool.and_eq_true, decide_eq_true_eq, Option.any_eq_true] at hi
  exact hi

/-- No slot before the first one is accepted. -/
theorem outside_first (h : outside taken p t = some i) (hj : j < i) (hnot : j ∉ taken)
    (he : t[j]? = some e) : p e = false := by
  have hbefore := (List.find?_range_eq_some.mp h).2.2 j hj
  simpa [hnot, he] using hbefore

theorem outside_eq_none (h : outside taken p t = none) (hnot : j ∉ taken) (he : t[j]? = some e) :
    p e = false := by
  have hj : j < t.length := (List.getElem?_eq_some_iff.mp he).1
  have hno := List.find?_eq_none.mp h j (List.mem_range.mpr hj)
  simpa [hnot, he] using hno

theorem outside_empty (p : ε → Bool) (t : List ε) : outside ∅ p t = t.findIdx? p := by
  cases hfind : t.findIdx? p with
  | none =>
    rw [List.findIdx?_eq_none_iff] at hfind
    unfold outside
    rw [List.find?_eq_none]
    intro i _
    cases he : t[i]? with
    | none => simp
    | some e => simp [hfind e (List.mem_of_getElem? he)]
  | some i =>
    obtain ⟨hi, hp, hbefore⟩ := List.findIdx?_eq_some_iff_getElem.mp hfind
    unfold outside
    rw [List.find?_range_eq_some]
    refine ⟨by simp [hi, hp], List.mem_range.mpr hi, fun j hj => ?_⟩
    have hlt : j < t.length := hj.trans hi
    simp [hlt, hbefore j hj]

/-- A search that passes over an entry acts as if its slot were taken. -/
theorem outside_set (h : p e' = false) (taken : Finset ℕ) (t : List ε) (i : ℕ) :
    outside taken p (t.set i e') = outside (insert i taken) p t := by
  unfold outside
  rw [List.length_set]
  congr 1
  funext j
  by_cases hj : j = i
  · subst hj
    rw [List.getElem?_set_self']
    cases t[j]? <;> simp [h]
  · rw [List.getElem?_set_ne (Ne.symm hj)]
    simp [hj]

theorem slotFor_set (hp : p e' = false) (hfree : free e' = false) (hevict : evict e' = false)
    (taken : Finset ℕ) (t : List ε) (i : ℕ) :
    slotFor free evict taken p (t.set i e') = slotFor free evict (insert i taken) p t := by
  unfold slotFor
  rw [outside_set hp, outside_set hfree, outside_set hevict]

theorem slotsFor_set {ps : List (ε → Bool)} (hps : ∀ p ∈ ps, p e' = false)
    (hfree : free e' = false) (hevict : evict e' = false) (taken : Finset ℕ) (t : List ε) (i : ℕ) :
    slotsFor free evict (t.set i e') taken ps = slotsFor free evict t (insert i taken) ps := by
  induction ps generalizing taken with
  | nil => rfl
  | cons p ps ih =>
    unfold slotsFor
    rw [slotFor_set (hps p List.mem_cons_self) hfree hevict]
    cases slotFor free evict (insert i taken) p t with
    | none => rfl
    | some j =>
      dsimp only
      rw [ih (fun q hq => hps q (List.mem_cons_of_mem p hq)), Finset.insert_comm]

theorem slotFor_eq_some (h : slotFor free evict taken p t = some i) : i ∉ taken ∧
    ∃ e, t[i]? = some e ∧ (p e = true ∨ free e = true ∨ evict e = true) := by
  unfold slotFor at h
  cases hp : outside taken p t with
  | some j =>
    rw [hp] at h
    obtain rfl : j = i := Option.some.inj h
    obtain ⟨hnot, e, he, hpe⟩ := outside_eq_some hp
    exact ⟨hnot, e, he, .inl hpe⟩
  | none =>
    rw [hp, Option.none_or] at h
    cases hfree : outside taken free t with
    | some j =>
      rw [hfree] at h
      obtain rfl : j = i := Option.some.inj h
      obtain ⟨hnot, e, he, hfe⟩ := outside_eq_some hfree
      exact ⟨hnot, e, he, .inr (.inl hfe)⟩
    | none =>
      rw [hfree, Option.none_or] at h
      obtain ⟨hnot, e, he, hee⟩ := outside_eq_some h
      exact ⟨hnot, e, he, .inr (.inr hee)⟩

/-- No slot before the one for `p` holds an entry that `p` accepts. -/
theorem slotFor_first (h : slotFor free evict taken p t = some i) (hj : j < i) (hnot : j ∉ taken)
    (he : t[j]? = some e) : p e = false := by
  unfold slotFor at h
  cases hp : outside taken p t with
  | some i' =>
    rw [hp] at h
    obtain rfl : i' = i := Option.some.inj h
    exact outside_first hp hj hnot he
  | none => exact outside_eq_none hp hnot he

theorem slotsFor_not_taken {ps : List (ε → Bool)} (h : i ∈ slotsFor free evict t taken ps) :
    i ∉ taken := by
  induction ps generalizing taken with
  | nil => cases h
  | cons p ps ih =>
    unfold slotsFor at h
    split at h
    · cases h
    rename_i j hj
    rcases List.mem_cons.mp h with rfl | hrest
    · exact (slotFor_eq_some hj).1
    · exact fun hmem => ih hrest (Finset.mem_insert_of_mem hmem)

theorem slotsFor_length_le (taken : Finset ℕ) (t : List ε) (ps : List (ε → Bool)) :
    (slotsFor free evict t taken ps).length ≤ ps.length := by
  induction ps generalizing taken with
  | nil => exact Nat.le_refl 0
  | cons p ps ih =>
    unfold slotsFor
    cases slotFor free evict taken p t with
    | none => exact Nat.zero_le _
    | some i => exact Nat.succ_le_succ (ih (insert i taken))

end Searches

/-- Entries that later searches pass over and that their own searches find again. -/
structure Undoable (free evict : ε → Bool) (xs : List (Put ε)) : Prop where
  solid : ∀ x ∈ xs, ∀ t, free (x.entry t) = false ∧ evict (x.entry t) = false
  apart : xs.Pairwise fun x y => ∀ t, y.finds (x.entry t) = false
  found : ∀ x ∈ xs, ∀ t, x.finds (x.entry t) = true
  gone : ∀ x ∈ xs, ∀ t i, free (x.gone t i) = true
  spare : ∀ x ∈ xs, ∀ e, free e = true → x.finds e = false

/-- The table after a failure: the slots that were taken are free, the others as before. -/
structure Undone (free : ε → Bool) (t : List ε) (slots : List ℕ) (t' : List ε) : Prop where
  freed : ∀ j ∈ slots, ∃ e, t'[j]? = some e ∧ free e = true
  kept : ∀ j ∉ slots, t'[j]? = t[j]?

section Puts

variable {free evict : ε → Bool} {t t' : List ε} {x : Put ε} {xs : List (Put ε)} {i : ℕ}

theorem Undoable.tail (h : Undoable free evict (x :: xs)) : Undoable free evict xs where
  solid := fun y hy => h.solid y (List.mem_cons_of_mem x hy)
  apart := (List.pairwise_cons.mp h.apart).2
  found := fun y hy => h.found y (List.mem_cons_of_mem x hy)
  gone := fun y hy => h.gone y (List.mem_cons_of_mem x hy)
  spare := fun y hy => h.spare y (List.mem_cons_of_mem x hy)

theorem putAll_none (h : slotFor free evict ∅ x.finds t = none) :
    putAll free evict (x :: xs) t = (t, false) := by
  unfold putAll
  rw [h]

theorem putAll_some (h : slotFor free evict ∅ x.finds t = some i) :
    putAll free evict (x :: xs) t =
      if (putAll free evict xs (t.set i (x.entry t))).2 = true then
        ((putAll free evict xs (t.set i (x.entry t))).1, true)
      else (x.remove (putAll free evict xs (t.set i (x.entry t))).1, false) := by
  rw [putAll, h]

/-- After the first entry, the slots of the others are those outside its slot. -/
theorem slotsFor_put (hsolid : free (x.entry t) = false ∧ evict (x.entry t) = false)
    (hapart : ∀ y ∈ xs, y.finds (x.entry t) = false) (i : ℕ) :
    slotsFor free evict (t.set i (x.entry t)) ∅ (xs.map Put.finds) =
      slotsFor free evict t {i} (xs.map Put.finds) := by
  apply slotsFor_set _ hsolid.1 hsolid.2
  intro p hp
  obtain ⟨y, hy, rfl⟩ := List.mem_map.mp hp
  exact hapart y hy

/-- The puts succeed if every search has a slot. -/
theorem putAll_ok_iff (hsolid : ∀ x ∈ xs, ∀ t, free (x.entry t) = false ∧ evict (x.entry t) = false)
    (hapart : xs.Pairwise fun x y => ∀ t, y.finds (x.entry t) = false) (t : List ε) :
    (putAll free evict xs t).2 = true ↔
      (slotsFor free evict t ∅ (xs.map Put.finds)).length = xs.length := by
  induction xs generalizing t with
  | nil => simp [putAll, slotsFor]
  | cons x xs ih =>
    obtain ⟨hhead, htail⟩ := List.pairwise_cons.mp hapart
    have hrest := ih (fun y hy => hsolid y (List.mem_cons_of_mem x hy)) htail
    simp only [putAll, slotsFor, List.map_cons]
    cases slotFor free evict ∅ x.finds t with
    | none => simp
    | some i =>
      have hput := hrest (t.set i (x.entry t))
      rw [slotsFor_put (hsolid x List.mem_cons_self t) (fun y hy => hhead y hy t) i] at hput
      dsimp only
      rw [List.length_cons, List.length_cons, Nat.add_right_cancel_iff, insert_empty_eq, ← hput]
      split <;> simp_all

/-- A removal frees the slot that the entry was put into. -/
theorem Undone.remove (hx : Undoable free evict (x :: xs))
    (hslot : slotFor free evict ∅ x.finds t = some i) {slots : List ℕ} (hi : i ∉ slots)
    (h : Undone free (t.set i (x.entry t)) slots t') :
    Undone free t (i :: slots) (x.remove t') := by
  have hlen : i < t.length := by
    obtain ⟨-, e, he, -⟩ := slotFor_eq_some hslot
    exact (List.getElem?_eq_some_iff.mp he).1
  have hself : t'[i]? = some (x.entry t) := by
    rw [h.kept i hi, List.getElem?_set_self hlen]
  obtain ⟨hlen', hget⟩ := List.getElem?_eq_some_iff.mp hself
  have hfind : t'.findIdx? x.finds = some i := by
    rw [List.findIdx?_eq_some_iff_getElem]
    refine ⟨hlen', ?_, fun j hj => ?_⟩
    · rw [hget]
      exact hx.found x List.mem_cons_self t
    · have hj' : t'[j]? = some t'[j] := List.getElem?_eq_getElem (hj.trans hlen')
      rw [Bool.not_eq_true]
      by_cases hmem : j ∈ slots
      · obtain ⟨e, he, hfree⟩ := h.freed j hmem
        obtain rfl : e = t'[j] := Option.some.inj (he.symm.trans hj')
        exact hx.spare x List.mem_cons_self _ hfree
      · rw [h.kept j hmem, List.getElem?_set_ne (Nat.ne_of_gt hj)] at hj'
        exact slotFor_first hslot hj (Finset.notMem_empty j) hj'
  unfold Put.remove
  rw [hfind]
  dsimp only
  constructor
  · intro j hj
    by_cases heq : j = i
    · rw [heq, List.getElem?_set_self hlen']
      exact ⟨_, rfl, hx.gone x List.mem_cons_self t' i⟩
    · rw [List.getElem?_set_ne (Ne.symm heq)]
      exact h.freed j ((List.mem_cons.mp hj).resolve_left heq)
  · intro j hj
    rw [List.mem_cons, not_or] at hj
    rw [List.getElem?_set_ne (Ne.symm hj.1), h.kept j hj.2, List.getElem?_set_ne (Ne.symm hj.1)]

/-- A failure frees the slots that it has taken, whatever they held before. -/
theorem putAll_undone (h : Undoable free evict xs) (hfail : (putAll free evict xs t).2 = false) :
    Undone free t (slotsFor free evict t ∅ (xs.map Put.finds)) (putAll free evict xs t).1 := by
  induction xs generalizing t with
  | nil => cases hfail
  | cons x xs ih =>
    simp only [putAll, slotsFor, List.map_cons] at hfail ⊢
    cases hslot : slotFor free evict ∅ x.finds t with
    | none =>
      exact ⟨fun j hj => absurd hj List.not_mem_nil, fun _ _ => rfl⟩
    | some i =>
      rw [hslot] at hfail
      dsimp only at hfail ⊢
      have hok : (putAll free evict xs (t.set i (x.entry t))).2 = false := by
        cases hok : (putAll free evict xs (t.set i (x.entry t))).2
        · rfl
        · rw [hok, if_pos rfl] at hfail
          cases hfail
      have hrest := ih h.tail hok
      rw [slotsFor_put (h.solid x List.mem_cons_self t)
        (fun y hy => (List.pairwise_cons.mp h.apart).1 y hy t) i] at hrest
      rw [hok, if_neg Bool.false_ne_true, insert_empty_eq]
      have hi : i ∉ slotsFor free evict t {i} (xs.map Put.finds) := fun hmem =>
        slotsFor_not_taken hmem (Finset.mem_singleton_self i)
      exact hrest.remove h hslot hi

/-- Searches that find nothing leave every entry that is not to spare where it is. -/
theorem putAll_blind (hblind : ∀ x ∈ xs, ∀ e, x.finds e = false) {e : ε} (he : t[i]? = some e)
    (hfree : free e = false) (hevict : evict e = false) :
    (putAll free evict xs t).1[i]? = some e := by
  induction xs generalizing t with
  | nil => exact he
  | cons x xs ih =>
    have hx := hblind x List.mem_cons_self
    simp only [putAll]
    cases hslot : slotFor free evict ∅ x.finds t with
    | none => exact he
    | some j =>
      obtain ⟨-, old, hold, hspare⟩ := slotFor_eq_some hslot
      have hne : j ≠ i := by
        rintro rfl
        obtain rfl : old = e := Option.some.inj (hold.symm.trans he)
        rw [hx, hfree, hevict] at hspare
        simp at hspare
      have hset : (t.set j (x.entry t))[i]? = some e := (List.getElem?_set_ne hne).trans he
      have hrest := ih (fun y hy => hblind y (List.mem_cons_of_mem x hy)) hset
      dsimp only
      split
      · exact hrest
      · have hnone : (putAll free evict xs (t.set j (x.entry t))).1.findIdx? x.finds = none :=
          List.findIdx?_eq_none_iff.mpr fun y _ => hx y
        unfold Put.remove
        rw [hnone]
        exact hrest

/-- With such searches the first entry stays in its slot. -/
theorem putAll_blind_head (hblind : ∀ y ∈ x :: xs, ∀ e, y.finds e = false)
    (hsolid : free (x.entry t) = false ∧ evict (x.entry t) = false)
    (hslot : slotFor free evict ∅ x.finds t = some i) :
    (putAll free evict (x :: xs) t).1[i]? = some (x.entry t) := by
  obtain ⟨-, old, hold, -⟩ := slotFor_eq_some hslot
  have hset : (t.set i (x.entry t))[i]? = some (x.entry t) :=
    List.getElem?_set_self (List.getElem?_eq_some_iff.mp hold).1
  have hrest := putAll_blind (fun y hy => hblind y (List.mem_cons_of_mem x hy)) hset
    hsolid.1 hsolid.2
  rw [putAll_some hslot]
  split
  · exact hrest
  · have hnone : (putAll free evict xs (t.set i (x.entry t))).1.findIdx? x.finds = none :=
      List.findIdx?_eq_none_iff.mpr fun e _ => hblind x List.mem_cons_self e
    unfold Put.remove
    rw [hnone]
    exact hrest

theorem Undone.filter_eq_iff {slots : List ℕ} {worth : ε → Bool}
    (hfree : ∀ e, free e = true → worth e = false) (h : Undone free t slots t') :
    (∀ i : ℕ, (t'[i]?).filter worth = (t[i]?).filter worth) ↔
      ∀ i ∈ slots, (t[i]?).filter worth = none := by
  have hgone : ∀ i ∈ slots, (t'[i]?).filter worth = none := by
    intro i hi
    obtain ⟨e, he, hfe⟩ := h.freed i hi
    rw [he, Option.filter_some_neg]
    simp [hfree e hfe]
  constructor
  · intro heq i hi
    rw [← heq i, hgone i hi]
  · intro hnone i
    by_cases hi : i ∈ slots
    · rw [hgone i hi, hnone i hi]
    · rw [h.kept i hi]

end Puts

end CpswDriver.Rollback
