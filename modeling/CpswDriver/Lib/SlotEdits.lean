import CpswDriver.Lib.Slots

/-!
Edits of a table of slots by key, one after another, and one pass over the whole
table. Where no two slots carry the same key, an edit that finds its slot by a search
changes just the entry with that key; a list of such edits then comes to one pass
over the entries whose keys are in the list, whatever the order of the list is.
-/

namespace CpswDriver.Slots

variable {ε κ : Type*} {key : ε → Option κ} {f : ε → ε} {p : ε → Bool}
  {t : List ε} {ks : List κ} {k : κ} {e : ε}

/-- The keys of the entries that a pass is for. -/
def keysOf (key : ε → Option κ) (p : ε → Bool) (t : List ε) : List κ := (t.filter p).filterMap key

theorem Unique.nodup_filterMap (h : Unique key t) : (t.filterMap key).Nodup := by
  induction t with
  | nil => exact List.nodup_nil
  | cons e t ih =>
    have htail : Unique key t := fun i j f f' k hi hj hf hf' =>
      Nat.succ_injective (h (i + 1) (j + 1) f f' k hi hj hf hf')
    cases hk : key e with
    | none =>
      rw [List.filterMap_cons_none hk]
      exact ih htail
    | some k =>
      rw [List.filterMap_cons_some hk, List.nodup_cons]
      refine ⟨fun hmem => ?_, ih htail⟩
      obtain ⟨f, hf, hkf⟩ := List.mem_filterMap.mp hmem
      obtain ⟨j, hj⟩ := List.getElem?_of_mem hf
      cases h 0 (j + 1) e f k rfl hj hk hkf

theorem Unique.nodup_keysOf (h : Unique key t) (p : ε → Bool) : (keysOf key p t).Nodup :=
  h.nodup_filterMap.sublist (List.filter_sublist.filterMap key)

theorem Unique.exists_key_iff (h : Unique key t) (hp : ∀ e, p e = true → (key e).isSome = true)
    (he : e ∈ t) : (∃ k ∈ keysOf key p t, key e = some k) ↔ p e = true := by
  unfold keysOf
  constructor
  · rintro ⟨k, hmem, hk⟩
    obtain ⟨e', he', hk'⟩ := List.mem_filterMap.mp hmem
    obtain ⟨hin, hpe⟩ := List.mem_filter.mp he'
    obtain ⟨i, hi⟩ := List.getElem?_of_mem he
    obtain ⟨j, hj⟩ := List.getElem?_of_mem hin
    obtain rfl := h i j e e' k hi hj hk hk'
    obtain rfl := Option.some.inj (hi.symm.trans hj)
    exact hpe
  · intro hpe
    obtain ⟨k, hk⟩ := Option.isSome_iff_exists.mp (hp e hpe)
    exact ⟨k, List.mem_filterMap.mpr ⟨e, List.mem_filter.mpr ⟨he, hpe⟩, hk⟩, hk⟩

variable [DecidableEq κ]

def edit (key : ε → Option κ) (f : ε → ε) (t : List ε) (k : κ) : List ε :=
  match slotOf key t k with
  | none => t
  | some i => t.modify i f

/-- The edit leaves an entry its key, or takes it away. -/
def KeepsKeys (key : ε → Option κ) (f : ε → ε) : Prop :=
  ∀ e, key (f e) = key e ∨ key (f e) = none

/-- One edit as a pass. -/
theorem Unique.edit_eq_map (h : Unique key t) (f : ε → ε) (k : κ) :
    edit key f t k = t.map fun e => if key e = some k then f e else e := by
  unfold edit
  cases hslot : slotOf key t k with
  | none =>
    have hnone := lookup_eq_none_iff.mp (slotOf_eq_none_iff.mp hslot)
    refine List.ext_getElem? fun i => ?_
    rw [List.getElem?_map]
    cases hi : t[i]? with
    | none => rfl
    | some e => rw [Option.map_some, if_neg (hnone i e hi)]
  | some i =>
    obtain ⟨old, hi, hk⟩ := slotOf_eq_some hslot
    refine List.ext_getElem? fun j => ?_
    rw [List.getElem?_modify, List.getElem?_map]
    cases hj : t[j]? with
    | none => rfl
    | some e =>
      rw [Option.map_eq_map, Option.map_some, Option.map_some]
      by_cases hij : i = j
      · subst hij
        obtain rfl := Option.some.inj (hi.symm.trans hj)
        rw [if_pos rfl, if_pos hk]
      · rw [if_neg hij, if_neg fun hcon => hij (h i j old e k hi hj hk hcon)]

/-- Edits with different keys come to one pass. -/
theorem Unique.foldl_edit_eq_map (h : Unique key t) (hf : KeepsKeys key f) (hks : ks.Nodup) :
    ks.foldl (edit key f) t = t.map fun e => if ∃ k ∈ ks, key e = some k then f e else e := by
  induction ks generalizing t with
  | nil => simp
  | cons k ks ih =>
    obtain ⟨hnew, hrest⟩ := List.nodup_cons.mp hks
    have hpass : ∀ e, key (if key e = some k then f e else e) = key e ∨
        key (if key e = some k then f e else e) = none := by
      intro e
      split
      · exact hf e
      · exact .inl rfl
    rw [List.foldl_cons, h.edit_eq_map, ih (h.map hpass) hrest, List.map_map]
    refine List.map_congr_left fun e _ => ?_
    rw [Function.comp_apply]
    by_cases hk : key e = some k
    · have hlater : ¬ ∃ k' ∈ ks, key (f e) = some k' := by
        rintro ⟨k', hmem, hcon⟩
        rcases hf e with hsame | hgone
        · obtain rfl := Option.some.inj (hk.symm.trans (hsame.symm.trans hcon))
          exact hnew hmem
        · rw [hgone] at hcon
          cases hcon
      rw [if_pos hk, if_neg hlater, if_pos ⟨k, List.mem_cons_self, hk⟩]
    · rw [if_neg hk]
      simp [hk]

/-- A pass over some entries is the edits by their keys, in any order. -/
theorem Unique.map_eq_foldl_edit (h : Unique key t) (hf : KeepsKeys key f)
    (hp : ∀ e, p e = true → (key e).isSome = true) (hks : ks.Perm (keysOf key p t)) :
    (t.map fun e => if p e then f e else e) = ks.foldl (edit key f) t := by
  rw [h.foldl_edit_eq_map hf (hks.nodup_iff.mpr (h.nodup_keysOf p))]
  refine List.map_congr_left fun e he => ?_
  have hiff : (∃ k ∈ ks, key e = some k) ↔ p e = true := by
    simp only [hks.mem_iff]
    exact h.exists_key_iff hp he
  by_cases hpe : p e = true
  · rw [if_pos hpe, if_pos (hiff.mpr hpe)]
  · rw [if_neg hpe, if_neg (mt hiff.mp hpe)]

end CpswDriver.Slots
