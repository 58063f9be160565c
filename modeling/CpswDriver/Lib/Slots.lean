import Mathlib.Data.List.Basic
import Mathlib.Data.Option.Basic
import Mathlib.Data.Finset.Card

/-!
Tables of slots searched from the front, as hardware lookup tables are. Some
entries carry a key, and no two slots may carry the same one. The table then is
a finite map, and a write to one slot, or to every slot, acts on that map.
-/

namespace CpswDriver.Slots

variable {ε κ : Type*} [DecidableEq κ]

/-- No two slots carry the same key. -/
def Unique (key : ε → Option κ) (t : List ε) : Prop :=
  ∀ (i j : ℕ) e e' k, t[i]? = some e → t[j]? = some e' → key e = some k → key e' = some k → i = j

/-- The entry for a key. -/
def lookup (key : ε → Option κ) (t : List ε) (k : κ) : Option ε := t.find? fun e => key e = some k

/-- The first slot with a key. -/
def slotOf (key : ε → Option κ) (t : List ε) (k : κ) : Option ℕ :=
  t.findIdx? fun e => key e = some k

/-- Where an entry for a key goes: over the old one, else to the first free
slot, else over the first entry that may be evicted. -/
def place (key : ε → Option κ) (free evict : ε → Bool) (t : List ε) (k : κ) : Option ℕ :=
  (slotOf key t k).or ((t.findIdx? free).or (t.findIdx? evict))

/-- Every key of the slot `i` after a write there is a key of no other slot. -/
def Fresh (key : ε → Option κ) (t : List ε) (i : ℕ) (e' : ε) : Prop :=
  ∀ k, key e' = some k → ∀ (j : ℕ) e, t[j]? = some e → key e = some k → j = i

variable {key : ε → Option κ} {free evict : ε → Bool} {t : List ε} {i : ℕ} {k : κ} {e e' old : ε}

theorem findIdx?_some {p : ε → Bool} (h : t.findIdx? p = some i) :
    ∃ e, t[i]? = some e ∧ p e = true := by
  obtain ⟨hi, hp, -⟩ := List.findIdx?_eq_some_iff_getElem.mp h
  exact ⟨t[i], List.getElem?_eq_getElem hi, hp⟩

theorem lookup_eq_none_iff :
    lookup key t k = none ↔ ∀ (i : ℕ) e, t[i]? = some e → key e ≠ some k := by
  rw [lookup, List.find?_eq_none]
  constructor
  · intro h i e hi
    simpa using h e (List.mem_of_getElem? hi)
  · intro h e he
    obtain ⟨i, hi⟩ := List.getElem?_of_mem he
    simpa using h i e hi

theorem Unique.lookup_eq_some_iff (h : Unique key t) :
    lookup key t k = some e ↔ ∃ i : ℕ, t[i]? = some e ∧ key e = some k := by
  constructor
  · intro hl
    obtain ⟨i, hi⟩ := List.getElem?_of_mem (List.mem_of_find?_eq_some hl)
    exact ⟨i, hi, by simpa using List.find?_some hl⟩
  · rintro ⟨i, hi, hk⟩
    cases hl : lookup key t k with
    | none => exact absurd hk (lookup_eq_none_iff.mp hl i e hi)
    | some e' =>
      obtain ⟨j, hj⟩ := List.getElem?_of_mem (List.mem_of_find?_eq_some hl)
      have hk' : key e' = some k := by simpa using List.find?_some hl
      obtain rfl : i = j := h i j e e' k hi hj hk hk'
      exact congrArg some (Option.some.inj (hj.symm.trans hi))

theorem slotOf_eq_some (h : slotOf key t k = some i) :
    ∃ e, t[i]? = some e ∧ key e = some k := by
  obtain ⟨e, hi, hk⟩ := findIdx?_some h
  exact ⟨e, hi, by simpa using hk⟩

theorem slotOf_eq_none_iff : slotOf key t k = none ↔ lookup key t k = none := by
  rw [slotOf, lookup, List.findIdx?_eq_none_iff, List.find?_eq_none]
  simp

theorem place_eq_none_iff : place key free evict t k = none ↔
    lookup key t k = none ∧ (∀ e ∈ t, free e = false) ∧ ∀ e ∈ t, evict e = false := by
  rw [place, Option.or_eq_none_iff, Option.or_eq_none_iff, slotOf_eq_none_iff,
    List.findIdx?_eq_none_iff, List.findIdx?_eq_none_iff]

theorem place_eq_some (h : place key free evict t k = some i) : ∃ old, t[i]? = some old ∧
    (key old = some k ∨
      lookup key t k = none ∧
        (free old = true ∨ (∀ e ∈ t, free e = false) ∧ evict old = true)) := by
  unfold place at h
  cases hslot : slotOf key t k with
  | some j =>
    rw [hslot] at h
    obtain rfl : j = i := Option.some.inj h
    obtain ⟨old, hi, hk⟩ := slotOf_eq_some hslot
    exact ⟨old, hi, .inl hk⟩
  | none =>
    rw [hslot, Option.none_or] at h
    have hnone := slotOf_eq_none_iff.mp hslot
    cases hfree : t.findIdx? free with
    | some j =>
      rw [hfree] at h
      obtain rfl : j = i := Option.some.inj h
      obtain ⟨old, hi, hold⟩ := findIdx?_some hfree
      exact ⟨old, hi, .inr ⟨hnone, .inl hold⟩⟩
    | none =>
      rw [hfree, Option.none_or] at h
      obtain ⟨old, hi, hold⟩ := findIdx?_some h
      exact ⟨old, hi, .inr ⟨hnone, .inr ⟨List.findIdx?_eq_none_iff.mp hfree, hold⟩⟩⟩

def NoneBefore (key : ε → Option κ) (t : List ε) (k : κ) (i : ℕ) : Prop :=
  ∀ j < i, ∀ e, t[j]? = some e → key e ≠ some k

theorem noneBefore_of_slotOf (h : slotOf key t k = some i) : NoneBefore key t k i := by
  obtain ⟨hi, -, hbefore⟩ := List.findIdx?_eq_some_iff_getElem.mp h
  intro j hj e he hk
  obtain ⟨hlt, rfl⟩ := List.getElem?_eq_some_iff.mp he
  exact hbefore j hj (by simpa using hk)

theorem noneBefore_of_place (h : place key free evict t k = some i) :
    i < t.length ∧ NoneBefore key t k i := by
  have hlt : i < t.length := by
    obtain ⟨old, hi, -⟩ := place_eq_some h
    exact (List.getElem?_eq_some_iff.mp hi).1
  refine ⟨hlt, ?_⟩
  unfold place at h
  cases hslot : slotOf key t k with
  | none => exact fun j _ e he => lookup_eq_none_iff.mp (slotOf_eq_none_iff.mp hslot) j e he
  | some i' =>
    rw [hslot] at h
    obtain rfl : i' = i := Option.some.inj h
    exact noneBefore_of_slotOf hslot

theorem lookup_set_first (hi : i < t.length) (hbefore : NoneBefore key t k i)
    (hk : key e' = some k) : lookup key (t.set i e') k = some e' := by
  induction t generalizing i with
  | nil => cases hi
  | cons e t ih =>
    cases i with
    | zero => simp [lookup, hk]
    | succ i =>
      have he : key e ≠ some k := hbefore 0 (Nat.succ_pos i) e rfl
      have hrest := ih (Nat.lt_of_succ_lt_succ hi)
        fun j hj f hf => hbefore (j + 1) (Nat.succ_lt_succ hj) f hf
      simpa [lookup, he] using hrest

/-- A write that takes away and brings in other keys only. -/
theorem lookup_set_ne (hold : ∀ e, t[i]? = some e → key e ≠ some k) (hnew : key e' ≠ some k) :
    lookup key (t.set i e') k = lookup key t k := by
  induction t generalizing i with
  | nil => rfl
  | cons e t ih =>
    cases i with
    | zero =>
      have he : key e ≠ some k := hold e rfl
      simp [lookup, he, hnew]
    | succ i =>
      have hrest := ih fun f hf => hold f hf
      unfold lookup at hrest ⊢
      rw [List.set_cons_succ, List.find?_cons, List.find?_cons, hrest]

theorem getElem?_set_cases {j : ℕ} {f : ε} (h : (t.set i e')[j]? = some f) :
    j = i ∧ f = e' ∨ j ≠ i ∧ t[j]? = some f := by
  by_cases hj : i = j
  · subst hj
    rw [List.getElem?_set_self'] at h
    obtain ⟨-, -, rfl⟩ := Option.map_eq_some_iff.mp h
    exact .inl ⟨rfl, rfl⟩
  · rw [List.getElem?_set_ne hj] at h
    exact .inr ⟨Ne.symm hj, h⟩

theorem countP_set_le (p : ε → Bool) (t : List ε) (i : ℕ) (e' : ε) :
    t.countP p ≤ (t.set i e').countP p + 1 := by
  induction t generalizing i with
  | nil => simp
  | cons e t ih =>
    cases i with
    | zero =>
      simp only [List.set_cons_zero, List.countP_cons]
      split <;> split <;> omega
    | succ i =>
      have hrest := ih i
      simp only [List.set_cons_succ, List.countP_cons]
      omega

/-- Entries with keys from a finite set are no more than these. -/
theorem Unique.countP_le (h : Unique key t) {p : ε → Bool} {ks : Finset κ}
    (hp : ∀ e ∈ t, p e = true → ∃ k ∈ ks, key e = some k) : t.countP p ≤ ks.card := by
  induction t generalizing ks with
  | nil => exact Nat.zero_le _
  | cons e t ih =>
    have htail : Unique key t := fun i j f f' k hi hj hf hf' =>
      Nat.succ_injective (h (i + 1) (j + 1) f f' k hi hj hf hf')
    have hrest : ∀ f ∈ t, p f = true → ∃ k ∈ ks, key f = some k :=
      fun f hf => hp f (List.mem_cons_of_mem e hf)
    by_cases he : p e = true
    · obtain ⟨k, hk, hkey⟩ := hp e List.mem_cons_self he
      have hother : ∀ f ∈ t, p f = true → ∃ k' ∈ ks.erase k, key f = some k' := by
        intro f hf hpf
        obtain ⟨k', hk', hkey'⟩ := hrest f hf hpf
        refine ⟨k', Finset.mem_erase.mpr ⟨?_, hk'⟩, hkey'⟩
        rintro rfl
        obtain ⟨j, hj⟩ := List.getElem?_of_mem hf
        cases h 0 (j + 1) e f k' rfl hj hkey hkey'
      have hle := ih htail hother
      have hcard := Finset.card_erase_add_one hk
      rw [List.countP_cons_of_pos he]
      omega
    · rw [List.countP_cons_of_neg he]
      exact ih htail hrest

omit [DecidableEq κ] in
theorem fresh_of_none (h : key e' = none) : Fresh key t i e' := by
  intro k hk
  rw [h] at hk
  cases hk

/-- A write that keeps the slot's key, or takes one that is not in the table. -/
theorem Unique.fresh (h : Unique key t) (hi : t[i]? = some old) (hk : key e' = some k)
    (hold : key old = some k ∨ lookup key t k = none) : Fresh key t i e' := by
  intro k' hk' j e hj he
  obtain rfl : k = k' := Option.some.inj (hk.symm.trans hk')
  rcases hold with hold | hnone
  · exact h j i e old k hj hi he hold
  · exact absurd he (lookup_eq_none_iff.mp hnone j e hj)

omit [DecidableEq κ] in
theorem Unique.fresh_of_keeps (h : Unique key t) (hi : t[i]? = some old)
    (hk : key e' = key old ∨ key e' = none) : Fresh key t i e' := by
  rcases hk with heq | hnone
  · intro k hk j e hj he
    exact h j i e old k hj hi he (heq ▸ hk)
  · exact fresh_of_none hnone

omit [DecidableEq κ] in
theorem Unique.set (h : Unique key t) (hfresh : Fresh key t i e') : Unique key (t.set i e') := by
  intro a b f f' k ha hb hf hf'
  rcases getElem?_set_cases ha with ⟨rfl, rfl⟩ | ⟨hne, ha'⟩
  · rcases getElem?_set_cases hb with ⟨rfl, rfl⟩ | ⟨-, hb'⟩
    · rfl
    · exact (hfresh k hf b f' hb' hf').symm
  · rcases getElem?_set_cases hb with ⟨rfl, rfl⟩ | ⟨-, hb'⟩
    · exact hfresh k hf' a f ha' hf
    · exact h a b f f' k ha' hb' hf hf'

/-- What a write to one slot does to the map. -/
theorem Unique.lookup_set (h : Unique key t) (hi : t[i]? = some old) (hfresh : Fresh key t i e')
    (k : κ) : lookup key (t.set i e') k =
      if key e' = some k then some e' else if key old = some k then none else lookup key t k := by
  have hself : (t.set i e')[i]? = some e' :=
    List.getElem?_set_self (List.getElem?_eq_some_iff.mp hi).1
  split
  · rename_i hk
    exact (h.set hfresh).lookup_eq_some_iff.mpr ⟨i, hself, hk⟩
  rename_i hk
  split
  · rename_i hold
    apply lookup_eq_none_iff.mpr
    intro j f hj hf
    rcases getElem?_set_cases hj with ⟨rfl, rfl⟩ | ⟨hne, hj'⟩
    · exact hk hf
    · exact hne (h j i f old k hj' hi hf hold)
  · rename_i hold
    cases hl : lookup key t k with
    | none =>
      apply lookup_eq_none_iff.mpr
      intro j f hj hf
      rcases getElem?_set_cases hj with ⟨rfl, rfl⟩ | ⟨-, hj'⟩
      · exact hk hf
      · exact lookup_eq_none_iff.mp hl j f hj' hf
    | some f =>
      obtain ⟨j, hj, hf⟩ := h.lookup_eq_some_iff.mp hl
      have hne : i ≠ j := by
        rintro rfl
        exact hold (Option.some.inj (hi.symm.trans hj) ▸ hf)
      exact (h.set hfresh).lookup_eq_some_iff.mpr ⟨j, by rwa [List.getElem?_set_ne hne], hf⟩

omit [DecidableEq κ] in
theorem Unique.map (h : Unique key t) {f : ε → ε}
    (hf : ∀ e, key (f e) = key e ∨ key (f e) = none) : Unique key (t.map f) := by
  intro a b g g' k ha hb hg hg'
  rw [List.getElem?_map] at ha hb
  obtain ⟨x, hx, rfl⟩ := Option.map_eq_some_iff.mp ha
  obtain ⟨y, hy, rfl⟩ := Option.map_eq_some_iff.mp hb
  have hxk : key x = some k := by
    rcases hf x with heq | hnone
    · rwa [← heq]
    · rw [hnone] at hg
      cases hg
  have hyk : key y = some k := by
    rcases hf y with heq | hnone
    · rwa [← heq]
    · rw [hnone] at hg'
      cases hg'
  exact h a b x y k hx hy hxk hyk

theorem Unique.lookup_map (h : Unique key t) {f : ε → ε}
    (hf : ∀ e, key (f e) = key e ∨ key (f e) = none) (k : κ) :
    lookup key (t.map f) k =
      (lookup key t k).bind fun e => if key (f e) = some k then some (f e) else none := by
  cases hl : lookup key t k with
  | none =>
    apply lookup_eq_none_iff.mpr
    intro j g hj hg
    rw [List.getElem?_map] at hj
    obtain ⟨x, hx, rfl⟩ := Option.map_eq_some_iff.mp hj
    rcases hf x with heq | hnone
    · exact lookup_eq_none_iff.mp hl j x hx (heq ▸ hg)
    · rw [hnone] at hg
      cases hg
  | some e =>
    obtain ⟨j, hj, he⟩ := h.lookup_eq_some_iff.mp hl
    have hmap : (t.map f)[j]? = some (f e) := by rw [List.getElem?_map, hj]; rfl
    simp only [Option.bind_some]
    split
    · rename_i hk
      exact (h.map hf).lookup_eq_some_iff.mpr ⟨j, hmap, hk⟩
    · rename_i hk
      apply lookup_eq_none_iff.mpr
      intro a g ha hg
      rw [List.getElem?_map] at ha
      obtain ⟨x, hx, rfl⟩ := Option.map_eq_some_iff.mp ha
      rcases hf x with heq | hnone
      · obtain rfl : a = j := h a j x e k hx hj (heq ▸ hg) he
        obtain rfl : x = e := Option.some.inj (hx.symm.trans hj)
        exact hk hg
      · rw [hnone] at hg
        cases hg

/-- An add changes the key it is for, and drops at most one other: that of an
entry evicted when there was no free slot. -/
theorem Unique.lookup_place (h : Unique key t) (hfree : ∀ e, free e = true → key e = none)
    (hplace : place key free evict t k = some i) (hk : key e' = some k) :
    ∃ gone : Option κ,
      (∀ k', gone = some k' → lookup key t k = none ∧ (∀ e ∈ t, free e = false) ∧
        ∃ e, lookup key t k' = some e ∧ evict e = true) ∧
      ∀ k', lookup key (t.set i e') k' =
        if k' = k then some e' else if gone = some k' then none else lookup key t k' := by
  obtain ⟨old, hi, hold⟩ := place_eq_some hplace
  have hfresh : Fresh key t i e' := h.fresh hi hk (hold.imp_right And.left)
  have hset := fun k' => h.lookup_set hi hfresh k'
  rw [hk] at hset
  rcases hold with hsame | ⟨hnone, hspare⟩
  · refine ⟨none, by simp, fun k' => ?_⟩
    rw [hset]
    by_cases heq : k' = k
    · rw [if_pos heq, if_pos (congrArg some heq.symm)]
    · rw [if_neg heq, if_neg fun hcon => heq (Option.some.inj hcon).symm, hsame,
        if_neg fun hcon => heq (Option.some.inj hcon).symm, if_neg (by simp)]
  · refine ⟨key old, fun k' hk' => ?_, fun k' => ?_⟩
    · rcases hspare with hfreeOld | ⟨hfull, hevict⟩
      · rw [hfree old hfreeOld] at hk'
        cases hk'
      · exact ⟨hnone, hfull, old, h.lookup_eq_some_iff.mpr ⟨i, hi, hk'⟩, hevict⟩
    · rw [hset]
      by_cases heq : k' = k
      · rw [if_pos heq, if_pos (congrArg some heq.symm)]
      · rw [if_neg heq, if_neg fun hcon => heq (Option.some.inj hcon).symm]

theorem Unique.lookup_place_other {ν : Type*} [DecidableEq ν] {other : ε → Option ν}
    (h : Unique other t) (hfree : ∀ e, free e = true → other e = none)
    (hcross : ∀ e k, key e = some k → other e = none)
    (hplace : place key free evict t k = some i) (hk : key e' = some k) :
    ∃ gone : Option ν,
      (∀ v, gone = some v → lookup key t k = none ∧ (∀ e ∈ t, free e = false) ∧
        ∃ e, lookup other t v = some e ∧ evict e = true) ∧
      ∀ v, lookup other (t.set i e') v = if gone = some v then none else lookup other t v := by
  obtain ⟨old, hi, hold⟩ := place_eq_some hplace
  have hnone' : other e' = none := hcross e' k hk
  refine ⟨other old, fun v hv => ?_, fun v => ?_⟩
  · rcases hold with hsame | ⟨hnone, hfreeOld | ⟨hfull, hevict⟩⟩
    · rw [hcross old k hsame] at hv
      cases hv
    · rw [hfree old hfreeOld] at hv
      cases hv
    · exact ⟨hnone, hfull, old, h.lookup_eq_some_iff.mpr ⟨i, hi, hv⟩, hevict⟩
  · rw [h.lookup_set hi (fresh_of_none hnone'), hnone', if_neg (by simp)]

end CpswDriver.Slots
