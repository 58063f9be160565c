import CpswDriver.Cpdma.RateOrder
import CpswDriver.Cpsw.SplitLoop

/-!
The poll budgets. Limited queues get their part of the poll weight by their rates,
at least one unit, and the other queues share what is left. The sum is always the
poll weight, but what is left can be too little for a unit for every queue.
-/

namespace CpswDriver.Channels

open Cpdma Apportion

variable {τ : Type*} {params : CpdmaParams} {s : Common τ} {chOf : ℕ → ChanId} {rate : ℕ → U32}
  {i j k n : ℕ}

/-- The limits of the first queues together, in kbit/s. -/
def totalRate (rate : ℕ → U32) (n : ℕ) : ℕ := ((List.range n).map fun i => (rate i).toNat).sum

def limitedNum (rate : ℕ → U32) (n : ℕ) : ℕ := (List.range n).countP fun i => rate i != 0

theorem totalRate_succ (rate : ℕ → U32) (n : ℕ) :
    totalRate rate (n + 1) = totalRate rate n + (rate n).toNat := by
  simp [totalRate, List.range_succ]

theorem limitedNum_succ (rate : ℕ → U32) (n : ℕ) :
    limitedNum rate (n + 1) = limitedNum rate n + if rate n = 0 then 0 else 1 := by
  by_cases h : rate n = 0 <;> simp [limitedNum, List.range_succ, h]

theorem limitedNum_le (rate : ℕ → U32) (n : ℕ) : limitedNum rate n ≤ n := by
  induction n with
  | zero => exact le_refl _
  | succ n ih =>
    rw [limitedNum_succ]
    split <;> omega

theorem toNat_pos_iff {x : U32} : 0 < x.toNat ↔ x ≠ 0 := by
  constructor
  · rintro h rfl
    exact absurd h (by decide)
  · intro h
    by_contra hzero
    exact h (BitVec.eq_of_toNat_eq (by simpa using hzero))

theorem limitedNum_le_totalRate (rate : ℕ → U32) (n : ℕ) :
    limitedNum rate n ≤ totalRate rate n := by
  induction n with
  | zero => exact le_refl _
  | succ n ih =>
    rw [limitedNum_succ, totalRate_succ]
    split
    · omega
    · have := toNat_pos_iff.mpr ‹_›
      omega

theorem totalRate_le {x : ℕ} (h : ∀ i < n, (rate i).toNat ≤ x) : totalRate rate n ≤ n * x := by
  induction n with
  | zero => simp [totalRate]
  | succ n ih =>
    have hlast := h n (by omega)
    have hrest := ih fun i hi => h i (by omega)
    rw [totalRate_succ, add_mul, one_mul]
    omega

theorem totalRate_le_limited {x : ℕ} (h : ∀ i < n, (rate i).toNat ≤ x) :
    totalRate rate n ≤ limitedNum rate n * x := by
  induction n with
  | zero => simp [totalRate]
  | succ n ih =>
    have hlast := h n (by omega)
    have hrest := ih fun i hi => h i (by omega)
    rw [totalRate_succ, limitedNum_succ]
    split
    · rename_i hzero
      rw [hzero, add_zero]
      exact hrest
    · rw [add_mul, one_mul]
      omega

theorem totalRate_eq_zero (h : limitedNum rate n = 0) : totalRate rate n = 0 := by
  induction n with
  | zero => rfl
  | succ n ih =>
    rw [limitedNum_succ] at h
    split at h
    · rename_i hzero
      rw [totalRate_succ, ih (by omega), hzero]
      rfl
    · omega

theorem consumedRates_spec (hready : Ready chOf s)
    (hrate : rate = fun i => chRate s.dma.ctlr (chOf i))
    (hfit : totalRate rate s.txChNum < 2 ^ 32) :
    ∃ v, consumedRates s = some v ∧ v.consumedRate.toNat = totalRate rate s.txChNum ∧
      v.rlimChNum = limitedNum rate s.txChNum := by
  have hloop : ∀ n ≤ s.txChNum, totalRate rate n < 2 ^ 32 →
      ∃ v, (List.range n).foldlM (fun v i => (cpdmaChanGetRate s (s.txv i)).map (consumeRate v))
          {} = some v ∧
        v.consumedRate.toNat = totalRate rate n ∧ v.rlimChNum = limitedNum rate n := by
    intro n
    induction n with
    | zero => exact fun _ _ => ⟨{}, rfl, rfl, rfl⟩
    | succ n ih =>
      intro hn hfit
      rw [totalRate_succ] at hfit
      obtain ⟨v, hv, htotal, hnum⟩ := ih (by omega) (by omega)
      refine ⟨consumeRate v (rate n), ?_, ?_, ?_⟩
      · rw [List.range_succ, List.foldlM_append, hv]
        simp [hready.getRate (by omega : n < s.txChNum), hrate]
      · rw [totalRate_succ]
        unfold consumeRate
        split
        · rename_i hzero
          rw [htotal, hzero]
          rfl
        · rw [BitVec.toNat_add, htotal]
          exact Nat.mod_eq_of_lt hfit
      · rw [limitedNum_succ]
        unfold consumeRate
        split <;> simp [hnum]
  exact hloop s.txChNum (le_refl _) hfit

/-- The rate that the limits are shares of: that of the links, or the next of ten and a hundred
times it that covers the limits. -/
def scaledRate (speed consumed : ℕ) : ℕ :=
  let rate := 1000 * speed
  let rate := if rate < consumed then 10 * rate else rate
  if rate < consumed then 10 * rate else rate

def needed (weight maxRate rate : ℕ) : ℕ := max 1 (weight * rate / maxRate)

theorem scaledRate_pos {speed consumed : ℕ} (h : 0 < speed) : 0 < scaledRate speed consumed := by
  unfold scaledRate
  dsimp only
  split_ifs <;> omega

theorem toNat_maxRate {speed consumed : U32} (hint : 1000 * speed.toNat < 2 ^ 31)
    (hfit : 100 * consumed.toNat < 2 ^ 32) :
    (maxRate speed consumed).toNat = scaledRate speed.toNat consumed.toNat := by
  have hthousand : (speed * 1000).toNat = 1000 * speed.toNat := by
    rw [BitVec.toNat_mul, show (1000 : U32).toNat = 1000 from rfl, Nat.mod_eq_of_lt (by omega)]
    omega
  have hten : ∀ x : U32, x < consumed → (x * 10).toNat = 10 * x.toNat := by
    intro x hx
    rw [BitVec.lt_def] at hx
    rw [BitVec.toNat_mul, show (10 : U32).toNat = 10 from rfl, Nat.mod_eq_of_lt (by omega)]
    omega
  unfold maxRate scaledRate
  dsimp only
  generalize speed * 1000 = x at hthousand ⊢
  rw [← hthousand]
  by_cases hlt : x < consumed
  · rw [if_pos hlt, if_pos (BitVec.lt_def.mp hlt), ← hten x hlt]
    by_cases hlt' : x * 10 < consumed
    · rw [if_pos hlt', if_pos (BitVec.lt_def.mp hlt')]
      exact hten _ hlt'
    · rw [if_neg hlt', if_neg (mt BitVec.lt_def.mpr hlt')]
  · rw [if_neg hlt, if_neg (mt BitVec.lt_def.mpr hlt), if_neg hlt,
      if_neg (mt BitVec.lt_def.mpr hlt)]

theorem toNat_scaled {weight rate maxRate : U32} (hfit : weight.toNat * rate.toNat < 2 ^ 31) :
    (rate * weight / maxRate).toInt = (weight.toNat * rate.toNat / maxRate.toNat : ℕ) := by
  have hmul : (rate * weight).toNat = weight.toNat * rate.toNat := by
    rw [BitVec.toNat_mul, mul_comm rate.toNat, Nat.mod_eq_of_lt (by omega)]
  have hdiv : (rate * weight / maxRate).toNat = weight.toNat * rate.toNat / maxRate.toNat := by
    rw [BitVec.toNat_udiv, hmul]
  have hle := Nat.div_le_self (weight.toNat * rate.toNat) maxRate.toNat
  rw [BitVec.toInt_eq_toNat_of_lt (by omega), hdiv]

theorem rateShare_eq {weight rate maxRate : U32} (hfit : weight.toNat * rate.toNat < 2 ^ 31) :
    rateShare rate weight maxRate = needed weight.toNat maxRate.toNat rate.toNat := by
  unfold rateShare needed
  rw [toNat_scaled hfit]
  generalize weight.toNat * rate.toNat / maxRate.toNat = share
  dsimp only
  split <;> omega

/-- The queues are limited from the first one on, as cpdma_chan_fit_rate has it. -/
def LimitedFirst (rate : ℕ → U32) (n : ℕ) : Prop := ∀ i < n, ∀ j < i, rate i ≠ 0 → rate j ≠ 0

theorem lt_limitedNum_iff (h : LimitedFirst rate n) (hi : i < n) :
    i < limitedNum rate n ↔ rate i ≠ 0 := by
  induction n generalizing i with
  | zero => omega
  | succ n ih =>
    have hfirst : LimitedFirst rate n := fun i hi => h i (by omega)
    have hle := limitedNum_le rate n
    rw [limitedNum_succ]
    by_cases hlast : rate n = 0
    · rw [if_pos hlast, add_zero]
      by_cases heq : i = n
      · subst heq
        exact iff_of_false (by omega) (not_not.mpr hlast)
      · exact ih hfirst (by omega)
    · have hall : limitedNum rate n = n := by
        by_contra hne
        exact absurd ((ih hfirst (by omega : limitedNum rate n < n)).mpr
          (h n (by omega) _ (by omega) hlast)) (by omega)
      rw [if_neg hlast, hall]
      refine iff_of_true hi ?_
      by_cases heq : i = n
      · rwa [heq]
      · exact h n (by omega) i (by omega) hlast

theorem rate_eq_zero_iff (h : LimitedFirst rate n) (hi : i < n) :
    rate i = 0 ↔ limitedNum rate n ≤ i := by
  rw [← not_iff_not, ← ne_eq, ← lt_limitedNum_iff h hi, not_le]

theorem takerOf_succ (h : Shares) (rate : ℕ → U32) (n : ℕ) :
    takerOf h rate (n + 1) = biggest (takerOf h rate n) (rate n) n := by
  rw [takerOf, takerOf, List.range_succ, List.foldl_append]
  rfl

theorem takerOf_lt (h : Shares) (rate : ℕ → U32) (n : ℕ) : (takerOf h rate (n + 1)).2 < n + 1 := by
  induction n with
  | zero =>
    rw [takerOf_succ]
    unfold biggest
    split_ifs <;> exact Nat.zero_lt_one
  | succ n ih =>
    rw [takerOf_succ]
    unfold biggest
    split_ifs
    · exact Nat.lt_succ_self _
    · omega
    · exact Nat.lt_succ_self _
    · omega

/-- The biggest rate among the limited queues, and whose it is. -/
structure Biggest (h : Shares) (rate : ℕ → U32) (i : ℕ) : Prop where
  floor : h.bigestRate.toNat ≤ (takerOf h rate i).1.toNat
  le : ∀ j < i, (rate j).toNat ≤ (takerOf h rate i).1.toNat
  first : (takerOf h rate i).2 = 0 → (takerOf h rate i).1 = h.bigestRate ∨
    0 < i ∧ (takerOf h rate i).1 = rate 0
  later : (takerOf h rate i).2 ≠ 0 → (takerOf h rate i).2 < i ∧
    rate (takerOf h rate i).2 = (takerOf h rate i).1 ∧
    h.bigestRate.toNat < (takerOf h rate i).1.toNat ∧
    (rate 0).toNat < (takerOf h rate i).1.toNat

theorem Biggest.step {h : Shares} (hb : Biggest h rate i) (hrate : rate i ≠ 0) :
    Biggest h rate (i + 1) := by
  have hsucc := takerOf_succ h rate i
  have hfloor := hb.floor
  unfold biggest at hsucc
  rw [if_pos hrate] at hsucc
  by_cases hlt : (takerOf h rate i).1 < rate i
  · rw [if_pos hlt] at hsucc
    rw [BitVec.lt_def] at hlt
    have hle : ∀ j < i + 1, (rate j).toNat ≤ (rate i).toNat := by
      intro j hj
      by_cases heq : j = i
      · rw [heq]
      · have := hb.le j (by omega)
        omega
    refine ⟨?_, ?_, ?_, ?_⟩ <;> rw [hsucc]
    · dsimp only
      omega
    · exact hle
    · intro hzero
      dsimp only at hzero ⊢
      exact .inr ⟨by omega, by rw [hzero]⟩
    · intro hne
      dsimp only at hne ⊢
      have := hb.le 0 (by omega)
      exact ⟨by omega, rfl, by omega, by omega⟩
  · rw [if_neg hlt] at hsucc
    rw [BitVec.lt_def] at hlt
    refine ⟨?_, ?_, ?_, ?_⟩ <;> rw [hsucc]
    · exact hb.floor
    · intro j hj
      by_cases heq : j = i
      · rw [heq]
        omega
      · exact hb.le j (by omega)
    · intro hzero
      rcases hb.first hzero with hfloor | ⟨hpos, hfirst⟩
      · exact .inl hfloor
      · exact .inr ⟨by omega, hfirst⟩
    · intro hne
      obtain ⟨hlt', hrest⟩ := hb.later hne
      exact ⟨by omega, hrest⟩

theorem Biggest.upTo {h : Shares} (hk : ∀ i < k, rate i ≠ 0) (hi : i ≤ k) :
    Biggest h rate i := by
  induction i with
  | zero =>
    refine ⟨le_refl _, fun j hj => absurd hj (Nat.not_lt_zero j), fun _ => .inl rfl, ?_⟩
    intro hne
    exact absurd rfl hne
  | succ i ih => exact (ih (by omega)).step (hk i (by omega))

/-- The first queue without a limit takes what is over, unless a limited one but the first does. -/
theorem takerOf_free {h : Shares} (hpos : 0 < k) (hfree : ∀ i, k ≤ i → i < n → rate i = 0)
    (hkn : k < n) :
    (takerOf h rate n).2 = if (takerOf h rate k).2 = 0 then k else (takerOf h rate k).2 := by
  induction n with
  | zero => omega
  | succ n ih =>
    have hzero := hfree n (by omega) (by omega)
    rw [takerOf_succ]
    unfold biggest
    rw [if_neg (not_not.mpr hzero)]
    by_cases heq : k = n
    · rw [heq]
      split <;> rfl
    · have ih := ih (fun i hki hin => hfree i hki (by omega)) (by omega)
      split
      · rename_i hcon
        rw [hcon] at ih
        split at ih <;> omega
      · exact ih

theorem one_le_needed (weight maxRate rate : ℕ) : 1 ≤ needed weight maxRate rate := le_max_left _ _

theorem needed_le (weight maxRate rate : ℕ) :
    needed weight maxRate rate ≤ weight * rate / maxRate + 1 := by
  unfold needed
  generalize weight * rate / maxRate = share
  omega

/-- What a queue gets beyond its rounded part: a bump for a limited one, `e` for another. -/
def slack (rate : ℕ → U32) (e : ℤ) (i : ℕ) : ℤ := if rate i = 0 then e else 1

theorem sum_slack (rate : ℕ → U32) (e : ℤ) (n : ℕ) :
    ((List.range n).map (slack rate e)).sum = limitedNum rate n + (n - limitedNum rate n) * e := by
  induction n with
  | zero => simp [limitedNum]
  | succ n ih =>
    rw [List.range_succ, List.map_append, List.sum_append, ih, limitedNum_succ, List.map_singleton,
      List.sum_singleton]
    unfold slack
    push_cast
    split <;> ring

theorem sum_rates (rate : ℕ → U32) (n : ℕ) :
    ((List.range n).map fun i => (64 * (rate i).toNat : ℤ)).sum = 64 * totalRate rate n := by
  induction n with
  | zero => simp [totalRate]
  | succ n ih =>
    rw [List.range_succ, List.map_append, List.sum_append, ih, totalRate_succ, List.map_singleton,
      List.sum_singleton]
    push_cast
    ring

theorem others_le {part : ℕ → ℤ} {e : ℤ} {m taker : ℕ} (hm : 0 < m) (ht : taker < n)
    (hpart : ∀ i < n, part i ≤ 64 * (rate i).toNat / m + slack rate e i) :
    others (List.range n) part taker ≤ 64 * (totalRate rate n - (rate taker).toNat) / m +
      (limitedNum rate n + (n - limitedNum rate n) * e - slack rate e taker) := by
  have hmem := List.mem_range.mpr ht
  have hle : others (List.range n) part taker ≤
      (((List.range n).erase taker).map fun i => 64 * (rate i).toNat / m + slack rate e i).sum := by
    apply List.sum_le_sum
    intro i hi
    exact hpart i (List.mem_range.mp (List.mem_of_mem_erase hi))
  have hfloors := sum_ediv_le (fun i => (64 * (rate i).toNat : ℤ)) (by omega : (0 : ℤ) < m)
    ((List.range n).erase taker)
  have hrates := add_others (fun i => (64 * (rate i).toNat : ℤ)) hmem
  have hslack := add_others (slack rate e) hmem
  rw [sum_rates] at hrates
  rw [sum_slack] at hslack
  rw [List.sum_map_add] at hle
  unfold others at hrates hslack
  have heq : (((List.range n).erase taker).map fun i => (64 * (rate i).toNat : ℤ)).sum =
      64 * (totalRate rate n - (rate taker).toNat) := by omega
  rw [heq] at hfloors
  omega

/-- Every queue is limited: the one with the biggest rate has eight units to give for the bumps. -/
theorem others_le_all {part : ℕ → ℤ} {taker : ℕ} (hn : n ≤ 8) (ht : taker < n)
    (hall : limitedNum rate n = n) (hbig : ∀ i < n, (rate i).toNat ≤ (rate taker).toNat)
    (hpart : ∀ i < n, part i ≤ 64 * (rate i).toNat / totalRate rate n + slack rate 0 i)
    (hrate : rate taker ≠ 0) : others (List.range n) part taker ≤ 63 := by
  have hpos : 0 < totalRate rate n := by
    have := limitedNum_le_totalRate rate n
    omega
  have htotal : totalRate rate n ≤ 8 * (rate taker).toNat :=
    (totalRate_le hbig).trans (Nat.mul_le_mul_right _ hn)
  have hle := others_le hpos ht hpart
  have hdiv : 64 * (totalRate rate n - (rate taker).toNat : ℤ) / totalRate rate n ≤ 56 := by
    apply Int.ediv_le_of_le_mul (by omega)
    omega
  rw [hall, slack, if_neg hrate] at hle
  omega

/-- The same where the limited queues leave a unit for each of the others. -/
theorem others_le_later {part : ℕ → ℤ} {e : ℤ} {m taker : ℕ} (hm : 0 < m) (hn : n ≤ 8)
    (ht : taker < n) (hsome : limitedNum rate n < n)
    (hpart : ∀ i < n, part i ≤ 64 * (rate i).toNat / m + slack rate e i)
    (hfree : (n - limitedNum rate n) * e ≤ 64 - 64 * totalRate rate n / m)
    (hrate : rate taker ≠ 0) (hbig : m ≤ 8 * (rate taker).toNat) :
    others (List.range n) part taker ≤ 63 := by
  have hle := others_le hm ht hpart
  have hdiv : 64 * (totalRate rate n - (rate taker).toNat : ℤ) / m ≤
      64 * totalRate rate n / m - 8 := by
    have hsub : 64 * (totalRate rate n : ℤ) / m - 8 = (64 * totalRate rate n - 8 * m) / m := by
      rw [Int.sub_mul_ediv_right _ _ (by omega)]
    rw [hsub]
    exact Int.ediv_le_ediv (by omega) (by omega)
  rw [slack, if_neg hrate] at hle
  omega

/-- A limited queue after the first takes what is over: it has a higher limit than the first,
and than what a queue without a limit has of the rate that is left. -/
def LaterTakes (rate : ℕ → U32) (n m : ℕ) : Prop :=
  totalRate rate n ≤ m ∧ ∃ t < n, (rate 0).toNat < (rate t).toNat ∧
    (m - totalRate rate n) / (n - limitedNum rate n) < (rate t).toNat

def neededSum (weight : ℕ) (rate : ℕ → U32) (n m : ℕ) : ℕ :=
  ((List.range n).map fun i => if rate i = 0 then 0 else needed weight m (rate i).toNat).sum

/-- There is a unit of the poll weight for every queue. -/
def LeavesSome (rate : ℕ → U32) (n speed : ℕ) : Prop :=
  let m := scaledRate speed (totalRate rate n)
  let free := n - limitedNum rate n
  let left := 64 - 64 * totalRate rate n / m
  limitedNum rate n = 0 ∨ free = 0 ∨ (LaterTakes rate n m ∧ free ≤ left) ∨
    (¬LaterTakes rate n m ∧ (free = 1 ∨ free ≤ left) ∧
      neededSum 64 rate n m + (free - 1) * (left / free) ≤ 63)

/-- What the second loop starts from, where some queues are limited and some are not. -/
structure Mixed (rate : ℕ → U32) (n speed : ℕ) (h : Shares) : Prop where
  max : h.maxRate.toNat = scaledRate speed (totalRate rate n)
  chBudget : h.chBudget = (64 - (64 * totalRate rate n / h.maxRate.toNat : ℕ) : ℤ).tdiv
    (n - limitedNum rate n : ℕ)
  floor : totalRate rate n ≤ h.maxRate.toNat → h.bigestRate.toNat =
    (h.maxRate.toNat - totalRate rate n) / (n - limitedNum rate n)
  wrapped : h.maxRate.toNat < totalRate rate n → 4000000 ≤ h.bigestRate.toNat

theorem shares_mixed {speed : U32} {v : Consumed} (hn : n ≤ 8) (hpos : 0 < speed.toNat)
    (hint : 1000 * speed.toNat < 2 ^ 31) (hfit : totalRate rate n ≤ 32000000)
    (htotal : v.consumedRate.toNat = totalRate rate n) (hnum : v.rlimChNum = limitedNum rate n)
    (hsome : 0 < limitedNum rate n) (hfree : limitedNum rate n < n) :
    ∃ h, shares speed n v = some h ∧ Mixed rate n speed.toNat h := by
  have hmax : (maxRate speed v.consumedRate).toNat =
      scaledRate speed.toNat v.consumedRate.toNat := toNat_maxRate hint (by omega)
  have hmaxpos : 0 < scaledRate speed.toNat v.consumedRate.toNat := scaledRate_pos hpos
  have hne : maxRate speed v.consumedRate ≠ 0 := toNat_pos_iff.mp (by omega)
  have hfreeNat : (BitVec.ofNat 32 (n - v.rlimChNum)).toNat = n - limitedNum rate n := by
    rw [BitVec.toNat_ofNat, hnum]
    exact Nat.mod_eq_of_lt (by omega)
  have hshare : (v.consumedRate * BitVec.ofNat 32 napiPollWeight /
      maxRate speed v.consumedRate).toInt =
        (64 * totalRate rate n / (maxRate speed v.consumedRate).toNat : ℕ) := by
    have hweight : (BitVec.ofNat 32 napiPollWeight).toNat = 64 := by decide
    rw [toNat_scaled (by rw [hweight, htotal]; omega), hweight, htotal]
  unfold shares
  rw [if_neg (by omega), if_neg (by omega)]
  dsimp only
  rw [if_neg hne]
  refine ⟨_, rfl, ⟨?_, ?_, ?_, ?_⟩⟩
  · rw [hmax, htotal]
  · dsimp only
    rw [hshare, hnum]
    rfl
  · dsimp only
    intro hle
    rw [BitVec.toNat_udiv, hfreeNat,
      BitVec.toNat_sub_of_le (by rw [BitVec.le_def, htotal]; exact hle), htotal]
  · dsimp only
    intro hlt
    rw [BitVec.toNat_udiv, hfreeNat, BitVec.toNat_sub, htotal, Nat.le_div_iff_mul_le (by omega)]
    have hwrap : (2 ^ 32 - totalRate rate n + (maxRate speed v.consumedRate).toNat) % 2 ^ 32 =
        2 ^ 32 - totalRate rate n + (maxRate speed v.consumedRate).toNat :=
      Nat.mod_eq_of_lt (by omega)
    rw [hwrap]
    calc 4000000 * (n - limitedNum rate n) ≤ 4000000 * 8 := Nat.mul_le_mul_left _ (by omega)
      _ ≤ 2 ^ 32 - totalRate rate n + (maxRate speed v.consumedRate).toNat := by omega

theorem partOf_eq {h : Shares} (hrate : (rate i).toNat ≤ 4000000) : partOf h (rate i) =
    if rate i = 0 then h.chBudget else needed 64 h.maxRate.toNat (rate i).toNat := by
  have hweight : (BitVec.ofNat 32 napiPollWeight).toNat = 64 := by decide
  unfold partOf
  by_cases hzero : rate i = 0
  · rw [if_neg (not_not.mpr hzero), if_pos hzero]
  · rw [if_pos hzero, if_neg hzero, rateShare_eq (by rw [hweight]; omega), hweight]

theorem partOf_le {h : Shares} (hrate : (rate i).toNat ≤ 4000000) : partOf h (rate i) ≤
    64 * (rate i).toNat / h.maxRate.toNat + slack rate h.chBudget i := by
  rw [partOf_eq hrate, slack]
  by_cases hzero : rate i = 0
  · have hnone : (rate i).toNat = 0 := by rw [hzero]; rfl
    rw [if_pos hzero, if_pos hzero, hnone]
    simp
  · rw [if_neg hzero, if_neg hzero]
    exact_mod_cast needed_le 64 h.maxRate.toNat (rate i).toNat

theorem Mixed.taker {h : Shares} {speed : ℕ} (hmix : Mixed rate n speed h) (hn : n ≤ 8)
    (hfirst : LimitedFirst rate n) (hle : ∀ i < n, (rate i).toNat ≤ 4000000)
    (hsome : 0 < limitedNum rate n) (hfree : limitedNum rate n < n) :
    (LaterTakes rate n h.maxRate.toNat ∧ (takerOf h rate n).2 < n ∧
        rate (takerOf h rate n).2 ≠ 0 ∧
        h.maxRate.toNat ≤ 8 * (rate (takerOf h rate n).2).toNat) ∨
      (¬LaterTakes rate n h.maxRate.toNat ∧ (takerOf h rate n).2 = limitedNum rate n) := by
  have hlimited : ∀ i < limitedNum rate n, rate i ≠ 0 :=
    fun i hi => (lt_limitedNum_iff hfirst (by omega)).mp hi
  have hnone : ∀ i, limitedNum rate n ≤ i → i < n → rate i = 0 := by
    intro i hi hin
    by_contra hne
    have := (lt_limitedNum_iff hfirst hin).mpr hne
    omega
  have hb : Biggest h rate (limitedNum rate n) := Biggest.upTo hlimited (le_refl _)
  have htaker := takerOf_free (h := h) hsome hnone hfree
  by_cases hzero : (takerOf h rate (limitedNum rate n)).2 = 0
  · rw [if_pos hzero] at htaker
    refine .inr ⟨?_, htaker⟩
    rintro ⟨hcover, t, ht, hmore, hfloor⟩
    have htlim : t < limitedNum rate n :=
      (lt_limitedNum_iff hfirst ht).mpr (toNat_pos_iff.mp (by omega))
    have hbig := hb.le t htlim
    rw [← hmix.floor hcover] at hfloor
    rcases hb.first hzero with heq | ⟨-, heq⟩ <;>
    · rw [heq] at hbig
      omega
  · rw [if_neg hzero] at htaker
    obtain ⟨hlt, hrate, hfloor, hmore⟩ := hb.later hzero
    rw [← htaker] at hlt hrate
    rw [← hrate] at hfloor hmore
    have hbig := hle (takerOf h rate n).2 (by omega)
    have hcover : totalRate rate n ≤ h.maxRate.toNat := by
      by_contra hwrap
      have := hmix.wrapped (by omega)
      omega
    rw [hmix.floor hcover] at hfloor
    refine .inl ⟨⟨hcover, _, by omega, hmore, hfloor⟩, by omega, hlimited _ hlt, ?_⟩
    have hmost : ∀ i < n, (rate i).toNat ≤ (rate (takerOf h rate n).2).toNat := by
      intro i hi
      by_cases hki : i < limitedNum rate n
      · rw [hrate]
        exact hb.le i hki
      · rw [hnone i (by omega) hi]
        exact Nat.zero_le _
    have htotal := totalRate_le_limited hmost
    rw [Nat.div_lt_iff_lt_mul (by omega)] at hfloor
    have hsum : (n - limitedNum rate n) * (rate (takerOf h rate n).2).toNat +
        limitedNum rate n * (rate (takerOf h rate n).2).toNat =
        n * (rate (takerOf h rate n).2).toNat := by
      rw [← add_mul]
      congr 1
      omega
    have hn8 : n * (rate (takerOf h rate n).2).toNat ≤ 8 * (rate (takerOf h rate n).2).toNat :=
      Nat.mul_le_mul_right _ hn
    rw [mul_comm (rate _).toNat] at hfloor
    omega

theorem tdiv_left {q free : ℕ} (hfree : 0 < free) :
    (1 ≤ (64 - (q : ℤ)).tdiv free ↔ free ≤ 64 - q) ∧
      (free ≤ 64 - q → (64 - (q : ℤ)).tdiv free = ((64 - q) / free : ℕ)) := by
  by_cases hq : q ≤ 64
  · have hcast : (64 - (q : ℤ)) = (64 - q : ℕ) := by omega
    have hdiv : (64 - (q : ℤ)).tdiv free = ((64 - q) / free : ℕ) := by
      rw [hcast, Int.tdiv_eq_ediv_of_nonneg (Int.natCast_nonneg _), Int.natCast_div]
    refine ⟨?_, fun _ => hdiv⟩
    rw [hdiv]
    have hle : 1 ≤ (64 - q) / free ↔ free ≤ 64 - q := by
      rw [Nat.le_div_iff_mul_le hfree, one_mul]
    omega
  · have hneg : (64 - (q : ℤ)).tdiv free ≤ 0 := by
      have hflip : (64 - (q : ℤ)) = -(q - 64 : ℤ) := by omega
      rw [hflip, Int.neg_tdiv]
      have := Int.tdiv_nonneg (by omega : (0 : ℤ) ≤ q - 64) (Int.natCast_nonneg free)
      omega
    omega

theorem sum_parts (rate : ℕ → U32) (f : ℕ → ℕ) (e : ℤ) (n : ℕ) :
    ((List.range n).map fun i => if rate i = 0 then e else (f i : ℤ)).sum =
      (((List.range n).map fun i => if rate i = 0 then 0 else f i).sum : ℕ) +
        (n - limitedNum rate n) * e := by
  induction n with
  | zero => simp [limitedNum]
  | succ n ih =>
    rw [List.range_succ, List.map_append, List.sum_append, ih, List.map_append, List.sum_append,
      limitedNum_succ]
    simp only [List.map_cons, List.map_nil, List.sum_cons, List.sum_nil, add_zero]
    push_cast
    split <;> ring

theorem one_le_partOf {h : Shares} (hrate : (rate i).toNat ≤ 4000000) (hne : rate i ≠ 0) :
    1 ≤ partOf h (rate i) := by
  rw [partOf_eq hrate, if_neg hne]
  exact_mod_cast one_le_needed _ _ _

theorem partOf_free {h : Shares} (hzero : rate i = 0) : partOf h (rate i) = h.chBudget :=
  if_neg (not_not.mpr hzero)

theorem others_free (h : Shares) (hfirst : LimitedFirst rate n)
    (hle : ∀ i < n, (rate i).toNat ≤ 4000000) (hfree : limitedNum rate n < n) :
    others (List.range n) (fun i => partOf h (rate i)) (limitedNum rate n) =
      neededSum 64 rate n h.maxRate.toNat + (n - limitedNum rate n - 1) * h.chBudget := by
  have hzero : rate (limitedNum rate n) = 0 := (rate_eq_zero_iff hfirst hfree).mpr (le_refl _)
  have hsum := add_others (fun i => partOf h (rate i)) (List.mem_range.mpr hfree)
  have hparts : ((List.range n).map fun i => partOf h (rate i)).sum =
      neededSum 64 rate n h.maxRate.toNat + (n - limitedNum rate n) * h.chBudget := by
    rw [neededSum, ← sum_parts]
    congr 1
    apply List.map_congr_left
    intro i hi
    exact partOf_eq (hle i (List.mem_range.mp hi))
  rw [hparts, partOf_free hzero] at hsum
  rw [sub_mul, one_mul]
  omega

section Mixed

variable {h : Shares} {speed free left : ℕ}

/-- What the limited queues leave of the poll weight. -/
structure Left (rate : ℕ → U32) (n free left : ℕ) (h : Shares) : Prop where
  freeNum : free = n - limitedNum rate n
  pos : 0 < free
  units : left = 64 - 64 * totalRate rate n / h.maxRate.toNat
  one_le : 1 ≤ h.chBudget ↔ free ≤ left
  equal : free ≤ left → h.chBudget = (left / free : ℕ)

theorem Mixed.leaves (hmix : Mixed rate n speed h) (hfree : limitedNum rate n < n) :
    Left rate n (n - limitedNum rate n) (64 - 64 * totalRate rate n / h.maxRate.toNat) h := by
  obtain ⟨hone, hexact⟩ := tdiv_left (q := 64 * totalRate rate n / h.maxRate.toNat)
    (by omega : 0 < n - limitedNum rate n)
  rw [← hmix.chBudget] at hone hexact
  exact ⟨rfl, by omega, rfl, hone, hexact⟩

/-- A limited queue takes what is over: the others have a unit if each of the free ones has. -/
theorem Left.later_iff {taker : ℕ} (hleft : Left rate n free left h) (hn : n ≤ 8)
    (hfirst : LimitedFirst rate n) (hle : ∀ i < n, (rate i).toNat ≤ 4000000)
    (hpos : 0 < h.maxRate.toNat) (ht : taker < n) (hne : rate taker ≠ 0)
    (hbig : h.maxRate.toNat ≤ 8 * (rate taker).toNat) :
    ((∀ i ∈ List.range n, i ≠ taker → 1 ≤ partOf h (rate i)) ∧
      others (List.range n) (fun i => partOf h (rate i)) taker ≤ 63) ↔ free ≤ left := by
  have hfree := hleft.freeNum
  have hfreepos := hleft.pos
  have hzero : rate (limitedNum rate n) = 0 :=
    (rate_eq_zero_iff hfirst (by omega)).mpr (le_refl _)
  constructor
  · rintro ⟨hparts, -⟩
    have hpart := hparts (limitedNum rate n) (List.mem_range.mpr (by omega)) fun heq =>
      hne (heq ▸ hzero)
    rw [partOf_free hzero] at hpart
    exact hleft.one_le.mp hpart
  · intro hroom
    refine ⟨fun i hi _ => ?_, ?_⟩
    · by_cases hi0 : rate i = 0
      · rw [partOf_free hi0]
        exact hleft.one_le.mpr hroom
      · exact one_le_partOf (hle i (List.mem_range.mp hi)) hi0
    · refine others_le_later hpos hn ht (by omega) (fun i hi => partOf_le (hle i hi)) ?_ hne hbig
      have hmul := Nat.mul_div_le left free
      have hcast : (n : ℤ) - limitedNum rate n = free := by omega
      have hq := hleft.units
      rw [hcast, hleft.equal hroom, ← Nat.cast_mul]
      have hdiv : (64 * totalRate rate n / h.maxRate.toNat : ℤ) =
        ((64 * totalRate rate n / h.maxRate.toNat : ℕ) : ℤ) := by
        push_cast
        rfl
      rw [hdiv]
      omega

/-- The first free queue takes what is over: the parts of all the others have to leave it a unit. -/
theorem Left.free_iff (hleft : Left rate n free left h) (hfirst : LimitedFirst rate n)
    (hle : ∀ i < n, (rate i).toNat ≤ 4000000) :
    ((∀ i ∈ List.range n, i ≠ limitedNum rate n → 1 ≤ partOf h (rate i)) ∧
      others (List.range n) (fun i => partOf h (rate i)) (limitedNum rate n) ≤ 63) ↔
    (free = 1 ∨ free ≤ left) ∧
      neededSum 64 rate n h.maxRate.toNat + (free - 1) * (left / free) ≤ 63 := by
  have hfree := hleft.freeNum
  have hfreepos := hleft.pos
  have hothers := others_free h hfirst hle (by omega)
  have hmore : (∀ i ∈ List.range n, i ≠ limitedNum rate n → 1 ≤ partOf h (rate i)) ↔
      free = 1 ∨ free ≤ left := by
    constructor
    · intro hparts
      by_cases hlone : free = 1
      · exact .inl hlone
      · have hnext := hparts (limitedNum rate n + 1) (List.mem_range.mpr (by omega)) (by omega)
        rw [partOf_free ((rate_eq_zero_iff hfirst (by omega)).mpr (by omega))] at hnext
        exact .inr (hleft.one_le.mp hnext)
    · intro hroom i hi hne
      have hin := List.mem_range.mp hi
      by_cases hzero : rate i = 0
      · have hk := (rate_eq_zero_iff hfirst hin).mp hzero
        rw [partOf_free hzero]
        exact hleft.one_le.mpr (hroom.resolve_left (by omega))
      · exact one_le_partOf (hle i hin) hzero
  have hequal : (free = 1 ∨ free ≤ left) →
      ((n : ℤ) - limitedNum rate n - 1) * h.chBudget = ((free - 1) * (left / free) : ℕ) := by
    have hcast : (n : ℤ) - limitedNum rate n - 1 = (free - 1 : ℕ) := by omega
    rw [hcast]
    rintro (hlone | hroom)
    · rw [hlone]
      simp
    · rw [hleft.equal hroom, Nat.cast_mul]
  rw [hmore, hothers]
  apply and_congr_right
  intro hroom
  rw [hequal hroom]
  omega

/-- Every queue has a unit just when the parts leave one for the queue that takes what is over. -/
theorem Mixed.pos_iff (hmix : Mixed rate n speed h) (hn : n ≤ 8)
    (hfirst : LimitedFirst rate n) (hle : ∀ i < n, (rate i).toNat ≤ 4000000)
    (hpos : 0 < h.maxRate.toNat) (hsome : 0 < limitedNum rate n) (hfree : limitedNum rate n < n) :
    (∀ i ∈ List.range n, 1 ≤ settle (List.range n) (fun i => partOf h (rate i)) 64
        (takerOf h rate n).2 i) ↔ LeavesSome rate n speed := by
  have hleft := hmix.leaves hfree
  unfold LeavesSome
  rw [← hmix.max]
  dsimp only
  rcases hmix.taker hn hfirst hle hsome hfree with
    ⟨hlater, hlt, hne, hbig⟩ | ⟨hnot, htaker⟩
  · rw [le_settle_iff (List.mem_range.mpr hlt),
      show (64 : ℤ) - 1 = 63 from rfl, hleft.later_iff hn hfirst hle hpos hlt hne hbig]
    constructor
    · exact fun hroom => .inr (.inr (.inl ⟨hlater, hroom⟩))
    · rintro (h0 | h0 | ⟨-, hroom⟩ | ⟨h0, -⟩)
      · omega
      · omega
      · exact hroom
      · exact absurd hlater h0
  · rw [htaker, le_settle_iff (List.mem_range.mpr hfree),
      show (64 : ℤ) - 1 = 63 from rfl, hleft.free_iff hfirst hle]
    constructor
    · exact fun hroom => .inr (.inr (.inr ⟨hnot, hroom⟩))
    · rintro (h0 | h0 | ⟨h0, -⟩ | ⟨-, hroom⟩)
      · omega
      · omega
      · exact absurd h0 hnot
      · exact hroom

end Mixed

/-- A split without a division by zero, whose parts give every queue a unit where there is one. -/
structure Parts (rate : ℕ → U32) (n speed : ℕ) (h : Shares) : Prop where
  divides : ∀ j < n, rate j ≠ 0 → h.maxRate ≠ 0
  taker : (takerOf h rate n).2 < n
  pos_iff : (∀ i ∈ List.range n, 1 ≤ settle (List.range n) (fun i => partOf h (rate i)) 64
    (takerOf h rate n).2 i) ↔ LeavesSome rate n speed

theorem parts_all {speed : ℕ} {maxRate : U32} (hn0 : 0 < n) (hn : n ≤ 8)
    (hfirst : LimitedFirst rate n) (hle : ∀ i < n, (rate i).toNat ≤ 4000000)
    (hall : limitedNum rate n = n) (hmax : maxRate.toNat = totalRate rate n) :
    Parts rate n speed { maxRate := maxRate } := by
  have hlimited : ∀ i < n, rate i ≠ 0 := fun i hi => (lt_limitedNum_iff hfirst hi).mp (by omega)
  have hpos : 0 < totalRate rate n := by
    have := limitedNum_le_totalRate rate n
    omega
  have htaker : (takerOf { maxRate := maxRate } rate n).2 < n := by
    obtain ⟨m, rfl⟩ : ∃ m, n = m + 1 := ⟨n - 1, by omega⟩
    exact takerOf_lt _ rate m
  have hb : Biggest { maxRate := maxRate } rate n := Biggest.upTo hlimited (le_refl _)
  have hbig : ∀ i < n, (rate i).toNat ≤ (rate (takerOf { maxRate := maxRate } rate n).2).toNat := by
    intro i hi
    have hi' := hb.le i hi
    by_cases hzero : (takerOf { maxRate := maxRate } rate n).2 = 0
    · rcases hb.first hzero with heq | ⟨-, heq⟩
      · rw [heq] at hi'
        have hsome := toNat_pos_iff.mpr (hlimited i hi)
        have hval : (0 : U32).toNat = 0 := rfl
        dsimp only at hi'
        omega
      · rw [hzero, ← heq]
        exact hi'
    · rw [(hb.later hzero).2.1]
      exact hi'
  refine ⟨fun _ _ _ => toNat_pos_iff.mp (show 0 < maxRate.toNat by omega), htaker, ?_⟩
  refine iff_of_true ?_ (.inr (.inl (by omega)))
  rw [le_settle_iff (List.mem_range.mpr htaker)]
  refine ⟨fun i hi _ => ?_, ?_⟩
  · have hin := List.mem_range.mp hi
    exact one_le_partOf (hle i hin) (hlimited i hin)
  · refine others_le_all hn htaker hall hbig (fun i hi => ?_) (hlimited _ htaker)
    rw [← hmax]
    exact partOf_le (hle i hi)

theorem parts_none (speed : ℕ) (maxRate : U32) (hn0 : 0 < n) (hn : n ≤ 8)
    (hnone : limitedNum rate n = 0) :
    Parts rate n speed { maxRate := maxRate, chBudget := (napiPollWeight / n : ℕ) } := by
  have hzero : ∀ i < n, rate i = 0 := by
    intro i hi
    have htotal := totalRate_eq_zero hnone
    by_contra hne
    have hmem := List.mem_range.mpr hi
    have hle := List.single_le_sum (l := (List.range n).map fun i => (rate i).toNat)
      (fun x _ => Nat.zero_le x) _ (List.mem_map_of_mem hmem)
    have := toNat_pos_iff.mpr hne
    unfold totalRate at htotal
    omega
  have htaker : (takerOf { maxRate := maxRate, chBudget := (napiPollWeight / n : ℕ) } rate n).2 <
      n := by
    obtain ⟨m, rfl⟩ : ∃ m, n = m + 1 := ⟨n - 1, by omega⟩
    exact takerOf_lt _ rate m
  have hdiv : 8 ≤ 64 / n ∧ n * (64 / n) ≤ 64 := by
    refine ⟨?_, Nat.mul_div_le 64 n⟩
    rw [Nat.le_div_iff_mul_le hn0]
    omega
  have hpart : ∀ i < n, partOf { maxRate := maxRate, chBudget := (napiPollWeight / n : ℕ) }
      (rate i) = (64 / n : ℕ) := fun i hi => partOf_free (hzero i hi)
  refine ⟨fun j hj hne => absurd (hzero j hj) hne, htaker, ?_⟩
  refine iff_of_true ?_ (.inl hnone)
  rw [le_settle_iff (List.mem_range.mpr htaker)]
  refine ⟨fun i hi _ => ?_, ?_⟩
  · rw [hpart i (List.mem_range.mp hi)]
    omega
  · have hsum := add_others (fun i => partOf
      { maxRate := maxRate, chBudget := (napiPollWeight / n : ℕ) } (rate i))
      (List.mem_range.mpr htaker)
    rw [List.map_congr_left fun i hi => hpart i (List.mem_range.mp hi), List.map_const',
      List.sum_replicate, List.length_range, hpart _ htaker, nsmul_eq_mul, ← Nat.cast_mul] at hsum
    omega

theorem shares_parts {speed : U32} {v : Consumed} (hn0 : 0 < n) (hn : n ≤ 8)
    (hpos : 0 < speed.toNat) (hint : 1000 * speed.toNat < 2 ^ 31)
    (hfirst : LimitedFirst rate n) (hle : ∀ i < n, (rate i).toNat ≤ 4000000)
    (htotal : v.consumedRate.toNat = totalRate rate n) (hnum : v.rlimChNum = limitedNum rate n) :
    ∃ h, shares speed n v = some h ∧ Parts rate n speed.toNat h := by
  have hfit : totalRate rate n ≤ 32000000 :=
    (totalRate_le hle).trans (Nat.mul_le_mul_right 4000000 hn)
  have hlimle := limitedNum_le rate n
  by_cases hall : limitedNum rate n = n
  · refine ⟨_, ?_, parts_all hn0 hn hfirst hle hall htotal⟩
    unfold shares
    rw [if_pos (by omega)]
  by_cases hnone : limitedNum rate n = 0
  · refine ⟨_, ?_, parts_none speed.toNat v.consumedRate hn0 hn hnone⟩
    unfold shares
    rw [if_neg (by omega), if_pos (by omega)]
    rfl
  · obtain ⟨h, hshares, hmix⟩ := shares_mixed hn hpos hint hfit htotal hnum (by omega) (by omega)
    have hmax : 0 < h.maxRate.toNat := by
      rw [hmix.max]
      exact scaledRate_pos hpos
    refine ⟨h, hshares, fun _ _ _ => toNat_pos_iff.mp hmax, ?_,
      hmix.pos_iff hn hfirst hle hmax (by omega) (by omega)⟩
    obtain ⟨m, rfl⟩ : ∃ m, n = m + 1 := ⟨n - 1, by omega⟩
    exact takerOf_lt h rate m

end CpswDriver.Channels
