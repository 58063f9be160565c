import CpswDriver.Cpdma.Resplit
import CpswDriver.Cpsw.Polling
import Mathlib.Algebra.BigOperators.Group.Finset.Basic

/-!
The weights that a split of the resources installs. They are set one channel after
another and what each call returns is ignored, but a refused weight is stored all the
same, so in the end every channel has its weight. The quotas follow the weights
unless the weights add up to more than 100.
-/

namespace CpswDriver.Channels

open Cpdma Apportion Maxrate

variable {τ : Type*} {s t : Common τ} {cfg : Config} {c : CpdmaCtlr τ} {chOf : ℕ → ChanId}
  {rate : ℕ → U32} {ch : ChanId} {rx : Bool} {weight : ℤ} {i j n : ℕ} {h : Shares}

theorem retune_chanNum (c : CpdmaCtlr τ) (ch : ChanId) (weight : ℤ) :
    (retune c ch weight).chanNum = c.chanNum := by
  unfold retune
  cases c.channels ch with
  | none => rfl
  | some chan =>
    dsimp only
    unfold cpdmaChanSetWeight
    split
    · rfl
    · obtain ⟨channels, -, heq⟩ :=
        cpdmaChanSplitPool_frame (c.setChan ch { chan with weight := weight })
      rw [heq]
      rfl

theorem retune_weightOf (hch : (c.channels ch).isSome) (weight : ℤ) :
    weightOf (retune c ch weight).channels = Function.update (weightOf c.channels) ch weight := by
  obtain ⟨chan, hchan⟩ := Option.isSome_iff_exists.mp hch
  unfold retune
  rw [hchan]
  dsimp only
  unfold cpdmaChanSetWeight
  split
  · rename_i hsame
    have hself : weightOf c.channels ch = weight := by
      unfold weightOf
      rw [hchan, ← hsame]
      rfl
    rw [← hself, Function.update_eq_self]
  · obtain ⟨channels, hquota, heq⟩ :=
      cpdmaChanSplitPool_frame (c.setChan ch { chan with weight := weight })
    rw [heq]
    refine (funext hquota.weightOf).trans ?_
    exact weightOf_set c.channels ch (some { chan with weight := weight })

theorem retune_settled (h : OverWeight c ∨ TxSettled c) (ch : ChanId) (weight : ℤ) :
    OverWeight (retune c ch weight) ∨ TxSettled (retune c ch weight) := by
  unfold retune
  cases c.channels ch with
  | none => exact h
  | some chan => exact cpdmaChanSetWeight_settled h ch chan weight

theorem retuned_succ (chOf : ℕ → ChanId) (h : Shares) (c : CpdmaCtlr τ) (i : ℕ) :
    retuned chOf h c (i + 1) =
      retune (retuned chOf h c i) (chOf i) (weightFor h (chRate c (chOf i))) := by
  unfold retuned
  rw [List.range_succ, List.foldl_append]
  rfl

theorem retuned_isSome (chOf : ℕ → ChanId) (h : Shares) (c : CpdmaCtlr τ) (i : ℕ) (ch : ChanId) :
    ((retuned chOf h c i).channels ch).isSome = (c.channels ch).isSome := by
  induction i with
  | zero => rfl
  | succ i ih => rw [retuned_succ, isSome_of_limits (retune_limits _ _ _), ih]

theorem retuned_chanNum (chOf : ℕ → ChanId) (h : Shares) (c : CpdmaCtlr τ) (i : ℕ) :
    (retuned chOf h c i).chanNum = c.chanNum := by
  induction i with
  | zero => rfl
  | succ i ih => rw [retuned_succ, retune_chanNum, ih]

theorem retuned_settled (hc : OverWeight c ∨ TxSettled c) (chOf : ℕ → ChanId) (h : Shares)
    (i : ℕ) : OverWeight (retuned chOf h c i) ∨ TxSettled (retuned chOf h c i) := by
  induction i with
  | zero => exact hc
  | succ i ih =>
    rw [retuned_succ]
    exact retune_settled ih _ _

theorem retuned_weightOf_ne (hexist : ∀ j < n, (c.channels (chOf j)).isSome)
    (hne : ∀ j < i, ch ≠ chOf j) (hi : i ≤ n) :
    weightOf (retuned chOf h c i).channels ch = weightOf c.channels ch := by
  induction i with
  | zero => rfl
  | succ i ih =>
    have hsome : ((retuned chOf h c i).channels (chOf i)).isSome := by
      rw [retuned_isSome]
      exact hexist i (by omega)
    rw [retuned_succ, retune_weightOf hsome, Function.update_of_ne (hne i (by omega))]
    exact ih (fun j hj => hne j (by omega)) (by omega)

theorem retuned_weightOf (hexist : ∀ j < n, (c.channels (chOf j)).isSome)
    (hinj : ∀ i < n, ∀ j < n, i ≠ j → chOf i ≠ chOf j) (hi : i ≤ n) (hj : j < i) :
    weightOf (retuned chOf h c i).channels (chOf j) = weightFor h (chRate c (chOf j)) := by
  induction i with
  | zero => omega
  | succ i ih =>
    have hsome : ((retuned chOf h c i).channels (chOf i)).isSome := by
      rw [retuned_isSome]
      exact hexist i (by omega)
    rw [retuned_succ, retune_weightOf hsome]
    by_cases heq : j = i
    · rw [heq, Function.update_self]
    · rw [Function.update_of_ne (hinj j (by omega) i (by omega) heq)]
      exact ih (by omega) (by omega)

/-- Where only the first queues' channels have a weight, theirs is all there is. -/
theorem weightSum_eq_sum {f : ChanId → Option CpdmaChan}
    (hinj : ∀ i < n, ∀ j < n, i ≠ j → chOf i ≠ chOf j) (hdir : ∀ i < n, isRxChan (chOf i) = rx)
    (hrest : ∀ ch, isRxChan ch = rx → (∀ i < n, ch ≠ chOf i) → weightOf f ch = 0) :
    weightSum f rx = ((List.range n).map fun i => weightOf f (chOf i)).sum := by
  have hnodup : ((List.range n).map chOf).Nodup := by
    apply List.Nodup.map_on _ List.nodup_range
    intro i hi j hj heq
    by_contra hne
    exact hinj i (List.mem_range.mp hi) j (List.mem_range.mp hj) hne heq
  have hslots : weightSum f rx = (chanSlots rx).toFinset.sum (weightOf f) :=
    (List.sum_toFinset (weightOf f) (nodup_chanSlots rx)).symm
  have hqueues : ((List.range n).map fun i => weightOf f (chOf i)).sum =
      ((List.range n).map chOf).toFinset.sum (weightOf f) := by
    rw [List.sum_toFinset (weightOf f) hnodup, List.map_map]
    rfl
  rw [hslots, hqueues]
  symm
  apply Finset.sum_subset
  · intro ch hch
    rw [List.mem_toFinset] at hch ⊢
    obtain ⟨i, hi, rfl⟩ := List.mem_map.mp hch
    exact mem_chanSlots.mpr (hdir i (List.mem_range.mp hi))
  · intro ch hch hnot
    rw [List.mem_toFinset] at hch hnot
    refine hrest ch (mem_chanSlots.mp hch) fun i hi heq => hnot ?_
    rw [heq]
    exact List.mem_map_of_mem (List.mem_range.mpr hi)

/-- The weights of the tx channels allow a split, and their quotas are those of one. -/
def Installed (c : CpdmaCtlr τ) : Prop := weightSum c.channels false ≤ 100 ∧ TxSettled c

/-- The rate that the weights are percentages of, on links that carry the limits. -/
def sharedRate (rate : ℕ → U32) (n speed : ℕ) : ℕ :=
  if limitedNum rate n = n then totalRate rate n else 1000 * speed

/-- The driver has no tx channels but those of its queues. -/
def OwnsTx (cfg : Config) (s : Common τ) : Prop :=
  ∀ ch, isTxChan ch = true → (s.dma.ctlr.channels ch).isSome → ∃ i < s.txChNum, ch = txChan cfg i

theorem limitedNum_pos (hi : i < n) (hne : rate i ≠ 0) : 0 < limitedNum rate n :=
  List.countP_pos_iff.mpr ⟨i, List.mem_range.mpr hi, by simpa using hne⟩

theorem shares_maxRate {speed : U32} {v : Consumed} (hint : 1000 * speed.toNat < 2 ^ 31)
    (hcover : totalRate rate n ≤ 1000 * speed.toNat) (hfit : totalRate rate n ≤ 32000000)
    (htotal : v.consumedRate.toNat = totalRate rate n) (hnum : v.rlimChNum = limitedNum rate n)
    (hsome : 0 < limitedNum rate n) (hshares : shares speed n v = some h) :
    h.maxRate.toNat = sharedRate rate n speed.toNat := by
  unfold shares at hshares
  unfold sharedRate
  by_cases hall : limitedNum rate n = n
  · rw [if_pos (by omega)] at hshares
    obtain rfl := Option.some.inj hshares
    rw [if_pos hall]
    exact htotal
  · rw [if_neg (by omega), if_neg (by omega)] at hshares
    dsimp only at hshares
    split at hshares
    · cases hshares
    obtain rfl := Option.some.inj hshares
    dsimp only
    rw [if_neg hall, toNat_maxRate hint (by omega), htotal]
    unfold scaledRate
    dsimp only
    rw [if_neg (Nat.not_lt.mpr hcover), if_neg (Nat.not_lt.mpr hcover)]

theorem weightFor_eq (hle : (rate i).toNat ≤ 4000000) : weightFor h (rate i) =
    if rate i = 0 then (0 : ℤ) else (needed 100 h.maxRate.toNat (rate i).toNat : ℕ) := by
  have hweight : (100 : U32).toNat = 100 := rfl
  unfold weightFor
  by_cases hzero : rate i = 0
  · rw [if_neg (not_not.mpr hzero), if_pos hzero]
  · rw [if_pos hzero, if_neg hzero, rateShare_eq (by rw [hweight]; omega), hweight]

theorem sum_weightFor {m : ℕ} (hle : ∀ i < n, (rate i).toNat ≤ 4000000)
    (hmax : 0 < limitedNum rate n → h.maxRate.toNat = m) :
    ((List.range n).map fun i => weightFor h (rate i)).sum = neededSum 100 rate n m := by
  have hparts := sum_parts rate (fun i => needed 100 m (rate i).toNat) 0 n
  rw [mul_zero, add_zero] at hparts
  unfold neededSum
  rw [← hparts]
  congr 1
  apply List.map_congr_left
  intro i hi
  have hin := List.mem_range.mp hi
  rw [weightFor_eq (hle i hin)]
  by_cases hzero : rate i = 0
  · rw [if_pos hzero, if_pos hzero]
  · rw [if_neg hzero, if_neg hzero, hmax (limitedNum_pos hin hzero)]

theorem Polling.distinct (h : Polling cfg s) :
    ∀ i < s.txChNum, ∀ j < s.txChNum, i ≠ j → txChan cfg i ≠ txChan cfg j :=
  fun _ hi _ hj hne => h.vectors.ne hi hj hne

theorem Polling.tx (h : Polling cfg s) (hi : i < s.txChNum) : isRxChan (txChan cfg i) = false := by
  have hlt := txChan_lt cfg (hi.trans_le h.vectors.txNum.1)
  have htx := isTxChan_iff.mpr (by omega : (txChan cfg i).val < 32)
  simpa [isTxChan] using htx

/-- The weights after a split are those of the limits, whatever was refused on the way. -/
theorem Splits.weightSum (hsplit : Splits cfg s h t) (hpoll : Polling cfg s)
    (hown : OwnsTx cfg s) : weightSum t.dma.ctlr.channels false =
      ((List.range s.txChNum).map fun i => weightFor h (limits cfg s i)).sum := by
  have hctlr : t.dma.ctlr = retuned (txChan cfg) h s.dma.ctlr s.txChNum := by rw [hsplit.dma]
  rw [hctlr, weightSum_eq_sum hpoll.distinct fun i hi => hpoll.tx hi]
  · congr 1
    apply List.map_congr_left
    intro i hi
    exact retuned_weightOf hpoll.exist hpoll.distinct (le_refl _) (List.mem_range.mp hi)
  · intro ch hrx hne
    rw [retuned_weightOf_ne hpoll.exist hne (le_refl _)]
    have hnone : s.dma.ctlr.channels ch = none := by
      by_contra hsome
      obtain ⟨i, hi, heq⟩ := hown ch (by simp [isTxChan, hrx]) (Option.isSome_iff_ne_none.mpr hsome)
      exact hne i hi heq
    unfold weightOf
    rw [hnone]
    rfl

theorem Splits.rxWeightSum (hsplit : Splits cfg s h t) (hpoll : Polling cfg s) :
    Cpdma.weightSum t.dma.ctlr.channels true = Cpdma.weightSum s.dma.ctlr.channels true := by
  have hctlr : t.dma.ctlr = retuned (txChan cfg) h s.dma.ctlr s.txChNum := by rw [hsplit.dma]
  rw [hctlr]
  refine congrArg List.sum (List.map_congr_left fun ch hch => ?_)
  have hrx := mem_chanSlots.mp hch
  refine retuned_weightOf_ne hpoll.exist (fun i hi heq => ?_) (le_refl s.txChNum)
  rw [heq, hpoll.tx hi] at hrx
  cases hrx

theorem Polling.weights (h : Polling cfg s) (hown : OwnsTx cfg s) (hpos : 0 < s.speed.toNat)
    (hint : 1000 * s.speed.toNat < 2 ^ 31)
    (hcover : totalRate (limits cfg s) s.txChNum ≤ 1000 * s.speed.toNat) :
    ∃ h' t, Splits cfg s h' t ∧ weightSum t.dma.ctlr.channels false =
      neededSum 100 (limits cfg s) s.txChNum
        (sharedRate (limits cfg s) s.txChNum s.speed.toNat) := by
  obtain ⟨v, h', t, htotal, hnum, hshares, hsplit⟩ := h.splits hpos hint
  have hfit : totalRate (limits cfg s) s.txChNum ≤ 32000000 :=
    (totalRate_le h.limit_le).trans (Nat.mul_le_mul_right 4000000 h.vectors.txNum.1)
  refine ⟨h', t, hsplit, ?_⟩
  rw [hsplit.weightSum h hown]
  exact sum_weightFor h.limit_le fun hsome =>
    shares_maxRate hint hcover hfit htotal hnum hsome hshares

theorem Splits.chanNum (hsplit : Splits cfg s h t) : t.dma.ctlr.chanNum = s.dma.ctlr.chanNum := by
  rw [hsplit.dma]
  exact retuned_chanNum _ _ _ _

/-- A split installs its weights, and the quotas that go with them, just when the rounded
percentages of the limits are together at most 100. -/
theorem cpswSplitRes_installs_iff (h : Polling cfg s) (hown : OwnsTx cfg s)
    (hpos : 0 < s.speed.toNat) (hint : 1000 * s.speed.toNat < 2 ^ 31)
    (hcover : totalRate (limits cfg s) s.txChNum ≤ 1000 * s.speed.toNat)
    (hprev : Installed s.dma.ctlr) :
    ∃ t, cpswSplitRes cfg.params s = some t ∧ (Installed t.dma.ctlr ↔
      neededSum 100 (limits cfg s) s.txChNum
        (sharedRate (limits cfg s) s.txChNum s.speed.toNat) ≤ 100) := by
  obtain ⟨h', t, hsplit, hsum⟩ := h.weights hown hpos hint hcover
  have hctlr : t.dma.ctlr = retuned (txChan cfg) h' s.dma.ctlr s.txChNum := by rw [hsplit.dma]
  refine ⟨t, hsplit.split, ?_⟩
  unfold Installed
  rw [hsum, Nat.cast_le_ofNat]
  constructor
  · exact fun hinstalled => hinstalled.1
  · intro hfits
    refine ⟨hfits, ?_⟩
    rcases retuned_settled (.inr hprev.2) (txChan cfg) h' s.txChNum with hover | hsettled
    · rw [← hctlr] at hover
      by_cases hnum : s.dma.ctlr.chanNum = 0
      · exact txSettled_of_zero (hsplit.chanNum.trans hnum)
      · have hbefore := hprev.2.not_over hnum
        have hrx := hsplit.rxWeightSum h
        unfold OverWeight at hover hbefore
        omega
    · rw [hctlr]
      exact hsettled

theorem ownsTx_queuesOf (n : ℕ) (rate : ChanId → U32) : OwnsTx wideConfig (queuesOf n rate) := by
  intro ch htx hsome
  rw [(queuesOf_quota n rate).isSome] at hsome
  have hlt := isTxChan_iff.mp htx
  have hch : ch.val < 8 ∧ 8 ≤ ch.val + n := by
    unfold queueChans at hsome
    split at hsome
    · rename_i heq
      rw [heq] at hlt
      exact absurd hlt (by decide)
    · split at hsome
      · assumption
      · cases hsome
  refine ⟨7 - ch.val, show 7 - ch.val < n by omega, ?_⟩
  apply Fin.ext
  have hval := (vch_val (by unfold cpswMaxQueues; omega : 7 - ch.val < cpswMaxQueues)).2
  show ch.val = (vch false (7 - ch.val)).val
  omega

theorem installed_queuesOf (n : ℕ) (rate : ChanId → U32) :
    Installed (queuesOf n rate).dma.ctlr := by
  have hweight : ∀ ch, weightOf (queueChans n rate) ch = 0 := by
    intro ch
    unfold weightOf queueChans
    split
    · rfl
    · split <;> rfl
  have hsum : ∀ rx, weightSum (queueChans n rate) rx = 0 := by
    intro rx
    apply List.sum_eq_zero
    intro x hx
    obtain ⟨ch, -, rfl⟩ := List.mem_map.mp hx
    exact hweight ch
  constructor
  · rw [(queuesOf_quota n rate).weightSum, hsum]
    decide
  · apply cpdmaChanSplitPool_settled
    unfold OverWeight
    dsimp only [quiet]
    rw [hsum, hsum]
    decide

/-- A rate that the search meets at its first candidate. -/
theorem found_exact {rate : U32} {mbps : ℕ} (hrate : rate.toNat = 1000 * mbps)
    (hmin : cpdmaChanGetMinRate 125 ≤ rate) (hle : mbps ≤ 2000)
    (h : (cpdmaChanSetFactors 4 125 { rate := rate }).any
      (fun r => r.toOption.any fun chan => chan.rate = rate) = true) : FoundRate 125 rate := by
  obtain ⟨r, hset, hr⟩ := (Option.any_eq_true _ _).mp h
  obtain ⟨chan, hok, hsame⟩ := (Option.any_eq_true _ _).mp hr
  cases r with
  | error err => cases hok
  | ok chan' =>
    obtain rfl := Option.some.inj hok
    exact .inr ⟨_, chan', 4, .inr ⟨mbps, hrate, hmin, hle⟩, hset, of_decide_eq_true hsame⟩

/-- The upper tx channel is limited to 800 Mbit/s and the next `k` ones to 1 Mbit/s. -/
def oneFast (k : ℕ) (ch : ChanId) : U32 :=
  if ch = 7 then 800000 else if ch.val < 7 ∧ 7 ≤ ch.val + k then 1000 else 0

theorem polling_oneFast {k : ℕ} (hpos : 0 < n) (hn : n ≤ 8) :
    Polling wideConfig (queuesOf n (oneFast k)) := by
  have hfast : FoundRate 125 800000 :=
    found_exact (show (800000 : U32).toNat = 1000 * 800 by decide) (by decide) (by decide)
      (by decide +kernel)
  have hslow : FoundRate 125 1000 :=
    found_exact (show (1000 : U32).toNat = 1000 * 1 by decide) (by decide) (by decide)
      (by decide +kernel)
  apply polling_queuesOf hpos hn
  · intro ch _
    unfold oneFast
    split
    · exact hfast
    split
    · exact hslow
    · exact .inl rfl
  · intro a b hlt hb ha
    have hval : a.val < b.val := hlt
    have hne : a ≠ 7 := by
      rintro rfl
      exact absurd hval (by simp; omega)
    unfold oneFast at ha ⊢
    rw [if_neg hne] at ha
    split at ha
    · rename_i hk
      split
      · decide
      · rename_i hb7
        have : b.val ≠ 7 := fun heq => hb7 (Fin.ext heq)
        rw [if_pos (by omega)]
        decide
    · exact absurd rfl ha

/-- A limited queue of two. -/
theorem cpswSplitRes_installs_eighty : ∃ t,
    cpswSplitRes wideConfig.params (queuesOf 2 (oneFast 0)) = some t ∧ (Installed t.dma.ctlr ↔
      neededSum 100 (limits wideConfig (queuesOf 2 (oneFast 0))) 2
        (sharedRate (limits wideConfig (queuesOf 2 (oneFast 0))) 2 1000) ≤ 100) :=
  cpswSplitRes_installs_iff (polling_oneFast (by omega) (by omega)) (ownsTx_queuesOf 2 (oneFast 0))
    (show 0 < 1000 by omega) (show 1000 * 1000 < 2 ^ 31 by omega) (by decide +kernel)
    (installed_queuesOf 2 (oneFast 0))

/-- Two of three queues have limits of less than a percent: the weights come to 99 + 1 + 1, the
last one is refused, and the quotas stay behind. -/
theorem small_limits_overweigh : Polling wideConfig (queuesOf 3 (oneFast 2)) ∧
    OwnsTx wideConfig (queuesOf 3 (oneFast 2)) ∧ Installed (queuesOf 3 (oneFast 2)).dma.ctlr ∧
    totalRate (limits wideConfig (queuesOf 3 (oneFast 2))) 3 = 802000 ∧
    ∃ t, cpswSplitRes wideConfig.params (queuesOf 3 (oneFast 2)) = some t ∧
      weightSum t.dma.ctlr.channels false = 101 ∧ ¬ Installed t.dma.ctlr ∧
      ¬ TxSettled t.dma.ctlr := by
  have hpoll : Polling wideConfig (queuesOf 3 (oneFast 2)) := polling_oneFast (by omega) (by omega)
  have htotal : totalRate (limits wideConfig (queuesOf 3 (oneFast 2))) 3 = 802000 := by
    decide +kernel
  obtain ⟨h', t, hsplit, hsum⟩ := hpoll.weights (ownsTx_queuesOf 3 (oneFast 2))
    (show 0 < 1000 by omega) (show 1000 * 1000 < 2 ^ 31 by omega)
    (show totalRate (limits wideConfig (queuesOf 3 (oneFast 2))) 3 ≤ 1000 * 1000 by omega)
  have hneeded : neededSum 100 (limits wideConfig (queuesOf 3 (oneFast 2))) 3
      (sharedRate (limits wideConfig (queuesOf 3 (oneFast 2))) 3 1000) = 101 := by decide +kernel
  have hsum : weightSum t.dma.ctlr.channels false = 101 := by
    rw [hsum]
    exact_mod_cast hneeded
  have hnum : t.dma.ctlr.chanNum ≠ 0 := by
    rw [hsplit.chanNum]
    decide +kernel
  refine ⟨hpoll, ownsTx_queuesOf 3 _, installed_queuesOf 3 _, htotal, t, hsplit.split, hsum, ?_, ?_⟩
  · intro hinstalled
    have := hinstalled.1
    omega
  · intro hsettled
    have hnot := hsettled.not_over hnum
    unfold OverWeight at hnot
    omega

end CpswDriver.Channels
