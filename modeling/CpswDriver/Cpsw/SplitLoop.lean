import CpswDriver.Cpsw.SplitRes
import CpswDriver.Lib.Apportion

/-!
The loops of a split of the resources, run to their end. Where the channels exist
and nobody holds the lock, every queue gets its part of the poll weight, one queue
gets what the parts leave over, and the weights are set one after another.
-/

namespace CpswDriver.Channels

open Cpdma Apportion

variable {τ : Type*} {params : CpdmaParams} {s s' : Common τ} {chOf : ℕ → ChanId} {i j n : ℕ}
  {c : CpdmaCtlr τ} {ch : ChanId} {weight : ℤ}

def chRate (c : CpdmaCtlr τ) (ch : ChanId) : U32 := ((c.channels ch).map CpdmaChan.rate).getD 0

/-- cpdma_chan_set_weight with its result ignored. -/
def retune (c : CpdmaCtlr τ) (ch : ChanId) (weight : ℤ) : CpdmaCtlr τ :=
  match c.channels ch with
  | none => c
  | some chan => (cpdmaChanSetWeight c ch chan weight).1

/-- The queues have their channels, and the controller is not locked. -/
structure Ready (chOf : ℕ → ChanId) (s : Common τ) : Prop where
  lock : s.dma.lock = none
  tx : ∀ i < s.txChNum, (s.txv i).ch = some (chOf i) ∧ (s.dma.ctlr.channels (chOf i)).isSome

theorem chRate_eq_limit (c : CpdmaCtlr τ) (ch : ChanId) :
    chRate c ch = ((limitOf c ch).map Prod.fst).getD 0 := by
  unfold chRate limitOf
  rw [Option.map_map]
  rfl

theorem retune_limits (c : CpdmaCtlr τ) (ch : ChanId) (weight : ℤ) :
    limitOf (retune c ch weight) = limitOf c := by
  unfold retune
  cases h : c.channels ch with
  | none => rfl
  | some chan => exact cpdmaChanSetWeight_limits h weight

theorem isSome_of_limits {c' : CpdmaCtlr τ} (h : limitOf c' = limitOf c) (ch : ChanId) :
    (c'.channels ch).isSome = (c.channels ch).isSome := by
  rw [← limitOf_isSome, ← limitOf_isSome, h]

theorem chRate_of_limits {c' : CpdmaCtlr τ} (h : limitOf c' = limitOf c) (ch : ChanId) :
    chRate c' ch = chRate c ch := by
  rw [chRate_eq_limit, chRate_eq_limit, h]

theorem Ready.getRate (h : Ready chOf s) (hi : i < s.txChNum) :
    cpdmaChanGetRate s (s.txv i) = some (chRate s.dma.ctlr (chOf i)) := by
  obtain ⟨hch, hsome⟩ := h.tx i hi
  obtain ⟨chan, hchan⟩ := Option.isSome_iff_exists.mp hsome
  unfold cpdmaChanGetRate chRate
  rw [hch, Option.bind_some, hchan]
  rfl

theorem Ready.setWeight (h : Ready chOf s) (hi : i < s.txChNum) (weight : ℤ) :
    s.setWeight params (s.txv i) weight =
      some { s with dma := { s.dma with ctlr := retune s.dma.ctlr (chOf i) weight } } := by
  obtain ⟨hch, hsome⟩ := h.tx i hi
  obtain ⟨chan, hchan⟩ := Option.isSome_iff_exists.mp hsome
  unfold Common.setWeight
  rw [hch, Option.bind_some]
  simp only [step, retune]
  rw [if_neg (not_not.mpr h.lock), hchan]
  rfl

theorem Ready.same (h : Ready chOf s) (hsame : SameLimits s s') (hlock : s'.dma.lock = none) :
    Ready chOf s' where
  lock := hlock
  tx i hi := by
    rw [hsame.txChNum] at hi
    rw [hsame.tx, isSome_of_limits hsame.limits]
    exact h.tx i hi

def partOf (h : Shares) (rate : U32) : ℤ :=
  if rate ≠ 0 then rateShare rate (BitVec.ofNat 32 napiPollWeight) h.maxRate else h.chBudget

def weightFor (h : Shares) (rate : U32) : ℤ :=
  if rate ≠ 0 then rateShare rate 100 h.maxRate else 0

/-- The biggest rate so far and its queue, as the second loop keeps them. -/
def biggest (v : U32 × ℕ) (rate : U32) (i : ℕ) : U32 × ℕ :=
  if rate ≠ 0 then if v.1 < rate then (rate, i) else v
  else if v.2 = 0 then (v.1, i) else v

/-- The queue that gets what is over. -/
def takerOf (h : Shares) (rate : ℕ → U32) (n : ℕ) : U32 × ℕ :=
  (List.range n).foldl (fun v i => biggest v (rate i) i) (h.bigestRate, 0)

theorem splitTxStep_eq (params : CpdmaParams) {h : Shares} {v : SplitTx τ}
    (hready : Ready chOf v.cpsw)
    (hi : i < v.cpsw.txChNum) (hmax : chRate v.cpsw.dma.ctlr (chOf i) ≠ 0 → h.maxRate ≠ 0) :
    splitTxStep params h v i = some {
      cpsw := { v.cpsw with dma := { v.cpsw.dma with
        ctlr := retune v.cpsw.dma.ctlr (chOf i)
          (weightFor h (chRate v.cpsw.dma.ctlr (chOf i))) } }.setTxBudget i
            (partOf h (chRate v.cpsw.dma.ctlr (chOf i)))
      budget := v.budget - partOf h (chRate v.cpsw.dma.ctlr (chOf i))
      bigestRate := (biggest (v.bigestRate, v.bigestRateCh)
        (chRate v.cpsw.dma.ctlr (chOf i)) i).1
      bigestRateCh := (biggest (v.bigestRate, v.bigestRateCh)
        (chRate v.cpsw.dma.ctlr (chOf i)) i).2 } := by
  unfold splitTxStep
  rw [hready.getRate hi, Option.bind_some]
  generalize chRate v.cpsw.dma.ctlr (chOf i) = rate at hmax ⊢
  by_cases hrate : rate = 0
  · have hweight : weightFor h rate = 0 := if_neg (not_not.mpr hrate)
    rw [if_neg (not_not.mpr hrate), hready.setWeight hi, hweight]
    simp only [partOf, biggest, hrate, ne_eq, not_true_eq_false, if_false, Option.map_some]
    split <;> rfl
  · have hweight : weightFor h rate = rateShare rate 100 h.maxRate := if_pos hrate
    rw [if_pos hrate, if_neg (hmax hrate)]
    dsimp only
    rw [hready.setWeight hi, hweight]
    simp only [partOf, biggest, hrate, ne_eq, not_false_eq_true, if_true, Option.map_some]
    split <;> rfl

/-- The controller after the weights of the first queues are set. -/
def retuned (chOf : ℕ → ChanId) (h : Shares) (c : CpdmaCtlr τ) (i : ℕ) : CpdmaCtlr τ :=
  (List.range i).foldl (fun c' j => retune c' (chOf j) (weightFor h (chRate c (chOf j)))) c

/-- What the second loop has done after the queues below `i`. -/
structure SplitTo (chOf : ℕ → ChanId) (h : Shares) (s : Common τ)
    (i : ℕ) (v : SplitTx τ) : Prop where
  same : SameLimits s v.cpsw
  dma : v.cpsw.dma = { s.dma with ctlr := retuned chOf h s.dma.ctlr i }
  rxv : v.cpsw.rxv = s.rxv
  parts : ∀ j < i, (v.cpsw.txv j).budget = partOf h (chRate s.dma.ctlr (chOf j))
  budget : v.budget = napiPollWeight -
    ((List.range i).map fun j => partOf h (chRate s.dma.ctlr (chOf j))).sum
  taker : (v.bigestRate, v.bigestRateCh) = takerOf h (fun j => chRate s.dma.ctlr (chOf j)) i

theorem SplitTo.step (params : CpdmaParams) {h : Shares} {v : SplitTx τ}
    (hready : Ready chOf s) (hi : i < s.txChNum)
    (hmax : ∀ j < s.txChNum, chRate s.dma.ctlr (chOf j) ≠ 0 → h.maxRate ≠ 0)
    (hv : SplitTo chOf h s i v) :
    ∃ v', splitTxStep params h v i = some v' ∧ SplitTo chOf h s (i + 1) v' := by
  have hlock : v.cpsw.dma.lock = none := by
    rw [hv.dma]
    exact hready.lock
  have hready' : Ready chOf v.cpsw := hready.same hv.same hlock
  have hrate : chRate v.cpsw.dma.ctlr (chOf i) = chRate s.dma.ctlr (chOf i) :=
    chRate_of_limits hv.same.limits _
  have hstep := splitTxStep_eq params (h := h) hready'
    (by rw [hv.same.txChNum]; exact hi) (by rw [hrate]; exact hmax i hi)
  rw [hrate] at hstep
  refine ⟨_, hstep, ?_⟩
  refine ⟨hv.same.trans (splitTxStep_same hstep), ?_, hv.rxv, ?_, ?_, ?_⟩
  · dsimp only [Common.setTxBudget]
    rw [hv.dma, retuned, retuned, List.range_succ, List.foldl_append]
    rfl
  · intro j hj
    dsimp only [Common.setTxBudget]
    by_cases heq : j = i
    · rw [heq, Function.update_self]
    · rw [Function.update_of_ne heq]
      exact hv.parts j (by omega)
  · dsimp only
    rw [hv.budget, List.range_succ, List.map_append, List.sum_append, List.map_singleton,
      List.sum_singleton]
    omega
  · dsimp only
    rw [Prod.mk.eta, hv.taker, takerOf, takerOf, List.range_succ, List.foldl_append]
    rfl

theorem SplitTo.loop (params : CpdmaParams) {h : Shares} (hready : Ready chOf s)
    (hmax : ∀ j < s.txChNum, chRate s.dma.ctlr (chOf j) ≠ 0 → h.maxRate ≠ 0) (hn : n ≤ s.txChNum) :
    ∃ v, (List.range n).foldlM (splitTxStep params h)
        { cpsw := s, budget := napiPollWeight, bigestRate := h.bigestRate } = some v ∧
      SplitTo chOf h s n v := by
  induction n with
  | zero =>
    refine ⟨_, rfl, .refl s, rfl, rfl, fun j hj => absurd hj (Nat.not_lt_zero j), ?_, rfl⟩
    simp
  | succ n ih =>
    obtain ⟨v, hloop, hv⟩ := ih (by omega)
    obtain ⟨v', hstep, hv'⟩ := hv.step params hready (by omega) hmax
    refine ⟨v', ?_, hv'⟩
    rw [List.range_succ, List.foldlM_append, hloop]
    simpa using hstep

/-- The budgets and the controller that the second loop leaves. -/
theorem splitTx_spec (params : CpdmaParams) {h : Shares} (hready : Ready chOf s)
    (hmax : ∀ j < s.txChNum, chRate s.dma.ctlr (chOf j) ≠ 0 → h.maxRate ≠ 0)
    (htaker : (takerOf h (fun j => chRate s.dma.ctlr (chOf j)) s.txChNum).2 < s.txChNum) :
    ∃ t, splitTx params h s = some t ∧
      t.dma = { s.dma with ctlr := retuned chOf h s.dma.ctlr s.txChNum } ∧
      ∀ j < s.txChNum, (t.txv j).budget =
        settle (List.range s.txChNum) (fun j => partOf h (chRate s.dma.ctlr (chOf j)))
          napiPollWeight (takerOf h (fun j => chRate s.dma.ctlr (chOf j)) s.txChNum).2 j := by
  obtain ⟨v, hloop, hv⟩ := SplitTo.loop params hready hmax (le_refl _)
  have hch : v.bigestRateCh = (takerOf h (fun j => chRate s.dma.ctlr (chOf j)) s.txChNum).2 :=
    congrArg Prod.snd hv.taker
  rw [← hch] at htaker ⊢
  have hself := settle_self (f := fun j => partOf h (chRate s.dma.ctlr (chOf j)))
    (n := napiPollWeight) (List.mem_range.mpr htaker)
  rw [← hv.budget, ← hv.parts _ htaker] at hself
  unfold splitTx
  rw [hloop, Option.map_some]
  refine ⟨_, rfl, ?_, ?_⟩
  · split <;> exact hv.dma
  · intro j hj
    split
    · dsimp only [Common.setTxBudget]
      by_cases heq : j = v.bigestRateCh
      · rw [heq, Function.update_self, hself]
      · rw [Function.update_of_ne heq, settle_of_ne heq]
        exact hv.parts j hj
    · rename_i hzero
      by_cases heq : j = v.bigestRateCh
      · rw [heq, hself]
        omega
      · rw [settle_of_ne heq]
        exact hv.parts j hj

theorem foldl_setRxBudget (s : Common τ) (budget : ℤ) (n : ℕ) :
    let t := (List.range n).foldl (fun t i => t.setRxBudget i budget) s
    t.dma = s.dma ∧ t.txv = s.txv ∧ ∀ j < n, (t.rxv j).budget = budget := by
  induction n with
  | zero => exact ⟨rfl, rfl, fun j hj => absurd hj (Nat.not_lt_zero j)⟩
  | succ n ih =>
    obtain ⟨hdma, htxv, hbudget⟩ := ih
    rw [List.range_succ, List.foldl_append]
    refine ⟨hdma, htxv, fun j hj => ?_⟩
    dsimp only [List.foldl_cons, List.foldl_nil, Common.setRxBudget]
    by_cases heq : j = n
    · rw [heq, Function.update_self]
    · rw [Function.update_of_ne heq]
      exact hbudget j (by omega)

/-- The budgets that the last loop leaves, and what it leaves alone. -/
theorem splitRx_spec (hn : 0 < s.rxChNum) :
    ∃ t, splitRx s = some t ∧ t.dma = s.dma ∧ t.txv = s.txv ∧
      ∀ j < s.rxChNum, (t.rxv j).budget =
        settle (List.range s.rxChNum) (fun _ => (napiPollWeight / s.rxChNum : ℕ))
          napiPollWeight 0 j := by
  obtain ⟨hdma, htxv, hbudget⟩ :=
    foldl_setRxBudget s (napiPollWeight / s.rxChNum : ℕ) s.rxChNum
  have hself : settle (List.range s.rxChNum) (fun _ => ((napiPollWeight / s.rxChNum : ℕ) : ℤ))
      napiPollWeight 0 0 = (napiPollWeight / s.rxChNum : ℕ) +
        (napiPollWeight - s.rxChNum * (napiPollWeight / s.rxChNum : ℕ)) := by
    rw [settle_self (List.mem_range.mpr hn)]
    simp
  unfold splitRx
  rw [if_neg (by omega)]
  dsimp only
  generalize (List.range s.rxChNum).foldl
    (fun t i => t.setRxBudget i (napiPollWeight / s.rxChNum : ℕ)) s = t at hdma htxv hbudget ⊢
  refine ⟨_, rfl, ?_⟩
  split
  · refine ⟨hdma, htxv, fun j hj => ?_⟩
    dsimp only [Common.setRxBudget]
    by_cases heq : j = 0
    · rw [heq, Function.update_self, hself]
      dsimp only
      rw [hbudget 0 hn]
    · rw [Function.update_of_ne heq, settle_of_ne heq]
      exact hbudget j hj
  · rename_i hzero
    refine ⟨hdma, htxv, fun j hj => ?_⟩
    by_cases heq : j = 0
    · rw [heq, hself, hbudget 0 hn]
      push_cast at hzero ⊢
      omega
    · rw [settle_of_ne heq]
      exact hbudget j hj

end CpswDriver.Channels
