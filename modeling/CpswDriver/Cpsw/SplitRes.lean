import CpswDriver.Cpdma.Limits

/-!
The channels of the switch and how its resources are split over them. Channels
with a limit get a weight by their rates, the others what is left.
-/

namespace CpswDriver.Channels

open Cpdma

def cpswMaxQueues : ℕ := 8
def napiPollWeight : ℕ := 64

/-- A channel as the switch driver holds it, none for NULL. -/
structure CpswVector where
  ch : Option ChanId := none
  budget : ℤ := 0

/-- The part of struct cpsw_common about channels, with the DMA driver. -/
structure Common (τ : Type*) where
  dma : State τ
  txv : ℕ → CpswVector
  rxv : ℕ → CpswVector
  txChNum : ℕ
  rxChNum : ℕ
  speed : U32

variable {τ : Type*}

/-- cpdma_chan_get_rate. A channel that does not exist stands for NULL, where there is no
rate to be had. -/
def cpdmaChanGetRate (s : Common τ) (vec : CpswVector) : Option U32 :=
  (vec.ch.bind s.dma.ctlr.channels).map CpdmaChan.rate

/-- The sums of the first loop of cpsw_split_res. -/
structure Consumed where
  consumedRate : U32 := 0
  rlimChNum : ℕ := 0

def consumeRate (v : Consumed) (chRate : U32) : Consumed :=
  if chRate = 0 then v else ⟨v.consumedRate + chRate, v.rlimChNum + 1⟩

def consumedRates (s : Common τ) : Option Consumed :=
  (List.range s.txChNum).foldlM
    (fun v i => (cpdmaChanGetRate s (s.txv i)).map (consumeRate v)) {}

/-- What the second loop of cpsw_split_res divides by and starts from. -/
structure Shares where
  maxRate : U32
  chBudget : ℤ := 0
  bigestRate : U32 := 0

/-- The rate that the limits are shares of, when some channels have none. -/
def maxRate (speed consumedRate : U32) : U32 :=
  let maxRate := speed * 1000
  let maxRate := if maxRate < consumedRate then maxRate * 10 else maxRate
  if maxRate < consumedRate then maxRate * 10 else maxRate

/-- None is a division by zero. -/
def shares (speed : U32) (txChNum : ℕ) (v : Consumed) : Option Shares :=
  if txChNum = v.rlimChNum then some { maxRate := v.consumedRate }
  else if v.rlimChNum = 0 then
    some { maxRate := v.consumedRate, chBudget := napiPollWeight / txChNum }
  else
    let maxRate := maxRate speed v.consumedRate
    if maxRate = 0 then none
    else
      let chBudget := (v.consumedRate * BitVec.ofNat 32 napiPollWeight / maxRate).toInt
      some {
        maxRate := maxRate
        chBudget := (napiPollWeight - chBudget).tdiv (txChNum - v.rlimChNum : ℕ)
        bigestRate := (maxRate - v.consumedRate) / BitVec.ofNat 32 (txChNum - v.rlimChNum) }

structure SplitTx (τ : Type*) where
  cpsw : Common τ
  budget : ℤ
  bigestRate : U32
  bigestRateCh : ℕ := 0

def rateShare (chRate total maxRate : U32) : ℤ :=
  let share := (chRate * total / maxRate).toInt
  if share = 0 then 1 else share

def Common.setTxBudget (s : Common τ) (i : ℕ) (budget : ℤ) : Common τ :=
  { s with txv := Function.update s.txv i { s.txv i with budget := budget } }

def Common.setRxBudget (s : Common τ) (i : ℕ) (budget : ℤ) : Common τ :=
  { s with rxv := Function.update s.rxv i { s.rxv i with budget := budget } }

/-- cpdma_chan_set_weight -/
def Common.setWeight (params : CpdmaParams) (s : Common τ) (vec : CpswVector) (weight : ℤ) :
    Option (Common τ) :=
  vec.ch.bind fun ch => (step params s.dma (.setWeight ch weight)).map fun dma =>
    { s with dma := dma }

/-- The second loop of cpsw_split_res at one channel, none for a division by zero. -/
def splitTxStep (params : CpdmaParams) (h : Shares) (v : SplitTx τ) (i : ℕ) :
    Option (SplitTx τ) :=
  (cpdmaChanGetRate v.cpsw (v.cpsw.txv i)).bind fun chRate =>
    if chRate ≠ 0 then
      if h.maxRate = 0 then none
      else
        let budget := rateShare chRate (BitVec.ofNat 32 napiPollWeight) h.maxRate
        let bigger := v.bigestRate < chRate
        let weight := rateShare chRate 100 h.maxRate
        (v.cpsw.setWeight params (v.cpsw.txv i) weight).map fun cpsw =>
          { cpsw := cpsw.setTxBudget i budget
            budget := v.budget - budget
            bigestRate := if bigger then chRate else v.bigestRate
            bigestRateCh := if bigger then i else v.bigestRateCh }
    else
      (v.cpsw.setWeight params (v.cpsw.txv i) 0).map fun cpsw =>
        { cpsw := cpsw.setTxBudget i h.chBudget
          budget := v.budget - h.chBudget
          bigestRate := v.bigestRate
          bigestRateCh := if v.bigestRateCh = 0 then i else v.bigestRateCh }

def splitTx (params : CpdmaParams) (h : Shares) (s : Common τ) : Option (Common τ) :=
  ((List.range s.txChNum).foldlM (splitTxStep params h)
    { cpsw := s, budget := napiPollWeight, bigestRate := h.bigestRate }).map fun v =>
      if v.budget ≠ 0 then
        v.cpsw.setTxBudget v.bigestRateCh ((v.cpsw.txv v.bigestRateCh).budget + v.budget)
      else v.cpsw

/-- split rx budget, none for a division by zero -/
def splitRx (s : Common τ) : Option (Common τ) :=
  if s.rxChNum = 0 then none
  else
    let chBudget := napiPollWeight / s.rxChNum
    let t := (List.range s.rxChNum).foldl (fun t i => t.setRxBudget i chBudget) s
    let budget : ℤ := napiPollWeight - s.rxChNum * chBudget
    some (if budget ≠ 0 then t.setRxBudget 0 ((t.rxv 0).budget + budget) else t)

def cpswSplitRes (params : CpdmaParams) (s : Common τ) : Option (Common τ) :=
  (consumedRates s).bind fun v => (shares s.speed s.txChNum v).bind fun h =>
    (splitTx params h s).bind splitRx

structure SameLimits (s s' : Common τ) : Prop where
  limits : limitOf s'.dma.ctlr = limitOf s.dma.ctlr
  tx : ∀ i, (s'.txv i).ch = (s.txv i).ch
  rx : ∀ i, (s'.rxv i).ch = (s.rxv i).ch
  txChNum : s'.txChNum = s.txChNum
  rxChNum : s'.rxChNum = s.rxChNum

variable {params : CpdmaParams} {s s' s'' : Common τ}

theorem SameLimits.refl (s : Common τ) : SameLimits s s :=
  ⟨rfl, fun _ => rfl, fun _ => rfl, rfl, rfl⟩

theorem SameLimits.trans (h : SameLimits s s') (h' : SameLimits s' s'') : SameLimits s s'' where
  limits := h'.limits.trans h.limits
  tx i := (h'.tx i).trans (h.tx i)
  rx i := (h'.rx i).trans (h.rx i)
  txChNum := h'.txChNum.trans h.txChNum
  rxChNum := h'.rxChNum.trans h.rxChNum

theorem ch_update (vec : ℕ → CpswVector) (i : ℕ) (budget : ℤ) (j : ℕ) :
    (Function.update vec i { vec i with budget := budget } j).ch = (vec j).ch := by
  by_cases heq : j = i
  · rw [heq, Function.update_self]
  · rw [Function.update_of_ne heq]

theorem setTxBudget_same (s : Common τ) (i : ℕ) (budget : ℤ) :
    SameLimits s (s.setTxBudget i budget) :=
  ⟨rfl, ch_update s.txv i budget, fun _ => rfl, rfl, rfl⟩

theorem setRxBudget_same (s : Common τ) (i : ℕ) (budget : ℤ) :
    SameLimits s (s.setRxBudget i budget) :=
  ⟨rfl, fun _ => rfl, ch_update s.rxv i budget, rfl, rfl⟩

theorem setWeight_same {vec : CpswVector} {weight : ℤ}
    (h : s.setWeight params vec weight = some s') : SameLimits s s' := by
  obtain ⟨ch, -, h⟩ := Option.bind_eq_some_iff.mp h
  obtain ⟨dma, hstep, rfl⟩ := Option.map_eq_some_iff.mp h
  refine ⟨?_, fun _ => rfl, fun _ => rfl, rfl, rfl⟩
  simp only [step] at hstep
  split at hstep
  · cases hstep
  · obtain ⟨chan, hch, rfl⟩ := Option.map_eq_some_iff.mp hstep
    exact cpdmaChanSetWeight_limits hch weight

theorem splitTxStep_same {h : Shares} {v v' : SplitTx τ} {i : ℕ}
    (hstep : splitTxStep params h v i = some v') : SameLimits v.cpsw v'.cpsw := by
  obtain ⟨chRate, -, hstep⟩ := Option.bind_eq_some_iff.mp hstep
  dsimp only at hstep
  split at hstep
  · split at hstep
    · cases hstep
    · obtain ⟨cpsw, hweight, rfl⟩ := Option.map_eq_some_iff.mp hstep
      exact (setWeight_same hweight).trans (setTxBudget_same cpsw i _)
  · obtain ⟨cpsw, hweight, rfl⟩ := Option.map_eq_some_iff.mp hstep
    exact (setWeight_same hweight).trans (setTxBudget_same cpsw i _)

theorem foldlM_splitTxStep_same {h : Shares} {l : List ℕ} {v v' : SplitTx τ}
    (hfold : l.foldlM (splitTxStep params h) v = some v') : SameLimits v.cpsw v'.cpsw := by
  induction l generalizing v with
  | nil =>
    obtain rfl := Option.some.inj hfold
    exact .refl _
  | cons i l ih =>
    obtain ⟨w, hw, hrest⟩ := Option.bind_eq_some_iff.mp hfold
    exact (splitTxStep_same hw).trans (ih hrest)

theorem splitTx_same {h : Shares} (hsplit : splitTx params h s = some s') : SameLimits s s' := by
  obtain ⟨v, hfold, rfl⟩ := Option.map_eq_some_iff.mp hsplit
  have hsame := foldlM_splitTxStep_same hfold
  split
  · exact hsame.trans (setTxBudget_same v.cpsw _ _)
  · exact hsame

theorem foldl_setRxBudget_same (l : List ℕ) (budget : ℤ) (s : Common τ) :
    SameLimits s (l.foldl (fun t i => t.setRxBudget i budget) s) := by
  induction l generalizing s with
  | nil => exact .refl s
  | cons i l ih => exact (setRxBudget_same s i budget).trans (ih _)

theorem splitRx_same (h : splitRx s = some s') : SameLimits s s' := by
  unfold splitRx at h
  split at h
  · cases h
  obtain rfl := Option.some.inj h
  have hsame := foldl_setRxBudget_same (List.range s.rxChNum)
    (napiPollWeight / s.rxChNum : ℕ) s
  split
  · exact hsame.trans (setRxBudget_same _ _ _)
  · exact hsame

theorem cpswSplitRes_same (h : cpswSplitRes params s = some s') : SameLimits s s' := by
  obtain ⟨v, -, h⟩ := Option.bind_eq_some_iff.mp h
  obtain ⟨shares, -, h⟩ := Option.bind_eq_some_iff.mp h
  obtain ⟨t, htx, hrx⟩ := Option.bind_eq_some_iff.mp h
  exact (splitTx_same htx).trans (splitRx_same hrx)

end CpswDriver.Channels
