import CpswDriver.Cpdma.Split
import CpswDriver.Cpdma.Channel

/-!
Rate limits of the tx channels. A limit is a pair of counts for the engine, of
which a search finds the best approximation from above. Limited channels have to
be the ones with the highest numbers.
-/

namespace CpswDriver.Cpdma

variable {τ : Type*}

def cpdmaMaxRlimCnt : ℕ := 16384

/-- DIV_ROUND_CLOSEST_ULL, which divides by the low word. None is a division by zero. -/
def divRoundClosestUll (x divisor : U64) : Option U64 :=
  let base : U64 := (divisor.setWidth 32).setWidth 64
  if base = 0 then none else some ((x + divisor / 2) / base)

/-- The variables of the loop in cpdma_chan_set_factors. -/
structure FactorSearch where
  delta : U32 := BitVec.allOnes 32
  prevDelta : U32 := BitVec.allOnes 32
  bestDelta : U32 := BitVec.allOnes 32
  bestSendCnt : U32 := 0
  bestIdleCnt : U32 := 0
  bestRate : U32 := 0
  sendCnt : U64

namespace FactorSearch

/-- The rate that the counts give, and the idle count. -/
def newRate (freq rate : U32) (sendCnt : U64) : Option (U32 × U64) := do
  let minSendCnt := freq - rate
  let idleCnt ← divRoundClosestUll (rate.setWidth 64 * sendCnt) (minSendCnt.setWidth 64)
  let newRate ← divRoundClosestUll (freq.setWidth 64 * idleCnt) (idleCnt + sendCnt)
  return (newRate.setWidth 32, idleCnt)

/-- A candidate is recorded if it is nearer to the rate than the best so far. -/
def record (v : FactorSearch) (rate newRate : U32) (idleCnt : U64) : FactorSearch :=
  let delta := if rate ≤ newRate then newRate - rate else v.delta
  let v := { v with delta := delta }
  if delta < v.bestDelta then
    { v with
      bestDelta := delta
      bestSendCnt := v.sendCnt.setWidth 32
      bestIdleCnt := idleCnt.setWidth 32
      bestRate := newRate }
  else v

/-- The exact rate was found: `delta < bestDelta` held and delta is zero. -/
def exact (old new : FactorSearch) : Bool := new.delta < old.bestDelta && new.delta = 0

def next (freq rate : U32) (v : FactorSearch) (idleCnt : U64) : Option FactorSearch :=
  if v.delta ≤ v.prevDelta then some { v with prevDelta := v.delta, sendCnt := v.sendCnt + 1 }
  else
    let idleCnt := idleCnt + 1
    (divRoundClosestUll (freq.setWidth 64 * idleCnt) (rate.setWidth 64)).map fun sendCnt =>
      { v with sendCnt := sendCnt - idleCnt, prevDelta := BitVec.allOnes 32 }

/-- The loop, with fuel. None is a division by zero, or no more fuel. -/
def loop (freq rate : U32) : ℕ → FactorSearch → Option FactorSearch
  | 0, _ => none
  | fuel + 1, v =>
    if v.sendCnt ≤ BitVec.ofNat 64 cpdmaMaxRlimCnt then do
      let (newRate, idleCnt) ← newRate freq rate v.sendCnt
      let v' := v.record rate newRate idleCnt
      if v.exact v' then return v'
      else loop freq rate fuel (← next freq rate v' idleCnt)
    else some v

end FactorSearch

/-- DIV_ROUND_UP on u32 values. -/
def divRoundUpU32 (n d : U32) : U32 := (n + d - 1) / d

/-- cpdma_chan_set_factors without its register write, for a rate that is not zero. -/
def searchFactors (fuel : ℕ) (freq : U32) (chan : CpdmaChan) : Option CpdmaChan :=
  let minSendCnt := freq - chan.rate
  let sendCnt := (divRoundUpU32 minSendCnt chan.rate).setWidth 64
  (FactorSearch.loop freq chan.rate fuel { sendCnt := sendCnt }).map fun v =>
    { chan with
      rate := v.bestRate
      rateFactor := v.bestSendCnt ||| v.bestIdleCnt.shiftLeft 16 }

/-- The channel after cpdma_chan_set_factors, or its error. None is as in the loop. -/
def cpdmaChanSetFactors (fuel : ℕ) (busFreqMhz : U32) (chan : CpdmaChan) :
    Option (Except ℤ CpdmaChan) :=
  if chan.rate = 0 then some (.ok { chan with rateFactor := 0 })
  else
    let freq := busFreqMhz * 1000 * 32
    if freq = 0 then some (.error (-einval))
    else (searchFactors fuel freq chan).map .ok

/-- cpdma_chan_get_min_rate -/
def cpdmaChanGetMinRate (busFreqMhz : U32) : U32 :=
  divRoundUpU32 (busFreqMhz * 32 * 1000) (BitVec.ofNat 32 (1 + cpdmaMaxRlimCnt))

/-- The loop of cpdma_chan_fit_rate over the tx channels: the mask of the limited ones,
and whether there is one; none when an upper channel is not limited. -/
def fitLoop (rateOf : ChanId → Option U32) : List ChanId → U32 × Bool → Option (U32 × Bool)
  | [], acc => some acc
  | c :: l, (newRmask, rlim) =>
    match rateOf c with
    | none => fitLoop rateOf l (newRmask, rlim)
    | some rate =>
      if rate ≠ 0 then fitLoop rateOf l (newRmask ||| chanMask c, true)
      else if rlim then none
      else fitLoop rateOf l (newRmask, rlim)

/-- The rates of the channels, with a new one for a channel. -/
def rateWith (channels : ChanId → Option CpdmaChan) (ch : ChanId) (rate : U32) (c : ChanId) :
    Option U32 :=
  (channels c).map fun chan => if c = ch then rate else chan.rate

def cpdmaChanFitRate (channels : ChanId → Option CpdmaChan) (ch : ChanId) (rate : U32) :
    Option (U32 × Bool) :=
  fitLoop (rateWith channels ch rate) (chanSlots false) (0, false)

/-- cpdma_chan_set_rate. A channel that does not exist stands for NULL. When the bus
frequency is not set, the channel keeps the rate that could not be programmed. -/
def cpdmaChanSetRate (params : CpdmaParams) (busFreqMhz : U32) (fuel : ℕ) (ctlr : CpdmaCtlr τ)
    (ch : ChanId) (rate : U32) : Option (CpdmaCtlr τ × ℤ) :=
  match ctlr.channels ch with
  | none => some (ctlr, -einval)
  | some chan =>
    if !isTxChan ch then some (ctlr, -einval)
    else if chan.rate = rate then some (ctlr, rate.toInt)
    else
      match cpdmaChanFitRate ctlr.channels ch rate with
      | none => some (ctlr, -einval)
      | some (rmask, prioMode) =>
        match cpdmaChanSetFactors fuel busFreqMhz { chan with rate := rate } with
        | none => none
        | some (.error err) => some (ctlr.setChan ch { chan with rate := rate }, err)
        | some (.ok chan) =>
          let ctlr := (ctlr.setChan ch chan).dmaRegWrite (cpdmaTxPri0Rate + 4 * ch.val)
            chan.rateFactor
          let ctlr := (cpdmaControlSetLocked params ctlr cpdmaTxRlim rmask).1
          let ctlr := (cpdmaControlSetLocked params ctlr cpdmaTxPrioFixed
            (if prioMode then 1 else 0)).1
          some (ctlr, 0)

namespace FactorSearch

variable {freq rate : U32} {v v' : FactorSearch} {idleCnt : U64} {fuel : ℕ}

/-- The best candidate so far, if there is one, is at least the rate. -/
structure Inv (rate : U32) (v : FactorSearch) : Prop where
  best : v.bestDelta ≤ v.delta
  above : v.bestRate = 0 ∧ v.bestSendCnt = 0 ∧ v.bestIdleCnt = 0 ∨ rate ≤ v.bestRate

theorem Inv.record (h : Inv rate v) (newRate : U32) (idleCnt : U64) :
    Inv rate (v.record rate newRate idleCnt) := by
  unfold FactorSearch.record
  dsimp only
  generalize hdelta : (if rate ≤ newRate then newRate - rate else v.delta) = delta
  by_cases hlt : delta < v.bestDelta
  · rw [if_pos hlt]
    refine ⟨BitVec.le_refl _, .inr ?_⟩
    dsimp only
    by_contra habove
    rw [if_neg habove] at hdelta
    have hbest := h.best
    rw [hdelta] at hbest
    exact absurd hlt (BitVec.not_lt.mpr hbest)
  · rw [if_neg hlt]
    exact ⟨BitVec.not_lt.mp hlt, h.above⟩

theorem Inv.next (h : Inv rate v) (hnext : FactorSearch.next freq rate v idleCnt = some v') :
    Inv rate v' := by
  unfold FactorSearch.next at hnext
  split at hnext
  · obtain rfl := Option.some.inj hnext
    exact ⟨h.best, h.above⟩
  · obtain ⟨sendCnt, -, rfl⟩ := Option.map_eq_some_iff.mp hnext
    exact ⟨h.best, h.above⟩

theorem Inv.loop (h : Inv rate v) (hloop : FactorSearch.loop freq rate fuel v = some v') :
    Inv rate v' := by
  induction fuel generalizing v with
  | zero => cases hloop
  | succ fuel ih =>
    unfold FactorSearch.loop at hloop
    split at hloop
    · obtain ⟨⟨newRate, idleCnt⟩, -, hloop⟩ := Option.bind_eq_some_iff.mp hloop
      dsimp only at hloop
      split at hloop
      · obtain rfl := Option.some.inj hloop
        exact h.record newRate idleCnt
      · obtain ⟨w, hnext, hloop⟩ := Option.bind_eq_some_iff.mp hloop
        exact ih ((h.record newRate idleCnt).next hnext) hloop
    · obtain rfl := Option.some.inj hloop
      exact h

end FactorSearch

variable {busFreqMhz freq rate : U32} {fuel : ℕ} {chan chan' : CpdmaChan}

/-- What a search changes: a limit that was found is at least the rate that was asked
for, and a channel without a limit has no counts. -/
structure Fitted (chan chan' : CpdmaChan) : Prop where
  rest : chan' = { chan with rate := chan'.rate, rateFactor := chan'.rateFactor }
  off : chan.rate = 0 → chan'.rate = 0
  counts : chan'.rate = 0 → chan'.rateFactor = 0
  above : chan'.rate ≠ 0 → chan.rate ≤ chan'.rate

theorem cpdmaChanSetFactors_fitted
    (h : cpdmaChanSetFactors fuel busFreqMhz chan = some (.ok chan')) : Fitted chan chan' := by
  unfold cpdmaChanSetFactors at h
  split at h
  · rename_i hoff
    obtain rfl := Except.ok.inj (Option.some.inj h)
    exact ⟨rfl, fun _ => hoff, fun _ => rfl, fun hcon => absurd hoff hcon⟩
  rename_i hon
  dsimp only at h
  split at h
  · cases Option.some.inj h
  obtain ⟨chan₁, hsearch, hok⟩ := Option.map_eq_some_iff.mp h
  obtain rfl := Except.ok.inj hok
  unfold searchFactors at hsearch
  obtain ⟨v, hloop, rfl⟩ := Option.map_eq_some_iff.mp hsearch
  have hinit : FactorSearch.Inv chan.rate
      { sendCnt := (divRoundUpU32 (busFreqMhz * 1000 * 32 - chan.rate) chan.rate).setWidth 64 } :=
    ⟨BitVec.le_refl _, .inl ⟨rfl, rfl, rfl⟩⟩
  have hinv := hinit.loop hloop
  refine ⟨rfl, fun hcon => absurd hcon hon, fun hnone => ?_, fun hsome => ?_⟩
  · rcases hinv.above with ⟨-, hsend, hidle⟩ | habove
    · dsimp only
      rw [hsend, hidle]
      rfl
    · have hzero : v.bestRate = 0 := hnone
      rw [hzero, BitVec.le_def] at habove
      exact absurd (BitVec.eq_of_toNat_eq (Nat.le_zero.mp habove)) hon
  · rcases hinv.above with ⟨hrate, -⟩ | habove
    · exact absurd hrate hsome
    · exact habove

/-- The search fails only when the bus frequency is not set. -/
theorem cpdmaChanSetFactors_error {err : ℤ}
    (h : cpdmaChanSetFactors fuel busFreqMhz chan = some (.error err)) : err = -einval := by
  unfold cpdmaChanSetFactors at h
  split at h
  · cases Option.some.inj h
  dsimp only at h
  split at h
  · exact (Except.error.inj (Option.some.inj h)).symm
  · obtain ⟨chan₁, -, hok⟩ := Option.map_eq_some_iff.mp h
    cases hok

end CpswDriver.Cpdma
